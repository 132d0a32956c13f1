import Mathlib.Data.List.Nodup
import Mathlib.Data.List.Forall2
import Mathlib.Data.Rat.Defs
import Kedge.Library.Text

/-
  JSON values in the representation of `boost::json::value`.

  Integers are held as 64-bit signed or unsigned numbers, a
  finite double by the rational number it denotes, strings
  as byte strings, and objects as their members in insertion
  order. Equality of values is the library's `operator==`:
  a signed and an unsigned integer are compared by value and
  the order of object members is ignored.

  Key definitions include:
    * `Json.Value`
    * `Json.Value.kind`
    * `Json.Value.find`
    * `Json.Value.equals`
    * `Json.Value.KeysSatisfy`
    * `Json.Value.UniqueKeys`
    * `Json.Value.PlainKeys`
-/

------------------------------------------------------------
-- Values
------------------------------------------------------------

namespace Json

/- The kinds `boost::json::kind` distinguishes. -/
inductive Kind where
  | null
  | bool_
  | int64
  | uint64
  | double_
  | string
  | array
  | object
  deriving DecidableEq, Repr

inductive Value where
  | null
  | bool_ (flag : Bool)
  | int64 (number : Int64)
  | uint64 (number : UInt64)
  | double_ (number : Rat)
  | string (text : Str)
  | array (elements : List Value)
  | object (members : List (Str × Value))

/- The members of an object in insertion order. -/
abbrev Members :=
  List (Str × Value)

/- The keys of an object in insertion order. -/
def keys (members : Members) : List Str :=
  members.map Prod.fst

namespace Value

def kind : Value → Kind
  | .null => .null
  | .bool_ _ => .bool_
  | .int64 _ => .int64
  | .uint64 _ => .uint64
  | .double_ _ => .double_
  | .string _ => .string
  | .array _ => .array
  | .object _ => .object

/- The member of an object with the given key. -/
def find : Members → Str → Option Value
  | [], _ => none
  | (name, value) :: members, key =>
      if name = key then some value else find members key

mutual

/- The library's `operator==` of two values. -/
def equals : Value → Value → Bool
  | .null, .null => true
  | .bool_ a, .bool_ b => a == b
  | .int64 a, .int64 b => a == b
  | .int64 a, .uint64 b =>
      if a < 0 then false else a.toUInt64 == b
  | .uint64 a, .int64 b =>
      if b < 0 then false else b.toUInt64 == a
  | .uint64 a, .uint64 b => a == b
  | .double_ a, .double_ b => a == b
  | .string a, .string b => a == b
  | .array xs, .array ys => equalsElements xs ys
  | .object xs, .object ys =>
      xs.length == ys.length && equalsMembers xs ys
  | _, _ => false

/- Arrays are equal element by element. -/
def equalsElements : List Value → List Value → Bool
  | [], [] => true
  | x :: xs, y :: ys => equals x y && equalsElements xs ys
  | _, _ => false

/- Every member on the left is found on the right. -/
def equalsMembers : Members → Members → Bool
  | [], _ => true
  | (key, value) :: members, others =>
      (match find others key with
        | some other => equals value other
        | none => false) &&
        equalsMembers members others

end

end Value

end Json

------------------------------------------------------------
-- Structural Induction
------------------------------------------------------------

namespace Json

namespace Value

/- Neither an array nor an object. -/
def IsScalar (value : Value) : Prop :=
  value.kind ≠ .array ∧ value.kind ≠ .object

/-
  Induction over values with one hypothesis for the elements
  of an array and one for the members of an object.
-/
@[elab_as_elim]
theorem structuralInduction
    {motive : Value → Prop}
    (scalar : ∀ value, value.IsScalar → motive value)
    (array :
      ∀ elements, (∀ x ∈ elements, motive x) →
        motive (.array elements))
    (object :
      ∀ members : Members,
        (∀ m ∈ members, motive m.2) →
          motive (.object members))
    (value : Value) :
    motive value := by
  refine
    @Value.rec motive
      (fun elements => ∀ x ∈ elements, motive x)
      (fun members => ∀ m ∈ members, motive m.2)
      (fun member => motive member.2)
      ?_ ?_ ?_ ?_ ?_ ?_ array object
      ?nilElement ?consElement ?nilMember ?consMember
      ?member value
  case nilElement => simp
  case consElement =>
    intro head tail hHead hTail
    simpa using ⟨hHead, hTail⟩
  case nilMember => simp
  case consMember =>
    intro head tail hHead hTail m hMember
    rcases List.mem_cons.mp hMember with rfl | hMember
    · exact hHead
    · exact hTail m hMember
  case member =>
    intro key value hValue
    exact hValue
  all_goals
    intros
    exact scalar _ (by simp [IsScalar, kind])

end Value

end Json

------------------------------------------------------------
-- Member Lookup
------------------------------------------------------------

namespace Json

@[simp] theorem keys_nil : keys [] = [] := rfl

@[simp] theorem keys_cons
    (key : Str)
    (value : Value)
    (members : Members) :
    keys ((key, value) :: members) =
      key :: keys members := rfl

@[simp] theorem keys_append
    (left right : Members) :
    keys (left ++ right) = keys left ++ keys right := by
  simp [keys]

theorem mem_keys_of_mem
    {member : Str × Value}
    {members : Members}
    (hMember : member ∈ members) :
    member.1 ∈ keys members :=
  List.mem_map_of_mem hMember

namespace Value

@[simp] theorem find_nil
    (key : Str) :
    find [] key = none := rfl

theorem find_cons
    (name key : Str)
    (value : Value)
    (members : Members) :
    find ((name, value) :: members) key =
      if name = key then some value
      else find members key := rfl

/- A lookup fails exactly on absent keys. -/
@[simp] theorem find_eq_none_iff
    (members : Members)
    (key : Str) :
    find members key = none ↔ key ∉ keys members := by
  induction members with
  | nil => simp
  | cons member members ih =>
      rcases member with ⟨name, value⟩
      by_cases hName : name = key
      · simp [find_cons, hName]
      · simp [find_cons, hName, ih, Ne.symm hName]

/- A lookup only returns values of members with its key. -/
theorem mem_of_find
    {members : Members}
    {key : Str}
    {value : Value}
    (hFind : find members key = some value) :
    (key, value) ∈ members := by
  induction members with
  | nil => simp at hFind
  | cons member members ih =>
      rcases member with ⟨name, other⟩
      by_cases hName : name = key
      · have hValue : other = value := by
          simpa [find_cons, hName] using hFind
        simp [hName, hValue]
      · have hRest : find members key = some value := by
          simpa [find_cons, hName] using hFind
        exact List.mem_cons_of_mem _ (ih hRest)

theorem mem_keys_of_find
    {members : Members}
    {key : Str}
    {value : Value}
    (hFind : find members key = some value) :
    key ∈ keys members := by
  have hMember := mem_keys_of_mem (mem_of_find hFind)
  exact hMember

/- With unique keys every member is found under its key. -/
theorem find_of_mem
    {members : Members}
    {key : Str}
    {value : Value}
    (hUnique : (keys members).Nodup)
    (hMember : (key, value) ∈ members) :
    find members key = some value := by
  induction members with
  | nil => simp at hMember
  | cons member members ih =>
      rcases member with ⟨name, other⟩
      simp only [keys_cons, List.nodup_cons] at hUnique
      rcases List.mem_cons.mp hMember with hHead | hTail
      · cases hHead
        simp [find_cons]
      · have hName : name ≠ key := by
          rintro rfl
          exact hUnique.1 (mem_keys_of_mem hTail)
        simpa [find_cons, hName] using ih hUnique.2 hTail

theorem find_append
    (left right : Members)
    (key : Str) :
    find (left ++ right) key =
      (find left key).or (find right key) := by
  induction left with
  | nil => simp
  | cons member left ih =>
      rcases member with ⟨name, value⟩
      by_cases hName : name = key <;>
        simp [find_cons, hName, ih]

end Value

end Json

------------------------------------------------------------
-- Equality of Containers
------------------------------------------------------------

namespace Json

namespace Value

theorem equalsElements_iff
    (xs ys : List Value) :
    equalsElements xs ys = true ↔
      List.Forall₂ (fun x y => equals x y = true) xs ys := by
  induction xs generalizing ys with
  | nil => cases ys <;> simp [equalsElements]
  | cons x xs ih => cases ys <;> simp [equalsElements, ih]

theorem equalsMembers_iff
    (members others : Members) :
    equalsMembers members others = true ↔
      ∀ m ∈ members, ∃ other,
        find others m.1 = some other ∧
          equals m.2 other = true := by
  induction members with
  | nil => simp [equalsMembers]
  | cons member members ih =>
      rcases member with ⟨key, value⟩
      cases hFind : find others key with
      | none => simp [equalsMembers, hFind]
      | some other => simp [equalsMembers, hFind, ih]

end Value

end Json

------------------------------------------------------------
-- Conditions on Keys
------------------------------------------------------------

namespace Json

namespace Value

mutual

/- Every object in the value has keys satisfying `P`. -/
def KeysSatisfy (P : List Str → Prop) : Value → Prop
  | .array elements => ElementsSatisfy P elements
  | .object members =>
      P (keys members) ∧ MembersSatisfy P members
  | _ => True

def ElementsSatisfy (P : List Str → Prop) :
    List Value → Prop
  | [] => True
  | x :: xs => KeysSatisfy P x ∧ ElementsSatisfy P xs

def MembersSatisfy (P : List Str → Prop) :
    Members → Prop
  | [] => True
  | (_, value) :: members =>
      KeysSatisfy P value ∧ MembersSatisfy P members

end

variable {P : List Str → Prop}

theorem elementsSatisfy_iff
    (elements : List Value) :
    ElementsSatisfy P elements ↔
      ∀ x ∈ elements, KeysSatisfy P x := by
  induction elements with
  | nil => simp [ElementsSatisfy]
  | cons x xs ih => simp [ElementsSatisfy, ih]

theorem membersSatisfy_iff
    (members : Members) :
    MembersSatisfy P members ↔
      ∀ m ∈ members, KeysSatisfy P m.2 := by
  induction members with
  | nil => simp [MembersSatisfy]
  | cons member members ih =>
      rcases member with ⟨key, value⟩
      simp [MembersSatisfy, ih]

theorem keysSatisfy_array_iff
    (elements : List Value) :
    KeysSatisfy P (.array elements) ↔
      ∀ x ∈ elements, KeysSatisfy P x := by
  simp [KeysSatisfy, elementsSatisfy_iff]

theorem keysSatisfy_object_iff
    (members : Members) :
    KeysSatisfy P (.object members) ↔
      P (keys members) ∧
        ∀ m ∈ members, KeysSatisfy P m.2 := by
  simp [KeysSatisfy, membersSatisfy_iff]

/-
  The keys of every object are pairwise distinct, as
  `boost::json::object` guarantees.
-/
def UniqueKeys (value : Value) : Prop :=
  KeysSatisfy List.Nodup value

/- A key that a JSON pointer spells without escapes. -/
def PlainKey (key : Str) : Prop :=
  '/' ∉ key ∧ '~' ∉ key

/- No object has a key with a `/` or a `~`. -/
def PlainKeys (value : Value) : Prop :=
  KeysSatisfy (fun names => ∀ k ∈ names, PlainKey k) value

end Value

end Json
