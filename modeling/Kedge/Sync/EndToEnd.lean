import Kedge.JsonDiff.Replica
import Kedge.Sync.Serial

/-
  Synchronization with JSON documents and `json_diff`.

  The protocol of the caller is instantiated with the JSON
  documents of `getSyncStats`, and its messages are the JSON
  objects that are sent. A client stores the body of its
  snapshot and applies the body of every delta as a JSON
  patch. As long as no array grows by more than one element
  between two passes, every client follows the server.

  Main declarations:
    * `jsonFormat`
    * `Message.toJson`
    * `clientDocument`
    * `exists_applyPatch_diff`
    * `clients_hold_currStats`
-/

------------------------------------------------------------
-- JSON Messages
------------------------------------------------------------

namespace Kedge

namespace Sync

open Json

def jsonFormat : Format Value (List Value) where
  null := .null
  isNull := fun document => document.kind == .null
  isNull_iff := by
    intro document
    cases document <;> simp [Value.kind]
  diff := fun base target => jsonDiff base target []

/- The object that `join` or `doLoop` serializes. -/
def Message.toJson : Message Value (List Value) → Value
  | .snapshot version id body =>
      .object
        [("version".toList, .uint64 version),
          ("id".toList, .string id),
          ("body".toList, body)]
  | .delta version _ _ body =>
      .object
        [("version".toList, .uint64 version),
          ("delta".toList, .bool_ true),
          ("body".toList, .array body)]

/-
  A client takes the body of a message as its document, or
  as a patch for it if the message is marked as a delta.
-/
def clientReceive
    (document : Option Value) :
    Value → Option Value
  | .object members =>
      match Value.find members "delta".toList,
          Value.find members "body".toList with
      | some (.bool_ true), some (.array patch) =>
          document.bind (applyPatch patch)
      | none, some body => some body
      | _, _ => none
  | _ => none

/- The document of a client after the given messages. -/
def clientDocument (messages : List Value) : Option Value :=
  messages.foldl clientReceive none

theorem clientReceive_toJson
    (document : Option Value)
    (message : Message Value (List Value)) :
    clientReceive document message.toJson =
      receive applyPatch document message := by
  cases message with
  | snapshot version id body =>
      simp [clientReceive, Message.toJson, Value.find,
        receive]
  | delta version base target body =>
      simp [clientReceive, Message.toJson, Value.find,
        receive]

theorem clientDocument_map_toJson
    (messages : List (Message Value (List Value))) :
    clientDocument (messages.map Message.toJson) =
      document applyPatch messages := by
  unfold clientDocument document
  rw [List.foldl_map]
  congr 1
  funext current message
  exact clientReceive_toJson current message

end Sync

end Kedge

------------------------------------------------------------
-- Documents of a Run
------------------------------------------------------------

namespace Kedge

namespace Sync

open Json

/-
  The documents the server hands out: the keys of an object
  are unique by its type, and free of the characters that a
  JSON pointer escapes.
-/
def WellFormed (document : Value) : Prop :=
  document.UniqueKeys ∧ document.PlainKeys

/- A change that `json_diff` can transmit. -/
def Transmits (base target : Value) : Prop :=
  WellFormed target ∧ growsByAtMostOne base target = true

/- The client's value is a copy of the server's document. -/
def CopyOf (current document : Value) : Prop :=
  WellFormed document ∧ current.UniqueKeys ∧
    current.denote = document.denote

theorem CopyOf.refl
    {document : Value}
    (hDocument : WellFormed document) :
    CopyOf document document :=
  ⟨hDocument, hDocument.1, rfl⟩

/- Equality of the client's value with the document. -/
theorem CopyOf.equals
    {current document : Value}
    (hCopy : CopyOf current document) :
    current.equals document = true :=
  (Value.equals_iff_denote_eq current document hCopy.2.1
    hCopy.1.1).mpr hCopy.2.2

theorem exists_applyPatch_diff
    (base target current : Value)
    (hTransmits : Transmits base target)
    (hTarget : jsonFormat.isNull target = false)
    (hBase :
      base = jsonFormat.null ∨ CopyOf current base) :
    ∃ result,
      applyPatch (jsonFormat.diff base target) current =
        some result ∧
      CopyOf result target := by
  rcases hTransmits with ⟨hWell, hGrows⟩
  rcases hBase with rfl | ⟨hBaseWell, hCurrent, hCopy⟩
  · refine ⟨target, ?_, CopyOf.refl hWell⟩
    apply applyPatch_jsonDiff_null
    simpa [jsonFormat] using hTarget
  · rcases applyPatch_jsonDiff_copy hBaseWell.1 hWell.1
        hBaseWell.2 hWell.2 hGrows hCurrent hCopy with
      ⟨result, hResult, hUnique, hDenote⟩
    exact ⟨result, hResult, hWell, hUnique, hDenote⟩

/- A listed client holds a copy of the current document. -/
theorem exists_copy_of_synced
    {s : Caller Value (List Value)}
    (hRest : s.AtRest)
    (hTracked : s.Tracked)
    (hSynced :
      Caller.Synced jsonFormat WellFormed Transmits s)
    {w : SessionId}
    (hMember : w ∈ s.sessions) :
    ∃ current,
      document applyPatch (s.onSend w) =
        some current ∧
      CopyOf current s.currStats := by
  rcases Caller.held_onSend hRest hTracked hSynced
      hMember with ⟨hPosted, hHeld⟩
  have hChained := hSynced.chained w
  have hGenuine := hSynced.genuine w
  rw [hPosted] at hChained hGenuine
  exact
    exists_document_of_chained
      (fun _ hDocument => CopyOf.refl hDocument)
      exists_applyPatch_diff hChained hGenuine hHeld

/-
  The documents of a serial run. `prev_stats` is the
  document of the last pass, and null before the first one.
  A pass without sessions asks for no document.
-/
def DocumentsGrowSlowly
    (s : Caller Value (List Value)) :
    SerialAction Value → Prop
  | .join _ _ _ stats => WellFormed stats
  | .leave _ => True
  | .pass stats _ =>
      s.sessions ≠ [] →
        WellFormed stats ∧
          growsByAtMostOne s.prevStats stats = true

end Sync

end Kedge

------------------------------------------------------------
-- Clients Follow the Server
------------------------------------------------------------

namespace Kedge

namespace Sync

open Json

/-
  In every state that a serial run reaches, the document of
  every connected client equals `curr_stats`.
-/
theorem clients_hold_currStats
    (actions : List (SerialAction Value))
    (s : Caller Value (List Value))
    (hMeets :
      Run.Meets (Caller.serialStep jsonFormat)
        DocumentsGrowSlowly (Caller.init jsonFormat) actions)
    (hExec :
      Run.exec (Caller.serialStep jsonFormat)
          (Caller.init jsonFormat) actions =
        some s)
    (w : SessionId)
    (hMember : w ∈ s.sessions) :
    ∃ document,
      clientDocument ((s.onSend w).map Message.toJson) =
        some document ∧
      document.equals s.currStats = true := by
  have hAllowed :
      Run.Meets (Caller.serialStep jsonFormat)
        (fun s action =>
          s.SerialAllowed WellFormed Transmits action)
        (Caller.init jsonFormat) actions := by
    apply hMeets.mono
    intro s action hSlowly
    cases action with
    | join session qid random stats => exact hSlowly
    | leave session => trivial
    | pass stats order =>
        intro hSessions
        exact ⟨(hSlowly hSessions).1, hSlowly hSessions⟩
  rcases Caller.synced_of_serial hAllowed hExec with
    ⟨hRest, hTracked, hSynced⟩
  have hLive : s.life w = .live := by
    rcases (hTracked.member w).mp hMember with
      hLive | hExpired
    · exact hLive
    · exact absurd hExpired (hRest.lives w)
  have hHeld : held (s.posted w) = some s.currStats := by
    have hClient := hSynced.clients w hLive
    unfold Caller.Expects at hClient
    rw [hRest.idle] at hClient
    exact hClient
  have hPosted : s.posted w = s.onSend w := by
    unfold Caller.posted
    rw [hRest.delivered w, List.append_nil]
  rcases exists_document_of_chained
      (fun _ hDocument => CopyOf.refl hDocument)
      exists_applyPatch_diff (hSynced.chained w)
      (hSynced.genuine w) hHeld with
    ⟨current, hCurrent, hCopy⟩
  refine ⟨current, ?_, hCopy.equals⟩
  rw [clientDocument_map_toJson, ← hPosted]
  exact hCurrent

/-
  A client joins before the first pass, follows one pass and
  leaves; a later client starts from the document left by
  the last pass and follows the next one.
-/
theorem clients_hold_currStats_two_clients :
    ∃ s,
      Run.exec (Caller.serialStep jsonFormat)
          (Caller.init jsonFormat)
          [.join 1 [] 1000 (.array []),
            .pass (.array [.int64 1]) [1],
            .leave 1,
            .pass (.array [.int64 5, .int64 6, .int64 7]) [],
            .join 2 [] 2000 (.array []),
            .pass (.array [.int64 1, .int64 2]) [2]] =
        some s ∧
      2 ∈ s.sessions ∧
      ∃ document,
        clientDocument ((s.onSend 2).map Message.toJson) =
          some document ∧
        document.equals s.currStats = true := by
  refine ⟨_, rfl, by decide, ?_⟩
  refine clients_hold_currStats
    [.join 1 [] 1000 (.array []),
      .pass (.array [.int64 1]) [1],
      .leave 1,
      .pass (.array [.int64 5, .int64 6, .int64 7]) [],
      .join 2 [] 2000 (.array []),
      .pass (.array [.int64 1, .int64 2]) [2]]
    _ ?_ rfl 2 (by decide)
  have hEmpty : WellFormed (.array []) := by
    simp [WellFormed, Value.UniqueKeys, Value.PlainKeys,
      Value.KeysSatisfy, Value.ElementsSatisfy]
  have hFirst : WellFormed (.array [.int64 1]) := by
    simp [WellFormed, Value.UniqueKeys, Value.PlainKeys,
      Value.KeysSatisfy, Value.ElementsSatisfy]
  have hSecond :
      WellFormed (.array [.int64 1, .int64 2]) := by
    simp [WellFormed, Value.UniqueKeys, Value.PlainKeys,
      Value.KeysSatisfy, Value.ElementsSatisfy]
  refine ⟨hEmpty, ?_⟩
  rintro _ ⟨⟩
  refine ⟨fun _ => ⟨hFirst, rfl⟩, ?_⟩
  rintro _ ⟨⟩
  refine ⟨trivial, ?_⟩
  rintro _ ⟨⟩
  -- The pass without sessions may skip any document.
  refine ⟨fun hSessions => absurd rfl hSessions, ?_⟩
  rintro _ ⟨⟩
  refine ⟨hEmpty, ?_⟩
  rintro _ ⟨⟩
  exact ⟨fun _ => ⟨hSecond, rfl⟩, fun _ _ => trivial⟩

end Sync

end Kedge
