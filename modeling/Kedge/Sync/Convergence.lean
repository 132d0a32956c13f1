import Kedge.Sync.Caller

/-
  Clients converge to `curr_stats`.

  The messages posted to a client form a chain: each delta
  was computed from null or from the document that the
  client holds after the messages before it. The chain is an
  invariant of every run in which no session joins between
  the assignment of `curr_stats` and the copy of the session
  list while these two steps change the document: such a
  session gets the new document as its snapshot and then the
  delta that leads to it.

  Main declarations:
    * `Chained`
    * `Caller.Synced`
    * `Caller.synced_step`
    * `exists_document_of_chained`
    * `clients_converge`
-/

------------------------------------------------------------
-- Chains of Messages
------------------------------------------------------------

namespace Kedge

namespace Sync

variable {D P : Type}

/- The document the messages leave with the client. -/
def held (messages : List (Message D P)) : Option D :=
  messages.getLast?.map Message.target

/-
  A delta needs a client that holds a document, and a base
  that is null or this document.
-/
def Message.BasedOn
    (f : Format D P)
    (document : Option D) :
    Message D P → Prop
  | .snapshot _ _ _ => True
  | .delta _ base _ _ =>
      ∃ current, document = some current ∧
        (base = f.null ∨ base = current)

/- Every message is based on what the earlier ones leave. -/
def Chained
    (f : Format D P)
    (messages : List (Message D P)) : Prop :=
  ∀ earlier message later,
    messages = earlier ++ message :: later →
      message.BasedOn f (held earlier)

@[simp] theorem held_append_singleton
    (messages : List (Message D P))
    (message : Message D P) :
    held (messages ++ [message]) = some message.target := by
  simp [held]

theorem chained_nil
    (f : Format D P) :
    Chained f [] := by
  intro earlier message later hSplit
  simp at hSplit

theorem Chained.append_singleton
    {f : Format D P}
    {messages : List (Message D P)}
    {message : Message D P}
    (hChained : Chained f messages)
    (hBased : message.BasedOn f (held messages)) :
    Chained f (messages ++ [message]) := by
  intro earlier middle later hSplit
  rcases List.eq_nil_or_concat later with
    rfl | ⟨init, last, rfl⟩
  · have hParts := List.append_inj' hSplit rfl
    rw [← hParts.1, ← (List.cons.inj hParts.2).1]
    exact hBased
  · rw [List.concat_eq_append, ← List.cons_append,
      ← List.append_assoc] at hSplit
    exact hChained earlier middle init
      (List.append_inj' hSplit rfl).1

/- Initial segments of a chain are chains. -/
theorem Chained.of_append
    {f : Format D P}
    {messages rest : List (Message D P)}
    (hChained : Chained f (messages ++ rest)) :
    Chained f messages := by
  intro earlier message later hSplit
  exact hChained earlier message (later ++ rest)
    (by simp [hSplit])

/-
  What is known of the documents in a message: `Good` of a
  snapshot and `Related` of the base and target of a delta,
  whose body is the difference of the two.
-/
def Message.Genuine
    (f : Format D P)
    (Good : D → Prop)
    (Related : D → D → Prop) :
    Message D P → Prop
  | .snapshot _ _ body => Good body
  | .delta _ base target body =>
      Related base target ∧ f.isNull target = false ∧
        body = f.diff base target

end Sync

end Kedge

------------------------------------------------------------
-- The Client's Document
------------------------------------------------------------

namespace Kedge

namespace Sync

variable {D P : Type}

/- A client stores a snapshot and applies a delta. -/
def receive
    (apply : P → D → Option D)
    (document : Option D) :
    Message D P → Option D
  | .snapshot _ _ body => some body
  | .delta _ _ _ body => document.bind (apply body)

/- The document of a client after the given messages. -/
def document
    (apply : P → D → Option D)
    (messages : List (Message D P)) : Option D :=
  messages.foldl (receive apply) none

theorem document_append_singleton
    (apply : P → D → Option D)
    (messages : List (Message D P))
    (message : Message D P) :
    document apply (messages ++ [message]) =
      receive apply (document apply messages) message := by
  simp [document]

/-
  Along a chain the client's document is the same as the one
  the last message is about, for any sameness of documents
  under which patches do what they are for.
-/
theorem exists_document_of_chained
    {f : Format D P}
    {Good : D → Prop}
    {Related : D → D → Prop}
    {apply : P → D → Option D}
    {Same : D → D → Prop}
    (hGood : ∀ document, Good document → Same document document)
    (hApply :
      ∀ base target current,
        Related base target → f.isNull target = false →
          base = f.null ∨ Same current base →
            ∃ result,
              apply (f.diff base target) current =
                some result ∧
              Same result target)
    {messages : List (Message D P)}
    (hChained : Chained f messages)
    (hGenuine : ∀ m ∈ messages, m.Genuine f Good Related)
    {target : D}
    (hHeld : held messages = some target) :
    ∃ current,
      document apply messages = some current ∧
        Same current target := by
  induction messages using List.reverseRecOn
      generalizing target with
  | nil => simp [held] at hHeld
  | append_singleton messages message ih =>
      have hMessage := hGenuine message (by simp)
      rw [held_append_singleton] at hHeld
      rw [document_append_singleton]
      have hEarlier := hChained.of_append
      have hBased := hChained messages message [] rfl
      cases message with
      | snapshot version id body =>
          cases hHeld
          exact ⟨body, rfl, hGood body hMessage⟩
      | delta version base goal body =>
          cases hHeld
          rcases hMessage with ⟨hRelated, hNull, hBody⟩
          rcases hBased with ⟨before, hBefore, hBase⟩
          rcases ih hEarlier
              (fun m hM => hGenuine m (by simp [hM]))
              hBefore with
            ⟨current, hCurrent, hSame⟩
          have hStart :
              base = f.null ∨ Same current base := by
            rcases hBase with hNullBase | rfl
            · exact Or.inl hNullBase
            · exact Or.inr hSame
          rcases hApply base goal current hRelated hNull
              hStart with
            ⟨result, hResult, hTarget⟩
          refine ⟨result, ?_, hTarget⟩
          simp [receive, hCurrent, hBody, hResult]

end Sync

end Kedge

------------------------------------------------------------
-- The Invariant of a Pass
------------------------------------------------------------

namespace Kedge

namespace Sync

namespace Caller

variable {D P : Type}

/- The client can take the delta of the current pass. -/
def Awaits
    (f : Format D P)
    (s : Caller D P)
    (w : SessionId) : Prop :=
  ∃ current, held (s.posted w) = some current ∧
    (s.prevStats = f.null ∨ s.prevStats = current)

/- The client holds `curr_stats`. -/
def HoldsCurrent
    (s : Caller D P)
    (w : SessionId) : Prop :=
  held (s.posted w) = some s.currStats

/-
  What a live client holds: `curr_stats` up to the
  assignment and again once it was sent the delta, the base
  of the delta in between.
-/
def Expects
    (f : Format D P)
    (s : Caller D P)
    (w : SessionId) : Prop :=
  match s.pass with
  | .idle => s.HoldsCurrent w
  | .entered => s.HoldsCurrent w
  | .counted => s.HoldsCurrent w
  | .assigned => s.Awaits f w
  | .built _ => s.Awaits f w
  | .sending _ targets =>
      (w ∈ targets → s.Awaits f w) ∧
        (w ∉ targets → s.HoldsCurrent w)

/- The documents of the current pass. -/
def Prepared
    (f : Format D P)
    (Related : D → D → Prop)
    (s : Caller D P) : Prop :=
  f.isNull s.currStats = false ∧
    Related s.prevStats s.currStats

/- The message is the delta of the current pass. -/
def Carries
    (f : Format D P)
    (s : Caller D P)
    (message : Message D P) : Prop :=
  ∃ version,
    message = .delta version s.prevStats s.currStats
      (f.diff s.prevStats s.currStats)

/- The base of the next difference. -/
def Settled
    (f : Format D P)
    (s : Caller D P) : Prop :=
  s.prevStats = f.null ∨ s.prevStats = s.currStats

/- How the shared documents stand to each other. -/
def DocumentsInv
    (f : Format D P)
    (Related : D → D → Prop)
    (s : Caller D P) : Prop :=
  match s.pass with
  | .idle => s.Settled f
  | .entered => s.Settled f
  | .counted => s.Settled f
  | .assigned => s.Prepared f Related
  | .built message =>
      s.Prepared f Related ∧ s.Carries f message
  | .sending message _ =>
      s.Prepared f Related ∧ s.Carries f message

/-
  Every client's messages are genuine and form a chain, and
  the live clients stand where the pass needs them.
-/
structure Synced
    (f : Format D P)
    (Good : D → Prop)
    (Related : D → D → Prop)
    (s : Caller D P) : Prop where
  chained : ∀ w, Chained f (s.posted w)
  genuine :
    ∀ w, ∀ m ∈ s.posted w, m.Genuine f Good Related
  good : f.isNull s.currStats = false → Good s.currStats
  served :
    ∀ w, s.life w = .live → f.isNull s.currStats = false
  documents : s.DocumentsInv f Related
  clients : ∀ w, s.life w = .live → s.Expects f w

/- The window between the assignment and the copy. -/
def InWindow (s : Caller D P) : Prop :=
  match s.pass with
  | .assigned => True
  | .built _ => True
  | _ => False

/-
  The steps that keep the invariant: documents are good and
  related to their predecessor, and a session that joins in
  the window finds nothing changed by the pass.
-/
def Allowed
    (f : Format D P)
    (Good : D → Prop)
    (Related : D → D → Prop)
    (s : Caller D P) :
    Action D → Prop
  | .join _ _ _ stats =>
      Good stats ∧
        (s.InWindow → s.Settled f)
  | .assign stats => Good stats ∧ Related s.prevStats stats
  | _ => True

end Caller

end Sync

end Kedge

------------------------------------------------------------
-- Every Step Keeps the Invariant
------------------------------------------------------------

namespace Kedge

namespace Sync

namespace Caller

variable {D P : Type}
variable {f : Format D P}
variable {Good : D → Prop}
variable {Related : D → D → Prop}
variable {s : Caller D P}

theorem synced_init
    (f : Format D P)
    (Good : D → Prop)
    (Related : D → D → Prop) :
    Synced f Good Related (init f) where
  chained := fun _ => chained_nil f
  genuine := by
    intro w m hM
    simp [posted, init] at hM
  good := by
    intro hNull
    have hIs := (f.isNull_iff f.null).mpr rfl
    change f.isNull f.null = false at hNull
    rw [hIs] at hNull
    cases hNull
  served := by
    intro w hLive
    cases hLive
  documents := Or.inl rfl
  clients := by
    intro w hLive
    cases hLive

theorem documentsInv_congr
    {next : Caller D P}
    (hPrev : next.prevStats = s.prevStats)
    (hCurr : next.currStats = s.currStats)
    (hPass : next.pass = s.pass) :
    next.DocumentsInv f Related ↔
      s.DocumentsInv f Related := by
  unfold DocumentsInv Settled Prepared Carries
  rw [hPass, hPrev, hCurr]

theorem expects_congr
    {next : Caller D P}
    {w : SessionId}
    (hPosted : next.posted w = s.posted w)
    (hPrev : next.prevStats = s.prevStats)
    (hCurr : next.currStats = s.currStats)
    (hPass : next.pass = s.pass) :
    next.Expects f w ↔ s.Expects f w := by
  unfold Expects HoldsCurrent Awaits
  rw [hPass, hPrev, hCurr, hPosted]

/-
  A step that posts nothing and keeps `curr_stats` only has
  to care about the pass.
-/
theorem Synced.of_pass
    (hSynced : Synced f Good Related s)
    {next : Caller D P}
    (hPosted : ∀ w, next.posted w = s.posted w)
    (hLife : next.life = s.life)
    (hCurr : next.currStats = s.currStats)
    (hDocuments : next.DocumentsInv f Related)
    (hClients : ∀ w, s.life w = .live → next.Expects f w) :
    Synced f Good Related next where
  chained := by
    intro w
    rw [hPosted]
    exact hSynced.chained w
  genuine := by
    intro w
    rw [hPosted]
    exact hSynced.genuine w
  good := by
    rw [hCurr]
    exact hSynced.good
  served := by
    rw [hCurr, hLife]
    exact hSynced.served
  documents := hDocuments
  clients := by
    rw [hLife]
    exact hClients

/- A step of the sessions that posts and creates nothing. -/
theorem Synced.of_sessions
    (hSynced : Synced f Good Related s)
    {next : Caller D P}
    (hPosted : ∀ w, next.posted w = s.posted w)
    (hLife : ∀ w, next.life w = .live → s.life w = .live)
    (hPrev : next.prevStats = s.prevStats)
    (hCurr : next.currStats = s.currStats)
    (hPass : next.pass = s.pass) :
    Synced f Good Related next where
  chained := by
    intro w
    rw [hPosted]
    exact hSynced.chained w
  genuine := by
    intro w
    rw [hPosted]
    exact hSynced.genuine w
  good := by
    rw [hCurr]
    exact hSynced.good
  served := by
    intro w hLive
    rw [hCurr]
    exact hSynced.served w (hLife w hLive)
  documents :=
    (documentsInv_congr hPrev hCurr hPass).mpr
      hSynced.documents
  clients := by
    intro w hLive
    exact
      (expects_congr (hPosted w) hPrev hCurr hPass).mpr
        (hSynced.clients w (hLife w hLive))

theorem statsForJoin_of_nonNull
    (hNull : f.isNull s.currStats = false)
    (stats : D) :
    s.statsForJoin f stats = s.currStats := by
  simp [statsForJoin, hNull]

theorem nonNull_statsForJoin
    {stats : D}
    (hStats : f.isNull stats = false) :
    f.isNull (s.statsForJoin f stats) = false := by
  unfold statsForJoin
  split
  · exact hStats
  · next hNull => simpa using hNull

/- `curr_stats` is only null outside a pass. -/
theorem Synced.settled_of_null
    (hSynced : Synced f Good Related s)
    (hNull : f.isNull s.currStats = true) :
    s.Settled f ∧
      (s.pass = .idle ∨ s.pass = .entered ∨
        s.pass = .counted) := by
  have hDocuments := hSynced.documents
  unfold DocumentsInv Prepared at hDocuments
  cases hPass : s.pass <;>
    simp_all

theorem synced_join_documents
    (hSynced : Synced f Good Related s)
    (session : SessionId)
    (qid : Str)
    (random : Nat)
    (stats : D) :
    (s.join f session qid random stats).DocumentsInv f
      Related := by
  cases hNull : f.isNull s.currStats with
  | false =>
      have hCurr := statsForJoin_of_nonNull hNull stats
      exact
        (documentsInv_congr (by rfl) hCurr (by rfl)).mpr
          hSynced.documents
  | true =>
      rcases hSynced.settled_of_null hNull with
        ⟨hSettled, hPass⟩
      have hPrev : s.prevStats = f.null := by
        have hCurr := (f.isNull_iff _).mp hNull
        rcases hSettled with hPrev | hPrev
        · exact hPrev
        · exact hPrev.trans hCurr
      unfold DocumentsInv
      rcases hPass with hPass | hPass | hPass <;>
        simp [join, post, hPass, Settled, hPrev]

/-
  The joining session holds `curr_stats`. In the window that
  is only what the delta of the pass expects when the pass
  changes nothing.
-/
theorem expects_join_self
    (hSynced : Synced f Good Related s)
    (hTracked : s.Tracked)
    {session : SessionId}
    {qid : Str}
    {random : Nat}
    {stats : D}
    (hLife : s.life session = .unborn)
    (hWindow : s.InWindow → s.Settled f) :
    (s.join f session qid random stats).Expects f
      session := by
  have hHeld :
      (s.join f session qid random stats).HoldsCurrent
        session := by
    unfold HoldsCurrent
    rw [posted_join_self hTracked hLife]
    rfl
  have hDocuments := hSynced.documents
  have hTargets := hTracked.targets
  unfold DocumentsInv at hDocuments
  unfold Expects
  -- The window is where the snapshot must equal the base.
  have hAwaits :
      f.isNull s.currStats = false → s.InWindow →
        (s.join f session qid random stats).Awaits f
          session := by
    intro hNull hIn
    have hCurr := statsForJoin_of_nonNull hNull stats
    refine ⟨s.statsForJoin f stats, hHeld, ?_⟩
    rw [hCurr]
    exact hWindow hIn
  cases hPass : s.pass with
  | idle => simpa [join, post, hPass] using hHeld
  | entered => simpa [join, post, hPass] using hHeld
  | counted => simpa [join, post, hPass] using hHeld
  | assigned =>
      rw [hPass] at hDocuments
      simpa [join, post, hPass] using
        hAwaits hDocuments.1 (by simp [InWindow, hPass])
  | built message =>
      rw [hPass] at hDocuments
      simpa [join, post, hPass] using
        hAwaits hDocuments.1.1 (by simp [InWindow, hPass])
  | sending message targets =>
      have hAbsent : session ∉ targets := by
        intro hIn
        exact (hTargets message targets hPass).2 session hIn
          hLife
      simpa [join, post, hPass, hAbsent] using hHeld

theorem synced_join
    (hSynced : Synced f Good Related s)
    (hTracked : s.Tracked)
    {session : SessionId}
    {qid : Str}
    {random : Nat}
    {stats : D}
    (hLife : s.life session = .unborn)
    (hStats : f.isNull stats = false)
    (hGood : Good stats)
    (hWindow : s.InWindow → s.Settled f) :
    Synced f Good Related
      (s.join f session qid random stats) := by
  have hBody : Good (s.statsForJoin f stats) := by
    unfold statsForJoin
    split
    · exact hGood
    · next hNull => exact hSynced.good (by simpa using hNull)
  have hSelf :=
    posted_join_self (f := f) hTracked hLife qid random stats
  refine
    { chained := ?_
      genuine := ?_
      good := fun _ => hBody
      served := fun _ _ => nonNull_statsForJoin hStats
      documents :=
        synced_join_documents hSynced session qid random stats
      clients := ?_ }
  · intro w
    by_cases hW : w = session
    · subst hW
      rw [hSelf]
      exact (chained_nil f).append_singleton trivial
    · rw [posted_join_of_ne hW]
      exact hSynced.chained w
  · intro w m hM
    by_cases hW : w = session
    · subst hW
      rw [hSelf, List.mem_singleton] at hM
      subst hM
      exact hBody
    · rw [posted_join_of_ne hW] at hM
      exact hSynced.genuine w m hM
  · intro w hLive
    by_cases hW : w = session
    · subst hW
      exact expects_join_self hSynced hTracked hLife hWindow
    · have hOld : s.life w = .live := by
        simpa [join, post, hW] using hLive
      have hCurr :=
        statsForJoin_of_nonNull (hSynced.served w hOld) stats
      exact
        (expects_congr
          (posted_join_of_ne hW qid random stats) (by rfl)
          hCurr (by rfl)).mpr
          (hSynced.clients w hOld)

/- Sending the delta to a live session completes its chain. -/
theorem synced_send
    (hSynced : Synced f Good Related s)
    (hTracked : s.Tracked)
    {message : Message D P}
    {session : SessionId}
    {targets : List SessionId}
    (hPass : s.pass = .sending message (session :: targets))
    (hLife : s.life session = .live) :
    Synced f Good Related
      { s.post session message with
        pass := .sending message targets } := by
  have hDocuments := hSynced.documents
  unfold DocumentsInv at hDocuments
  rw [hPass] at hDocuments
  rcases hDocuments with ⟨hPrepared, hCarries⟩
  have hClient := hSynced.clients session hLife
  unfold Expects at hClient
  rw [hPass] at hClient
  have hAwaits := hClient.1 (by simp)
  have hCarried := hCarries
  rcases hCarried with ⟨version, hMessage⟩
  have hNotIn : session ∉ targets :=
    (List.nodup_cons.mp (hTracked.targets _ _ hPass).1).1
  have hSelf := posted_post_self s session message
  refine
    { chained := ?_
      genuine := ?_
      good := hSynced.good
      served := hSynced.served
      documents := ⟨hPrepared, hCarries⟩
      clients := ?_ }
  · intro w
    by_cases hW : w = session
    · subst hW
      change Chained f ((s.post w message).posted w)
      rw [hSelf]
      apply (hSynced.chained w).append_singleton
      rw [hMessage]
      exact hAwaits
    · change Chained f ((s.post session message).posted w)
      rw [posted_post_of_ne s message hW]
      exact hSynced.chained w
  · intro w m hM
    by_cases hW : w = session
    · subst hW
      change m ∈ (s.post w message).posted w at hM
      rw [hSelf, List.mem_append, List.mem_singleton] at hM
      rcases hM with hOld | rfl
      · exact hSynced.genuine w m hOld
      · rw [hMessage]
        exact ⟨hPrepared.2, hPrepared.1, rfl⟩
    · change m ∈ (s.post session message).posted w at hM
      rw [posted_post_of_ne s message hW] at hM
      exact hSynced.genuine w m hM
  · intro w hLive
    by_cases hW : w = session
    · subst hW
      refine ⟨fun hIn => absurd hIn hNotIn, fun _ => ?_⟩
      change
        held ((s.post w message).posted w) =
          some s.currStats
      rw [hSelf, held_append_singleton, hMessage]
      rfl
    · have hOther := hSynced.clients w hLive
      unfold Expects at hOther
      rw [hPass] at hOther
      have hSame := posted_post_of_ne s message hW
      unfold Awaits HoldsCurrent at hOther
      rw [← hSame] at hOther
      exact
        ⟨fun hIn => hOther.1 (by simp [hIn]),
          fun hOut => hOther.2 (by simp [hW, hOut])⟩

/- Allowed steps keep the invariant. -/
theorem synced_step
    {next : Caller D P}
    {action : Action D}
    (hAllowed : s.Allowed f Good Related action)
    (hTracked : s.Tracked)
    (hSynced : Synced f Good Related s)
    (hStep : s.step f action = some next) :
    Synced f Good Related next := by
  have hDocuments := hSynced.documents
  have hClients := hSynced.clients
  unfold DocumentsInv at hDocuments
  unfold Expects at hClients
  cases next_of_step hStep with
  | join hLife hStats =>
      exact synced_join hSynced hTracked hLife hStats
        hAllowed.1 hAllowed.2
  | @release session hLife _ =>
      refine hSynced.of_sessions (by intro; rfl) ?_
        (by rfl) (by rfl) (by rfl)
      intro w hLive
      by_cases hW : w = session
      · simp [release, hW] at hLive
      · simpa [release, hW] using hLive
  | @leave session hLife =>
      refine hSynced.of_sessions (by intro; rfl) ?_
        (by rfl) (by rfl) (by rfl)
      intro w hLive
      by_cases hW : w = session
      · simp [leave, hW] at hLive
      · simpa [leave, hW] using hLive
  | runStrand hStrand =>
      exact hSynced.of_sessions (posted_runStrand s hStrand)
        (fun _ hLive => hLive) (by rfl) (by rfl) (by rfl)
  | skip _ _ => exact hSynced
  | enter hPass _ =>
      rw [hPass] at hDocuments hClients
      exact hSynced.of_pass (by intro; rfl) (by rfl) (by rfl)
        hDocuments hClients
  | count hPass =>
      rw [hPass] at hDocuments hClients
      exact hSynced.of_pass (by intro; rfl) (by rfl) (by rfl)
        hDocuments hClients
  | assign hPass hStats =>
      rw [hPass] at hDocuments hClients
      refine
        { chained := hSynced.chained
          genuine := hSynced.genuine
          good := fun _ => hAllowed.1
          served := fun _ _ => hStats
          documents := ⟨hStats, hAllowed.2⟩
          clients := ?_ }
      intro w hLive
      exact ⟨s.currStats, hClients w hLive, hDocuments⟩
  | build hPass =>
      rw [hPass] at hDocuments hClients
      exact hSynced.of_pass (by intro; rfl) (by rfl) (by rfl)
        ⟨hDocuments, s.syncVer, rfl⟩ hClients
  | copy hPass hOrder =>
      rw [hPass] at hDocuments hClients
      refine hSynced.of_pass (by intro; rfl) (by rfl)
        (by rfl) hDocuments ?_
      intro w hLive
      have hIn : w ∈ s.sessions :=
        (hTracked.member w).mpr (Or.inl hLive)
      exact
        ⟨fun _ => hClients w hLive,
          fun hOut =>
            absurd (hOrder.mem_iff.mpr hIn) hOut⟩
  | send hPass hLife =>
      exact synced_send hSynced hTracked hPass hLife
  | @passOver message session targets hPass hLife =>
      rw [hPass] at hDocuments hClients
      refine hSynced.of_pass (by intro; rfl) (by rfl)
        (by rfl) hDocuments ?_
      intro w hLive
      have hW : w ≠ session := by
        rintro rfl
        exact hLife hLive
      exact
        ⟨fun hIn => (hClients w hLive).1 (by simp [hIn]),
          fun hOut =>
            (hClients w hLive).2 (by simp [hW, hOut])⟩
  | finish hPass =>
      rw [hPass] at hDocuments hClients
      refine hSynced.of_pass (by intro; rfl) (by rfl)
        (by rfl) (Or.inr rfl) ?_
      intro w hLive
      exact (hClients w hLive).2 (by simp)

theorem synced_of_exec
    {actions : List (Action D)}
    (hMeets :
      Run.Meets (step f)
        (fun s action => s.Allowed f Good Related action)
        (init f) actions)
    (hExec : Run.exec (step f) (init f) actions = some s) :
    Synced f Good Related s := by
  have hKeep :
      ∀ s action next,
        Allowed f Good Related s action →
          s.Tracked ∧ Synced f Good Related s →
            s.step f action = some next →
              next.Tracked ∧ Synced f Good Related next :=
    fun _ _ _ hAllowed hInv hStep =>
      ⟨tracked_step hInv.1 hStep,
        synced_step hAllowed hInv.1 hInv.2 hStep⟩
  have hBoth :=
    Run.invariant_of_meets hKeep
      ⟨tracked_init f, synced_init f Good Related⟩
      hMeets hExec
  exact hBoth.2

end Caller

end Sync

end Kedge

------------------------------------------------------------
-- Convergence of Clients
------------------------------------------------------------

namespace Kedge

namespace Sync

variable {D P : Type}

/-
  No session joins between the assignment of `curr_stats`
  and the copy of the session list, unless the base of the
  pass is null or the pass changes nothing.
-/
def JoinsOutsideWindow
    (f : Format D P)
    (s : Caller D P) :
    Action D → Prop
  | .join _ _ _ _ => s.InWindow → s.Settled f
  | _ => True

/- A correct difference makes the copies exact. -/
theorem document_of_chained
    {f : Format D P}
    {apply : P → D → Option D}
    (hDiff : ∀ a b, apply (f.diff a b) a = some b)
    (hReplace :
      ∀ a b, b ≠ f.null →
        apply (f.diff f.null b) a = some b)
    {messages : List (Message D P)}
    {target : D}
    (hChained : Chained f messages)
    (hGenuine :
      ∀ m ∈ messages,
        m.Genuine f (fun _ => True) (fun _ _ => True))
    (hHeld : held messages = some target) :
    document apply messages = some target := by
  have hApply :
      ∀ base target current,
        True → f.isNull target = false →
          base = f.null ∨ current = base →
            ∃ result,
              apply (f.diff base target) current =
                some result ∧
              result = target := by
    intro base target current _ hNull hBase
    have hTarget : target ≠ f.null := by
      intro hEq
      rw [(f.isNull_iff target).mpr hEq] at hNull
      cases hNull
    rcases hBase with rfl | rfl
    · exact ⟨target, hReplace current target hTarget, rfl⟩
    · exact ⟨target, hDiff current target, rfl⟩
  rcases exists_document_of_chained
      (fun _ _ => rfl) hApply hChained hGenuine hHeld with
    ⟨current, hCurrent, rfl⟩
  exact hCurrent

/-
  With a correct difference, whose patch from null replaces
  the whole document, every delta a client receives has a
  base that is null or the document the client holds then,
  and between two passes every live client in the session
  list holds `curr_stats`.
-/
theorem clients_converge
    (f : Format D P)
    (apply : P → D → Option D)
    (hDiff : ∀ a b, apply (f.diff a b) a = some b)
    (hReplace :
      ∀ a b, b ≠ f.null →
        apply (f.diff f.null b) a = some b)
    (actions : List (Action D))
    (s : Caller D P)
    (hMeets :
      Run.Meets (Caller.step f) (JoinsOutsideWindow f)
        (Caller.init f) actions)
    (hExec :
      Run.exec (Caller.step f) (Caller.init f) actions =
        some s) :
    (∀ w earlier version base target body later,
      s.posted w =
          earlier ++ .delta version base target body :: later →
        base = f.null ∨
          document apply earlier = some base) ∧
      (s.pass = .idle →
        ∀ w ∈ s.sessions, s.life w = .live →
          document apply (s.posted w) =
            some s.currStats) := by
  have hAllowed :
      Run.Meets (Caller.step f)
        (fun s action =>
          s.Allowed f (fun _ => True) (fun _ _ => True)
            action)
        (Caller.init f) actions := by
    apply hMeets.mono
    intro s action hOutside
    cases action <;>
      simp_all [Caller.Allowed, JoinsOutsideWindow]
  have hSynced := Caller.synced_of_exec hAllowed hExec
  constructor
  · intro w earlier version base target body later hSplit
    have hChained := hSynced.chained w
    have hGenuine := hSynced.genuine w
    rw [hSplit] at hChained hGenuine
    rcases hChained earlier _ later rfl with
      ⟨current, hHeld, hBase | rfl⟩
    · exact Or.inl hBase
    · right
      exact document_of_chained hDiff hReplace
        hChained.of_append
        (fun m hM => hGenuine m (by simp [hM])) hHeld
  · intro hIdle w _ hLive
    have hClient := hSynced.clients w hLive
    unfold Caller.Expects at hClient
    rw [hIdle] at hClient
    exact document_of_chained hDiff hReplace
      (hSynced.chained w) (hSynced.genuine w) hClient

/-
  Numbers as documents, with zero as null, and the change of
  a number as a patch: a correct difference that does harm
  when it is applied to the wrong base.
-/
def shiftFormat : Format Int (Int → Int) where
  null := 0
  isNull := fun document => document == 0
  isNull_iff := by
    intro document
    exact beq_iff_eq
  diff := fun base target document =>
    if base = 0 then target else document + (target - base)

def applyShift (patch : Int → Int) (document : Int) :
    Option Int :=
  some (patch document)

theorem applyShift_diff
    (a b : Int) :
    applyShift (shiftFormat.diff a b) a = some b := by
  by_cases hNull : a = 0
  · simp [applyShift, shiftFormat, hNull]
  · simp only [applyShift, shiftFormat, hNull, if_false,
      Option.some.injEq]
    omega

theorem applyShift_replace
    (a b : Int) :
    applyShift (shiftFormat.diff shiftFormat.null b) a =
      some b := by
  simp [applyShift, shiftFormat]

/- A client that joined before a pass holds its document. -/
theorem clients_converge_one_pass :
    ∃ s,
      Run.exec (Caller.step shiftFormat)
          (Caller.init shiftFormat)
          (.join 1 [] 1000 7 :: passActions 8 [1]) =
        some s ∧
      document applyShift (s.posted 1) = some 8 := by
  have hMeets :
      Run.Meets (Caller.step shiftFormat)
        (JoinsOutsideWindow shiftFormat)
        (Caller.init shiftFormat)
        (.join 1 [] 1000 7 :: passActions 8 [1]) := by
    refine ⟨fun hWindow => hWindow.elim, ?_⟩
    rintro _ ⟨⟩
    iterate 7
      refine ⟨trivial, ?_⟩
      rintro _ ⟨⟩
    trivial
  refine ⟨_, rfl, ?_⟩
  exact
    (clients_converge shiftFormat applyShift applyShift_diff
      (fun a b _ => applyShift_replace a b) _ _ hMeets
      rfl).2 rfl 1 (by decide) rfl

/-
  A session that joins between the assignment and the copy
  is sent the new document and then the change that leads to
  it: it ends with 9 where `curr_stats` is 8.
-/
theorem join_in_window_diverges :
    (∀ a b,
      applyShift (shiftFormat.diff a b) a = some b) ∧
    (∀ a b, b ≠ shiftFormat.null →
      applyShift (shiftFormat.diff shiftFormat.null b) a =
        some b) ∧
    ∃ s,
      Run.exec (Caller.step shiftFormat)
          (Caller.init shiftFormat)
          (.join 1 [] 1000 7 :: passActions 7 [1] ++
            [.enter, .count, .assign 8, .join 2 [] 1000 8,
              .build, .copy [1, 2], .send, .send,
              .finish]) =
        some s ∧
      s.pass = .idle ∧ 2 ∈ s.sessions ∧
      s.life 2 = .live ∧ s.currStats = 8 ∧
      document applyShift (s.posted 2) = some 9 ∧
      ∃ earlier version body,
        s.posted 2 =
          earlier ++ [.delta version 7 8 body] ∧
        document applyShift earlier = some 8 := by
  refine
    ⟨applyShift_diff,
      fun a b _ => applyShift_replace a b, _, rfl, rfl,
      by decide, rfl, rfl, rfl, ?_⟩
  exact
    ⟨[.snapshot 4 (n2hex 1000) 8], 4,
      shiftFormat.diff 7 8, rfl, rfl⟩

end Sync

end Kedge
