import Piki.ProcessingFencing

/-! What the processing columns of a row say over whole runs of the outbox. A run
carries its history of claims and of claims that ended. The times of a run are
arbitrary, so a shared clock that never goes back is a special case. -/
namespace Piki.OutboxRows
open Table Transition MessageProcessingStore ConversationRepository Outbox

inductive RowEvent
  | claimed (now : Time)
  | settled
  deriving DecidableEq, Repr

structure State where
  tables : ConversationTables
  history : List (Uuid × RowEvent)
  deriving DecidableEq, Repr

/-- `complete` and `fail` are called with the id of any row. -/
inductive Label
  | enqueue (draw : Draw) (account : String) (message : InboundMessage) (traceId : String)
  | claim (now : Time) (locked : List Uuid)
  | settle (messageRecordId : Uuid) (q : Settlement)
  deriving DecidableEq, Repr

/-- A session that raises is rolled back. -/
def step (claimTimeoutSeconds : ℕ) (s : State) : Label → Option State
  | .enqueue draw account message traceId =>
    match recordInbound s.tables draw account message traceId true with
    | .ok (_, db) => some { s with tables := db }
    | .error _ => some s
  | .claim now locked =>
    match claimNext s.tables now claimTimeoutSeconds locked with
    | .ok (some job, db) => some ⟨db, s.history ++ [(job.messageRecordId, .claimed now)]⟩
    | .ok (none, db) => some { s with tables := db }
    | .error _ => some s
  | .settle messageRecordId q =>
    match q.run s.tables messageRecordId with
    | .ok (_, db) => some ⟨db, s.history ++ [(messageRecordId, .settled)]⟩
    | .error _ => some s

def start : State := ⟨.empty, []⟩

/-- What happened to one row, in order. -/
def rowEvents (history : List (Uuid × RowEvent)) (id : Uuid) : List RowEvent :=
  history.filterMap fun e => if e.1 = id then some e.2 else none

def RowEvent.isClaim : RowEvent → Bool
  | .claimed _ => true
  | .settled => false

/-- How often the row was claimed. -/
def claimCount (history : List (Uuid × RowEvent)) (id : Uuid) : ℕ :=
  (rowEvents history id).countP RowEvent.isClaim

/-- Two claims with nothing between them are the timeout apart. -/
def Apart (timeout : ℕ) : RowEvent → RowEvent → Prop
  | .claimed x, .claimed y => x + timeout * 1000000 ≤ y
  | _, _ => True

@[simp] theorem rowEvents_append_self (history : List (Uuid × RowEvent)) (id : Uuid)
    (e : RowEvent) : rowEvents (history ++ [(id, e)]) id = rowEvents history id ++ [e] := by
  simp [rowEvents]

theorem rowEvents_append_of_ne (history : List (Uuid × RowEvent)) {id id' : Uuid} (e : RowEvent)
    (h : id' ≠ id) : rowEvents (history ++ [(id', e)]) id = rowEvents history id := by
  simp [rowEvents, h]

/-- What the columns of a row and its history say about each other. -/
structure RowInv (timeout : ℕ) (s : State) (m : MessageRecord) : Prop where
  attempts : m.processingAttempts = claimCount s.history m.id
  inbound : m.direction = .inbound
  enqueued : m.processingStatus ≠ none
  pending : m.processingStatus = some .pending →
    m.processingAvailableAt ≠ none ∧ m.processingClaimedAt = none
  processing : m.processingStatus = some .processing → ∃ now,
    m.processingClaimedAt = some now ∧ (rowEvents s.history m.id).getLast? = some (.claimed now)
  rest : m.processingStatus ≠ some .processing →
    ∀ now, (rowEvents s.history m.id).getLast? ≠ some (.claimed now)
  terminal : m.processingStatus = some .completed ∨ m.processingStatus = some .failed →
    m.processingAvailableAt = none ∧ m.processingClaimedAt = none
  apart : (rowEvents s.history m.id).IsChain (Apart timeout)

structure Inv (timeout : ℕ) (s : State) : Prop where
  constraints : s.tables.Constraints
  rows : ∀ m ∈ s.tables.messages, RowInv timeout s m
  history : ∀ e ∈ s.history, ∃ m ∈ s.tables.messages, m.id = e.1

theorem inv_start (timeout : ℕ) : Inv timeout start where
  constraints := ConversationTables.empty_constraints
  rows m hm := by cases hm
  history e he := by cases he

variable {timeout : ℕ} {s t : State}

/-- A row that an event of another row leaves alone. -/
theorem RowInv.other {m : MessageRecord} (h : RowInv timeout s m) {db : ConversationTables}
    {id : Uuid} {e : RowEvent} (hid : id ≠ m.id) :
    RowInv timeout ⟨db, s.history ++ [(id, e)]⟩ m := by
  have hevents : rowEvents (s.history ++ [(id, e)]) m.id = rowEvents s.history m.id :=
    rowEvents_append_of_ne _ _ hid
  refine ⟨?_, h.inbound, h.enqueued, h.pending, ?_, ?_, h.terminal, ?_⟩
  · rw [claimCount, hevents]
    exact h.attempts
  · rw [hevents]
    exact h.processing
  · rw [hevents]
    exact h.rest
  · rw [hevents]
    exact h.apart

/-- A row that was just enqueued. -/
theorem inv_enqueue {draw : Draw} {account traceId : String} {message : InboundMessage}
    {p : PersistedInbound} {db : ConversationTables} (h : Inv timeout s)
    (hr : recordInbound s.tables draw account message traceId true = .ok (p, db)) :
    Inv timeout { s with tables := db } := by
  refine ⟨recordInbound_constraints h.constraints hr, ?_, ?_⟩
  · intro m hm
    obtain ⟨db₁, hup, hins⟩ := recordInbound_ok hr
    have hkept : m ∈ s.tables.messages → RowInv timeout { s with tables := db } m := by
      intro hm
      have hrow := h.rows m hm
      exact ⟨hrow.attempts, hrow.inbound, hrow.enqueued, hrow.pending, hrow.processing, hrow.rest,
        hrow.terminal, hrow.apart⟩
    rcases hins with ⟨-, rfl, -⟩ | ⟨-, -, hfresh, rfl⟩
    · rw [upsertConversation_messages hup] at hm
      exact hkept hm
    · rcases List.mem_append.mp hm with hm | hm
      · exact hkept hm
      · have hnone : rowEvents s.history draw.messageUuid = [] := by
          refine List.filterMap_eq_nil_iff.mpr ?_
          intro e he
          obtain ⟨x, hx, hxe⟩ := h.history e he
          rw [if_neg]
          intro hid
          exact conflict_eq_none.mp hfresh _ rfl x hx (congrArg some (hxe.trans hid))
        rw [List.mem_singleton.mp hm]
        refine ⟨?_, rfl, fun he => (by cases he), fun _ => ⟨fun he => (by cases he), rfl⟩,
          fun he => (by cases he), ?_, ?_, ?_⟩
        · change 0 = claimCount s.history draw.messageUuid
          rw [claimCount, hnone]
          rfl
        · intro _ now
          change (rowEvents s.history draw.messageUuid).getLast? ≠ _
          rw [hnone]
          exact fun he => by cases he
        · rintro (he | he) <;> cases he
        · change (rowEvents s.history draw.messageUuid).IsChain (Apart timeout)
          rw [hnone]
          exact .nil
  · intro e he
    obtain ⟨m, hm, hid⟩ := h.history e he
    obtain ⟨rows, hrows, -⟩ := recordInbound_rows hr
    exact ⟨m, by rw [hrows]; exact List.mem_append_left _ hm, hid⟩

/-- The rows after one row was rewritten and its event recorded. -/
theorem inv_rewrite {p : MessageRecord → Bool} {f : MessageRecord → MessageRecord} {id : Uuid}
    {e : RowEvent} (h : Inv timeout s) (hf : ∀ m, (f m).id = m.id ∧
      (f m).externalMessageId = m.externalMessageId)
    (hp : ∀ m ∈ s.tables.messages, p m = true ↔ m.id = id)
    (hid : ∃ m ∈ s.tables.messages, m.id = id)
    (hrow : ∀ m ∈ s.tables.messages, m.id = id →
      RowInv timeout ⟨{ s.tables with messages := updateWhere p f s.tables.messages },
        s.history ++ [(id, e)]⟩ (f m)) :
    Inv timeout ⟨{ s.tables with messages := updateWhere p f s.tables.messages },
      s.history ++ [(id, e)]⟩ := by
  have hkeep : ∀ x ∈ s.tables.messages, ∃ m ∈ updateWhere p f s.tables.messages, m.id = x.id := by
    intro x hx
    refine ⟨_, mem_updateWhere.mpr ⟨x, hx, rfl⟩, ?_⟩
    split_ifs
    · exact (hf x).1
    · rfl
  refine ⟨⟨h.constraints.conversation_id, h.constraints.conversation_identity,
    unique_updateWhere (fun m _ => congrArg some (hf m).1) h.constraints.message_id,
    unique_updateWhere (fun m _ => (hf m).2) h.constraints.message_external⟩, ?_, ?_⟩
  · intro m hm
    obtain ⟨x, hx, rfl⟩ := mem_updateWhere.mp hm
    split_ifs with hpx
    · exact hrow x hx ((hp x hx).mp hpx)
    · refine (h.rows x hx).other ?_
      intro he
      exact hpx ((hp x hx).mpr he.symm)
  · intro ev hev
    rcases List.mem_append.mp hev with hev | hev
    · obtain ⟨x, hx, hxe⟩ := h.history ev hev
      obtain ⟨m, hm, hmx⟩ := hkeep x hx
      exact ⟨m, hm, hmx.trans hxe⟩
    · obtain ⟨x, hx, hxid⟩ := hid
      obtain ⟨m, hm, hmx⟩ := hkeep x hx
      rw [List.mem_singleton.mp hev]
      exact ⟨m, hm, hmx.trans hxid⟩

theorem apart_append {events : List RowEvent} {e : RowEvent} (h : events.IsChain (Apart timeout))
    (he : ∀ last, events.getLast? = some last → Apart timeout last e) :
    (events ++ [e]).IsChain (Apart timeout) := by
  refine h.append (.singleton e) ?_
  intro last hlast x hx
  cases hx
  exact he last hlast

/-- The claimed row: its counter and its history move together, and a claim that it
takes over is older than the timeout. -/
theorem RowInv.claimed {m : MessageRecord} {now : Time} {db : ConversationTables}
    (h : RowInv timeout s m) (hclaim : claimable now (now - timeout * 1000000) m = true) :
    RowInv timeout ⟨db, s.history ++ [(m.id, .claimed now)]⟩ (markProcessing now m) := by
  have hevents : rowEvents (s.history ++ [(m.id, .claimed now)]) m.id =
      rowEvents s.history m.id ++ [.claimed now] := rowEvents_append_self _ _ _
  refine ⟨?_, h.inbound, fun he => (by cases he), fun he => (by cases he), ?_, ?_, ?_, ?_⟩
  · change m.processingAttempts + 1 =
      claimCount (s.history ++ [(m.id, .claimed now)]) m.id
    rw [claimCount, hevents, List.countP_append, h.attempts]
    rfl
  · intro _
    refine ⟨now, rfl, ?_⟩
    change (rowEvents (s.history ++ [(m.id, .claimed now)]) m.id).getLast? = _
    rw [hevents, List.getLast?_concat]
  · intro hne
    exact absurd rfl hne
  · rintro (he | he) <;> cases he
  · change (rowEvents (s.history ++ [(m.id, .claimed now)]) m.id).IsChain (Apart timeout)
    rw [hevents]
    refine apart_append h.apart ?_
    intro last hlast
    cases last with
    | settled => trivial
    | claimed before =>
      by_cases hst : m.processingStatus = some .processing
      · obtain ⟨now', hclaimed, hlast'⟩ := h.processing hst
        cases hlast'.symm.trans hlast
        simp only [claimable, hst, hclaimed, Option.any_some, Bool.and_eq_true, Bool.or_eq_true,
          decide_eq_true_eq, reduceCtorEq, Option.some.injEq, false_and, false_or, true_and] at hclaim
        have hle : before ≤ now - timeout * 1000000 := hclaim.2
        change before + timeout * 1000000 ≤ now
        linarith
      · exact absurd hlast (h.rest hst before)

/-- The row after its claim ended. -/
theorem RowInv.settled {m : MessageRecord} {status : ProcessingStatus}
    {errorCode : Option ErrorCode} {availableAt : Option Time} {db : ConversationTables}
    (h : RowInv timeout s m)
    (hto : (status = .pending ∧ availableAt ≠ none) ∨
      ((status = .completed ∨ status = .failed) ∧ availableAt = none)) :
    RowInv timeout ⟨db, s.history ++ [(m.id, .settled)]⟩
      (leaveProcessing status errorCode availableAt m) := by
  have hevents : rowEvents (s.history ++ [(m.id, .settled)]) m.id =
      rowEvents s.history m.id ++ [.settled] := rowEvents_append_self _ _ _
  have hnot : status ≠ .processing := by
    rcases hto with ⟨rfl, -⟩ | ⟨rfl | rfl, -⟩ <;> decide
  refine ⟨?_, h.inbound, fun he => (by cases he), ?_, ?_, ?_, ?_, ?_⟩
  · change m.processingAttempts = claimCount (s.history ++ [(m.id, .settled)]) m.id
    rw [claimCount, hevents, List.countP_append, h.attempts]
    rfl
  · intro hst
    rcases hto with ⟨-, hav⟩ | ⟨rfl | rfl, -⟩
    · exact ⟨hav, rfl⟩
    · cases hst
    · cases hst
  · intro hst
    exact absurd (Option.some.inj hst) hnot
  · intro _ now
    change (rowEvents (s.history ++ [(m.id, .settled)]) m.id).getLast? ≠ _
    rw [hevents, List.getLast?_concat]
    exact fun he => by cases he
  · intro hst
    rcases hto with ⟨rfl, -⟩ | ⟨-, hav⟩
    · rcases hst with hst | hst <;> cases hst
    · exact ⟨hav, rfl⟩
  · change (rowEvents (s.history ++ [(m.id, .settled)]) m.id).IsChain (Apart timeout)
    rw [hevents]
    refine apart_append h.apart ?_
    intro last _
    cases last <;> trivial

theorem inv_claim {now : Time} {locked : List Uuid} {job : ClaimedInbound} {db : ConversationTables}
    (h : Inv timeout s) (hc : claimNext s.tables now timeout locked = .ok (some job, db)) :
    Inv timeout ⟨db, s.history ++ [(job.messageRecordId, .claimed now)]⟩ := by
  rcases claimNext_ok hc with ⟨hn, -⟩ | ⟨j, m, c, hj, hm, -, -, hclaim, hd, rfl⟩
  · cases hn
  · cases hj
    rw [hd.record_id]
    refine inv_rewrite h (fun _ => ⟨rfl, rfl⟩) (fun _ _ => by simp) ⟨m, hm, rfl⟩ ?_
    intro x hx hid
    have hxm := h.constraints.message_eq hx hm hid
    rw [hxm]
    exact (h.rows m hm).claimed hclaim

/-- The three ways to end a claim: back to pending, or to one of the terminal states. -/
theorem Settlement.run_target (q : Settlement) : ∃ status errorCode availableAt,
    (∀ db id, q.run db id = transition db id status errorCode availableAt) ∧
      ((status = .pending ∧ availableAt ≠ none) ∨
        ((status = .completed ∨ status = .failed) ∧ availableAt = none)) := by
  cases q with
  | complete => exact ⟨.completed, none, none, fun _ _ => rfl, .inr ⟨.inl rfl, rfl⟩⟩
  | fail now errorCode retry =>
    cases retry with
    | true =>
      exact ⟨.pending, some errorCode, some (now + 1000000), fun _ _ => rfl,
        .inl ⟨rfl, fun he => by cases he⟩⟩
    | false => exact ⟨.failed, some errorCode, none, fun _ _ => rfl, .inr ⟨.inr rfl, rfl⟩⟩

theorem inv_settle {id : Uuid} {q : Settlement} {db : ConversationTables} (h : Inv timeout s)
    (hq : q.run s.tables id = .ok ((), db)) :
    Inv timeout ⟨db, s.history ++ [(id, .settled)]⟩ := by
  obtain ⟨status, errorCode, availableAt, hrun, htarget⟩ := Settlement.run_target q
  rw [hrun] at hq
  obtain ⟨⟨m, hm, hid, hst⟩, rfl⟩ := transition_ok hq
  refine inv_rewrite h (fun _ => ⟨rfl, rfl⟩) ?_ ⟨m, hm, hid⟩ ?_
  · intro x hx
    simp only [active, decide_eq_true_eq, and_iff_left_iff_imp]
    intro hxid
    rw [h.constraints.message_eq hx hm (hxid.trans hid.symm)]
    exact hst
  · intro x hx hxid
    rw [← hxid]
    exact (h.rows x hx).settled htarget

theorem inv_step {l : Label} (h : Inv timeout s) (hs : step timeout s l = some t) :
    Inv timeout t := by
  cases l with
  | enqueue draw account message traceId =>
    simp only [step] at hs
    cases hr : recordInbound s.tables draw account message traceId true with
    | error e =>
      simp only [hr] at hs
      cases hs
      exact h
    | ok r =>
      simp only [hr] at hs
      cases hs
      exact inv_enqueue h hr
  | claim now locked =>
    simp only [step] at hs
    cases hc : claimNext s.tables now timeout locked with
    | error e =>
      simp only [hc] at hs
      cases hs
      exact h
    | ok r =>
      obtain ⟨job, db⟩ := r
      cases job with
      | none =>
        simp only [hc] at hs
        cases hs
        rcases claimNext_ok hc with ⟨-, rfl⟩ | ⟨j, m, c, hj, -⟩
        · exact h
        · cases hj
      | some job =>
        simp only [hc] at hs
        cases hs
        exact inv_claim h hc
  | settle id q =>
    simp only [step] at hs
    cases hr : q.run s.tables id with
    | error e =>
      simp only [hr] at hs
      cases hs
      exact h
    | ok r =>
      simp only [hr] at hs
      cases hs
      exact inv_settle h hr

def Terminal (m : MessageRecord) : Prop :=
  m.processingStatus = some .completed ∨ m.processingStatus = some .failed

theorem Terminal.not_claimable {m : MessageRecord} (h : Terminal m) (now staleBefore : Time) :
    claimable now staleBefore m = false := by
  rcases h with h | h <;> simp [claimable, h]

/-- No operation touches a terminal row. -/
theorem terminal_step {l : Label} (h : Inv timeout s) (hs : step timeout s l = some t)
    {m : MessageRecord} (hm : m ∈ s.tables.messages) (hterm : Terminal m) :
    m ∈ t.tables.messages := by
  cases l with
  | enqueue draw account message traceId =>
    simp only [step] at hs
    cases hr : recordInbound s.tables draw account message traceId true with
    | error e =>
      simp only [hr] at hs
      cases hs
      exact hm
    | ok r =>
      simp only [hr] at hs
      cases hs
      obtain ⟨rows, hrows, -⟩ := recordInbound_rows hr
      rw [hrows]
      exact List.mem_append_left _ hm
  | claim now locked =>
    simp only [step] at hs
    cases hc : claimNext s.tables now timeout locked with
    | error e =>
      simp only [hc] at hs
      cases hs
      exact hm
    | ok r =>
      obtain ⟨job, db⟩ := r
      have hdb : m ∈ db.messages := by
        rcases claimNext_ok hc with ⟨-, rfl⟩ | ⟨j, x, c, -, hx, -, -, hclaim, -, rfl⟩
        · exact hm
        · refine mem_updateWhere.mpr ⟨m, hm, ?_⟩
          rw [if_neg]
          intro hid
          rw [← h.constraints.message_eq hm hx (of_decide_eq_true hid),
            hterm.not_claimable] at hclaim
          cases hclaim
      cases job with
      | none =>
        simp only [hc] at hs
        cases hs
        exact hdb
      | some job =>
        simp only [hc] at hs
        cases hs
        exact hdb
  | settle id q =>
    simp only [step] at hs
    cases hr : q.run s.tables id with
    | error e =>
      simp only [hr] at hs
      cases hs
      exact hm
    | ok r =>
      simp only [hr] at hs
      cases hs
      obtain ⟨status, errorCode, availableAt, hrun, -⟩ := Settlement.run_target q
      rw [hrun] at hr
      obtain ⟨-, he⟩ := transition_ok hr
      rw [he]
      refine mem_updateWhere.mpr ⟨m, hm, ?_⟩
      rw [if_neg]
      intro hactive
      have hst := (of_decide_eq_true hactive).2
      rcases hterm with hterm | hterm <;> rw [hterm] at hst <;> cases hst

theorem terminal_run {schedule : List Label} (h : Inv timeout s)
    (hrun : exec (step timeout) s schedule = some t) {m : MessageRecord}
    (hm : m ∈ s.tables.messages) (hterm : Terminal m) : m ∈ t.tables.messages :=
  (exec_invariant (I := fun u => Inv timeout u ∧ m ∈ u.tables.messages)
    (fun _ _ _ hi hs => ⟨inv_step hi.1 hs, terminal_step hi.1 hs hi.2 hterm⟩) ⟨h, hm⟩ hrun).2

/-- A row that is not terminal is found by `claim_next` at every late enough time. -/
theorem RowInv.eventually {m : MessageRecord} (h : RowInv timeout s m) (hterm : ¬ Terminal m) :
    ∃ since, ∀ now, since ≤ now → claimable now (now - timeout * 1000000) m = true := by
  have hcases : m.processingStatus = some .pending ∨ m.processingStatus = some .processing := by
    cases hst : m.processingStatus with
    | none => exact absurd hst h.enqueued
    | some status =>
      cases status with
      | pending => exact .inl rfl
      | processing => exact .inr rfl
      | completed => exact absurd (.inl hst) hterm
      | failed => exact absurd (.inr hst) hterm
  rcases hcases with hst | hst
  · obtain ⟨available, hav⟩ := Option.ne_none_iff_exists'.mp (h.pending hst).1
    refine ⟨available, fun now hnow => ?_⟩
    simp [claimable, h.inbound, hst, hav, hnow]
  · obtain ⟨claimedAt, hclaimed, -⟩ := h.processing hst
    refine ⟨claimedAt + timeout * 1000000, fun now hnow => ?_⟩
    have hle : claimedAt ≤ now - timeout * 1000000 := by linarith
    simp [claimable, h.inbound, hst, hclaimed, hle]

/-- In every reachable state, and for everything that happens later: the counter is the
number of claims, each status has exactly its columns, terminal rows never change, other
rows become claimable, and claims that follow each other are the timeout apart. -/
theorem outbox_rows (timeout : ℕ) {earlier later : List Label} {s t : State}
    (hs : exec (step timeout) start earlier = some s)
    (ht : exec (step timeout) s later = some t) :
    ∀ m ∈ s.tables.messages,
      m.processingAttempts = claimCount s.history m.id ∧
      (m.processingStatus = some .pending →
        m.processingAvailableAt ≠ none ∧ m.processingClaimedAt = none) ∧
      (m.processingStatus = some .processing →
        m.processingClaimedAt ≠ none ∧ 1 ≤ m.processingAttempts) ∧
      (Terminal m → m.processingAvailableAt = none ∧ m.processingClaimedAt = none ∧
        m ∈ t.tables.messages) ∧
      (m.processingStatus ≠ none → ¬ Terminal m →
        ∃ since, ∀ now, since ≤ now → claimable now (now - timeout * 1000000) m = true) ∧
      (rowEvents s.history m.id).IsChain (Apart timeout) := by
  have hinv : Inv timeout s := exec_invariant (fun _ _ _ hi hs => inv_step hi hs)
    (inv_start timeout) hs
  intro m hm
  have hrow := hinv.rows m hm
  refine ⟨hrow.attempts, hrow.pending, ?_, ?_, fun _ => hrow.eventually, hrow.apart⟩
  · intro hst
    obtain ⟨now, hclaimed, hlast⟩ := hrow.processing hst
    refine ⟨by rw [hclaimed]; exact fun he => (by cases he), ?_⟩
    rw [hrow.attempts, claimCount, Nat.one_le_iff_ne_zero, ← Nat.pos_iff_ne_zero,
      List.countP_pos_iff]
    exact ⟨.claimed now, List.mem_of_getLast? hlast, rfl⟩
  · intro hterm
    obtain ⟨hav, hclaimed⟩ := hrow.terminal hterm
    exact ⟨hav, hclaimed, terminal_run hinv ht hm hterm⟩

/-- Claimed twice, 120 seconds apart, and completed; then another claim finds nothing. -/
def reclaimedSchedule : List Label :=
  [.enqueue ⟨1, 2, 0, 0⟩ "phone" sampleMessage "meta:wamid.1", .claim 0 [], .claim 1000000 [],
    .claim 120000000 []]

theorem reclaimed_row : ∃ s t, exec (step 120) start reclaimedSchedule = some s ∧
    exec (step 120) s [.settle 2 .complete, .claim 500000000 []] = some t ∧
    ∃ m ∈ s.tables.messages, m.processingAttempts = 2 ∧ claimCount s.history m.id = 2 ∧
      (rowEvents s.history m.id).IsChain (Apart 120) := by
  have hrun : ((exec (step 120) start reclaimedSchedule).bind fun s =>
      (exec (step 120) s [.settle 2 .complete, .claim 500000000 []]).map fun _ =>
        s.tables.messages.any fun m => m.processingAttempts = 2) = some true := by
    decide
  obtain ⟨s, hs, hrest⟩ := Option.bind_eq_some_iff.mp hrun
  obtain ⟨t, ht, hany⟩ := Option.map_eq_some_iff.mp hrest
  obtain ⟨m, hm, hattempts⟩ := List.any_eq_true.mp hany
  obtain ⟨hcount, -, -, -, -, hapart⟩ := outbox_rows 120 hs ht m hm
  have htwo := of_decide_eq_true hattempts
  exact ⟨s, t, hs, ht, m, hm, htwo, hcount ▸ htwo, hapart⟩

end Piki.OutboxRows
