import Piki.DeliveryStore
import Piki.Transition

/-! Status callbacks as the statements of concurrent `READ COMMITTED` transactions.
The row read by the `SELECT` is not locked; the event insert waits for a competing
uncommitted insert of the same key; the status is written at commit. -/
namespace Piki.Callbacks
open Table Transition DeliveryStore

abbrev EventKey := String × DeliveryAttemptState

/-- The key of the status event that a callback inserts. -/
def eventKey (callback : MetaStatusUpdate) : EventKey :=
  (callback.providerMessageId, callback.status.toState)

/-- Statuses that the webhook can report. -/
def Reported (callback : MetaStatusUpdate) : Prop :=
  ∃ name : MetaStatusName, callback.status = name.toStatus

instance (callback : MetaStatusUpdate) : Decidable (Reported callback) :=
  match h : callback.status with
  | .sent => isTrue ⟨.sent, h⟩
  | .delivered => isTrue ⟨.delivered, h⟩
  | .read => isTrue ⟨.read, h⟩
  | .failed => isTrue ⟨.failed, h⟩
  | .unknown => isFalse (by rintro ⟨n, hn⟩; rw [h] at hn; cases n <;> cases hn)
  | .accepted => isFalse (by rintro ⟨n, hn⟩; rw [h] at hn; cases n <;> cases hn)

inductive Txn
  | idle
  | selected (callback : MetaStatusUpdate) (attempt : DeliveryAttemptRecord)
  | inserted (callback : MetaStatusUpdate) (attempt : DeliveryAttemptRecord)
  deriving DecidableEq, Repr

/-- Committed tables, the keys of uncommitted events with their owners, and the
progress of every transaction. -/
structure State where
  tables : DeliveryTables
  uncommitted : List (ℕ × EventKey)
  txns : ℕ → Txn

inductive Label
  | select (t : ℕ) (callback : MetaStatusUpdate)
  | insertEvent (t : ℕ)
  | commit (t : ℕ)
  | rollback (t : ℕ)
  deriving DecidableEq, Repr

def State.setTxn (s : State) (t : ℕ) (x : Txn) : State :=
  { s with txns := Function.update s.txns t x }

/-- The transaction ends and gives up its index entries. -/
def State.close (s : State) (t : ℕ) : State :=
  { s with
    txns := Function.update s.txns t .idle
    uncommitted := s.uncommitted.filter fun u => decide (u.1 ≠ t) }

def State.withTables (s : State) (tables : DeliveryTables) : State := { s with tables := tables }

def step (s : State) : Label → Option State
  | .select t callback =>
    if s.txns t = .idle ∧ Reported callback then
      match selectAttempt s.tables callback.providerMessageId with
      | .ok (some attempt) => some (s.setTxn t (.selected callback attempt))
      | _ => some s
    else none
  | .insertEvent t =>
    match s.txns t with
    | .selected callback attempt =>
      if s.uncommitted.any fun u => decide (u.2 = eventKey callback) then none
      else match conflict DeliveryStatusEventRecord.providerState s.tables.events
          (callbackEvent callback attempt) with
        | some _ => some (s.close t)
        | none => some { (s.setTxn t (.inserted callback attempt)) with
            uncommitted := (t, eventKey callback) :: s.uncommitted }
    | _ => none
  | .commit t =>
    match s.txns t with
    | .inserted callback attempt =>
      some ((s.withTables (commitCallback s.tables callback attempt).2).close t)
    | _ => none
  | .rollback t => some (s.close t)

/-- No callback transaction is open. -/
def start (tables : DeliveryTables) : State := ⟨tables, [], fun _ => .idle⟩

/-- The step moves the status of attempt `i` along an allowed edge, or not at all. -/
def Follows (i : Uuid) (s : State) (l : Label) : Prop :=
  ∀ t, step s l = some t → ∀ x ∈ s.tables.attempts, x.id = i → ∀ y ∈ t.tables.attempts, y.id = i →
    y.status = x.status ∨ canTransition x.status y.status = true

/-- When a transaction that decided to write attempt `i` commits, the stored status
is still the one it read, or has only advanced to `sent`, or has advanced to
`delivered` while the callback is `read`. -/
def Undisturbed (i : Uuid) (s : State) : Label → Prop
  | .commit t => ∀ callback attempt, s.txns t = .inserted callback attempt → attempt.id = i →
      canTransition attempt.status callback.status.toState = true →
      ∀ x ∈ s.tables.attempts, x.id = i → x.status = attempt.status ∨ x.status = .sent ∨
        (x.status = .delivered ∧ callback.status = .read)
  | _ => True

instance (i : Uuid) (s : State) : (l : Label) → Decidable (Undisturbed i s l)
  | .commit t =>
    match h : s.txns t with
    | .inserted callback attempt =>
      decidable_of_iff (attempt.id = i →
          canTransition attempt.status callback.status.toState = true →
          ∀ x ∈ s.tables.attempts, x.id = i → x.status = attempt.status ∨ x.status = .sent ∨
            (x.status = .delivered ∧ callback.status = .read)) (by
        constructor
        · intro hu c a ht
          rw [h] at ht
          cases ht
          exact hu
        · intro hu
          exact hu callback attempt h)
    | .idle => isTrue (by intro c a ht; rw [h] at ht; cases ht)
    | .selected _ _ => isTrue (by intro c a ht; rw [h] at ht; cases ht)
  | .select _ _ => isTrue trivial
  | .insertEvent _ => isTrue trivial
  | .rollback _ => isTrue trivial

/-- The status is unchanged or was reached along allowed edges. -/
def Leads (a b : DeliveryAttemptState) : Prop := a = b ∨ canTransition a b = true

theorem canTransition_trans {a b c : DeliveryAttemptState} (hab : canTransition a b = true)
    (hbc : canTransition b c = true) : canTransition a c = true := by
  cases a <;> cases b <;> first | (cases hab; done) | (cases c <;> first | rfl | cases hbc)

theorem Leads.trans_edge {a b c : DeliveryAttemptState} (h : Leads a b)
    (hbc : b = c ∨ canTransition b c = true) : Leads a c := by
  rcases h with rfl | hab
  · exact hbc
  · rcases hbc with rfl | hbc
    · exact .inr hab
    · exact .inr (canTransition_trans hab hbc)

/-- Which stored statuses a write decided on an older status may still overwrite. -/
theorem overwrite_iff {a x τ : DeliveryAttemptState} (hlead : Leads a x)
    (hread : canTransition a τ = true) (hne : x ≠ τ) :
    canTransition x τ = true ↔ x = a ∨ x = .sent ∨ (x = .delivered ∧ τ = .read) := by
  rcases hlead with rfl | hax
  · simp [hread]
  · cases a <;> cases x <;> first | (cases hax; done) | (cases τ <;> simp_all [canTransition])

/-- A transaction open on attempt `i`, before or after its insert. -/
def OpenOn (s : State) (t : ℕ) (callback : MetaStatusUpdate) (attempt : DeliveryAttemptRecord) : Prop :=
  s.txns t = .selected callback attempt ∨ s.txns t = .inserted callback attempt

/-- What interleaving leaves true about attempt `i` with provider id `p`: its status
has an event unless it is still `accepted`, and every open transaction read a status
from which the present one was reached. -/
structure Inv (i : Uuid) (p : String) (s : State) : Prop where
  ids : Unique (fun a : DeliveryAttemptRecord => some a.id) s.tables.attempts
  provider : ∀ x ∈ s.tables.attempts, x.id = i → x.providerMessageId = some p
  logged : ∀ x ∈ s.tables.attempts, x.id = i →
    x.status = .accepted ∨ ∃ e ∈ s.tables.events, e.providerState = some (p, x.status)
  reads : ∀ t callback attempt, OpenOn s t callback attempt → attempt.id = i →
    callback.providerMessageId = p ∧
      ∀ x ∈ s.tables.attempts, x.id = i → Leads attempt.status x.status
  held : ∀ t callback attempt, s.txns t = .inserted callback attempt →
    (t, eventKey callback) ∈ s.uncommitted ∧
      ∀ e ∈ s.tables.events, e.providerState ≠ some (eventKey callback)
  exclusive : ∀ t t' k, (t, k) ∈ s.uncommitted → (t', k) ∈ s.uncommitted → t = t'

theorem inv_start {i : Uuid} {p : String} {tables : DeliveryTables} (hu : tables.Constraints)
    (h : ∀ x ∈ tables.attempts, x.id = i → x.providerMessageId = some p ∧ x.status = .accepted) :
    Inv i p (start tables) where
  ids := hu.attempt_id
  provider x hx hi := (h x hx hi).1
  logged x hx hi := .inl (h x hx hi).2
  reads t callback attempt ho := by rcases ho with ho | ho <;> cases ho
  held t callback attempt ho := by cases ho
  exclusive t t' k hk := by cases hk

theorem attempt_eq {tables : DeliveryTables}
    (h : Unique (fun a : DeliveryAttemptRecord => some a.id) tables.attempts)
    {a b : DeliveryAttemptRecord} (ha : a ∈ tables.attempts) (hb : b ∈ tables.attempts)
    (hid : a.id = b.id) : a = b :=
  unique_eq h ha hb rfl (by rw [hid])

theorem selectAttempt_mem {tables : DeliveryTables} {p : String} {a : DeliveryAttemptRecord}
    (h : selectAttempt tables p = .ok (some a)) :
    a ∈ tables.attempts ∧ a.providerMessageId = some p := by
  unfold selectAttempt at h
  generalize hf : tables.attempts.filter _ = rows at h
  match rows, h with
  | [x], h =>
    cases h
    have hm : a ∈ tables.attempts.filter fun a => a.providerMessageId = some p := by
      rw [hf]; exact List.mem_singleton_self a
    simpa using hm

theorem commitCallback_events (db : DeliveryTables) (callback : MetaStatusUpdate)
    (attempt : DeliveryAttemptRecord) :
    (commitCallback db callback attempt).2.events = db.events ++ [callbackEvent callback attempt] := by
  simp only [commitCallback]
  split_ifs <;> rfl

/-- All that a commit can do to the rows of the attempt table. -/
theorem commitCallback_attempts {db : DeliveryTables} {callback : MetaStatusUpdate}
    {attempt y : DeliveryAttemptRecord}
    (h : y ∈ (commitCallback db callback attempt).2.attempts) :
    y ∈ db.attempts ∨
    (canTransition attempt.status callback.status.toState = true ∧
      ∃ x ∈ db.attempts, x.id = attempt.id ∧ y = callbackRow callback attempt x) := by
  simp only [commitCallback] at h
  split_ifs at h with hc
  · obtain ⟨x, hx, rfl⟩ := mem_updateWhere.mp h
    by_cases hi : x.id = attempt.id
    · simp only [hi, decide_true, if_true]
      exact .inr ⟨hc, x, hx, hi, rfl⟩
    · simp only [hi, decide_false, Bool.false_eq_true, if_false]
      exact .inl hx
  · exact .inl h

theorem commitCallback_ids {db : DeliveryTables} (callback : MetaStatusUpdate)
    (attempt : DeliveryAttemptRecord)
    (h : Unique (fun a : DeliveryAttemptRecord => some a.id) db.attempts) :
    Unique (fun a : DeliveryAttemptRecord => some a.id)
      (commitCallback db callback attempt).2.attempts := by
  simp only [commitCallback]
  split_ifs
  · exact unique_updateWhere (fun _ _ => rfl) h
  · exact h

/-- The insert of an open transaction is known to no other one. -/
structure Held (s : State) : Prop where
  fresh : ∀ t callback attempt, s.txns t = .inserted callback attempt →
    (t, eventKey callback) ∈ s.uncommitted ∧
      ∀ e ∈ s.tables.events, e.providerState ≠ some (eventKey callback)
  exclusive : ∀ t t' k, (t, k) ∈ s.uncommitted → (t', k) ∈ s.uncommitted → t = t'

theorem held_close {s : State} (h : Held s) (t : ℕ) : Held (s.close t) := by
  constructor
  · intro u callback attempt hu
    by_cases hut : u = t
    · subst hut
      simp [State.close] at hu
    · obtain ⟨hk, hf⟩ := h.fresh u callback attempt (by simpa [State.close, hut] using hu)
      exact ⟨by simp [State.close, hk, hut], hf⟩
  · intro u u' k hk hk'
    exact h.exclusive u u' k (List.mem_of_mem_filter hk) (List.mem_of_mem_filter hk')

theorem held_select {s : State} (h : Held s) (t : ℕ) (callback : MetaStatusUpdate)
    (attempt : DeliveryAttemptRecord) : Held (s.setTxn t (.selected callback attempt)) := by
  refine ⟨?_, h.exclusive⟩
  intro u callback' attempt' hu
  by_cases hut : u = t
  · subst hut
    simp [State.setTxn] at hu
  · exact h.fresh u callback' attempt' (by simpa [State.setTxn, hut] using hu)

theorem held_insert {s : State} (h : Held s) {t : ℕ} {callback : MetaStatusUpdate}
    {attempt : DeliveryAttemptRecord} (hfree : ∀ v ∈ s.uncommitted, v.2 ≠ eventKey callback)
    (hc : conflict DeliveryStatusEventRecord.providerState s.tables.events
      (callbackEvent callback attempt) = none) :
    Held { (s.setTxn t (.inserted callback attempt)) with
      uncommitted := (t, eventKey callback) :: s.uncommitted } := by
  constructor
  · intro u callback' attempt' hu
    by_cases hut : u = t
    · subst hut
      simp only [State.setTxn, Function.update_self, Txn.inserted.injEq] at hu
      obtain ⟨rfl, rfl⟩ := hu
      exact ⟨List.mem_cons_self, conflict_eq_none.mp hc _ rfl⟩
    · obtain ⟨hk, hf⟩ := h.fresh u callback' attempt' (by simpa [State.setTxn, hut] using hu)
      exact ⟨List.mem_cons_of_mem _ hk, hf⟩
  · intro u u' k hk hk'
    rcases List.mem_cons.mp hk with he | hk <;> rcases List.mem_cons.mp hk' with he' | hk'
    · exact (Prod.mk.inj he).1.trans (Prod.mk.inj he').1.symm
    · exact absurd (Prod.mk.inj he).2 (hfree _ hk')
    · exact absurd (Prod.mk.inj he').2 (hfree _ hk)
    · exact h.exclusive u u' k hk hk'

/-- Another transaction commits an event that no open one has inserted. -/
theorem held_withTables {s : State} (h : Held s) {tables : DeliveryTables}
    {event : DeliveryStatusEventRecord} (he : tables.events = s.tables.events ++ [event])
    (hfree : ∀ t callback attempt, s.txns t = .inserted callback attempt →
      event.providerState ≠ some (eventKey callback)) : Held (s.withTables tables) := by
  refine ⟨?_, h.exclusive⟩
  intro t callback attempt ht
  obtain ⟨hk, hf⟩ := h.fresh t callback attempt ht
  refine ⟨hk, ?_⟩
  intro e hmem
  rw [State.withTables, he] at hmem
  rcases List.mem_append.mp hmem with hmem | hmem
  · exact hf e hmem
  · rw [List.mem_singleton.mp hmem]
    exact hfree t callback attempt ht

theorem held_commit {s : State} (h : Held s) {t : ℕ} {callback : MetaStatusUpdate}
    {attempt : DeliveryAttemptRecord} (ht : s.txns t = .inserted callback attempt) :
    Held ((s.close t).withTables (commitCallback s.tables callback attempt).2) := by
  refine held_withTables (held_close h t) (commitCallback_events s.tables callback attempt) ?_
  intro u callback' attempt' hu hkey
  by_cases hut : u = t
  · subst hut
    simp [State.close] at hu
  · have hu' : s.txns u = .inserted callback' attempt' := by
      simpa [State.close, hut] using hu
    obtain ⟨hk, -⟩ := h.fresh u callback' attempt' hu'
    rw [← Option.some.inj hkey] at hk
    exact hut (h.exclusive u t _ hk (h.fresh t callback attempt ht).1)

theorem Inv.toHeld {i : Uuid} {p : String} {s : State} (h : Inv i p s) : Held s :=
  ⟨h.held, h.exclusive⟩

/-- Closing a transaction forgets what it read and holds. -/
theorem inv_close {i : Uuid} {p : String} {s : State} (t : ℕ) (h : Inv i p s) :
    Inv i p (s.close t) := by
  have htx : ∀ u x, (s.close t).txns u = x → x ≠ .idle → s.txns u = x := by
    intro u x hx hne
    by_cases hu : u = t
    · subst hu
      simp only [State.close, Function.update_self] at hx
      exact absurd hx.symm hne
    · simpa [State.close, hu] using hx
  have hheld := held_close h.toHeld t
  refine ⟨h.ids, h.provider, h.logged, ?_, hheld.fresh, hheld.exclusive⟩
  intro u callback attempt ho hi
  rcases ho with ho | ho
  · exact h.reads u callback attempt (.inl (htx u _ ho (by simp))) hi
  · exact h.reads u callback attempt (.inr (htx u _ ho (by simp))) hi

theorem inv_select {i : Uuid} {p : String} {s : State} {t : ℕ} {callback : MetaStatusUpdate}
    {attempt : DeliveryAttemptRecord} (h : Inv i p s)
    (hs : selectAttempt s.tables callback.providerMessageId = .ok (some attempt)) :
    Inv i p (s.setTxn t (.selected callback attempt)) := by
  obtain ⟨hm, hp⟩ := selectAttempt_mem hs
  have hheld := held_select h.toHeld t callback attempt
  refine ⟨h.ids, h.provider, h.logged, ?_, hheld.fresh, hheld.exclusive⟩
  intro u c a ho hi
  by_cases hu : u = t
  · subst hu
    simp only [OpenOn, State.setTxn, Function.update_self, Txn.selected.injEq, reduceCtorEq,
      or_false] at ho
    obtain ⟨rfl, rfl⟩ := ho
    refine ⟨Option.some.inj (hp.symm.trans (h.provider attempt hm hi)), ?_⟩
    intro x hx hxi
    exact .inl (congrArg _ (attempt_eq h.ids hm hx (hi.trans hxi.symm)))
  · refine h.reads u c a ?_ hi
    simpa [OpenOn, State.setTxn, hu] using ho

theorem inv_insertEvent {i : Uuid} {p : String} {s : State} {t : ℕ} {callback : MetaStatusUpdate}
    {attempt : DeliveryAttemptRecord} (h : Inv i p s) (ht : s.txns t = .selected callback attempt)
    (hfree : ∀ u ∈ s.uncommitted, u.2 ≠ eventKey callback)
    (hc : conflict DeliveryStatusEventRecord.providerState s.tables.events
      (callbackEvent callback attempt) = none) :
    Inv i p { (s.setTxn t (.inserted callback attempt)) with
      uncommitted := (t, eventKey callback) :: s.uncommitted } := by
  have hheld := held_insert (t := t) h.toHeld hfree hc
  refine ⟨h.ids, h.provider, h.logged, ?_, hheld.fresh, hheld.exclusive⟩
  intro u c a ho hi
  by_cases hu : u = t
  · subst hu
    simp only [OpenOn, State.setTxn, Function.update_self, reduceCtorEq, Txn.inserted.injEq,
      false_or] at ho
    obtain ⟨rfl, rfl⟩ := ho
    exact h.reads u _ _ (.inl ht) hi
  · refine h.reads u c a ?_ hi
    simpa [OpenOn, State.setTxn, hu] using ho

/-- Committing the rows of a transaction that is already closed. -/
theorem inv_withTables {i : Uuid} {p : String} {s : State} {callback : MetaStatusUpdate}
    {attempt : DeliveryAttemptRecord} (h : Inv i p s)
    (hheld : Held (s.withTables (commitCallback s.tables callback attempt).2))
    (hp : attempt.id = i → callback.providerMessageId = p)
    (hedge : attempt.id = i → canTransition attempt.status callback.status.toState = true →
      ∀ x ∈ s.tables.attempts, x.id = i →
        x.status = callback.status.toState ∨
          canTransition x.status callback.status.toState = true) :
    Inv i p (s.withTables (commitCallback s.tables callback attempt).2) := by
  have hevents := commitCallback_events s.tables callback attempt
  refine ⟨commitCallback_ids callback attempt h.ids, ?_, ?_, ?_, hheld.fresh, h.exclusive⟩
  · intro y hy hi
    rcases commitCallback_attempts hy with hy | ⟨-, x, hx, -, rfl⟩
    · exact h.provider y hy hi
    · exact h.provider x hx hi
  · intro y hy hi
    simp only [State.withTables, hevents]
    rcases commitCallback_attempts hy with hy | ⟨-, x, hx, hxa, rfl⟩
    · rcases h.logged y hy hi with ha | ⟨e, he, hk⟩
      · exact .inl ha
      · exact .inr ⟨e, List.mem_append_left _ he, hk⟩
    · refine .inr ⟨callbackEvent callback attempt, by simp, ?_⟩
      have hpp := hp (hxa.symm.trans hi)
      simp [callbackEvent, DeliveryStatusEventRecord.providerState, callbackRow, hpp]
  · intro u c a ho hi
    obtain ⟨hc, hl⟩ := h.reads u c a ho hi
    refine ⟨hc, ?_⟩
    intro y hy hyi
    rcases commitCallback_attempts hy with hy | ⟨hw, x, hx, hxa, rfl⟩
    · exact hl y hy hyi
    · exact (hl x hx hyi).trans_edge (hedge (hxa.symm.trans hyi) hw x hx hyi)

/-- The stored status has its event already, so no open transaction can repeat it. -/
theorem commit_status_ne {i : Uuid} {p : String} {s : State} {t : ℕ} {callback : MetaStatusUpdate}
    {attempt x : DeliveryAttemptRecord} (h : Inv i p s)
    (ht : s.txns t = .inserted callback attempt) (hi : attempt.id = i)
    (hw : canTransition attempt.status callback.status.toState = true)
    (hx : x ∈ s.tables.attempts) (hxi : x.id = i) : x.status ≠ callback.status.toState := by
  intro he
  rcases h.logged x hx hxi with ha | ⟨e, hem, hk⟩
  · rw [← he, ha] at hw
    cases ha' : attempt.status <;> simp [ha', canTransition] at hw
  · refine (h.held t callback attempt ht).2 e hem ?_
    rw [hk, he, ← (h.reads t callback attempt (.inr ht) hi).1, eventKey]

/-- A commit that meets the condition moves the status along an allowed edge. -/
theorem commit_edge_iff {i : Uuid} {p : String} {s : State} {t : ℕ} {callback : MetaStatusUpdate}
    {attempt x : DeliveryAttemptRecord} (h : Inv i p s)
    (ht : s.txns t = .inserted callback attempt) (hi : attempt.id = i)
    (hw : canTransition attempt.status callback.status.toState = true)
    (hx : x ∈ s.tables.attempts) (hxi : x.id = i) :
    canTransition x.status callback.status.toState = true ↔
      x.status = attempt.status ∨ x.status = .sent ∨
        (x.status = .delivered ∧ callback.status = .read) := by
  have hlead := (h.reads t callback attempt (.inr ht) hi).2 x hx hxi
  have hread : callback.status = .read ↔ callback.status.toState = .read := by
    cases callback.status <;> simp [DeliveryStatus.toState]
  rw [hread]
  exact overwrite_iff hlead hw (commit_status_ne h ht hi hw hx hxi)

/-- The row of the attempt after a commit on it. -/
theorem commit_status {s : State} {callback : MetaStatusUpdate}
    {attempt x : DeliveryAttemptRecord} (hx : x ∈ s.tables.attempts) (hid : x.id = attempt.id)
    (hw : canTransition attempt.status callback.status.toState = true) :
    callbackRow callback attempt x ∈ (commitCallback s.tables callback attempt).2.attempts := by
  simp only [commitCallback, hw, if_true]
  exact mem_updateWhere.mpr ⟨x, hx, by simp [hid]⟩

theorem step_commit {s : State} {t : ℕ} {callback : MetaStatusUpdate}
    {attempt : DeliveryAttemptRecord} (ht : s.txns t = .inserted callback attempt) :
    step s (.commit t) =
      some ((s.close t).withTables (commitCallback s.tables callback attempt).2) := by
  simp only [step, ht]
  rfl

/-- All that a statement can do. -/
theorem step_cases {s u : State} {l : Label} (hs : step s l = some u) :
    (∃ t callback, l = .select t callback ∧ u = s) ∨
    (∃ t callback attempt, l = .select t callback ∧ Reported callback ∧
      selectAttempt s.tables callback.providerMessageId = .ok (some attempt) ∧
      u = s.setTxn t (.selected callback attempt)) ∨
    (∃ t, (l = .insertEvent t ∨ l = .rollback t) ∧ u = s.close t) ∨
    (∃ t callback attempt, l = .insertEvent t ∧ s.txns t = .selected callback attempt ∧
      (∀ v ∈ s.uncommitted, v.2 ≠ eventKey callback) ∧
      conflict DeliveryStatusEventRecord.providerState s.tables.events
        (callbackEvent callback attempt) = none ∧
      u = { (s.setTxn t (.inserted callback attempt)) with
        uncommitted := (t, eventKey callback) :: s.uncommitted }) ∨
    ∃ t callback attempt, l = .commit t ∧ s.txns t = .inserted callback attempt ∧
      u = (s.close t).withTables (commitCallback s.tables callback attempt).2 := by
  cases l with
  | select t callback =>
    simp only [step] at hs
    split_ifs at hs with hidle
    cases hr : selectAttempt s.tables callback.providerMessageId with
    | error e =>
      simp only [hr] at hs
      cases hs
      exact .inl ⟨t, callback, rfl, rfl⟩
    | ok found =>
      cases found with
      | none =>
        simp only [hr] at hs
        cases hs
        exact .inl ⟨t, callback, rfl, rfl⟩
      | some attempt =>
        simp only [hr] at hs
        cases hs
        exact .inr (.inl ⟨t, callback, attempt, rfl, hidle.2, hr, rfl⟩)
  | insertEvent t =>
    cases ht : s.txns t with
    | idle => simp [step, ht] at hs
    | inserted callback attempt => simp [step, ht] at hs
    | selected callback attempt =>
      simp only [step, ht] at hs
      split_ifs at hs with hfree
      cases hc : conflict DeliveryStatusEventRecord.providerState s.tables.events
          (callbackEvent callback attempt) with
      | some e =>
        simp only [hc] at hs
        cases hs
        exact .inr (.inr (.inl ⟨t, .inl rfl, rfl⟩))
      | none =>
        simp only [hc] at hs
        cases hs
        refine .inr (.inr (.inr (.inl ⟨t, callback, attempt, rfl, ht, ?_, hc, rfl⟩)))
        intro v hv he
        exact hfree (List.any_eq_true.mpr ⟨v, hv, by simpa using he⟩)
  | commit t =>
    cases ht : s.txns t with
    | idle => simp [step, ht] at hs
    | selected callback attempt => simp [step, ht] at hs
    | inserted callback attempt =>
      rw [step_commit ht] at hs
      cases hs
      exact .inr (.inr (.inr (.inr ⟨t, callback, attempt, rfl, ht, rfl⟩)))
  | rollback t =>
    cases hs
    exact .inr (.inr (.inl ⟨t, .inr rfl, rfl⟩))

/-- A transaction that has inserted nothing cannot commit. -/
example : (step (start .empty) (.commit 1)).isNone = true := by decide +kernel

theorem held_step {s u : State} {l : Label} (h : Held s) (hs : step s l = some u) : Held u := by
  rcases step_cases hs with ⟨_, _, -, rfl⟩ | ⟨t, callback, attempt, -, -, -, rfl⟩ | ⟨t, -, rfl⟩ |
    ⟨_, _, _, -, -, hfree, hc, rfl⟩ | ⟨_, _, _, -, ht, rfl⟩
  · exact h
  · exact held_select h t callback attempt
  · exact held_close h t
  · exact held_insert h hfree hc
  · exact held_commit h ht

/-- Every statement but the commit of a write leaves the attempts alone. -/
theorem step_attempts {s u : State} {l : Label} (hs : step s l = some u)
    (hl : ∀ t callback attempt, l = .commit t → s.txns t ≠ .inserted callback attempt) :
    u.tables = s.tables := by
  rcases step_cases hs with ⟨_, _, -, rfl⟩ | ⟨_, _, _, -, -, -, rfl⟩ | ⟨_, -, rfl⟩ |
    ⟨_, _, _, -, -, -, -, rfl⟩ | ⟨t, callback, attempt, rfl, ht, -⟩
  · rfl
  · rfl
  · rfl
  · rfl
  · exact absurd ht (hl t callback attempt rfl)

/-- In one state, the step follows the allowed edges exactly when the write it
commits, if any, was not overtaken. -/
theorem follows_iff_undisturbed {i : Uuid} {p : String} {s : State} (h : Inv i p s) (l : Label) :
    Follows i s l ↔ Undisturbed i s l := by
  have hquiet : (∀ t callback attempt, l = .commit t → s.txns t ≠ .inserted callback attempt) →
      (Follows i s l ↔ Undisturbed i s l) := by
    intro hl
    refine iff_of_true ?_ ?_
    · intro u hu x hx hxi y hy hyi
      rw [step_attempts hu hl] at hy
      exact .inl (congrArg _ (attempt_eq h.ids hy hx (hyi.trans hxi.symm)))
    · cases l with
      | commit t => intro callback attempt ht; exact absurd ht (hl t callback attempt rfl)
      | select | insertEvent | rollback => trivial
  cases l with
  | select | insertEvent | rollback => exact hquiet (by simp)
  | commit t =>
    cases ht : s.txns t with
    | idle | selected =>
      refine hquiet ?_
      intro t' callback attempt he
      cases he
      simp [ht]
    | inserted callback attempt =>
      constructor
      · intro hf c a htc hi hw x hx hxi
        rw [ht] at htc
        cases htc
        have hy : callbackRow callback attempt x ∈ _ := commit_status hx (hxi.trans hi.symm) hw
        rcases hf _ (step_commit ht) x hx hxi _ hy hxi with he | he
        · exact absurd he.symm (commit_status_ne h ht hi hw hx hxi)
        · exact (commit_edge_iff h ht hi hw hx hxi).mp he
      · intro hu u hstep x hx hxi y hy hyi
        rw [step_commit ht] at hstep
        cases hstep
        rcases commitCallback_attempts hy with hy | ⟨hw, x', hx', hxa, rfl⟩
        · exact .inl (congrArg _ (attempt_eq h.ids hy hx (hyi.trans hxi.symm)))
        · have he := attempt_eq h.ids hx hx' (hxi.trans hyi.symm)
          subst he
          have hi := hxa.symm.trans hxi
          exact .inr ((commit_edge_iff h ht hi hw hx hxi).mpr (hu _ _ ht hi hw x hx hxi))

/-- Every statement that follows the allowed edges keeps the invariant. -/
theorem inv_step {i : Uuid} {p : String} {s u : State} {l : Label} (h : Inv i p s)
    (hf : Follows i s l) (hs : step s l = some u) : Inv i p u := by
  rcases step_cases hs with ⟨_, _, -, rfl⟩ | ⟨_, _, _, -, -, hr, rfl⟩ | ⟨t, -, rfl⟩ |
    ⟨_, _, _, -, ht, hfree, hc, rfl⟩ | ⟨t, callback, attempt, rfl, ht, rfl⟩
  · exact h
  · exact inv_select h hr
  · exact inv_close t h
  · exact inv_insertEvent h ht hfree hc
  · have hundisturbed := (follows_iff_undisturbed h (.commit t)).mp hf
    refine inv_withTables (inv_close t h) (held_commit h.toHeld ht) ?_ ?_
    · intro hi
      exact (h.reads t callback attempt (.inr ht) hi).1
    · intro hi hw x hx hxi
      exact .inr ((commit_edge_iff h ht hi hw hx hxi).mpr
        (hundisturbed callback attempt ht hi hw x hx hxi))

/-- Over every interleaving of the statements of any number of callback
transactions, the committed statuses of an accepted attempt follow the allowed
edges if and only if no write that commits was overtaken since its `SELECT`. -/
theorem callback_statuses_follow_iff {tables : DeliveryTables} (hu : tables.Constraints)
    {attempt : DeliveryAttemptRecord} (ha : attempt ∈ tables.attempts)
    (hs : attempt.status = .accepted) {p : String} (hp : attempt.providerMessageId = some p)
    (schedule : List Label) :
    Along step (Follows attempt.id) (start tables) schedule ↔
      Along step (Undisturbed attempt.id) (start tables) schedule := by
  refine along_iff (I := Inv attempt.id p) (fun _ _ _ hi hf ht => inv_step hi hf ht)
    (fun _ l hi => follows_iff_undisturbed hi l) (inv_start hu ?_)
  intro x hx hxi
  rw [attempt_eq hu.attempt_id hx ha hxi]
  exact ⟨hp, hs⟩

section Counterexample

def sentReport : MetaStatusUpdate :=
  accepted (MetaStatusUpdate.make "wamid.out" "phone" "549" .sent 0 none none) (by decide +kernel)

def report (status : DeliveryStatus) (h : status ≠ .failed) : MetaStatusUpdate :=
  { sentReport with status := status, error_shape := iff_of_false h (not_not_intro rfl) }

def deliveredReport : MetaStatusUpdate := report .delivered (by decide +kernel)

def readReport : MetaStatusUpdate := report .read (by decide +kernel)

/-- One attempt, accepted by the provider. -/
def acceptedTables : DeliveryTables where
  attempts := [⟨1, 1, "reply:wamid.1", some "wamid.out", .accepted, none, none, "t"⟩]
  events := [⟨1, some "wamid.out", .accepted, none, none, "t", 0⟩]

/-- `read` and `delivered` arrive together; both transactions read `accepted`. -/
def overtakenSchedule : List Label :=
  [.select 1 (report .read (by decide +kernel)), .select 2 (report .delivered (by decide)),
    .insertEvent 1, .insertEvent 2, .commit 1]

theorem acceptedTables_constraints : acceptedTables.Constraints := by
  refine ⟨?_, ?_, ?_⟩ <;> simp [Table.Unique, acceptedTables, DeliveryStatusEventRecord.providerState]

/-- The state in which the transaction of `delivered` commits. -/
def overtaken : Option State := exec step (start acceptedTables) overtakenSchedule

theorem overtaken_isSome : overtaken.isSome = true := by rfl

/-- After `read` is committed, the transaction that read `accepted` writes `delivered`. -/
theorem read_regresses_to_delivered :
    ¬ Along step (Follows 1) (start acceptedTables) (overtakenSchedule ++ [.commit 2]) := by
  intro h
  have hs : exec step (start acceptedTables) overtakenSchedule =
      some (overtaken.get overtaken_isSome) := by rfl
  have hlast := along_last h hs
  rcases hlast _ rfl ⟨1, 1, "reply:wamid.1", some "wamid.out", .read, none, none, "t"⟩ (by decide)
    rfl ⟨1, 1, "reply:wamid.1", some "wamid.out", .delivered, none, none, "t"⟩ (by decide) rfl with
    he | he <;> cases he

theorem ordered_callbacks_follow :
    acceptedTables.Constraints ∧
    Along step (Follows 1) (start acceptedTables)
      [.select 1 (report .delivered (by decide)), .insertEvent 1, .commit 1,
        .select 2 (report .read (by decide)), .insertEvent 2, .commit 2] := by
  refine ⟨acceptedTables_constraints, ?_⟩
  have ha : (⟨1, 1, "reply:wamid.1", some "wamid.out", .accepted, none, none, "t"⟩ :
      DeliveryAttemptRecord) ∈ acceptedTables.attempts := by decide
  refine (callback_statuses_follow_iff acceptedTables_constraints ha rfl rfl _).mpr ?_
  decide

end Counterexample

end Piki.Callbacks
