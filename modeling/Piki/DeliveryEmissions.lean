import Piki.DeliveryAttempts

/-! The lifecycle events of `delivery/service.py`. `apply_callback` reports after its
transaction, `send` after its last one; between a commit and the report of it any other
call may run, or the process may stop. -/
namespace Piki

/-- The delivery events of `LifecycleEvent`. -/
inductive LifecycleEvent
  | deliveryAttempted
  | deliverySucceeded
  | deliveryFailed
  deriving DecidableEq, Repr

inductive EventOutcome
  | succeeded
  | failed
  deriving DecidableEq, Repr

structure LifecycleRecord where
  event : LifecycleEvent
  traceId : String
  component : String
  outcome : EventOutcome
  errorCode : Option String
  traceId_bounded : Bounded 1 128 traceId
  component_bounded : Bounded 1 100 component
  errorCode_bounded : AtMost 100 errorCode
  deriving Repr

instance : DecidableEq LifecycleRecord := fun a b =>
  decidable_of_iff (a.event = b.event ∧ a.traceId = b.traceId ∧ a.component = b.component ∧
    a.outcome = b.outcome ∧ a.errorCode = b.errorCode) (by
      cases a
      cases b
      simp)

def LifecycleRecord.make (event : LifecycleEvent) (traceId component : String)
    (outcome : EventOutcome) (errorCode : Option String) : Except Failure LifecycleRecord :=
  if h : Bounded 1 128 traceId ∧ Bounded 1 100 component ∧ AtMost 100 errorCode then
    .ok ⟨event, traceId, component, outcome, errorCode, h.1, h.2.1, h.2.2⟩
  else .error (.validation "LifecycleRecord")

theorem LifecycleRecord.make_event {event : LifecycleEvent} {traceId component : String}
    {outcome : EventOutcome} {errorCode : Option String} {r : LifecycleRecord}
    (h : make event traceId component outcome errorCode = .ok r) : r.event = event := by
  unfold make at h
  split_ifs at h
  cases h
  rfl

namespace DeliveryEmissions
open Table Transition DeliveryStore
open Callbacks (EventKey eventKey commitCallback_events Held held_step held_close held_commit
  held_withTables)

/-- The calls of `emit` that one call makes, in order; a record that is refused raises
and ends them. -/
def emitted : List (Except Failure LifecycleRecord) → List LifecycleRecord
  | .ok record :: records => record :: emitted records
  | _ => []

/-- `apply_callback` after its transaction. -/
def callbackRecords (callback : MetaStatusUpdate) (status : CallbackApplyStatus)
    (traceId : String) : List (Except Failure LifecycleRecord) :=
  if status = .applied then
    match callback.status with
    | .delivered => [LifecycleRecord.make .deliverySucceeded traceId "meta_delivery_callback"
        .succeeded none]
    | .failed => [LifecycleRecord.make .deliveryFailed traceId "meta_delivery_callback"
        .failed callback.errorCode]
    | _ => []
  else []

/-- `_emit_attempt`. -/
def attemptRecords (result : DeliveryResult) : List (Except Failure LifecycleRecord) :=
  let failed := result.status = .failed ∨ result.status = .unknown
  LifecycleRecord.make .deliveryAttempted result.traceId "meta_delivery"
    (if failed then .failed else .succeeded) result.errorCode ::
    if failed then
      [LifecycleRecord.make .deliveryFailed result.traceId "meta_delivery" .failed result.errorCode]
    else []

/-- A call of `apply_callback` or of `send`. -/
inductive Call
  | callback (t : ℕ)
  | send (n : ℕ)
  deriving DecidableEq, Repr

/-- What can be observed: the commit of a transaction that inserted a status event, and
the records that the sink receives, with the provider id that they are about. -/
inductive Entry
  | committed (call : Call) (event : DeliveryStatusEventRecord)
  | emitted (call : Call) (providerMessageId : Option String) (record : LifecycleRecord)
  deriving DecidableEq, Repr

/-- A callback that is committed and not yet reported. -/
structure Returned where
  callback : MetaStatusUpdate
  status : CallbackApplyStatus
  traceId : String
  deriving DecidableEq, Repr

inductive SendPhase
  | idle
  | created (attemptId : Uuid)
  | answered (attemptId : Uuid) (result : DeliveryResult)
  | settled (result : DeliveryResult)
  deriving DecidableEq, Repr

structure State where
  callbacks : Callbacks.State
  returned : ℕ → Option Returned
  sends : ℕ → SendPhase
  log : List Entry

/-- `adapter` is the answer of any adapter; `finalize` is one transaction whose insert
waits for a competing one; `stop` ends a call wherever it is. -/
inductive Label
  | statement (l : Callbacks.Label)
  | report (t : ℕ)
  | claim (n : ℕ) (attemptId conversationId : Uuid) (request : DeliveryRequest)
  | adapter (n : ℕ) (result : DeliveryResult)
  | finalize (n : ℕ) (now : Time)
  | announce (n : ℕ)
  | stop (call : Call)

def State.record (s : State) (call : Call) (providerMessageId : Option String)
    (records : List (Except Failure LifecycleRecord)) : State :=
  { s with log := s.log ++ (emitted records).map (.emitted call providerMessageId) }

/-- The commit of a callback fixes what is reported later. -/
def State.commit (s : State) (c : Callbacks.State) (t : ℕ) (callback : MetaStatusUpdate)
    (attempt : DeliveryAttemptRecord) : State :=
  { s with
    callbacks := c
    returned := Function.update s.returned t (some ⟨callback,
      (commitCallback s.callbacks.tables callback attempt).1, attempt.traceId⟩)
    log := s.log ++ [.committed (.callback t) (callbackEvent callback attempt)] }

/-- A statement of `apply_callback`. -/
def statement (s : State) (l : Callbacks.Label) : Option State :=
  match l with
  | .select t _ =>
    if s.returned t = none then
      (Callbacks.step s.callbacks l).map fun c => { s with callbacks := c }
    else none
  | .commit t =>
    match s.callbacks.txns t with
    | .inserted callback attempt =>
      (Callbacks.step s.callbacks l).map fun c => s.commit c t callback attempt
    | _ => none
  | _ => (Callbacks.step s.callbacks l).map fun c => { s with callbacks := c }

def State.setSend (s : State) (n : ℕ) (phase : SendPhase) : State :=
  { s with sends := Function.update s.sends n phase }

def State.withTables (s : State) (tables : DeliveryTables) : State :=
  { s with callbacks := s.callbacks.withTables tables }

def step (s : State) : Label → Option State
  | .statement l => statement s l
  | .report t =>
    match s.returned t with
    | some r => some ({ s with returned := Function.update s.returned t none }.record (.callback t)
        (some r.callback.providerMessageId) (callbackRecords r.callback r.status r.traceId))
    | none => none
  | .claim n attemptId conversationId request =>
    if s.sends n = .idle then
      match claim s.callbacks.tables attemptId conversationId request with
      | .error _ => some s
      | .ok (⟨true, attempt⟩, db) => some ((s.withTables db).setSend n (.created attempt.id))
      | .ok (⟨false, attempt⟩, db) =>
        match IdempotentDeliveryService.existingResult attempt with
        | .error _ => some (s.withTables db)
        | .ok result => some ((s.withTables db).setSend n (.settled result))
    else none
  | .adapter n result =>
    match s.sends n with
    | .created attemptId => some (s.setSend n (.answered attemptId result))
    | _ => none
  | .finalize n now =>
    match s.sends n with
    | .answered attemptId result =>
      let event := resultEvent attemptId now result
      if s.callbacks.uncommitted.any fun u => decide (some u.2 = event.providerState) then none
      else match finalize s.callbacks.tables now attemptId result with
        | .error _ => some (s.setSend n .idle)
        | .ok (_, db) => some { ((s.withTables db).setSend n (.settled result)) with
            log := s.log ++ [.committed (.send n) event] }
    | _ => none
  | .announce n =>
    match s.sends n with
    | .settled result => some ((s.setSend n .idle).record (.send n) result.providerMessageId
        (attemptRecords result))
    | _ => none
  | .stop (.callback t) =>
    some { s with
      callbacks := s.callbacks.close t
      returned := Function.update s.returned t none }
  | .stop (.send n) => some (s.setSend n .idle)

/-- No call is in progress. -/
def start (tables : DeliveryTables) : State :=
  ⟨Callbacks.start tables, fun _ => none, fun _ => .idle, []⟩

/-- A step that neither commits an event nor reports one. -/
structure Quiet (s u : State) : Prop where
  log : u.log = s.log
  returned : ∀ t r, u.returned t = some r → s.returned t = some r
  events : u.callbacks.tables.events = s.callbacks.tables.events
  held : Held s.callbacks → Held u.callbacks

theorem quiet_tables (s : State) {tables : DeliveryTables}
    (h : tables.events = s.callbacks.tables.events) : Quiet s (s.withTables tables) := by
  refine ⟨rfl, fun _ _ hr => hr, h, ?_⟩
  intro hheld
  refine ⟨?_, hheld.exclusive⟩
  intro t callback attempt ht
  obtain ⟨hk, hf⟩ := hheld.fresh t callback attempt ht
  refine ⟨hk, ?_⟩
  intro e he
  exact hf e (h ▸ he)

theorem quiet_sends (s : State) (n : ℕ) (phase : SendPhase) {tables : DeliveryTables}
    (h : tables.events = s.callbacks.tables.events) :
    Quiet s ((s.withTables tables).setSend n phase) := by
  obtain ⟨hlog, hreturned, hevents, hheld⟩ := quiet_tables s h
  exact ⟨hlog, hreturned, hevents, hheld⟩

theorem quiet_callbacks {s : State} {c : Callbacks.State} {l : Callbacks.Label}
    (hl : ∀ t, l ≠ .commit t) (h : Callbacks.step s.callbacks l = some c) :
    Quiet s { s with callbacks := c } := by
  refine ⟨rfl, fun _ _ hr => hr, ?_, fun hheld => held_step hheld h⟩
  exact congrArg _ (Callbacks.step_attempts h fun t _ _ he => absurd he (hl t))

/-- A statement is quiet, or it is the commit of an open transaction. -/
theorem statement_cases {s u : State} {l : Callbacks.Label} (hs : statement s l = some u) :
    Quiet s u ∨
    ∃ t callback attempt, s.callbacks.txns t = .inserted callback attempt ∧
      u = s.commit ((s.callbacks.close t).withTables
        (commitCallback s.callbacks.tables callback attempt).2) t callback attempt := by
  cases l with
  | select t callback =>
    simp only [statement] at hs
    split_ifs at hs
    obtain ⟨c, hc, rfl⟩ := Option.map_eq_some_iff.mp hs
    exact .inl (quiet_callbacks (by simp) hc)
  | insertEvent t =>
    obtain ⟨c, hc, rfl⟩ := Option.map_eq_some_iff.mp hs
    exact .inl (quiet_callbacks (by simp) hc)
  | commit t =>
    cases ht : s.callbacks.txns t with
    | idle | selected => simp [statement, ht] at hs
    | inserted callback attempt =>
      simp only [statement, ht, Callbacks.step_commit ht, Option.map_some] at hs
      cases hs
      exact .inr ⟨t, callback, attempt, ht, rfl⟩
  | rollback t =>
    have hs' : (Callbacks.step s.callbacks (.rollback t)).map
        (fun c => { s with callbacks := c }) = some u := hs
    obtain ⟨c, hc, rfl⟩ := Option.map_eq_some_iff.mp hs'
    exact .inl (quiet_callbacks (by simp) hc)

theorem quiet_refl (s : State) : Quiet s s := ⟨rfl, fun _ _ hr => hr, rfl, id⟩

theorem claim_quiet {s u : State} {n : ℕ} {attemptId conversationId : Uuid}
    {request : DeliveryRequest} (hs : step s (.claim n attemptId conversationId request) = some u) :
    Quiet s u := by
  simp only [step] at hs
  split_ifs at hs
  cases hc : claim s.callbacks.tables attemptId conversationId request with
  | error e =>
    simp only [hc] at hs
    cases hs
    exact quiet_refl s
  | ok r =>
    obtain ⟨⟨created, attempt⟩, db⟩ := r
    have hevents : db.events = s.callbacks.tables.events := by
      rcases claim_ok hc with ⟨-, rfl, -⟩ | ⟨-, -, -, -, rfl⟩ <;> rfl
    cases created with
    | true =>
      simp only [hc] at hs
      cases hs
      exact quiet_sends s n _ hevents
    | false =>
      simp only [hc] at hs
      cases hr : IdempotentDeliveryService.existingResult attempt with
      | error e =>
        simp only [hr] at hs
        cases hs
        exact quiet_tables s hevents
      | ok result =>
        simp only [hr] at hs
        cases hs
        exact quiet_sends s n _ hevents

/-- All that a step can do. -/
theorem step_cases {s u : State} {l : Label} (hs : step s l = some u) :
    Quiet s u ∨
    (∃ t callback attempt, s.callbacks.txns t = .inserted callback attempt ∧
      u = s.commit ((s.callbacks.close t).withTables
        (commitCallback s.callbacks.tables callback attempt).2) t callback attempt) ∨
    (∃ t r, s.returned t = some r ∧
      u = { s with returned := Function.update s.returned t none }.record (.callback t)
        (some r.callback.providerMessageId) (callbackRecords r.callback r.status r.traceId)) ∨
    (∃ n attemptId now result db,
      (∀ v ∈ s.callbacks.uncommitted,
        (resultEvent attemptId now result).providerState ≠ some v.2) ∧
      finalize s.callbacks.tables now attemptId result = .ok ((), db) ∧
      u = { ((s.withTables db).setSend n (.settled result)) with
        log := s.log ++ [.committed (.send n) (resultEvent attemptId now result)] }) ∨
    ∃ n result, u = (s.setSend n .idle).record (.send n) result.providerMessageId
      (attemptRecords result) := by
  cases l with
  | statement l =>
    rcases statement_cases hs with hq | hcommit
    · exact .inl hq
    · exact .inr (.inl hcommit)
  | report t =>
    cases hr : s.returned t with
    | none => simp [step, hr] at hs
    | some r =>
      simp only [step, hr] at hs
      cases hs
      exact .inr (.inr (.inl ⟨t, r, hr, rfl⟩))
  | claim n attemptId conversationId request => exact .inl (claim_quiet hs)
  | adapter n result =>
    cases hn : s.sends n with
    | created attemptId =>
      simp only [step, hn] at hs
      cases hs
      exact .inl (quiet_sends s n _ rfl)
    | idle | answered | settled => simp [step, hn] at hs
  | finalize n now =>
    cases hn : s.sends n with
    | idle | created | settled => simp [step, hn] at hs
    | answered attemptId result =>
      simp only [step, hn] at hs
      split_ifs at hs with hwait
      cases hf : finalize s.callbacks.tables now attemptId result with
      | error e =>
        simp only [hf] at hs
        cases hs
        exact .inl (quiet_sends s n .idle rfl)
      | ok r =>
        simp only [hf] at hs
        cases hs
        refine .inr (.inr (.inr (.inl ⟨n, attemptId, now, result, r.2, ?_, hf, rfl⟩)))
        intro v hv he
        exact hwait (List.any_eq_true.mpr ⟨v, hv, by simpa using he.symm⟩)
  | announce n =>
    cases hn : s.sends n with
    | idle | created | answered => simp [step, hn] at hs
    | settled result =>
      simp only [step, hn] at hs
      cases hs
      exact .inr (.inr (.inr (.inr ⟨n, result, rfl⟩)))
  | stop call =>
    cases call with
    | callback t =>
      cases hs
      refine .inl ⟨rfl, ?_, rfl, fun h => held_close h t⟩
      intro u r hu
      by_cases hut : u = t
      · subst hut
        simp at hu
      · simpa [hut] using hu
    | send n =>
      cases hs
      exact .inl (quiet_sends s n .idle rfl)

/-- A callback that has committed nothing is not reported. -/
example : (step (start .empty) (.report 1)).isNone = true := by decide +kernel

/-- The delivery of the message is reported. -/
def reports (p : String) : Entry → Bool
  | .emitted _ q record => decide (q = some p ∧ record.event = .deliverySucceeded)
  | .committed _ _ => false

/-- The status event of this key is committed. -/
def inserts (key : EventKey) : Entry → Bool
  | .committed _ event => decide (event.providerState = some key)
  | .emitted _ _ _ => false

/-- Every report of a success comes after the commit, by the same call, of the event
that says so. -/
def Ordered (log : List Entry) : Prop :=
  ∀ (i : ℕ) call q record, log[i]? = some (Entry.emitted call q record) →
    record.event = .deliverySucceeded → ∃ t p, call = .callback t ∧ q = some p ∧
      ∃ j event, j < i ∧ log[j]? = some (Entry.committed (.callback t) event) ∧
        event.providerState = some (p, .delivered)

theorem ordered_append {log new : List Entry} (h : Ordered log)
    (hnew : ∀ call q record, .emitted call q record ∈ new → record.event = .deliverySucceeded →
      ∃ t p, call = .callback t ∧ q = some p ∧ ∃ event, .committed (.callback t) event ∈ log ∧
        event.providerState = some (p, .delivered)) : Ordered (log ++ new) := by
  intro i call q record hi hr
  by_cases hlt : i < log.length
  · rw [List.getElem?_append_left hlt] at hi
    obtain ⟨t, p, hcall, hq, j, event, hj, hj', hk⟩ := h i call q record hi hr
    refine ⟨t, p, hcall, hq, j, event, hj, ?_, hk⟩
    rw [List.getElem?_append_left (hj.trans hlt)]
    exact hj'
  · rw [List.getElem?_append_right (by omega)] at hi
    obtain ⟨t, p, hcall, hq, event, hmem, hk⟩ := hnew call q record (List.mem_of_getElem? hi) hr
    obtain ⟨j, hj⟩ := List.mem_iff_getElem?.mp hmem
    have hjlt : j < log.length := (List.getElem?_eq_some_iff.mp hj).1
    refine ⟨t, p, hcall, hq, j, event, by omega, ?_, hk⟩
    rw [List.getElem?_append_left hjlt]
    exact hj

/-- Over every interleaving: what is in the log is in the tables, a committed callback
is the only one of its key, and its success is not reported yet. -/
structure Inv (s : State) : Prop where
  held : Held s.callbacks
  durable : ∀ call event, .committed call event ∈ s.log → event ∈ s.callbacks.tables.events
  returned : ∀ t r, s.returned t = some r → ∃ event, .committed (.callback t) event ∈ s.log ∧
    event.providerState = some (eventKey r.callback)
  alone : ∀ t t' r r', s.returned t = some r → s.returned t' = some r' →
    eventKey r.callback = eventKey r'.callback → t = t'
  unreported : ∀ t r, s.returned t = some r → r.callback.status = .delivered →
    ∀ e ∈ s.log, reports r.callback.providerMessageId e = false
  ordered : Ordered s.log
  once : ∀ p, s.log.countP (reports p) ≤ 1
  inserted : ∀ key, s.log.countP (inserts key) ≤ 1

theorem inv_start (tables : DeliveryTables) : Inv (start tables) where
  held := by
    constructor
    · intro t callback attempt ht
      cases ht
    · intro t t' k hk
      cases hk
  durable call event h := by cases h
  returned t r h := by cases h
  alone t t' r r' h := by cases h
  unreported t r h := by cases h
  ordered i call q record h := by cases h
  once p := Nat.zero_le _
  inserted key := Nat.zero_le _

theorem inv_quiet {s u : State} (h : Inv s) (hq : Quiet s u) : Inv u := by
  refine ⟨hq.held h.held, ?_, ?_, ?_, ?_, ?_, ?_, ?_⟩
  · rw [hq.log, hq.events]
    exact h.durable
  · intro t r hr
    rw [hq.log]
    exact h.returned t r (hq.returned t r hr)
  · intro t t' r r' hr hr'
    exact h.alone t t' r r' (hq.returned t r hr) (hq.returned t' r' hr')
  · intro t r hr
    rw [hq.log]
    exact h.unreported t r (hq.returned t r hr)
  · rw [hq.log]
    exact h.ordered
  · rw [hq.log]
    exact h.once
  · rw [hq.log]
    exact h.inserted

/-- A key that is in no stored event was committed and reported by nobody. -/
theorem Inv.unlogged {s : State} (h : Inv s) {key : EventKey}
    (hfree : ∀ e ∈ s.callbacks.tables.events, e.providerState ≠ some key) :
    s.log.countP (inserts key) = 0 ∧ ∀ e ∈ s.log, key.2 = .delivered → reports key.1 e = false := by
  have hnone : ∀ call event, .committed call event ∈ s.log → event.providerState ≠ some key :=
    fun call event hmem => hfree event (h.durable call event hmem)
  constructor
  · rw [List.countP_eq_zero]
    intro e he hins
    cases e with
    | committed call event => exact hnone call event he (of_decide_eq_true hins)
    | emitted call q record => cases hins
  · intro e he hkey
    by_contra hrep
    rw [Bool.not_eq_false] at hrep
    cases e with
    | committed call event => cases hrep
    | emitted call q record =>
      obtain ⟨hq, hr⟩ := of_decide_eq_true hrep
      obtain ⟨i, hi⟩ := List.mem_iff_getElem?.mp he
      obtain ⟨t, p, -, hp, j, event, -, hj, hk⟩ := h.ordered i call q record hi hr
      have hpk : p = key.1 := Option.some.inj (hp.symm.trans hq)
      refine hnone _ event (List.mem_of_getElem? hj) ?_
      rw [hk, hpk, ← hkey]

theorem inv_commit {s : State} {t : ℕ} {callback : MetaStatusUpdate}
    {attempt : DeliveryAttemptRecord} (h : Inv s)
    (ht : s.callbacks.txns t = .inserted callback attempt) :
    Inv (s.commit ((s.callbacks.close t).withTables
      (commitCallback s.callbacks.tables callback attempt).2) t callback attempt) := by
  have hfree := (h.held.fresh t callback attempt ht).2
  obtain ⟨hcount, hnone⟩ := h.unlogged hfree
  have hevents := commitCallback_events s.callbacks.tables callback attempt
  -- an older callback with this key has its event in the tables
  have hother : ∀ t' r, s.returned t' = some r → eventKey r.callback ≠ eventKey callback := by
    intro t' r hr hkey
    obtain ⟨event, hmem, hk⟩ := h.returned t' r hr
    rw [hkey] at hk
    exact hfree event (h.durable _ event hmem) hk
  have hreturned : ∀ t' r, (s.commit ((s.callbacks.close t).withTables
      (commitCallback s.callbacks.tables callback attempt).2) t callback attempt).returned t' =
        some r → (t' = t ∧ r.callback = callback) ∨ (t' ≠ t ∧ s.returned t' = some r) := by
    intro t' r hr
    by_cases htt : t' = t
    · subst htt
      simp only [State.commit, Function.update_self, Option.some.injEq] at hr
      exact .inl ⟨rfl, by rw [← hr]⟩
    · exact .inr ⟨htt, by simpa [State.commit, htt] using hr⟩
  refine ⟨held_commit h.held ht, ?_, ?_, ?_, ?_, ?_, ?_, ?_⟩
  · intro call event hmem
    simp only [State.commit, Callbacks.State.withTables, hevents]
    rcases List.mem_append.mp hmem with hmem | hmem
    · exact List.mem_append_left _ (h.durable call event hmem)
    · cases List.mem_singleton.mp hmem
      exact List.mem_append_right _ (List.mem_singleton_self _)
  · intro t' r hr
    rcases hreturned t' r hr with ⟨rfl, hc⟩ | ⟨-, hr⟩
    · refine ⟨callbackEvent callback attempt, List.mem_append_right _ ?_, by rw [hc]; rfl⟩
      exact List.mem_singleton_self _
    · obtain ⟨event, hmem, hk⟩ := h.returned t' r hr
      exact ⟨event, List.mem_append_left _ hmem, hk⟩
  · intro t₁ t₂ r₁ r₂ hr₁ hr₂ hkey
    rcases hreturned t₁ r₁ hr₁ with ⟨ht₁, hc₁⟩ | ⟨-, hold₁⟩ <;>
      rcases hreturned t₂ r₂ hr₂ with ⟨ht₂, hc₂⟩ | ⟨-, hold₂⟩
    · exact ht₁.trans ht₂.symm
    · rw [hc₁] at hkey
      exact absurd hkey.symm (hother t₂ r₂ hold₂)
    · rw [hc₂] at hkey
      exact absurd hkey (hother t₁ r₁ hold₁)
    · exact h.alone t₁ t₂ r₁ r₂ hold₁ hold₂ hkey
  · intro t' r hr hdelivered e he
    rcases List.mem_append.mp he with he | he
    · rcases hreturned t' r hr with ⟨-, hc⟩ | ⟨-, hr⟩
      · rw [hc] at hdelivered ⊢
        exact hnone e he (by rw [eventKey, hdelivered]; rfl)
      · exact h.unreported t' r hr hdelivered e he
    · rw [List.mem_singleton.mp he]
      rfl
  · refine ordered_append h.ordered ?_
    intro call q record hmem
    cases List.mem_singleton.mp hmem
  · intro p
    simpa [State.commit, List.countP_append, reports] using h.once p
  · intro key
    simp only [State.commit, List.countP_append, List.countP_cons, List.countP_nil, Nat.zero_add]
    by_cases hkey : eventKey callback = key
    · rw [← hkey, hcount]
      split_ifs <;> omega
    · have hne : inserts key (.committed (.callback t) (callbackEvent callback attempt)) = false := by
        refine decide_eq_false ?_
        intro he
        exact hkey (Option.some.inj he)
      rw [hne]
      exact h.inserted key

theorem emitted_subset {records : List (Except Failure LifecycleRecord)} {record : LifecycleRecord}
    (h : record ∈ emitted records) : .ok record ∈ records := by
  induction records with
  | nil => cases h
  | cons r records ih =>
    cases r with
    | error e => cases h
    | ok x =>
      rcases List.mem_cons.mp h with rfl | h
      · exact List.mem_cons_self
      · exact List.mem_cons_of_mem _ (ih h)

/-- Only an applied `delivered` reports a success, and it is the only record. -/
theorem callbackRecords_spec (callback : MetaStatusUpdate) (status : CallbackApplyStatus)
    (traceId : String) :
    (emitted (callbackRecords callback status traceId)).length ≤ 1 ∧
      ∀ record ∈ emitted (callbackRecords callback status traceId),
        record.event = .deliverySucceeded → callback.status = .delivered := by
  have hone : ∀ r : Except Failure LifecycleRecord, (emitted [r]).length ≤ 1 := by
    intro r
    cases r <;> simp [emitted]
  unfold callbackRecords
  split_ifs
  · cases hs : callback.status with
    | delivered => exact ⟨hone _, fun _ _ _ => rfl⟩
    | failed =>
      refine ⟨hone _, ?_⟩
      intro record hmem he
      have hmake := LifecycleRecord.make_event (List.mem_singleton.mp (emitted_subset hmem)).symm
      rw [he] at hmake
      cases hmake
    | sent | read | accepted | unknown => exact ⟨Nat.zero_le _, fun _ hmem _ => by cases hmem⟩
  · exact ⟨Nat.zero_le _, fun _ hmem _ => by cases hmem⟩

/-- `send` never reports a success. -/
theorem attemptRecords_event {result : DeliveryResult} {record : LifecycleRecord}
    (h : record ∈ emitted (attemptRecords result)) : record.event ≠ .deliverySucceeded := by
  have hmem := emitted_subset h
  simp only [attemptRecords] at hmem
  rcases List.mem_cons.mp hmem with hmake | hmem
  · rw [LifecycleRecord.make_event hmake.symm]
    simp
  · split_ifs at hmem
    · rw [LifecycleRecord.make_event (List.mem_singleton.mp hmem).symm]
      simp
    · cases hmem

/-- Records are appended by a call that then has nothing left to report. -/
theorem inv_record {s : State} (h : Inv s) (call : Call) (q : Option String)
    (records : List LifecycleRecord) {returned : ℕ → Option Returned} (sends : ℕ → SendPhase)
    (hsub : ∀ t r, returned t = some r → s.returned t = some r)
    (hordered : ∀ record ∈ records, record.event = .deliverySucceeded →
      ∃ t p, call = .callback t ∧ q = some p ∧ ∃ event, .committed (.callback t) event ∈ s.log ∧
        event.providerState = some (p, .delivered))
    (hothers : ∀ t r, returned t = some r → r.callback.status = .delivered →
      ∀ record ∈ records, record.event = .deliverySucceeded →
        q ≠ some r.callback.providerMessageId)
    (honce : ∀ p, s.log.countP (reports p) +
      (records.map (Entry.emitted call q)).countP (reports p) ≤ 1) :
    Inv ⟨s.callbacks, returned, sends, s.log ++ records.map (Entry.emitted call q)⟩ := by
  refine ⟨h.held, ?_, ?_, ?_, ?_, ?_, ?_, ?_⟩
  · intro c event hmem
    rcases List.mem_append.mp hmem with hmem | hmem
    · exact h.durable c event hmem
    · obtain ⟨record, -, he⟩ := List.mem_map.mp hmem
      cases he
  · intro t r hr
    obtain ⟨event, hmem, hk⟩ := h.returned t r (hsub t r hr)
    exact ⟨event, List.mem_append_left _ hmem, hk⟩
  · intro t t' r r' hr hr'
    exact h.alone t t' r r' (hsub t r hr) (hsub t' r' hr')
  · intro t r hr hdelivered e he
    rcases List.mem_append.mp he with he | he
    · exact h.unreported t r (hsub t r hr) hdelivered e he
    · obtain ⟨record, hrecord, rfl⟩ := List.mem_map.mp he
      refine decide_eq_false ?_
      rintro ⟨hq, hevent⟩
      exact hothers t r hr hdelivered record hrecord hevent hq
  · refine ordered_append h.ordered ?_
    intro c q' record hmem hevent
    obtain ⟨record', hrecord, he⟩ := List.mem_map.mp hmem
    cases he
    exact hordered record hrecord hevent
  · intro p
    rw [List.countP_append]
    exact honce p
  · intro key
    have hzero : (records.map (Entry.emitted call q)).countP (inserts key) = 0 := by
      rw [List.countP_eq_zero]
      intro e he
      obtain ⟨record, -, rfl⟩ := List.mem_map.mp he
      simp [inserts]
    rw [List.countP_append, hzero]
    exact h.inserted key

theorem inv_report {s : State} {t : ℕ} {r : Returned} (h : Inv s) (hr : s.returned t = some r) :
    Inv ({ s with returned := Function.update s.returned t none }.record (.callback t)
      (some r.callback.providerMessageId) (callbackRecords r.callback r.status r.traceId)) := by
  obtain ⟨hlen, hdelivered⟩ := callbackRecords_spec r.callback r.status r.traceId
  have hkey : r.callback.status = .delivered →
      eventKey r.callback = (r.callback.providerMessageId, .delivered) := by
    intro hs
    rw [eventKey, hs]
    rfl
  have hsub : ∀ t' r', Function.update s.returned t none t' = some r' →
      t' ≠ t ∧ s.returned t' = some r' := by
    intro t' r' hr'
    by_cases htt : t' = t
    · subst htt
      simp at hr'
    · exact ⟨htt, by simpa [htt] using hr'⟩
  refine inv_record h _ _ _ s.sends (fun t' r' hr' => (hsub t' r' hr').2) ?_ ?_ ?_
  · intro record hmem hevent
    obtain ⟨event, hlogged, hk⟩ := h.returned t r hr
    rw [hkey (hdelivered record hmem hevent)] at hk
    exact ⟨t, _, rfl, rfl, event, hlogged, hk⟩
  · intro t' r' hr' hs' record hmem hevent hq
    obtain ⟨hne, hr'⟩ := hsub t' r' hr'
    refine hne (h.alone t' t r' r hr' hr ?_)
    rw [hkey (hdelivered record hmem hevent), Option.some.inj hq, eventKey, hs']
    rfl
  · intro p
    by_cases hrep : ∃ record ∈ emitted (callbackRecords r.callback r.status r.traceId),
        reports p (.emitted (.callback t) (some r.callback.providerMessageId) record) = true
    · obtain ⟨record, hmem, hrep⟩ := hrep
      obtain ⟨hq, hevent⟩ := of_decide_eq_true hrep
      have hzero : s.log.countP (reports p) = 0 := by
        rw [List.countP_eq_zero]
        intro e he
        rw [← Option.some.inj hq, h.unreported t r hr (hdelivered record hmem hevent) e he]
        simp
      have hle := List.countP_le_length (p := reports p)
        (l := (emitted (callbackRecords r.callback r.status r.traceId)).map
          (Entry.emitted (.callback t) (some r.callback.providerMessageId)))
      rw [List.length_map] at hle
      omega
    · have hzero : ((emitted (callbackRecords r.callback r.status r.traceId)).map
          (Entry.emitted (.callback t) (some r.callback.providerMessageId))).countP
            (reports p) = 0 := by
        rw [List.countP_eq_zero]
        intro e he hrep'
        obtain ⟨record, hmem, rfl⟩ := List.mem_map.mp he
        exact hrep ⟨record, hmem, hrep'⟩
      rw [hzero]
      exact h.once p

theorem inv_announce {s : State} (h : Inv s) (n : ℕ) (result : DeliveryResult) :
    Inv ((s.setSend n .idle).record (.send n) result.providerMessageId (attemptRecords result)) := by
  refine inv_record h _ _ _ _ (fun _ _ hr => hr) ?_ ?_ ?_
  · intro record hmem hevent
    exact absurd hevent (attemptRecords_event hmem)
  · intro t r hr hs record hmem hevent
    exact absurd hevent (attemptRecords_event hmem)
  · intro p
    have hzero : ((emitted (attemptRecords result)).map
        (Entry.emitted (.send n) result.providerMessageId)).countP (reports p) = 0 := by
      rw [List.countP_eq_zero]
      intro e he hrep
      obtain ⟨record, hmem, rfl⟩ := List.mem_map.mp he
      exact attemptRecords_event hmem (of_decide_eq_true hrep).2
    rw [hzero]
    exact h.once p

theorem inv_finalize {s : State} (h : Inv s) {n : ℕ} {attemptId : Uuid} {now : Time}
    {result : DeliveryResult} {db : DeliveryTables}
    (hwait : ∀ v ∈ s.callbacks.uncommitted,
      (resultEvent attemptId now result).providerState ≠ some v.2)
    (hf : finalize s.callbacks.tables now attemptId result = .ok ((), db)) :
    Inv { ((s.withTables db).setSend n (.settled result)) with
      log := s.log ++ [.committed (.send n) (resultEvent attemptId now result)] } := by
  obtain ⟨-, hfree, rfl⟩ := finalize_ok hf
  refine ⟨held_withTables h.held rfl ?_, ?_, ?_, h.alone, ?_, ?_, ?_, ?_⟩
  · intro t callback attempt ht
    exact hwait _ (h.held.fresh t callback attempt ht).1
  · intro call event hmem
    rcases List.mem_append.mp hmem with hmem | hmem
    · exact List.mem_append_left _ (h.durable call event hmem)
    · cases List.mem_singleton.mp hmem
      exact List.mem_append_right _ (List.mem_singleton_self _)
  · intro t r hr
    obtain ⟨event, hmem, hk⟩ := h.returned t r hr
    exact ⟨event, List.mem_append_left _ hmem, hk⟩
  · intro t r hr hs e he
    rcases List.mem_append.mp he with he | he
    · exact h.unreported t r hr hs e he
    · rw [List.mem_singleton.mp he]
      rfl
  · refine ordered_append h.ordered ?_
    intro call q record hmem
    cases List.mem_singleton.mp hmem
  · intro p
    simpa [List.countP_append, reports] using h.once p
  · intro key
    simp only [List.countP_append, List.countP_cons, List.countP_nil, Nat.zero_add]
    by_cases hkey : (resultEvent attemptId now result).providerState = some key
    · obtain ⟨hcount, -⟩ := h.unlogged (conflict_eq_none.mp hfree key hkey)
      rw [hcount]
      split_ifs <;> omega
    · have hne : inserts key (.committed (.send n) (resultEvent attemptId now result)) = false :=
        decide_eq_false hkey
      rw [hne]
      exact h.inserted key

theorem inv_step {s u : State} {l : Label} (h : Inv s) (hs : step s l = some u) : Inv u := by
  rcases step_cases hs with hq | ⟨_, _, _, ht, rfl⟩ | ⟨_, _, hr, rfl⟩ |
    ⟨_, _, _, _, _, hwait, hf, rfl⟩ | ⟨n, result, rfl⟩
  · exact inv_quiet h hq
  · exact inv_commit h ht
  · exact inv_report h hr
  · exact inv_finalize h hwait hf
  · exact inv_announce h n result

/-- Over every interleaving of callback statements and sends, the delivery of a message
is reported at most once, after the commit, by the same callback, of the one stored event
that says so, and never by a send. -/
theorem delivery_reported_once {tables : DeliveryTables} {schedule : List Label} {s : State}
    (hrun : exec step (start tables) schedule = some s) :
    (∀ p, s.log.countP (reports p) ≤ 1) ∧
    (∀ (i : ℕ) call q record, s.log[i]? = some (Entry.emitted call q record) →
      record.event = .deliverySucceeded → ∃ t p, call = .callback t ∧ q = some p ∧
        ∃ j event, j < i ∧ s.log[j]? = some (Entry.committed (.callback t) event) ∧
          event.providerState = some (p, .delivered) ∧ event ∈ s.callbacks.tables.events ∧
          s.log.countP (inserts (p, .delivered)) = 1) ∧
    ∀ n q record, Entry.emitted (.send n) q record ∈ s.log → record.event ≠ .deliverySucceeded := by
  have h : Inv s := exec_invariant (fun _ _ _ hi hs => inv_step hi hs) (inv_start tables) hrun
  refine ⟨h.once, ?_, ?_⟩
  · intro i call q record hi hevent
    obtain ⟨t, p, hcall, hq, j, event, hj, hlog, hk⟩ := h.ordered i call q record hi hevent
    have hmem := List.mem_of_getElem? hlog
    refine ⟨t, p, hcall, hq, j, event, hj, hlog, hk, h.durable _ event hmem, ?_⟩
    have hpos : 0 < s.log.countP (inserts (p, .delivered)) :=
      List.countP_pos_iff.mpr ⟨_, hmem, decide_eq_true hk⟩
    exact Nat.le_antisymm (h.inserted _) hpos
  · intro n q record hmem hevent
    obtain ⟨i, hi⟩ := List.mem_iff_getElem?.mp hmem
    obtain ⟨t, p, hcall, -⟩ := h.ordered i _ q record hi hevent
    cases hcall

/-- Two deliveries of the same status race, and the reply is sent again. -/
def racingSchedule : List Label :=
  let delivered := Callbacks.deliveredReport
  [.statement (.select 1 delivered), .statement (.select 2 delivered),
    .statement (.insertEvent 1), .statement (.commit 1), .statement (.insertEvent 2),
    .claim 1 2 1 DeliveryAttempts.replyRequest, .report 1, .announce 1]

/-- The run reports one success, at position 1 of the log. -/
theorem racing_deliveries_reported_once :
    ∃ s, exec step (start Callbacks.acceptedTables) racingSchedule = some s ∧
      (∃ call q record, s.log[1]? = some (.emitted call q record) ∧
        record.event = .deliverySucceeded) ∧
      s.log.countP (reports "wamid.out") ≤ 1 := by
  have hsome : (exec step (start Callbacks.acceptedTables) racingSchedule).map
      (fun s => s.log[1]?.any fun e => match e with
        | .emitted _ _ record => decide (record.event = .deliverySucceeded)
        | .committed _ _ => false) = some true := by
    decide
  obtain ⟨s, hs, hany⟩ := Option.map_eq_some_iff.mp hsome
  obtain ⟨honce, -⟩ := delivery_reported_once hs
  refine ⟨s, hs, ?_, honce "wamid.out"⟩
  cases he : s.log[1]? with
  | none => simp [he] at hany
  | some e =>
    rw [he] at hany
    cases e with
    | committed call event => cases hany
    | emitted call q record => exact ⟨call, q, record, rfl, of_decide_eq_true hany⟩

end DeliveryEmissions
end Piki
