import Piki.WorkerFailures
import Piki.WorkerSurvival

/-! What a failed message says about the lock. A call of `respond_persisted` that does not get
the lock counts as an attempt like any other, so contention can use the attempts up. -/
namespace Piki.Worker
open Table Transition MessageProcessingStore
variable {cfg : Config}

/-- How one call of `respond_persisted` fared at the lock. -/
structure LockCall where
  messageRecordId : Uuid
  attempts : ℕ
  acquired : Bool
  deriving DecidableEq, Repr

/-- `acquire` answers `ACQUIRED`. -/
def acquires (s : State) (job : ClaimedInbound) (reachable : Bool) : Bool :=
  match scopeOf job with
  | .error _ => false
  | .ok scope => decide (reachable = true ∧ s.locks scope = none)

/-- The call whose fate at the lock the step decides; an exception before the lock counts as
a call that did not get it. -/
def lockCall (s : State) : Label → Option LockCall
  | .worker w (.acquire _ reachable) =>
    match s.workers w with
    | .claimed job => some ⟨job.messageRecordId, job.attempts, acquires s job reachable⟩
    | _ => none
  | .worker w .disturb =>
    match s.workers w with
    | .claimed job => some ⟨job.messageRecordId, job.attempts, false⟩
    | _ => none
  | _ => none

/-- The system together with the calls so far. -/
structure Observed where
  state : State
  calls : List LockCall

def observe (cfg : Config) (s : Observed) (l : Label) : Option Observed :=
  (step cfg s.state l).map fun t => ⟨t, s.calls ++ (lockCall s.state l).toList⟩

/-- A call for the message had the lock, or was turned away in the last attempt allowed. -/
def Excused (cfg : Config) (calls : List LockCall) (id : Uuid) : Prop :=
  ∃ call ∈ calls, call.messageRecordId = id ∧
    (call.acquired = true ∨ cfg.maxAttempts ≤ call.attempts)

/-- The job of a call that is past the lock, or that will fail it for good. -/
def Phase.admitted : Phase → Option ClaimedInbound
  | .idle | .stopped | .claimed _ => none
  | .failing job _ retry => if retry then none else some job
  | .locked job _ | .opened job _ _ | .composed job _ _ _ | .releasing job _ _
  | .replied job _ | .posting job _ _ | .awaiting job _ _ | .posted job _ _
  | .settling job _ => some job

structure ExcusedInv (cfg : Config) (s : Observed) : Prop where
  phases : ∀ w job, (s.state.workers w).admitted = some job →
    Excused cfg s.calls job.messageRecordId
  failed : ∀ m ∈ s.state.conversations.messages, m.processingStatus = some .failed →
    Excused cfg s.calls m.id

theorem Excused.mono {calls : List LockCall} {id : Uuid} (h : Excused cfg calls id)
    (more : List LockCall) : Excused cfg (calls ++ more) id := by
  obtain ⟨call, hm, hid, hfate⟩ := h
  exact ⟨call, List.mem_append_left _ hm, hid, hfate⟩

theorem Phase.admitted_of_terminal {p : Phase} {job : ClaimedInbound}
    (h : p.terminal = some job) : p.admitted = some job := by
  cases p with
  | settling job' result =>
    simp only [Phase.terminal] at h
    split_ifs at h
    exact h
  | failing job' code retry => exact h
  | _ => cases h

theorem Phase.job_of_admitted {p : Phase} {job : ClaimedInbound} (h : p.admitted = some job) :
    p.job = some job := by
  cases p with
  | idle | stopped | claimed => cases h
  | failing job' code retry =>
    simp only [Phase.admitted] at h
    split_ifs at h
    exact h
  | _ => exact h

section Actions
variable {s t : State} {w : ℕ} {a : Action} {job : ClaimedInbound}

/-- A caught exception is final only in the last attempt. -/
theorem caught_admitted {job' : ClaimedInbound} {e : Failure}
    (h : (caught cfg job e).admitted = some job') : job = job' ∧ cfg.maxAttempts ≤ job.attempts := by
  simp only [caught, Phase.admitted] at h
  split_ifs at h with hleft
  exact ⟨Option.some.inj h, by simpa using hleft⟩

/-- A worker that has claimed a message gets past the lock, or is turned away. -/
theorem claimed_admitted {job' : ClaimedInbound} (h : act cfg s w a = some t)
    (hp : s.workers w = .claimed job') (hq : (t.workers w).admitted = some job) :
    ∃ call, lockCall s (.worker w a) = some call ∧ call.messageRecordId = job.messageRecordId ∧
      (call.acquired = true ∨ cfg.maxAttempts ≤ call.attempts) := by
  have hraise : ∀ e, (s.raise cfg w e).workers w = caught cfg job' e := by
    intro e
    simp only [State.raise, State.put, Function.update_self, hp, Phase.raised]
  cases a with
  | acquire token reachable =>
    simp only [act, hp] at h
    simp only [lockCall, hp, acquires]
    cases hscope : scopeOf job' with
    | error e =>
      simp only [hscope] at h
      cases h
      rw [hraise] at hq
      obtain ⟨rfl, hlast⟩ := caught_admitted hq
      exact ⟨_, rfl, rfl, .inr hlast⟩
    | ok scope =>
      simp only [hscope] at h
      split_ifs at h with hfree
      · cases h
        simp only [State.put, Function.update_self, Phase.admitted, Option.some.injEq] at hq
        subst hq
        exact ⟨_, rfl, rfl, .inl (decide_eq_true hfree)⟩
      · cases h
        rw [hraise] at hq
        obtain ⟨rfl, hlast⟩ := caught_admitted hq
        exact ⟨_, rfl, rfl, .inr hlast⟩
  | disturb =>
    simp only [act, hp] at h
    cases h
    rw [hraise] at hq
    obtain ⟨rfl, hlast⟩ := caught_admitted hq
    simp only [lockCall, hp]
    exact ⟨_, rfl, rfl, .inr hlast⟩
  | crash =>
    cases h
    simp only [State.put, Function.update_self] at hq
    cases hq
  | _ =>
    simp only [act, hp] at h
    cases h

theorem Phase.raised_unguarded {p : Phase} (h : p.guarded = false) (e : Failure) :
    p.raised cfg e = .stopped := by
  cases p with
  | idle | failing | stopped => rfl
  | _ => cases h

/-- Outside the `try` of `process_once` a worker gets past no lock. -/
theorem unguarded_admitted (h : act cfg s w a = some t) (hp : (s.workers w).guarded = false) :
    (t.workers w).admitted = none := by
  have hraise : ∀ {s' : State} {e}, s'.workers = s.workers →
      ((s'.raise cfg w e).workers w).admitted = none := by
    intro s' e he
    simp only [State.raise, State.put, Function.update_self, he, Phase.raised_unguarded hp,
      Phase.admitted]
  have hput : ∀ {s' : State} {q}, Phase.admitted q = none →
      ((s'.put w q).workers w).admitted = none := by
    intro s' q hq
    simpa only [State.put, Function.update_self] using hq
  have hanswer : ∀ {s' : State} {acked q}, s'.workers = s.workers → Phase.admitted q = none →
      ((s'.answer cfg w acked q).workers w).admitted = none := by
    intro s' acked q he hq
    cases acked with
    | true => exact hput hq
    | false => exact hraise he
  cases a with
  | claim now locked acked =>
    simp only [act] at h
    split at h
    · rename_i hidle
      split at h <;> cases h
      · exact hraise rfl
      · rw [hidle]
        rfl
      · exact hanswer rfl rfl
    · cases h
  | fail now acked =>
    simp only [act] at h
    split at h
    · split at h <;> cases h
      · exact hraise rfl
      · exact hanswer rfl rfl
    · cases h
  | disturb =>
    simp only [act] at h
    split at h <;> cases h
    exact hraise rfl
  | crash =>
    cases h
    exact hput rfl
  | _ =>
    cases hw : s.workers w with
    | idle | failing | stopped =>
      simp only [act, hw] at h
      cases h
    | _ =>
      rw [hw] at hp
      cases hp

/-- A job is past the lock only if it was before, or if its call has just been decided. -/
theorem act_admitted (h : act cfg s w a = some t) (hq : (t.workers w).admitted = some job) :
    (s.workers w).admitted = some job ∨ ∃ call, lockCall s (.worker w a) = some call ∧
      call.messageRecordId = job.messageRecordId ∧
      (call.acquired = true ∨ cfg.maxAttempts ≤ call.attempts) := by
  have hjob : s.workers w ≠ .idle → (s.workers w).job = some job := by
    intro hbusy
    obtain ⟨q, db, d, locks, sent, hmove, rfl⟩ := act_moved h
    simp only [State.moved, Function.update_self] at hq
    rcases hmove.job (Phase.job_of_admitted hq) with hp | ⟨hidle, -⟩
    · exact hp
    · exact absurd hidle hbusy
  have hinside : (s.workers w).guarded = true := by
    cases hg : (s.workers w).guarded with
    | true => rfl
    | false =>
      rw [unguarded_admitted h hg] at hq
      cases hq
  cases hp : s.workers w with
  | claimed job' => exact .inr (claimed_admitted h hp hq)
  | idle | failing | stopped =>
    rw [hp] at hinside
    cases hinside
  | _ =>
    rw [hp] at hjob
    exact .inl (hjob (by simp))

end Actions

/-- No step leaves a failed message, or a worker past the lock, without its call. -/
theorem excused_step {s t : Observed} {l : Label} (h : ExcusedInv cfg s)
    (hs : observe cfg s l = some t) : ExcusedInv cfg t := by
  obtain ⟨u, hu, rfl⟩ := Option.map_eq_some_iff.mp hs
  have hsame : u.workers = s.state.workers → ∀ w job, (u.workers w).admitted = some job →
      Excused cfg (s.calls ++ (lockCall s.state l).toList) job.messageRecordId := by
    intro he w job hw
    rw [he] at hw
    exact (h.phases w job hw).mono _
  cases step_stepped hu with
  | refused | callback | expire => exact ⟨hsame rfl, fun m hm hf => (h.failed m hm hf).mono _⟩
  | recorded hr =>
    obtain ⟨rows, hrows, hall⟩ := Ingress.recordMessages_rows hr
    refine ⟨hsame rfl, fun m hm hf => ?_⟩
    have hmem : m ∈ s.state.conversations.messages ++ rows := hrows ▸ hm
    rcases List.mem_append.mp hmem with hm | hm
    · exact (h.failed m hm hf).mono _
    · obtain ⟨i, cid, message, -, rfl⟩ := hall m hm
      cases hf
  | @worker w _ _ _ _ _ locks hact hmove =>
    refine ⟨?_, ?_⟩
    · intro w' job hw'
      by_cases he : w' = w
      · subst he
        rcases act_admitted hact hw' with hp | ⟨call, hcall, hid, hfate⟩
        · exact (h.phases w' job hp).mono _
        · refine ⟨call, List.mem_append_right _ ?_, hid, hfate⟩
          rw [hcall]
          exact List.mem_singleton.mpr rfl
      · simp only [State.moved, Function.update_of_ne he] at hw'
        exact (h.phases w' job hw').mono _
    · intro m hm hf
      rcases hmove.failedRow hm hf with hm | ⟨job, hterminal, hid, -⟩
      · exact (h.failed m hm hf).mono _
      · rw [hid]
        exact (h.phases w job (Phase.admitted_of_terminal hterminal)).mono _

/-- Whatever the workers do, in whatever order, a failed message had a call that acquired the
lock, or one that was turned away in the last attempt allowed. -/
theorem failed_excused (cfg : Config) {schedule : List Label} {t : Observed}
    (hrun : exec (observe cfg) ⟨start .empty .empty, []⟩ schedule = some t) {m : MessageRecord}
    (hm : m ∈ t.state.conversations.messages) (hf : m.processingStatus = some .failed) :
    ∃ call ∈ t.calls, call.messageRecordId = m.id ∧
      (call.acquired = true ∨ cfg.maxAttempts ≤ call.attempts) := by
  have hstart : ExcusedInv cfg ⟨start .empty .empty, []⟩ := by
    constructor
    · intro w job hw
      cases hw
    · intro m hm
      cases hm
  exact (exec_invariant (fun _ _ _ hi hs => excused_step hi hs) hstart hrun).failed m hm hf

section Samples

/-- The statuses of the messages, and the calls. -/
def Observed.summary (s : Observed) : List (Uuid × Option ProcessingStatus) × List LockCall :=
  (s.state.conversations.messages.map fun m => (m.id, m.processingStatus), s.calls)

theorem Observed.failed_of_summary {s : Observed} {id : Uuid} {calls : List LockCall}
    {rows : List (Uuid × Option ProcessingStatus)} (h : s.summary = (rows, calls))
    (hm : (id, some .failed) ∈ rows) : s.calls = calls ∧ ∃ m ∈ s.state.conversations.messages,
      m.id = id ∧ m.processingStatus = some .failed := by
  obtain ⟨hrows, hcalls⟩ := Prod.mk.inj h
  refine ⟨hcalls, ?_⟩
  rw [← hrows] at hm
  obtain ⟨m, hm, he⟩ := List.mem_map.mp hm
  exact ⟨m, hm, congrArg Prod.fst he, congrArg Prod.snd he⟩

/-- A worker is turned away at the lock and puts the message back. -/
def busyActions (now : Time) (reachable : Bool) : List Action :=
  [.claim now [] true, .acquire 6 reachable, .fail now true]

/-- Redis cannot be reached at first; then the message is answered, and Meta rejects it. -/
def outageSchedule : List Label :=
  .ingest (fun _ => ⟨1, 2, 0, 0⟩) [pickMessage] ::
    (busyActions 0 false ++ [Action.claim 1000000 [] true] ++ recordActions.tail ++ postActions ++
      rejectActions).map (.worker 1)

set_option maxRecDepth 10000 in
theorem outage_excused : ∃ t m,
    exec (observe sampleConfig) ⟨start .empty .empty, []⟩ outageSchedule = some t ∧
      m ∈ t.state.conversations.messages ∧ m.processingStatus = some .failed ∧
      t.calls = [⟨2, 1, false⟩, ⟨2, 2, true⟩] ∧
      ∃ call ∈ t.calls, call.messageRecordId = m.id ∧
        (call.acquired = true ∨ 3 ≤ call.attempts) := by
  have hsummary : (exec (observe sampleConfig) ⟨start .empty .empty, []⟩ outageSchedule).map
      Observed.summary = some ([(2, some .failed), (3, none)],
        [⟨2, 1, false⟩, ⟨2, 2, true⟩]) := by
    decide
  obtain ⟨t, ht, hs⟩ := Option.map_eq_some_iff.mp hsummary
  obtain ⟨hcalls, m, hm, hid, hf⟩ := Observed.failed_of_summary hs (by simp : (2, _) ∈ _)
  exact ⟨t, m, ht, hm, hf, hcalls, failed_excused sampleConfig ht hm hf⟩

/-- Worker 1 answers the first message for two seconds; meanwhile the second one is tried and
turned away three times. -/
def contendedSchedule : List Label :=
  .ingest (fun i => ⟨1, 2 + i, 0, 0⟩) [pickMessage, nextMessage] ::
    [.claim 0 [] true, .acquire 5 true].map (.worker 1) ++
    (busyActions 0 true ++ busyActions 1000000 true ++ busyActions 2000000 true).map (.worker 2)

theorem contended_message_fails : ∃ t m,
    exec (observe sampleConfig) ⟨start .empty .empty, []⟩ contendedSchedule = some t ∧
      m ∈ t.state.conversations.messages ∧ m.processingStatus = some .failed ∧
      ¬ ∃ call ∈ t.calls, call.messageRecordId = m.id ∧ call.acquired = true := by
  have hsummary : (exec (observe sampleConfig) ⟨start .empty .empty, []⟩ contendedSchedule).map
      Observed.summary = some ([(2, some .processing), (3, some .failed)],
        [⟨2, 1, true⟩, ⟨3, 1, false⟩, ⟨3, 2, false⟩, ⟨3, 3, false⟩]) := by
    decide
  obtain ⟨t, ht, hs⟩ := Option.map_eq_some_iff.mp hsummary
  obtain ⟨hcalls, m, hm, hid, hf⟩ := Observed.failed_of_summary hs (by simp : (3, _) ∈ _)
  refine ⟨t, m, ht, hm, hf, ?_⟩
  rw [hcalls, hid]
  decide

end Samples
end Piki.Worker
