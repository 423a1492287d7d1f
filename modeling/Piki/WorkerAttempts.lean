import Piki.WorkerOnce

/-! How often a message is claimed. The bound on the attempts is checked where a failure is
reported, by the worker that reports it; a claim that went stale is taken again without it. -/
namespace Piki.Worker
open Table Transition ConversationRepository MessageProcessingStore
variable {cfg : Config} {s t : State}

/-- Every message is within its attempts, and a pending one has an attempt left. -/
structure Budgeted (n : ℕ) (db : ConversationTables) : Prop where
  attempts : ∀ m ∈ db.messages, m.processingAttempts ≤ n
  pending : ∀ m ∈ db.messages, m.processingStatus = some .pending → m.processingAttempts < n

/-- A stale claim is taken over, and a message goes back to pending, only while an attempt of
the message is left. -/
def Sparing (cfg : Config) (s : State) : Label → Prop
  | .worker _ (.claim now locked _) =>
    ∀ row ∈ eligible s.conversations now cfg.claimTimeoutSeconds locked,
      (∀ other ∈ eligible s.conversations now cfg.claimTimeoutSeconds locked,
        before row.1 other.1 = true) →
      row.1.processingStatus = some .processing → row.1.processingAttempts < cfg.maxAttempts
  | .worker w (.settle _ _) | .worker w (.fail _ _) =>
    ∀ report ∈ (s.workers w).outcome, report.2 = .pending →
      ∀ m ∈ s.conversations.messages, m.id = report.1.messageRecordId →
        m.processingStatus = some .processing → m.processingAttempts < cfg.maxAttempts
  | _ => True

theorem eligible_mem {db : ConversationTables} {now : Time} {timeout : ℕ} {locked : List Uuid}
    {row : Joined} (h : row ∈ eligible db now timeout locked) :
    row.1 ∈ db.messages ∧ (row.1.processingStatus = some .pending ∨
      row.1.processingStatus = some .processing) := by
  obtain ⟨hjoin, hrow⟩ := List.mem_filter.mp h
  refine ⟨(mem_joined hjoin).1, ?_⟩
  simp only [claimable, Bool.and_eq_true, Bool.or_eq_true, decide_eq_true_eq] at hrow
  exact hrow.1.2.imp And.left And.left

/-- The row that is claimed had an attempt left. -/
theorem claimed_spared {w : ℕ} {now : Time} {locked : List Uuid} {acked : Bool} {row : Joined}
    (h : Budgeted cfg.maxAttempts s.conversations)
    (hl : Sparing cfg s (.worker w (.claim now locked acked)))
    (hrow : row ∈ eligible s.conversations now cfg.claimTimeoutSeconds locked)
    (hfirst : ∀ other ∈ eligible s.conversations now cfg.claimTimeoutSeconds locked,
      before row.1 other.1 = true) : row.1.processingAttempts < cfg.maxAttempts := by
  obtain ⟨hm, hpending | hprocessing⟩ := eligible_mem hrow
  · exact h.pending row.1 hm hpending
  · exact hl row hrow hfirst hprocessing

/-- A row that a worker leaves behind is within its attempts. -/
theorem RowFrom.budgeted {w : ℕ} {a : Action} {m : MessageRecord}
    (hr : RowFrom cfg s a (s.workers w) m) (hn : 1 ≤ cfg.maxAttempts)
    (hu : s.conversations.Constraints) (h : Budgeted cfg.maxAttempts s.conversations)
    (hl : Sparing cfg s (.worker w a)) : m.processingAttempts ≤ cfg.maxAttempts ∧
      (m.processingStatus = some .pending → m.processingAttempts < cfg.maxAttempts) := by
  cases hr with
  | kept hm => exact ⟨h.attempts m hm, h.pending m hm⟩
  | reply hs ha => exact ⟨by omega, fun _ => by omega⟩
  | claimed ha hrow hfirst hm hid =>
    subst ha
    have hspared := claimed_spared h hl hrow hfirst
    rw [← hu.message_eq hm (eligible_mem hrow).1 hid] at hspared
    exact ⟨hspared, fun hp => by cases hp⟩
  | @left m job status errorCode availableAt ha hp hm hid hs =>
    refine ⟨h.attempts m hm, fun hpending => ?_⟩
    cases Option.some.inj hpending
    cases a with
    | settle | fail => exact hl (job, .pending) hp rfl m hm hid hs
    | _ => cases ha

theorem budgeted_append {n : ℕ} {db db' : ConversationTables} {rows : List MessageRecord}
    (h : Budgeted n db) (he : db'.messages = db.messages ++ rows)
    (hrows : ∀ m ∈ rows, m.processingAttempts < n) : Budgeted n db' := by
  constructor <;> intro m hm <;> rw [he] at hm <;> rcases List.mem_append.mp hm with hm | hm
  · exact h.attempts m hm
  · exact (hrows m hm).le
  · exact h.pending m hm
  · exact fun _ => hrows m hm

theorem budgeted_step {l : Label} (hn : 1 ≤ cfg.maxAttempts) (hu : s.conversations.Constraints)
    (h : Budgeted cfg.maxAttempts s.conversations) (hl : Sparing cfg s l)
    (hs : step cfg s l = some t) : Budgeted cfg.maxAttempts t.conversations := by
  cases step_stepped hs with
  | refused | callback | expire => exact h
  | recorded hr =>
    obtain ⟨rows, hrows, hall⟩ := Ingress.recordMessages_rows hr
    refine budgeted_append h hrows fun m hm => ?_
    obtain ⟨i, cid, message, -, rfl⟩ := hall m hm
    exact hn
  | worker locks hact hmove =>
    exact ⟨fun m hm => ((hmove.row hm).budgeted hn hu h hl).1,
      fun m hm => ((hmove.row hm).budgeted hn hu h hl).2⟩

/-- In a run in which stale claims are taken over, and messages go back to pending, only
while an attempt is left, no message is claimed more often than the setting allows. -/
theorem attempts_bounded (cfg : Config) (hn : 1 ≤ cfg.maxAttempts) {schedule : List Label}
    (hl : Along (step cfg) (Sparing cfg) (start .empty .empty) schedule)
    (hrun : exec (step cfg) (start .empty .empty) schedule = some t) :
    ∀ m ∈ t.conversations.messages, m.processingAttempts ≤ cfg.maxAttempts := by
  have hempty : Budgeted cfg.maxAttempts ConversationTables.empty := by
    constructor <;> intro m hm <;> cases hm
  have hinv := exec_invariant_along
    (I := fun s => s.conversations.Constraints ∧ Budgeted cfg.maxAttempts s.conversations)
    (fun _ _ _ hi hp hs => ⟨(step_messages hs).2 hi.1, budgeted_step hn hi.1 hi.2 hp hs⟩)
    ⟨ConversationTables.empty_constraints, hempty⟩ hl hrun
  exact hinv.2.attempts

section Samples

instance (cfg : Config) (s : State) : (l : Label) → Decidable (Sparing cfg s l)
  | .worker _ (.claim now locked _) =>
    inferInstanceAs (Decidable (∀ row ∈ eligible s.conversations now cfg.claimTimeoutSeconds locked,
      (∀ other ∈ eligible s.conversations now cfg.claimTimeoutSeconds locked,
        before row.1 other.1 = true) →
      row.1.processingStatus = some .processing → row.1.processingAttempts < cfg.maxAttempts))
  | .worker w (.settle _ _) | .worker w (.fail _ _) =>
    inferInstanceAs (Decidable (∀ report ∈ (s.workers w).outcome, report.2 = .pending →
      ∀ m ∈ s.conversations.messages, m.id = report.1.messageRecordId →
        m.processingStatus = some .processing → m.processingAttempts < cfg.maxAttempts))
  | .worker _ (.acquire _ _) | .worker _ .lookup | .worker _ (.compose _ _ _ _)
  | .worker _ (.record _ _ _) | .worker _ (.release _) | .worker _ (.deliver _ _ _)
  | .worker _ .invoke | .worker _ (.receive _) | .worker _ (.finalize _ _) | .worker _ .disturb
  | .worker _ .crash | .ingest _ _ | .callback _ | .expire _ => isTrue trivial

def State.attemptCounts (s : State) : List ℕ :=
  s.conversations.messages.map MessageRecord.processingAttempts

/-- The lock is busy, the message goes back to pending and is claimed again. -/
def busyAgainSchedule : List Label :=
  [.ingest (fun _ => ⟨1, 2, 0, 0⟩) [pickMessage], .worker 1 (.claim 0 [] true),
    .worker 1 (.acquire 6 false), .worker 1 (.fail 0 true), .worker 1 (.claim 1000000 [] true),
    .worker 1 .crash, .worker 1 (.claim 121000000 [] true)]

theorem busy_again_bounded : ∃ t,
    exec (step sampleConfig) (start .empty .empty) busyAgainSchedule = some t ∧
      t.attemptCounts = [3] ∧ ∀ m ∈ t.conversations.messages, m.processingAttempts ≤ 3 := by
  have hcounts : (exec (step sampleConfig) (start .empty .empty) busyAgainSchedule).map
      State.attemptCounts = some [3] := by
    decide
  obtain ⟨t, ht, hcount⟩ := Option.map_eq_some_iff.mp hcounts
  exact ⟨t, ht, hcount, attempts_bounded sampleConfig (by decide) (by decide) ht⟩

/-- The worker dies with the message in its hands, four times. -/
def crashLoopSchedule : List Label :=
  .ingest (fun _ => ⟨1, 2, 0, 0⟩) [pickMessage] ::
    [0, 120000000, 240000000, 360000000].flatMap fun now =>
      [.worker 1 (.claim now [] true), .worker 1 .crash]

theorem crash_loop_exceeds : ∃ t,
    exec (step sampleConfig) (start .empty .empty) crashLoopSchedule = some t ∧
      ∃ m ∈ t.conversations.messages, sampleConfig.maxAttempts < m.processingAttempts := by
  have hcounts : (exec (step sampleConfig) (start .empty .empty) crashLoopSchedule).map
      State.attemptCounts = some [4] := by
    decide
  obtain ⟨t, ht, hcount⟩ := Option.map_eq_some_iff.mp hcounts
  have hfour : 4 ∈ t.attemptCounts := by
    rw [hcount]
    exact List.mem_singleton.mpr rfl
  obtain ⟨m, hm, hattempts⟩ := List.mem_map.mp hfour
  refine ⟨t, ht, m, hm, ?_⟩
  rw [hattempts]
  decide

end Samples
end Piki.Worker
