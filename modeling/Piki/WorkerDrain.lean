import Piki.Descent
import Piki.SystemRuns
import Piki.WorkerSurvival

/-! `process_once` from its claim to its report, when the database answers. Whatever Redis,
the model and Meta do, a call ends, reports its job, and uses up one of its attempts. -/
namespace Piki.Worker
open Table Transition ConversationRepository ConversationOrchestrator MessageProcessingStore

/-- What one call of `process_once` takes from outside. -/
structure Pass where
  claimNow : Time
  token : ℕ
  lockReachable : Bool
  ports : Ports
  handoffId : Uuid
  composeNow : Time
  messageId : Uuid
  recordNow : Time
  unlockReachable : Bool
  attemptId : Uuid
  deliverNow : Time
  provider : MetaBody → PostOutcome
  finalizeNow : Time
  reportNow : Time

/-- The next `await` of a call in this phase. -/
def Pass.next (x : Pass) : Phase → Option Action
  | .idle | .stopped => none
  | .claimed _ => some (.acquire x.token x.lockReachable)
  | .locked _ _ => some .lookup
  | .opened _ _ _ => some (.compose x.ports x.handoffId x.composeNow true)
  | .composed _ _ _ _ => some (.record x.messageId x.recordNow true)
  | .releasing _ _ _ => some (.release x.unlockReachable)
  | .replied _ _ => some (.deliver x.attemptId x.deliverNow true)
  | .posting _ _ _ => some .invoke
  | .awaiting _ _ _ => some (.receive x.provider)
  | .posted _ _ _ => some (.finalize x.finalizeNow true)
  | .settling _ _ => some (.settle x.reportNow true)
  | .failing _ _ _ => some (.fail x.reportNow true)

/-- A call goes on until nothing is left to do, for at most `n` steps. -/
def resume (cfg : Config) (x : Pass) (w : ℕ) : ℕ → State → State
  | 0, s => s
  | n + 1, s =>
    match (x.next (s.workers w)).bind (act cfg s w) with
    | none => s
    | some t => resume cfg x w n t

/-- `process_once`: whether there was a job, and the state that the call leaves. -/
def processOnce (cfg : Config) (x : Pass) (w : ℕ) (s : State) : Bool × State :=
  match act cfg s w (.claim x.claimNow [] true) with
  | none => (false, s)
  | some t => ((t.workers w).job.isSome, resume cfg x w 11 t)

variable {cfg : Config} {x : Pass} {w : ℕ} {s t c : State} {job : ClaimedInbound}

/-- How many steps are left at most. -/
def Phase.rank : Phase → ℕ
  | .idle | .stopped => 0
  | .failing _ _ _ => 1
  | .settling _ _ => 2
  | .posted _ _ _ => 3
  | .awaiting _ _ _ => 4
  | .posting _ _ _ => 5
  | .replied _ _ => 6
  | .releasing _ _ _ => 7
  | .composed _ _ _ _ => 8
  | .opened _ _ _ => 9
  | .locked _ _ => 10
  | .claimed _ => 11

/-- These tables extend those of `c` by messages that are not enqueued. -/
def Behind (c : State) (db : ConversationTables) : Prop :=
  ∃ rows, db.messages = c.conversations.messages ++ rows ∧ ∀ m ∈ rows, m.processingStatus = none

/-- The call has its job in hand, retries it within its attempts only, and since the claim
it has touched no message that is enqueued. -/
structure Working (cfg : Config) (w : ℕ) (job : ClaimedInbound) (c s : State) : Prop where
  holds : (s.workers w).job = some job
  retry : ∀ code, s.workers w = .failing job code true → job.attempts < cfg.maxAttempts
  rows : Behind c s.conversations

section Steps

theorem Behind.append {db db' : ConversationTables} (h : Behind c db) {rows : List MessageRecord}
    (hrows : db'.messages = db.messages ++ rows) (hall : ∀ m ∈ rows, m.processingStatus = none) :
    Behind c db' := by
  obtain ⟨old, hold, hnone⟩ := h
  refine ⟨old ++ rows, by rw [hrows, hold, List.append_assoc], ?_⟩
  intro m hm
  rcases List.mem_append.mp hm with hm | hm
  · exact hnone m hm
  · exact hall m hm

theorem Behind.of_eq {db db' : ConversationTables} (h : Behind c db)
    (he : db'.messages = db.messages) : Behind c db' := by
  obtain ⟨rows, hrows, hnone⟩ := h
  exact ⟨rows, he.trans hrows, hnone⟩

/-- The step leaves a working call with fewer steps to go. -/
def Advances (cfg : Config) (w : ℕ) (job : ClaimedInbound) (c : State) (p : Phase) (t : State) :
    Prop :=
  Working cfg w job c t ∧ (t.workers w).rank < p.rank

theorem advances_put {s : State} (hrows : Behind c s.conversations) {p q : Phase}
    (hq : q.job = some job) (hretry : ∀ code, q ≠ .failing job code true)
    (hrank : q.rank < p.rank) : Advances cfg w job c p (s.put w q) := by
  have hphase : (s.put w q).workers w = q := by
    simp only [State.put, Function.update_self]
  refine ⟨⟨by rw [hphase]; exact hq, ?_, hrows⟩, by rw [hphase]; exact hrank⟩
  intro code he
  exact absurd (hphase.symm.trans he) (hretry code)

/-- An exception inside the `try` leads to the handler, which retries within the attempts. -/
theorem advances_raise {s : State} (hrows : Behind c s.conversations) {p : Phase}
    (hp : s.workers w = p) (hjob : p.job = some job) (hguarded : p.guarded = true) (e : Failure) :
    Advances cfg w job c p (s.raise cfg w e) := by
  have hphase : (s.raise cfg w e).workers w = p.raised cfg e := by
    simp only [State.raise, State.put, Function.update_self, hp]
  unfold Advances
  cases p with
  | idle | failing | stopped => cases hguarded
  | locked j lease | opened j lease | composed j lease =>
    cases hjob
    refine ⟨⟨by rw [hphase]; rfl, ?_, hrows⟩, by rw [hphase]; simp [Phase.raised, Phase.rank]⟩
    intro code he
    rw [hphase] at he
    cases he
  | claimed j | releasing j | replied j | posting j | awaiting j | posted j | settling j =>
    cases hjob
    refine ⟨⟨by rw [hphase]; rfl, ?_, hrows⟩, by rw [hphase]; simp [Phase.raised, caught, Phase.rank]⟩
    intro code he
    rw [hphase] at he
    simp only [Phase.raised, caught, Phase.failing.injEq, decide_eq_true_eq] at he
    exact he.2.2

theorem caught_retry {e : Failure} {code : ErrorCode} (h : caught cfg job e = .failing job code true) :
    job.attempts < cfg.maxAttempts := by
  simp only [caught, Phase.failing.injEq, decide_eq_true_eq] at h
  exact h.2.2

/-- Until the report, every step of a call is enabled and brings it closer to its end. -/
theorem working_advances (x : Pass) (hw : Working cfg w job c s)
    (hreport : (s.workers w).outcome = none) : ∃ t, (x.next (s.workers w)).bind (act cfg s w) = some t ∧
      Advances cfg w job c (s.workers w) t := by
  have hrows := hw.rows
  have hjob := hw.holds
  generalize hp : s.workers w = p at hjob hreport
  cases p with
  | idle | stopped => cases hjob
  | settling | failing => cases hreport
  | claimed j =>
    cases hjob
    cases hscope : scopeOf job with
    | error e =>
      refine ⟨s.raise cfg w e, ?_, advances_raise hrows hp rfl rfl e⟩
      simp only [Pass.next, Option.bind_some, act, hp, hscope]
    | ok scope =>
      by_cases hfree : x.lockReachable = true ∧ s.locks scope = none
      · refine ⟨(s.setLock scope (some x.token)).put w (.locked job ⟨scope, x.token⟩), ?_,
          advances_put (s := s.setLock scope (some x.token)) (q := .locked job ⟨scope, x.token⟩)
            hrows rfl (by simp) (by simp [Phase.rank])⟩
        simp only [Pass.next, Option.bind_some, act, hp, hscope, if_pos hfree]
      · refine ⟨s.raise cfg w (.busy "conversation is already being processed"), ?_,
          advances_raise hrows hp rfl rfl _⟩
        simp only [Pass.next, Option.bind_some, act, hp, hscope, if_neg hfree]
  | locked j lease =>
    cases hjob
    cases hfound : lookupReply cfg.unicode s.conversations job.message job.conversationRecordId with
    | error e =>
      refine ⟨s.raise cfg w e, ?_, advances_raise hrows hp rfl rfl e⟩
      simp only [Pass.next, Option.bind_some, act, hp, hfound]
    | ok found =>
      cases found with
      | stored reply =>
        refine ⟨s.put w (.releasing job lease (.ok reply)), ?_,
          advances_put (q := .releasing job lease (.ok reply)) hrows rfl (by simp)
            (by simp [Phase.rank])⟩
        simp only [Pass.next, Option.bind_some, act, hp, hfound]
      | fresh history =>
        refine ⟨s.put w (.opened job lease history), ?_,
          advances_put (q := .opened job lease history) hrows rfl (by simp) (by simp [Phase.rank])⟩
        simp only [Pass.next, Option.bind_some, act, hp, hfound]
  | opened j lease history =>
    cases hjob
    obtain ⟨hsame, -⟩ := composeFor_spec cfg.unicode x.ports s.conversations x.handoffId
      x.composeNow job.message job.conversationRecordId history
    have hturn := hrows.of_eq hsame.messages
    cases hreply : (composeFor cfg.unicode x.ports s.conversations x.handoffId x.composeNow
        job.message job.conversationRecordId history).reply with
    | error e =>
      refine ⟨_, ?_, advances_raise (s := s.withConversations _) hturn hp rfl rfl e⟩
      simp only [Pass.next, Option.bind_some, act, hp, hreply]
    | ok r =>
      refine ⟨_, ?_, advances_put (s := s.withConversations _) (q := .composed job lease r.1 r.2)
        hturn rfl (by simp) (by simp [Phase.rank])⟩
      simp only [Pass.next, Option.bind_some, act, hp, hreply, State.answer, if_true]
  | composed j lease text fb =>
    cases hjob
    obtain ⟨rows, happend, hall⟩ := recordReply_rows cfg.unicode s.conversations x.messageId
      x.recordNow job.message job.conversationRecordId text fb
    have hstored := hrows.append happend fun m hm => by rw [hall m hm]; rfl
    cases hreply : (recordReply cfg.unicode s.conversations x.messageId x.recordNow job.message
        job.conversationRecordId text fb).2 with
    | error e =>
      refine ⟨_, ?_, advances_raise (s := s.withConversations _) hstored hp rfl rfl e⟩
      simp only [Pass.next, Option.bind_some, act, hp, hreply]
    | ok reply =>
      refine ⟨_, ?_, advances_put (s := s.withConversations _)
        (q := .releasing job lease (.ok reply)) hstored rfl (by simp) (by simp [Phase.rank])⟩
      simp only [Pass.next, Option.bind_some, act, hp, hreply, State.answer, if_true]
  | releasing j lease outcome =>
    cases hjob
    obtain ⟨released, hreleased⟩ : ∃ released, released =
        if x.unlockReachable = true ∧ s.locks lease.scope = some lease.token then
          s.setLock lease.scope none else s := ⟨_, rfl⟩
    have hlock : Behind c released.conversations := by
      rw [hreleased]
      split_ifs <;> exact hrows
    cases outcome with
    | error e =>
      refine ⟨released.put w (caught cfg job e), ?_, ⟨⟨?_, ?_, hlock⟩, ?_⟩⟩
      · simp only [Pass.next, Option.bind_some, act, hp, hreleased]
      · simp only [State.put, Function.update_self]
        rfl
      · intro code he
        simp only [State.put, Function.update_self] at he
        exact caught_retry he
      · simp [State.put, caught, Phase.rank]
    | ok reply =>
      refine ⟨released.put w (.replied job reply), ?_,
        advances_put (q := .replied job reply) hlock rfl (by simp) (by simp [Phase.rank])⟩
      simp only [Pass.next, Option.bind_some, act, hp, hreleased]
  | replied j reply =>
    cases hjob
    cases hrequest : replyRequest x.deliverNow job reply with
    | error e =>
      refine ⟨s.raise cfg w e, ?_, advances_raise hrows hp rfl rfl e⟩
      simp only [Pass.next, Option.bind_some, act, hp, hrequest]
    | ok request =>
      refine ⟨deliver cfg s w x.attemptId true job request, ?_, ?_⟩
      · simp only [Pass.next, Option.bind_some, act, hp, hrequest]
      · unfold deliver
        cases hclaim : DeliveryStore.claim s.deliveries.tables x.attemptId job.conversationRecordId
            request with
        | error e => exact advances_raise hrows hp rfl rfl e
        | ok r =>
          dsimp only
          split_ifs
          · exact advances_put (s := s.withDeliveries r.2) (p := .replied job reply)
              (q := .posting job r.1.attempt.id request) hrows rfl (by simp) (by simp [Phase.rank])
          · cases IdempotentDeliveryService.existingResult r.1.attempt with
            | error e => exact advances_raise (s := s.withDeliveries r.2) hrows hp rfl rfl e
            | ok result =>
              exact advances_put (s := s.withDeliveries r.2) (p := .replied job reply)
                (q := .settling job result) hrows rfl (by simp) (by simp [Phase.rank])
  | posting j aid request =>
    cases hjob
    refine ⟨_, ?_, advances_put (s := { s with sent := s.sent ++ [request] })
      (q := .awaiting job aid request) hrows rfl (by simp) (by simp [Phase.rank])⟩
    simp only [Pass.next, Option.bind_some, act, hp]
    rfl
  | awaiting j aid request =>
    cases hjob
    cases hsend : (MetaDeliveryAdapter.send x.provider request).2 with
    | error e =>
      refine ⟨s.raise cfg w e, ?_, advances_raise hrows hp rfl rfl e⟩
      simp only [Pass.next, Option.bind_some, act, hp, hsend]
    | ok result =>
      refine ⟨s.put w (.posted job aid result), ?_,
        advances_put (q := .posted job aid result) hrows rfl (by simp) (by simp [Phase.rank])⟩
      simp only [Pass.next, Option.bind_some, act, hp, hsend]
  | posted j aid result =>
    cases hjob
    cases hfinal : DeliveryStore.finalize s.deliveries.tables x.finalizeNow aid result with
    | error e =>
      refine ⟨s.raise cfg w e, ?_, advances_raise hrows hp rfl rfl e⟩
      simp only [Pass.next, Option.bind_some, act, hp, hfinal]
    | ok r =>
      refine ⟨_, ?_, advances_put (s := s.withDeliveries r.2) (q := .settling job result) hrows rfl
        (by simp) (by simp [Phase.rank])⟩
      simp only [Pass.next, Option.bind_some, act, hp, hfinal, State.answer, if_true]

end Steps

section Calls

/-- The claim of the job is in force. -/
def InForce (db : ConversationTables) (job : ClaimedInbound) : Prop :=
  ∃ m ∈ db.messages, m.id = job.messageRecordId ∧ m.processingStatus = some .processing

/-- The job was reported: its row has left processing, back to pending only within the
attempts, and no other row that is enqueued was touched. -/
structure ReportedIn (cfg : Config) (job : ClaimedInbound) (c t : State) (rows : List MessageRecord)
    (status : ProcessingStatus) : Prop where
  messages : ∃ errorCode availableAt, t.conversations.messages =
    updateWhere (active job.messageRecordId) (leaveProcessing status errorCode availableAt)
      (c.conversations.messages ++ rows)
  fresh : ∀ m ∈ rows, m.processingStatus = none
  left : status ≠ .processing
  retried : status = .pending → job.attempts < cfg.maxAttempts

theorem transition_inForce {db : ConversationTables} {job : ClaimedInbound} (h : InForce db job)
    (status : ProcessingStatus) (errorCode : Option ErrorCode) (availableAt : Option Time) :
    transition db job.messageRecordId status errorCode availableAt =
      .ok ((), { db with messages := (updateWhere (active job.messageRecordId)
        (leaveProcessing status errorCode availableAt) db.messages) }) := by
  obtain ⟨m, hm, hid, hs⟩ := h
  rw [transition, if_pos (List.any_eq_true.mpr ⟨m, hm, by simp [active, hid, hs]⟩)]

/-- Both reports end the call while its claim is in force. -/
theorem working_reports (x : Pass) (hw : Working cfg w job c s) (hforce : InForce c.conversations job)
    (hreport : (s.workers w).outcome ≠ none) :
    ∃ t rows status, (x.next (s.workers w)).bind (act cfg s w) = some t ∧ t.workers w = .idle ∧
      ReportedIn cfg job c t rows status := by
  have hjob := hw.holds
  have hretry := hw.retry
  obtain ⟨rows, hrows, hall⟩ := hw.rows
  have hheld : InForce s.conversations job := by
    obtain ⟨m, hm, hid, hs⟩ := hforce
    exact ⟨m, hrows ▸ List.mem_append_left _ hm, hid, hs⟩
  have hdone : ∀ (a : Action) (status : ProcessingStatus) (errorCode : Option ErrorCode)
      (availableAt : Option Time), status ≠ .processing →
      (status = .pending → job.attempts < cfg.maxAttempts) → act cfg s w a =
        some ((s.withConversations { s.conversations with messages :=
          (updateWhere (active job.messageRecordId) (leaveProcessing status errorCode availableAt)
            s.conversations.messages) }).put w .idle) →
      ∃ t rows status, act cfg s w a = some t ∧ t.workers w = .idle ∧
        ReportedIn cfg job c t rows status := by
    intro a status errorCode availableAt hleft hpending hact
    refine ⟨_, rows, status, hact, by simp [State.put], ⟨errorCode, availableAt, ?_⟩, hall, hleft,
      hpending⟩
    rw [← hrows]
    rfl
  generalize hp : s.workers w = p at hjob hretry hreport
  cases p with
  | settling j result =>
    cases hjob
    by_cases herror : result.status.isError = true
    · refine hdone (.settle x.reportNow true) .failed (some (resultCode result)) none (by simp)
        (by simp) ?_
      simp only [act, hp, settleJob, if_pos herror, fail, Bool.false_eq_true, if_false,
        transition_inForce hheld, State.answer, if_true]
    · refine hdone (.settle x.reportNow true) .completed none none (by simp) (by simp) ?_
      simp only [act, hp, settleJob, if_neg herror, complete, transition_inForce hheld,
        State.answer, if_true]
  | failing j code retry =>
    cases hjob
    cases retry with
    | true =>
      refine hdone (.fail x.reportNow true) .pending (some code) (some (x.reportNow + 1000000))
        (by simp) (fun _ => hretry code rfl) ?_
      simp only [act, hp, fail, if_true, transition_inForce hheld, State.answer]
    | false =>
      refine hdone (.fail x.reportNow true) .failed (some code) none (by simp) (by simp) ?_
      simp only [act, hp, fail, Bool.false_eq_true, if_false, transition_inForce hheld, State.answer,
        if_true]
  | _ => exact absurd rfl hreport

/-- A call that has its job in hand ends with the report of the job. -/
theorem resume_reports (x : Pass) (hforce : InForce c.conversations job) {n : ℕ} {s : State}
    (hw : Working cfg w job c s) (hn : (s.workers w).rank ≤ n) :
    (resume cfg x w n s).workers w = .idle ∧
      ∃ rows status, ReportedIn cfg job c (resume cfg x w n s) rows status := by
  induction n generalizing s with
  | zero =>
    have hjob := hw.holds
    generalize s.workers w = p at hjob hn
    cases p with
    | idle | stopped => cases hjob
    | _ => simp [Phase.rank] at hn
  | succ n ih =>
    by_cases hreport : (s.workers w).outcome = none
    · obtain ⟨t, hstep, hw', hlt⟩ := working_advances x hw hreport
      simp only [resume, hstep]
      exact ih hw' (by omega)
    · obtain ⟨t, rows, status, hstep, hidle, hr⟩ := working_reports x hw hforce hreport
      have hend : resume cfg x w n t = t := by
        cases n with
        | zero => rfl
        | succ n => simp only [resume, hidle, Pass.next, Option.bind_none]
      simp only [resume, hstep, hend]
      exact ⟨hidle, rows, status, hr⟩

/-- The steps of a call are steps of the system. -/
theorem resume_invariant {I : State → Prop}
    (hI : ∀ s l t, I s → step cfg s l = some t → I t) (x : Pass) (n : ℕ) {s : State} (hs : I s) :
    I (resume cfg x w n s) := by
  induction n generalizing s with
  | zero => exact hs
  | succ n ih =>
    simp only [resume]
    split
    · exact hs
    · rename_i t hstep
      obtain ⟨a, -, ha⟩ := Option.bind_eq_some_iff.mp hstep
      exact ih (hI s (.worker w a) t hs ha)

theorem processOnce_invariant {I : State → Prop}
    (hI : ∀ s l t, I s → step cfg s l = some t → I t) (x : Pass) {s : State} (hs : I s) :
    I (processOnce cfg x w s).2 := by
  unfold processOnce
  split
  · exact hs
  · rename_i t hstep
    exact resume_invariant hI x 11 (hI s (.worker w (.claim x.claimNow [] true)) t hs hstep)

theorem earliest_eq_none {rows : List Joined} (h : earliest rows = none) : rows = [] := by
  cases rows with
  | nil => rfl
  | cons row rows =>
    simp only [earliest] at h
    split at h
    · cases h
    · split_ifs at h

/-- Without a job, no row was due. -/
theorem claimNext_none {db db' : ConversationTables} {now : Time} {timeout : ℕ}
    {locked : List Uuid} (h : claimNext db now timeout locked = .ok (none, db')) :
    eligible db now timeout locked = [] := by
  unfold claimNext at h
  dsimp only at h
  generalize hr : earliest _ = r at h
  cases r with
  | none => exact earliest_eq_none hr
  | some row =>
    cases hext : row.1.externalMessageId with
    | none => simp [hext] at h
    | some ext =>
      simp only [hext] at h
      obtain ⟨message, -, h⟩ := bind_ok h
      obtain ⟨j, -, h⟩ := bind_ok h
      cases h

/-- A job that was claimed is in force. -/
theorem claimNext_inForce {db db' : ConversationTables} {now : Time} {timeout : ℕ}
    {locked : List Uuid} {job : ClaimedInbound}
    (h : claimNext db now timeout locked = .ok (some job, db')) : InForce db' job := by
  rcases claimNext_ok h with ⟨hn, -⟩ | ⟨j, m, c, hj, hm, -, -, -, hd, rfl⟩
  · cases hn
  · cases hj
    refine ⟨markProcessing now m, mem_updateWhere.mpr ⟨m, hm, by simp⟩, hd.record_id.symm, rfl⟩

/-- What one call of an idle worker does: nothing, if no message is due; else it claims a
message and reports it. -/
theorem processOnce_reports (cfg : Config) (x : Pass) (hr : Readable s.conversations)
    (hidle : s.workers w = .idle) :
    (processOnce cfg x w s = (false, s) ∧
        eligible s.conversations x.claimNow cfg.claimTimeoutSeconds [] = []) ∨
      ((processOnce cfg x w s).1 = true ∧ (processOnce cfg x w s).2.workers w = .idle ∧
        ∃ job c rows status, claimNext s.conversations x.claimNow cfg.claimTimeoutSeconds [] =
            .ok (some job, c.conversations) ∧
          ReportedIn cfg job c (processOnce cfg x w s).2 rows status) := by
  obtain ⟨⟨found, db⟩, hclaim⟩ := claimNext_returns hr x.claimNow cfg.claimTimeoutSeconds []
  cases found with
  | none =>
    have hresume : resume cfg x w 11 s = s := by
      simp only [resume, hidle, Pass.next, Option.bind_none]
    refine .inl ⟨?_, claimNext_none hclaim⟩
    simp only [processOnce, act, hidle, hclaim, hresume]
    rfl
  | some job =>
    obtain ⟨c, hc⟩ : ∃ c, c = (s.withConversations db).put w (.claimed job) := ⟨_, rfl⟩
    have hphase : c.workers w = .claimed job := by
      rw [hc]
      simp only [State.put, Function.update_self]
    have htables : c.conversations = db := by
      rw [hc]
      rfl
    have hact : act cfg s w (.claim x.claimNow [] true) = some c := by
      simp only [act, hidle, hclaim, State.answer, if_true, hc]
    have hcall : processOnce cfg x w s = (true, resume cfg x w 11 c) := by
      simp only [processOnce, hact, hphase]
      rfl
    have hworking : Working cfg w job c c := by
      refine ⟨by rw [hphase]; rfl, ?_, [], (List.append_nil _).symm, List.forall_mem_nil _⟩
      intro code he
      rw [hphase] at he
      cases he
    obtain ⟨hend, rows, status, hreported⟩ := resume_reports x
      (htables ▸ claimNext_inForce hclaim) hworking (congrArg Phase.rank hphase).le
    rw [hcall]
    exact .inr ⟨rfl, hend, job, c, rows, status, htables ▸ hclaim, hreported⟩

end Calls

section Budgets

/-- How many claims a message may still need, if nobody else claims it. -/
def allowance (cfg : Config) (m : MessageRecord) : ℕ :=
  match m.processingStatus with
  | some .pending | some .processing => max 1 (cfg.maxAttempts - m.processingAttempts)
  | _ => 0

def budget (cfg : Config) (s : State) : ℕ := (s.conversations.messages.map (allowance cfg)).sum

theorem allowance_claimed {m : MessageRecord} {now staleBefore : Time}
    (h : claimable now staleBefore m = true) :
    allowance cfg m = max 1 (cfg.maxAttempts - m.processingAttempts) := by
  simp only [claimable, Bool.and_eq_true, Bool.or_eq_true, decide_eq_true_eq] at h
  obtain ⟨-, ⟨hs, -⟩ | ⟨hs, -⟩⟩ := h <;> simp only [allowance, hs]

/-- A report leaves a message with fewer claims to go than before the claim. -/
theorem allowance_reported {m : MessageRecord} {now : Time} {status : ProcessingStatus}
    {errorCode : Option ErrorCode} {availableAt : Option Time} (hleft : status ≠ .processing)
    (hretried : status = .pending → m.processingAttempts + 1 < cfg.maxAttempts) :
    allowance cfg (leaveProcessing status errorCode availableAt (markProcessing now m)) <
      max 1 (cfg.maxAttempts - m.processingAttempts) := by
  cases status with
  | processing => exact absurd rfl hleft
  | pending =>
    have hlt := hretried rfl
    simp only [allowance, leaveProcessing, markProcessing]
    omega
  | completed | failed => simp [allowance, leaveProcessing]

theorem allowance_fresh {rows : List MessageRecord} (h : ∀ m ∈ rows, m.processingStatus = none) :
    (rows.map (allowance cfg)).sum = 0 := by
  refine List.sum_eq_zero fun n hn => ?_
  obtain ⟨m, hm, rfl⟩ := List.mem_map.mp hn
  simp only [allowance, h m hm]

/-- A message after the claim of `job` and its report. -/
def reported (job : ClaimedInbound) (now : Time) (status : ProcessingStatus)
    (errorCode : Option ErrorCode) (availableAt : Option Time) (m : MessageRecord) : MessageRecord :=
  if m.id = job.messageRecordId then
    leaveProcessing status errorCode availableAt (markProcessing now m)
  else m

theorem updateWhere_reported {job : ClaimedInbound} {now : Time} {status : ProcessingStatus}
    {errorCode : Option ErrorCode} {availableAt : Option Time} (rows : List MessageRecord) :
    updateWhere (active job.messageRecordId) (leaveProcessing status errorCode availableAt)
        (updateWhere (fun m => decide (m.id = job.messageRecordId)) (markProcessing now) rows) =
      rows.map (reported job now status errorCode availableAt) := by
  simp only [updateWhere, List.map_map]
  refine List.map_congr_left fun m _ => ?_
  by_cases hid : m.id = job.messageRecordId <;> simp [reported, active, markProcessing, hid]

theorem updateWhere_append {ρ : Type*} (p : ρ → Bool) (f : ρ → ρ) (rows rows' : List ρ) :
    updateWhere p f (rows ++ rows') = updateWhere p f rows ++ updateWhere p f rows' :=
  List.map_append

theorem updateWhere_fresh {id : Uuid} {f : MessageRecord → MessageRecord}
    {rows : List MessageRecord} (h : ∀ m ∈ rows, m.processingStatus = none) :
    updateWhere (active id) f rows = rows := by
  refine (List.map_congr_left fun m hm => ?_).trans (List.map_id rows)
  simp [active, h m hm]

/-- A call that finds a message uses up one of its claims. -/
theorem budget_lt {job : ClaimedInbound} {c t : State} {rows : List MessageRecord}
    {status : ProcessingStatus} {now : Time} {timeout : ℕ} (hu : s.conversations.Constraints)
    (hclaim : claimNext s.conversations now timeout [] = .ok (some job, c.conversations))
    (h : ReportedIn cfg job c t rows status) : budget cfg t < budget cfg s := by
  rcases claimNext_ok hclaim with ⟨hn, -⟩ | ⟨j, m, conversation, hj, hm, -, -, hdue, hd, htables⟩
  · cases hn
  · cases hj
    obtain ⟨errorCode, availableAt, hmessages⟩ := h.messages
    have hmarked : c.conversations.messages = updateWhere
        (fun r => decide (r.id = job.messageRecordId)) (markProcessing now)
        s.conversations.messages := by
      rw [htables, hd.record_id]
      rfl
    have hall : t.conversations.messages = s.conversations.messages.map
        (reported job now status errorCode availableAt) ++ rows := by
      rw [hmessages, hmarked, updateWhere_append, updateWhere_reported, updateWhere_fresh h.fresh]
    have hlower : ∀ r ∈ s.conversations.messages, r.id = job.messageRecordId →
        allowance cfg (reported job now status errorCode availableAt r) < allowance cfg r := by
      intro r hr hid
      have hrm := hu.message_eq hr hm (hid.trans hd.record_id)
      rw [reported, if_pos hid, hrm, allowance_claimed hdue]
      exact allowance_reported h.left fun hp => hd.attempts ▸ h.retried hp
    rw [budget, budget, hall, List.map_append, List.sum_append, allowance_fresh h.fresh,
      List.map_map, Nat.add_zero]
    refine List.sum_lt_sum _ _ (fun r hr => ?_) ⟨m, hm, hlower m hm hd.record_id.symm⟩
    by_cases hid : r.id = job.messageRecordId
    · exact (hlower r hr hid).le
    · simp [reported, hid]

end Budgets

section Drains

/-- A message that waits says when it is due, and one that is claimed says since when. -/
structure Timed (m : MessageRecord) : Prop where
  available : m.processingStatus = some .pending → m.processingAvailableAt ≠ none
  claimed : m.processingStatus = some .processing → m.processingClaimedAt ≠ none

theorem transition_timed {db db' : ConversationTables} {id : Uuid} {status : ProcessingStatus}
    {errorCode : Option ErrorCode} {availableAt : Option Time}
    (h : transition db id status errorCode availableAt = .ok ((), db'))
    (hdb : ∀ m ∈ db.messages, Timed m) (hleft : status ≠ .processing)
    (hwait : status = .pending → availableAt ≠ none) : ∀ m ∈ db'.messages, Timed m := by
  obtain ⟨-, rfl⟩ := transition_ok h
  refine System.updateWhere_forall hdb fun m _ _ => ⟨fun hp => hwait (Option.some.inj hp), ?_⟩
  exact fun hp => absurd (Option.some.inj hp) hleft

theorem fail_timed {db db' : ConversationTables} {now : Time} {id : Uuid} {errorCode : ErrorCode}
    {retry : Bool} (h : fail db now id errorCode retry = .ok ((), db'))
    (hdb : ∀ m ∈ db.messages, Timed m) : ∀ m ∈ db'.messages, Timed m := by
  unfold fail at h
  split_ifs at h
  · exact transition_timed h hdb (by simp) (by simp)
  · exact transition_timed h hdb (by simp) (by simp)

theorem Move.timed {a : Action} {p q : Phase} {db : ConversationTables} {d : DeliveryTables}
    {sent : List DeliveryRequest} (h : Move cfg s a p q db d sent)
    (hs : ∀ m ∈ s.conversations.messages, Timed m) : ∀ m ∈ db.messages, Timed m := by
  cases h with
  | lapse | acquire | stored | fresh | release | created | replayed | invoke | receive
  | finalize => exact hs
  | claim hq hc =>
    obtain ⟨row, -, -, rfl⟩ := claimNext_first hc
    refine System.updateWhere_forall hs fun m _ _ => ?_
    constructor <;> simp [markProcessing]
  | compose ports handoffId now hq =>
    obtain ⟨hrows, -⟩ := composeFor_spec cfg.unicode ports s.conversations handoffId now _ _ _
    rw [hrows.messages]
    exact hs
  | record id now hq =>
    obtain ⟨rows, hrows, hall⟩ := recordReply_rows cfg.unicode s.conversations id now _ _ _ _
    rw [hrows]
    refine List.forall_mem_append.mpr ⟨hs, fun m hm => ?_⟩
    rw [hall m hm]
    constructor <;> simp [outboundRow]
  | settle hc hq =>
    unfold settleJob at hc
    split_ifs at hc
    · exact fail_timed hc hs
    · exact transition_timed hc hs (by simp) (by simp)
  | fail hc hq => exact fail_timed hc hs

theorem timed_step {l : Label} (h : ∀ m ∈ s.conversations.messages, Timed m)
    (hs : step cfg s l = some t) : ∀ m ∈ t.conversations.messages, Timed m := by
  cases step_stepped hs with
  | refused | callback | expire => exact h
  | recorded hr =>
    obtain ⟨rows, hrows, hall⟩ := Ingress.recordMessages_rows hr
    intro m hm
    rcases List.mem_append.mp (hrows ▸ hm) with hm | hm
    · exact h m hm
    · obtain ⟨i, cid, message, -, rfl⟩ := hall m hm
      constructor <;> simp [inboundRow]
  | worker locks hact hmove => exact hmove.timed h

/-- What a run keeps, for the claims to go through. -/
structure Drainable (s : State) : Prop where
  readable : Readable s.conversations
  known : System.Known s
  timed : ∀ m ∈ s.conversations.messages, Timed m

theorem drainable_step (s : State) (l : Label) (t : State) (h : Drainable s)
    (hs : step cfg s l = some t) : Drainable t :=
  ⟨readable_step h.readable hs, (System.known_step h.known hs).2, timed_step h.timed hs⟩

theorem drainable_start : Drainable (start .empty .empty) where
  readable := ⟨List.forall_mem_nil _, List.forall_mem_nil _⟩
  known := System.system_start.base
  timed := List.forall_mem_nil _

/-- If nothing is due, no message is. -/
theorem eligible_nil {db : Ingress.Tables} (hc : System.Consistent db) {now : Time} {timeout : ℕ}
    (h : eligible db.conversations now timeout [] = []) :
    ∀ m ∈ db.conversations.messages, claimable now (now - timeout * 1000000) m = false := by
  intro m hm
  by_contra hdue
  obtain ⟨c, hcm, hid⟩ := hc.references.messages m hm
  obtain ⟨c', hfind⟩ : ∃ c', db.conversations.conversations.find?
      (fun c => c.id = m.conversationId) = some c' := by
    refine Option.isSome_iff_exists.mp (List.find?_isSome.mpr ⟨c, hcm, ?_⟩)
    simpa using hid
  have hjoin : (m, c') ∈ joined db.conversations :=
    List.mem_filterMap.mpr ⟨m, hm, by rw [hfind]; rfl⟩
  have hrow : (m, c') ∈ eligible db.conversations now timeout [] :=
    List.mem_filter.mpr ⟨hjoin, by simp [Bool.eq_true_of_not_eq_false hdue]⟩
  rw [h] at hrow
  cases hrow

/-- The calls of one worker lower the budget. -/
theorem processOnce_lowers (cfg : Config) (xs : ℕ → Pass) (w : ℕ) :
    Descent.Lowers (fun n => processOnce cfg (xs n) w)
      (fun s => Drainable s ∧ s.workers w = .idle) (budget cfg) := by
  refine ⟨?_, ?_, ?_⟩ <;> intro n s hs <;>
    have hcall := processOnce_reports cfg (xs n) hs.1.readable hs.2
  · refine ⟨processOnce_invariant drainable_step (xs n) hs.1, ?_⟩
    rcases hcall with ⟨hcall, -⟩ | ⟨-, hidle, -⟩
    · rw [hcall]
      exact hs.2
    · exact hidle
  · intro hwork
    rcases hcall with ⟨hcall, -⟩ | ⟨-, -, job, c, rows, status, hclaim, hr⟩
    · rw [hcall] at hwork
      cases hwork
    · exact budget_lt hs.1.known.tables.constraints hclaim hr
  · intro hrest
    rcases hcall with ⟨hcall, -⟩ | ⟨hwork, -⟩
    · rw [hcall]
    · rw [hwork] at hrest
      cases hrest

/-- Every message that was enqueued has been answered or given up. -/
def Settled (db : ConversationTables) : Prop :=
  ∀ m ∈ db.messages, m.processingStatus ∈ [none, some .completed, some .failed]

/-- A clock that passes every bound leaves a message due, unless it is settled. -/
theorem settled_of_clock {s : State} (timeout : ℕ) (h : Drainable s) {clock : ℕ → Time} {n : ℕ}
    (hclock : ∀ bound, ∃ k, n ≤ k ∧ bound ≤ clock k)
    (hnone : ∀ k, n ≤ k → eligible s.conversations (clock k) timeout [] = []) :
    Settled s.conversations := by
  intro m hm
  have hdue : ∀ k, n ≤ k → claimable (clock k) (clock k - timeout * 1000000) m = false :=
    fun k hk => eligible_nil h.known.tables (hnone k hk) m hm
  have htimed := h.timed m hm
  have hinbound : m.processingStatus ≠ none → m.direction = .inbound := by
    cases h.known.tables.traces.messages m hm with
    | webhook hdir | web hdir => exact fun _ => hdir
    | reply _ _ _ hs => exact fun hne => absurd hs hne
  cases hs : m.processingStatus with
  | none => simp
  | some status =>
    have hdir := hinbound (by rw [hs]; simp)
    cases status with
    | completed | failed => simp
    | pending =>
      obtain ⟨due, he⟩ := Option.ne_none_iff_exists'.mp (htimed.available hs)
      obtain ⟨k, hk, hle⟩ := hclock due
      have hfalse := hdue k hk
      simp [claimable, hdir, hs, he, hle] at hfalse
    | processing =>
      obtain ⟨since, he⟩ := Option.ne_none_iff_exists'.mp (htimed.claimed hs)
      obtain ⟨k, hk, hle⟩ := hclock (since + timeout * 1000000)
      have hfalse := hdue k hk
      have hstale : since ≤ clock k - timeout * 1000000 := le_sub_iff_add_le.mpr hle
      simp [claimable, hdir, hs, he, hstale] at hfalse

end Drains

/-- A worker that is left alone drains the outbox: whatever Redis, the model and Meta answer,
few of its calls find a job, and once the clock has passed every due time, every message that
a webhook delivered is completed or failed for good. -/
theorem outbox_drains (cfg : Config) {schedule : List Label}
    (hrun : exec (step cfg) (start .empty .empty) schedule = some s) (hidle : s.workers w = .idle)
    (xs : ℕ → Pass) (hclock : ∀ bound n, ∃ k, n ≤ k ∧ bound ≤ (xs k).claimNow) :
    (∀ n, Descent.workCount (fun n => processOnce cfg (xs n) w) s n ≤ budget cfg s) ∧
      ∃ n, ∀ k, n ≤ k →
        Settled (Descent.iterate (fun n => processOnce cfg (xs n) w) s k).conversations ∧
          (Descent.iterate (fun n => processOnce cfg (xs n) w) s k).workers w = .idle := by
  have hlowers := processOnce_lowers cfg xs w
  have hs : Drainable s ∧ s.workers w = .idle :=
    ⟨exec_invariant drainable_step drainable_start hrun, hidle⟩
  refine ⟨fun n => le_of_add_le_left (hlowers.workCount_le hs n), ?_⟩
  obtain ⟨n, hn⟩ := hlowers.eventually_rests hs
  obtain ⟨hdrainable, hend⟩ := hlowers.iterate_keeps hs n
  refine ⟨n, fun k hk => ?_⟩
  rw [(hn k hk).2]
  refine ⟨settled_of_clock cfg.claimTimeoutSeconds hdrainable (fun bound => hclock bound n)
    fun k hk => ?_, hend⟩
  rcases processOnce_reports cfg (xs k) hdrainable.readable hend with ⟨-, hnone⟩ | ⟨hwork, -⟩
  · exact hnone
  · rw [(hn k hk).1] at hwork
    cases hwork

/-- A call at second `k`, after which Meta accepts what is sent. -/
def samplePass (k : ℕ) : Pass where
  claimNow := k * 1000000
  token := 5
  lockReachable := true
  ports := offlinePorts
  handoffId := 9
  composeNow := 0
  messageId := 3
  recordNow := 0
  unlockReachable := true
  attemptId := 4
  deliverNow := 0
  provider := fun _ => .response 200 none (some ["wamid.out"])
  finalizeNow := 0
  reportNow := 0

theorem seconds_pass (bound : ℤ) (n : ℕ) : ∃ k : ℕ, n ≤ k ∧ bound ≤ (k : ℤ) * 1000000 := by
  refine ⟨n + bound.toNat, Nat.le_add_right _ _, ?_⟩
  omega

set_option maxRecDepth 10000 in
/-- One message waits, and the first call of a worker that is left alone sends its reply. -/
theorem exec_waiting :
    (exec (step sampleConfig) (start .empty .empty)
      [.ingest (fun _ => ⟨1, 2, 0, 0⟩) [pickMessage]]).map
        (fun s => (budget sampleConfig s,
          (processOnce sampleConfig (samplePass 0) 1 s).2.sentKeys)) =
      some (3, ["reply:wamid.1"]) := by
  decide

theorem sample_drains : ∃ s, exec (step sampleConfig) (start .empty .empty)
      [.ingest (fun _ => ⟨1, 2, 0, 0⟩) [pickMessage]] = some s ∧
    (processOnce sampleConfig (samplePass 0) 1 s).2.sentKeys = ["reply:wamid.1"] ∧
    let call := fun n => processOnce sampleConfig (samplePass n) 1
    (∀ n, Descent.workCount call s n ≤ 3) ∧
      ∃ n, ∀ k, n ≤ k → Settled (Descent.iterate call s k).conversations ∧
        (Descent.iterate call s k).workers 1 = .idle := by
  obtain ⟨s, hs, hsummary⟩ := Option.map_eq_some_iff.mp exec_waiting
  have hbudget := congrArg Prod.fst hsummary
  have hsent := congrArg Prod.snd hsummary
  have hidle : s.workers 1 = .idle := by
    cases hs
    rfl
  obtain ⟨hcalls, hend⟩ := outbox_drains sampleConfig hs hidle samplePass seconds_pass
  exact ⟨s, hs, hsent, fun n => (hcalls n).trans (le_of_eq hbudget), hend⟩

end Piki.Worker
