import Piki.WorkerCompletion

/-! What a terminal failure says about the delivery of the reply. -/
namespace Piki.Worker
open Table Transition ConversationRepository MessageProcessingStore DeliveryTruth
variable {cfg : Config} {s t : State}

/-- The job that a worker is about to fail for good: the delivery failed or is unknown,
or an exception used up the attempts. -/
def Phase.terminal : Phase → Option ClaimedInbound
  | .settling job result => if result.status.isError then some job else none
  | .failing job _ retry => if retry then none else some job
  | _ => none

/-- The reply to the job is not with the provider, and nobody is about to send it: no
attempt of it was taken, no open callback has read one as taken, and no other worker is
at work on the message. -/
structure Undelivered (s : State) (w : ℕ) (job : ClaimedInbound) : Prop where
  attempts : ∀ a ∈ s.deliveries.tables.attempts, a.idempotencyKey = replyKeyOf job →
    taken a.status = false
  reads : ∀ a ∈ s.deliveries.tables.attempts, a.idempotencyKey = replyKeyOf job →
    ∀ n callback attempt, Callbacks.OpenOn s.deliveries n callback attempt → attempt.id = a.id →
      taken attempt.status = false
  alone : ∀ w' job', w' ≠ w → (s.workers w').job = some job' →
    job'.messageRecordId = job.messageRecordId → (s.workers w').Spent

/-- Terminal failures are recorded only for replies that are not delivered. -/
def Conclusive (s : State) : Label → Prop
  | .worker w (.settle _ _) | .worker w (.fail _ _) =>
    ∀ job, (s.workers w).terminal = some job → Undelivered s w job
  | _ => True

/-- What holds of a message from its terminal failure on. -/
structure Closed (s : State) (m : MessageRecord) : Prop where
  idle : ∀ w job, (s.workers w).job = some job → job.messageRecordId = m.id → (s.workers w).Spent
  attempts : ∀ ext, m.externalMessageId = some ext → ∀ a ∈ s.deliveries.tables.attempts,
    a.idempotencyKey = replyKey ext → taken a.status = false ∧
      ∀ n callback attempt, Callbacks.OpenOn s.deliveries n callback attempt → attempt.id = a.id →
        taken attempt.status = false

structure FailedInv (s : State) : Prop where
  honest : HonestInv s
  failed : ∀ m ∈ s.conversations.messages, m.processingStatus = some .failed → Closed s m

/-- A worker that owes nothing but still has its job can only report the failure. -/
theorem Move.spent {a : Action} {p q : Phase} {db : ConversationTables} {d : DeliveryTables}
    {sent : List DeliveryRequest} (h : Move cfg s a p q db d sent) (hp : p.Spent)
    {job : ClaimedInbound} (hj : p.job = some job) : q.Spent := by
  cases h with
  | lapse hq | fail hc hq => exact hq.1
  | claim hq hc => cases hj
  | _ => cases hp

/-- Every attempt after a move was there before, or belongs to the worker's own job. -/
theorem Move.ownAttempt {a : Action} {p q : Phase} {db : ConversationTables} {d : DeliveryTables}
    {sent : List DeliveryRequest} (h : Move cfg s a p q db d sent)
    (hu : UniqueAttempts s.deliveries.tables) (hp : p.Honest s.deliveries.tables)
    {y : DeliveryAttemptRecord} (hy : y ∈ d.attempts) :
    y ∈ s.deliveries.tables.attempts ∨
      ∃ job, p.job = some job ∧ ¬ p.Spent ∧ y.idempotencyKey = replyKeyOf job := by
  cases h with
  | lapse | claim | acquire | stored | fresh | compose | record | release | invoke | receive
  | settle | fail => exact .inl hy
  | @created now _ job _ _ _ _ _ _ hrequest hc hq =>
    rcases DeliveryStore.claim_ok hc with ⟨hfalse, -⟩ | ⟨-, -, -, -, rfl⟩
    · cases hfalse
    · rcases List.mem_append.mp hy with hy | hy
      · exact .inl hy
      · refine .inr ⟨job, rfl, id, ?_⟩
        rw [List.mem_singleton.mp hy]
        exact (replyRequest_content hrequest).1
  | replayed hrequest hc hq =>
    rcases DeliveryStore.claim_ok hc with ⟨-, rfl, -⟩ | ⟨hfalse, -⟩
    · exact .inl hy
    · cases hfalse
  | @finalize _ _ job aid _ _ _ hc hq =>
    obtain ⟨-, -, rfl⟩ := DeliveryStore.finalize_ok hc
    obtain ⟨x, hx, rfl⟩ := mem_updateWhere.mp hy
    split_ifs with hpending
    · obtain ⟨a, ha, hid, hk⟩ := hp.attempt job aid rfl
      have hxa : x = a :=
        Callbacks.attempt_eq hu.id hx ha ((of_decide_eq_true hpending).1.trans hid.symm)
      exact .inr ⟨job, rfl, id, by rw [hxa]; exact hk⟩
    · exact .inl hx

/-- A phase that fails its job for good holds that job. -/
theorem Phase.terminal_of_outcome {p : Phase} {job : ClaimedInbound}
    (h : p.outcome = some (job, .failed)) : p.terminal = some job := by
  cases p with
  | settling job' result =>
    simp only [Phase.outcome, Option.some.injEq, Prod.mk.injEq] at h
    obtain ⟨rfl, hstatus⟩ := h
    split_ifs at hstatus with herror
    simp [Phase.terminal, herror]
  | failing job' code retry =>
    simp only [Phase.outcome, Option.some.injEq, Prod.mk.injEq] at h
    obtain ⟨rfl, hstatus⟩ := h
    split_ifs at hstatus with hretry
    simp [Phase.terminal, hretry]
  | _ => cases h

/-- A report ends the work and leaves the deliveries alone. -/
theorem Move.report {a : Action} {p q : Phase} {db : ConversationTables} {d : DeliveryTables}
    {sent : List DeliveryRequest} (h : Move cfg s a p q db d sent) (ha : a.Reports) :
    p.Lapses q ∧ d = s.deliveries.tables := by
  cases h with
  | lapse hq | settle hc hq | fail hc hq => exact ⟨hq, rfl⟩
  | _ => cases ha

/-- A failed row was failed before, or is the row of the job that is failed now. -/
theorem Move.failedRow {a : Action} {p q : Phase} {db : ConversationTables} {d : DeliveryTables}
    {sent : List DeliveryRequest} (h : Move cfg s a p q db d sent) {m : MessageRecord}
    (hm : m ∈ db.messages) (hf : m.processingStatus = some .failed) :
    m ∈ s.conversations.messages ∨
      ∃ job, p.terminal = some job ∧ m.id = job.messageRecordId ∧ a.Reports := by
  cases h.row hm with
  | kept hm => exact .inl hm
  | reply hs _ => rw [hs] at hf; cases hf
  | claimed => cases hf
  | left ha hp _ hid _ =>
    cases Option.some.inj hf
    exact .inr ⟨_, Phase.terminal_of_outcome hp, hid, ha⟩

theorem claimable_open {now staleBefore : Time} {m : MessageRecord}
    (h : claimable now staleBefore m = true) : m.processingStatus ≠ some .failed := by
  intro hf
  simp [claimable, hf] at h

/-- A closed message stays closed, whatever a worker does. -/
theorem Closed.move {a : Action} {w : ℕ} {q : Phase} {db : ConversationTables} {d : DeliveryTables}
    {sent : List DeliveryRequest} {m : MessageRecord} (h : Closed s m) (hi : HonestInv s)
    (hm : m ∈ s.conversations.messages) (hf : m.processingStatus = some .failed)
    (hmove : Move cfg s a (s.workers w) q db d sent) (locks : ConversationScope → Option ℕ) :
    Closed (s.moved w q db d locks sent) m := by
  refine ⟨?_, ?_⟩
  · intro w' job hw' hid
    by_cases he : w' = w
    · subst he
      simp only [State.moved, Function.update_self] at hw' ⊢
      rcases hmove.job hw' with hp | ⟨-, now, locked, hc⟩
      · exact hmove.spent (h.idle w' job hp hid) hp
      · rcases claimNext_ok hc with ⟨hn, -⟩ | ⟨j, x, c, hj, hx, -, -, hclaim, hd, -⟩
        · cases hn
        · cases hj
          have hxm := hi.once.constraints.message_eq hx hm (hd.record_id.symm.trans hid)
          rw [hxm] at hclaim
          exact absurd hf (claimable_open hclaim)
    · simp only [State.moved, Function.update_of_ne he] at hw' ⊢
      exact h.idle w' job hw' hid
  · intro ext hext y hy hkey
    rcases hmove.ownAttempt hi.once.attempts (hi.phases w) hy with hy | ⟨job, hjob, hbusy, hown⟩
    · exact h.attempts ext hext y hy hkey
    · obtain ⟨x, hx, hxid, hxext⟩ := hi.jobs w job hjob
      have hids : job.message.messageId = ext := replyKey_injective (hown.symm.trans hkey)
      rw [hids] at hxext
      have hxm := unique_eq hi.once.constraints.message_external hx hm hxext hext
      rw [hxm] at hxid
      exact absurd (h.idle w job hjob hxid.symm) hbusy

/-- The message of a job that fails for good is closed. -/
theorem Undelivered.closed {w : ℕ} {job : ClaimedInbound} {q : Phase} {db : ConversationTables}
    {sent : List DeliveryRequest} {m : MessageRecord} (h : Undelivered s w job)
    (hq : q.Spent) (hid : m.id = job.messageRecordId)
    (hext : m.externalMessageId = some job.message.messageId)
    (locks : ConversationScope → Option ℕ) :
    Closed (s.moved w q db s.deliveries.tables locks sent) m := by
  refine ⟨?_, ?_⟩
  · intro w' job' hw' hid'
    by_cases he : w' = w
    · subst he
      simp only [State.moved, Function.update_self]
      exact hq
    · simp only [State.moved, Function.update_of_ne he] at hw' ⊢
      exact h.alone w' job' he hw' (hid'.trans hid)
  · intro ext he a ha hkey
    have hids : ext = job.message.messageId := Option.some.inj (he.symm.trans hext)
    rw [hids] at hkey
    exact ⟨h.attempts a ha hkey, h.reads a ha hkey⟩

/-- Callbacks do not deliver a closed message: they read no taken attempt of it. -/
theorem Closed.callback {c : Callbacks.State} {l : Callbacks.Label} {m : MessageRecord}
    (h : Closed s m) (hi : HonestInv s) (hc : Callbacks.step s.deliveries l = some c) :
    Closed { s with deliveries := c } m := by
  refine ⟨h.idle, ?_⟩
  intro ext hext
  have hopen : ∀ a ∈ s.deliveries.tables.attempts, a.idempotencyKey = replyKey ext →
      ∀ n callback attempt, Callbacks.OpenOn c n callback attempt → attempt.id = a.id →
        taken attempt.status = false := by
    intro a ha hkey n callback attempt ho hid
    obtain ⟨htaken, hreads⟩ := h.attempts ext hext a ha hkey
    rcases callback_open hc ho with ho | ⟨-, hsel⟩
    · exact hreads n callback attempt ho hid
    · obtain ⟨hm, -⟩ := Callbacks.selectAttempt_mem hsel
      rw [Callbacks.attempt_eq hi.once.attempts.id hm ha hid]
      exact htaken
  intro a ha hkey
  rcases callback_tables hc with he | ⟨n, callback, attempt, hn, he⟩
  · rw [he] at ha
    exact ⟨(h.attempts ext hext a ha hkey).1, hopen a ha hkey⟩
  · rw [he] at ha
    rcases Callbacks.commitCallback_attempts ha with ha | ⟨hedge, x, hx, hid, rfl⟩
    · exact ⟨(h.attempts ext hext a ha hkey).1, hopen a ha hkey⟩
    · have hread := (h.attempts ext hext x hx hkey).2 n callback attempt (.inr hn) hid.symm
      rw [canTransition_taken hedge] at hread
      cases hread

theorem failed_step {l : Label} (h : FailedInv s) (hl : Conclusive s l)
    (hs : step cfg s l = some t) : FailedInv t := by
  refine ⟨honest_step h.honest hs, ?_⟩
  intro m hm hf
  cases step_stepped hs with
  | refused => exact h.failed m hm hf
  | recorded hr =>
    obtain ⟨rows, hrows, hall⟩ := Ingress.recordMessages_rows hr
    have hmem : m ∈ s.conversations.messages ++ rows := hrows ▸ hm
    rcases List.mem_append.mp hmem with hm | hm
    · exact ⟨(h.failed m hm hf).idle, (h.failed m hm hf).attempts⟩
    · obtain ⟨i, cid, message, -, rfl⟩ := hall m hm
      cases hf
  | callback hc => exact (h.failed m hm hf).callback h.honest hc
  | expire => exact ⟨(h.failed m hm hf).idle, (h.failed m hm hf).attempts⟩
  | @worker w action _ _ _ _ locks hact hmove =>
    rcases hmove.failedRow hm hf with hm' | ⟨job, hterminal, hid, hreports⟩
    · exact (h.failed m hm' hf).move h.honest hm' hf hmove locks
    · have hun : Undelivered s w job := by
        cases action with
        | settle | fail => exact hl job hterminal
        | _ => cases hreports
      obtain ⟨hlapse, rfl⟩ := hmove.report hreports
      have hjob : (s.workers w).job = some job := by
        generalize s.workers w = p at hterminal
        cases p with
        | settling job' result =>
          simp only [Phase.terminal] at hterminal
          split_ifs at hterminal
          exact hterminal
        | failing job' code retry =>
          simp only [Phase.terminal] at hterminal
          split_ifs at hterminal
          exact hterminal
        | _ => cases hterminal
      obtain ⟨x, hx, hxid, hxext⟩ := (h.honest.jobs w job hjob).keeps hmove.messages.1
      have hu := hmove.messages.2 h.honest.once.constraints
      have hxm := hu.message_eq hx hm (hxid.trans hid.symm)
      exact hun.closed hlapse.1 hid (hxm ▸ hxext) locks

/-- In a run in which terminal failures are recorded only for undelivered replies, a
failed message has no attempt that the provider took. -/
theorem failed_not_delivered (cfg : Config) {schedule : List Label}
    (hl : Along (step cfg) Conclusive (start .empty .empty) schedule)
    (hrun : exec (step cfg) (start .empty .empty) schedule = some t) {m : MessageRecord}
    (hm : m ∈ t.conversations.messages) (hf : m.processingStatus = some .failed)
    {messageId : String} (hext : m.externalMessageId = some messageId) :
    ∀ a ∈ t.deliveries.tables.attempts, a.idempotencyKey = replyKey messageId →
      a.status ∉ [.accepted, .sent, .delivered, .read] := by
  have hstart : FailedInv (start .empty .empty) := ⟨honest_start, fun m hm => by cases hm⟩
  have hinv := exec_invariant_along (fun _ _ _ hi hp hs => failed_step hi hp hs) hstart hl hrun
  intro a ha hkey hst
  have htaken := ((hinv.failed m hm hf).attempts messageId hext a ha hkey).1
  rw [taken_iff.mpr hst] at htaken
  cases htaken

section Samples

/-- The steps from the recorded reply to the POST. -/
def postActions : List Action := [.release true, .deliver 4 0 true, .invoke]

/-- Meta rejects the POST and the job is over. -/
def rejectActions : List Action :=
  [.receive fun _ => .response 400 none none, .finalize 0 true, .settle 0 true]

/-- Worker 1 is in the POST when its claim expires; worker 2 finds the attempt pending
and fails the message; then the POST of worker 1 is accepted. -/
def latePostSchedule : List Label :=
  .ingest (fun _ => ⟨1, 2, 0, 0⟩) [pickMessage] ::
    (recordActions ++ postActions).map (.worker 1) ++
    [.worker 2 (.claim 120000000 [] true), .worker 2 (.acquire 6 true), .worker 2 .lookup,
      .worker 2 (.release true), .worker 2 (.deliver 5 120000000 true),
      .worker 2 (.settle 120000000 true),
      .worker 1 (.receive fun _ => .response 200 none (some ["wamid.out"])),
      .worker 1 (.finalize 120000000 true)]

/-- A failed message is among the messages, and an accepted attempt of its reply among
the attempts. -/
def failedAndTaken (s : State) : Bool :=
  s.conversations.messages.any fun m => m.processingStatus = some .failed ∧
    m.externalMessageId = some "wamid.1" ∧ s.deliveries.tables.attempts.any fun a =>
      a.idempotencyKey = replyKey "wamid.1" ∧ a.status = .accepted

set_option maxRecDepth 10000 in
theorem late_post_failed_but_accepted : ∃ t,
    exec (step sampleConfig) (start .empty .empty) latePostSchedule = some t ∧
    ∃ m ∈ t.conversations.messages, m.processingStatus = some .failed ∧
      m.externalMessageId = some "wamid.1" ∧ ∃ a ∈ t.deliveries.tables.attempts,
        a.idempotencyKey = replyKey "wamid.1" ∧ a.status = .accepted := by
  have hrun : (exec (step sampleConfig) (start .empty .empty) latePostSchedule).map
      failedAndTaken = some true := by
    decide
  obtain ⟨t, ht, hany⟩ := Option.map_eq_some_iff.mp hrun
  refine ⟨t, ht, ?_⟩
  simpa [failedAndTaken] using hany

/-- Meta rejects the reply and the message fails. -/
def rejectedSchedule : List Label :=
  .ingest (fun _ => ⟨1, 2, 0, 0⟩) [pickMessage] ::
    (recordActions ++ postActions ++ rejectActions).map (.worker 1)

/-- Only worker 1 has worked, and no callback is open. -/
structure Lone (s : State) : Prop where
  workers : ∀ w, w ≠ 1 → s.workers w = .idle
  callbacks : ∀ n, s.deliveries.txns n = .idle

/-- A webhook delivery, or a step of worker 1 that fails no delivered reply. -/
def LoneLabel (s : State) : Label → Prop
  | .ingest _ _ => True
  | .worker w _ => w = 1 ∧ ∀ job ∈ (s.workers w).terminal, ∀ a ∈ s.deliveries.tables.attempts,
      a.idempotencyKey = replyKeyOf job → taken a.status = false
  | _ => False

instance (s : State) : (l : Label) → Decidable (LoneLabel s l)
  | .ingest _ _ => isTrue trivial
  | .worker w _ => inferInstanceAs (Decidable (w = 1 ∧ ∀ job ∈ (s.workers w).terminal,
      ∀ a ∈ s.deliveries.tables.attempts, a.idempotencyKey = replyKeyOf job →
        taken a.status = false))
  | .callback _ | .expire _ => isFalse id

theorem lone_step {l : Label} (h : Lone s) (hl : LoneLabel s l) (hs : step cfg s l = some t) :
    Lone t := by
  cases step_stepped hs with
  | refused => exact h
  | recorded hr => exact ⟨h.workers, h.callbacks⟩
  | callback | expire => cases hl
  | worker locks hact hmove =>
    refine ⟨?_, h.callbacks⟩
    intro w' hw'
    rw [hl.1]
    simp only [State.moved, Function.update_of_ne hw']
    exact h.workers w' hw'

theorem lone_conclusive {l : Label} (h : Lone s) (hl : LoneLabel s l) : Conclusive s l := by
  have hun : ∀ w, w = 1 → (∀ job ∈ (s.workers w).terminal, ∀ a ∈ s.deliveries.tables.attempts,
      a.idempotencyKey = replyKeyOf job → taken a.status = false) →
      ∀ job, (s.workers w).terminal = some job → Undelivered s w job := by
    intro w hw hattempts job hjob
    refine ⟨hattempts job hjob, ?_, ?_⟩
    · intro a _ _ n callback attempt ho
      rcases ho with ho | ho <;> rw [h.callbacks n] at ho <;> cases ho
    · intro w' job' hne hj
      rw [h.workers w' (hw ▸ hne)] at hj
      cases hj
  cases l with
  | worker w action =>
    cases action with
    | settle | fail => exact hun w hl.1 hl.2
    | _ => trivial
  | _ => trivial

set_option maxRecDepth 10000 in
theorem rejected_not_delivered : ∃ t,
    exec (step sampleConfig) (start .empty .empty) rejectedSchedule = some t ∧
    ∃ m ∈ t.conversations.messages, m.processingStatus = some .failed ∧
      m.externalMessageId = some "wamid.1" ∧ ∀ a ∈ t.deliveries.tables.attempts,
        a.idempotencyKey = replyKey "wamid.1" → a.status ∉ [.accepted, .sent, .delivered, .read] := by
  have hlone : Along (step sampleConfig) LoneLabel (start .empty .empty) rejectedSchedule := by
    decide
  have hl : Along (step sampleConfig) Conclusive (start .empty .empty) rejectedSchedule :=
    along_mono (I := Lone) (fun _ _ _ hi hp hs => lone_step hi hp hs)
      (fun _ _ hi hp => lone_conclusive hi hp) ⟨fun _ _ => rfl, fun _ => rfl⟩ hlone
  have hrun : (exec (step sampleConfig) (start .empty .empty) rejectedSchedule).map (fun t =>
      t.conversations.messages.any fun m => m.processingStatus = some .failed ∧
        m.externalMessageId = some "wamid.1") = some true := by
    decide
  obtain ⟨t, ht, hany⟩ := Option.map_eq_some_iff.mp hrun
  obtain ⟨m, hm, hfailed⟩ := List.any_eq_true.mp hany
  obtain ⟨hstatus, hext⟩ := of_decide_eq_true hfailed
  exact ⟨t, ht, m, hm, hstatus, hext, failed_not_delivered sampleConfig hl ht hm hstatus hext⟩

end Samples

end Piki.Worker
