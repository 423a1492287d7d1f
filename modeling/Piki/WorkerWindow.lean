import Piki.WorkerJobs
import Piki.WorkerOnce

/-! The customer service window that the worker passes to the delivery service, against
the timestamp that Meta gave the message. -/
namespace Piki.Worker
open Table Transition ConversationRepository ConversationOrchestrator MessageProcessingStore
variable {cfg : Config} {s t : State}

/-- The job repeats the time at which its row was inserted. -/
def Dated (db : ConversationTables) (job : ClaimedInbound) : Prop :=
  ∃ m ∈ db.messages, m.externalMessageId = some job.message.messageId ∧
    m.createdAt = job.message.receivedAt

theorem Dated.keeps {db db' : ConversationTables} {job : ClaimedInbound} (h : Dated db job)
    (hk : Keeps db db') : Dated db' job := by
  obtain ⟨m, hm, hext, hcreated⟩ := h
  obtain ⟨m', hm', hc⟩ := hk.mem hm
  exact ⟨m', hm', (content_external hc).trans hext,
    (content_field MessageRecord.createdAt (fun _ => rfl) hc).trans hcreated⟩

theorem claimNext_dated {db db' : ConversationTables} {now : Time} {timeout : ℕ}
    {locked : List Uuid} {job : ClaimedInbound}
    (h : claimNext db now timeout locked = .ok (some job, db')) : Dated db job := by
  rcases claimNext_ok h with ⟨hn, -⟩ | ⟨j, m, c, hj, hm, -, -, -, hd, -⟩
  · cases hn
  · cases hj
    exact ⟨m, hm, hd.external_id, hd.received.symm⟩

def DatedJobs (s : State) : Prop :=
  ∀ w job, (s.workers w).job = some job → Dated s.conversations job

theorem datedJobs_step {l : Label} (h : DatedJobs s) (hs : step cfg s l = some t) :
    DatedJobs t :=
  held_step Dated.keeps claimNext_dated h hs

theorem exec_keeps {schedule : List Label} (h : exec (step cfg) s schedule = some t) :
    Keeps s.conversations t.conversations :=
  exec_invariant (I := fun u => Keeps s.conversations u.conversations)
    (fun _ _ _ hi hs => hi.trans (step_messages hs).1) (.refl _) h

/-- The first message of a batch under a new id is inserted with the clock of the
database. -/
theorem recordMessages_created {draws : ℕ → Draw} {db db' : ConversationTables}
    {messages : List InboundMessage} {statuses : List PersistStatus}
    (h : Ingress.recordMessages draws db messages = .ok (statuses, db')) {i : ℕ}
    {message : InboundMessage} (hi : messages[i]? = some message)
    (hnew : ∀ m ∈ db.messages, m.externalMessageId ≠ some message.messageId)
    (hfirst : ∀ j < i, ∀ x ∈ messages[j]?, x.messageId ≠ message.messageId) :
    ∃ m ∈ db'.messages, m.externalMessageId = some message.messageId ∧
      m.createdAt = (draws i).databaseNow := by
  induction messages generalizing draws db statuses i with
  | nil => simp at hi
  | cons x messages ih =>
    obtain ⟨account, -, hrest⟩ := bind_ok h
    obtain ⟨⟨p, db₁⟩, hrec, hrest⟩ := bind_ok hrest
    obtain ⟨⟨rest, db₂⟩, htail, hret⟩ := bind_ok hrest
    cases hret
    cases i with
    | zero =>
      cases hi
      obtain ⟨rows, hrows, -⟩ := Ingress.recordMessages_rows htail
      obtain ⟨db₀, hup, ⟨-, -, m, hm, hext⟩ | ⟨-, -, -, rfl⟩⟩ := recordInbound_ok hrec
      · exact absurd hext (hnew m hm)
      · refine ⟨inboundRow (draws 0) p.conversationId message ("meta:" ++ message.messageId) true,
          ?_, rfl, rfl⟩
        rw [hrows]
        exact List.mem_append_left _ (List.mem_append_right _ (List.mem_singleton_self _))
    | succ i =>
      refine ih htail (by simpa using hi) ?_ ?_
      · intro m hm
        obtain ⟨rows, hrows, hall⟩ := recordInbound_rows hrec
        rw [hrows] at hm
        rcases List.mem_append.mp hm with hm | hm
        · exact hnew m hm
        · rw [hall m hm]
          intro he
          exact hfirst 0 (Nat.succ_pos i) x rfl (Option.some.inj he)
      · intro j hj y hy
        exact hfirst (j + 1) (Nat.succ_lt_succ hj) y (by simpa using hy)

/-- The worker passes `open` for a message only inside the 24 hours after Meta's
timestamp, exactly when it processes the message inside them, or later than 24 hours
after its row was inserted. -/
theorem window_open_iff (cfg : Config) {earlier later : List Label} {s s' t : State}
    (hearlier : exec (step cfg) (start .empty .empty) earlier = some s) {draws : ℕ → Draw}
    {messages : List InboundMessage}
    (hingest : step cfg s (.ingest draws messages) = some s') {i : ℕ} {message : InboundMessage}
    (hi : messages[i]? = some message)
    (hfirst : ∀ j < i, ∀ x ∈ messages[j]?, x.messageId ≠ message.messageId)
    (hnew : ∀ m ∈ s.conversations.messages, m.externalMessageId ≠ some message.messageId)
    (hstored : ∃ m ∈ s'.conversations.messages, m.externalMessageId = some message.messageId)
    (hlater : exec (step cfg) s' later = some t) {w : ℕ} {job : ClaimedInbound}
    {reply : ConversationReply} (hw : t.workers w = .replied job reply)
    (hjob : job.message.messageId = message.messageId) {now : Time} {request : DeliveryRequest}
    (hrequest : replyRequest now job reply = .ok request) :
    (request.customerServiceWindow = .open → now - message.receivedAt ≤ windowMicroseconds) ↔
      now - message.receivedAt ≤ windowMicroseconds ∨
        windowMicroseconds < now - (draws i).databaseNow := by
  have hrun : exec (step cfg) (start .empty .empty) (earlier ++ .ingest draws messages :: later) =
      some t := exec_append.mpr ⟨s, hearlier, exec_cons_some.mpr ⟨s', hingest, hlater⟩⟩
  have hinv : Inv t := exec_invariant (fun _ _ _ hi hs => inv_step hi hs)
    (inv_start ConversationTables.empty_constraints DeliveryTables.empty_constraints) hrun
  have hdated : DatedJobs t := exec_invariant (fun _ _ _ hi hs => datedJobs_step hi hs)
    (fun _ _ hj => by cases hj) hrun
  obtain ⟨x, hx, hxext, hxcreated⟩ : ∃ m ∈ s'.conversations.messages,
      m.externalMessageId = some message.messageId ∧ m.createdAt = (draws i).databaseNow := by
    simp only [step] at hingest
    cases hr : Ingress.recordMessages draws s.conversations messages with
    | error e =>
      simp only [hr] at hingest
      cases hingest
      obtain ⟨m, hm, hext⟩ := hstored
      exact absurd hext (hnew m hm)
    | ok r =>
      simp only [hr] at hingest
      cases hingest
      exact recordMessages_created hr hi hnew hfirst
  obtain ⟨x', hx', hcontent⟩ := (exec_keeps hlater).mem hx
  obtain ⟨m, hm, hmext, hmcreated⟩ := hdated w job (by rw [hw]; rfl)
  have hsame : m = x' := by
    refine unique_eq hinv.constraints.message_external hm hx' hmext ?_
    rw [content_external hcontent, hxext, hjob]
  have hreceived : job.message.receivedAt = (draws i).databaseNow := by
    rw [← hmcreated, hsame, content_field MessageRecord.createdAt (fun _ => rfl) hcontent,
      hxcreated]
  have hopen : request.customerServiceWindow = .open ↔
      now - (draws i).databaseNow ≤ windowMicroseconds := by
    rw [(replyRequest_content hrequest).2.2, serviceWindow, hreceived]
    split_ifs with hle <;> simp [hle]
  rw [hopen]
  constructor
  · intro h
    by_cases hle : now - (draws i).databaseNow ≤ windowMicroseconds
    · exact .inl (h hle)
    · exact .inr (not_le.mp hle)
  · rintro (h | h) hle
    · exact h
    · exact absurd hle (not_le.mpr h)

section Samples

def hours (n : ℤ) : ℤ := n * 60 * 60 * 1000000

/-- Meta delivers the message 23 hours after its timestamp, and the worker processes it
another 23 hours later. -/
def delayedSchedule : List Label :=
  .ingest (fun _ => ⟨1, 2, hours 23, hours 23⟩) [pickMessage] ::
    ([.claim (hours 46) [] true, .acquire 5 true, .lookup, .compose offlinePorts 9 0 true,
      .record 3 0 true, .release true, .deliver 4 (hours 46) true, .invoke] : List Action).map
      (.worker 1)

set_option maxRecDepth 10000 in
/-- The message of time 0 is answered as inside the window 46 hours later. -/
theorem delayed_sent_open : pickMessage.receivedAt = 0 ∧
    ¬ hours 46 - pickMessage.receivedAt ≤ windowMicroseconds ∧
    (exec (step sampleConfig) (start .empty .empty) delayedSchedule).map
      (fun t => t.sent.map fun r => (r.idempotencyKey, r.customerServiceWindow)) =
      some [(replyKey pickMessage.messageId, .open)] := by
  refine ⟨rfl, by decide, ?_⟩
  decide

/-- Worker 1 has the reply to a message that was stored at its own time. -/
def promptSchedule : List Label := (recordActions ++ [Action.release true]).map (.worker 1)

def promptIngest : Option State :=
  step sampleConfig (start .empty .empty) (.ingest (fun _ => ⟨1, 2, 0, 0⟩) [pickMessage])

/-- The reply that worker 1 holds, with the request it builds at time 0. -/
def promptRequest (t : State) : Option (ClaimedInbound × ConversationReply × DeliveryRequest) :=
  match t.workers 1 with
  | .replied job reply =>
    match replyRequest 0 job reply with
    | .ok request => some (job, reply, request)
    | .error _ => none
  | _ => none

theorem promptRequest_some {t : State} {job : ClaimedInbound} {reply : ConversationReply}
    {request : DeliveryRequest} (h : promptRequest t = some (job, reply, request)) :
    t.workers 1 = .replied job reply ∧ replyRequest 0 job reply = .ok request := by
  unfold promptRequest at h
  split at h
  · rename_i hp
    split at h
    · rename_i hr
      cases h
      exact ⟨hp, hr⟩
    · cases h
  · cases h

set_option maxRecDepth 10000 in
theorem prompt_window_open : ∃ s' t job reply request, promptIngest = some s' ∧
    exec (step sampleConfig) s' promptSchedule = some t ∧ t.workers 1 = .replied job reply ∧
    replyRequest 0 job reply = .ok request ∧
    (request.customerServiceWindow = .open → 0 - pickMessage.receivedAt ≤ windowMicroseconds) := by
  have hids : promptIngest.map (fun s' => s'.conversations.messages.map
      MessageRecord.externalMessageId) = some [some "wamid.1"] := by
    decide
  have hrun : (promptIngest.bind fun s' => (exec (step sampleConfig) s' promptSchedule).bind fun t =>
      (promptRequest t).map fun r => r.1.message.messageId) = some "wamid.1" := by
    decide
  obtain ⟨s', hs', hrest⟩ := Option.bind_eq_some_iff.mp hrun
  obtain ⟨t, ht, hrest⟩ := Option.bind_eq_some_iff.mp hrest
  obtain ⟨⟨job, reply, request⟩, hr, hjob⟩ := Option.map_eq_some_iff.mp hrest
  obtain ⟨hw, hrequest⟩ := promptRequest_some hr
  have hstored : ∃ m ∈ s'.conversations.messages,
      m.externalMessageId = some pickMessage.messageId := by
    rw [hs', Option.map_some, Option.some.injEq] at hids
    refine List.mem_map.mp ?_
    rw [hids]
    exact List.mem_singleton_self _
  refine ⟨s', t, job, reply, request, hs', ht, hw, hrequest, ?_⟩
  refine (window_open_iff sampleConfig (i := 0) (exec_nil _) hs' rfl (by simp) (by simp [start,
    ConversationTables.empty]) hstored ht hw hjob hrequest).mpr (.inl ?_)
  decide

end Samples

end Piki.Worker
