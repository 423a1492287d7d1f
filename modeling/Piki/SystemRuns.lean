import Piki.SystemRows

/-! Runs of the whole system: workers, webhook deliveries, status callbacks and calls of
`respond` over one database. Every step writes what its issuer knows to be true. -/
namespace Piki.System
open Table Transition ConversationRepository ConversationOrchestrator MessageProcessingStore Worker
variable {cfg : Config}

section Sources

theorem replyId_injective {a b : String} (h : replyId a = replyId b) : a = b :=
  String.append_right_inj "piki-reply:" |>.mp h

theorem storedReply_trace {u : Text.Unicode} {message : InboundMessage} {cid : Uuid}
    {existing : MessageRecord} {reply : ConversationReply}
    (h : storedReply u message cid existing = .ok reply) : reply.traceId = existing.traceId := by
  unfold storedReply ConversationReply.make at h
  split_ifs at h
  cases h
  rfl

theorem recordReply_trace {u : Text.Unicode} {db : ConversationTables} {id : Uuid} {now : Time}
    {message : InboundMessage} {cid : Uuid} {text : String} {fb : Bool} {reply : ConversationReply}
    (h : (recordReply u db id now message cid text fb).2 = .ok reply) :
    reply.traceId = traceOf message.messageId := by
  unfold recordReply at h
  cases hout : recordOutbound db id now cid text (traceOf message.messageId)
      (replyId message.messageId) with
  | error e =>
    simp only [hout] at h
    cases h
  | ok r =>
    simp only [hout] at h
    unfold ConversationReply.make at h
    split_ifs at h
    cases h
    rfl

/-- A reply that is looked up carries the trace of its row. -/
theorem lookupReply_trace {u : Text.Unicode} {db : ConversationTables}
    (hdb : ∀ m ∈ db.messages, Traced db m) {message : InboundMessage} {cid : Uuid}
    {reply : ConversationReply} (h : lookupReply u db message cid = .ok (.stored reply)) :
    ReplyTrace db message.messageId reply.traceId := by
  unfold lookupReply at h
  cases hf : findReply db message.messageId with
  | none =>
    simp only [hf] at h
    obtain ⟨history, -, he⟩ := map_ok h
    cases he
  | some existing =>
    simp only [hf] at h
    obtain ⟨r, hr, he⟩ := map_ok h
    cases he
    obtain ⟨hm, hext, -⟩ := findReply_some hf
    rw [storedReply_trace hr]
    cases hdb existing hm with
    | webhook hdir | web hdir => exact .inr ⟨existing, hm, hdir, hext, rfl⟩
    | reply hdir hext' htrace =>
      have hid := replyId_injective (Option.some.inj (hext.symm.trans hext'))
      exact .inl (hid ▸ htrace)

theorem replyRequest_route {now : Time} {job : ClaimedInbound} {reply : ConversationReply}
    {request : DeliveryRequest} (h : replyRequest now job reply = .ok request) :
    request.conversationId = job.message.conversationId ∧ request.traceId = reply.traceId := by
  unfold replyRequest DeliveryRequest.make at h
  split_ifs at h
  cases h
  exact ⟨rfl, rfl⟩

/-- The adapter reports under the trace of the request. -/
theorem send_trace {provider : MetaBody → PostOutcome} {request : DeliveryRequest}
    {r : DeliveryResult} (h : (MetaDeliveryAdapter.send provider request).2 = .ok r) :
    r.traceId = request.traceId := by
  unfold MetaDeliveryAdapter.send at h
  split_ifs at h
  · simp only [MetaDeliveryAdapter.windowFailure] at h
    split at h <;> exact (DeliveryResult.make_ok h).2.2.2.2
  · cases hb : MetaDeliveryAdapter.buildBody request with
    | error code =>
      simp only [hb, MetaDeliveryAdapter.localFailure] at h
      exact (DeliveryResult.make_ok h).2.2.2.2
    | ok body =>
      simp only [hb] at h
      cases hout : provider body with
      | timeout | requestError =>
        simp only [hout, MetaDeliveryAdapter.readResponse] at h
        exact (DeliveryResult.make_ok h).2.2.2.2
      | response status errorCode messageIds =>
        simp only [hout, MetaDeliveryAdapter.readResponse] at h
        split_ifs at h
        · exact (DeliveryResult.make_ok h).2.2.2.2
        · split at h <;> exact (DeliveryResult.make_ok h).2.2.2.2

/-- A composition leaves the tables as they are, or asks for a person in the
conversation of the turn. -/
theorem composeFor_writes (u : Text.Unicode) (ports : Ports) (db : Ingress.Tables)
    (handoffId : Uuid) (now : Time) (message : InboundMessage) {cid : Uuid}
    (history : List MessageRecord) (hm : Received db.conversations message.messageId cid) :
    Writes db { db with conversations :=
      (composeFor u ports db.conversations handoffId now message cid history).tables } := by
  have hsame : ∀ turn : Turn, turn.tables = db.conversations →
      Writes db { db with conversations := turn.tables } := by
    intro turn ht
    rw [ht]
  unfold composeFor
  dsimp only
  split
  · exact hsame _ rfl
  · unfold composeReply
    cases turns history with
    | error e => exact hsame _ rfl
    | ok conversation =>
      dsimp only
      split
      · cases hr : requestHandoff db.conversations handoffId now cid message.messageId
            (traceOf message.messageId) with
        | error e => exact hsame _ rfl
        | ok r =>
          obtain ⟨created, conversations⟩ := r
          dsimp only
          rw [answer_tables]
          obtain ⟨request, hmake, hrequest⟩ := bind_ok hr
          unfold HandoffRequest.make at hmake
          split_ifs at hmake
          cases hmake
          exact .single (.handoff hm rfl rfl hrequest)
      · exact hsame _ (discover_tables ports db.conversations _ _ conversation)
      · exact hsame _ (answer_tables ports db.conversations _ conversation none)
      · exact hsame _ (answer_tables ports db.conversations _ conversation none)

/-- A batch of webhook messages is recorded one by one. -/
theorem recordMessages_writes {draws : ℕ → Draw} {d : Ingress.Tables}
    {messages : List InboundMessage} {statuses : List PersistStatus}
    {conversations : ConversationTables}
    (h : Ingress.recordMessages draws d.conversations messages = .ok (statuses, conversations)) :
    Writes d { d with conversations := conversations } := by
  induction messages generalizing draws d statuses with
  | nil =>
    cases h
    exact .refl
  | cons message messages ih =>
    obtain ⟨account, -, hrest⟩ := bind_ok h
    obtain ⟨⟨p, db₁⟩, hrec, hrest⟩ := bind_ok hrest
    obtain ⟨⟨rest, db₂⟩, htail, hret⟩ := bind_ok hrest
    cases hret
    have hfirst : Write d { d with conversations := db₁ } := .inbound (if_pos rfl).symm hrec
    exact Relation.ReflTransGen.head hfirst (ih (d := { d with conversations := db₁ }) htail)

end Sources

section Knowledge

/-- The job is that of a message which a webhook delivered, in its conversation. -/
structure Placed (db : ConversationTables) (job : ClaimedInbound) : Prop where
  admitted : Admitted db job.message.messageId job.conversationRecordId
    ("meta:" ++ job.message.messageId)
  conversation : ∃ c ∈ db.conversations, c.id = job.conversationRecordId ∧
    c.identity = (job.message.channel, job.channelAccountId, job.message.conversationId)

/-- The request repeats the job, and its attempt is stored. -/
structure Booked (d : DeliveryTables) (job : ClaimedInbound) (aid : Uuid)
    (request : DeliveryRequest) : Prop where
  attempt : ∃ a ∈ d.attempts, attemptLabel a =
    (aid, job.conversationRecordId, request.idempotencyKey, request.traceId)
  key : request.idempotencyKey = replyKey job.message.messageId
  recipient : request.conversationId = job.message.conversationId

/-- What a worker in this phase knows of the stored rows. -/
def Informed (db : Ingress.Tables) : Phase → Prop
  | .releasing job _ (.ok reply) | .replied job reply =>
    ReplyTrace db.conversations job.message.messageId reply.traceId
  | .posting job aid request | .awaiting job aid request => Booked db.deliveries job aid request
  | .posted _ aid result => Tried db.deliveries aid result.traceId
  | _ => True

/-- Where a request was sent: to the person whose message it answers, under an attempt
of the same conversation and trace. -/
def Addressed (db : Ingress.Tables) (request : DeliveryRequest) : Prop :=
  ∃ messageId, request.idempotencyKey = replyKey messageId ∧
    ∃ c ∈ db.conversations.conversations, c.externalConversationId = request.conversationId ∧
      Admitted db.conversations messageId c.id ("meta:" ++ messageId) ∧
      ∃ a ∈ db.deliveries.attempts, a.idempotencyKey = request.idempotencyKey ∧
        a.conversationId = c.id ∧ a.traceId = request.traceId

variable {db db' : Ingress.Tables}

theorem Placed.extends {job : ClaimedInbound} (h : Placed db.conversations job)
    (he : Extends db db') : Placed db'.conversations job := by
  obtain ⟨c, hc, hid, hident⟩ := h.conversation
  obtain ⟨c', hc', hid', hident'⟩ := he.conversation hc
  exact ⟨h.admitted.keeps he.messages, c', hc', hid'.trans hid, hident'.trans hident⟩

theorem Booked.extends {job : ClaimedInbound} {aid : Uuid} {request : DeliveryRequest}
    (h : Booked db.deliveries job aid request) (he : Extends db db') :
    Booked db'.deliveries job aid request := by
  obtain ⟨a, ha, hlabel⟩ := h.attempt
  obtain ⟨a', ha', hlabel'⟩ := he.attempt ha
  exact ⟨⟨a', ha', hlabel'.trans hlabel⟩, h.key, h.recipient⟩

theorem Booked.tried {d : DeliveryTables} {job : ClaimedInbound} {aid : Uuid}
    {request : DeliveryRequest} (h : Booked d job aid request) : Tried d aid request.traceId := by
  obtain ⟨a, ha, hlabel⟩ := h.attempt
  simp only [attemptLabel, Prod.mk.injEq] at hlabel
  exact ⟨a, ha, hlabel.1, hlabel.2.2.2⟩

theorem Informed.extends {p : Phase} (h : Informed db p) (he : Extends db db') :
    Informed db' p := by
  cases p with
  | releasing job lease outcome =>
    cases outcome with
    | error e => trivial
    | ok reply => exact ReplyTrace.keeps h he.messages
  | replied job reply => exact ReplyTrace.keeps h he.messages
  | posting job aid request | awaiting job aid request => exact Booked.extends h he
  | posted job aid result => exact Tried.extends he h
  | _ => trivial

theorem Addressed.extends {request : DeliveryRequest} (h : Addressed db request)
    (he : Extends db db') : Addressed db' request := by
  obtain ⟨messageId, hkey, c, hc, hext, hm, a, ha, hlabel⟩ := h
  obtain ⟨c', hc', hid, hident⟩ := he.conversation hc
  obtain ⟨a', ha', hsame⟩ := he.attempt ha
  simp only [attemptLabel, Prod.mk.injEq] at hsame
  simp only [ConversationRecord.identity, Prod.mk.injEq] at hident
  refine ⟨messageId, hkey, c', hc', hident.2.2.trans hext, hid ▸ hm.keeps he.messages, a', ha',
    hsame.2.2.1.trans hlabel.1, ?_, hsame.2.2.2.trans hlabel.2.2⟩
  rw [hsame.2.1, hlabel.2.1, hid]

theorem lapses_informed {p q : Phase} (h : p.Lapses q) (db : Ingress.Tables) : Informed db q := by
  cases q with
  | releasing job lease outcome =>
    cases outcome with
    | error e => trivial
    | ok reply => cases h.1
  | replied | posting | awaiting | posted => cases h.1
  | _ => trivial

/-- The sender of a booked request addresses the person of its job. -/
theorem Booked.addressed {job : ClaimedInbound} {aid : Uuid} {request : DeliveryRequest}
    (h : Booked db.deliveries job aid request) (hp : Placed db.conversations job) :
    Addressed db request := by
  obtain ⟨c, hc, hid, hident⟩ := hp.conversation
  obtain ⟨a, ha, hlabel⟩ := h.attempt
  simp only [attemptLabel, Prod.mk.injEq] at hlabel
  simp only [ConversationRecord.identity, Prod.mk.injEq] at hident
  exact ⟨job.message.messageId, h.key, c, hc, hident.2.2.trans h.recipient.symm, hid ▸ hp.admitted,
    a, ha, hlabel.2.2.1, hlabel.2.1.trans hid.symm, hlabel.2.2.2⟩

/-- A claimed job describes its message: only enqueued messages are claimed. -/
theorem claimNext_placed (hc : Consistent db) {conversations : ConversationTables} {now : Time}
    {timeout : ℕ} {locked : List Uuid} {job : ClaimedInbound}
    (h : claimNext db.conversations now timeout locked = .ok (some job, conversations)) :
    Placed db.conversations job ∧ Write db { db with conversations := conversations } := by
  rcases claimNext_ok h with ⟨hn, -⟩ | ⟨j, m, c, hj, hm, hcm, hid, hclaim, hd, rfl⟩
  · cases hn
  · cases hj
    have hstatus : m.direction = .inbound ∧ m.processingStatus ≠ none := by
      simp only [claimable, Bool.and_eq_true, Bool.or_eq_true, decide_eq_true_eq] at hclaim
      obtain ⟨hdir, ⟨hs, -⟩ | ⟨hs, -⟩⟩ := hclaim <;> exact ⟨hdir, by simp [hs]⟩
    refine ⟨⟨⟨m, hm, hstatus.1, hd.external_id, hid.symm.trans hd.conversation_id.symm, ?_⟩,
      c, hcm, hd.conversation_id.symm, ?_⟩, ?_⟩
    · cases hc.traces.messages m hm with
      | webhook hdir hext htrace hs =>
        have he := Option.some.inj (hext.symm.trans hd.external_id)
        exact he ▸ htrace
      | web hdir hext htrace hs => exact absurd hs hstatus.2
      | reply hdir hext htrace hs => exact absurd hs hstatus.2
    · simp only [ConversationRecord.identity, hd.channel, hd.account, hd.conversation]
    · refine .processing (fun _ => rfl) (fun _ => by simp [markProcessing]) ?_
      intro x hx hpx
      have hsame := hc.constraints.message_eq hx hm (by simpa using hpx)
      exact hsame ▸ hstatus.2

end Knowledge

section Moves

def tablesOf (s : Worker.State) : Ingress.Tables := ⟨s.conversations, s.deliveries.tables⟩

theorem recordReply_writes (u : Text.Unicode) (db : Ingress.Tables) (id : Uuid) (now : Time)
    (message : InboundMessage) {cid : Uuid} (text : String) (fb : Bool)
    (hm : Received db.conversations message.messageId cid) :
    Writes db { db with conversations :=
      (recordReply u db.conversations id now message cid text fb).1 } := by
  unfold recordReply
  cases hout : recordOutbound db.conversations id now cid text (traceOf message.messageId)
      (replyId message.messageId) with
  | error e => exact .refl
  | ok r => exact .single (.reply hm hout)

/-- Ending a claim rewrites the processing columns of a message that is enqueued. -/
theorem transition_writes {db : Ingress.Tables} {conversations : ConversationTables} {id : Uuid}
    {status : ProcessingStatus} {errorCode : Option ErrorCode} {availableAt : Option Time}
    (h : transition db.conversations id status errorCode availableAt = .ok ((), conversations)) :
    Writes db { db with conversations := conversations } := by
  obtain ⟨-, rfl⟩ := transition_ok h
  refine .single (.processing (fun _ => rfl) (fun _ => by simp [leaveProcessing]) ?_)
  intro m _ hactive
  rw [(of_decide_eq_true hactive).2]
  exact Option.some_ne_none _

/-- What a move of a worker writes, and what the worker knows after it. -/
theorem move_writes {s : Worker.State} {a : Action} {p q : Phase} {db : ConversationTables}
    {d : DeliveryTables} {sent : List DeliveryRequest} (h : Move cfg s a p q db d sent)
    (hc : Consistent (tablesOf s)) (hp : Informed (tablesOf s) p)
    (hj : ∀ job, p.job = some job → Placed s.conversations job) :
    Writes (tablesOf s) ⟨db, d⟩ ∧ Informed ⟨db, d⟩ q := by
  have hreceived : ∀ job, p.job = some job →
      Received s.conversations job.message.messageId job.conversationRecordId :=
    fun job he => ⟨_, (hj job he).admitted⟩
  cases h with
  | lapse hq => exact ⟨.refl, lapses_informed hq _⟩
  | acquire | fresh => exact ⟨.refl, trivial⟩
  | claim hq h =>
    refine ⟨.single (claimNext_placed hc h).2, ?_⟩
    rcases hq with rfl | hq
    · trivial
    · exact lapses_informed hq _
  | stored h => exact ⟨.refl, lookupReply_trace hc.traces.messages h⟩
  | @compose _ job _ _ history ports handoffId now hq =>
    refine ⟨composeFor_writes cfg.unicode ports (tablesOf s) handoffId now job.message history
      (hreceived job rfl), ?_⟩
    rcases hq with ⟨text, fb, rfl⟩ | hq
    · trivial
    · exact lapses_informed hq _
  | @record _ job _ _ text fb id now hq =>
    refine ⟨recordReply_writes cfg.unicode (tablesOf s) id now job.message text fb
      (hreceived job rfl), ?_⟩
    rcases hq with ⟨reply, hreply, rfl⟩ | hq
    · exact .inl (recordReply_trace hreply)
    · exact lapses_informed hq _
  | release reply => exact ⟨.refl, hp⟩
  | @created now _ job reply attemptId request attempt _ _ hrequest h hq =>
    obtain ⟨hrecipient, htrace⟩ := replyRequest_route hrequest
    have hkey := (replyRequest_content hrequest).1
    have hreply : ReplyTrace s.conversations job.message.messageId request.traceId := htrace ▸ hp
    refine ⟨.single (.attempt (hj job rfl).admitted hkey hreply h), ?_⟩
    rcases hq with rfl | hq
    · rcases DeliveryStore.claim_ok h with ⟨hfalse, -⟩ | ⟨-, rfl, -, -, rfl⟩
      · cases hfalse
      · exact ⟨⟨_, List.mem_append_right _ (List.mem_singleton_self _), rfl⟩, hkey, hrecipient⟩
    · exact lapses_informed hq _
  | replayed hrequest h hq =>
    rcases DeliveryStore.claim_ok h with ⟨-, rfl, -⟩ | ⟨htrue, -⟩
    · refine ⟨.refl, ?_⟩
      rcases hq with ⟨result, -, rfl⟩ | hq
      · trivial
      · exact lapses_informed hq _
    · cases htrue
  | invoke => exact ⟨.refl, hp⟩
  | receive h =>
    refine ⟨.refl, ?_⟩
    have htried := Booked.tried hp
    rw [← send_trace h] at htried
    exact htried
  | finalize h hq =>
    refine ⟨.single (.finalize hp h), ?_⟩
    rcases hq with rfl | hq
    · trivial
    · exact lapses_informed hq _
  | settle h hq =>
    obtain ⟨status, errorCode, availableAt, ht⟩ := settle_updates h
    exact ⟨transition_writes ht, lapses_informed hq _⟩
  | fail h hq =>
    obtain ⟨status, errorCode, availableAt, ht⟩ := fail_updates h
    exact ⟨transition_writes ht, lapses_informed hq _⟩

/-- Only a sender adds to what was sent. -/
theorem move_sent {s : Worker.State} {a : Action} {p q : Phase} {db : ConversationTables}
    {d : DeliveryTables} {sent : List DeliveryRequest} (h : Move cfg s a p q db d sent) :
    sent = s.sent ∨ ∃ job aid request, p = .posting job aid request ∧ sent = s.sent ++ [request] := by
  cases h with
  | invoke => exact .inr ⟨_, _, _, rfl, rfl⟩
  | _ => exact .inl rfl

end Moves

/-- What every process of the system knows of the stored rows. -/
structure Known (s : Worker.State) : Prop where
  tables : Consistent (tablesOf s)
  workers : ∀ w, Informed (tablesOf s) (s.workers w)
  jobs : ∀ w job, (s.workers w).job = some job → Placed s.conversations job
  callbacks : ∀ n callback attempt, Callbacks.OpenOn s.deliveries n callback attempt →
    Tried s.deliveries.tables attempt.id attempt.traceId
  sent : ∀ request ∈ s.sent, Addressed (tablesOf s) request

/-- A callback transaction commits what it read of a stored attempt. -/
theorem callback_writes {s : Worker.State} (h : Known s) {l : Callbacks.Label}
    {c : Callbacks.State} (hs : Callbacks.step s.deliveries l = some c) :
    Writes (tablesOf s) ⟨s.conversations, c.tables⟩ ∧
      ∀ n callback attempt, Callbacks.OpenOn c n callback attempt →
        Tried c.tables attempt.id attempt.traceId := by
  have hwrites : Writes (tablesOf s) ⟨s.conversations, c.tables⟩ := by
    rcases DeliveryTruth.callback_tables hs with he | ⟨n, callback, attempt, hn, he⟩
    · rw [he]
      exact .refl
    · rw [he]
      exact .single (.callback (h.callbacks n callback attempt (.inr hn)))
  refine ⟨hwrites, ?_⟩
  intro n callback attempt hopen
  have hstored : Tried s.deliveries.tables attempt.id attempt.traceId := by
    rcases DeliveryTruth.callback_open hs hopen with ho | ⟨-, hselect⟩
    · exact h.callbacks n callback attempt ho
    · exact ⟨attempt, (Callbacks.selectAttempt_mem hselect).1, rfl, rfl⟩
  exact Tried.extends hwrites.extends hstored

/-- Writes that leave the processes alone keep what they know. -/
theorem Known.writes {s t : Worker.State} (h : Known s) (hw : Writes (tablesOf s) (tablesOf t))
    (hworkers : t.workers = s.workers) (hsent : t.sent = s.sent)
    (hcallbacks : ∀ n callback attempt, Callbacks.OpenOn t.deliveries n callback attempt →
      Tried t.deliveries.tables attempt.id attempt.traceId) : Known t := by
  have he := hw.extends
  refine ⟨hw.consistent h.tables, ?_, ?_, hcallbacks, ?_⟩
  · rw [hworkers]
    exact fun w => (h.workers w).extends he
  · rw [hworkers]
    exact fun w job hj => (h.jobs w job hj).extends he
  · rw [hsent]
    exact fun request hr => (h.sent request hr).extends he

/-- One step of the workers, the webhooks and the callbacks. -/
theorem known_step {s t : Worker.State} {l : Worker.Label} (h : Known s)
    (hs : Worker.step cfg s l = some t) : Writes (tablesOf s) (tablesOf t) ∧ Known t := by
  have hkeep : ∀ (d : DeliveryTables), Extends (tablesOf s) ⟨t.conversations, d⟩ →
      ∀ n callback attempt, Callbacks.OpenOn s.deliveries n callback attempt →
        Tried d attempt.id attempt.traceId :=
    fun d he n callback attempt ho => Tried.extends he (h.callbacks n callback attempt ho)
  cases step_stepped hs with
  | refused => exact ⟨.refl, h⟩
  | @recorded _ _ _ db hr =>
    have hw : Writes (tablesOf s) ⟨db, s.deliveries.tables⟩ := recordMessages_writes hr
    exact ⟨hw, h.writes hw rfl rfl (hkeep _ hw.extends)⟩
  | callback hd =>
    obtain ⟨hw, hopen⟩ := callback_writes h hd
    exact ⟨hw, h.writes hw rfl rfl hopen⟩
  | expire => exact ⟨.refl, h.writes .refl rfl rfl h.callbacks⟩
  | @worker w a q db d sent locks hact hmove =>
    obtain ⟨hw, hq⟩ := move_writes hmove h.tables (h.workers w) (h.jobs w)
    have he := hw.extends
    refine ⟨hw, hw.consistent h.tables, ?_, ?_, hkeep _ he, ?_⟩
    · intro w'
      by_cases hsame : w' = w
      · subst hsame
        simp only [State.moved, Function.update_self]
        exact hq
      · simp only [State.moved, Function.update_of_ne hsame]
        exact (h.workers w').extends he
    · intro w' job hj
      by_cases hsame : w' = w
      · subst hsame
        simp only [State.moved, Function.update_self] at hj
        rcases hmove.job hj with hp | ⟨-, now, locked, hclaim⟩
        · exact (h.jobs w' job hp).extends he
        · exact (claimNext_placed h.tables hclaim).1.extends he
      · simp only [State.moved, Function.update_of_ne hsame] at hj
        exact (h.jobs w' job hj).extends he
    · intro request hr
      rcases move_sent hmove with rfl | ⟨job, aid, posted, hp, rfl⟩
      · exact (h.sent request hr).extends he
      · rcases List.mem_append.mp hr with hr | hr
        · exact (h.sent request hr).extends he
        · have hbooked := h.workers w
          rw [hp] at hbooked
          rw [List.mem_singleton.mp hr]
          exact (Booked.addressed hbooked (h.jobs w job (by rw [hp]; rfl))).extends he

section Calls
open HandoffPause Turns

/-- What a call of `respond` knows of the stored rows. -/
def CallInformed (db : ConversationTables) (message : InboundMessage) : Progress → Prop
  | .opened cid _ | .composed cid _ _ => Received db message.messageId cid
  | _ => True

theorem CallInformed.keeps {db db' : ConversationTables} {message : InboundMessage} {p : Progress}
    (h : CallInformed db message p) (hk : Keeps db db') : CallInformed db' message p := by
  cases p with
  | opened cid history => exact Received.keeps h hk
  | composed cid text fb => exact Received.keeps h hk
  | begun | ended => trivial

theorem CallInformed.acknowledged {db : ConversationTables} {message : InboundMessage} {p : Progress}
    (h : CallInformed db message p) (acked : Bool) :
    CallInformed db message (p.acknowledged acked) := by
  cases acked with
  | true => exact h
  | false => trivial

/-- A call that is opened has recorded its message in its conversation. -/
theorem openCall_received {u : Text.Unicode} {db db' : ConversationTables} {draw : Draw}
    {account : String} {message : InboundMessage} {cid : Uuid} {history : List MessageRecord}
    (h : openCall u db draw account message = .ok (.opened cid history, db')) :
    Received db' message.messageId cid := by
  unfold openCall at h
  obtain ⟨⟨p, db₁⟩, henroll, hrest⟩ := bind_ok h
  dsimp only at hrest
  obtain ⟨db₂, hup, hins⟩ := recordInbound_ok (Isolation.enroll_recorded henroll)
  cases hs : p.status with
  | duplicate =>
    simp only [hs] at hrest
    cases hf : findReply db₁ message.messageId with
    | none => simp [hf] at hrest
    | some existing =>
      simp only [hf] at hrest
      obtain ⟨r, -, hret⟩ := bind_ok hrest
      cases hret
  | created =>
    simp only [hs] at hrest
    obtain ⟨rows, -, hret⟩ := bind_ok hrest
    cases hret
    rcases hins with ⟨hdup, -⟩ | ⟨-, -, -, rfl⟩
    · rw [hs] at hdup
      cases hdup
    · exact ⟨_, _, List.mem_append_right _ (List.mem_singleton_self _), rfl, rfl, rfl, rfl⟩

/-- What one step of a call writes, and what the call knows after it. -/
theorem advance_writes {u : Text.Unicode} {d : Ingress.Tables} {message : InboundMessage}
    {account : String} {p p' : Progress} {session : Session} {conversations : ConversationTables}
    (h : advance u (.respond message account) d.conversations p session = some (conversations, p'))
    (hp : CallInformed d.conversations message p) :
    Writes d { d with conversations := conversations } ∧
      CallInformed conversations message p' := by
  cases p with
  | begun =>
    cases session with
    | first draw acked =>
      simp only [advance, firstSession] at h
      cases hopen : openCall u d.conversations draw account message with
      | error e =>
        rw [hopen, error_bind] at h
        cases h
        exact ⟨.refl, trivial⟩
      | ok r =>
        obtain ⟨o, db₁⟩ := r
        obtain ⟨persisted, henroll⟩ := Isolation.openCall_admitted hopen
        have hw : Write d { d with conversations := db₁ } :=
          .inbound (if_neg Bool.false_ne_true).symm (Isolation.enroll_recorded henroll)
        cases o with
        | answered reply =>
          rw [hopen, ok_bind] at h
          cases h
          refine ⟨.single hw, CallInformed.acknowledged ?_ acked⟩
          trivial
        | opened cid history =>
          rw [hopen, ok_bind] at h
          cases h
          refine ⟨.single hw, CallInformed.acknowledged ?_ acked⟩
          exact openCall_received hopen
    | raise e =>
      cases h
      exact ⟨.refl, trivial⟩
    | compose | last => cases h
  | opened cid history =>
    cases session with
    | compose ports handoffId now acked =>
      have hw := composeFor_writes u ports d handoffId now message history hp
      simp only [advance, Invocation.message] at h
      split at h
      · cases h
        exact ⟨hw, trivial⟩
      · cases h
        refine ⟨hw, CallInformed.acknowledged ?_ acked⟩
        exact Received.keeps hp hw.extends.messages
    | raise e =>
      cases h
      exact ⟨.refl, trivial⟩
    | first | last => cases h
  | composed cid text fb =>
    cases session with
    | last id now acked =>
      have hw := recordReply_writes u d id now message text fb hp
      simp only [advance, Invocation.message] at h
      split at h
      · cases h
        exact ⟨hw, trivial⟩
      · cases h
        refine ⟨hw, CallInformed.acknowledged ?_ acked⟩
        trivial
    | raise e =>
      cases h
      exact ⟨.refl, trivial⟩
    | first | compose => cases h
  | ended outcome => cases session <;> cases h

/-- What is known in every state of the whole system. -/
structure SystemKnown (s : HandoffPause.State) : Prop where
  base : Known s.base
  calls : ∀ n message account scope token p,
    s.web n = .running message account scope token p → CallInformed s.base.conversations message p

theorem SystemKnown.setWeb {s : HandoffPause.State} (h : SystemKnown s) (n : ℕ) {c : WebCall}
    (hc : ∀ message account scope token p, c = .running message account scope token p →
      CallInformed s.base.conversations message p) : SystemKnown (s.setWeb n c) := by
  refine ⟨h.base, ?_⟩
  intro m message account scope token p hp
  by_cases he : m = n
  · subst he
    exact hc message account scope token p (by simpa [State.setWeb] using hp)
  · exact h.calls m message account scope token p (by simpa [State.setWeb, he] using hp)

/-- Taking or giving up a lock changes nothing that is known. -/
theorem SystemKnown.setLock {s : HandoffPause.State} (h : SystemKnown s) (scope : ConversationScope)
    (lock : Option ℕ) : SystemKnown (s.withBase (s.base.setLock scope lock)) :=
  ⟨h.base.writes .refl rfl rfl h.base.callbacks, h.calls⟩

/-- One step of the whole system. -/
theorem system_step {s t : HandoffPause.State} {l : HandoffPause.Label} (h : SystemKnown s)
    (hs : HandoffPause.step cfg s l = some t) :
    Writes (tablesOf s.base) (tablesOf t.base) ∧ SystemKnown t := by
  cases l with
  | base l =>
    obtain ⟨b, hb, rfl⟩ := Option.map_eq_some_iff.mp hs
    obtain ⟨hw, hknown⟩ := known_step h.base hb
    refine ⟨hw, hknown, ?_⟩
    intro n message account scope token p hp
    exact (h.calls n message account scope token p hp).keeps hw.extends.messages
  | call n message account token reachable =>
    simp only [HandoffPause.step] at hs
    split at hs
    · cases hs
    · split at hs
      · cases hs
        exact ⟨.refl, h⟩
      · split_ifs at hs
        · rename_i scope _ _
          cases hs
          refine ⟨.refl, (h.setLock scope (some token)).setWeb n ?_⟩
          intro message' account' scope' token' p hp
          cases hp
          trivial
        · cases hs
          exact ⟨.refl, h⟩
  | session n session =>
    simp only [HandoffPause.step] at hs
    split at hs
    · cases hs
    · rename_i message account scope token p hweb
      split at hs
      · cases hs
      · rename_i db p' hadv
        cases hs
        obtain ⟨hw, hp'⟩ := advance_writes (d := tablesOf s.base) hadv
          (h.calls n message account scope token p hweb)
        have hbase : Known (s.base.withConversations db) :=
          h.base.writes hw rfl rfl h.base.callbacks
        refine ⟨hw, hbase, ?_⟩
        intro m message' account' scope' token' q hq
        by_cases he : m = n
        · subst he
          have hrun : WebCall.running message account scope token p' =
              .running message' account' scope' token' q := by
            simpa [State.setWeb] using hq
          cases hrun
          exact hp'
        · have hold : s.web m = .running message' account' scope' token' q := by
            simpa [State.setWeb, State.withBase, he] using hq
          exact (h.calls m message' account' scope' token' q hold).keeps hw.extends.messages
  | leave n reachable =>
    simp only [HandoffPause.step] at hs
    split at hs
    · rename_i scope token outcome _
      cases hs
      split_ifs
      · exact ⟨.refl, (h.setLock scope none).setWeb n fun _ _ _ _ _ hidle => by cases hidle⟩
      · exact ⟨.refl, h.setWeb n fun _ _ _ _ _ hidle => by cases hidle⟩
    · cases hs
  | crash n =>
    cases hs
    exact ⟨.refl, h.setWeb n fun _ _ _ _ _ hidle => by cases hidle⟩

theorem system_start : SystemKnown (HandoffPause.start .empty .empty) where
  base := {
    tables := consistent_empty
    workers := fun _ => trivial
    jobs := fun _ _ hj => by cases hj
    callbacks := fun _ _ _ ho => by rcases ho with ho | ho <;> cases ho
    sent := List.forall_mem_nil _ }
  calls := fun _ _ _ _ _ _ hp => by cases hp

theorem system_reachable {t : HandoffPause.State} {schedule : List HandoffPause.Label}
    (hrun : exec (HandoffPause.step cfg) (HandoffPause.start .empty .empty) schedule = some t) :
    SystemKnown t :=
  exec_invariant (fun _ _ _ hi hs => (system_step hi hs).2) system_start hrun

/-- What a run of the whole system does to the tables is a sequence of writes. -/
theorem system_writes {s t : HandoffPause.State} {schedule : List HandoffPause.Label}
    (h : SystemKnown s) (hrun : exec (HandoffPause.step cfg) s schedule = some t) :
    Writes (tablesOf s.base) (tablesOf t.base) := by
  induction schedule generalizing s with
  | nil =>
    cases hrun
    exact .refl
  | cons l schedule ih =>
    obtain ⟨v, hv, hrest⟩ := exec_cons_some.mp hrun
    obtain ⟨hw, hknown⟩ := system_step h hv
    exact hw.trans (ih hknown hrest)

end Calls

end Piki.System
