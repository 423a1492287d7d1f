import Piki.DeliveryCallbacks
import Piki.DeliveryService
import Piki.Ingress
import Piki.Orchestrator
import Piki.Processing

/-! `ConversationProcessingWorker.process_once` of `conversation/worker.py`, run by any
number of workers beside webhook deliveries and status callbacks. A step is one
database session, one Redis command or one call of the delivery adapter. -/
namespace Piki.Worker
open Transition ConversationOrchestrator MessageProcessingStore

/-- The settings that the worker reads, and what it takes from outside: the character
data, and `type(error).__name__.casefold()`. -/
structure Config where
  claimTimeoutSeconds : ℕ
  maxAttempts : ℕ
  unicode : Text.Unicode
  errorName : Failure → String

/-- A lock that `acquire` granted. -/
structure Lease where
  scope : ConversationScope
  token : ℕ

/-- Where a worker stands: what the next `await` of `process_once` needs. -/
inductive Phase
  | idle
  | claimed (job : ClaimedInbound)
  | locked (job : ClaimedInbound) (lease : Lease)
  | opened (job : ClaimedInbound) (lease : Lease) (history : List MessageRecord)
  | composed (job : ClaimedInbound) (lease : Lease) (text : String) (usedFallback : Bool)
  | releasing (job : ClaimedInbound) (lease : Lease) (outcome : Except Failure ConversationReply)
  | replied (job : ClaimedInbound) (reply : ConversationReply)
  | posting (job : ClaimedInbound) (attemptId : Uuid) (request : DeliveryRequest)
  | awaiting (job : ClaimedInbound) (attemptId : Uuid) (request : DeliveryRequest)
  | posted (job : ClaimedInbound) (attemptId : Uuid) (result : DeliveryResult)
  | settling (job : ClaimedInbound) (result : DeliveryResult)
  | failing (job : ClaimedInbound) (errorCode : ErrorCode) (retry : Bool)
  | stopped

/-- `sent` lists the requests that the delivery adapter was called with. -/
structure State where
  conversations : ConversationTables
  deliveries : Callbacks.State
  locks : ConversationScope → Option ℕ
  workers : ℕ → Phase
  sent : List DeliveryRequest

/-- What one worker does next. A session that is not acknowledged is committed, but
the worker sees an error. -/
inductive Action
  | claim (now : Time) (locked : List Uuid) (acked : Bool)
  | acquire (token : ℕ) (reachable : Bool)
  | lookup
  | compose (ports : Ports) (handoffId : Uuid) (now : Time) (acked : Bool)
  | record (id : Uuid) (now : Time) (acked : Bool)
  | release (reachable : Bool)
  | deliver (attemptId : Uuid) (now : Time) (acked : Bool)
  | invoke
  | receive (provider : MetaBody → PostOutcome)
  | finalize (now : Time) (acked : Bool)
  | settle (now : Time) (acked : Bool)
  | fail (now : Time) (acked : Bool)
  | disturb
  | crash

inductive Label
  | ingest (draws : ℕ → Draw) (messages : List InboundMessage)
  | callback (l : Callbacks.Label)
  | expire (scope : ConversationScope)
  | worker (w : ℕ) (action : Action)

/-- The `except` clauses of `process_once`. -/
def caught (cfg : Config) (job : ClaimedInbound) (e : Failure) : Phase :=
  let code := match e with
    | .busy _ => ⟨"conversation_busy", by decide⟩
    | e => ErrorCode.clip (cfg.errorName e)
  .failing job code (decide (job.attempts < cfg.maxAttempts))

/-- Where an exception leads: through the `finally` that releases the lock, to the
`except` clauses, or out of `process_once`. -/
def Phase.raised (cfg : Config) (e : Failure) : Phase → Phase
  | .idle | .failing _ _ _ | .stopped => .stopped
  | .locked job lease | .opened job lease _ | .composed job lease _ _ =>
    .releasing job lease (.error e)
  | .claimed job | .releasing job _ _ | .replied job _ | .posting job _ _ | .awaiting job _ _
  | .posted job _ _ | .settling job _ => caught cfg job e

def State.put (s : State) (w : ℕ) (p : Phase) : State :=
  { s with workers := Function.update s.workers w p }

def State.raise (cfg : Config) (s : State) (w : ℕ) (e : Failure) : State :=
  s.put w ((s.workers w).raised cfg e)

/-- A committed session answers the worker, or its answer is lost. -/
def State.answer (cfg : Config) (s : State) (w : ℕ) (acked : Bool) (p : Phase) : State :=
  if acked then s.put w p else s.raise cfg w (.database .unavailable)

def State.withConversations (s : State) (db : ConversationTables) : State :=
  { s with conversations := db }

def State.withDeliveries (s : State) (db : DeliveryTables) : State :=
  { s with deliveries := s.deliveries.withTables db }

def State.setLock (s : State) (scope : ConversationScope) (lock : Option ℕ) : State :=
  { s with locks := Function.update s.locks scope lock }

def replyKey (messageId : String) : String := "reply:" ++ messageId

theorem replyKey_injective {a b : String} (h : replyKey a = replyKey b) : a = b :=
  String.append_right_inj "reply:" |>.mp h

/-- The start of `respond_persisted`, up to the lock. -/
def scopeOf (job : ClaimedInbound) : Except Failure ConversationScope := do
  emit (traceOf job.message.messageId) "conversation_worker"
  ConversationScope.make job.message.channel job.channelAccountId job.message.conversationId

/-- 24 hours in microseconds. -/
def windowMicroseconds : ℤ := 24 * 60 * 60 * 1000000

def serviceWindow (now : Time) (job : ClaimedInbound) : CustomerServiceWindow :=
  if now - job.message.receivedAt ≤ windowMicroseconds then .open else .unknown

def replyRequest (now : Time) (job : ClaimedInbound) (reply : ConversationReply) :
    Except Failure DeliveryRequest :=
  DeliveryRequest.make (replyKey job.message.messageId) job.message.conversationId
    ⟨.text, some reply.text, none, [], none, none, []⟩ (serviceWindow now job) reply.traceId

theorem replyRequest_content {now : Time} {job : ClaimedInbound} {reply : ConversationReply}
    {request : DeliveryRequest} (h : replyRequest now job reply = .ok request) :
    request.idempotencyKey = replyKey job.message.messageId ∧
      request.content.text = some reply.text ∧
      request.customerServiceWindow = serviceWindow now job := by
  unfold replyRequest DeliveryRequest.make at h
  split_ifs at h
  cases h
  exact ⟨rfl, rfl, rfl⟩

/-- `result.error_code or "delivery_failed"`. -/
def resultCode (result : DeliveryResult) : ErrorCode :=
  match h : result.errorCode with
  | some code =>
    if code = "" then ⟨"delivery_failed", by decide⟩
    else ⟨code, result.errorCode_bounded code h⟩
  | none => ⟨"delivery_failed", by decide⟩

/-- The end of a job with a delivery result. -/
def settleJob (db : ConversationTables) (now : Time) (job : ClaimedInbound)
    (result : DeliveryResult) : Except Failure (Unit × ConversationTables) :=
  if result.status.isError then fail db now job.messageRecordId (resultCode result) false
  else complete db job.messageRecordId

/-- The first half of `IdempotentDeliveryService.send`: the attempt is claimed, and
only its creator goes on to the adapter. -/
def deliver (cfg : Config) (s : State) (w : ℕ) (attemptId : Uuid) (acked : Bool)
    (job : ClaimedInbound) (request : DeliveryRequest) : State :=
  match DeliveryStore.claim s.deliveries.tables attemptId job.conversationRecordId request with
  | .error e => s.raise cfg w e
  | .ok (claim, db) =>
    let s := s.withDeliveries db
    if claim.created then s.answer cfg w acked (.posting job claim.attempt.id request)
    else match IdempotentDeliveryService.existingResult claim.attempt with
      | .error e => s.raise cfg w e
      | .ok result => s.answer cfg w acked (.settling job result)

def act (cfg : Config) (s : State) (w : ℕ) : Action → Option State
  | .claim now locked acked =>
    match s.workers w with
    | .idle =>
      match claimNext s.conversations now cfg.claimTimeoutSeconds locked with
      | .error e => some (s.raise cfg w e)
      | .ok (none, _) => some s
      | .ok (some job, db) => some ((s.withConversations db).answer cfg w acked (.claimed job))
    | _ => none
  | .acquire token reachable =>
    match s.workers w with
    | .claimed job =>
      match scopeOf job with
      | .error e => some (s.raise cfg w e)
      | .ok scope =>
        if reachable = true ∧ s.locks scope = none then
          some ((s.setLock scope (some token)).put w (.locked job ⟨scope, token⟩))
        else some (s.raise cfg w (.busy "conversation is already being processed"))
    | _ => none
  | .lookup =>
    match s.workers w with
    | .locked job lease =>
      match lookupReply cfg.unicode s.conversations job.message job.conversationRecordId with
      | .error e => some (s.raise cfg w e)
      | .ok (.stored reply) => some (s.put w (.releasing job lease (.ok reply)))
      | .ok (.fresh history) => some (s.put w (.opened job lease history))
    | _ => none
  | .compose ports handoffId now acked =>
    match s.workers w with
    | .opened job lease history =>
      let turn := composeFor cfg.unicode ports s.conversations handoffId now job.message
        job.conversationRecordId history
      match turn.reply with
      | .error e => some ((s.withConversations turn.tables).raise cfg w e)
      | .ok (text, fb) =>
        some ((s.withConversations turn.tables).answer cfg w acked (.composed job lease text fb))
    | _ => none
  | .record id now acked =>
    match s.workers w with
    | .composed job lease text fb =>
      let stored := recordReply cfg.unicode s.conversations id now job.message
        job.conversationRecordId text fb
      match stored.2 with
      | .error e => some ((s.withConversations stored.1).raise cfg w e)
      | .ok reply =>
        some ((s.withConversations stored.1).answer cfg w acked (.releasing job lease (.ok reply)))
    | _ => none
  | .release reachable =>
    match s.workers w with
    | .releasing job lease outcome =>
      let s := if reachable = true ∧ s.locks lease.scope = some lease.token then
        s.setLock lease.scope none else s
      match outcome with
      | .error e => some (s.put w (caught cfg job e))
      | .ok reply => some (s.put w (.replied job reply))
    | _ => none
  | .deliver attemptId now acked =>
    match s.workers w with
    | .replied job reply =>
      match replyRequest now job reply with
      | .error e => some (s.raise cfg w e)
      | .ok request => some (deliver cfg s w attemptId acked job request)
    | _ => none
  | .invoke =>
    match s.workers w with
    | .posting job attemptId request =>
      some { (s.put w (.awaiting job attemptId request)) with sent := s.sent ++ [request] }
    | _ => none
  | .receive provider =>
    match s.workers w with
    | .awaiting job attemptId request =>
      match (MetaDeliveryAdapter.send provider request).2 with
      | .error e => some (s.raise cfg w e)
      | .ok result => some (s.put w (.posted job attemptId result))
    | _ => none
  | .finalize now acked =>
    match s.workers w with
    | .posted job attemptId result =>
      match DeliveryStore.finalize s.deliveries.tables now attemptId result with
      | .error e => some (s.raise cfg w e)
      | .ok (_, db) => some ((s.withDeliveries db).answer cfg w acked (.settling job result))
    | _ => none
  | .settle now acked =>
    match s.workers w with
    | .settling job result =>
      match settleJob s.conversations now job result with
      | .error e => some (s.raise cfg w e)
      | .ok (_, db) => some ((s.withConversations db).answer cfg w acked .idle)
    | _ => none
  | .fail now acked =>
    match s.workers w with
    | .failing job errorCode retry =>
      match fail s.conversations now job.messageRecordId errorCode retry with
      | .error e => some (s.raise cfg w e)
      | .ok (_, db) => some ((s.withConversations db).answer cfg w acked .idle)
    | _ => none
  | .disturb =>
    match s.workers w with
    | .releasing _ _ _ => none
    | _ => some (s.raise cfg w (.database .unavailable))
  | .crash => some (s.put w .idle)

def step (cfg : Config) (s : State) : Label → Option State
  | .ingest draws messages =>
    match Ingress.recordMessages draws s.conversations messages with
    | .error _ => some s
    | .ok (_, db) => some (s.withConversations db)
  | .callback l => (Callbacks.step s.deliveries l).map fun d => { s with deliveries := d }
  | .expire scope => some (s.setLock scope none)
  | .worker w action => act cfg s w action

/-- No worker is busy, no callback is open and nothing was sent yet. -/
def start (conversations : ConversationTables) (deliveries : DeliveryTables) : State :=
  ⟨conversations, Callbacks.start deliveries, fun _ => none, fun _ => .idle, []⟩

/-- Phases that owe nothing: the job is over, or it will be reported as failed. -/
def Phase.Spent : Phase → Prop
  | .idle | .failing _ _ _ | .stopped | .releasing _ _ (.error _) => True
  | _ => False

/-- The job that a worker holds. -/
def Phase.job : Phase → Option ClaimedInbound
  | .idle | .stopped => none
  | .claimed job | .locked job _ | .opened job _ _ | .composed job _ _ _ | .releasing job _ _
  | .replied job _ | .posting job _ _ | .awaiting job _ _ | .posted job _ _ | .settling job _
  | .failing job _ _ => some job

/-- The worker gives up its work, but takes up no other job. -/
def Phase.Lapses (p q : Phase) : Prop := q.Spent ∧ (q.job = none ∨ q.job = p.job)

theorem Phase.raised_lapses (cfg : Config) (e : Failure) (p : Phase) :
    p.Lapses (p.raised cfg e) := by
  cases p <;> refine ⟨trivial, ?_⟩ <;> first | exact .inl rfl | exact .inr rfl

theorem Phase.lapses_idle (p : Phase) : p.Lapses .idle := ⟨trivial, .inl rfl⟩

/-- What one step of a worker can do to its phase, to the tables and to the requests
that were sent. Where a session is committed, the worker goes on or sees an error. -/
inductive Move (cfg : Config) (s : State) :
    Action → Phase → Phase → ConversationTables → DeliveryTables → List DeliveryRequest → Prop
  | lapse {q : Phase} {a : Action} {p : Phase} (hq : p.Lapses q) :
    Move cfg s a p q s.conversations s.deliveries.tables s.sent
  | claim {now : Time} {acked : Bool} {job : ClaimedInbound} {q : Phase}
      {locked : List Uuid} {db : ConversationTables}
      (hq : q = .claimed job ∨ Phase.Lapses .idle q)
      (h : claimNext s.conversations now cfg.claimTimeoutSeconds locked = .ok (some job, db)) :
    Move cfg s (.claim now locked acked) .idle q db s.deliveries.tables s.sent
  | acquire {reachable : Bool} {job : ClaimedInbound} {token : ℕ} (lease : Lease) :
    Move cfg s (.acquire token reachable) (.claimed job) (.locked job lease)
      s.conversations s.deliveries.tables s.sent
  | stored {job : ClaimedInbound} {lease : Lease} {reply : ConversationReply}
      (h : lookupReply cfg.unicode s.conversations job.message job.conversationRecordId =
        .ok (.stored reply)) :
    Move cfg s .lookup (.locked job lease) (.releasing job lease (.ok reply))
      s.conversations s.deliveries.tables s.sent
  | fresh {job : ClaimedInbound} {lease : Lease} (history : List MessageRecord) :
    Move cfg s .lookup (.locked job lease) (.opened job lease history)
      s.conversations s.deliveries.tables s.sent
  | compose {acked : Bool} {job : ClaimedInbound} {lease : Lease} {q : Phase}
      {history : List MessageRecord} (ports : Ports) (handoffId : Uuid) (now : Time)
      (hq : (∃ text fb, q = .composed job lease text fb) ∨
        (Phase.opened job lease history).Lapses q) :
    Move cfg s (.compose ports handoffId now acked) (.opened job lease history) q
      (composeFor cfg.unicode ports s.conversations handoffId now job.message
        job.conversationRecordId history).tables s.deliveries.tables s.sent
  | record {acked : Bool} {job : ClaimedInbound} {lease : Lease} {q : Phase}
      {text : String} {fb : Bool} (id : Uuid) (now : Time)
      (hq : (∃ reply, (recordReply cfg.unicode s.conversations id now job.message
          job.conversationRecordId text fb).2 = .ok reply ∧ q = .releasing job lease (.ok reply)) ∨
        (Phase.composed job lease text fb).Lapses q) :
    Move cfg s (.record id now acked) (.composed job lease text fb) q
      (recordReply cfg.unicode s.conversations id now job.message job.conversationRecordId text
        fb).1 s.deliveries.tables s.sent
  | release {reachable : Bool} {job : ClaimedInbound} {lease : Lease}
      (reply : ConversationReply) :
    Move cfg s (.release reachable) (.releasing job lease (.ok reply)) (.replied job reply)
      s.conversations s.deliveries.tables s.sent
  | created {now : Time} {acked : Bool} {job : ClaimedInbound} {reply : ConversationReply}
      {attemptId : Uuid} {request : DeliveryRequest} {attempt : DeliveryAttemptSnapshot}
      {q : Phase} {db : DeliveryTables} (hrequest : replyRequest now job reply = .ok request)
      (h : DeliveryStore.claim s.deliveries.tables attemptId job.conversationRecordId request =
        .ok (⟨true, attempt⟩, db))
      (hq : q = .posting job attempt.id request ∨ (Phase.replied job reply).Lapses q) :
    Move cfg s (.deliver attemptId now acked) (.replied job reply) q s.conversations db s.sent
  | replayed {now : Time} {acked : Bool} {job : ClaimedInbound} {reply : ConversationReply}
      {attemptId : Uuid} {request : DeliveryRequest} {attempt : DeliveryAttemptSnapshot}
      {q : Phase} {db : DeliveryTables} (hrequest : replyRequest now job reply = .ok request)
      (h : DeliveryStore.claim s.deliveries.tables attemptId job.conversationRecordId request =
        .ok (⟨false, attempt⟩, db))
      (hq : (∃ result, IdempotentDeliveryService.existingResult attempt = .ok result ∧
        q = .settling job result) ∨ (Phase.replied job reply).Lapses q) :
    Move cfg s (.deliver attemptId now acked) (.replied job reply) q s.conversations db s.sent
  | invoke {job : ClaimedInbound} {attemptId : Uuid} {request : DeliveryRequest} :
    Move cfg s .invoke (.posting job attemptId request) (.awaiting job attemptId request)
      s.conversations s.deliveries.tables (s.sent ++ [request])
  | receive {job : ClaimedInbound} {attemptId : Uuid} {request : DeliveryRequest}
      {result : DeliveryResult} {provider : MetaBody → PostOutcome}
      (h : (MetaDeliveryAdapter.send provider request).2 = .ok result) :
    Move cfg s (.receive provider) (.awaiting job attemptId request) (.posted job attemptId result)
      s.conversations s.deliveries.tables s.sent
  | finalize {now : Time} {acked : Bool} {job : ClaimedInbound} {attemptId : Uuid}
      {result : DeliveryResult} {q : Phase} {db : DeliveryTables}
      (h : DeliveryStore.finalize s.deliveries.tables now attemptId result = .ok ((), db))
      (hq : q = .settling job result ∨ (Phase.posted job attemptId result).Lapses q) :
    Move cfg s (.finalize now acked) (.posted job attemptId result) q s.conversations db s.sent
  | settle {now : Time} {acked : Bool} {job : ClaimedInbound} {result : DeliveryResult}
      {q : Phase} {db : ConversationTables}
      (h : settleJob s.conversations now job result = .ok ((), db))
      (hq : (Phase.settling job result).Lapses q) :
    Move cfg s (.settle now acked) (.settling job result) q db s.deliveries.tables s.sent
  | fail {now : Time} {acked : Bool} {job : ClaimedInbound} {q : Phase}
      {errorCode : ErrorCode} {retry : Bool} {db : ConversationTables}
      (h : MessageProcessingStore.fail s.conversations now job.messageRecordId errorCode retry =
        .ok ((), db))
      (hq : (Phase.failing job errorCode retry).Lapses q) :
    Move cfg s (.fail now acked) (.failing job errorCode retry) q db s.deliveries.tables s.sent


/-- The state after a move of worker `w`. -/
def State.moved (s : State) (w : ℕ) (q : Phase) (db : ConversationTables) (d : DeliveryTables)
    (locks : ConversationScope → Option ℕ) (sent : List DeliveryRequest) : State :=
  ⟨db, s.deliveries.withTables d, locks, Function.update s.workers w q, sent⟩

theorem State.raise_put (cfg : Config) {s : State} {w : ℕ} {p : Phase} (hp : s.workers w = p)
    (e : Failure) : ∃ q, p.Lapses q ∧ s.raise cfg w e = s.put w q :=
  ⟨_, hp ▸ Phase.raised_lapses cfg e _, rfl⟩

theorem State.answer_put (cfg : Config) {s : State} {w : ℕ} {p : Phase} (hp : s.workers w = p)
    (acked : Bool) (p' : Phase) :
    ∃ q, (q = p' ∨ p.Lapses q) ∧ s.answer cfg w acked p' = s.put w q := by
  cases acked with
  | true => exact ⟨p', .inl rfl, rfl⟩
  | false => exact ⟨_, .inr (hp ▸ Phase.raised_lapses cfg _ _), rfl⟩

/-- Action `a` of worker `w` leads to `t`. -/
def Moved (cfg : Config) (s : State) (w : ℕ) (a : Action) (t : State) : Prop :=
  ∃ q db d locks sent, Move cfg s a (s.workers w) q db d sent ∧ t = s.moved w q db d locks sent

theorem moved_raise (cfg : Config) (s : State) (w : ℕ) (a : Action) (e : Failure) :
    Moved cfg s w a (s.raise cfg w e) :=
  ⟨_, _, _, _, _, .lapse (Phase.raised_lapses cfg e _), rfl⟩

theorem deliver_moved {cfg : Config} {s : State} {w : ℕ} {attemptId : Uuid} {acked : Bool}
    {job : ClaimedInbound} {reply : ConversationReply} {now : Time} {request : DeliveryRequest}
    (hp : s.workers w = .replied job reply) (hrequest : replyRequest now job reply = .ok request) :
    Moved cfg s w (.deliver attemptId now acked) (deliver cfg s w attemptId acked job request) := by
  unfold deliver
  cases hc : DeliveryStore.claim s.deliveries.tables attemptId job.conversationRecordId request with
  | error e => exact moved_raise cfg s w _ e
  | ok r =>
    obtain ⟨⟨created, attempt⟩, db⟩ := r
    unfold Moved
    rw [hp]
    cases created with
    | true =>
      have hs : (s.withDeliveries db).workers w = _ := hp
      obtain ⟨q, hq, he⟩ := State.answer_put cfg hs acked (.posting job attempt.id request)
      exact ⟨q, _, _, _, _, .created hrequest hc hq, he⟩
    | false =>
      cases hr : IdempotentDeliveryService.existingResult attempt with
      | error e =>
        have hs : (s.withDeliveries db).workers w = _ := hp
        obtain ⟨q, hq, he⟩ := State.raise_put cfg hs e
        simp only [hr, Bool.false_eq_true, if_false]
        exact ⟨q, _, _, _, _, .replayed hrequest hc (.inr hq), he⟩
      | ok result =>
        have hs : (s.withDeliveries db).workers w = _ := hp
        obtain ⟨q, hq, he⟩ := State.answer_put cfg hs acked (.settling job result)
        simp only [hr, Bool.false_eq_true, if_false]
        refine ⟨q, _, _, _, _, .replayed hrequest hc ?_, he⟩
        exact hq.imp_left fun h => ⟨result, hr, h⟩

section Actions
variable {cfg : Config} {s t : State} {w : ℕ}

theorem act_claim {now : Time} {locked : List Uuid} {acked : Bool}
    (h : act cfg s w (.claim now locked acked) = some t) :
    Moved cfg s w (.claim now locked acked) t := by
  simp only [act] at h
  split at h
  · rename_i hp
    cases hc : claimNext s.conversations now cfg.claimTimeoutSeconds locked with
    | error e =>
      simp only [hc] at h
      cases h
      exact moved_raise cfg s w _ e
    | ok r =>
      obtain ⟨job, db⟩ := r
      cases job with
      | none =>
        simp only [hc] at h
        cases h
        refine ⟨.idle, _, _, s.locks, _, .lapse (Phase.lapses_idle _), ?_⟩
        rw [State.moved, ← hp, Function.update_eq_self]
        rfl
      | some job =>
        simp only [hc] at h
        cases h
        have hs : (s.withConversations db).workers w = _ := hp
        obtain ⟨q, hq, he⟩ := State.answer_put cfg hs acked (.claimed job)
        unfold Moved
        rw [hp]
        exact ⟨q, _, _, _, _, .claim hq hc, he⟩
  · cases h

theorem act_acquire {token : ℕ} {reachable : Bool}
    (h : act cfg s w (.acquire token reachable) = some t) :
    Moved cfg s w (.acquire token reachable) t := by
  simp only [act] at h
  split at h
  · rename_i job hp
    cases hc : scopeOf job with
    | error e =>
      simp only [hc] at h
      cases h
      exact moved_raise cfg s w _ e
    | ok scope =>
      simp only [hc] at h
      split_ifs at h
      · cases h
        unfold Moved
        rw [hp]
        exact ⟨_, _, _, _, _, .acquire ⟨scope, token⟩, rfl⟩
      · cases h
        exact moved_raise cfg s w _ _
  · cases h

theorem act_lookup (h : act cfg s w .lookup = some t) :
    Moved cfg s w .lookup t := by
  simp only [act] at h
  split at h
  · rename_i job lease hp
    cases hc : lookupReply cfg.unicode s.conversations job.message job.conversationRecordId with
    | error e =>
      simp only [hc] at h
      cases h
      exact moved_raise cfg s w _ e
    | ok found =>
      unfold Moved
      rw [hp]
      cases found with
      | stored reply =>
        simp only [hc] at h
        cases h
        exact ⟨_, _, _, _, _, .stored hc, rfl⟩
      | fresh history =>
        simp only [hc] at h
        cases h
        exact ⟨_, _, _, _, _, .fresh history, rfl⟩
  · cases h

theorem act_compose {ports : Ports} {handoffId : Uuid} {now : Time} {acked : Bool}
    (h : act cfg s w (.compose ports handoffId now acked) = some t) :
    Moved cfg s w (.compose ports handoffId now acked) t := by
  simp only [act] at h
  split at h
  · rename_i job lease history hp
    split at h
    · rename_i e _
      cases h
      have hs : (s.withConversations (composeFor cfg.unicode ports s.conversations
        handoffId now job.message job.conversationRecordId history).tables).workers w = _ := hp
      obtain ⟨q, hq, he⟩ := State.raise_put cfg hs e
      unfold Moved
      rw [hp]
      exact ⟨q, _, _, _, _, .compose ports handoffId now (.inr hq), he⟩
    · rename_i text fb _
      cases h
      have hs : (s.withConversations (composeFor cfg.unicode ports s.conversations
        handoffId now job.message job.conversationRecordId history).tables).workers w = _ := hp
      obtain ⟨q, hq, he⟩ := State.answer_put cfg hs acked (.composed job lease text fb)
      unfold Moved
      rw [hp]
      exact ⟨q, _, _, _, _, .compose ports handoffId now (hq.imp_left fun h => ⟨text, fb, h⟩), he⟩
  · cases h

theorem act_record {id : Uuid} {now : Time} {acked : Bool}
    (h : act cfg s w (.record id now acked) = some t) : Moved cfg s w (.record id now acked) t := by
  simp only [act] at h
  split at h
  · rename_i job lease text fb hp
    split at h
    · rename_i e _
      cases h
      have hs : (s.withConversations (recordReply cfg.unicode s.conversations id now
        job.message job.conversationRecordId text fb).1).workers w = _ := hp
      obtain ⟨q, hq, he⟩ := State.raise_put cfg hs e
      unfold Moved
      rw [hp]
      exact ⟨q, _, _, _, _, .record id now (.inr hq), he⟩
    · rename_i reply hreply
      cases h
      have hs : (s.withConversations (recordReply cfg.unicode s.conversations id now
        job.message job.conversationRecordId text fb).1).workers w = _ := hp
      obtain ⟨q, hq, he⟩ := State.answer_put cfg hs acked (.releasing job lease (.ok reply))
      unfold Moved
      rw [hp]
      exact ⟨q, _, _, _, _, .record id now (hq.imp_left fun h => ⟨reply, hreply, h⟩), he⟩
  · cases h

theorem act_release {reachable : Bool} (h : act cfg s w (.release reachable) = some t) :
    Moved cfg s w (.release reachable) t := by
  simp only [act] at h
  split at h
  · rename_i job lease outcome hp
    unfold Moved
    rw [hp]
    cases outcome with
    | error e =>
      dsimp only at h
      cases h
      split_ifs <;> exact ⟨caught cfg job e, _, _, _, _, .lapse ⟨trivial, .inr rfl⟩, rfl⟩
    | ok reply =>
      dsimp only at h
      cases h
      split_ifs <;> exact ⟨_, _, _, _, _, .release reply, rfl⟩
  · cases h

theorem act_deliver {attemptId : Uuid} {now : Time} {acked : Bool}
    (h : act cfg s w (.deliver attemptId now acked) = some t) :
    Moved cfg s w (.deliver attemptId now acked) t := by
  simp only [act] at h
  split at h
  · rename_i job reply hp
    cases hc : replyRequest now job reply with
    | error e =>
      simp only [hc] at h
      cases h
      exact moved_raise cfg s w _ e
    | ok request =>
      simp only [hc] at h
      cases h
      exact deliver_moved hp hc
  · cases h

theorem act_invoke (h : act cfg s w .invoke = some t) :
    Moved cfg s w .invoke t := by
  simp only [act] at h
  split at h
  · rename_i job attemptId request hp
    cases h
    unfold Moved
    rw [hp]
    exact ⟨_, _, _, _, _, .invoke, rfl⟩
  · cases h

theorem act_receive {provider : MetaBody → PostOutcome}
    (h : act cfg s w (.receive provider) = some t) : Moved cfg s w (.receive provider) t := by
  simp only [act] at h
  split at h
  · rename_i job attemptId request hp
    cases hc : (MetaDeliveryAdapter.send provider request).2 with
    | error e =>
      simp only [hc] at h
      cases h
      exact moved_raise cfg s w _ e
    | ok result =>
      simp only [hc] at h
      cases h
      unfold Moved
      rw [hp]
      exact ⟨_, _, _, _, _, .receive hc, rfl⟩
  · cases h

theorem act_finalize {now : Time} {acked : Bool} (h : act cfg s w (.finalize now acked) = some t) :
    Moved cfg s w (.finalize now acked) t := by
  simp only [act] at h
  split at h
  · rename_i job attemptId result hp
    cases hc : DeliveryStore.finalize s.deliveries.tables now attemptId result with
    | error e =>
      simp only [hc] at h
      cases h
      exact moved_raise cfg s w _ e
    | ok r =>
      simp only [hc] at h
      cases h
      have hs : (s.withDeliveries r.2).workers w = _ := hp
      obtain ⟨q, hq, he⟩ := State.answer_put cfg hs acked (.settling job result)
      unfold Moved
      rw [hp]
      exact ⟨q, _, _, _, _, .finalize hc hq, he⟩
  · cases h

theorem act_settle {now : Time} {acked : Bool} (h : act cfg s w (.settle now acked) = some t) :
    Moved cfg s w (.settle now acked) t := by
  simp only [act] at h
  split at h
  · rename_i job result hp
    cases hc : settleJob s.conversations now job result with
    | error e =>
      simp only [hc] at h
      cases h
      exact moved_raise cfg s w _ e
    | ok r =>
      simp only [hc] at h
      cases h
      have hs : (s.withConversations r.2).workers w = _ := hp
      obtain ⟨q, hq, he⟩ := State.answer_put cfg hs acked .idle
      unfold Moved
      rw [hp]
      exact ⟨q, _, _, _, _, .settle hc (hq.elim (fun h => h ▸ Phase.lapses_idle _) id), he⟩
  · cases h

theorem act_fail {now : Time} {acked : Bool} (h : act cfg s w (.fail now acked) = some t) :
    Moved cfg s w (.fail now acked) t := by
  simp only [act] at h
  split at h
  · rename_i job errorCode retry hp
    cases hc : MessageProcessingStore.fail s.conversations now job.messageRecordId errorCode
        retry with
    | error e =>
      simp only [hc] at h
      cases h
      exact moved_raise cfg s w _ e
    | ok r =>
      simp only [hc] at h
      cases h
      have hs : (s.withConversations r.2).workers w = _ := hp
      obtain ⟨q, hq, he⟩ := State.answer_put cfg hs acked .idle
      unfold Moved
      rw [hp]
      exact ⟨q, _, _, _, _, .fail hc (hq.elim (fun h => h ▸ Phase.lapses_idle _) id), he⟩
  · cases h

theorem act_disturb (h : act cfg s w .disturb = some t) :
    Moved cfg s w .disturb t := by
  simp only [act] at h
  split at h
  · cases h
  · cases h
    exact moved_raise cfg s w _ _

theorem act_crash (h : act cfg s w .crash = some t) :
    Moved cfg s w .crash t := by
  cases h
  exact ⟨.idle, _, _, _, _, .lapse (Phase.lapses_idle _), rfl⟩

/-- Everything that a worker does is one of the moves. -/
theorem act_moved {a : Action} (h : act cfg s w a = some t) : Moved cfg s w a t := by
  cases a with
  | claim => exact act_claim h
  | acquire => exact act_acquire h
  | lookup => exact act_lookup h
  | compose => exact act_compose h
  | record => exact act_record h
  | release => exact act_release h
  | deliver => exact act_deliver h
  | invoke => exact act_invoke h
  | receive => exact act_receive h
  | finalize => exact act_finalize h
  | settle => exact act_settle h
  | fail => exact act_fail h
  | disturb => exact act_disturb h
  | crash => exact act_crash h

end Actions

/-- What one step of the system can do: a webhook delivery is rolled back or recorded, a
callback or the expiry of a lock is taken, or a worker moves. -/
inductive Stepped (cfg : Config) (s : State) : Label → State → Prop
  | refused {draws : ℕ → Draw} {messages : List InboundMessage} :
    Stepped cfg s (.ingest draws messages) s
  | recorded {draws : ℕ → Draw} {messages : List InboundMessage} {statuses : List PersistStatus}
      {db : ConversationTables}
      (h : Ingress.recordMessages draws s.conversations messages = .ok (statuses, db)) :
    Stepped cfg s (.ingest draws messages) (s.withConversations db)
  | callback {l : Callbacks.Label} {c : Callbacks.State}
      (h : Callbacks.step s.deliveries l = some c) :
    Stepped cfg s (.callback l) { s with deliveries := c }
  | expire {scope : ConversationScope} : Stepped cfg s (.expire scope) (s.setLock scope none)
  | worker {w : ℕ} {a : Action} {q : Phase} {db : ConversationTables} {d : DeliveryTables}
      {sent : List DeliveryRequest} (locks : ConversationScope → Option ℕ)
      (hact : act cfg s w a = some (s.moved w q db d locks sent))
      (hmove : Move cfg s a (s.workers w) q db d sent) :
    Stepped cfg s (.worker w a) (s.moved w q db d locks sent)

theorem step_stepped {cfg : Config} {s t : State} {l : Label} (h : step cfg s l = some t) :
    Stepped cfg s l t := by
  cases l with
  | ingest draws messages =>
    simp only [step] at h
    cases hr : Ingress.recordMessages draws s.conversations messages with
    | error e =>
      simp only [hr] at h
      cases h
      exact .refused
    | ok r =>
      simp only [hr] at h
      cases h
      exact .recorded hr
  | callback l =>
    obtain ⟨c, hc, rfl⟩ := Option.map_eq_some_iff.mp h
    exact .callback hc
  | expire scope =>
    cases h
    exact .expire
  | worker w a =>
    obtain ⟨q, db, d, locks, sent, hmove, rfl⟩ := act_moved h
    exact .worker locks h hmove

end Piki.Worker
