import Piki.StatusEvents
import Piki.SystemVoices
import Piki.WebhookReceive

/-! The `receive` handler of `api/meta_webhook.py` as a process. Any number of requests,
signed or not, are handled at the same time, each by one transaction for its messages and
one for each of its statuses, beside the workers and the calls of `respond`. -/
namespace Piki.WebhookHandlers
open Table Transition Webhook Ingress DeliveryStore

structure Request where
  rawBody : List UInt8
  signatureHeader : Option String

/-- The handler up to its call of `ingest`: the events, or how it ends without them. -/
def accept (api : Endpoint) (request : Request) : Except (Except Failure Reply) MetaWebhookEvents :=
  match api.appSecret, api.ingress with
  | some appSecret, some _ =>
    match WebhookAuth.verifySignature request.rawBody request.signatureHeader appSecret with
    | .error e => .error (.error e)
    | .ok false => .error (.ok (.raised 401 "invalid webhook signature"))
    | .ok true =>
      match readEvents api request.rawBody with
      | .error (.jsonDecode _) | .error (.webhook _) =>
        .error (.ok (.raised 400 "invalid webhook payload"))
      | .error e => .error (.error e)
      | .ok events => .ok events
  | _, _ => .error (.ok (.raised 503 "webhook not ready"))

/-- How the handler ends when `ingest` returned or raised. -/
def conclude : Except Failure WebhookIngestResult → Except Failure Reply
  | .ok r => .ok (.result r)
  | .error (.ingressRetryable _) => .ok (.raised 503 "webhook ingress temporarily unavailable")
  | .error e => .error e

/-- The two halves make up the handler. -/
theorem receive_accept (api : Endpoint) (request : Request)
    {ingest : MetaWebhookEvents → Except String WebhookIngestResult}
    (hingress : api.ingress = some ingest) :
    receive api request.rawBody request.signatureHeader =
      match accept api request with
      | .error outcome => outcome
      | .ok events => conclude ((ingest events).mapError .ingressRetryable) := by
  unfold receive accept
  rw [hingress]
  cases api.appSecret with
  | none => rfl
  | some appSecret =>
    dsimp only
    cases WebhookAuth.verifySignature request.rawBody request.signatureHeader appSecret with
    | error e => rfl
    | ok signed =>
      cases signed with
      | false => rfl
      | true =>
        rw [ok_bind, if_pos rfl]
        cases readEvents api request.rawBody with
        | error e => cases e <;> rfl
        | ok events =>
          dsimp only
          cases ingest events <;> rfl

/-- Where the handler of a request stands. Its current transaction for a status is the one
under the same number. -/
inductive Handler
  | idle
  | applying (request : Request) (events : MetaWebhookEvents) (persisted : List PersistStatus)
      (applied : List CallbackApplyStatus) (todo : List MetaStatusUpdate)
  | answered (request : Request) (outcome : Except Failure Reply)

structure State where
  system : HandoffPause.State
  handlers : ℕ → Handler

/-- `fail` is a database error of a transaction. The other steps of the system are those
of the workers, of the locks and of the calls of `respond`. -/
inductive Label
  | post (n : ℕ) (request : Request) (draws : ℕ → Draw) (reachable : Bool)
  | proceed (n : ℕ)
  | fail (n : ℕ)
  | crash (n : ℕ)
  | other (l : HandoffPause.Label)

namespace State

def setHandler (s : State) (n : ℕ) (h : Handler) : State :=
  { s with handlers := Function.update s.handlers n h }

def answer (s : State) (n : ℕ) (request : Request) (outcome : Except Failure Reply) : State :=
  s.setHandler n (.answered request outcome)

def withConversations (s : State) (db : ConversationTables) : State :=
  { s with system := s.system.withBase (s.system.base.withConversations db) }

def withCallbacks (s : State) (c : Callbacks.State) : State :=
  { s with system := s.system.withBase { s.system.base with deliveries := c } }

/-- One statement of a status transaction. -/
def callback (s : State) (l : Callbacks.Label) : Option State :=
  (Callbacks.step s.system.base.deliveries l).map s.withCallbacks

def rollback (s : State) (n : ℕ) : State := s.withCallbacks (s.system.base.deliveries.close n)

end State

/-- The next statement of the loop over the statuses. -/
def proceed (s : State) (n : ℕ) (request : Request) (events : MetaWebhookEvents)
    (persisted : List PersistStatus) (applied : List CallbackApplyStatus) :
    List MetaStatusUpdate → Option State
  | [] => some (s.answer n request (.ok (.result (tally persisted applied))))
  | callback :: todo =>
    let next := fun status => Handler.applying request events persisted (applied ++ [status]) todo
    match s.system.base.deliveries.txns n with
    | .idle =>
      match selectAttempt s.system.base.deliveries.tables callback.providerMessageId with
      | .error e => some (s.answer n request (conclude (.error e)))
      | .ok none => some (s.answer n request (conclude (.error (.ingressRetryable
          "delivery callback arrived before its durable attempt"))))
      | .ok (some _) => s.callback (.select n callback)
    | .selected _ _ => (s.callback (.insertEvent n)).map fun t =>
      if t.system.base.deliveries.txns n = .idle then t.setHandler n (next .duplicate) else t
    | .inserted read attempt => (s.callback (.commit n)).map fun t =>
      t.setHandler n (next (commitCallback s.system.base.deliveries.tables read attempt).1)

/-- The message transaction of `ingest`, and the claims of the deduplicator after it. -/
def store (s : State) (n : ℕ) (request : Request) (draws : ℕ → Draw) (events : MetaWebhookEvents) :
    State :=
  match recordMessages draws s.system.base.conversations events.messages with
  | .error e => s.answer n request (conclude (.error e))
  | .ok (persisted, db) =>
    match events.messages.mapM claimDedup with
    | .error e => (s.withConversations db).answer n request (conclude (.error e))
    | .ok _ => (s.withConversations db).setHandler n
      (.applying request events persisted [] events.statuses)

/-- Labels that only handlers issue. -/
def isOwn : HandoffPause.Label → Bool
  | .base (.ingest _ _) | .base (.callback _) => true
  | _ => false

variable (api : Endpoint) (cfg : Worker.Config)

/-- One step of a handler, or of the rest of the system. -/
def step (s : State) : Label → Option State
  | .post n request draws reachable =>
    match s.handlers n with
    | .applying _ _ _ _ _ => none
    | _ =>
      match accept api request with
      | .error outcome => some (s.answer n request outcome)
      | .ok events =>
        if reachable = true then some (store s n request draws events)
        else some (s.answer n request (.error (.database .unavailable)))
  | .proceed n =>
    match s.handlers n with
    | .applying request events persisted applied todo =>
      proceed s n request events persisted applied todo
    | _ => none
  | .fail n =>
    match s.handlers n with
    | .applying request _ _ _ _ =>
      some ((s.rollback n).answer n request (.error (.database .unavailable)))
    | _ => none
  | .crash n => some ((s.rollback n).setHandler n .idle)
  | .other l =>
    if isOwn l then none
    else (HandoffPause.step cfg s.system l).map fun t => { s with system := t }

def start : State := ⟨System.systemStart, fun _ => .idle⟩

/-- What a step of the system takes from a webhook. -/
def byWebhook : HandoffPause.Label → List (InboundMessage × String)
  | .base (.ingest _ messages) => System.deliveredTo messages
  | _ => []

/-- What a request brings in: its messages, if it is signed and readable. -/
def received : Label → List (InboundMessage × String)
  | .post _ request _ _ =>
    match accept api request with
    | .ok events => System.deliveredTo events.messages
    | .error _ => []
  | _ => []

variable {api cfg} {s t : State} {l : Label}

section Refinement

/-- The step is a run of the system whose webhooks deliver nothing else. -/
def Refines (cfg : Worker.Config) (s t : State) (heard : List (InboundMessage × String)) : Prop :=
  ∃ ls, exec (HandoffPause.step cfg) s.system ls = some t.system ∧
    ls.flatMap byWebhook ⊆ heard

theorem refines_stay {heard : List (InboundMessage × String)} (h : t.system = s.system) :
    Refines cfg s t heard :=
  ⟨[], by rw [h]; rfl, List.nil_subset _⟩

theorem refines_step {heard : List (InboundMessage × String)} {l : HandoffPause.Label}
    (h : HandoffPause.step cfg s.system l = some t.system) (hl : byWebhook l ⊆ heard) :
    Refines cfg s t heard :=
  ⟨[l], exec_cons_some.mpr ⟨_, h, rfl⟩, by simpa using hl⟩

theorem callback_step {c : Callbacks.Label} {u : Callbacks.State}
    (h : Callbacks.step s.system.base.deliveries c = some u) :
    HandoffPause.step cfg s.system (.base (.callback c)) = some (s.withCallbacks u).system := by
  simp only [HandoffPause.step, Worker.step, h, Option.map_some]
  rfl

theorem refines_callback {heard : List (InboundMessage × String)} {c : Callbacks.Label}
    (h : s.callback c = some t) : Refines cfg s t heard := by
  obtain ⟨u, hu, rfl⟩ := Option.map_eq_some_iff.mp h
  exact refines_step (callback_step hu) (List.nil_subset _)

theorem Refines.congr {u : State} {heard : List (InboundMessage × String)}
    (h : Refines cfg s u heard) (ht : t.system = u.system) : Refines cfg s t heard := by
  unfold Refines
  rw [ht]
  exact h

theorem refines_rollback {heard : List (InboundMessage × String)} (n : ℕ)
    (h : t.system = (s.rollback n).system) : Refines cfg s t heard := by
  have hstep : HandoffPause.step cfg s.system (.base (.callback (.rollback n))) =
      some (s.rollback n).system := callback_step rfl
  exact refines_step (h ▸ hstep) (List.nil_subset _)

theorem store_step (s : State) (n : ℕ) (request : Request) (draws : ℕ → Draw)
    (events : MetaWebhookEvents) :
    HandoffPause.step cfg s.system (.base (.ingest draws events.messages)) =
      some (store s n request draws events).system := by
  unfold store
  cases hrecord : recordMessages draws s.system.base.conversations events.messages with
  | error e =>
    simp only [HandoffPause.step, Worker.step, hrecord, Option.map_some]
    rfl
  | ok r =>
    simp only [HandoffPause.step, Worker.step, hrecord, Option.map_some]
    split <;> rfl

/-- The handlers only do what the system does. -/
theorem step_refines (hs : step api cfg s l = some t) : Refines cfg s t (received api l) := by
  cases l with
  | post n request draws reachable =>
    have hpost : ∀ outcome, some (s.answer n request outcome) = some t →
        Refines cfg s t (received api (.post n request draws reachable)) := by
      rintro outcome he
      cases he
      exact refines_stay rfl
    simp only [step] at hs
    split at hs
    · cases hs
    · split at hs
      · exact hpost _ hs
      · rename_i events haccept
        split_ifs at hs
        · cases hs
          refine refines_step (store_step s n request draws events) ?_
          simp only [received, haccept]
          exact List.Subset.refl _
        · exact hpost _ hs
  | proceed n =>
    simp only [step] at hs
    split at hs
    · rename_i request events persisted applied todo hn
      cases todo with
      | nil =>
        cases hs
        exact refines_stay rfl
      | cons callback todo =>
        simp only [proceed] at hs
        split at hs
        · split at hs
          · cases hs
            exact refines_stay rfl
          · cases hs
            exact refines_stay rfl
          · exact refines_callback hs
        · obtain ⟨u, hu, rfl⟩ := Option.map_eq_some_iff.mp hs
          refine (refines_callback hu).congr ?_
          split_ifs <;> rfl
        · obtain ⟨u, hu, rfl⟩ := Option.map_eq_some_iff.mp hs
          exact (refines_callback hu).congr rfl
    · cases hs
  | fail n =>
    simp only [step] at hs
    split at hs
    · cases hs
      exact refines_rollback n rfl
    · cases hs
  | crash n =>
    cases hs
    exact refines_rollback n rfl
  | other l =>
    simp only [step] at hs
    split_ifs at hs with hown
    obtain ⟨u, hu, rfl⟩ := Option.map_eq_some_iff.mp hs
    refine refines_step hu ?_
    unfold byWebhook
    split
    · exact absurd rfl hown
    · exact List.nil_subset _

/-- A run of the handlers is a run of the system. -/
theorem run_refines {schedule : List Label} (hrun : exec (step api cfg) s schedule = some t) :
    Refines cfg s t (schedule.flatMap (received api)) := by
  induction schedule generalizing s with
  | nil =>
    cases hrun
    exact refines_stay rfl
  | cons l schedule ih =>
    obtain ⟨v, hv, hrest⟩ := exec_cons_some.mp hrun
    obtain ⟨ls, hls, hheard⟩ := step_refines hv
    obtain ⟨ls', hls', hheard'⟩ := ih hrest
    refine ⟨ls ++ ls', exec_append.mpr ⟨_, hls, hls'⟩, ?_⟩
    rw [List.flatMap_append, List.flatMap_cons]
    exact List.append_subset.mpr ⟨List.subset_append_of_subset_left _ hheard,
      List.subset_append_of_subset_right _ hheard'⟩

end Refinement

section Origin
open Piki.System Worker

/-- Every message in the outbox repeats one that was heard. -/
def Delivered (heard : List (InboundMessage × String)) (db : ConversationTables) : Prop :=
  ∀ m ∈ db.messages, m.processingStatus ≠ none → Authentic heard db m

theorem Delivered.mono {heard heard' : List (InboundMessage × String)} {db : ConversationTables}
    (h : Delivered heard db) (hs : heard ⊆ heard') : Delivered heard' db :=
  fun m hm hp => (h m hm hp).mono hs

/-- The trace of a row tells whether it was put into the outbox. -/
theorem enqueued_iff {db : ConversationTables} {m : MessageRecord} (h : Traced db m) :
    m.processingStatus ≠ none ↔ ∃ messageId, m.traceId = "meta:" ++ messageId := by
  have hne : ∀ a b : String, ConversationOrchestrator.traceOf a ≠ "meta:" ++ b := by
    intro a b he
    have hl := congrArg String.toList he
    rw [ConversationOrchestrator.traceOf, String.toList_append, String.toList_append] at hl
    exact absurd (congrArg List.head? hl) (by simp)
  cases h with
  | webhook _ _ htrace hstatus => exact ⟨fun _ => ⟨_, htrace⟩, fun _ => hstatus⟩
  | web _ _ htrace hstatus | reply _ _ htrace hstatus _ =>
    constructor
    · exact fun hn => absurd hstatus hn
    · rintro ⟨b, hb⟩
      exact absurd (htrace.symm.trans hb) (hne _ b)

theorem enqueued_content {db db' : ConversationTables} {m x : MessageRecord} (hm : Traced db' m)
    (hx : Traced db x) (hc : m.content = x.content) (hp : m.processingStatus ≠ none) :
    x.processingStatus ≠ none := by
  obtain ⟨messageId, htrace⟩ := (enqueued_iff hm).mp hp
  have hsame := content_field MessageRecord.traceId (fun _ => rfl) hc
  exact (enqueued_iff hx).mpr ⟨messageId, hsame.symm.trans htrace⟩

/-- Rows keep their origin, whatever the columns of the outbox say later. -/
theorem Delivered.stored {heard : List (InboundMessage × String)} {d e : Ingress.Tables}
    (h : Delivered heard d.conversations) (hd : Consistent d) (he : Consistent e)
    (hde : Extends d e) (hold : ∀ m ∈ e.conversations.messages, m.processingStatus ≠ none →
      (∃ x ∈ d.conversations.messages, m.content = x.content) ∨
        Authentic heard e.conversations m) : Delivered heard e.conversations := by
  intro m hm hp
  rcases hold m hm hp with ⟨x, hx, hc⟩ | hnew
  · have hpx := enqueued_content (he.traces.messages m hm) (hd.traces.messages x hx) hc hp
    exact (h x hx hpx).extends hde hc
  · exact hnew

theorem delivered_step {s t : HandoffPause.State} {l : HandoffPause.Label}
    {heard : List (InboundMessage × String)} (hknown : SystemKnown s)
    (hphases : ∀ w, PhaseVoiced s.base.conversations (s.base.workers w))
    (h : Delivered heard s.base.conversations) (hs : HandoffPause.step cfg s l = some t) :
    Delivered (heard ++ byWebhook l) t.base.conversations := by
  obtain ⟨hwrites, hknown'⟩ := system_step hknown hs
  have hold : Delivered (heard ++ byWebhook l) s.base.conversations :=
    h.mono (List.subset_append_left _ _)
  have hkeep := hold.stored (d := tablesOf s.base) (e := tablesOf t.base) hknown.base.tables
    hknown'.base.tables hwrites.extends
  have hsame : t.base.conversations = s.base.conversations →
      Delivered (heard ++ byWebhook l) t.base.conversations := by
    intro he
    rw [he]
    exact hold
  cases l with
  | base l =>
    obtain ⟨b, hb, rfl⟩ := Option.map_eq_some_iff.mp hs
    obtain ⟨hstored, -⟩ := base_voiced hb hwrites.extends hphases
    refine hkeep fun m hm hp => ?_
    rcases hstored m hm with hx | ⟨-, hnew⟩
    · exact .inl hx
    · have hdir : m.direction = .inbound := by
        cases hknown'.base.tables.traces.messages m hm with
        | webhook hdir => exact hdir
        | web _ _ _ hstatus | reply _ _ _ hstatus _ => exact absurd hstatus hp
      refine .inr ((hnew hdir).mono (List.subset_append_of_subset_right _ ?_))
      cases l with
      | ingest draws messages => exact List.Subset.refl _
      | callback | expire | worker => exact List.nil_subset _
  | call n message account token reachable =>
    refine hsame ?_
    simp only [HandoffPause.step] at hs
    split at hs
    · cases hs
    · split at hs
      · cases hs
        rfl
      · split_ifs at hs <;> cases hs <;> rfl
  | session n session =>
    simp only [HandoffPause.step] at hs
    split at hs
    · cases hs
    · split at hs
      · cases hs
      · rename_i db p' hadv
        cases hs
        refine hkeep fun m hm hp => ?_
        obtain ⟨-, rows, hrows, hall⟩ := advance_messages hknown.base.tables.constraints hadv
        have hmem : m ∈ db.messages := hm
        rw [hrows] at hmem
        rcases List.mem_append.mp hmem with hm | hm
        · exact .inl ⟨m, hm, rfl⟩
        · exact absurd (hall m hm) hp
  | leave n reachable =>
    refine hsame ?_
    simp only [HandoffPause.step] at hs
    split at hs
    · cases hs
      split_ifs <;> rfl
    · cases hs
  | crash n =>
    cases hs
    exact hsame rfl

theorem delivered_run {s t : HandoffPause.State} {schedule : List HandoffPause.Label}
    {heard : List (InboundMessage × String)} (hknown : SystemKnown s)
    {voices : List (InboundMessage × String)} (hvoiced : Voiced voices s)
    (h : Delivered heard s.base.conversations)
    (hrun : exec (HandoffPause.step cfg) s schedule = some t) :
    SystemKnown t ∧ Delivered (heard ++ schedule.flatMap byWebhook) t.base.conversations := by
  induction schedule generalizing s heard voices with
  | nil =>
    cases hrun
    simpa using ⟨hknown, h⟩
  | cons l schedule ih =>
    obtain ⟨v, hv, hrest⟩ := exec_cons_some.mp hrun
    rw [List.flatMap_cons, ← List.append_assoc]
    exact ih (system_step hknown hv).2 (voiced_step hknown hvoiced hv)
      (delivered_step hknown hvoiced.workers h hv) hrest

/-- The signature of the request is that of its body. -/
def Request.Signed (api : Endpoint) (request : Request) : Prop :=
  ∃ appSecret, api.appSecret = some appSecret ∧
    WebhookAuth.Signed request.rawBody request.signatureHeader appSecret

theorem compareDigest_true {a b : String} (h : WebhookAuth.compareDigest a b = .ok true) :
    a = b := by
  unfold WebhookAuth.compareDigest at h
  split_ifs at h
  exact of_decide_eq_true (Except.ok.inj h)

theorem verifySignature_true {rawBody : List UInt8} {header : Option String} {appSecret : String}
    (h : WebhookAuth.verifySignature rawBody header appSecret = .ok true) :
    WebhookAuth.Signed rawBody header appSecret := by
  cases header with
  | none => cases h
  | some header =>
    by_cases hp : "sha256=".toList <+: header.toList
    · rw [WebhookAuth.header_split hp, WebhookAuth.verifySignature_digest] at h
      split_ifs at h
      · cases h
      · rw [WebhookAuth.header_split hp, WebhookAuth.Signed, compareDigest_true h]
    · rw [(WebhookAuth.verifySignature_other rawBody appSecret hp).1] at h
      cases h

/-- Only a signed body reaches `ingest`. -/
theorem accept_ok {request : Request} {events : MetaWebhookEvents}
    (h : accept api request = .ok events) :
    request.Signed api ∧ readEvents api request.rawBody = .ok events := by
  unfold accept at h
  split at h
  · rename_i appSecret ingest hsecret _
    split at h
    · cases h
    · cases h
    · rename_i hsigned
      split at h <;> cases h
      rename_i hevents
      exact ⟨⟨appSecret, hsecret, verifySignature_true hsigned⟩, hevents⟩
  · cases h

/-- The events of a signed request of the schedule. -/
def Heard (api : Endpoint) (schedule : List Label) (events : MetaWebhookEvents) : Prop :=
  ∃ n request draws reachable, Label.post n request draws reachable ∈ schedule ∧
    request.Signed api ∧ readEvents api request.rawBody = .ok events

theorem deliveredTo_mem {messages : List InboundMessage} {p : InboundMessage × String}
    (h : p ∈ deliveredTo messages) : p.1 ∈ messages ∧ phoneNumberId p.1 = .ok p.2 := by
  obtain ⟨message, hm, he⟩ := List.mem_filterMap.mp h
  obtain ⟨account, ha, rfl⟩ := Option.map_eq_some_iff.mp he
  refine ⟨hm, ?_⟩
  cases hp : phoneNumberId message with
  | error e =>
    rw [hp] at ha
    cases ha
  | ok id =>
    rw [hp] at ha
    cases ha
    rfl

theorem received_mem {schedule : List Label} {p : InboundMessage × String}
    (h : p ∈ schedule.flatMap (received api)) :
    ∃ events, Heard api schedule events ∧ p.1 ∈ events.messages ∧ phoneNumberId p.1 = .ok p.2 := by
  obtain ⟨l, hl, hp⟩ := List.mem_flatMap.mp h
  cases l with
  | post n request draws reachable =>
    simp only [received] at hp
    cases haccept : accept api request with
    | error outcome =>
      rw [haccept] at hp
      cases hp
    | ok events =>
      rw [haccept] at hp
      obtain ⟨hsigned, hevents⟩ := accept_ok haccept
      exact ⟨events, ⟨n, request, draws, reachable, hl, hsigned, hevents⟩, deliveredTo_mem hp⟩
  | _ => cases hp

/-- In every reachable state, the outbox holds only messages of signed requests. -/
theorem outbox_signed {schedule : List Label}
    (hrun : exec (step api cfg) start schedule = some t) :
    SystemKnown t.system ∧
      Delivered (schedule.flatMap (received api)) t.system.base.conversations := by
  obtain ⟨ls, hls, hheard⟩ := run_refines hrun
  have hempty : Delivered [] systemStart.base.conversations := List.forall_mem_nil _
  obtain ⟨hknown, hdelivered⟩ := delivered_run system_start voiced_start hempty hls
  exact ⟨hknown, hdelivered.mono (List.append_subset.mpr ⟨List.nil_subset _, hheard⟩)⟩

/-- Piki speaks only when it is spoken to: whatever requests reach the webhook, signed or
not, and however they interleave with the workers and the calls of `respond`, everything
that is handed to the delivery adapter answers a message in the body of a signed request,
and is addressed to the sender of that message. -/
theorem replies_signed (api : Endpoint) (cfg : Config) {schedule : List Label}
    (hrun : exec (step api cfg) start schedule = some t) :
    ∀ r ∈ t.system.base.sent, ∃ events, Heard api schedule events ∧
      ∃ message ∈ events.messages, r.idempotencyKey = replyKey message.messageId ∧
        r.conversationId = message.conversationId := by
  obtain ⟨hknown, hdelivered⟩ := outbox_signed hrun
  intro r hr
  obtain ⟨messageId, hkey, c, hc, hconv, ⟨m, hm, hdir, hext, hcid, htrace⟩, -⟩ :=
    hknown.base.sent r hr
  have hp := (enqueued_iff (hknown.base.tables.traces.messages m hm)).mpr ⟨messageId, htrace⟩
  obtain ⟨p, hheard, hpext, -, -, c', hc', hid', hident'⟩ := hdelivered m hm hp
  obtain ⟨events, hevents, hmem, -⟩ := received_mem hheard
  have hid : p.1.messageId = messageId := Option.some.inj (hpext.symm.trans hext)
  have hsame : c' = c := unique_eq hknown.base.tables.constraints.conversation_id hc' hc
    (congrArg some rfl) (congrArg some (hcid.symm.trans hid'.symm))
  refine ⟨events, hevents, p.1, hmem, by rw [hkey, hid], ?_⟩
  rw [hsame] at hident'
  exact hconv.symm.trans (congrArg (fun i => i.2.2) hident')

/-- A body with one text message that asks for picks. -/
def picksObject : Json :=
  .object [("object", .str "whatsapp_business_account"), ("entry", .array [.object [
    ("id", .str "waba"), ("changes", .array [.object [("field", .str "messages"), ("value", .object [
      ("messaging_product", .str "whatsapp"),
      ("metadata", .object [("display_phone_number", .str "5491100000000"),
        ("phone_number_id", .str "phone")]),
      ("messages", .array [.object [("id", .str "wamid.1"), ("from", .str "549"),
        ("timestamp", .str "0"), ("type", .str "text"),
        ("text", .object [("body", .str "hay picks")])]])])]])]])]

/-- An endpoint whose every body is that one. -/
def picksEndpoint : Endpoint := { sampleEndpoint with loads := fun _ => .ok picksObject }

def signedRequest : Request :=
  ⟨[], some ("sha256=" ++ WebhookAuth.hexdigest [] "secret")⟩

def picksEvents : MetaWebhookEvents where
  messages := [accepted (InboundMessage.make "wamid.1" .whatsapp "549" "549" .text
    (some "hay picks") 0 [("phone_number_id", "phone"), ("meta_message_type", "text")]) (by decide)]
  statuses := []

theorem readEvents_picks : readEvents picksEndpoint signedRequest.rawBody = .ok picksEvents := by
  rfl

theorem accept_signedRequest : accept picksEndpoint signedRequest = .ok picksEvents := by
  have hsigned : WebhookAuth.verifySignature signedRequest.rawBody signedRequest.signatureHeader
      "secret" = .ok true := verifySignature_signed [] "secret"
  have hsecret : picksEndpoint.appSecret = some "secret" := rfl
  have hingress : picksEndpoint.ingress = some fun _ => .ok ⟨0, 0, 0, 0, 0⟩ := rfl
  simp only [accept, hsecret, hingress, hsigned, readEvents_picks]

def picksDraws : ℕ → Draw := fun _ => ⟨1, 2, 0, 0⟩

def picksRest : List Label :=
  .proceed 0 :: (recordActions ++ deliverActions).map fun a => .other (.base (.worker 1 a))

/-- A request without a signature, then a signed one, and a worker that answers it. -/
def picksSchedule : List Label :=
  .post 1 ⟨[], none⟩ (fun _ => ⟨8, 9, 0, 0⟩) true ::
    .post 0 signedRequest picksDraws true :: picksRest

/-- The state after both requests arrived. -/
def picksStored : State :=
  store (start.answer 1 ⟨[], none⟩ (.ok (.raised 401 "invalid webhook signature"))) 0 signedRequest
    picksDraws picksEvents

set_option maxRecDepth 10000 in
theorem exec_picksRest : (exec (step picksEndpoint sampleConfig) picksStored picksRest).map
    (fun t => t.system.base.sentKeys) = some ["reply:wamid.1"] := by
  decide

theorem exec_picksSchedule : (exec (step picksEndpoint sampleConfig) start picksSchedule).map
    (fun t => t.system.base.sentKeys) = some ["reply:wamid.1"] := by
  have hunsigned : step picksEndpoint sampleConfig start
      (.post 1 ⟨[], none⟩ (fun _ => ⟨8, 9, 0, 0⟩) true) = some (start.answer 1 ⟨[], none⟩
        (.ok (.raised 401 "invalid webhook signature"))) := rfl
  have hsigned : step picksEndpoint sampleConfig (start.answer 1 ⟨[], none⟩
      (.ok (.raised 401 "invalid webhook signature"))) (.post 0 signedRequest picksDraws true) =
        some picksStored := by
    have hidle : (start.answer 1 ⟨[], none⟩
        (.ok (.raised 401 "invalid webhook signature"))).handlers 0 = .idle := rfl
    simp only [step, hidle, accept_signedRequest, if_true]
    rfl
  rw [picksSchedule, exec, hunsigned, Option.bind_some, exec, hsigned, Option.bind_some]
  exact exec_picksRest

theorem picks_signed : ∃ t,
    exec (step picksEndpoint sampleConfig) start picksSchedule = some t ∧
      t.system.base.sentKeys = ["reply:wamid.1"] ∧
      ∀ r ∈ t.system.base.sent, ∃ events, Heard picksEndpoint picksSchedule events ∧
        ∃ message ∈ events.messages, r.idempotencyKey = replyKey message.messageId ∧
          r.conversationId = message.conversationId := by
  obtain ⟨t, ht, hsent⟩ := Option.map_eq_some_iff.mp exec_picksSchedule
  exact ⟨t, ht, hsent, replies_signed picksEndpoint sampleConfig ht⟩

end Origin

end Piki.WebhookHandlers
