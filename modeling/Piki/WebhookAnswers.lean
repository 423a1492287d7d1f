import Piki.DeliveryAgreement
import Piki.IngressMessages
import Piki.IngressStatuses
import Piki.WebhookHandlers

/-! What an answer of the webhook promises: a request that was answered with its counts is
stored for good. -/
namespace Piki.WebhookHandlers
open Table Transition Webhook Ingress DeliveryStore Piki.System ConversationRepository
open IngressStatuses (Logged)
variable {api : Endpoint} {cfg : Worker.Config} {s t : State}

section Rows
variable {d e : Ingress.Tables}

/-- The message fits its columns, its id is taken, and its sender has a conversation. -/
structure Filed (db : ConversationTables) (message : InboundMessage) : Prop where
  fits : IngressMessages.Recordable message
  row : ∃ m ∈ db.messages, m.externalMessageId = some message.messageId
  sender : ∀ account, phoneNumberId message = .ok account →
    ∃ c ∈ db.conversations, c.identity = (message.channel, account, message.conversationId)

/-- The event of the callback is stored, and so is the attempt that it names. -/
structure Noted (d : DeliveryTables) (callback : MetaStatusUpdate) : Prop where
  event : Logged d callback
  attempt : ∃ a ∈ d.attempts, a.providerMessageId = some callback.providerMessageId

/-- The second tables hold all that the first ones say of messages and callbacks. -/
structure Later (db db' : Ingress.Tables) : Prop where
  rows : Extends db db'
  attempts : DeliveryTruth.Grows db.deliveries db'.deliveries

theorem Later.refl (db : Ingress.Tables) : Later db db := ⟨.refl _, .refl _⟩

theorem Later.trans {a b c : Ingress.Tables} (hab : Later a b) (hbc : Later b c) : Later a c :=
  ⟨hab.rows.trans hbc.rows, Worker.grows_trans hab.attempts hbc.attempts⟩

theorem Filed.later {message : InboundMessage} (h : Filed d.conversations message)
    (hl : Extends d e) : Filed e.conversations message := by
  obtain ⟨m, hm, hext⟩ := h.row
  obtain ⟨m', hm', hcontent⟩ := hl.messages.mem hm
  refine ⟨h.fits, ⟨m', hm', (content_external hcontent).trans hext⟩, ?_⟩
  intro account haccount
  obtain ⟨c, hc, hident⟩ := h.sender account haccount
  obtain ⟨c', hc', -, hident'⟩ := hl.conversation hc
  exact ⟨c', hc', hident'.trans hident⟩

theorem Noted.later {callback : MetaStatusUpdate} (h : Noted d.deliveries callback)
    (hl : Later d e) : Noted e.deliveries callback := by
  obtain ⟨⟨x, hx, hk⟩, a, ha, hp⟩ := h
  obtain ⟨a', ha', -, -, hp'⟩ := hl.attempts a ha _ hp
  exact ⟨⟨x, hl.rows.events.subset hx, hk⟩, a', ha', hp'⟩

theorem recordInbound_filed {db db' : ConversationTables} {draw : Draw} {account : String}
    {message : InboundMessage} {p : PersistedInbound}
    (haccount : phoneNumberId message = .ok account)
    (h : recordInbound db draw account message ("meta:" ++ message.messageId) true = .ok (p, db')) :
    Filed db' message := by
  obtain ⟨hlen, htrace⟩ := IngressMessages.recordInbound_fits h
  obtain ⟨db₁, hup, hins⟩ := recordInbound_ok h
  obtain ⟨c, hc, -, hident⟩ := upsertConversation_stored hup
  have hsender : ∀ other, phoneNumberId message = .ok other →
      ∃ c ∈ db₁.conversations, c.identity = (message.channel, other, message.conversationId) := by
    intro other hother
    cases haccount.symm.trans hother
    exact ⟨c, hc, hident⟩
  rcases hins with ⟨-, rfl, m, hm, hext⟩ | ⟨-, -, -, rfl⟩
  · refine ⟨⟨account, haccount, hlen, htrace⟩, ⟨m, ?_, hext⟩, hsender⟩
    rw [upsertConversation_messages hup]
    exact hm
  · exact ⟨⟨account, haccount, hlen, htrace⟩,
      ⟨_, List.mem_append_right _ List.mem_cons_self, rfl⟩, hsender⟩

/-- After the message transaction every message of the batch is filed. -/
theorem recordMessages_filed {draws : ℕ → Draw} {db db' : ConversationTables}
    {messages : List InboundMessage} {persisted : List PersistStatus}
    (h : recordMessages draws db messages = .ok (persisted, db')) :
    persisted.length = messages.length ∧ ∀ message ∈ messages, Filed db' message := by
  induction messages generalizing draws db persisted with
  | nil =>
    cases h
    exact ⟨rfl, by simp⟩
  | cons message messages ih =>
    obtain ⟨account, haccount, hrest⟩ := bind_ok h
    obtain ⟨⟨p, db₁⟩, hrec, hrest⟩ := bind_ok hrest
    obtain ⟨⟨rest, db₂⟩, htail, hret⟩ := bind_ok hrest
    cases hret
    obtain ⟨hlen, hall⟩ := ih htail
    refine ⟨congrArg (· + 1) hlen, List.forall_mem_cons.mpr ⟨?_, hall⟩⟩
    have hextends := (recordMessages_writes (d := ⟨db₁, .empty⟩) htail).extends
    exact (recordInbound_filed haccount hrec).later hextends

/-- A run of the system only adds to what is told of messages and callbacks. -/
theorem run_later {s t : HandoffPause.State} {schedule : List HandoffPause.Label}
    (hknown : SystemKnown s) (h : Delivering s)
    (hrun : exec (HandoffPause.step cfg) s schedule = some t) :
    SystemKnown t ∧ Delivering t ∧ Later (tablesOf s.base) (tablesOf t.base) := by
  induction schedule generalizing s with
  | nil =>
    cases hrun
    exact ⟨hknown, h, .refl _⟩
  | cons l schedule ih =>
    obtain ⟨v, hv, hrest⟩ := exec_cons_some.mp hrun
    obtain ⟨hwrites, hknown'⟩ := system_step hknown hv
    obtain ⟨hknown'', h'', hlater⟩ := ih hknown' (delivering_step h hv) hrest
    refine ⟨hknown'', h'', Later.trans ⟨hwrites.extends, ?_⟩ hlater⟩
    by_cases hl : ∃ b, l = .base b
    · obtain ⟨b, rfl⟩ := hl
      obtain ⟨c, hc, rfl⟩ := Option.map_eq_some_iff.mp hv
      exact Worker.grows_step h.once.honest hc
    · simp only [tablesOf, call_deliveries hv fun b he => hl ⟨b, he⟩]
      exact .refl _

end Rows

section Handling

abbrev State.deliveries (s : State) : Callbacks.State := s.system.base.deliveries

/-- What one statement of the loop over the callbacks does. -/
inductive Proceeds (s : State) (n : ℕ) (request : Request) (events : MetaWebhookEvents)
    (persisted : List PersistStatus) (applied : List CallbackApplyStatus) :
    List MetaStatusUpdate → State → Prop
  | finish : Proceeds s n request events persisted applied []
      (s.answer n request (.ok (.result (tally persisted applied))))
  | refuse {callback : MetaStatusUpdate} {todo : List MetaStatusUpdate}
      {outcome : Except Failure Reply} (hidle : s.deliveries.txns n = .idle)
      (hselect : ∀ a, selectAttempt s.deliveries.tables callback.providerMessageId ≠ .ok (some a))
      (hout : ∀ r, outcome ≠ .ok (.result r)) :
      Proceeds s n request events persisted applied (callback :: todo) (s.answer n request outcome)
  | select {callback : MetaStatusUpdate} {todo : List MetaStatusUpdate}
      {attempt : DeliveryAttemptRecord} :
      Proceeds s n request events persisted applied (callback :: todo)
        (s.withCallbacks (s.deliveries.setTxn n (.selected callback attempt)))
  | duplicate {callback read : MetaStatusUpdate} {todo : List MetaStatusUpdate}
      {attempt : DeliveryAttemptRecord} (hread : s.deliveries.txns n = .selected read attempt)
      (hlogged : Logged s.deliveries.tables read) :
      Proceeds s n request events persisted applied (callback :: todo)
        ((s.rollback n).setHandler n
          (.applying request events persisted (applied ++ [.duplicate]) todo))
  | insert {callback read : MetaStatusUpdate} {todo : List MetaStatusUpdate}
      {attempt : DeliveryAttemptRecord} {uncommitted : List (ℕ × Callbacks.EventKey)}
      (hread : s.deliveries.txns n = .selected read attempt)
      (hfree : ¬ Logged s.deliveries.tables read) :
      Proceeds s n request events persisted applied (callback :: todo)
        (s.withCallbacks { (s.deliveries.setTxn n (.inserted read attempt)) with
          uncommitted := uncommitted })
  | commit {callback read : MetaStatusUpdate} {todo : List MetaStatusUpdate}
      {attempt : DeliveryAttemptRecord} {status : CallbackApplyStatus} {d : DeliveryTables}
      (hread : s.deliveries.txns n = .inserted read attempt)
      (hcommit : commitCallback s.deliveries.tables read attempt = (status, d)) :
      Proceeds s n request events persisted applied (callback :: todo)
        ((s.withCallbacks ((s.deliveries.withTables d).close n)).setHandler n
          (.applying request events persisted (applied ++ [status]) todo))

theorem proceed_proceeds {n : ℕ} {request : Request} {events : MetaWebhookEvents}
    {persisted : List PersistStatus} {applied : List CallbackApplyStatus}
    {todo : List MetaStatusUpdate}
    (h : proceed s n request events persisted applied todo = some t) :
    Proceeds s n request events persisted applied todo t := by
  cases todo with
  | nil =>
    cases h
    exact .finish
  | cons callback todo =>
    simp only [proceed] at h
    split at h
    · rename_i hidle
      split at h
      · rename_i e hselect
        cases h
        refine .refuse hidle (by simp [hselect]) ?_
        intro r
        cases e <;> simp [conclude]
      · rename_i hselect
        cases h
        exact .refuse hidle (by simp [hselect]) (by simp [conclude])
      · rename_i attempt hselect
        obtain ⟨u, hu, rfl⟩ := Option.map_eq_some_iff.mp h
        simp only [Callbacks.step, hselect] at hu
        split_ifs at hu
        cases hu
        exact .select
    · rename_i read attempt hread
      obtain ⟨v, hv, rfl⟩ := Option.map_eq_some_iff.mp h
      obtain ⟨u, hu, rfl⟩ := Option.map_eq_some_iff.mp hv
      simp only [Callbacks.step, hread] at hu
      split_ifs at hu
      split at hu
      · rename_i e he
        cases hu
        obtain ⟨hmem, k, hk, hek⟩ := conflict_eq_some he
        rw [if_pos (by simp [State.withCallbacks, HandoffPause.State.withBase,
          Callbacks.State.close])]
        exact .duplicate hread ⟨e, hmem, hek.trans hk.symm⟩
      · rename_i hnone
        cases hu
        rw [if_neg (by simp [State.withCallbacks, HandoffPause.State.withBase,
          Callbacks.State.setTxn])]
        refine .insert hread ?_
        rintro ⟨e, he, hk⟩
        exact conflict_eq_none.mp hnone _ rfl e he hk
    · rename_i read attempt hread
      obtain ⟨v, hv, rfl⟩ := Option.map_eq_some_iff.mp h
      obtain ⟨u, hu, rfl⟩ := Option.map_eq_some_iff.mp hv
      simp only [Callbacks.step, hread] at hu
      cases hu
      exact .commit hread rfl

/-- What a request left in the tables, when the callbacks `done` were handled. -/
structure Kept (api : Endpoint) (db : Ingress.Tables) (request : Request)
    (events : MetaWebhookEvents) (done : List MetaStatusUpdate) : Prop where
  accepted : accept api request = .ok events
  claims : ∃ us, events.messages.mapM claimDedup = .ok us
  messages : ∀ message ∈ events.messages, Filed db.conversations message
  statuses : ∀ callback ∈ done, Noted db.deliveries callback

theorem Kept.later {db db' : Ingress.Tables} {request : Request} {events : MetaWebhookEvents}
    {done : List MetaStatusUpdate} (h : Kept api db request events done) (hl : Later db db') :
    Kept api db' request events done :=
  ⟨h.accepted, h.claims, fun message hm => (h.messages message hm).later hl.rows,
    fun callback hc => (h.statuses callback hc).later hl⟩

/-- The counts of the answer add up to the parts of the request. -/
def Counts (r : WebhookIngestResult) (events : MetaWebhookEvents) : Prop :=
  r.acceptedMessages + r.duplicateMessages = events.messages.length ∧
    r.acceptedStatuses + r.duplicateStatuses + r.ignoredStatuses = events.statuses.length

/-- The callbacks that the handler has not finished. -/
def Handler.todo : Handler → List MetaStatusUpdate
  | .applying _ _ _ _ todo => todo
  | _ => []

/-- What the tables owe to a handler. -/
def Owed (api : Endpoint) (db : Ingress.Tables) : Handler → Prop
  | .applying request events persisted applied todo =>
    persisted.length = events.messages.length ∧ .missingAttempt ∉ applied ∧
      ∃ done, events.statuses = done ++ todo ∧ applied.length = done.length ∧
        Kept api db request events done
  | .answered request (.ok (.result r)) =>
    ∃ events, Kept api db request events events.statuses ∧ Counts r events
  | _ => True

theorem Owed.later {db db' : Ingress.Tables} {h : Handler} (ho : Owed api db h)
    (hl : Later db db') : Owed api db' h := by
  cases h with
  | idle => trivial
  | applying request events persisted applied todo =>
    obtain ⟨hlen, hmissing, done, hdone, happlied, hkept⟩ := ho
    exact ⟨hlen, hmissing, done, hdone, happlied, hkept.later hl⟩
  | answered request outcome =>
    cases outcome with
    | error e => trivial
    | ok reply =>
      cases reply with
      | result r =>
        obtain ⟨events, hkept, hcounts⟩ := ho
        exact ⟨events, hkept.later hl, hcounts⟩
      | _ => trivial

theorem owed_answered {db : Ingress.Tables} {request : Request} {outcome : Except Failure Reply}
    (h : ∀ r, outcome ≠ .ok (.result r)) : Owed api db (.answered request outcome) := by
  cases outcome with
  | error e => trivial
  | ok reply =>
    cases reply with
    | result r => exact absurd rfl (h r)
    | _ => trivial

theorem count_persisted (persisted : List PersistStatus) :
    persisted.count .created + persisted.count .duplicate = persisted.length := by
  induction persisted with
  | nil => rfl
  | cons p persisted ih =>
    cases p <;> simp <;> omega

theorem count_applied {applied : List CallbackApplyStatus} (h : .missingAttempt ∉ applied) :
    applied.count .applied + applied.count .duplicate + applied.count .ignoredRegression =
      applied.length := by
  induction applied with
  | nil => rfl
  | cons a applied ih =>
    have hrest := ih (fun hm => h (List.mem_cons_of_mem _ hm))
    cases a with
    | missingAttempt => exact absurd List.mem_cons_self h
    | _ => simp; omega

/-- A handler has a transaction open for its next callback only, and is owed what it stored. -/
structure Tidy (api : Endpoint) (s : State) (n : ℕ) : Prop where
  own : ∀ callback attempt, Callbacks.OpenOn s.deliveries n callback attempt →
    (s.handlers n).todo.head? = some callback
  owed : Owed api (tablesOf s.system.base) (s.handlers n)

/-- What every state of a run keeps. -/
structure Honoured (api : Endpoint) (s : State) : Prop where
  known : SystemKnown s.system
  delivering : Delivering s.system
  tidy : ∀ n, Tidy api s n

theorem honoured_start (api : Endpoint) : Honoured api start where
  known := system_start
  delivering := delivering_start
  tidy n := by
    refine ⟨?_, trivial⟩
    intro callback attempt h
    rcases h with h | h <;> cases h

theorem Honoured.closed (h : Honoured api s) {n : ℕ} (ht : (s.handlers n).todo = [])
    {callback : MetaStatusUpdate} {attempt : DeliveryAttemptRecord} :
    ¬ Callbacks.OpenOn s.deliveries n callback attempt := by
  intro hopen
  have hhead := (h.tidy n).own callback attempt hopen
  rw [ht] at hhead
  cases hhead

/-- An open transaction of the handler is about its next callback, whose attempt is stored. -/
theorem Honoured.reads (h : Honoured api s) {n : ℕ} {callback read : MetaStatusUpdate}
    {todo : List MetaStatusUpdate} {attempt : DeliveryAttemptRecord}
    (ht : (s.handlers n).todo = callback :: todo)
    (hopen : Callbacks.OpenOn s.deliveries n read attempt) : callback = read ∧
      ∃ a ∈ s.deliveries.tables.attempts, a.providerMessageId = some read.providerMessageId := by
  have hhead := (h.tidy n).own read attempt hopen
  rw [ht] at hhead
  obtain ⟨-, a, ha, -, hp⟩ := h.delivering.once.honest.reads n read attempt hopen
  exact ⟨Option.some.inj hhead, a, ha, hp⟩

/-- The handler that takes the step. -/
def owner : Label → Option ℕ
  | .post n _ _ _ | .proceed n | .fail n | .crash n => some n
  | .other _ => none

theorem other_txns {s t : HandoffPause.State} {l : HandoffPause.Label}
    (hs : HandoffPause.step cfg s l = some t) (hl : isOwn l = false) :
    t.base.deliveries.txns = s.base.deliveries.txns := by
  by_cases hb : ∃ b, l = .base b
  · obtain ⟨b, rfl⟩ := hb
    obtain ⟨c, hc, rfl⟩ := Option.map_eq_some_iff.mp hs
    cases Worker.step_stepped hc with
    | callback => cases hl
    | refused | recorded | expire | worker => rfl
  · rw [call_deliveries hs fun b he => hb ⟨b, he⟩]

theorem store_elsewhere (s : State) {n m : ℕ} (hm : m ≠ n) (request : Request) (draws : ℕ → Draw)
    (events : MetaWebhookEvents) : (store s n request draws events).handlers m = s.handlers m ∧
      (store s n request draws events).deliveries = s.deliveries := by
  unfold store
  cases recordMessages draws s.system.base.conversations events.messages with
  | error e => exact ⟨Function.update_of_ne hm _ _, rfl⟩
  | ok r =>
    dsimp only
    cases events.messages.mapM claimDedup <;> exact ⟨Function.update_of_ne hm _ _, rfl⟩

/-- No step touches another handler. -/
theorem step_elsewhere {l : Label} (hs : step api cfg s l = some t) {m : ℕ}
    (hm : owner l ≠ some m) :
    t.handlers m = s.handlers m ∧ t.deliveries.txns m = s.deliveries.txns m := by
  cases l with
  | post n request draws reachable =>
    have hne : m ≠ n := fun he => hm (congrArg some he.symm)
    have hanswer : ∀ outcome, some (s.answer n request outcome) = some t →
        t.handlers m = s.handlers m ∧ t.deliveries.txns m = s.deliveries.txns m := by
      rintro outcome he
      cases he
      exact ⟨Function.update_of_ne hne _ _, rfl⟩
    simp only [step] at hs
    split at hs
    · cases hs
    · split at hs
      · exact hanswer _ hs
      · split_ifs at hs
        · cases hs
          obtain ⟨hhandlers, hdeliveries⟩ := store_elsewhere s hne request draws _
          exact ⟨hhandlers, by rw [hdeliveries]⟩
        · exact hanswer _ hs
  | proceed n =>
    have hne : m ≠ n := fun he => hm (congrArg some he.symm)
    simp only [step] at hs
    split at hs
    · cases proceed_proceeds hs with
      | finish | refuse => exact ⟨Function.update_of_ne hne _ _, rfl⟩
      | select | insert => exact ⟨rfl, Function.update_of_ne hne _ _⟩
      | duplicate | commit => exact ⟨Function.update_of_ne hne _ _, Function.update_of_ne hne _ _⟩
    · cases hs
  | fail n =>
    have hne : m ≠ n := fun he => hm (congrArg some he.symm)
    simp only [step] at hs
    split at hs
    · cases hs
      exact ⟨Function.update_of_ne hne _ _, Function.update_of_ne hne _ _⟩
    · cases hs
  | crash n =>
    have hne : m ≠ n := fun he => hm (congrArg some he.symm)
    cases hs
    exact ⟨Function.update_of_ne hne _ _, Function.update_of_ne hne _ _⟩
  | other l =>
    simp only [step] at hs
    split_ifs at hs with hown
    obtain ⟨u, hu, rfl⟩ := Option.map_eq_some_iff.mp hs
    exact ⟨rfl, congrFun (other_txns hu (by simpa using hown)) m⟩

theorem step_later {l : Label} (hknown : SystemKnown s.system) (h : Delivering s.system)
    (hs : step api cfg s l = some t) : SystemKnown t.system ∧ Delivering t.system ∧
      Later (tablesOf s.system.base) (tablesOf t.system.base) := by
  obtain ⟨ls, hls, -⟩ := step_refines hs
  exact run_later hknown h hls

theorem tidy_set {u : State} {n : ℕ} {x : Handler}
    (hown : ∀ callback attempt, Callbacks.OpenOn u.deliveries n callback attempt →
      x.todo.head? = some callback)
    (howed : Owed api (tablesOf u.system.base) x) : Tidy api (u.setHandler n x) n := by
  have hx : (u.setHandler n x).handlers n = x := Function.update_self _ _ _
  constructor
  · rw [hx]
    exact hown
  · rw [hx]
    exact howed

theorem accept_error {request : Request} {outcome : Except Failure Reply}
    (h : accept api request = .error outcome) (r : WebhookIngestResult) :
    outcome ≠ .ok (.result r) := by
  unfold accept at h
  split at h
  · split at h
    · cases h
      simp
    · cases h
      simp
    · split at h <;> cases h <;> simp
  · cases h
    simp

theorem error_not_result (e : Failure) (r : WebhookIngestResult) :
    (Except.error e : Except Failure Reply) ≠ .ok (.result r) := by
  simp

theorem conclude_error (e : Failure) (r : WebhookIngestResult) :
    conclude (.error e) ≠ .ok (.result r) := by
  cases e <;> simp [conclude]

/-- The message transaction leaves the handler what it is owed. -/
theorem store_tidy (h : Honoured api s) {n : ℕ} {request : Request} {draws : ℕ → Draw}
    {events : MetaWebhookEvents} (hidle : (s.handlers n).todo = [])
    (haccept : accept api request = .ok events) :
    Tidy api (store s n request draws events) n := by
  have hclosed : ∀ {x : Handler} callback attempt,
      Callbacks.OpenOn s.deliveries n callback attempt → x.todo.head? = some callback :=
    fun _ _ hopen => absurd hopen (h.closed hidle)
  unfold store
  cases hrecord : recordMessages draws s.system.base.conversations events.messages with
  | error e => exact tidy_set hclosed (owed_answered (conclude_error e))
  | ok r =>
    obtain ⟨hlen, hfiled⟩ := recordMessages_filed hrecord
    dsimp only
    cases hclaims : events.messages.mapM claimDedup with
    | error e => exact tidy_set hclosed (owed_answered (conclude_error e))
    | ok us =>
      have hkept : Kept api (tablesOf (s.withConversations r.2).system.base) request events [] :=
        ⟨haccept, ⟨us, hclaims⟩, hfiled, List.forall_mem_nil _⟩
      exact tidy_set hclosed ⟨hlen, List.not_mem_nil, [], rfl, rfl, hkept⟩

theorem open_close {c : Callbacks.State} {n : ℕ} {callback : MetaStatusUpdate}
    {attempt : DeliveryAttemptRecord} : ¬ Callbacks.OpenOn (c.close n) n callback attempt := by
  simp [Callbacks.OpenOn, Callbacks.State.close]

theorem commitCallback_status {d d' : DeliveryTables} {callback : MetaStatusUpdate}
    {attempt : DeliveryAttemptRecord} {status : CallbackApplyStatus}
    (h : commitCallback d callback attempt = (status, d')) : status ≠ .missingAttempt := by
  simp only [commitCallback] at h
  split_ifs at h <;> cases h <;> simp

theorem logged_commit {d d' : DeliveryTables} {callback : MetaStatusUpdate}
    {attempt : DeliveryAttemptRecord} {status : CallbackApplyStatus}
    (h : commitCallback d callback attempt = (status, d')) : Logged d' callback := by
  have hevents := Callbacks.commitCallback_events d callback attempt
  rw [h] at hevents
  refine ⟨callbackEvent callback attempt, ?_, rfl⟩
  rw [hevents]
  exact List.mem_append_right _ List.mem_cons_self

/-- One statement of the loop leaves the handler what it is owed. -/
theorem proceeds_tidy (h : Honoured api s) {n : ℕ} {request : Request} {events : MetaWebhookEvents}
    {persisted : List PersistStatus} {applied : List CallbackApplyStatus}
    {todo : List MetaStatusUpdate}
    (hn : s.handlers n = .applying request events persisted applied todo)
    (hp : Proceeds s n request events persisted applied todo t)
    (hlater : Later (tablesOf s.system.base) (tablesOf t.system.base)) : Tidy api t n := by
  have htodo : (s.handlers n).todo = todo := by rw [hn]; rfl
  have howed := (h.tidy n).owed
  rw [hn] at howed
  obtain ⟨hlen, hmissing, done, hdone, happlied, hkept⟩ := howed
  -- One more callback is done once its event and its attempt are stored.
  have hnext : ∀ {d : Ingress.Tables} {callback : MetaStatusUpdate} {rest : List MetaStatusUpdate}
      {status : CallbackApplyStatus}, Later (tablesOf s.system.base) d → todo = callback :: rest →
      status ≠ .missingAttempt → Noted d.deliveries callback →
      Owed api d (.applying request events persisted (applied ++ [status]) rest) := by
    intro d callback rest status hl he hstatus hnoted
    have hkept' := hkept.later hl
    refine ⟨hlen, ?_, done ++ [callback], by simp [hdone, he], by simp [happlied], ?_⟩
    · simp [hmissing, hstatus.symm]
    · refine ⟨hkept'.accepted, hkept'.claims, hkept'.messages, ?_⟩
      exact List.forall_mem_append.mpr ⟨hkept'.statuses, by simpa using hnoted⟩
  cases hp with
  | finish =>
    refine tidy_set (fun _ _ hopen => absurd hopen (h.closed htodo)) ⟨events, ?_, ?_⟩
    · rw [List.append_nil] at hdone
      exact hdone ▸ hkept
    · refine ⟨(count_persisted persisted).trans hlen, ?_⟩
      rw [hdone, List.append_nil, ← happlied, ← count_applied hmissing]
      rfl
  | refuse hidle hselect hout =>
    refine tidy_set (fun _ _ hopen => ?_) (owed_answered hout)
    rcases hopen with ho | ho <;> cases hidle.symm.trans ho
  | select =>
    refine ⟨fun callback' attempt' hopen => ?_, ?_⟩
    · simp only [Callbacks.OpenOn, State.withCallbacks, HandoffPause.State.withBase,
        Callbacks.State.setTxn, Function.update_self, Callbacks.Txn.selected.injEq, reduceCtorEq,
        or_false] at hopen
      rw [← hopen.1]
      exact congrArg List.head? htodo
    · exact ((h.tidy n).owed).later hlater
  | duplicate hread hlogged =>
    obtain ⟨rfl, hattempt⟩ := h.reads htodo (.inl hread)
    refine tidy_set (fun _ _ hopen => absurd hopen open_close) ?_
    have hnoted : Noted (tablesOf s.system.base).deliveries _ := ⟨hlogged, hattempt⟩
    exact hnext hlater rfl (by simp) (hnoted.later hlater)
  | insert hread hfree =>
    obtain ⟨rfl, -⟩ := h.reads htodo (.inl hread)
    refine ⟨fun callback' attempt' hopen => ?_, ?_⟩
    · simp only [Callbacks.OpenOn, State.withCallbacks, HandoffPause.State.withBase,
        Callbacks.State.setTxn, Function.update_self, Callbacks.Txn.inserted.injEq, reduceCtorEq,
        false_or] at hopen
      rw [← hopen.1]
      exact congrArg List.head? htodo
    · exact ((h.tidy n).owed).later hlater
  | commit hread hcommit =>
    obtain ⟨rfl, a, ha, hp⟩ := h.reads htodo (.inr hread)
    refine tidy_set (fun _ _ hopen => absurd hopen open_close) ?_
    refine hnext hlater rfl (commitCallback_status hcommit) ⟨?_, ?_⟩
    · exact logged_commit hcommit
    · obtain ⟨a', ha', -, -, hp'⟩ := hlater.attempts a ha _ hp
      exact ⟨a', ha', hp'⟩

theorem honoured_step (s : State) (l : Label) (t : State) (h : Honoured api s)
    (hs : step api cfg s l = some t) : Honoured api t := by
  obtain ⟨hknown, hdelivering, hlater⟩ := step_later h.known h.delivering hs
  refine ⟨hknown, hdelivering, fun m => ?_⟩
  by_cases hm : owner l = some m
  · cases l with
    | post n request draws reachable =>
      cases hm
      have hanswer : ∀ outcome, (∀ r, outcome ≠ .ok (.result r)) → (s.handlers m).todo = [] →
          some (s.answer m request outcome) = some t → Tidy api t m := by
        rintro outcome hout hidle he
        cases he
        exact tidy_set (fun _ _ hopen => absurd hopen (h.closed hidle)) (owed_answered hout)
      simp only [step] at hs
      split at hs
      · cases hs
      · rename_i hbusy
        have hidle : (s.handlers m).todo = [] := by
          cases hn : s.handlers m with
          | applying => exact absurd hn (hbusy _ _ _ _ _)
          | _ => rfl
        split at hs
        · rename_i haccept
          exact hanswer _ (accept_error haccept) hidle hs
        · rename_i haccept
          split_ifs at hs
          · cases hs
            exact store_tidy h hidle haccept
          · exact hanswer _ (error_not_result _) hidle hs
    | proceed n =>
      cases hm
      simp only [step] at hs
      split at hs
      · rename_i hn
        exact proceeds_tidy h hn (proceed_proceeds hs) hlater
      · cases hs
    | fail n =>
      cases hm
      simp only [step] at hs
      split at hs
      · cases hs
        exact tidy_set (fun _ _ hopen => absurd hopen open_close) (owed_answered (error_not_result _))
      · cases hs
    | crash n =>
      cases hm
      cases hs
      exact tidy_set (fun _ _ hopen => absurd hopen open_close) trivial
    | other l => cases hm
  · obtain ⟨hhandlers, htxns⟩ := step_elsewhere hs hm
    refine ⟨fun callback attempt hopen => ?_, ?_⟩
    · rw [hhandlers]
      refine (h.tidy m).own callback attempt ?_
      simpa only [Callbacks.OpenOn, htxns] using hopen
    · rw [hhandlers]
      exact (h.tidy m).owed.later hlater

theorem run_kept {schedule : List Label} (h : Honoured api s)
    (hrun : exec (step api cfg) s schedule = some t) :
    Honoured api t ∧ Later (tablesOf s.system.base) (tablesOf t.system.base) := by
  induction schedule generalizing s with
  | nil =>
    cases hrun
    exact ⟨h, .refl _⟩
  | cons l schedule ih =>
    obtain ⟨v, hv, hrest⟩ := exec_cons_some.mp hrun
    obtain ⟨ht, hlater⟩ := ih (honoured_step _ _ _ h hv) hrest
    exact ⟨ht, (step_later h.known h.delivering hv).2.2.trans hlater⟩

/-- A request that the webhook answered with its counts is stored for good: from then on the id
of each of its messages is taken, each sender has a conversation, and each of its callbacks has
its event and its attempt. -/
theorem answered_durable (api : Endpoint) (cfg : Worker.Config) {before after : List Label}
    {u : State} {n : ℕ} {request : Request} {r : WebhookIngestResult}
    (hbefore : exec (step api cfg) start before = some t)
    (hanswered : t.handlers n = .answered request (.ok (.result r)))
    (hafter : exec (step api cfg) t after = some u) :
    ∃ events, accept api request = .ok events ∧ Counts r events ∧
      (∀ message ∈ events.messages, Filed u.system.base.conversations message) ∧
      ∀ callback ∈ events.statuses, Noted u.deliveries.tables callback := by
  obtain ⟨h, -⟩ := run_kept (honoured_start api) hbefore
  obtain ⟨-, hlater⟩ := run_kept h hafter
  have howed := (h.tidy n).owed
  rw [hanswered] at howed
  obtain ⟨events, hkept, hcounts⟩ := howed
  have hkept' := hkept.later hlater
  exact ⟨events, hkept'.accepted, hcounts, hkept'.messages, hkept'.statuses⟩

/-- One signed request with one message, and its answer. -/
def answeredSchedule : List Label := [.post 0 signedRequest picksDraws true, .proceed 0]

theorem exec_answered : ∃ t,
    exec (step picksEndpoint Worker.sampleConfig) start answeredSchedule = some t ∧
      t.handlers 0 = .answered signedRequest (.ok (.result ⟨1, 0, 0, 0, 0⟩)) ∧
      t.handlers 1 = .idle := by
  have hidle : start.handlers 0 = .idle := rfl
  have hpost : step picksEndpoint Worker.sampleConfig start
      (.post 0 signedRequest picksDraws true) =
        some (store start 0 signedRequest picksDraws picksEvents) := by
    simp only [step, hidle, accept_signedRequest, if_true]
  have hstored : (store start 0 signedRequest picksDraws picksEvents).handlers 0 =
      .applying signedRequest picksEvents [.created] [] [] := rfl
  have hfinish : step picksEndpoint Worker.sampleConfig
      (store start 0 signedRequest picksDraws picksEvents) (.proceed 0) =
        some ((store start 0 signedRequest picksDraws picksEvents).answer 0 signedRequest
          (.ok (.result (tally [.created] [])))) := by
    simp only [step, hstored, proceed]
  refine ⟨_, exec_cons_some.mpr ⟨_, hpost, exec_cons_some.mpr ⟨_, hfinish, rfl⟩⟩, rfl, ?_⟩
  exact (store_elsewhere start one_ne_zero signedRequest picksDraws picksEvents).1

theorem picks_durable : ∃ t,
    exec (step picksEndpoint Worker.sampleConfig) start answeredSchedule = some t ∧
      t.handlers 0 = .answered signedRequest (.ok (.result ⟨1, 0, 0, 0, 0⟩)) ∧
      ∃ events, accept picksEndpoint signedRequest = .ok events ∧ Counts ⟨1, 0, 0, 0, 0⟩ events ∧
        (∀ message ∈ events.messages, Filed t.system.base.conversations message) ∧
        ∀ callback ∈ events.statuses, Noted t.deliveries.tables callback := by
  obtain ⟨t, ht, hanswered, -⟩ := exec_answered
  exact ⟨t, ht, hanswered,
    answered_durable picksEndpoint Worker.sampleConfig ht hanswered (exec_nil t)⟩

end Handling

end Piki.WebhookHandlers
