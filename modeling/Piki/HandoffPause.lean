import Piki.Isolation
import Piki.Turns
import Piki.WorkerOnce

/-! Replies in conversations that wait for a person. Workers, webhook deliveries and
calls of `respond` share the tables and the locks; nothing in them reads the status of
a conversation. -/
namespace Piki.HandoffPause
open Transition Turns ConversationOrchestrator Worker

/-- A call of `respond`. -/
inductive WebCall
  | idle
  | running (message : InboundMessage) (account : String) (scope : ConversationScope) (token : ℕ)
      (progress : Progress)

/-- A turn is late if its first session met a conversation that waited for a person. -/
structure State where
  base : Worker.State
  web : ℕ → WebCall
  lateWorkers : ℕ → Bool
  lateCalls : ℕ → Bool

inductive Label
  | base (l : Worker.Label)
  | call (n : ℕ) (message : InboundMessage) (account : String) (token : ℕ) (reachable : Bool)
  | session (n : ℕ) (session : Session)
  | leave (n : ℕ) (reachable : Bool)
  | crash (n : ℕ)

def waiting (db : ConversationTables) (conversationId : Uuid) : Bool :=
  db.conversations.any fun c => c.id = conversationId ∧ c.status = .needsHuman

def waitingFor (db : ConversationTables) (account : String) (message : InboundMessage) : Bool :=
  db.conversations.any fun c =>
    c.identity = (message.channel, account, message.conversationId) ∧ c.status = .needsHuman

/-- The job whose first session is next. -/
def lockedJob : Phase → Option ClaimedInbound
  | .locked job _ => some job
  | _ => none

/-- The message and the account of a call whose first session is next. -/
def begunCall : WebCall → Option (InboundMessage × String)
  | .running message account _ _ .begun => some (message, account)
  | _ => none

def lateLookup (s : Worker.State) (w : ℕ) : Bool :=
  (lockedJob (s.workers w)).any fun job => waiting s.conversations job.conversationRecordId

def markWorkers (s : State) : Worker.Label → ℕ → Bool
  | .worker w .lookup => Function.update s.lateWorkers w (lateLookup s.base w)
  | _ => s.lateWorkers

def markCalls (s : State) (n : ℕ) (account : String) (message : InboundMessage) :
    Session → ℕ → Bool
  | .first _ _ =>
    Function.update s.lateCalls n (waitingFor s.base.conversations account message)
  | _ => s.lateCalls

def State.setWeb (s : State) (n : ℕ) (c : WebCall) : State :=
  { s with web := Function.update s.web n c }

def State.withBase (s : State) (b : Worker.State) : State := { s with base := b }

/-- One step of a worker, of a call or of the outside world. -/
def step (cfg : Config) (s : State) : Label → Option State
  | .base l => (Worker.step cfg s.base l).map fun b =>
      { s with base := b, lateWorkers := markWorkers s l }
  | .call n message account token reachable =>
    match s.web n with
    | .running _ _ _ _ _ => none
    | .idle =>
      match (Invocation.respond message account).scope with
      | .error _ => some s
      | .ok scope =>
        if reachable = true ∧ s.base.locks scope = none then
          some ((s.withBase (s.base.setLock scope (some token))).setWeb n
            (.running message account scope token .begun))
        else some s
  | .session n session =>
    match s.web n with
    | .idle => none
    | .running message account scope token p =>
      match advance cfg.unicode (.respond message account) s.base.conversations p session with
      | none => none
      | some (db, p) =>
        some { (s.withBase (s.base.withConversations db)).setWeb n
          (.running message account scope token p) with
          lateCalls := markCalls s n account message session }
  | .leave n reachable =>
    match s.web n with
    | .running _ _ scope token (.ended _) =>
      let b := if reachable = true ∧ s.base.locks scope = some token then
        s.base.setLock scope none else s.base
      some ((s.withBase b).setWeb n .idle)
    | _ => none
  | .crash n => some (s.setWeb n .idle)

def start (conversations : ConversationTables) (deliveries : DeliveryTables) : State :=
  ⟨Worker.start conversations deliveries, fun _ => .idle, fun _ => false, fun _ => false⟩

/-- The step does not compose, record or send a reply of a late turn. -/
def Silent (cfg : Config) (s : State) : Label → Prop
  | .base (.worker w (.compose ports handoffId now _)) => s.lateWorkers w = true →
    ∀ job lease history, s.base.workers w = .opened job lease history →
      ∀ r, (composeFor cfg.unicode ports s.base.conversations handoffId now job.message
        job.conversationRecordId history).reply ≠ .ok r
  | .base (.worker w (.record _ _ _)) => s.lateWorkers w = true →
    ∀ job lease text fb, s.base.workers w ≠ .composed job lease text fb
  | .base (.worker w .invoke) => s.lateWorkers w = true →
    ∀ job attemptId request, s.base.workers w ≠ .posting job attemptId request
  | .session n (.compose ports handoffId now _) => s.lateCalls n = true →
    ∀ message account scope token cid history,
      s.web n = .running message account scope token (.opened cid history) →
      ∀ r, (composeFor cfg.unicode ports s.base.conversations handoffId now message cid
        history).reply ≠ .ok r
  | .session n (.last _ _ _) => s.lateCalls n = true →
    ∀ message account scope token cid text fb,
      s.web n ≠ .running message account scope token (.composed cid text fb)
  | _ => True

/-- A first session that meets a waiting conversation belongs to a turn that has nothing
to say: the message has no text and no stored reply, or its reply is stored and was
given to a delivery attempt already; for a web call, the message has no text or is
stored already. -/
def NothingToSay (s : State) : Label → Prop
  | .base (.worker w .lookup) => ∀ job ∈ lockedJob (s.base.workers w),
    waiting s.base.conversations job.conversationRecordId = true →
      (findReply s.base.conversations job.message.messageId = none ∧
        job.message.text.getD "" = "") ∨
      ((findReply s.base.conversations job.message.messageId).isSome = true ∧
        Claimed s.base.deliveries.tables (replyKey job.message.messageId))
  | .session n (.first _ _) => ∀ c ∈ begunCall (s.web n),
    waitingFor s.base.conversations c.2 c.1 = true →
      c.1.text.getD "" = "" ∨
        ∃ m ∈ s.base.conversations.messages, m.externalMessageId = some c.1.messageId
  | _ => True

instance (d : DeliveryTables) (key : String) : Decidable (Claimed d key) :=
  inferInstanceAs (Decidable (∃ a ∈ d.attempts, a.idempotencyKey = key))

instance (s : State) : (l : Label) → Decidable (NothingToSay s l)
  | .base (.worker w .lookup) => inferInstanceAs (Decidable (∀ job ∈ lockedJob (s.base.workers w),
      waiting s.base.conversations job.conversationRecordId = true →
        (findReply s.base.conversations job.message.messageId = none ∧
          job.message.text.getD "" = "") ∨
        ((findReply s.base.conversations job.message.messageId).isSome = true ∧
          Claimed s.base.deliveries.tables (replyKey job.message.messageId))))
  | .session n (.first _ _) => inferInstanceAs (Decidable (∀ c ∈ begunCall (s.web n),
      waitingFor s.base.conversations c.2 c.1 = true → c.1.text.getD "" = "" ∨
        ∃ m ∈ s.base.conversations.messages, m.externalMessageId = some c.1.messageId))
  | .base (.worker _ (.claim _ _ _)) | .base (.worker _ (.acquire _ _))
  | .base (.worker _ (.compose _ _ _ _)) | .base (.worker _ (.record _ _ _))
  | .base (.worker _ (.release _)) | .base (.worker _ (.deliver _ _ _))
  | .base (.worker _ .invoke) | .base (.worker _ (.receive _)) | .base (.worker _ (.finalize _ _))
  | .base (.worker _ (.settle _ _)) | .base (.worker _ (.fail _ _)) | .base (.worker _ .disturb)
  | .base (.worker _ .crash) | .base (.ingest _ _) | .base (.callback _) | .base (.expire _)
  | .session _ (.compose _ _ _ _) | .session _ (.last _ _ _) | .session _ (.raise _)
  | .call _ _ _ _ _ | .leave _ _ | .crash _ => isTrue trivial

/-- Phases of a turn from which no reply can come. -/
def Phase.Mute (d : DeliveryTables) : Phase → Prop
  | .opened job _ _ => job.message.text.getD "" = ""
  | .composed _ _ _ _ | .posting _ _ _ | .awaiting _ _ _ | .posted _ _ _ => False
  | .releasing job _ (.ok _) | .replied job _ => Claimed d (replyKey job.message.messageId)
  | _ => True

def Progress.Mute (message : InboundMessage) : Progress → Prop
  | .opened _ _ => message.text.getD "" = ""
  | .composed _ _ _ => False
  | _ => True

/-- No reply can come from a turn that is late. -/
structure Inv (s : State) : Prop where
  workers : ∀ w, s.lateWorkers w = true → Phase.Mute s.base.deliveries.tables (s.base.workers w)
  calls : ∀ n, s.lateCalls n = true → ∀ message account scope token p,
    s.web n = .running message account scope token p → Progress.Mute message p

theorem Phase.Mute.mono {d d' : DeliveryTables} (hd : ∀ key, Claimed d key → Claimed d' key)
    {p : Phase} (h : Phase.Mute d p) : Phase.Mute d' p := by
  cases p with
  | releasing job lease outcome =>
    cases outcome with
    | ok reply => exact hd _ h
    | error e => trivial
  | replied job reply => exact hd _ h
  | _ => exact h

theorem Phase.Mute.of_lapses {p q : Phase} (h : p.Lapses q) (d : DeliveryTables) :
    Phase.Mute d q := by
  obtain ⟨hq, -⟩ := h
  cases q with
  | releasing job lease outcome =>
    cases outcome with
    | ok reply => cases hq
    | error e => trivial
  | idle | failing | stopped | claimed | locked | settling => trivial
  | _ => cases hq

section
variable {cfg : Config}

theorem move_claimed {s : Worker.State} {a : Action} {p q : Phase} {db : ConversationTables}
    {d : DeliveryTables} {sent : List DeliveryRequest} (h : Move cfg s a p q db d sent) (key : String)
    (hk : Claimed s.deliveries.tables key) : Claimed d key := by
  rcases h.attempts with hsame | ⟨row, hrow, -⟩
  · exact claimed_of_keys hsame hk
  · obtain ⟨x, hx, he⟩ := hk
    exact ⟨x, hrow ▸ List.mem_append_left _ hx, he⟩

/-- The moves after the first session, other than a composition, keep a turn mute. -/
theorem move_mute {s : Worker.State} {a : Action} {p q : Phase} {db : ConversationTables}
    {d : DeliveryTables} {sent : List DeliveryRequest} (h : Move cfg s a p q db d sent)
    (hlookup : a ≠ .lookup) (hcompose : ∀ ports hid now acked, a ≠ .compose ports hid now acked)
    (hp : Phase.Mute s.deliveries.tables p) : Phase.Mute d q := by
  cases h with
  | lapse hq | settle hc hq | fail hc hq => exact .of_lapses hq _
  | claim hq hc =>
    rcases hq with rfl | hq
    · trivial
    · exact .of_lapses hq _
  | acquire lease => trivial
  | stored hc | fresh history => exact absurd rfl hlookup
  | compose ports hid now hq => exact absurd rfl (hcompose ports hid now _)
  | record id now hq | invoke | receive hc | finalize hc hq => cases hp
  | release reply => exact hp
  | created hrequest hc hq =>
    rcases DeliveryStore.claim_ok hc with ⟨hfalse, -⟩ | ⟨-, -, hnew, -, -⟩
    · cases hfalse
    · obtain ⟨x, hx, he⟩ := hp
      exact absurd (he.trans (replyRequest_content hrequest).1.symm) (hnew x hx)
  | replayed hrequest hc hq =>
    rcases hq with ⟨result, -, rfl⟩ | hq
    · trivial
    · exact .of_lapses hq _

/-- A late turn without text fails to compose. -/
theorem compose_mute {s t : Worker.State} {w : ℕ} {ports : Ports} {handoffId : Uuid} {now : Time}
    {acked : Bool} (h : act cfg s w (.compose ports handoffId now acked) = some t)
    (hp : Phase.Mute s.deliveries.tables (s.workers w)) :
    Phase.Mute t.deliveries.tables (t.workers w) := by
  simp only [act] at h
  split at h
  · rename_i job lease history hw
    rw [hw] at hp
    obtain ⟨e, he⟩ := composeFor_empty cfg.unicode ports s.conversations handoffId now hp
      job.conversationRecordId history
    simp only [he] at h
    cases h
    have hs : (s.withConversations (composeFor cfg.unicode ports s.conversations handoffId now
      job.message job.conversationRecordId history).tables).workers w = _ := hw
    obtain ⟨q, hq, hput⟩ := State.raise_put cfg hs e
    rw [hput]
    simp only [State.put, Function.update_self]
    exact .of_lapses hq _
  · cases h

/-- A first session that has nothing to say leaves a mute turn. -/
theorem lookup_mute {s t : Worker.State} {w : ℕ} (h : act cfg s w .lookup = some t)
    (hp : ∀ job lease, s.workers w = .locked job lease →
      (findReply s.conversations job.message.messageId = none ∧ job.message.text.getD "" = "") ∨
      ((findReply s.conversations job.message.messageId).isSome = true ∧
        Claimed s.deliveries.tables (replyKey job.message.messageId))) :
    Phase.Mute t.deliveries.tables (t.workers w) := by
  simp only [act] at h
  split at h
  · rename_i job lease hw
    specialize hp job lease hw
    cases hf : findReply s.conversations job.message.messageId with
    | none =>
      obtain ⟨-, htext⟩ := hp.resolve_right (by simp [hf])
      simp only [lookupReply, hf] at h
      cases hrows : ConversationRepository.recentMessages s.conversations job.conversationRecordId 20 with
      | error e =>
        simp only [hrows] at h
        cases h
        obtain ⟨q, hq, hput⟩ := State.raise_put cfg hw e
        rw [show s.raise cfg w e = _ from hput]
        simp only [State.put, Function.update_self]
        exact .of_lapses hq _
      | ok history =>
        simp only [hrows] at h
        cases h
        simp only [State.put, Function.update_self]
        exact htext
    | some existing =>
      obtain ⟨-, hclaimed⟩ := hp.resolve_left (by simp [hf])
      simp only [lookupReply, hf] at h
      cases hreply : storedReply cfg.unicode job.message job.conversationRecordId existing with
      | error e =>
        simp only [hreply] at h
        cases h
        obtain ⟨q, hq, hput⟩ := State.raise_put cfg hw e
        rw [show s.raise cfg w e = _ from hput]
        simp only [State.put, Function.update_self]
        exact .of_lapses hq _
      | ok reply =>
        simp only [hreply] at h
        cases h
        simp only [State.put, Function.update_self]
        exact hclaimed
  · cases h

theorem Progress.Mute.of_acknowledged {message : InboundMessage} {p : Progress} (acked : Bool)
    (h : Progress.Mute message p) : Progress.Mute message (p.acknowledged acked) := by
  cases acked with
  | true => exact h
  | false => trivial

/-- A web call that has nothing to say is mute after its first session. -/
theorem first_mute {u : Text.Unicode} {message : InboundMessage} {account : String}
    {db db' : ConversationTables} {p p' : Progress} {draw : Draw} {acked : Bool}
    (h : advance u (.respond message account) db p (.first draw acked) = some (db', p'))
    (hp : p = .begun → message.text.getD "" = "" ∨
      ∃ m ∈ db.messages, m.externalMessageId = some message.messageId) :
    Progress.Mute message p' := by
  cases p with
  | begun =>
    simp only [advance, firstSession] at h
    cases hopen : openCall u db draw account message with
    | error e =>
      rw [hopen, error_bind] at h
      cases h
      trivial
    | ok r =>
      obtain ⟨⟨reply⟩ | ⟨cid, history⟩, db₁⟩ := r
      · rw [hopen, ok_bind] at h
        cases h
        exact .of_acknowledged acked trivial
      · rw [hopen, ok_bind] at h
        cases h
        refine .of_acknowledged acked ?_
        rcases hp rfl with htext | ⟨m, hm, he⟩
        · exact htext
        · exact absurd he (Isolation.openCall_opened hopen m hm)
  | opened | composed | ended => cases h

/-- The later sessions of a mute web call keep it mute. -/
theorem session_mute {u : Text.Unicode} {message : InboundMessage} {account : String}
    {db db' : ConversationTables} {p p' : Progress} {session : Session}
    (h : advance u (.respond message account) db p session = some (db', p'))
    (hfirst : ∀ draw acked, session ≠ .first draw acked) (hp : Progress.Mute message p) :
    Progress.Mute message p' := by
  cases session with
  | first draw acked => exact absurd rfl (hfirst draw acked)
  | compose ports handoffId now acked =>
    cases p with
    | opened cid history =>
      obtain ⟨e, he⟩ := composeFor_empty u ports db handoffId now hp cid history
      simp only [advance, Invocation.message, he] at h
      cases h
      trivial
    | begun | composed | ended => cases h
  | last id now acked =>
    cases p with
    | composed cid text fb => cases hp
    | begun | opened | ended => cases h
  | raise e =>
    cases p with
    | ended outcome => cases h
    | begun | opened | composed =>
      cases h
      trivial

theorem inv_base {s : State} {l : Worker.Label} {b : Worker.State} (h : Inv s)
    (hs : Worker.step cfg s.base l = some b) (hc : NothingToSay s (.base l)) :
    Inv { s with base := b, lateWorkers := markWorkers s l } := by
  refine ⟨?_, h.calls⟩
  intro w hw
  cases step_stepped hs with
  | refused | recorded | expire => exact h.workers w hw
  | callback hd =>
    exact (h.workers w hw).mono fun key hk => claimed_of_keys (callback_keys hd) hk
  | @worker v a _ _ _ _ locks hact hmove =>
    by_cases he : w = v
    · subst he
      by_cases hlookup : a = .lookup
      · subst hlookup
        simp only [markWorkers, Function.update_self] at hw
        refine lookup_mute hact fun job lease hlocked => hc job (by rw [hlocked]; rfl) ?_
        simpa [lateLookup, lockedJob, hlocked] using hw
      · have hlate : s.lateWorkers w = true := by
          cases a <;> first | exact hw | exact absurd rfl hlookup
        by_cases hcompose : ∃ ports hid now acked, a = .compose ports hid now acked
        · obtain ⟨ports, hid, now, acked, rfl⟩ := hcompose
          exact compose_mute hact (h.workers w hlate)
        · have hq := move_mute hmove hlookup (fun ports hid now acked ha =>
            hcompose ⟨ports, hid, now, acked, ha⟩) (h.workers w hlate)
          simp only [State.moved, Function.update_self]
          exact hq
    · have hlate : s.lateWorkers w = true := by
        cases a with
        | lookup => simpa only [markWorkers, Function.update_of_ne he] using hw
        | _ => exact hw
      have hq := (h.workers w hlate).mono (move_claimed hmove)
      simp only [State.moved, Function.update_of_ne he]
      exact hq

theorem inv_setWeb {s : State} (h : Inv s) (n : ℕ) {c : WebCall}
    (hc : s.lateCalls n = true → ∀ message account scope token p,
      c = .running message account scope token p → Progress.Mute message p) :
    Inv (s.setWeb n c) := by
  refine ⟨h.workers, ?_⟩
  intro m hm message account scope token p hp
  by_cases he : m = n
  · subst he
    exact hc hm message account scope token p (by simpa [State.setWeb] using hp)
  · exact h.calls m hm message account scope token p (by simpa [State.setWeb, he] using hp)

theorem inv_session {s : State} {n : ℕ} {session : Session} {message : InboundMessage}
    {account : String} {scope : ConversationScope} {token : ℕ} {p p' : Progress}
    {db : ConversationTables} (h : Inv s) (hweb : s.web n = .running message account scope token p)
    (hadv : advance cfg.unicode (.respond message account) s.base.conversations p session =
      some (db, p')) (hc : NothingToSay s (.session n session)) :
    Inv { (s.withBase (s.base.withConversations db)).setWeb n
      (.running message account scope token p') with
      lateCalls := markCalls s n account message session } := by
  refine ⟨h.workers, ?_⟩
  intro m hm message' account' scope' token' p'' hp
  by_cases he : m = n
  · subst he
    have hrun : WebCall.running message account scope token p' =
        .running message' account' scope' token' p'' := by
      simpa [State.setWeb] using hp
    cases hrun
    cases session with
    | first draw acked =>
      simp only [markCalls, Function.update_self] at hm
      refine first_mute hadv fun hbegun => hc (message, account) ?_ hm
      rw [hweb, hbegun]
      rfl
    | compose | last | raise =>
      exact session_mute hadv (by simp) (h.calls m hm message account scope token p hweb)
  · have hold : s.lateCalls m = true := by
      cases session with
      | first draw acked => simpa only [markCalls, Function.update_of_ne he] using hm
      | compose | last | raise => exact hm
    exact h.calls m hold message' account' scope' token' p'' (by simpa [State.setWeb, State.withBase, he] using hp)

theorem inv_step {s t : State} {l : Label} (h : Inv s) (hc : NothingToSay s l)
    (hs : step cfg s l = some t) : Inv t := by
  cases l with
  | base l =>
    obtain ⟨b, hb, rfl⟩ := Option.map_eq_some_iff.mp hs
    exact inv_base h hb hc
  | call n message account token reachable =>
    simp only [step] at hs
    split at hs
    · cases hs
    · split at hs
      · cases hs
        exact h
      · split_ifs at hs
        · rename_i scope _ _
          cases hs
          have hlocked : Inv (s.withBase (s.base.setLock scope (some token))) :=
            ⟨h.workers, h.calls⟩
          refine inv_setWeb hlocked n ?_
          intro _ message' account' scope' token' p hp
          cases hp
          trivial
        · cases hs
          exact h
  | session n session =>
    simp only [step] at hs
    split at hs
    · cases hs
    · rename_i message account scope token p hweb
      split at hs
      · cases hs
      · rename_i db p' hadv
        cases hs
        exact inv_session h hweb hadv hc
  | leave n reachable =>
    simp only [step] at hs
    split at hs
    · rename_i scope token outcome _
      cases hs
      have hreleased : Inv (s.withBase (if reachable = true ∧ s.base.locks scope = some token then
          s.base.setLock scope none else s.base)) := by
        refine ⟨?_, h.calls⟩
        intro w hw
        simp only [State.withBase]
        split_ifs <;> exact h.workers w hw
      exact inv_setWeb hreleased n fun _ _ _ _ _ _ hidle => by cases hidle
    · cases hs
  | crash n =>
    cases hs
    exact inv_setWeb h n (by simp)

/-- While no reply can come from a late turn, none does. -/
theorem silent_of_inv {s : State} (h : Inv s) (l : Label) : Silent cfg s l := by
  cases l with
  | call | leave | crash => trivial
  | session n session =>
    cases session with
    | first | raise => trivial
    | compose ports handoffId now acked =>
      intro hlate message account scope token cid history hweb r hr
      obtain ⟨e, he⟩ := composeFor_empty cfg.unicode ports s.base.conversations handoffId now
        (h.calls n hlate message account scope token _ hweb) cid history
      rw [he] at hr
      cases hr
    | last id now acked =>
      intro hlate message account scope token cid text fb hweb
      exact h.calls n hlate message account scope token _ hweb
  | base l =>
    cases l with
    | ingest | callback | expire => trivial
    | worker w a =>
      cases a with
      | compose ports handoffId now acked =>
        intro hlate job lease history hw r hr
        have hmute := h.workers w hlate
        rw [hw] at hmute
        obtain ⟨e, he⟩ := composeFor_empty cfg.unicode ports s.base.conversations handoffId now hmute
          job.conversationRecordId history
        rw [he] at hr
        cases hr
      | record id now acked =>
        intro hlate job lease text fb hw
        have hmute := h.workers w hlate
        rw [hw] at hmute
        exact hmute
      | invoke =>
        intro hlate job attemptId request hw
        have hmute := h.workers w hlate
        rw [hw] at hmute
        exact hmute
      | _ => trivial

/-- In every run in which each first session that meets a waiting conversation belongs
to a turn with nothing to say, no late turn composes, records or sends a reply. -/
theorem handoff_pauses_replies (cfg : Config) (conversations : ConversationTables)
    (deliveries : DeliveryTables) {schedule : List Label}
    (h : Along (step cfg) NothingToSay (start conversations deliveries) schedule) :
    Along (step cfg) (Silent cfg) (start conversations deliveries) schedule := by
  have hstart : Inv (start conversations deliveries) := by
    refine ⟨?_, ?_⟩ <;> intro _ hlate <;> cases hlate
  exact along_mono (fun _ _ _ hi hc hs => inv_step hi hc hs) (fun _ l hi _ => silent_of_inv hi l)
    hstart h

end

section Samples

def askPerson : InboundMessage :=
  accepted (InboundMessage.make "wamid.1" .whatsapp "549" "549" .text (some "persona") 0
    [("phone_number_id", "phone")]) (by decide +kernel)

def bareImage : InboundMessage :=
  accepted (InboundMessage.make "wamid.3" .whatsapp "549" "549" .image none 0
    [("phone_number_id", "phone")]) (by decide +kernel)

/-- A message that asks for a person is being processed. -/
def askedTables : ConversationTables :=
  MessageProcessingStore.updateMessage
    ⟨[⟨1, .whatsapp, "phone", "549", .pikiActive⟩],
      [ConversationRepository.inboundRow ⟨1, 2, 0, 0⟩ 1 askPerson "meta:wamid.1" true], []⟩
    2 (MessageProcessingStore.markProcessing 0)

def waitingTables : ConversationTables :=
  { askedTables with
    conversations := [⟨1, .whatsapp, "phone", "549", .needsHuman⟩]
    handoffs := [⟨9, 1, "handoff:wamid.1", .requested, "La persona solicitó atención humana.",
      "conversation:wamid.1", 0⟩] }

/-- Another message of the conversation arrives and is taken up by a worker. -/
def laterSchedule : List Label :=
  .base (.ingest (fun _ => ⟨6, 7, 1, 1⟩) [nextMessage]) ::
    [Action.claim 6 [] true, .acquire 6 true, .lookup, .compose offlinePorts 19 6 true,
      .record 13 6 true, .release true, .deliver 14 6 true].map fun a => .base (.worker 1 a)

set_option maxRecDepth 10000 in
/-- The handoff is committed, and yet a reply to the later message is composed,
recorded and sent. -/
theorem waiting_conversation_answered :
    requestHandoff askedTables 9 0 1 "wamid.1" "conversation:wamid.1" = .ok (true, waitingTables) ∧
      (exec (step Worker.sampleConfig) (start waitingTables .empty) laterSchedule).map (fun s =>
        (s.base.conversations.conversations.map ConversationRecord.status, s.lateWorkers 1,
          (s.base.workers 1).isPosting)) = some ([.needsHuman], true, true) ∧
      ¬ Along (step Worker.sampleConfig) (Silent Worker.sampleConfig) (start waitingTables .empty)
        (laterSchedule ++ [.base (.worker 1 .invoke)]) := by
  have hrun : (exec (step Worker.sampleConfig) (start waitingTables .empty) laterSchedule).map
      (fun s => (s.base.conversations.conversations.map ConversationRecord.status, s.lateWorkers 1,
        (s.base.workers 1).isPosting)) = some ([.needsHuman], true, true) := by
    decide
  refine ⟨by decide, hrun, fun h => ?_⟩
  obtain ⟨s, hs, hstate⟩ := Option.map_eq_some_iff.mp hrun
  simp only [Prod.mk.injEq] at hstate
  obtain ⟨-, hlate, hposting⟩ := hstate
  have hsilent := along_last h hs hlate
  cases hw : s.base.workers 1 with
  | posting job attemptId request => exact hsilent job attemptId request hw
  | _ =>
    rw [hw] at hposting
    cases hposting

/-- A picture without a caption arrives in the waiting conversation. -/
def imageSchedule : List Label :=
  .base (.ingest (fun _ => ⟨6, 7, 1, 1⟩) [bareImage]) ::
    [Action.claim 6 [] true, .acquire 6 true, .lookup, .compose offlinePorts 19 6 true,
      .release true, .fail 6 true].map fun a => .base (.worker 1 a)

theorem image_turn_silent :
    (exec (step Worker.sampleConfig) (start waitingTables .empty) imageSchedule).map (fun s =>
        s.lateWorkers 1) = some true ∧
      Along (step Worker.sampleConfig) (Silent Worker.sampleConfig) (start waitingTables .empty)
        imageSchedule :=
  ⟨by decide,
    handoff_pauses_replies Worker.sampleConfig waitingTables .empty (by decide)⟩

end Samples
end Piki.HandoffPause
