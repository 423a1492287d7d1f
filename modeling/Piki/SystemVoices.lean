import Piki.SystemIntegrity

/-! Who said what. Every inbound row repeats a message that was sent to the system, in the
conversation of its sender, and the model is shown no other conversation. -/
namespace Piki.System
open Table Transition ConversationRepository ConversationOrchestrator MessageProcessingStore Worker
open Turns
variable {cfg : Config} {heard heard' : List (InboundMessage × String)}

/-- A person, as one channel account knows them. -/
abbrev Person := Channel × String × String

/-- The person behind a message, given the account that received it. -/
def sender (p : InboundMessage × String) : Person := (p.1.channel, p.2, p.1.conversationId)

/-- The messages of a webhook delivery, with the phone number each was sent to. -/
def deliveredTo (messages : List InboundMessage) : List (InboundMessage × String) :=
  messages.filterMap fun message =>
    (Ingress.phoneNumberId message).toOption.map fun account => (message, account)

/-- What a step brings in from outside. -/
def incoming : HandoffPause.Label → List (InboundMessage × String)
  | .base (.ingest _ messages) => deliveredTo messages
  | .call _ message account _ _ => [(message, account)]
  | _ => []

/-- The person sent this text. -/
def Said (heard : List (InboundMessage × String)) (person : Person) (text : String) : Prop :=
  ∃ p ∈ heard, sender p = person ∧ p.1.text = some text

/-- The row repeats a message that was heard, in the conversation of its sender. -/
def Authentic (heard : List (InboundMessage × String)) (db : ConversationTables)
    (m : MessageRecord) : Prop :=
  ∃ p ∈ heard, m.externalMessageId = some p.1.messageId ∧ m.kind = p.1.kind ∧
    m.contentText = p.1.text ∧
    ∃ c ∈ db.conversations, c.id = m.conversationId ∧ c.identity = sender p

section Rows

theorem Authentic.mono {db : ConversationTables} {m : MessageRecord} (h : Authentic heard db m)
    (hs : heard ⊆ heard') : Authentic heard' db m := by
  obtain ⟨p, hp, hrest⟩ := h
  exact ⟨p, hs hp, hrest⟩

theorem Authentic.extends {db db' : Ingress.Tables} {m m' : MessageRecord}
    (h : Authentic heard db.conversations m) (he : Extends db db') (hm : m'.content = m.content) :
    Authentic heard db'.conversations m' := by
  obtain ⟨p, hp, hext, hkind, htext, c, hc, hid, hident⟩ := h
  obtain ⟨c', hc', hid', hident'⟩ := he.conversation hc
  refine ⟨p, hp, (content_external hm).trans hext,
    (content_field MessageRecord.kind (fun _ => rfl) hm).trans hkind,
    (content_field MessageRecord.contentText (fun _ => rfl) hm).trans htext, c', hc', ?_,
    hident'.trans hident⟩
  exact (hid'.trans hid).trans (content_field MessageRecord.conversationId (fun _ => rfl) hm).symm

/-- A stored row of these tables is an old one, or a new one that may be stored. -/
def Stored (heard : List (InboundMessage × String)) (old : List MessageRecord)
    (db : ConversationTables) : Prop :=
  ∀ m ∈ db.messages, (∃ x ∈ old, m.content = x.content) ∨
    (AtMost 4096 m.contentText ∧ (m.direction = .inbound → Authentic heard db m))

theorem stored_of_eq {old : List MessageRecord} {db : ConversationTables}
    (h : db.messages = old) : Stored heard old db := by
  intro m hm
  exact .inl ⟨m, h ▸ hm, rfl⟩

theorem stored_update {db : ConversationTables} {p : MessageRecord → Bool}
    {f : MessageRecord → MessageRecord} (hf : ∀ m, (f m).content = m.content) :
    Stored heard db.messages { db with messages := updateWhere p f db.messages } := by
  intro m hm
  obtain ⟨x, hx, rfl⟩ := mem_updateWhere.mp hm
  refine .inl ⟨x, hx, ?_⟩
  split_ifs
  · exact hf x
  · rfl

/-- The conversation that a message is put into is that of its sender. -/
theorem upsertConversation_sender {db db' : ConversationTables} {id cid : Uuid}
    {message : InboundMessage} {account : String}
    (h : upsertConversation db id message.channel account message.conversationId = .ok (cid, db')) :
    ∃ c ∈ db'.conversations, c.id = cid ∧ c.identity = sender (message, account) := by
  rcases upsertConversation_ok h with ⟨rfl, c, hc, hident, hid⟩ | ⟨rfl, -, -, rfl⟩
  · exact ⟨c, hc, hid, hident⟩
  · exact ⟨_, List.mem_append_right _ (List.mem_singleton_self _), rfl, rfl⟩

theorem recordInbound_stored {db db' : ConversationTables} {draw : Draw} {account traceId : String}
    {message : InboundMessage} {enqueue : Bool} {p : PersistedInbound}
    (h : recordInbound db draw account message traceId enqueue = .ok (p, db')) :
    Stored [(message, account)] db.messages db' ∧
      ∃ c ∈ db'.conversations, c.id = p.conversationId ∧ c.identity = sender (message, account) := by
  obtain ⟨db₁, hup, hins⟩ := recordInbound_ok h
  obtain ⟨c, hc, hid, hident⟩ := upsertConversation_sender hup
  rcases hins with ⟨-, rfl, -⟩ | ⟨-, -, -, rfl⟩
  · exact ⟨stored_of_eq (upsertConversation_messages hup), c, hc, hid, hident⟩
  · refine ⟨?_, c, hc, hid, hident⟩
    intro m hm
    rcases List.mem_append.mp hm with hm | hm
    · exact .inl ⟨m, hm, rfl⟩
    · cases List.mem_singleton.mp hm
      exact .inr ⟨message.text_bounded, fun _ =>
        ⟨_, List.mem_singleton_self _, rfl, rfl, rfl, c, hc, hid, hident⟩⟩

/-- The rows of a webhook delivery repeat its messages. -/
theorem recordMessages_authentic {draws : ℕ → Draw} {d : Ingress.Tables}
    {messages : List InboundMessage} {statuses : List PersistStatus}
    {conversations : ConversationTables}
    (h : Ingress.recordMessages draws d.conversations messages = .ok (statuses, conversations)) :
    Stored (deliveredTo messages) d.conversations.messages conversations := by
  induction messages generalizing draws d statuses with
  | nil =>
    cases h
    exact stored_of_eq rfl
  | cons message messages ih =>
    obtain ⟨account, haccount, hrest⟩ := bind_ok h
    obtain ⟨⟨p, db₁⟩, hrec, hrest⟩ := bind_ok hrest
    obtain ⟨⟨rest, db₂⟩, htail, hret⟩ := bind_ok hrest
    cases hret
    have hheard : deliveredTo (message :: messages) = (message, account) :: deliveredTo messages := by
      simp [deliveredTo, haccount, Except.toOption]
    have he := (recordMessages_writes (d := { d with conversations := db₁ }) htail).extends
    intro m hm
    rcases ih (d := { d with conversations := db₁ }) htail m hm with ⟨x, hx, hc⟩ | ⟨htext, hnew⟩
    · rcases (recordInbound_stored hrec).1 x hx with ⟨y, hy, hxy⟩ | ⟨htext, hnew⟩
      · exact .inl ⟨y, hy, hc.trans hxy⟩
      · refine .inr ⟨?_, fun hdir => ?_⟩
        · rw [content_field MessageRecord.contentText (fun _ => rfl) hc]
          exact htext
        · rw [content_field MessageRecord.direction (fun _ => rfl) hc] at hdir
          refine ((hnew hdir).extends he hc).mono ?_
          simp [hheard]
    · refine .inr ⟨htext, fun hdir => (hnew hdir).mono ?_⟩
      simp [hheard]

/-- A turn records only a reply. -/
theorem recordReply_stored (u : Text.Unicode) (db : ConversationTables) (id : Uuid) (now : Time)
    (message : InboundMessage) (cid : Uuid) {text : String} (fb : Bool)
    (htext : Bounded 1 4096 text) :
    Stored heard db.messages (recordReply u db id now message cid text fb).1 := by
  obtain ⟨rows, hrows, hall⟩ := recordReply_rows u db id now message cid text fb
  intro m hm
  rcases List.mem_append.mp (hrows ▸ hm) with hm | hm
  · exact .inl ⟨m, hm, rfl⟩
  · rw [hall m hm]
    refine .inr ⟨fun t ht => ?_, fun hdir => by cases hdir⟩
    cases ht
    exact htext.2

end Rows

section Histories

/-- The remembered messages are stored in this conversation. -/
def Recalled (db : ConversationTables) (cid : Uuid) (history : List MessageRecord) : Prop :=
  ∀ m ∈ history, m.conversationId = cid ∧ ∃ x ∈ db.messages, x.content = m.content

theorem Recalled.keeps {db db' : ConversationTables} {cid : Uuid} {history : List MessageRecord}
    (h : Recalled db cid history) (hk : Keeps db db') : Recalled db' cid history := by
  intro m hm
  obtain ⟨hcid, x, hx, hc⟩ := h m hm
  obtain ⟨x', hx', hc'⟩ := hk.mem hx
  exact ⟨hcid, x', hx', hc'.trans hc⟩

theorem recentMessages_recalled {db : ConversationTables} {cid : Uuid} {limit : ℕ}
    {history : List MessageRecord} (h : recentMessages db cid limit = .ok history) :
    Recalled db cid history := by
  unfold recentMessages at h
  split_ifs at h
  cases h
  intro m hm
  have hs := List.mem_of_mem_take (List.mem_reverse.mp hm)
  obtain ⟨hdb, hcid⟩ := List.mem_filter.mp ((List.mem_insertionSort _).mp hs)
  exact ⟨of_decide_eq_true hcid, m, hdb, rfl⟩

theorem lookupReply_fresh {u : Text.Unicode} {db : ConversationTables} {message : InboundMessage}
    {cid : Uuid} {history : List MessageRecord}
    (h : lookupReply u db message cid = .ok (.fresh history)) :
    recentMessages db cid 20 = .ok history := by
  unfold lookupReply at h
  cases hf : findReply db message.messageId with
  | some existing =>
    simp only [hf] at h
    obtain ⟨r, -, he⟩ := map_ok h
    cases he
  | none =>
    simp only [hf] at h
    obtain ⟨rows, hrows, he⟩ := map_ok h
    cases he
    exact hrows

/-- What a worker in this phase holds of the texts of a conversation. -/
def PhaseVoiced (db : ConversationTables) : Phase → Prop
  | .opened job _ history => Recalled db job.conversationRecordId history
  | .composed _ _ text _ => Bounded 1 4096 text
  | _ => True

/-- What a call of `respond` holds of them. -/
def CallVoiced (db : ConversationTables) (message : InboundMessage) (account : String) :
    Progress → Prop
  | .opened cid history => Recalled db cid history ∧
    ∃ c ∈ db.conversations, c.id = cid ∧ c.identity = sender (message, account)
  | .composed _ text _ => Bounded 1 4096 text
  | _ => True

theorem PhaseVoiced.keeps {db db' : ConversationTables} {p : Phase} (h : PhaseVoiced db p)
    (hk : Keeps db db') : PhaseVoiced db' p := by
  cases p with
  | opened job lease history => exact Recalled.keeps h hk
  | _ => exact h

theorem lapses_voiced {p q : Phase} (h : p.Lapses q) (db : ConversationTables) :
    PhaseVoiced db q := by
  cases q with
  | opened | composed => cases h.1
  | _ => trivial

theorem CallVoiced.extends {db db' : Ingress.Tables} {message : InboundMessage} {account : String}
    {p : Progress} (h : CallVoiced db.conversations message account p) (he : Extends db db') :
    CallVoiced db'.conversations message account p := by
  cases p with
  | opened cid history =>
    obtain ⟨hrecalled, c, hc, hid, hident⟩ := h
    obtain ⟨c', hc', hid', hident'⟩ := he.conversation hc
    exact ⟨hrecalled.keeps he.messages, c', hc', hid'.trans hid, hident'.trans hident⟩
  | _ => exact h

theorem CallVoiced.acknowledged {db : ConversationTables} {message : InboundMessage}
    {account : String} {p : Progress} (h : CallVoiced db message account p) (acked : Bool) :
    CallVoiced db message account (p.acknowledged acked) := by
  cases acked with
  | true => exact h
  | false => trivial

variable {s t : Worker.State} {w : ℕ}

/-- Only the first session of a turn opens it, with the history of its conversation. -/
theorem lookup_opened (h : act cfg s w .lookup = some t) {job : ClaimedInbound} {lease : Lease}
    {history : List MessageRecord} (ht : t.workers w = .opened job lease history) :
    t.conversations = s.conversations ∧
      recentMessages s.conversations job.conversationRecordId 20 = .ok history := by
  simp only [act] at h
  split at h
  · rename_i job' lease' hp
    split at h
    · cases h
      simp [State.raise, State.put, hp, Phase.raised] at ht
    · cases h
      simp [State.put] at ht
    · rename_i rows hfound
      cases h
      simp only [State.put, Function.update_self] at ht
      cases ht
      exact ⟨rfl, lookupReply_fresh hfound⟩
  · cases h

theorem lookup_voiced (h : act cfg s w .lookup = some t) :
    PhaseVoiced s.conversations (t.workers w) := by
  cases hq : t.workers w with
  | opened job lease history => exact recentMessages_recalled (lookup_opened h hq).2
  | composed job lease text fb =>
    simp only [act] at h
    split at h
    · rename_i job' lease' hp
      split at h <;> cases h <;> simp [State.raise, State.put, hp, Phase.raised] at hq
    · cases h
  | _ => trivial

/-- What a turn composes fits a reply. -/
theorem compose_voiced {ports : Ports} {handoffId : Uuid} {now : Time} {acked : Bool}
    (h : act cfg s w (.compose ports handoffId now acked) = some t) (db : ConversationTables) :
    PhaseVoiced db (t.workers w) := by
  simp only [act] at h
  split at h
  · rename_i job lease history hp
    have hbounded := (composeFor_spec cfg.unicode ports s.conversations handoffId now job.message
      job.conversationRecordId history).2
    cases hreply : (composeFor cfg.unicode ports s.conversations handoffId now job.message
        job.conversationRecordId history).reply with
    | error e =>
      simp only [hreply] at h
      cases h
      simp only [State.raise, State.put, Function.update_self]
      exact lapses_voiced (Phase.raised_lapses cfg e _) _
    | ok r =>
      simp only [hreply] at h
      cases h
      cases acked with
      | true =>
        simp only [State.answer, if_true, State.put, Function.update_self]
        exact (hbounded r.1 r.2 hreply).1
      | false =>
        simp only [State.answer, Bool.false_eq_true, if_false, State.raise, State.put,
          Function.update_self]
        exact lapses_voiced (Phase.raised_lapses cfg _ _) _
  · cases h

/-- A move of a worker stores no message of a person. -/
theorem move_voiced {a : Action} {p q : Phase} {db : ConversationTables} {d : DeliveryTables}
    {sent : List DeliveryRequest} (h : Move cfg s a p q db d sent)
    (hp : PhaseVoiced s.conversations p) : Stored heard s.conversations.messages db ∧
      (a = .lookup ∨ (∃ ports handoffId now acked, a = .compose ports handoffId now acked) ∨
        PhaseVoiced db q) := by
  cases h with
  | lapse hq => exact ⟨stored_of_eq rfl, .inr (.inr (lapses_voiced hq _))⟩
  | acquire | release => exact ⟨stored_of_eq rfl, .inr (.inr trivial)⟩
  | stored | fresh => exact ⟨stored_of_eq rfl, .inl rfl⟩
  | claim hq hc =>
    refine ⟨?_, .inr (.inr ?_)⟩
    · obtain ⟨row, -, -, rfl⟩ := claimNext_first hc
      exact stored_update fun _ => rfl
    · rcases hq with rfl | hq
      · trivial
      · exact lapses_voiced hq _
  | @compose acked job _ _ history ports handoffId now hq =>
    obtain ⟨hrows, -⟩ := composeFor_spec cfg.unicode ports s.conversations handoffId now
      job.message job.conversationRecordId history
    exact ⟨stored_of_eq hrows.messages, .inr (.inl ⟨ports, handoffId, now, acked, rfl⟩)⟩
  | record id now hq =>
    refine ⟨recordReply_stored _ _ id now _ _ _ hp, .inr (.inr ?_)⟩
    rcases hq with ⟨reply, -, rfl⟩ | hq
    · trivial
    · exact lapses_voiced hq _
  | created hrequest hc hq =>
    refine ⟨stored_of_eq rfl, .inr (.inr ?_)⟩
    rcases hq with rfl | hq
    · trivial
    · exact lapses_voiced hq _
  | replayed hrequest hc hq =>
    refine ⟨stored_of_eq rfl, .inr (.inr ?_)⟩
    rcases hq with ⟨result, -, rfl⟩ | hq
    · trivial
    · exact lapses_voiced hq _
  | invoke | receive => exact ⟨stored_of_eq rfl, .inr (.inr trivial)⟩
  | finalize hc hq =>
    refine ⟨stored_of_eq rfl, .inr (.inr ?_)⟩
    rcases hq with rfl | hq
    · trivial
    · exact lapses_voiced hq _
  | settle hc hq =>
    obtain ⟨status, errorCode, availableAt, ht⟩ := settle_updates hc
    obtain ⟨-, rfl⟩ := transition_ok ht
    exact ⟨stored_update fun _ => rfl, .inr (.inr (lapses_voiced hq _))⟩
  | fail hc hq =>
    obtain ⟨status, errorCode, availableAt, ht⟩ := fail_updates hc
    obtain ⟨-, rfl⟩ := transition_ok ht
    exact ⟨stored_update fun _ => rfl, .inr (.inr (lapses_voiced hq _))⟩

/-- A call that is opened has read the history of the conversation of its person. -/
theorem openCall_opened {u : Text.Unicode} {db db' : ConversationTables} {draw : Draw}
    {account : String} {message : InboundMessage} {cid : Uuid} {history : List MessageRecord}
    (h : openCall u db draw account message = .ok (.opened cid history, db')) :
    recentMessages db' cid 20 = .ok history ∧
      ∃ c ∈ db'.conversations, c.id = cid ∧ c.identity = sender (message, account) := by
  unfold openCall at h
  obtain ⟨⟨p, db₁⟩, henroll, hrest⟩ := bind_ok h
  dsimp only at hrest
  have hsender := (recordInbound_stored (Isolation.enroll_recorded henroll)).2
  cases hs : p.status with
  | duplicate =>
    simp only [hs] at hrest
    cases hf : findReply db₁ message.messageId with
    | none => simp [hf] at hrest
    | some existing =>
      simp only [hf] at hrest
      obtain ⟨r, -, hret⟩ := bind_ok hrest
      cases hret
  | created =>
    simp only [hs] at hrest
    obtain ⟨rows, hrows, hret⟩ := bind_ok hrest
    cases hret
    exact ⟨hrows, hsender⟩

theorem openCall_voiced {u : Text.Unicode} {db db' : ConversationTables} {draw : Draw}
    {account : String} {message : InboundMessage} {cid : Uuid} {history : List MessageRecord}
    (h : openCall u db draw account message = .ok (.opened cid history, db')) :
    CallVoiced db' message account (.opened cid history) :=
  ⟨recentMessages_recalled (openCall_opened h).1, (openCall_opened h).2⟩

/-- A call of `respond` stores its message and its reply only. -/
theorem advance_voiced {u : Text.Unicode} {db : ConversationTables} {message : InboundMessage}
    {account : String} {p p' : Progress} {session : Session} {db' : ConversationTables}
    (h : advance u (.respond message account) db p session = some (db', p'))
    (hp : CallVoiced db message account p) :
    Stored [(message, account)] db.messages db' ∧ CallVoiced db' message account p' := by
  cases p with
  | begun =>
    cases session with
    | first draw acked =>
      simp only [advance, firstSession] at h
      cases hopen : openCall u db draw account message with
      | error e =>
        rw [hopen, error_bind] at h
        cases h
        exact ⟨stored_of_eq rfl, trivial⟩
      | ok r =>
        obtain ⟨o, db₁⟩ := r
        obtain ⟨persisted, henroll⟩ := Isolation.openCall_admitted hopen
        obtain ⟨hstored, c, hc, hid, hident⟩ :=
          recordInbound_stored (Isolation.enroll_recorded henroll)
        cases o with
        | answered reply =>
          rw [hopen, ok_bind] at h
          cases h
          refine ⟨hstored, CallVoiced.acknowledged ?_ acked⟩
          trivial
        | opened cid history =>
          rw [hopen, ok_bind] at h
          cases h
          exact ⟨hstored, CallVoiced.acknowledged (openCall_voiced hopen) acked⟩
    | raise e =>
      cases h
      exact ⟨stored_of_eq rfl, trivial⟩
    | compose | last => cases h
  | opened cid history =>
    cases session with
    | compose ports handoffId now acked =>
      obtain ⟨hrows, hbounded⟩ := composeFor_spec u ports db handoffId now message cid history
      simp only [advance, Invocation.message] at h
      split at h
      · cases h
        exact ⟨stored_of_eq hrows.messages, trivial⟩
      · rename_i text fb hreply
        cases h
        refine ⟨stored_of_eq hrows.messages, CallVoiced.acknowledged ?_ acked⟩
        exact (hbounded text fb hreply).1
    | raise e =>
      cases h
      exact ⟨stored_of_eq rfl, trivial⟩
    | first | last => cases h
  | composed cid text fb =>
    cases session with
    | last id now acked =>
      have hstored : Stored [(message, account)] db.messages
          (recordReply u db id now message cid text fb).1 :=
        recordReply_stored u db id now message cid fb hp
      simp only [advance, Invocation.message] at h
      split at h
      · cases h
        exact ⟨hstored, trivial⟩
      · cases h
        refine ⟨hstored, CallVoiced.acknowledged ?_ acked⟩
        trivial
    | raise e =>
      cases h
      exact ⟨stored_of_eq rfl, trivial⟩
    | first | compose => cases h
  | ended outcome => cases session <;> cases h

end Histories

section Voices

/-- What the system holds in texts, after the messages that it heard. -/
structure Voiced (heard : List (InboundMessage × String)) (s : HandoffPause.State) : Prop where
  authentic : ∀ m ∈ s.base.conversations.messages, m.direction = .inbound →
    Authentic heard s.base.conversations m
  texts : ∀ m ∈ s.base.conversations.messages, AtMost 4096 m.contentText
  workers : ∀ w, PhaseVoiced s.base.conversations (s.base.workers w)
  calls : ∀ n message account scope token p, s.web n = .running message account scope token p →
    (message, account) ∈ heard ∧ CallVoiced s.base.conversations message account p

/-- New tables with rows that may be stored keep what is known of the old ones. -/
theorem Voiced.stored {s t : HandoffPause.State} (h : Voiced heard s)
    (he : Extends (tablesOf s.base) (tablesOf t.base))
    (hstored : Stored heard s.base.conversations.messages t.base.conversations)
    (hworkers : ∀ w, PhaseVoiced t.base.conversations (t.base.workers w))
    (hcalls : ∀ n message account scope token p,
      t.web n = .running message account scope token p →
        (message, account) ∈ heard ∧ CallVoiced t.base.conversations message account p) :
    Voiced heard t := by
  refine ⟨?_, ?_, hworkers, hcalls⟩
  · intro m hm hdir
    rcases hstored m hm with ⟨x, hx, hc⟩ | ⟨-, hnew⟩
    · rw [content_field MessageRecord.direction (fun _ => rfl) hc] at hdir
      exact (h.authentic x hx hdir).extends he hc
    · exact hnew hdir
  · intro m hm
    rcases hstored m hm with ⟨x, hx, hc⟩ | ⟨htext, -⟩
    · rw [content_field MessageRecord.contentText (fun _ => rfl) hc]
      exact h.texts x hx
    · exact htext

theorem Voiced.mono {s : HandoffPause.State} (h : Voiced heard s) (hs : heard ⊆ heard') :
    Voiced heard' s :=
  ⟨fun m hm hdir => (h.authentic m hm hdir).mono hs, h.texts, h.workers,
    fun n message account scope token p hp => (h.calls n message account scope token p hp).imp_left
      fun hmem => hs hmem⟩

theorem Stored.mono {old : List MessageRecord} {db : ConversationTables}
    (h : Stored heard old db) (hs : heard ⊆ heard') : Stored heard' old db := by
  intro m hm
  exact (h m hm).imp_right fun hnew => ⟨hnew.1, fun hdir => (hnew.2 hdir).mono hs⟩

/-- One step of the workers, the webhooks and the callbacks. -/
theorem base_voiced {s t : Worker.State} {l : Worker.Label} (hs : Worker.step cfg s l = some t)
    (he : Extends (tablesOf s) (tablesOf t)) (hw : ∀ w, PhaseVoiced s.conversations (s.workers w)) :
    Stored (incoming (.base l)) s.conversations.messages t.conversations ∧
      ∀ w, PhaseVoiced t.conversations (t.workers w) := by
  have hkeep : ∀ w, PhaseVoiced t.conversations (s.workers w) := fun w => (hw w).keeps he.messages
  cases step_stepped hs with
  | refused | callback | expire => exact ⟨stored_of_eq rfl, hkeep⟩
  | recorded hr => exact ⟨recordMessages_authentic (d := tablesOf s) hr, hkeep⟩
  | @worker w a q db d sent locks hact hmove =>
    obtain ⟨hstored, hq⟩ := move_voiced hmove (hw w)
    refine ⟨hstored, ?_⟩
    have hmoved : (s.moved w q db d locks sent).workers w = q := by
      simp only [State.moved, Function.update_self]
    have hphase : PhaseVoiced (s.moved w q db d locks sent).conversations q := by
      rcases hq with rfl | ⟨ports, handoffId, now, acked, rfl⟩ | hq
      · exact hmoved ▸ (lookup_voiced hact).keeps he.messages
      · exact hmoved ▸ compose_voiced hact _
      · exact hq
    intro w'
    by_cases hsame : w' = w
    · rw [hsame, hmoved]
      exact hphase
    · simp only [State.moved, Function.update_of_ne hsame]
      exact hkeep w'

/-- A step of a call that leaves the tables alone. -/
theorem Voiced.setWeb {s : HandoffPause.State} {b : Worker.State} (h : Voiced heard s)
    (hdb : b.conversations = s.base.conversations) (hworkers : b.workers = s.base.workers) (n : ℕ)
    {c : HandoffPause.WebCall}
    (hc : ∀ message account scope token p, c = .running message account scope token p →
      (message, account) ∈ heard ∧ CallVoiced s.base.conversations message account p) :
    Voiced heard ((s.withBase b).setWeb n c) := by
  refine ⟨?_, ?_, ?_, ?_⟩
  · simp only [HandoffPause.State.setWeb, HandoffPause.State.withBase, hdb]
    exact h.authentic
  · simp only [HandoffPause.State.setWeb, HandoffPause.State.withBase, hdb]
    exact h.texts
  · simp only [HandoffPause.State.setWeb, HandoffPause.State.withBase, hdb, hworkers]
    exact h.workers
  · intro m message account scope token p hp
    simp only [HandoffPause.State.setWeb, HandoffPause.State.withBase, hdb] at hp ⊢
    by_cases he : m = n
    · exact hc message account scope token p (by simpa [he] using hp)
    · exact h.calls m message account scope token p (by simpa [he] using hp)

theorem voiced_step {s t : HandoffPause.State} {l : HandoffPause.Label} (hknown : SystemKnown s)
    (h : Voiced heard s) (hs : HandoffPause.step cfg s l = some t) :
    Voiced (heard ++ incoming l) t := by
  have he := (system_step hknown hs).1.extends
  have hold : Voiced (heard ++ incoming l) s := h.mono (List.subset_append_left _ _)
  have hcalls : ∀ n message account scope token p,
      s.web n = .running message account scope token p → (message, account) ∈ heard ++ incoming l ∧
        CallVoiced t.base.conversations message account p := by
    intro n message account scope token p hp
    obtain ⟨hmem, hcall⟩ := hold.calls n message account scope token p hp
    exact ⟨hmem, hcall.extends he⟩
  cases l with
  | base l =>
    obtain ⟨b, hb, rfl⟩ := Option.map_eq_some_iff.mp hs
    obtain ⟨hstored, hworkers⟩ := base_voiced hb he h.workers
    exact hold.stored he (hstored.mono (List.subset_append_right _ _)) hworkers hcalls
  | call n message account token reachable =>
    simp only [HandoffPause.step] at hs
    split at hs
    · cases hs
    · split at hs
      · cases hs
        exact hold
      · split_ifs at hs
        · cases hs
          refine hold.setWeb (b := s.base.setLock _ (some token)) rfl rfl n ?_
          intro message' account' scope' token' p hp
          cases hp
          exact ⟨List.mem_append_right _ (List.mem_singleton_self _), trivial⟩
        · cases hs
          exact hold
  | session n session =>
    simp only [HandoffPause.step] at hs
    split at hs
    · cases hs
    · rename_i message account scope token p hweb
      split at hs
      · cases hs
      · rename_i db p' hadv
        cases hs
        obtain ⟨hmem, hcall⟩ := hold.calls n message account scope token p hweb
        obtain ⟨hstored, hcall'⟩ := advance_voiced hadv hcall
        refine hold.stored he (hstored.mono (List.cons_subset.mpr ⟨hmem, List.nil_subset _⟩))
          (fun w => (h.workers w).keeps he.messages) ?_
        intro m message' account' scope' token' q hq
        by_cases hsame : m = n
        · have hrun : HandoffPause.WebCall.running message account scope token p' =
              .running message' account' scope' token' q := by
            simpa [HandoffPause.State.setWeb, hsame] using hq
          cases hrun
          exact ⟨hmem, hcall'⟩
        · refine hcalls m message' account' scope' token' q ?_
          simpa [HandoffPause.State.setWeb, HandoffPause.State.withBase, hsame] using hq
  | leave n reachable =>
    simp only [HandoffPause.step] at hs
    split at hs
    · cases hs
      refine hold.setWeb ?_ ?_ n fun _ _ _ _ _ hidle => by cases hidle
      · split_ifs <;> rfl
      · split_ifs <;> rfl
    · cases hs
  | crash n =>
    cases hs
    exact hold.setWeb (b := s.base) rfl rfl n fun _ _ _ _ _ hidle => by cases hidle

/-- What was heard over a run is what its steps brought in. -/
theorem voiced_run {s t : HandoffPause.State} {schedule : List HandoffPause.Label}
    (hknown : SystemKnown s) (h : Voiced heard s)
    (hrun : exec (HandoffPause.step cfg) s schedule = some t) :
    SystemKnown t ∧ Voiced (heard ++ schedule.flatMap incoming) t := by
  induction schedule generalizing s heard with
  | nil =>
    cases hrun
    simpa using ⟨hknown, h⟩
  | cons l schedule ih =>
    obtain ⟨v, hv, hrest⟩ := exec_cons_some.mp hrun
    rw [List.flatMap_cons, ← List.append_assoc]
    exact ih (system_step hknown hv).2 (voiced_step hknown h hv) hrest

theorem voiced_start : Voiced [] (HandoffPause.start .empty .empty) where
  authentic := List.forall_mem_nil _
  texts := List.forall_mem_nil _
  workers := fun _ => trivial
  calls := fun _ _ _ _ _ _ hp => by cases hp

theorem voiced_reachable {t : HandoffPause.State} {schedule : List HandoffPause.Label}
    (hrun : exec (HandoffPause.step cfg) (HandoffPause.start .empty .empty) schedule = some t) :
    SystemKnown t ∧ Voiced (schedule.flatMap incoming) t :=
  voiced_run system_start voiced_start hrun

end Voices

section Prompts

/-- A turn that is about to compose its answer, with the history that it was opened with. -/
inductive Composing (s : HandoffPause.State) :
    InboundMessage → String → Uuid → List MessageRecord → Prop
  | worker {w : ℕ} {job : ClaimedInbound} {lease : Lease} {history : List MessageRecord}
      (h : s.base.workers w = .opened job lease history) :
    Composing s job.message job.channelAccountId job.conversationRecordId history
  | call {n token : ℕ} {message : InboundMessage} {account : String} {scope : ConversationScope}
      {cid : Uuid} {history : List MessageRecord}
      (h : s.web n = .running message account scope token (.opened cid history)) :
    Composing s message account cid history

/-- A turn of the conversation that the model is shown: the person's own words, or a reply
that is stored in their conversation. -/
def Spoken (heard : List (InboundMessage × String)) (db : ConversationTables) (person : Person)
    (cid : Uuid) (turn : ConversationTurn) : Prop :=
  match turn.role with
  | .user => Said heard person turn.text
  | .assistant => ∃ m ∈ db.messages, m.direction = .outbound ∧ m.conversationId = cid ∧
      m.contentText = some turn.text

theorem turns_mem {history : List MessageRecord} {conversation : List ConversationTurn}
    (h : turns history = .ok conversation) : ∀ turn ∈ conversation, ∃ m ∈ history,
      m.contentText = some turn.text ∧
        turn.role = if m.direction = .outbound then .assistant else .user := by
  intro turn hturn
  obtain ⟨m, hm, hmake⟩ := forall₂_mem_right (mapM_ok.mp h) hturn
  obtain ⟨hmem, htext⟩ := List.mem_filter.mp hm
  unfold ConversationTurn.make at hmake
  split_ifs at hmake with hbounded hdir <;> cases hmake
  · exact ⟨m, hmem, truthy_eq_some htext, (if_pos hdir).symm⟩
  · exact ⟨m, hmem, truthy_eq_some htext, (if_neg hdir).symm⟩

theorem respond_conversation {u : Text.Unicode} {adapter : LLMAdapter} {packet : ContextPacket}
    {conversation : List ConversationTurn} {det : Option String} {request : CompositionRequest}
    (h : (ResponseEngine.respond u adapter packet conversation det).request = some request) :
    request.conversation = conversation := by
  have hmake : ∀ r, ResponseComposer.request packet conversation = .ok r →
      r.conversation = conversation := by
    intro r hr
    unfold ResponseComposer.request at hr
    split_ifs at hr
    obtain ⟨_, -, hr⟩ := bind_ok hr
    unfold CompositionRequest.make at hr
    split_ifs at hr
    cases hr
    rfl
  unfold ResponseEngine.respond at h
  cases hemit : emit packet.traceId "context_packet" with
  | error e => simp [hemit] at h
  | ok _ =>
    cases hmode : packet.responseMode with
    | jinja =>
      simp only [hemit, hmode] at h
      cases h
    | deterministic =>
      simp only [hemit, hmode] at h
      split at h <;> cases h
    | jinjaLlm | nonCommercialLlm =>
      cases hllm : emit packet.traceId "llm" with
      | error e => simp [hemit, hmode, hllm] at h
      | ok _ =>
        cases hreq : ResponseComposer.request packet conversation with
        | error e => simp [hemit, hmode, hllm, hreq] at h
        | ok r =>
          simp only [hemit, hmode, hllm, hreq] at h
          split at h <;> cases h <;> exact hmake _ hreq

theorem answer_conversation {u : Text.Unicode} {ports : Ports} {db : ConversationTables}
    {packet : Except Failure ContextPacket} {conversation : List ConversationTurn}
    {det : Option String} {request : CompositionRequest}
    (h : (answer u ports db packet conversation det).request = some request) :
    request.conversation = conversation := by
  cases packet with
  | error e => cases h
  | ok packet => exact respond_conversation h

/-- The model is shown the history as turns. -/
theorem composeFor_conversation {u : Text.Unicode} {ports : Ports} {db : ConversationTables}
    {handoffId : Uuid} {now : Time} {message : InboundMessage} {cid : Uuid}
    {history : List MessageRecord} {request : CompositionRequest}
    (h : (composeFor u ports db handoffId now message cid history).request = some request) :
    turns history = .ok request.conversation := by
  unfold composeFor at h
  dsimp only at h
  split at h
  · cases h
  · unfold composeReply at h
    cases hturns : turns history with
    | error e =>
      simp only [hturns] at h
      cases h
    | ok conversation =>
      simp only [hturns] at h
      have hsame : request.conversation = conversation := by
        split at h
        · split at h
          · cases h
          · exact answer_conversation h
        · unfold discover at h
          split at h
          · cases h
          · split at h
            · cases h
            · split_ifs at h
              · exact answer_conversation h
        · exact answer_conversation h
        · exact answer_conversation h
      rw [hsame]

/-- What a composing turn knows: its history is that of the conversation of its person. -/
theorem Composing.recalled {s : HandoffPause.State} {message : InboundMessage} {account : String}
    {cid : Uuid} {history : List MessageRecord} (hknown : SystemKnown s) (h : Voiced heard s)
    (hc : Composing s message account cid history) :
    Recalled s.base.conversations cid history ∧
      ∃ c ∈ s.base.conversations.conversations, c.id = cid ∧
        c.identity = sender (message, account) := by
  cases hc with
  | @worker w job lease _ hp =>
    have hphase := h.workers w
    rw [hp] at hphase
    obtain ⟨c, hcm, hid, hident⟩ := (hknown.base.jobs w job (by rw [hp]; rfl)).conversation
    exact ⟨hphase, c, hcm, hid, hident⟩
  | call hp => exact (h.calls _ _ _ _ _ _ hp).2

/-- The model never sees another conversation: whatever workers and calls run at the same
time, every turn in its prompt is a text that the same person sent through the same account,
or a reply stored in their own conversation. -/
theorem prompt_confidential (cfg : Config) {schedule : List HandoffPause.Label}
    {t : HandoffPause.State} (hrun : exec (HandoffPause.step cfg) systemStart schedule = some t)
    {message : InboundMessage} {account : String} {cid : Uuid} {history : List MessageRecord}
    (hc : Composing t message account cid history) {ports : Ports} {handoffId : Uuid} {now : Time}
    {request : CompositionRequest} (hr : (composeFor cfg.unicode ports t.base.conversations
      handoffId now message cid history).request = some request) :
    ∀ turn ∈ request.conversation, Spoken (schedule.flatMap incoming) t.base.conversations
      (sender (message, account)) cid turn := by
  obtain ⟨hknown, hvoiced⟩ := voiced_reachable hrun
  obtain ⟨hrecalled, c, hcm, hid, hident⟩ := hc.recalled hknown hvoiced
  intro turn hturn
  obtain ⟨m, hm, htext, hrole⟩ := turns_mem (composeFor_conversation hr) turn hturn
  obtain ⟨hcid, x, hx, hcontent⟩ := hrecalled m hm
  have hxcid := (content_field MessageRecord.conversationId (fun _ => rfl) hcontent).trans hcid
  have hxtext := (content_field MessageRecord.contentText (fun _ => rfl) hcontent).trans htext
  have hxdir := content_field MessageRecord.direction (fun _ => rfl) hcontent
  cases hdir : m.direction with
  | outbound =>
    rw [hdir, if_pos rfl] at hrole
    simp only [Spoken, hrole]
    exact ⟨x, hx, hxdir.trans hdir, hxcid, hxtext⟩
  | inbound =>
    rw [hdir, if_neg (by simp)] at hrole
    simp only [Spoken, hrole]
    obtain ⟨p, hp, -, -, hsaid, c', hc', hid', hident'⟩ :=
      hvoiced.authentic x hx (hxdir.trans hdir)
    have hsame := unique_eq hknown.base.tables.constraints.conversation_id hcm hc'
      (congrArg some rfl) (congrArg some (hid'.trans (hxcid.trans hid.symm)))
    exact ⟨p, hp, hident'.symm.trans (hsame ▸ hident), hsaid.symm.trans hxtext⟩

/-- A visitor of the web page asks for picks and then says hello; the second turn is about
to compose. -/
def hello : InboundMessage :=
  accepted (InboundMessage.make "2" .web "ana" "ana" .text (some "hola") 2 []) (by decide)

def helloSchedule : List HandoffPause.Label :=
  visitSchedule ++ [.call 0 hello "local" 9 true, .session 0 (.first ⟨4, 5, 2, 2⟩ true)]

/-- What the first call holds while it is about to compose. -/
def aboutToAnswer (t : HandoffPause.State) : Option (String × Option String × List Role) :=
  match t.web 0 with
  | .running message _ _ _ (.opened _ history) =>
    (turns history).toOption.map fun conversation =>
      (message.messageId, message.text, conversation.map ConversationTurn.role)
  | _ => none

set_option maxRecDepth 10000 in
theorem exec_helloSchedule :
    (exec (HandoffPause.step sampleConfig) systemStart helloSchedule).bind aboutToAnswer =
      some ("2", some "hola", [.user, .assistant, .user]) := by
  decide

/-- The explanation route asks the model. -/
theorem explain_asks (u : Text.Unicode) (ports : Ports) (db : ConversationTables)
    (query traceId : String) (hq : Bounded 1 4096 query) (ht : Bounded 1 128 traceId)
    {conversation : List ConversationTurn} (hc : conversation.length ≤ 20) :
    ∃ request, (answer u ports db (explainPacket query traceId) conversation none).request =
      some request := by
  obtain ⟨packet, hp⟩ : ∃ packet, explainPacket query traceId = .ok packet := by
    rw [explainPacket, PolicyDefinition.contextPacket, if_neg (by simp [getPolicy])]
    exact ContextPacket.make_of_bounded (getPolicy_valid _).2 hq ht
  have hf := hp
  rw [explainPacket, PolicyDefinition.contextPacket, if_neg (by simp [getPolicy])] at hf
  obtain ⟨htask, -, hconf, hun, hact, hrules, hmode, hactive, -⟩ := ContextPacket.make_ok hf
  have hlength := explain_prompt_length hconf hun hact htask hrules hmode hactive
  rw [hp, answer, ResponseEngine.respond_llm (.inr hmode), CompositionRequest.make,
    dif_pos ⟨systemPrompt_bounded, ⟨renderEvidence_pos packet, hlength⟩, hc,
      packet.traceId_bounded⟩]
  split
  · rename_i he
    cases he
  · rename_i request hr
    split <;> exact ⟨request, rfl⟩

set_option maxRecDepth 10000 in
theorem sample_confidential : ∃ t message account cid history request,
    exec (HandoffPause.step sampleConfig) systemStart helloSchedule = some t ∧
      (composeFor .latin1 offlinePorts t.base.conversations 9 3 message cid history).request =
        some request ∧
      request.conversation.map ConversationTurn.role = [.user, .assistant, .user] ∧
      ∀ turn ∈ request.conversation, Spoken (helloSchedule.flatMap incoming) t.base.conversations
        (sender (message, account)) cid turn := by
  obtain ⟨t, ht, hopened⟩ := Option.bind_eq_some_iff.mp exec_helloSchedule
  unfold aboutToAnswer at hopened
  split at hopened
  · rename_i message account scope token cid history hweb
    obtain ⟨conversation, hturns, he⟩ := Option.map_eq_some_iff.mp hopened
    simp only [Prod.mk.injEq] at he
    obtain ⟨hid, htext, hroles⟩ := he
    have hok : turns history = .ok conversation := by
      cases hts : turns history with
      | error e =>
        rw [hts] at hturns
        cases hturns
      | ok ts =>
        rw [hts] at hturns
        exact congrArg Except.ok (Option.some.inj hturns)
    have hintent : ConversationIntentResolver.resolve .latin1 "hola" = .greeting := by
      decide
    have hemit : emit (traceOf "2") ConversationIntent.greeting.value = .ok () := by decide
    have hlength : conversation.length ≤ 20 := by
      rw [← List.length_map ConversationTurn.role, hroles]
      decide
    obtain ⟨request, hrequest⟩ := explain_asks .latin1 offlinePorts t.base.conversations
      "hola" (traceOf "2") (by decide) (by decide) hlength
    have hcompose : (composeFor .latin1 offlinePorts t.base.conversations 9 3 message cid
        history).request = some request := by
      simp only [composeFor, hid, htext, Option.getD_some, hintent, hemit, composeReply, hok]
      exact hrequest
    have hsame := (hok.symm.trans (composeFor_conversation hcompose))
    cases hsame
    exact ⟨t, message, account, cid, history, request, ht, hcompose, hroles,
      prompt_confidential sampleConfig ht (.call hweb) hcompose⟩
  · cases hopened

end Prompts

/-- Nothing is stored that nobody sent: every inbound row repeats the id, the kind and the
text of a message that was delivered to the system, in the conversation of its sender. -/
theorem inbound_authentic (cfg : Config) {schedule : List HandoffPause.Label}
    {t : HandoffPause.State} (hrun : exec (HandoffPause.step cfg) systemStart schedule = some t) :
    ∀ m ∈ t.base.conversations.messages, m.direction = .inbound →
      Authentic (schedule.flatMap incoming) t.base.conversations m :=
  (voiced_reachable hrun).2.authentic

theorem sample_authentic : ∃ t,
    exec (HandoffPause.step sampleConfig) systemStart (personSchedule ++ visitSchedule) = some t ∧
      (summary t).messages = [some .completed, none, none, none] ∧
      ∀ m ∈ t.base.conversations.messages, m.direction = .inbound →
        Authentic ((personSchedule ++ visitSchedule).flatMap incoming) t.base.conversations m := by
  obtain ⟨t, ht, hsummary⟩ := Option.map_eq_some_iff.mp exec_visitSchedule
  exact ⟨t, ht, by rw [hsummary]; rfl, inbound_authentic sampleConfig ht⟩

end Piki.System
