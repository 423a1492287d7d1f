import Piki.Ingress
import Piki.Processing

/-! The message half of a batch that is delivered more than once: what is stored of a
message, and that a second delivery adds nothing. -/
namespace Piki.IngressMessages
open Table ConversationRepository Ingress

/-- What a stored message says, apart from generated ids and timestamps. -/
structure Content where
  externalMessageId : Option String
  identity : Option (Channel × String × String)
  direction : Direction
  kind : MessageKind
  text : Option String
  deriving DecidableEq, Repr

def identityOf (db : ConversationTables) (conversationId : Uuid) :
    Option (Channel × String × String) :=
  (db.conversations.find? fun c => c.id = conversationId).map ConversationRecord.identity

def content (db : ConversationTables) (m : MessageRecord) : Content :=
  ⟨m.externalMessageId, identityOf db m.conversationId, m.direction, m.kind, m.contentText⟩

def contents (db : ConversationTables) : List Content := db.messages.map (content db)

/-- What the webhook stores of a message. -/
def admitted (message : InboundMessage) : Content where
  externalMessageId := some message.messageId
  identity := (phoneNumberId message).toOption.map fun account =>
    (message.channel, account, message.conversationId)
  direction := .inbound
  kind := message.kind
  text := message.text

/-- Messages whose id is taken are passed over. -/
def absorb (stored : List Content) : List InboundMessage → List Content
  | [] => stored
  | message :: messages =>
    absorb (if some message.messageId ∈ stored.map Content.externalMessageId then stored
      else stored ++ [admitted message]) messages

theorem absorb_taken {stored : List Content} {messages : List InboundMessage}
    (h : ∀ m ∈ messages, some m.messageId ∈ stored.map Content.externalMessageId) :
    absorb stored messages = stored := by
  induction messages with
  | nil => rfl
  | cons message messages ih =>
    obtain ⟨hm, hrest⟩ := List.forall_mem_cons.mp h
    rw [absorb, if_pos hm]
    exact ih hrest

theorem absorb_takes (stored : List Content) (messages : List InboundMessage) :
    stored.map Content.externalMessageId ⊆
        (absorb stored messages).map Content.externalMessageId ∧
      ∀ m ∈ messages, some m.messageId ∈
        (absorb stored messages).map Content.externalMessageId := by
  induction messages generalizing stored with
  | nil => exact ⟨List.Subset.refl _, by simp⟩
  | cons message messages ih =>
    rw [absorb]
    split_ifs with htaken
    · obtain ⟨hkeep, hall⟩ := ih stored
      refine ⟨hkeep, ?_⟩
      intro m hm
      rcases List.mem_cons.mp hm with rfl | hm
      · exact hkeep htaken
      · exact hall m hm
    · obtain ⟨hkeep, hall⟩ := ih (stored ++ [admitted message])
      constructor
      · intro x hx
        exact hkeep (by simp [List.map_append, hx])
      · intro m hm
        rcases List.mem_cons.mp hm with rfl | hm
        · exact hkeep (by simp [admitted])
        · exact hall m hm

/-- A second delivery of the batch adds nothing. -/
theorem absorb_absorb (stored : List Content) (messages : List InboundMessage) :
    absorb (absorb stored messages) messages = absorb stored messages :=
  absorb_taken (absorb_takes stored messages).2

/-- The unique constraints hold, and the conversation of every message is stored. -/
structure Valid (db : ConversationTables) : Prop where
  constraints : db.Constraints
  referenced : ∀ m ∈ db.messages, ∃ c ∈ db.conversations, c.id = m.conversationId

theorem valid_empty : Valid .empty := ⟨ConversationTables.empty_constraints, by
  intro m hm
  cases hm⟩

theorem identityOf_stored {db : ConversationTables} (hu : db.Constraints) {c : ConversationRecord}
    (hc : c ∈ db.conversations) : identityOf db c.id = some c.identity := by
  unfold identityOf
  cases hf : db.conversations.find? fun x => x.id = c.id with
  | none => simpa using List.find?_eq_none.mp hf c hc
  | some x =>
    have hid : x.id = c.id := by simpa using List.find?_some hf
    rw [unique_eq hu.conversation_id (List.mem_of_find?_eq_some hf) hc rfl (by rw [hid])]
    rfl

/-- Stored conversations keep their identity when others are added. -/
theorem contents_congr {db db' : ConversationTables} (h : Valid db) (hu : db'.Constraints)
    (hsub : db.conversations ⊆ db'.conversations) {rows : List MessageRecord}
    (hrows : ∀ m ∈ rows, m ∈ db.messages) : rows.map (content db') = rows.map (content db) := by
  refine List.map_congr_left ?_
  intro m hm
  obtain ⟨c, hc, hid⟩ := h.referenced m (hrows m hm)
  simp only [content]
  rw [← hid, identityOf_stored h.constraints hc, identityOf_stored hu (hsub hc)]

/-- After the upsert the conversation is stored under the identity of the message. -/
theorem upsertConversation_stored {db db' : ConversationTables} {id cid : Uuid} {channel : Channel}
    {account ext : String} (h : upsertConversation db id channel account ext = .ok (cid, db')) :
    db.conversations ⊆ db'.conversations ∧
      ∃ c ∈ db'.conversations, c.id = cid ∧ c.identity = (channel, account, ext) := by
  rcases upsertConversation_ok h with ⟨rfl, c, hc, hident, hid⟩ | ⟨rfl, -, -, rfl⟩
  · exact ⟨List.Subset.refl _, c, hc, hid, hident⟩
  · exact ⟨List.subset_append_left _ _, _, List.mem_append_right _ List.mem_cons_self, rfl, rfl⟩

theorem valid_recordInbound {db db' : ConversationTables} {draw : Draw} {account traceId : String}
    {message : InboundMessage} {enqueue : Bool} {p : PersistedInbound} (hv : Valid db)
    (h : recordInbound db draw account message traceId enqueue = .ok (p, db')) : Valid db' := by
  refine ⟨recordInbound_constraints hv.constraints h, ?_⟩
  obtain ⟨db₁, hup, hins⟩ := recordInbound_ok h
  obtain ⟨hsub, c, hc, hid, -⟩ := upsertConversation_stored hup
  have hold : ∀ m ∈ db.messages, ∃ c ∈ db₁.conversations, c.id = m.conversationId := by
    intro m hm
    obtain ⟨x, hx, hxid⟩ := hv.referenced m hm
    exact ⟨x, hsub hx, hxid⟩
  rcases hins with ⟨-, rfl, -⟩ | ⟨-, -, -, rfl⟩
  · rw [upsertConversation_messages hup]
    exact hold
  · intro m hm
    rcases List.mem_append.mp hm with hm | hm
    · exact hold m hm
    · rw [List.mem_singleton.mp hm]
      exact ⟨c, hc, hid⟩

theorem contents_ids (db : ConversationTables) :
    (contents db).map Content.externalMessageId = db.messages.map MessageRecord.externalMessageId := by
  rw [contents, List.map_map]
  rfl

theorem recordInbound_contents {db db' : ConversationTables} {draw : Draw}
    {account traceId : String} {message : InboundMessage} {enqueue : Bool} {p : PersistedInbound}
    (hv : Valid db) (haccount : phoneNumberId message = .ok account)
    (h : recordInbound db draw account message traceId enqueue = .ok (p, db')) :
    contents db' = if some message.messageId ∈ (contents db).map Content.externalMessageId
      then contents db else contents db ++ [admitted message] := by
  have hu' := (valid_recordInbound hv h).constraints
  obtain ⟨db₁, hup, hins⟩ := recordInbound_ok h
  obtain ⟨hsub, c, hc, hid, hident⟩ := upsertConversation_stored hup
  rw [contents_ids]
  rcases hins with ⟨-, rfl, m, hm, hext⟩ | ⟨-, hfree, -, rfl⟩
  · rw [if_pos (List.mem_map.mpr ⟨m, hm, hext⟩), contents, upsertConversation_messages hup]
    exact contents_congr hv hu' hsub fun _ hm => hm
  · have hnew : some message.messageId ∉ db.messages.map MessageRecord.externalMessageId := by
      rw [List.mem_map]
      rintro ⟨m, hm, hext⟩
      exact conflict_eq_none.mp hfree _ rfl m hm hext
    rw [if_neg hnew, contents, List.map_append]
    congr 1
    · exact contents_congr hv hu' hsub fun _ hm => hm
    · have hc' := identityOf_stored hu' hc
      rw [hid, hident] at hc'
      refine congrArg (fun x => [x]) ?_
      rw [content, show (inboundRow draw p.conversationId message traceId enqueue).conversationId =
        p.conversationId from rfl, hc', admitted, haccount]
      rfl

/-- A committed message transaction stores what the batch brings and nothing else. -/
theorem recordMessages_contents {draws : ℕ → Draw} {db db' : ConversationTables}
    {messages : List InboundMessage} {statuses : List PersistStatus} (hv : Valid db)
    (h : recordMessages draws db messages = .ok (statuses, db')) :
    Valid db' ∧ contents db' = absorb (contents db) messages ∧
      statuses.length = messages.length := by
  induction messages generalizing draws db statuses with
  | nil =>
    cases h
    exact ⟨hv, rfl, rfl⟩
  | cons message messages ih =>
    obtain ⟨account, haccount, hrest⟩ := bind_ok h
    obtain ⟨⟨p, db₁⟩, hrec, hrest⟩ := bind_ok hrest
    obtain ⟨⟨rest, db₂⟩, htail, hret⟩ := bind_ok hrest
    cases hret
    obtain ⟨hv', hcontents, hlength⟩ := ih (valid_recordInbound hv hrec) htail
    rw [recordInbound_contents hv haccount hrec] at hcontents
    exact ⟨hv', hcontents, by simp [hlength]⟩

/-- The message fits the columns that the webhook writes. -/
def Recordable (message : InboundMessage) : Prop :=
  ∃ account, phoneNumberId message = .ok account ∧ account.length ≤ 255 ∧
    ("meta:" ++ message.messageId).length ≤ 128

theorem column_ok {name value : String} {n : ℕ} {r : Unit} (h : column name n value = .ok r) :
    value.length ≤ n := by
  unfold column at h
  split_ifs at h with hlen
  exact hlen

theorem recordInbound_fits {db db' : ConversationTables} {draw : Draw} {account traceId : String}
    {message : InboundMessage} {enqueue : Bool} {p : PersistedInbound}
    (h : recordInbound db draw account message traceId enqueue = .ok (p, db')) :
    account.length ≤ 255 ∧ traceId.length ≤ 128 := by
  obtain ⟨⟨cid, db₁⟩, hup, hrest⟩ := bind_ok h
  obtain ⟨⟨stored, db₂⟩, hins, -⟩ := bind_ok hrest
  obtain ⟨_, haccount, -⟩ := bind_ok hup
  obtain ⟨_, -, hins⟩ := bind_ok hins
  obtain ⟨_, htrace, -⟩ := bind_ok hins
  exact ⟨column_ok haccount, column_ok htrace⟩

theorem recordMessages_fits {draws : ℕ → Draw} {db db' : ConversationTables}
    {messages : List InboundMessage} {statuses : List PersistStatus}
    (h : recordMessages draws db messages = .ok (statuses, db')) :
    ∀ m ∈ messages, Recordable m := by
  induction messages generalizing draws db statuses with
  | nil => simp
  | cons message messages ih =>
    obtain ⟨account, haccount, hrest⟩ := bind_ok h
    obtain ⟨⟨p, db₁⟩, hrec, hrest⟩ := bind_ok hrest
    obtain ⟨⟨rest, db₂⟩, htail, hret⟩ := bind_ok hrest
    cases hret
    obtain ⟨hlen, htrace⟩ := recordInbound_fits hrec
    exact List.forall_mem_cons.mpr ⟨⟨account, haccount, hlen, htrace⟩, ih htail⟩

/-- Generated ids differ from the stored ones and from each other. -/
structure Fresh (draws : ℕ → Draw) (db : ConversationTables) : Prop where
  conversation : ∀ i, ∀ c ∈ db.conversations, c.id ≠ (draws i).conversationUuid
  message : ∀ i, ∀ m ∈ db.messages, m.id ≠ (draws i).messageUuid
  conversations_ne : ∀ i j, i ≠ j → (draws i).conversationUuid ≠ (draws j).conversationUuid
  messages_ne : ∀ i j, i ≠ j → (draws i).messageUuid ≠ (draws j).messageUuid

theorem Fresh.recordInbound {draws : ℕ → Draw} {db db' : ConversationTables}
    {account traceId : String} {message : InboundMessage} {enqueue : Bool} {p : PersistedInbound}
    (hf : Fresh draws db)
    (h : recordInbound db (draws 0) account message traceId enqueue = .ok (p, db')) :
    Fresh (fun i => draws (i + 1)) db' := by
  obtain ⟨db₁, hup, hins⟩ := recordInbound_ok h
  have hconv : ∀ i, ∀ c ∈ db₁.conversations, c.id ≠ (draws (i + 1)).conversationUuid := by
    intro i c hc
    rcases upsertConversation_ok hup with ⟨rfl, -⟩ | ⟨-, -, -, rfl⟩
    · exact hf.conversation (i + 1) c hc
    · rcases List.mem_append.mp hc with hc | hc
      · exact hf.conversation (i + 1) c hc
      · rw [List.mem_singleton.mp hc]
        exact hf.conversations_ne 0 (i + 1) (by omega)
  have hne : ∀ i j, i ≠ j → i + 1 ≠ j + 1 := by omega
  have hnext : ∀ db'', db''.conversations = db₁.conversations →
      (∀ i, ∀ m ∈ db''.messages, m.id ≠ (draws (i + 1)).messageUuid) →
      Fresh (fun i => draws (i + 1)) db'' := by
    intro db'' hsame hmessage
    refine ⟨?_, hmessage, fun i j hij => hf.conversations_ne _ _ (hne i j hij),
      fun i j hij => hf.messages_ne _ _ (hne i j hij)⟩
    rw [hsame]
    exact hconv
  rcases hins with ⟨-, rfl, -⟩ | ⟨-, -, -, rfl⟩
  · refine hnext _ rfl ?_
    rw [upsertConversation_messages hup]
    exact fun i => hf.message (i + 1)
  · refine hnext _ rfl ?_
    intro i m hm
    rcases List.mem_append.mp hm with hm | hm
    · exact hf.message (i + 1) m hm
    · rw [List.mem_singleton.mp hm]
      exact hf.messages_ne 0 (i + 1) (by omega)

/-- With generated ids that are new, the transaction fails only on a message that does
not fit. -/
theorem recordMessages_returns {draws : ℕ → Draw} {db : ConversationTables}
    {messages : List InboundMessage} (hf : Fresh draws db) (hfit : ∀ m ∈ messages, Recordable m) :
    ∃ r, recordMessages draws db messages = .ok r := by
  induction messages generalizing draws db with
  | nil => exact ⟨_, rfl⟩
  | cons message messages ih =>
    obtain ⟨⟨account, haccount, hlen, htrace⟩, hrest⟩ := List.forall_mem_cons.mp hfit
    obtain ⟨⟨p, db₁⟩, hrec⟩ := recordInbound_returns message true hlen htrace (hf.conversation 0)
      (hf.message 0)
    obtain ⟨⟨rest, db₂⟩, htail⟩ := ih (hf.recordInbound hrec) hrest
    refine ⟨(p.status :: rest, db₂), ?_⟩
    simp only [recordMessages, haccount, ok_bind, hrec, htail]

/-- A claim writes processing fields only. -/
theorem claimNext_contents {db db' : ConversationTables} {now : Time} {timeout : ℕ}
    {locked : List Uuid} {job : Option ClaimedInbound} (hv : Valid db)
    (h : MessageProcessingStore.claimNext db now timeout locked = .ok (job, db')) :
    Valid db' ∧ contents db' = contents db := by
  rcases MessageProcessingStore.claimNext_ok h with
    ⟨-, rfl⟩ | ⟨j, m, c, -, -, -, -, -, -, rfl⟩
  · exact ⟨hv, rfl⟩
  · refine ⟨⟨⟨hv.constraints.conversation_id, hv.constraints.conversation_identity,
      unique_updateWhere (fun _ _ => rfl) hv.constraints.message_id,
      unique_updateWhere (fun _ _ => rfl) hv.constraints.message_external⟩, ?_⟩, ?_⟩
    · intro x hx
      obtain ⟨y, hy, rfl⟩ := mem_updateWhere.mp hx
      obtain ⟨z, hz, hid⟩ := hv.referenced y hy
      refine ⟨z, hz, ?_⟩
      split_ifs <;> exact hid
    · exact map_updateWhere fun _ _ => rfl

end Piki.IngressMessages
