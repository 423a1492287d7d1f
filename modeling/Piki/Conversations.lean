import Piki.Records

/-! `ConversationRepository` of `db/conversations.py`. Each function is the part
of one transaction that the repository method runs; a raised error rolls the
whole transaction back, so it carries no new tables. -/
namespace Piki
open Table

inductive PersistStatus
  | created
  | duplicate
  deriving DecidableEq, Repr

structure PersistedInbound where
  status : PersistStatus
  conversationId : Uuid
  messageId : Option Uuid
  deriving DecidableEq, Repr

/-- Values a statement draws from outside: generated ids and the two clocks. -/
structure Draw where
  conversationUuid : Uuid
  messageUuid : Uuid
  /-- `datetime.now(UTC)` of the process. -/
  processNow : Time
  /-- `now()` of the transaction. -/
  databaseNow : Time
  deriving DecidableEq, Repr

namespace ConversationRepository

/-- Insert the conversation, or return the stored one with the same identity. -/
def upsertConversation (db : ConversationTables) (id : Uuid) (channel : Channel)
    (channelAccountId externalConversationId : String) :
    Except Failure (Uuid × ConversationTables) := do
  column "channel_account_id" 255 channelAccountId
  column "external_conversation_id" 255 externalConversationId
  let row : ConversationRecord := ⟨id, channel, channelAccountId, externalConversationId, .pikiActive⟩
  match conflict (fun c : ConversationRecord => some c.identity) db.conversations row with
  | some existing => .ok (existing.id, db)
  | none =>
    requireFresh "conversations_pkey" (fun c : ConversationRecord => some c.id) db.conversations row
    .ok (id, { db with conversations := db.conversations ++ [row] })

def findMessage (db : ConversationTables) (externalMessageId : String) : Option MessageRecord :=
  db.messages.find? fun m => m.externalMessageId = some externalMessageId

/-- `INSERT INTO messages ... ON CONFLICT (external_message_id) DO NOTHING`. -/
def insertMessage (db : ConversationTables) (row : MessageRecord) :
    Except Failure (Option Uuid × ConversationTables) := do
  column "external_message_id" 255 (row.externalMessageId.getD "")
  column "trace_id" 128 row.traceId
  match conflict MessageRecord.externalMessageId db.messages row with
  | some _ => .ok (none, db)
  | none =>
    requireFresh "messages_pkey" (fun m : MessageRecord => some m.id) db.messages row
    requireReferenced "conversation_id" (db.conversations.any fun c => c.id = row.conversationId)
    .ok (some row.id, { db with messages := db.messages ++ [row] })

/-- The row that `record_inbound` proposes; webhook messages are enqueued. -/
def inboundRow (draw : Draw) (conversationId : Uuid) (message : InboundMessage)
    (traceId : String) (enqueueProcessing : Bool) : MessageRecord where
  id := draw.messageUuid
  conversationId := conversationId
  externalMessageId := some message.messageId
  direction := .inbound
  kind := message.kind
  contentText := message.text
  traceId := traceId
  processingStatus := if enqueueProcessing then some .pending else none
  processingAvailableAt := if enqueueProcessing then some draw.processNow else none
  createdAt := draw.databaseNow

def recordInbound (db : ConversationTables) (draw : Draw) (channelAccountId : String)
    (message : InboundMessage) (traceId : String) (enqueueProcessing : Bool) :
    Except Failure (PersistedInbound × ConversationTables) := do
  let (conversationId, db) ← upsertConversation db draw.conversationUuid message.channel
    channelAccountId message.conversationId
  let (stored, db) ← insertMessage db
    (inboundRow draw conversationId message traceId enqueueProcessing)
  match stored with
  | none => .ok (⟨.duplicate, conversationId, none⟩, db)
  | some id => .ok (⟨.created, conversationId, some id⟩, db)

structure PersistedOutbound where
  messageId : Uuid
  created : Bool
  deriving DecidableEq, Repr

def outboundRow (id : Uuid) (databaseNow : Time) (conversationId : Uuid)
    (text traceId externalMessageId : String) : MessageRecord where
  id := id
  conversationId := conversationId
  externalMessageId := some externalMessageId
  direction := .outbound
  kind := .text
  contentText := some text
  traceId := traceId
  createdAt := databaseNow

/-- A reply id that is already taken keeps its stored row, whatever it holds. -/
def recordOutbound (db : ConversationTables) (id : Uuid) (databaseNow : Time)
    (conversationId : Uuid) (text traceId externalMessageId : String) :
    Except Failure (PersistedOutbound × ConversationTables) := do
  let (stored, db) ← insertMessage db
    (outboundRow id databaseNow conversationId text traceId externalMessageId)
  match stored with
  | some stored => .ok (⟨stored, true⟩, db)
  | none =>
    match findMessage db externalMessageId with
    | some existing => .ok (⟨existing.id, false⟩, db)
    | none => .error (.database .noResult)

def findConversationId (db : ConversationTables) (channel : Channel)
    (channelAccountId externalConversationId : String) : Option Uuid :=
  (db.conversations.find? fun c =>
    c.identity = (channel, channelAccountId, externalConversationId)).map ConversationRecord.id

/-- Newest first by creation time, then by id. -/
def newer (a b : MessageRecord) : Bool :=
  b.createdAt < a.createdAt || (a.createdAt == b.createdAt && b.id ≤ a.id)

/-- The last `limit` messages of a conversation in chronological order. -/
def recentMessages (db : ConversationTables) (conversationId : Uuid) (limit : ℕ) :
    Except Failure (List MessageRecord) :=
  if limit < 1 ∨ 100 < limit then
    .error (.value "message history limit must be between 1 and 100")
  else
    let rows := db.messages.filter fun m => m.conversationId = conversationId
    .ok ((rows.insertionSort fun a b => newer a b = true).take limit).reverse

theorem findMessage_some {db : ConversationTables} {ext : String} {m : MessageRecord}
    (h : findMessage db ext = some m) : m ∈ db.messages ∧ m.externalMessageId = some ext :=
  ⟨List.mem_of_find?_eq_some h, by simpa using List.find?_some h⟩

@[grind =] theorem findMessage_none {db : ConversationTables} {ext : String} :
    findMessage db ext = none ↔ ∀ m ∈ db.messages, m.externalMessageId ≠ some ext := by
  simp [findMessage, List.find?_eq_none]

/-- A stored external id is found, and nothing else is. -/
theorem findMessage_of_mem {db : ConversationTables} (hu : db.Constraints) {ext : String}
    {m : MessageRecord} (hm : m ∈ db.messages) (he : m.externalMessageId = some ext) :
    findMessage db ext = some m := by
  cases hf : findMessage db ext with
  | none => exact absurd he (findMessage_none.mp hf m hm)
  | some m' =>
    obtain ⟨hm', he'⟩ := findMessage_some hf
    rw [unique_eq hu.message_external hm hm' he he']

/-- All that the conversation upsert can do. -/
theorem upsertConversation_ok {db db' : ConversationTables} {id cid : Uuid} {channel : Channel}
    {account ext : String} (h : upsertConversation db id channel account ext = .ok (cid, db')) :
    (db' = db ∧ ∃ c ∈ db.conversations, c.identity = (channel, account, ext) ∧ c.id = cid) ∨
    (cid = id ∧ (∀ c ∈ db.conversations, c.identity ≠ (channel, account, ext)) ∧
      (∀ c ∈ db.conversations, c.id ≠ id) ∧
      db' = { db with conversations :=
        db.conversations ++ [⟨id, channel, account, ext, .pikiActive⟩] }) := by
  unfold upsertConversation at h
  obtain ⟨_, -, h⟩ := bind_ok h
  obtain ⟨_, -, h⟩ := bind_ok h
  dsimp only at h
  cases hc : conflict (fun c : ConversationRecord => some c.identity) db.conversations
      ⟨id, channel, account, ext, .pikiActive⟩ with
  | some c =>
    simp only [hc] at h
    cases h
    obtain ⟨hm, k, hk, he⟩ := conflict_eq_some hc
    left
    exact ⟨rfl, c, hm, by simpa [ConversationRecord.identity] using he.trans hk.symm, rfl⟩
  | none =>
    simp only [hc] at h
    obtain ⟨_, hf, h⟩ := bind_ok h
    cases h
    right
    refine ⟨rfl, ?_, ?_, rfl⟩
    · intro c hm he
      exact conflict_eq_none.mp hc _ rfl c hm (by simpa [ConversationRecord.identity] using he)
    · intro c hm he
      exact conflict_eq_none.mp (requireFresh_ok hf) _ rfl c hm (by simpa using he)

/-- All that the message insert can do. -/
theorem insertMessage_ok {db db' : ConversationTables} {row : MessageRecord} {stored : Option Uuid}
    (h : insertMessage db row = .ok (stored, db')) :
    (stored = none ∧ db' = db ∧ ∃ m ∈ db.messages, ∃ ext, row.externalMessageId = some ext ∧
      m.externalMessageId = some ext) ∨
    (stored = some row.id ∧ conflict MessageRecord.externalMessageId db.messages row = none ∧
      conflict (fun m : MessageRecord => some m.id) db.messages row = none ∧
      db' = { db with messages := db.messages ++ [row] }) := by
  unfold insertMessage at h
  obtain ⟨_, -, h⟩ := bind_ok h
  obtain ⟨_, -, h⟩ := bind_ok h
  cases hc : conflict MessageRecord.externalMessageId db.messages row with
  | some m =>
    simp only [hc] at h
    cases h
    obtain ⟨hm, k, hk, he⟩ := conflict_eq_some hc
    exact .inl ⟨rfl, rfl, m, hm, k, hk, he⟩
  | none =>
    simp only [hc] at h
    obtain ⟨_, hf, h⟩ := bind_ok h
    obtain ⟨_, -, h⟩ := bind_ok h
    cases h
    exact .inr ⟨rfl, rfl, requireFresh_ok hf, rfl⟩

/-- The insert fails only on a value that does not fit, a taken row id or a missing
conversation. -/
theorem insertMessage_returns {db : ConversationTables} {row : MessageRecord}
    (hext : (row.externalMessageId.getD "").length ≤ 255) (htrace : row.traceId.length ≤ 128)
    (hid : ∀ m ∈ db.messages, m.id ≠ row.id)
    (hconv : ∃ c ∈ db.conversations, c.id = row.conversationId) :
    ∃ r, insertMessage db row = .ok r := by
  have hfresh : requireFresh "messages_pkey" (fun m : MessageRecord => some m.id) db.messages row =
      .ok () := requireFresh_of_new _ fun m hm he => hid m hm (Option.some.inj he)
  have href : (db.conversations.any fun c => c.id = row.conversationId) = true := by
    obtain ⟨c, hc, hcid⟩ := hconv
    exact List.any_eq_true.mpr ⟨c, hc, by simpa using hcid⟩
  unfold insertMessage
  rw [column, if_pos hext, ok_bind, column, if_pos htrace, ok_bind]
  cases conflict MessageRecord.externalMessageId db.messages row with
  | some m => exact ⟨_, rfl⟩
  | none =>
    dsimp only
    rw [hfresh, ok_bind, requireReferenced, if_pos href, ok_bind]
    exact ⟨_, rfl⟩

/-- The upsert fails only on a value that does not fit or a taken id. -/
theorem upsertConversation_returns {db : ConversationTables} {id : Uuid} (channel : Channel)
    {account ext : String} (haccount : account.length ≤ 255) (hext : ext.length ≤ 255)
    (hid : ∀ c ∈ db.conversations, c.id ≠ id) :
    ∃ r, upsertConversation db id channel account ext = .ok r := by
  unfold upsertConversation
  rw [column, if_pos haccount, ok_bind, column, if_pos hext, ok_bind]
  dsimp only
  cases conflict (fun c : ConversationRecord => some c.identity) db.conversations
      ⟨id, channel, account, ext, .pikiActive⟩ with
  | some c => exact ⟨_, rfl⟩
  | none =>
    dsimp only
    rw [requireFresh_of_new _ fun c hc he => hid c hc (Option.some.inj he), ok_bind]
    exact ⟨_, rfl⟩

theorem recordOutbound_returns {db : ConversationTables} {id cid : Uuid} {now : Time}
    {text traceId ext : String} (hext : ext.length ≤ 255) (htrace : traceId.length ≤ 128)
    (hid : ∀ m ∈ db.messages, m.id ≠ id) (hconv : ∃ c ∈ db.conversations, c.id = cid) :
    ∃ r, recordOutbound db id now cid text traceId ext = .ok r := by
  obtain ⟨⟨stored, db'⟩, hins⟩ : ∃ r, insertMessage db (outboundRow id now cid text traceId ext) =
      .ok r := insertMessage_returns hext htrace hid hconv
  rw [recordOutbound, hins, ok_bind]
  rcases insertMessage_ok hins with ⟨rfl, rfl, m, hm, e, hrow, he⟩ | ⟨rfl, -, -, rfl⟩
  · cases hf : findMessage db' ext with
    | none =>
      have hsame : e = ext := (Option.some.inj hrow).symm
      exact absurd (hsame ▸ he) (findMessage_none.mp hf m hm)
    | some existing =>
      simp only [hf]
      exact ⟨_, rfl⟩
  · exact ⟨_, rfl⟩

/-- All that `record_inbound` can do: the conversation of the message is stored,
and the message is either new or already taken by a row with its id. -/
theorem recordInbound_ok {db db' : ConversationTables} {draw : Draw} {account traceId : String}
    {message : InboundMessage} {enqueue : Bool} {p : PersistedInbound}
    (h : recordInbound db draw account message traceId enqueue = .ok (p, db')) :
    ∃ db₁, upsertConversation db draw.conversationUuid message.channel account
        message.conversationId = .ok (p.conversationId, db₁) ∧
      ((p.status = .duplicate ∧ db' = db₁ ∧
          ∃ m ∈ db.messages, m.externalMessageId = some message.messageId) ∨
        (p.status = .created ∧
          conflict MessageRecord.externalMessageId db.messages
            (inboundRow draw p.conversationId message traceId enqueue) = none ∧
          conflict (fun m : MessageRecord => some m.id) db.messages
            (inboundRow draw p.conversationId message traceId enqueue) = none ∧
          db' = { db₁ with messages :=
            db.messages ++ [inboundRow draw p.conversationId message traceId enqueue] })) := by
  unfold recordInbound at h
  obtain ⟨⟨cid, db₁⟩, hup, hrest⟩ := bind_ok h
  obtain ⟨⟨stored, db₂⟩, hins, hret⟩ := bind_ok hrest
  have hmsgs : db₁.messages = db.messages := by
    rcases upsertConversation_ok hup with ⟨rfl, -⟩ | ⟨-, -, -, rfl⟩ <;> rfl
  rcases insertMessage_ok hins with ⟨rfl, rfl, m, hm, ext, hrow, hext⟩ | ⟨rfl, hc, hid, rfl⟩
  · cases hret
    refine ⟨_, hup, .inl ⟨rfl, rfl, m, hmsgs ▸ hm, ?_⟩⟩
    rw [hext]
    exact hrow.symm
  · cases hret
    refine ⟨db₁, hup, .inr ⟨rfl, ?_, ?_, ?_⟩⟩
    · rw [← hmsgs]; exact hc
    · rw [← hmsgs]; exact hid
    · rw [← hmsgs]

theorem upsertConversation_messages {db db' : ConversationTables} {id cid : Uuid}
    {channel : Channel} {account ext : String}
    (h : upsertConversation db id channel account ext = .ok (cid, db')) :
    db'.messages = db.messages := by
  rcases upsertConversation_ok h with ⟨rfl, -⟩ | ⟨-, -, -, rfl⟩ <;> rfl

/-- A message that fits is recorded on a database where the drawn ids are new. -/
theorem recordInbound_returns {db : ConversationTables} {draw : Draw} {account traceId : String}
    (message : InboundMessage) (enqueue : Bool) (haccount : account.length ≤ 255)
    (htrace : traceId.length ≤ 128) (hconv : ∀ c ∈ db.conversations, c.id ≠ draw.conversationUuid)
    (hmessage : ∀ m ∈ db.messages, m.id ≠ draw.messageUuid) :
    ∃ r, recordInbound db draw account message traceId enqueue = .ok r := by
  obtain ⟨⟨cid, db₁⟩, hup⟩ := upsertConversation_returns message.channel haccount
    message.conversationId_bounded.2 hconv
  have hstored : ∃ c ∈ db₁.conversations, c.id = cid := by
    rcases upsertConversation_ok hup with ⟨rfl, c, hc, -, he⟩ | ⟨rfl, -, -, rfl⟩
    · exact ⟨c, hc, he⟩
    · exact ⟨_, List.mem_append_right _ List.mem_cons_self, rfl⟩
  have hnew : ∀ m ∈ db₁.messages, m.id ≠ draw.messageUuid := by
    rw [upsertConversation_messages hup]
    exact hmessage
  obtain ⟨⟨stored, db₂⟩, hins⟩ : ∃ r, insertMessage db₁
      (inboundRow draw cid message traceId enqueue) = .ok r :=
    insertMessage_returns message.messageId_bounded.2 htrace hnew hstored
  rw [recordInbound, hup, ok_bind]
  simp only [hins, ok_bind]
  cases stored <;> exact ⟨_, rfl⟩

/-- Stored messages stay as they are; at most the proposed row is added. -/
theorem recordInbound_rows {db db' : ConversationTables} {draw : Draw} {account traceId : String}
    {message : InboundMessage} {enqueue : Bool} {p : PersistedInbound}
    (h : recordInbound db draw account message traceId enqueue = .ok (p, db')) :
    ∃ rows, db'.messages = db.messages ++ rows ∧
      ∀ m ∈ rows, m = inboundRow draw p.conversationId message traceId enqueue := by
  obtain ⟨db₁, hup, hins⟩ := recordInbound_ok h
  rcases hins with ⟨-, rfl, -⟩ | ⟨-, -, -, rfl⟩
  · exact ⟨[], by simpa using upsertConversation_messages hup, by simp⟩
  · exact ⟨[_], rfl, by simp⟩

/-- All that `record_outbound` can do. -/
theorem recordOutbound_ok {db db' : ConversationTables} {id cid : Uuid} {now : Time}
    {text traceId ext : String} {p : PersistedOutbound}
    (h : recordOutbound db id now cid text traceId ext = .ok (p, db')) :
    (p.created = false ∧ db' = db ∧ ∃ m ∈ db.messages, m.externalMessageId = some ext) ∨
    (p.created = true ∧
      conflict MessageRecord.externalMessageId db.messages
        (outboundRow id now cid text traceId ext) = none ∧
      conflict (fun m : MessageRecord => some m.id) db.messages
        (outboundRow id now cid text traceId ext) = none ∧
      db' = { db with messages :=
        db.messages ++ [outboundRow id now cid text traceId ext] }) := by
  unfold recordOutbound at h
  obtain ⟨⟨stored, db₂⟩, hins, hret⟩ := bind_ok h
  rcases insertMessage_ok hins with ⟨rfl, rfl, m, hm, e, hrow, hext⟩ | ⟨rfl, hc, hid, rfl⟩
  · cases hf : findMessage db₂ ext with
    | none => simp [hf] at hret
    | some existing =>
      simp only [hf] at hret
      cases hret
      obtain ⟨hm', he'⟩ := findMessage_some hf
      exact .inl ⟨rfl, rfl, existing, hm', he'⟩
  · cases hret
    exact .inr ⟨rfl, hc, hid, rfl⟩

end ConversationRepository

open ConversationRepository

theorem upsertConversation_constraints {db db' : ConversationTables} {id cid : Uuid}
    {channel : Channel} {account ext : String} (hu : db.Constraints)
    (h : upsertConversation db id channel account ext = .ok (cid, db')) : db'.Constraints := by
  rcases upsertConversation_ok h with ⟨rfl, -⟩ | ⟨-, hident, hid, rfl⟩
  · exact hu
  · refine ⟨unique_append hu.conversation_id ?_, unique_append hu.conversation_identity ?_,
      hu.message_id, hu.message_external⟩
    · rw [conflict_eq_none]
      rintro k hk c hc he
      exact hid c hc (by simpa using he.trans hk.symm)
    · rw [conflict_eq_none]
      rintro k hk c hc he
      exact hident c hc (by simpa [ConversationRecord.identity] using he.trans hk.symm)

theorem recordInbound_constraints {db db' : ConversationTables} {draw : Draw}
    {account traceId : String} {message : InboundMessage} {enqueue : Bool} {p : PersistedInbound}
    (hu : db.Constraints) (h : recordInbound db draw account message traceId enqueue = .ok (p, db')) :
    db'.Constraints := by
  obtain ⟨db₁, hup, hins⟩ := recordInbound_ok h
  have h₁ := upsertConversation_constraints hu hup
  rcases hins with ⟨-, rfl, -⟩ | ⟨-, hc, hid, rfl⟩
  · exact h₁
  · exact ⟨h₁.conversation_id, h₁.conversation_identity, unique_append hu.message_id hid,
      unique_append hu.message_external hc⟩

theorem recordOutbound_constraints {db db' : ConversationTables} {id cid : Uuid} {now : Time}
    {text traceId ext : String} {p : PersistedOutbound} (hu : db.Constraints)
    (h : recordOutbound db id now cid text traceId ext = .ok (p, db')) : db'.Constraints := by
  rcases recordOutbound_ok h with ⟨-, rfl, -⟩ | ⟨-, hc, hid, rfl⟩
  · exact hu
  · exact ⟨hu.conversation_id, hu.conversation_identity, unique_append hu.message_id hid,
      unique_append hu.message_external hc⟩

end Piki
