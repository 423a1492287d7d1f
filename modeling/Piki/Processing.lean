import Piki.Records

/-! `PostgresMessageProcessingStore` of `db/processing.py`: the durable outbox of
inbound messages. Every method is one transaction. -/
namespace Piki
open Table

/-- A value of the `varchar(100)` error column; every caller passes one that fits. -/
structure ErrorCode where
  text : String
  fits : text.length ≤ 100
  deriving DecidableEq, Repr

/-- The slice `code[:100]`. -/
def ErrorCode.clip (code : String) : ErrorCode :=
  ⟨String.ofList (code.toList.take 100), by simp⟩

/-- What `claim_next` hands to the worker that won the claim. -/
structure ClaimedInbound where
  messageRecordId : Uuid
  conversationRecordId : Uuid
  channelAccountId : String
  message : InboundMessage
  attempts : ℕ
  channelAccountId_bounded : Bounded 1 255 channelAccountId
  attempts_positive : 1 ≤ attempts
  deriving Repr

instance : DecidableEq ClaimedInbound := fun a b =>
  decidable_of_iff (a.messageRecordId = b.messageRecordId ∧
    a.conversationRecordId = b.conversationRecordId ∧ a.channelAccountId = b.channelAccountId ∧
    a.message = b.message ∧ a.attempts = b.attempts) (by
      cases a
      cases b
      simp)

def ClaimedInbound.make (messageRecordId conversationRecordId : Uuid) (channelAccountId : String)
    (message : InboundMessage) (attempts : ℕ) : Except Failure ClaimedInbound :=
  if h : Bounded 1 255 channelAccountId ∧ 1 ≤ attempts then
    .ok ⟨messageRecordId, conversationRecordId, channelAccountId, message, attempts, h.1, h.2⟩
  else .error (.validation "ClaimedInbound")

namespace MessageProcessingStore

/-- The `WHERE` clause of `claim_next`; a comparison with a null column fails. -/
def claimable (now staleBefore : Time) (m : MessageRecord) : Bool :=
  decide (m.direction = .inbound) &&
    ((decide (m.processingStatus = some .pending) &&
        m.processingAvailableAt.any (fun t => t ≤ now)) ||
      (decide (m.processingStatus = some .processing) &&
        m.processingClaimedAt.any (fun t => t ≤ staleBefore)))

/-- `ORDER BY processing_available_at, created_at`, nulls last. -/
def before (a b : MessageRecord) : Bool :=
  match a.processingAvailableAt, b.processingAvailableAt with
  | some x, some y => x < y || (x == y && a.createdAt ≤ b.createdAt)
  | some _, none => true
  | none, some _ => false
  | none, none => a.createdAt ≤ b.createdAt

abbrev Joined := MessageRecord × ConversationRecord

/-- `LIMIT 1` of the ordered rows. -/
def earliest : List Joined → Option Joined
  | [] => none
  | row :: rows =>
    match earliest rows with
    | none => some row
    | some best => if before row.1 best.1 then some row else some best

/-- Each message with its conversation. -/
def joined (db : ConversationTables) : List Joined :=
  db.messages.filterMap fun m =>
    (db.conversations.find? fun c => c.id = m.conversationId).map fun c => (m, c)

/-- The claimed row keeps everything but its processing fields. -/
def markProcessing (now : Time) (m : MessageRecord) : MessageRecord :=
  { m with
    processingStatus := some .processing
    processingAttempts := m.processingAttempts + 1
    processingClaimedAt := some now
    processingErrorCode := none }

def updateMessage (db : ConversationTables) (id : Uuid) (f : MessageRecord → MessageRecord) :
    ConversationTables :=
  { db with messages := updateWhere (fun m => decide (m.id = id)) f db.messages }

/-- Rows locked by a concurrent transaction are skipped. -/
def claimNext (db : ConversationTables) (now : Time) (claimTimeoutSeconds : ℕ)
    (locked : List Uuid) : Except Failure (Option ClaimedInbound × ConversationTables) := do
  let staleBefore := now - claimTimeoutSeconds * 1000000
  let rows := (joined db).filter fun row =>
    claimable now staleBefore row.1 && !locked.contains row.1.id
  match earliest rows with
  | none => .ok (none, db)
  | some (record, conversation) =>
    match record.externalMessageId with
    | none => .error (.runtime "processable inbound message has no external ID")
    | some externalId =>
      let message ← InboundMessage.make externalId conversation.channel
        conversation.externalConversationId conversation.externalConversationId record.kind
        record.contentText record.createdAt []
      let job ← ClaimedInbound.make record.id conversation.id conversation.channelAccountId
        message (markProcessing now record).processingAttempts
      .ok (some job, updateMessage db record.id (markProcessing now))

/-- The row after a claim is given up or settled. -/
def leaveProcessing (status : ProcessingStatus) (errorCode : Option ErrorCode)
    (availableAt : Option Time) (m : MessageRecord) : MessageRecord :=
  { m with
    processingStatus := some status
    processingAvailableAt := availableAt
    processingClaimedAt := none
    processingErrorCode := errorCode.map ErrorCode.text }

/-- `WHERE id = :id AND processing_status = 'processing'`. -/
def active (messageRecordId : Uuid) (m : MessageRecord) : Bool :=
  decide (m.id = messageRecordId ∧ m.processingStatus = some .processing)

def transition (db : ConversationTables) (messageRecordId : Uuid) (status : ProcessingStatus)
    (errorCode : Option ErrorCode) (availableAt : Option Time) :
    Except Failure (Unit × ConversationTables) :=
  if db.messages.any (active messageRecordId) then
    .ok ((), { db with messages := (updateWhere (active messageRecordId)
      (leaveProcessing status errorCode availableAt) db.messages) })
  else .error (.runtime "message processing claim is no longer active")

def complete (db : ConversationTables) (messageRecordId : Uuid) :
    Except Failure (Unit × ConversationTables) :=
  transition db messageRecordId .completed none none

/-- A retry goes back to pending after one second, otherwise the row is terminal. -/
def fail (db : ConversationTables) (now : Time) (messageRecordId : Uuid) (errorCode : ErrorCode)
    (retry : Bool) : Except Failure (Unit × ConversationTables) :=
  if retry then transition db messageRecordId .pending (some errorCode) (some (now + 1000000))
  else transition db messageRecordId .failed (some errorCode) none

theorem earliest_mem {rows : List Joined} {row : Joined} (h : earliest rows = some row) :
    row ∈ rows := by
  induction rows generalizing row with
  | nil => simp [earliest] at h
  | cons r rows ih =>
    cases hb : earliest rows with
    | none => simp only [earliest, hb, Option.some.injEq] at h; simp [h]
    | some best =>
      simp only [earliest, hb] at h
      split_ifs at h
      · simp [Option.some.inj h]
      · exact List.mem_cons_of_mem _ (ih (hb.trans h))

theorem before_total {a b : MessageRecord} (h : before a b = false) : before b a = true := by
  unfold before at h ⊢
  cases ha : a.processingAvailableAt <;> cases hb : b.processingAvailableAt <;>
    simp only [ha, hb, decide_eq_false_iff_not, decide_eq_true_eq, Bool.or_eq_false_iff,
      Bool.and_eq_false_iff, beq_eq_false_iff_ne, Bool.or_eq_true, Bool.and_eq_true,
      beq_iff_eq] at h ⊢ <;> grind

theorem before_refl (a : MessageRecord) : before a a = true := by
  cases h : before a a with
  | true => rfl
  | false => exact h.symm.trans (before_total h)

theorem before_trans {a b c : MessageRecord} (hab : before a b = true) (hbc : before b c = true) :
    before a c = true := by
  unfold before at hab hbc ⊢
  cases ha : a.processingAvailableAt <;> cases hb : b.processingAvailableAt <;>
    cases hc : c.processingAvailableAt <;>
    simp only [ha, hb, hc, decide_eq_true_eq, Bool.or_eq_true, Bool.and_eq_true,
      beq_iff_eq] at hab hbc ⊢ <;> grind

/-- No row comes before the one that the ordered query returns. -/
theorem earliest_before {rows : List Joined} {row : Joined} (h : earliest rows = some row) :
    ∀ other ∈ rows, before row.1 other.1 = true := by
  induction rows generalizing row with
  | nil => simp [earliest] at h
  | cons r rows ih =>
    cases hb : earliest rows with
    | none =>
      cases rows with
      | nil =>
        simp only [earliest, Option.some.injEq] at h
        subst h
        simpa using before_refl r.1
      | cons r' rows =>
        simp only [earliest] at hb
        split at hb
        · cases hb
        · split_ifs at hb
    | some best =>
      simp only [earliest, hb] at h
      split_ifs at h with hr
      · cases h
        refine List.forall_mem_cons.mpr ⟨before_refl r.1, fun other ho => ?_⟩
        exact before_trans hr (ih hb other ho)
      · cases h
        refine List.forall_mem_cons.mpr ⟨before_total (Bool.eq_false_iff.mpr hr), ih hb⟩

theorem mem_joined {db : ConversationTables} {row : Joined} (h : row ∈ joined db) :
    row.1 ∈ db.messages ∧ row.2 ∈ db.conversations ∧ row.2.id = row.1.conversationId := by
  simp only [joined, List.mem_filterMap, Option.map_eq_some_iff] at h
  obtain ⟨m, hm, c, hc, rfl⟩ := h
  have hp := List.find?_some hc
  exact ⟨hm, List.mem_of_find?_eq_some hc, by simpa using hp⟩

/-- A claimed job repeats the identity of its row. -/
structure Describes (job : ClaimedInbound) (m : MessageRecord) (c : ConversationRecord) : Prop where
  record_id : job.messageRecordId = m.id
  conversation_id : job.conversationRecordId = c.id
  external_id : m.externalMessageId = some job.message.messageId
  account : job.channelAccountId = c.channelAccountId
  channel : job.message.channel = c.channel
  conversation : job.message.conversationId = c.externalConversationId
  kind : job.message.kind = m.kind
  text : job.message.text = m.contentText
  received : job.message.receivedAt = m.createdAt
  attempts : job.attempts = m.processingAttempts + 1

/-- All that a committed `claim_next` can do. -/
theorem claimNext_ok {db db' : ConversationTables} {now : Time} {timeout : ℕ} {locked : List Uuid}
    {job : Option ClaimedInbound} (h : claimNext db now timeout locked = .ok (job, db')) :
    (job = none ∧ db' = db) ∨
    ∃ j m c, job = some j ∧ m ∈ db.messages ∧ c ∈ db.conversations ∧ c.id = m.conversationId ∧
      claimable now (now - timeout * 1000000) m = true ∧ Describes j m c ∧
      db' = updateMessage db m.id (markProcessing now) := by
  unfold claimNext at h
  dsimp only at h
  generalize hr : earliest _ = r at h
  cases r with
  | none => left; cases h; exact ⟨rfl, rfl⟩
  | some row =>
    obtain ⟨record, conversation⟩ := row
    right
    have hmem := earliest_mem hr
    rw [List.mem_filter, Bool.and_eq_true] at hmem
    obtain ⟨hjoin, hclaim, -⟩ := hmem
    obtain ⟨hm, hc, hid⟩ := mem_joined hjoin
    dsimp only at h
    cases hext : record.externalMessageId with
    | none => simp [hext] at h
    | some ext =>
      simp only [hext] at h
      obtain ⟨message, hmsg, h⟩ := bind_ok h
      obtain ⟨j, hj, h⟩ := bind_ok h
      unfold InboundMessage.make at hmsg
      split_ifs at hmsg
      unfold ClaimedInbound.make at hj
      split_ifs at hj
      cases hmsg
      cases hj
      cases h
      exact ⟨_, record, conversation, rfl, hm, hc, hid, hclaim,
        ⟨rfl, rfl, hext, rfl, rfl, rfl, rfl, rfl, rfl, rfl⟩, rfl⟩

/-- The rows that `claim_next` chooses from. -/
def eligible (db : ConversationTables) (now : Time) (claimTimeoutSeconds : ℕ)
    (locked : List Uuid) : List Joined :=
  (joined db).filter fun row =>
    claimable now (now - claimTimeoutSeconds * 1000000) row.1 && !locked.contains row.1.id

/-- The first of the eligible rows is claimed. -/
theorem claimNext_first {db db' : ConversationTables} {now : Time} {timeout : ℕ}
    {locked : List Uuid} {job : ClaimedInbound}
    (h : claimNext db now timeout locked = .ok (some job, db')) :
    ∃ row ∈ eligible db now timeout locked,
      (∀ other ∈ eligible db now timeout locked, before row.1 other.1 = true) ∧
      db' = updateMessage db row.1.id (markProcessing now) := by
  unfold claimNext at h
  dsimp only at h
  generalize hr : earliest _ = r at h
  cases r with
  | none => cases h
  | some row =>
    refine ⟨row, earliest_mem hr, earliest_before hr, ?_⟩
    cases hext : row.1.externalMessageId with
    | none => simp [hext] at h
    | some ext =>
      simp only [hext] at h
      obtain ⟨message, -, h⟩ := bind_ok h
      obtain ⟨j, -, h⟩ := bind_ok h
      cases h
      rfl

theorem transition_ok {db db' : ConversationTables} {id : Uuid} {status : ProcessingStatus}
    {errorCode : Option ErrorCode} {availableAt : Option Time}
    (h : transition db id status errorCode availableAt = .ok ((), db')) :
    (∃ m ∈ db.messages, m.id = id ∧ m.processingStatus = some .processing) ∧
    db' = { db with messages := (updateWhere (active id)
      (leaveProcessing status errorCode availableAt) db.messages) } := by
  unfold transition at h
  split_ifs at h with ha
  cases h
  obtain ⟨m, hm, hact⟩ := List.any_eq_true.mp ha
  exact ⟨⟨m, hm, by simpa [active] using hact⟩, rfl⟩

/-- The guard asks for the status only, not for the claim that set it. -/
theorem transition_raises_iff {db : ConversationTables} {id : Uuid} {status : ProcessingStatus}
    {errorCode : Option ErrorCode} {availableAt : Option Time} :
    (∃ e, transition db id status errorCode availableAt = .error e) ↔
      ∀ m ∈ db.messages, m.id = id → m.processingStatus ≠ some .processing := by
  unfold transition
  split_ifs with ha
  · obtain ⟨m, hm, hact⟩ := List.any_eq_true.mp ha
    have hp : m.id = id ∧ m.processingStatus = some .processing := by simpa [active] using hact
    constructor
    · rintro ⟨e, he⟩
      cases he
    · intro hn
      exact absurd hp.2 (hn m hm hp.1)
  · refine ⟨fun _ m hm hid hs => ha ?_, fun _ => ⟨_, rfl⟩⟩
    exact List.any_eq_true.mpr ⟨m, hm, by simp [active, hid, hs]⟩

end MessageProcessingStore
end Piki
