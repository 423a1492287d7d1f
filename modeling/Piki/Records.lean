import Piki.Contracts
import Piki.Table

/-! The tables of `db/models.py` with their declared constraints. Columns that no
modelled function reads (`updated_at`, generated event ids) are not stored. -/
namespace Piki

inductive ConversationWorkflowStatus
  | new
  | pikiActive
  | needsHuman
  | humanActive
  | resolved
  deriving DecidableEq, Repr

structure ConversationRecord where
  id : Uuid
  channel : Channel
  channelAccountId : String
  externalConversationId : String
  status : ConversationWorkflowStatus
  deriving DecidableEq, Repr

inductive Direction
  | inbound
  | outbound
  deriving DecidableEq, Repr

inductive ProcessingStatus
  | pending
  | processing
  | completed
  | failed
  deriving DecidableEq, Repr

structure MessageRecord where
  id : Uuid
  conversationId : Uuid
  externalMessageId : Option String
  direction : Direction
  kind : MessageKind
  contentText : Option String
  traceId : String
  processingStatus : Option ProcessingStatus := none
  processingAttempts : ℕ := 0
  processingAvailableAt : Option Time := none
  processingClaimedAt : Option Time := none
  processingErrorCode : Option String := none
  createdAt : Time
  deriving DecidableEq, Repr

inductive HandoffStatus
  | requested
  | claimed
  | resolved
  deriving DecidableEq, Repr

structure HandoffRecord where
  id : Uuid
  conversationId : Uuid
  idempotencyKey : String
  status : HandoffStatus
  reason : String
  traceId : String
  createdAt : Time
  deriving DecidableEq, Repr

inductive DeliveryAttemptState
  | pending
  | unknown
  | accepted
  | sent
  | delivered
  | read
  | failed
  deriving DecidableEq, Repr

def DeliveryStatus.toState : DeliveryStatus → DeliveryAttemptState
  | .unknown => .unknown
  | .accepted => .accepted
  | .sent => .sent
  | .delivered => .delivered
  | .read => .read
  | .failed => .failed

structure DeliveryAttemptRecord where
  id : Uuid
  conversationId : Uuid
  idempotencyKey : String
  providerMessageId : Option String
  status : DeliveryAttemptState
  errorCode : Option String
  errorMessage : Option String
  traceId : String
  deriving DecidableEq, Repr

structure DeliveryStatusEventRecord where
  deliveryAttemptId : Uuid
  providerMessageId : Option String
  status : DeliveryAttemptState
  errorCode : Option String
  errorMessage : Option String
  traceId : String
  occurredAt : Time
  deriving DecidableEq, Repr

/-- `uq_conversation_channel_identity`. -/
def ConversationRecord.identity (c : ConversationRecord) : Channel × String × String :=
  (c.channel, c.channelAccountId, c.externalConversationId)

/-- `uq_delivery_status_provider_state`; a null provider id never conflicts. -/
def DeliveryStatusEventRecord.providerState (e : DeliveryStatusEventRecord) :
    Option (String × DeliveryAttemptState) :=
  e.providerMessageId.map fun p => (p, e.status)

/-- The tables behind conversations and the processing outbox. -/
structure ConversationTables where
  conversations : List ConversationRecord
  messages : List MessageRecord
  handoffs : List HandoffRecord
  deriving DecidableEq, Repr

/-- The tables behind outbound delivery. -/
structure DeliveryTables where
  attempts : List DeliveryAttemptRecord
  events : List DeliveryStatusEventRecord
  deriving DecidableEq, Repr

def ConversationTables.empty : ConversationTables := ⟨[], [], []⟩
def DeliveryTables.empty : DeliveryTables := ⟨[], []⟩

/-- The primary keys and unique constraints that PostgreSQL enforces. -/
structure ConversationTables.Constraints (db : ConversationTables) : Prop where
  conversation_id : Table.Unique (fun c : ConversationRecord => some c.id) db.conversations
  conversation_identity : Table.Unique (fun c : ConversationRecord => some c.identity) db.conversations
  message_id : Table.Unique (fun m : MessageRecord => some m.id) db.messages
  message_external : Table.Unique MessageRecord.externalMessageId db.messages

structure DeliveryTables.Constraints (db : DeliveryTables) : Prop where
  attempt_id : Table.Unique (fun a : DeliveryAttemptRecord => some a.id) db.attempts
  attempt_key : Table.Unique (fun a : DeliveryAttemptRecord => some a.idempotencyKey) db.attempts
  event_state : Table.Unique DeliveryStatusEventRecord.providerState db.events

theorem ConversationTables.empty_constraints : ConversationTables.empty.Constraints :=
  ⟨Table.unique_nil _, Table.unique_nil _, Table.unique_nil _, Table.unique_nil _⟩

theorem DeliveryTables.empty_constraints : DeliveryTables.empty.Constraints :=
  ⟨Table.unique_nil _, Table.unique_nil _, Table.unique_nil _⟩

theorem ConversationTables.Constraints.message_eq {db : ConversationTables} (h : db.Constraints)
    {a b : MessageRecord} (ha : a ∈ db.messages) (hb : b ∈ db.messages) (hid : a.id = b.id) :
    a = b :=
  Table.unique_eq h.message_id ha hb rfl (by rw [hid])

/-- A `varchar(n)` column rejects longer values. -/
def column (name : String) (n : ℕ) (value : String) : Except Failure Unit :=
  if value.length ≤ n then .ok () else .error (.database (.tooLong name))

/-- A primary-key or unique-constraint violation aborts the statement. -/
def requireFresh {ρ κ : Type} [DecidableEq κ] (name : String) (key : ρ → Option κ)
    (rows : List ρ) (row : ρ) : Except Failure Unit :=
  match Table.conflict key rows row with
  | none => .ok ()
  | some _ => .error (.database (.uniqueViolation name))

/-- A foreign key must name a stored row. -/
def requireReferenced (name : String) (found : Bool) : Except Failure Unit :=
  if found then .ok () else .error (.database (.foreignKeyViolation name))

theorem requireFresh_ok {ρ κ : Type} [DecidableEq κ] {name : String} {key : ρ → Option κ}
    {rows : List ρ} {row : ρ} (h : requireFresh name key rows row = .ok ()) :
    Table.conflict key rows row = none := by
  unfold requireFresh at h
  cases hc : Table.conflict key rows row with
  | none => rfl
  | some r => rw [hc] at h; cases h

theorem requireFresh_of_new {ρ κ : Type} [DecidableEq κ] (name : String) {key : ρ → Option κ}
    {rows : List ρ} {row : ρ} (h : ∀ r ∈ rows, key r ≠ key row) :
    requireFresh name key rows row = .ok () := by
  unfold requireFresh
  rw [Table.conflict_eq_none.mpr]
  intro k hk r hr he
  exact h r hr (he.trans hk.symm)

end Piki
