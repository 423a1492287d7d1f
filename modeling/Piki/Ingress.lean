import Piki.Conversations
import Piki.DeliveryStore

/-! `DefaultMetaWebhookIngress` of `integrations/meta/ingress.py`: the messages of a
batch are one transaction, each status callback is its own. -/
namespace Piki
open Table ConversationRepository

structure WebhookIngestResult where
  acceptedMessages : ℕ
  duplicateMessages : ℕ
  acceptedStatuses : ℕ
  duplicateStatuses : ℕ
  ignoredStatuses : ℕ
  deriving DecidableEq, Repr

namespace Ingress

/-- The phone number id of the metadata, unless it is empty. -/
def phoneNumberId (message : InboundMessage) : Except Failure String :=
  match (message.metadata.lookup "phone_number_id").filter (· ≠ "") with
  | some id => .ok id
  | none => .error (.ingressRetryable "normalized message has no phone number ID")

/-- The loop of the message transaction; a raised error rolls all of it back. -/
def recordMessages (draws : ℕ → Draw) (db : ConversationTables) :
    List InboundMessage → Except Failure (List PersistStatus × ConversationTables)
  | [] => .ok ([], db)
  | message :: messages => do
    let account ← phoneNumberId message
    let (persisted, db) ← recordInbound db (draws 0) account message
      ("meta:" ++ message.messageId) true
    let (rest, db) ← recordMessages (fun i => draws (i + 1)) db messages
    .ok (persisted.status :: rest, db)

/-- `RedisMessageDeduplicator.claim` raises on a blank part; its answer is not used. -/
def claimDedup (message : InboundMessage) : Except Failure Unit := do
  let account ← phoneNumberId message
  if Text.strip account.toList = [] ∨ Text.strip message.messageId.toList = [] then
    .error (.value "dedup identity parts cannot be blank")
  else .ok ()

/-- One callback of the batch and what the loop makes of its result. -/
def applyStatus (db : DeliveryTables) (callback : MetaStatusUpdate) :
    Except Failure (CallbackApplyStatus × DeliveryTables) := do
  let (status, db) ← DeliveryStore.applyCallback db callback
  match status with
  | .missingAttempt =>
    .error (.ingressRetryable "delivery callback arrived before its durable attempt")
  | _ => .ok (status, db)

/-- The callbacks are committed one by one: an error keeps what was applied before. -/
def applyStatuses (db : DeliveryTables) :
    List MetaStatusUpdate → DeliveryTables × Except Failure (List CallbackApplyStatus)
  | [] => (db, .ok [])
  | callback :: callbacks =>
    match applyStatus db callback with
    | .error e => (db, .error e)
    | .ok (status, db) =>
      let rest := applyStatuses db callbacks
      (rest.1, rest.2.map (status :: ·))

def tally (messages : List PersistStatus) (statuses : List CallbackApplyStatus) :
    WebhookIngestResult :=
  ⟨messages.count .created, messages.count .duplicate, statuses.count .applied,
    statuses.count .duplicate, statuses.count .ignoredRegression⟩

/-- The tables of both halves of the database. -/
structure Tables where
  conversations : ConversationTables
  deliveries : DeliveryTables
  deriving DecidableEq, Repr

/-- A run that nothing interrupts: the tables it leaves, and what it returned or
raised. -/
def ingest (draws : ℕ → Draw) (db : Tables) (events : MetaWebhookEvents) :
    Tables × Except Failure WebhookIngestResult :=
  match recordMessages draws db.conversations events.messages with
  | .error e => (db, .error e)
  | .ok (persisted, conversations) =>
    match events.messages.mapM claimDedup with
    | .error e => (⟨conversations, db.deliveries⟩, .error e)
    | .ok _ =>
      let applied := applyStatuses db.deliveries events.statuses
      (⟨conversations, applied.1⟩, applied.2.map (tally persisted))

theorem recordMessages_constraints {draws : ℕ → Draw} {db db' : ConversationTables}
    {messages : List InboundMessage} {statuses : List PersistStatus} (hu : db.Constraints)
    (h : recordMessages draws db messages = .ok (statuses, db')) : db'.Constraints := by
  induction messages generalizing draws db statuses with
  | nil =>
    cases h
    exact hu
  | cons message messages ih =>
    obtain ⟨account, -, hrest⟩ := bind_ok h
    obtain ⟨⟨p, db₁⟩, hrec, hrest⟩ := bind_ok hrest
    obtain ⟨⟨rest, db₂⟩, htail, hret⟩ := bind_ok hrest
    cases hret
    exact ih (recordInbound_constraints hu hrec) htail

/-- Stored messages stay as they are; the new ones are those of the batch, enqueued. -/
theorem recordMessages_rows {draws : ℕ → Draw} {db db' : ConversationTables}
    {messages : List InboundMessage} {statuses : List PersistStatus}
    (h : recordMessages draws db messages = .ok (statuses, db')) :
    ∃ rows, db'.messages = db.messages ++ rows ∧ ∀ m ∈ rows, ∃ i cid, ∃ message ∈ messages,
      m = inboundRow (draws i) cid message ("meta:" ++ message.messageId) true := by
  induction messages generalizing draws db statuses with
  | nil =>
    cases h
    exact ⟨[], by simp, by simp⟩
  | cons message messages ih =>
    obtain ⟨account, -, hrest⟩ := bind_ok h
    obtain ⟨⟨p, db₁⟩, hrec, hrest⟩ := bind_ok hrest
    obtain ⟨⟨rest, db₂⟩, htail, hret⟩ := bind_ok hrest
    cases hret
    obtain ⟨first, hfirst, hrow⟩ := recordInbound_rows hrec
    obtain ⟨rows, hrows, hall⟩ := ih htail
    refine ⟨first ++ rows, by rw [hrows, hfirst, List.append_assoc], ?_⟩
    intro m hm
    rcases List.mem_append.mp hm with hm | hm
    · exact ⟨0, _, message, List.mem_cons_self, hrow m hm⟩
    · obtain ⟨i, cid, x, hx, he⟩ := hall m hm
      exact ⟨i + 1, cid, x, List.mem_cons_of_mem _ hx, he⟩

end Ingress
end Piki
