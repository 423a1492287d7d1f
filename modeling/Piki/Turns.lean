import Piki.Orchestrator

/-! The bodies of `respond` and `respond_persisted`, one database session at a time.
A call may fail at every `await`, and a commit may be lost on its way back. -/
namespace Piki.Turns
open ConversationOrchestrator

inductive Invocation
  | respond (message : InboundMessage) (channelAccountId : String)
  | respondPersisted (message : InboundMessage) (channelAccountId : String)
      (conversationRecordId : Uuid)

namespace Invocation

def message : Invocation → InboundMessage
  | .respond message _ | .respondPersisted message _ _ => message

def channelAccountId : Invocation → String
  | .respond _ account | .respondPersisted _ account _ => account

def component : Invocation → String
  | .respond _ _ => "conversation"
  | .respondPersisted _ _ _ => "conversation_worker"

/-- What a call does before it asks for the lock. -/
def scope (i : Invocation) : Except Failure ConversationScope := do
  emit (traceOf i.message.messageId) i.component
  ConversationScope.make i.message.channel i.channelAccountId i.message.conversationId

end Invocation

/-- Where the body of a call stands. -/
inductive Progress
  | begun
  | opened (conversationId : Uuid) (history : List MessageRecord)
  | composed (conversationId : Uuid) (text : String) (usedFallback : Bool)
  | ended (outcome : Except Failure ConversationReply)

/-- What the body does next. A session that is not acknowledged is committed, but the
call sees an error. -/
inductive Session
  | first (draw : Draw) (acked : Bool)
  | compose (ports : Ports) (handoffId : Uuid) (now : Time) (acked : Bool)
  | last (id : Uuid) (now : Time) (acked : Bool)
  | raise (e : Failure)

def Progress.acknowledged (acked : Bool) (p : Progress) : Progress :=
  if acked then p else .ended (.error (.database .unavailable))

section
variable (u : Text.Unicode)

/-- The first session of the body: `_respond_locked` records the message, and
`respond_persisted` finds it recorded. -/
def firstSession (db : ConversationTables) (draw : Draw) :
    Invocation → Except Failure (Progress × ConversationTables)
  | .respond message account => do
    match ← openCall u db draw account message with
    | (.answered reply, db) => .ok (.ended (.ok reply), db)
    | (.opened cid history, db) => .ok (.opened cid history, db)
  | .respondPersisted message _ cid => do
    match ← lookupReply u db message cid with
    | .stored reply => .ok (.ended (.ok reply), db)
    | .fresh history => .ok (.opened cid history, db)

/-- One step of the body. -/
def advance (i : Invocation) (db : ConversationTables) :
    Progress → Session → Option (ConversationTables × Progress)
  | .begun, .first draw acked =>
    match firstSession u db draw i with
    | .error e => some (db, .ended (.error e))
    | .ok (p, db) => some (db, p.acknowledged acked)
  | .opened cid history, .compose ports handoffId now acked =>
    let turn := composeFor u ports db handoffId now i.message cid history
    match turn.reply with
    | .error e => some (turn.tables, .ended (.error e))
    | .ok (text, fb) => some (turn.tables, (Progress.composed cid text fb).acknowledged acked)
  | .composed cid text fb, .last id now acked =>
    let (db, outcome) := recordReply u db id now i.message cid text fb
    match outcome with
    | .error e => some (db, .ended (.error e))
    | .ok reply => some (db, (Progress.ended (.ok reply)).acknowledged acked)
  | .ended _, .raise _ => none
  | _, .raise e => some (db, .ended (.error e))
  | _, _ => none

end
end Piki.Turns
