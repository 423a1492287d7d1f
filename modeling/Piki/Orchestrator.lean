import Piki.Conversations
import Piki.Evidence

/-! `ConversationOrchestrator` of `conversation/service.py` with the intent resolver
and `db/handoffs.py`. Each database session is one function over the tables. -/
namespace Piki
open Text Table ConversationRepository

inductive ConversationIntent
  | greeting
  | discoverPicks
  | humanHandoff
  | explainBuenpick
  deriving DecidableEq, Repr

def ConversationIntent.value : ConversationIntent → String
  | .greeting => "greeting"
  | .discoverPicks => "discover_picks"
  | .humanHandoff => "human_handoff"
  | .explainBuenpick => "explain_buenpick"

namespace ConversationIntentResolver

def handoffTerms : List String := ["humano", "persona", "operador", "asesor", "atencion"]
def searchTerms : List String :=
  ["pick", "rescat", "busc", "disponible", "comida", "alimento", "hay", "quiero "]
def explainTerms : List String := ["que es buenpick", "como funciona", "buenpick"]
def greetings : List String :=
  ["hola", "buenas", "buen dia", "buenas tardes", "buenas noches", "hola piki"]

/-- `_normalized`: case and accents are folded away. -/
def normalized (u : Unicode) (text : String) : List Char :=
  collapse ((u.casefoldText text.toList).flatMap u.plain)

def mentions (terms : List String) (s : List Char) : Bool := terms.any fun t => contains s t.toList

/-- The terms about BuenPick itself lead to the same intent as no term at all. -/
def resolve (u : Unicode) (text : String) : ConversationIntent :=
  let s := normalized u text
  if mentions handoffTerms s then .humanHandoff
  else if greetings.any fun g => g.toList == s then .greeting
  else if mentions searchTerms s then .discoverPicks
  else if mentions explainTerms s then .explainBuenpick
  else .explainBuenpick

example : resolve .latin1 "¿Hay picks?" = .discoverPicks := by decide +kernel
example : resolve .latin1 "Necesito ATENCIÓN" = .humanHandoff := by decide +kernel

end ConversationIntentResolver

structure ConversationReply where
  conversationId : Uuid
  text : String
  intent : ConversationIntent
  traceId : String
  usedFallback : Bool
  duplicate : Bool
  text_bounded : Bounded 1 4096 text
  traceId_bounded : Bounded 1 128 traceId
  deriving Repr

instance : DecidableEq ConversationReply := fun a b =>
  decidable_of_iff (a.conversationId = b.conversationId ∧ a.text = b.text ∧
    a.intent = b.intent ∧ a.traceId = b.traceId ∧ a.usedFallback = b.usedFallback ∧
    a.duplicate = b.duplicate) (by
      cases a
      cases b
      simp)

def ConversationReply.make (conversationId : Uuid) (text : String) (intent : ConversationIntent)
    (traceId : String) (usedFallback duplicate : Bool) : Except Failure ConversationReply :=
  if h : Bounded 1 4096 text ∧ Bounded 1 128 traceId then
    .ok ⟨conversationId, text, intent, traceId, usedFallback, duplicate, h.1, h.2⟩
  else .error (.validation "ConversationReply")

structure ConversationScope where
  channel : Channel
  channelAccountId : String
  conversationId : String
  account_bounded : Bounded 1 255 channelAccountId
  conversation_bounded : Bounded 1 255 conversationId
  deriving Repr

instance : DecidableEq ConversationScope := fun a b =>
  decidable_of_iff (a.channel = b.channel ∧ a.channelAccountId = b.channelAccountId ∧
    a.conversationId = b.conversationId) (by
      cases a
      cases b
      simp)

def ConversationScope.make (channel : Channel) (channelAccountId conversationId : String) :
    Except Failure ConversationScope :=
  if h : Bounded 1 255 channelAccountId ∧ Bounded 1 255 conversationId then
    .ok ⟨channel, channelAccountId, conversationId, h.1, h.2⟩
  else .error (.validation "ConversationScope")

structure HandoffRequest where
  conversationId : Uuid
  idempotencyKey : String
  reason : String
  traceId : String
  key_bounded : Bounded 1 255 idempotencyKey
  reason_bounded : Bounded 1 500 reason
  traceId_bounded : Bounded 1 128 traceId
  deriving Repr

def HandoffRequest.make (conversationId : Uuid) (idempotencyKey reason traceId : String) :
    Except Failure HandoffRequest :=
  if h : Bounded 1 255 idempotencyKey ∧ Bounded 1 500 reason ∧ Bounded 1 128 traceId then
    .ok ⟨conversationId, idempotencyKey, reason, traceId, h.1, h.2.1, h.2.2⟩
  else .error (.validation "HandoffRequest")

namespace HandoffRepository

def isOpen (h : HandoffRecord) : Bool := decide (h.status = .requested ∨ h.status = .claimed)

/-- `uq_handoffs_conversation_idempotency`. -/
def requestKey (h : HandoffRecord) : Option (Uuid × String) := some (h.conversationId, h.idempotencyKey)

/-- `uq_handoffs_one_open_per_conversation`, a partial index. -/
def openKey (h : HandoffRecord) : Option Uuid := if isOpen h then some h.conversationId else none

def requestRow (id : Uuid) (now : Time) (request : HandoffRequest) : HandoffRecord :=
  ⟨id, request.conversationId, request.idempotencyKey, .requested, request.reason,
    request.traceId, now⟩

/-- The rows that the fallback `SELECT` of `request` considers. -/
def sameRequest (request : HandoffRequest) (h : HandoffRecord) : Bool :=
  decide (h.conversationId = request.conversationId) &&
    (decide (h.idempotencyKey = request.idempotencyKey) || isOpen h)

/-- The conversation waits for a person after every request. -/
def needsHuman (conversationId : Uuid) (db : ConversationTables) : ConversationTables :=
  { db with conversations := (updateWhere (fun c => decide (c.id = conversationId))
      (fun c => { c with status := .needsHuman }) db.conversations) }

/-- `ON CONFLICT DO NOTHING` covers every unique index of the table. -/
def request (db : ConversationTables) (id : Uuid) (now : Time) (request : HandoffRequest) :
    Except Failure (Bool × ConversationTables) :=
  let row := requestRow id now request
  let conflicts := (conflict (fun h : HandoffRecord => some h.id) db.handoffs row).isSome ||
    (conflict requestKey db.handoffs row).isSome || (conflict openKey db.handoffs row).isSome
  if conflicts then
    if db.handoffs.any (sameRequest request) then .ok (false, needsHuman request.conversationId db)
    else .error (.database .noResult)
  else do
    requireReferenced "conversation_id" (db.conversations.any fun c => c.id = request.conversationId)
    .ok (true, needsHuman request.conversationId { db with handoffs := db.handoffs ++ [row] })

end HandoffRepository

/-- The collaborators of the orchestrator: the configured search, if any, and the
language model. -/
structure Ports where
  search : Option PickSearch
  latencyMs : ℕ
  adapter : LLMAdapter

namespace ConversationOrchestrator
section
variable (u : Unicode)

/-- What one composition did: the tables it left, the packet it built, the request
the model received, and what it returned or raised. -/
structure Turn where
  tables : ConversationTables
  packet : Option ContextPacket
  request : Option CompositionRequest
  reply : Except Failure (String × Bool)

def Turn.raised (db : ConversationTables) (e : Failure) : Turn := ⟨db, none, none, .error e⟩

def handoffText : String :=
  "Listo, pedí atención humana. Tu conversación quedó en espera; " ++
    "todavía no significa que una persona haya respondido."

def notConfiguredText : String :=
  "Todavía no está configurado el acceso local a la API de BuenPick. " ++
    "Puedo conversar, pero no voy a inventar picks, precios ni stock."

theorem noReference_bounded : AtMost 255 none := by simp [AtMost]

def handoffAction : PerformedAction :=
  ⟨"request_human_handoff", .succeeded, none, by decide, noReference_bounded⟩

/-- The stored messages with text, as turns of the conversation. -/
def turns (history : List MessageRecord) : Except Failure (List ConversationTurn) :=
  (history.filter fun m => truthy m.contentText).mapM fun m =>
    ConversationTurn.make (if m.direction = .outbound then .assistant else .user)
      (m.contentText.getD "")

/-- Let the engine answer from a packet, if the packet can be built. -/
def answer (ports : Ports) (db : ConversationTables) (packet : Except Failure ContextPacket)
    (conversation : List ConversationTurn) (deterministicText : Option String) : Turn :=
  match packet with
  | .error e => .raised db e
  | .ok packet =>
    let call := ResponseEngine.respond u ports.adapter packet conversation deterministicText
    ⟨db, some packet, call.request, call.outcome.map fun out => (out.text, out.usedFallback)⟩

/-- The first session of a handoff. -/
def requestHandoff (db : ConversationTables) (handoffId : Uuid) (now : Time) (conversationId : Uuid)
    (messageId traceId : String) : Except Failure (Bool × ConversationTables) := do
  let request ← HandoffRequest.make conversationId ("handoff:" ++ messageId)
    "La persona solicitó atención humana." traceId
  HandoffRepository.request db handoffId now request

def handoffPacket (query traceId : String) : Except Failure ContextPacket :=
  (getPolicy .humanHandoff).contextPacket query traceId [] [] [handoffAction] none

def discoverPacket (query traceId : String) (evidence : ToolEvidenceBundle) :
    Except Failure ContextPacket :=
  (getPolicy .discoverPicks).contextPacket query traceId evidence.confirmedData
    evidence.unavailableData evidence.actionsPerformed none

def explainPacket (query traceId : String) : Except Failure ContextPacket :=
  (getPolicy .explainBuenpick).contextPacket query traceId [] [] [] none

/-- The route of a search. -/
def discover (ports : Ports) (db : ConversationTables) (query traceId : String)
    (conversation : List ConversationTurn) : Turn :=
  match ports.search with
  | none => ⟨db, none, none, .ok (notConfiguredText, true)⟩
  | some search =>
    match BuenPickTools.searchAvailablePicks search ports.latencyMs query traceId >>=
        Evidence.searchResultEvidence u with
    | .error e => .raised db e
    | .ok evidence =>
      if evidence.confirmedData = [] then
        ⟨db, none, none, .ok (evidence.unavailableData.head?.getD
          "No pude confirmar picks disponibles en este momento.", true)⟩
      else answer u ports db (discoverPacket query traceId evidence) conversation none

/-- `_compose_reply`. -/
def composeReply (ports : Ports) (db : ConversationTables) (handoffId : Uuid) (now : Time)
    (intent : ConversationIntent) (query traceId : String) (conversationId : Uuid)
    (history : List MessageRecord) (messageId : String) : Turn :=
  match turns history with
  | .error e => .raised db e
  | .ok conversation =>
    match intent with
    | .humanHandoff =>
      match requestHandoff db handoffId now conversationId messageId traceId with
      | .error e => .raised db e
      | .ok (_, db) => answer u ports db (handoffPacket query traceId) conversation (some handoffText)
    | .discoverPicks => discover u ports db query traceId conversation
    | .greeting | .explainBuenpick =>
      answer u ports db (explainPacket query traceId) conversation none

def traceOf (messageId : String) : String := "conversation:" ++ messageId
def replyId (messageId : String) : String := "piki-reply:" ++ messageId

/-- What the first session of a call found. -/
inductive Lookup
  | stored (reply : ConversationReply)
  | fresh (history : List MessageRecord)

/-- A stored reply with text is returned as it is. -/
def storedReply (message : InboundMessage) (conversationId : Uuid) (existing : MessageRecord) :
    Except Failure ConversationReply :=
  ConversationReply.make conversationId (existing.contentText.getD "")
    (ConversationIntentResolver.resolve u (message.text.getD "")) existing.traceId false true

/-- The stored row that answers a message, if it has text. -/
def findReply (db : ConversationTables) (messageId : String) : Option MessageRecord :=
  (findMessage db (replyId messageId)).filter fun m => truthy m.contentText

/-- The first session of `respond_persisted`. -/
def lookupReply (db : ConversationTables) (message : InboundMessage) (conversationId : Uuid) :
    Except Failure Lookup :=
  match findReply db message.messageId with
  | some existing => Lookup.stored <$> storedReply u message conversationId existing
  | none => Lookup.fresh <$> recentMessages db conversationId 20

/-- `respond` up to the insert of the message: the trace and the scope are checked,
then the first session of `_respond_locked` begins. -/
def enroll (db : ConversationTables) (draw : Draw) (channelAccountId : String)
    (message : InboundMessage) : Except Failure (PersistedInbound × ConversationTables) := do
  emit (traceOf message.messageId) "conversation"
  let _ ← ConversationScope.make message.channel channelAccountId message.conversationId
  recordInbound db draw channelAccountId message (traceOf message.messageId) false

inductive Opened
  | answered (reply : ConversationReply)
  | opened (conversationId : Uuid) (history : List MessageRecord)

/-- The rest of the first session of `_respond_locked`; raising rolls it back. -/
def openCall (db : ConversationTables) (draw : Draw) (channelAccountId : String)
    (message : InboundMessage) : Except Failure (Opened × ConversationTables) := do
  let (persisted, db) ← enroll db draw channelAccountId message
  match persisted.status with
  | .duplicate =>
    match findReply db message.messageId with
    | some existing =>
      let reply ← storedReply u message persisted.conversationId existing
      .ok (.answered reply, db)
    | none => .error (.busy "duplicate message reply is not ready")
  | .created =>
    let history ← recentMessages db persisted.conversationId 20
    .ok (.opened persisted.conversationId history, db)

/-- Between the first session and the last one. -/
def composeFor (ports : Ports) (db : ConversationTables) (handoffId : Uuid) (now : Time)
    (message : InboundMessage) (conversationId : Uuid) (history : List MessageRecord) : Turn :=
  let query := message.text.getD ""
  let intent := ConversationIntentResolver.resolve u query
  match emit (traceOf message.messageId) intent.value with
  | .error e => .raised db e
  | .ok () => composeReply u ports db handoffId now intent query (traceOf message.messageId)
      conversationId history message.messageId

/-- The last session records the reply; the caller's own text is returned, whatever
was stored. -/
def recordReply (db : ConversationTables) (id : Uuid) (now : Time) (message : InboundMessage)
    (conversationId : Uuid) (text : String) (usedFallback : Bool) :
    ConversationTables × Except Failure ConversationReply :=
  match recordOutbound db id now conversationId text (traceOf message.messageId)
      (replyId message.messageId) with
  | .error e => (db, .error e)
  | .ok (_, db) => (db, ConversationReply.make conversationId text
      (ConversationIntentResolver.resolve u (message.text.getD "")) (traceOf message.messageId)
      usedFallback false)

/-- The values that a call draws from outside. -/
structure CallDraw where
  handoffUuid : Uuid
  messageUuid : Uuid
  handoffNow : Time
  recordNow : Time

/-- `respond_persisted` when the lock is granted and no other call runs in between:
the tables it leaves, and what it returned or raised. -/
def respondPersisted (ports : Ports) (db : ConversationTables) (draw : CallDraw)
    (message : InboundMessage) (channelAccountId : String) (conversationId : Uuid) :
    ConversationTables × Except Failure ConversationReply :=
  match emit (traceOf message.messageId) "conversation_worker" >>= fun _ =>
      ConversationScope.make message.channel channelAccountId message.conversationId >>= fun _ =>
      lookupReply u db message conversationId with
  | .error e => (db, .error e)
  | .ok (.stored reply) => (db, .ok reply)
  | .ok (.fresh history) =>
    let turn := composeFor u ports db draw.handoffUuid draw.handoffNow message conversationId history
    match turn.reply with
    | .error e => (turn.tables, .error e)
    | .ok (text, usedFallback) =>
      recordReply u turn.tables draw.messageUuid draw.recordNow message conversationId text usedFallback

end
end ConversationOrchestrator
end Piki
