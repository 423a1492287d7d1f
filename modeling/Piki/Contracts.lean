import Piki.Text

/-! The validated models of `domain/contracts.py`. Each structure carries its own
validator as fields, so a value that the contract rejects cannot be built; `make`
is the constructor call, which raises on everything else. -/
namespace Piki
open Text

/-- Timestamps are microseconds since the epoch, always with a timezone. -/
abbrev Time := ℤ

/-- Random identifiers; freshness is what the primary keys enforce. -/
abbrev Uuid := ℕ

/-- Database errors that the stores can raise. -/
inductive DbError
  | unavailable
  | uniqueViolation (constraint : String)
  | foreignKeyViolation (column : String)
  | tooLong (column : String)
  | noResult
  | multipleResults
  deriving DecidableEq, Repr

/-- Exceptions by their class, with the text or model they carry. -/
inductive Failure
  | validation (model : String)
  | value (message : String)
  | runtime (message : String)
  | busy (message : String)
  | webhook (message : String)
  | ingressRetryable (message : String)
  | database (error : DbError)
  | type (message : String)
  | overflow (message : String)
  | os (message : String)
  | unicodeDecode (message : String)
  | jsonDecode (message : String)
  | recursion (message : String)
  deriving DecidableEq, Repr

theorem ok_bind {α β : Type} (a : α) (f : α → Except Failure β) :
    (Except.ok a >>= f) = f a := rfl

theorem error_bind {α β : Type} (e : Failure) (f : α → Except Failure β) :
    ((Except.error e : Except Failure α) >>= f) = .error e := rfl

/-- A computation that returned went through every bind. -/
theorem bind_ok {α β : Type} {x : Except Failure α} {f : α → Except Failure β} {r : β}
    (h : x >>= f = .ok r) : ∃ a, x = .ok a ∧ f a = .ok r := by
  match x, h with
  | .ok a, h => exact ⟨a, rfl, h⟩

theorem map_ok {α β : Type} {x : Except Failure α} {f : α → β} {r : β}
    (h : f <$> x = .ok r) : ∃ a, x = .ok a ∧ r = f a := by
  match x, h with
  | .ok a, h => exact ⟨a, rfl, (Except.ok.inj h).symm⟩

/-- A traversal that returned went through every element. -/
@[grind =] theorem mapM_ok {α β : Type} {f : α → Except Failure β} {xs : List α} {ys : List β} :
    xs.mapM f = .ok ys ↔ List.Forall₂ (fun x y => f x = .ok y) xs ys := by
  induction xs generalizing ys with
  | nil =>
    rw [List.mapM_nil, List.forall₂_nil_left_iff]
    exact ⟨fun h => (Except.ok.inj h).symm, fun h => by rw [h]; rfl⟩
  | cons x xs ih =>
    rw [List.mapM_cons, List.forall₂_cons_left_iff]
    constructor
    · intro h
      obtain ⟨y, hy, hrest⟩ := bind_ok h
      obtain ⟨zs, hzs, hret⟩ := bind_ok hrest
      exact ⟨y, zs, hy, ih.mp hzs, (Except.ok.inj hret).symm⟩
    · rintro ⟨y, zs, hy, hzs, rfl⟩
      rw [hy, ok_bind, ih.mpr hzs, ok_bind]
      rfl

/-- The value that a contract accepts. -/
def accepted {α : Type} : (x : Except Failure α) → x.isOk = true → α
  | .ok a, _ => a

/-- `Field(min_length=lo, max_length=hi)`. -/
def Bounded (lo hi : ℕ) (s : String) : Prop := lo ≤ s.length ∧ s.length ≤ hi

instance (lo hi : ℕ) (s : String) : Decidable (Bounded lo hi s) := by
  unfold Bounded; infer_instance

theorem bounded_chars (l : List Char) : Bounded l.length l.length (String.ofList l) := by
  simp [Bounded]

theorem Bounded.append {s t : String} {lo hi lo' hi' : ℕ} (hs : Bounded lo hi s)
    (ht : Bounded lo' hi' t) : Bounded (lo + lo') (hi + hi') (s ++ t) := by
  rw [Bounded, String.length_append]
  exact ⟨Nat.add_le_add hs.1 ht.1, Nat.add_le_add hs.2 ht.2⟩

theorem Bounded.mono {s : String} {lo hi lo' hi' : ℕ} (hlo : lo' ≤ lo) (hhi : hi ≤ hi')
    (hs : Bounded lo hi s) : Bounded lo' hi' s :=
  ⟨hlo.trans hs.1, hs.2.trans hhi⟩

/-- A text has as many characters as its list, which is quicker to count. -/
theorem bounded_ofList {lo hi : ℕ} {l : List Char} (h : lo ≤ l.length ∧ l.length ≤ hi) :
    Bounded lo hi (String.ofList l) :=
  (bounded_chars l).mono h.1 h.2

/-- An optional field with `max_length`. -/
def AtMost (hi : ℕ) (s : Option String) : Prop := ∀ t ∈ s, t.length ≤ hi

instance (hi : ℕ) (s : Option String) : Decidable (AtMost hi s) := by
  unfold AtMost; infer_instance

/-- Truthiness of an optional string. -/
def truthy (s : Option String) : Bool := s.any (· ≠ "")

inductive Channel
  | whatsapp
  | web
  deriving DecidableEq, Repr

inductive MessageKind
  | text
  | image
  | interactive
  | unsupported
  deriving DecidableEq, Repr

/-- A text message needs text that is not blank. -/
def TextRequired (kind : MessageKind) (text : Option String) : Prop :=
  kind = .text → ∃ t ∈ text, strip t.toList ≠ []

instance (kind : MessageKind) (text : Option String) : Decidable (TextRequired kind text) := by
  unfold TextRequired; infer_instance

structure InboundMessage where
  messageId : String
  channel : Channel
  conversationId : String
  senderId : String
  kind : MessageKind
  text : Option String
  receivedAt : Time
  metadata : List (String × String)
  messageId_bounded : Bounded 1 255 messageId
  conversationId_bounded : Bounded 1 255 conversationId
  senderId_bounded : Bounded 1 255 senderId
  text_bounded : AtMost 4096 text
  text_required : TextRequired kind text
  deriving DecidableEq, Repr

def InboundMessage.make (messageId : String) (channel : Channel) (conversationId senderId : String)
    (kind : MessageKind) (text : Option String) (receivedAt : Time)
    (metadata : List (String × String)) : Except Failure InboundMessage :=
  if h : Bounded 1 255 messageId ∧ Bounded 1 255 conversationId ∧ Bounded 1 255 senderId ∧
      AtMost 4096 text ∧ TextRequired kind text then
    .ok ⟨messageId, channel, conversationId, senderId, kind, text, receivedAt, metadata,
      h.1, h.2.1, h.2.2.1, h.2.2.2.1, h.2.2.2.2⟩
  else .error (.validation "InboundMessage")

inductive ToolErrorCode
  | badRequest
  | unauthorized
  | notFound
  | rateLimited
  | timeout
  | upstreamUnavailable
  | internalError
  deriving DecidableEq, Repr

/-- The result of a tool: failures carry a code and a message that may be shown. -/
structure ToolResult (α : Type) where
  success : Bool
  data : Option α
  errorCode : Option ToolErrorCode
  userSafeMessage : Option String
  latencyMs : ℕ
  traceId : String
  message_bounded : AtMost 500 userSafeMessage
  traceId_bounded : Bounded 1 128 traceId
  success_shape : success = true → errorCode = none
  failure_code : success = false → errorCode ≠ none
  failure_message : success = false → truthy userSafeMessage = true

inductive EvidenceSource
  | buenpickInternalApi
  | conversation
  | policy
  deriving DecidableEq, Repr

def EvidenceSource.value : EvidenceSource → String
  | .buenpickInternalApi => "buenpick_internal_api"
  | .conversation => "conversation"
  | .policy => "policy"

structure EvidenceItem where
  label : String
  value : String
  source : EvidenceSource
  sourceReference : Option String
  label_bounded : Bounded 1 100 label
  value_bounded : Bounded 1 2000 value
  reference_bounded : AtMost 255 sourceReference
  deriving DecidableEq, Repr

def EvidenceItem.make (label value : String) (source : EvidenceSource)
    (sourceReference : Option String) : Except Failure EvidenceItem :=
  if h : Bounded 1 100 label ∧ Bounded 1 2000 value ∧ AtMost 255 sourceReference then
    .ok ⟨label, value, source, sourceReference, h.1, h.2.1, h.2.2⟩
  else .error (.validation "EvidenceItem")

inductive ActionOutcome
  | succeeded
  | failed
  | skipped
  deriving DecidableEq, Repr

def ActionOutcome.value : ActionOutcome → String
  | .succeeded => "succeeded"
  | .failed => "failed"
  | .skipped => "skipped"

structure PerformedAction where
  name : String
  outcome : ActionOutcome
  reference : Option String
  name_bounded : Bounded 1 100 name
  reference_bounded : AtMost 255 reference
  deriving DecidableEq, Repr

inductive ResponseMode
  | deterministic
  | jinja
  | jinjaLlm
  | nonCommercialLlm
  deriving DecidableEq, Repr

def ResponseMode.value : ResponseMode → String
  | .deterministic => "deterministic"
  | .jinja => "jinja"
  | .jinjaLlm => "jinja_llm"
  | .nonCommercialLlm => "non_commercial_llm"

structure ContextPacket where
  task : String
  query : String
  confirmedData : List EvidenceItem
  unavailableData : List String
  actionsPerformed : List PerformedAction
  writingRules : List String
  responseMode : ResponseMode
  activePickId : Option String
  traceId : String
  task_bounded : Bounded 1 500 task
  query_bounded : Bounded 1 4096 query
  activePickId_bounded : AtMost 255 activePickId
  traceId_bounded : Bounded 1 128 traceId
  deriving DecidableEq, Repr

def ContextPacket.make (task query : String) (confirmedData : List EvidenceItem)
    (unavailableData : List String) (actionsPerformed : List PerformedAction)
    (writingRules : List String) (responseMode : ResponseMode) (activePickId : Option String)
    (traceId : String) : Except Failure ContextPacket :=
  if h : Bounded 1 500 task ∧ Bounded 1 4096 query ∧ AtMost 255 activePickId ∧
      Bounded 1 128 traceId then
    .ok ⟨task, query, confirmedData, unavailableData, actionsPerformed, writingRules,
      responseMode, activePickId, traceId, h.1, h.2.1, h.2.2.1, h.2.2.2⟩
  else .error (.validation "ContextPacket")

inductive DeliveryKind
  | text
  | image
  | interactive
  | template
  deriving DecidableEq, Repr

inductive CustomerServiceWindow
  | open
  | closed
  | unknown
  deriving DecidableEq, Repr

structure InteractiveOption where
  id : String
  title : String
  id_bounded : Bounded 1 256 id
  title_bounded : Bounded 1 20 title
  deriving DecidableEq, Repr

/-- The fields of a delivery request before `validate_content` runs. -/
structure DeliveryContent where
  kind : DeliveryKind
  text : Option String
  mediaUrl : Option String
  interactiveOptions : List InteractiveOption
  templateName : Option String
  templateLanguage : Option String
  templateParameters : List String
  deriving DecidableEq, Repr

/-- `DeliveryRequest.validate_content` with the field bounds of the content. -/
def DeliveryContent.Valid (c : DeliveryContent) : Prop :=
  AtMost 4096 c.text ∧ c.interactiveOptions.length ≤ 3 ∧ c.templateParameters.length ≤ 10 ∧
  (∀ n ∈ c.templateName, Bounded 1 512 n) ∧ (∀ l ∈ c.templateLanguage, Bounded 2 35 l) ∧
  (c.kind = .text → truthy c.text = true) ∧
  (c.kind = .image → c.mediaUrl ≠ none) ∧
  (c.kind = .interactive → truthy c.text = true ∧ c.interactiveOptions ≠ []) ∧
  (c.kind = .template → c.templateName ≠ none ∧ c.templateLanguage ≠ none) ∧
  (c.kind ≠ .interactive → c.interactiveOptions = []) ∧
  (c.kind ≠ .template → truthy c.templateName = false ∧ truthy c.templateLanguage = false ∧
    c.templateParameters = [])

instance (c : DeliveryContent) : Decidable c.Valid := by
  unfold DeliveryContent.Valid; infer_instance

structure DeliveryRequest where
  idempotencyKey : String
  conversationId : String
  content : DeliveryContent
  customerServiceWindow : CustomerServiceWindow
  traceId : String
  key_bounded : Bounded 1 255 idempotencyKey
  conversationId_bounded : Bounded 1 255 conversationId
  traceId_bounded : Bounded 1 128 traceId
  content_valid : content.Valid
  deriving DecidableEq, Repr

def DeliveryRequest.make (idempotencyKey conversationId : String) (content : DeliveryContent)
    (customerServiceWindow : CustomerServiceWindow) (traceId : String) :
    Except Failure DeliveryRequest :=
  if h : Bounded 1 255 idempotencyKey ∧ Bounded 1 255 conversationId ∧ Bounded 1 128 traceId ∧
      content.Valid then
    .ok ⟨idempotencyKey, conversationId, content, customerServiceWindow, traceId,
      h.1, h.2.1, h.2.2.1, h.2.2.2⟩
  else .error (.validation "DeliveryRequest")

inductive DeliveryStatus
  | unknown
  | accepted
  | sent
  | delivered
  | read
  | failed
  deriving DecidableEq, Repr

def DeliveryStatus.isError : DeliveryStatus → Bool
  | .failed | .unknown => true
  | _ => false

structure DeliveryResult where
  status : DeliveryStatus
  providerMessageId : Option String
  errorCode : Option String
  errorMessage : Option String
  traceId : String
  provider_bounded : AtMost 255 providerMessageId
  errorCode_bounded : AtMost 100 errorCode
  errorMessage_bounded : AtMost 500 errorMessage
  traceId_bounded : Bounded 1 128 traceId
  error_shape : status.isError = true → truthy errorCode = true
  success_shape : status.isError = false → errorCode = none
  provider_shape : status.isError = false → truthy providerMessageId = true
  deriving DecidableEq, Repr

def DeliveryResult.make (status : DeliveryStatus) (providerMessageId errorCode errorMessage : Option String)
    (traceId : String) : Except Failure DeliveryResult :=
  if h : AtMost 255 providerMessageId ∧ AtMost 100 errorCode ∧ AtMost 500 errorMessage ∧
      Bounded 1 128 traceId ∧ (status.isError = true → truthy errorCode = true) ∧
      (status.isError = false → errorCode = none) ∧
      (status.isError = false → truthy providerMessageId = true) then
    .ok ⟨status, providerMessageId, errorCode, errorMessage, traceId, h.1, h.2.1, h.2.2.1,
      h.2.2.2.1, h.2.2.2.2.1, h.2.2.2.2.2.1, h.2.2.2.2.2.2⟩
  else .error (.validation "DeliveryResult")

/-- A constructor call that returns built exactly the fields it was given. -/
theorem DeliveryResult.make_ok {status : DeliveryStatus} {pid ec em : Option String}
    {traceId : String} {r : DeliveryResult} (h : DeliveryResult.make status pid ec em traceId = .ok r) :
    r.status = status ∧ r.providerMessageId = pid ∧ r.errorCode = ec ∧ r.errorMessage = em ∧
      r.traceId = traceId := by
  unfold DeliveryResult.make at h
  split_ifs at h with hv
  cases h
  exact ⟨rfl, rfl, rfl, rfl, rfl⟩

end Piki
