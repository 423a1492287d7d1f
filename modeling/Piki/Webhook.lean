import Piki.Records

/-! `integrations/meta/webhook.py`: the payload models, and the normalisation of a
parsed payload into inbound messages and status updates. -/
namespace Piki

structure MetaImage where
  id : String
  mimeType : Option String
  sha256 : Option String
  caption : Option String
  deriving DecidableEq, Repr

structure MetaReply where
  id : String
  title : String
  deriving DecidableEq, Repr

structure MetaInteractive where
  type : String
  buttonReply : Option MetaReply
  listReply : Option MetaReply
  deriving DecidableEq, Repr

/-- `text` is the body of the nested text object. -/
structure MetaMessage where
  id : String
  sender : String
  timestamp : String
  type : String
  text : Option String
  image : Option MetaImage
  interactive : Option MetaInteractive
  deriving DecidableEq, Repr

structure MetaStatusError where
  code : ℤ
  title : Option String
  message : Option String
  /-- `error_data.details`, absent when either level is. -/
  details : Option String
  deriving DecidableEq, Repr

inductive MetaStatusName
  | sent
  | delivered
  | read
  | failed
  deriving DecidableEq, Repr

/-- `status_map`. -/
def MetaStatusName.toStatus : MetaStatusName → DeliveryStatus
  | .sent => .sent
  | .delivered => .delivered
  | .read => .read
  | .failed => .failed

structure MetaStatus where
  id : String
  status : MetaStatusName
  timestamp : String
  recipientId : String
  errors : List MetaStatusError
  deriving DecidableEq, Repr

structure MetaChange where
  phoneNumberId : String
  messages : List MetaMessage
  statuses : List MetaStatus
  deriving DecidableEq, Repr

structure MetaEntry where
  id : String
  changes : List MetaChange
  deriving DecidableEq, Repr

abbrev MetaWebhookPayload := List MetaEntry

/-- A status callback; exactly the failed ones carry an error code. -/
structure MetaStatusUpdate where
  providerMessageId : String
  phoneNumberId : String
  recipientId : String
  status : DeliveryStatus
  occurredAt : Time
  errorCode : Option String
  errorMessage : Option String
  provider_bounded : Bounded 1 255 providerMessageId
  phone_bounded : Bounded 1 255 phoneNumberId
  recipient_bounded : Bounded 1 255 recipientId
  errorCode_bounded : AtMost 100 errorCode
  errorMessage_bounded : AtMost 500 errorMessage
  error_shape : status = .failed ↔ errorCode ≠ none
  deriving Repr

instance : DecidableEq MetaStatusUpdate := fun a b =>
  decidable_of_iff (a.providerMessageId = b.providerMessageId ∧
    a.phoneNumberId = b.phoneNumberId ∧ a.recipientId = b.recipientId ∧ a.status = b.status ∧
    a.occurredAt = b.occurredAt ∧ a.errorCode = b.errorCode ∧
    a.errorMessage = b.errorMessage) (by
      cases a
      cases b
      simp)

def MetaStatusUpdate.make (providerMessageId phoneNumberId recipientId : String)
    (status : DeliveryStatus) (occurredAt : Time) (errorCode errorMessage : Option String) :
    Except Failure MetaStatusUpdate :=
  if h : Bounded 1 255 providerMessageId ∧ Bounded 1 255 phoneNumberId ∧
      Bounded 1 255 recipientId ∧ AtMost 100 errorCode ∧ AtMost 500 errorMessage ∧
      (status = .failed ↔ errorCode ≠ none) then
    .ok ⟨providerMessageId, phoneNumberId, recipientId, status, occurredAt, errorCode,
      errorMessage, h.1, h.2.1, h.2.2.1, h.2.2.2.1, h.2.2.2.2.1, h.2.2.2.2.2⟩
  else .error (.validation "MetaStatusUpdate")

structure MetaWebhookEvents where
  messages : List InboundMessage
  statuses : List MetaStatusUpdate
  deriving DecidableEq, Repr

def MetaWebhookEvents.append (a b : MetaWebhookEvents) : MetaWebhookEvents :=
  ⟨a.messages ++ b.messages, a.statuses ++ b.statuses⟩

namespace Webhook

/-- `_message_metadata`: kind, text and metadata of a provider message. -/
def messageMetadata (message : MetaMessage) (phoneNumberId : String) :
    MessageKind × Option String × List (String × String) :=
  let metadata := [("phone_number_id", phoneNumberId), ("meta_message_type", message.type)]
  let optional (key : String) (value : Option String) : List (String × String) :=
    if truthy value then [(key, value.getD "")] else []
  let unsupported := (MessageKind.unsupported, none, metadata)
  if message.type = "text" then
    match message.text with
    | some body => (.text, some body, metadata)
    | none => unsupported
  else if message.type = "image" then
    match message.image with
    | some image => (.image, image.caption, metadata ++ [("media_id", image.id)] ++
        optional "mime_type" image.mimeType ++ optional "media_sha256" image.sha256)
    | none => unsupported
  else if message.type = "interactive" then
    match message.interactive.bind fun i => (i.buttonReply.or i.listReply).map (i, ·) with
    | some (interactive, reply) => (.interactive, some reply.title, metadata ++
        [("interaction_id", reply.id), ("interaction_type", interactive.type)])
    | none => unsupported
  else unsupported

/-- `int` and `datetime.fromtimestamp` of the standard library. -/
abbrev Timestamp := String → Except Failure Time

/-- A contract error of a normalised value is reported as a webhook error. -/
def rewrap {α : Type} (message : String) : Except Failure α → Except Failure α
  | .error (.validation _) => .error (.webhook message)
  | r => r

def normalizeMessage (timestamp : Timestamp) (phoneNumberId : String) (message : MetaMessage) :
    Except Failure InboundMessage := do
  let (kind, text, metadata) := messageMetadata message phoneNumberId
  let receivedAt ← timestamp message.timestamp
  rewrap "invalid normalized Meta message"
    (InboundMessage.make message.id .whatsapp message.sender message.sender kind text receivedAt
      metadata)

def statusErrorMessage (e : MetaStatusError) : Option String :=
  if truthy e.details then e.details else if truthy e.message then e.message else e.title

def normalizeStatus (timestamp : Timestamp) (phoneNumberId : String) (status : MetaStatus) :
    Except Failure MetaStatusUpdate := do
  let statusError := status.errors.head?
  let occurredAt ← timestamp status.timestamp
  rewrap "invalid normalized Meta status"
    (MetaStatusUpdate.make status.id phoneNumberId status.recipientId status.status.toStatus
      occurredAt (statusError.map fun e => toString e.code) (statusError.bind statusErrorMessage))

def normalizeChange (timestamp : Timestamp) (expectedPhoneNumberId : Option String)
    (change : MetaChange) : Except Failure MetaWebhookEvents := do
  if expectedPhoneNumberId.any (· ≠ change.phoneNumberId) then
    .error (.webhook "unexpected Meta phone number ID")
  else
    let messages ← change.messages.mapM (normalizeMessage timestamp change.phoneNumberId)
    let statuses ← change.statuses.mapM (normalizeStatus timestamp change.phoneNumberId)
    .ok ⟨messages, statuses⟩

def normalizeEntry (timestamp : Timestamp) (expectedWabaId expectedPhoneNumberId : Option String)
    (entry : MetaEntry) : Except Failure MetaWebhookEvents := do
  if expectedWabaId.any (· ≠ entry.id) then .error (.webhook "unexpected Meta WABA ID")
  else
    let events ← entry.changes.mapM (normalizeChange timestamp expectedPhoneNumberId)
    .ok (events.foldl MetaWebhookEvents.append ⟨[], []⟩)

/-- `normalize_webhook` on a payload that the payload models accept. -/
def normalizeWebhook (timestamp : Timestamp) (expectedWabaId expectedPhoneNumberId : Option String)
    (payload : MetaWebhookPayload) : Except Failure MetaWebhookEvents := do
  let events ← payload.mapM (normalizeEntry timestamp expectedWabaId expectedPhoneNumberId)
  .ok (events.foldl MetaWebhookEvents.append ⟨[], []⟩)

/-- Every event of `e` is normalised from one message or status of a payload. -/
structure Sourced (timestamp : Timestamp) (e : MetaWebhookEvents) : Prop where
  messages : ∀ m ∈ e.messages, ∃ phoneNumberId message,
    normalizeMessage timestamp phoneNumberId message = .ok m
  statuses : ∀ u ∈ e.statuses, ∃ phoneNumberId status,
    normalizeStatus timestamp phoneNumberId status = .ok u

theorem sourced_foldl {timestamp : Timestamp} {events : List MetaWebhookEvents}
    {acc : MetaWebhookEvents} (hacc : Sourced timestamp acc)
    (h : ∀ e ∈ events, Sourced timestamp e) :
    Sourced timestamp (events.foldl MetaWebhookEvents.append acc) := by
  induction events generalizing acc with
  | nil => exact hacc
  | cons e events ih =>
    obtain ⟨he, hrest⟩ := List.forall_mem_cons.mp h
    refine ih ⟨?_, ?_⟩ hrest
    · intro m hm
      exact (List.mem_append.mp hm).elim (hacc.messages m) (he.messages m)
    · intro u hu
      exact (List.mem_append.mp hu).elim (hacc.statuses u) (he.statuses u)

theorem forall₂_right {α β : Type} {r : α → β → Prop} {xs : List α} {ys : List β}
    (h : List.Forall₂ r xs ys) : ∀ y ∈ ys, ∃ x, r x y := by
  intro y hy
  obtain ⟨n, hn, rfl⟩ := List.mem_iff_getElem.mp hy
  exact ⟨_, (List.forall₂_iff_get.mp h).2 n (by rw [h.length_eq]; exact hn) hn⟩

theorem normalizeChange_sourced {timestamp : Timestamp} {phone : Option String}
    {change : MetaChange} {events : MetaWebhookEvents}
    (h : normalizeChange timestamp phone change = .ok events) : Sourced timestamp events := by
  unfold normalizeChange at h
  split_ifs at h
  obtain ⟨messages, hmessages, h⟩ := bind_ok h
  obtain ⟨statuses, hstatuses, h⟩ := bind_ok h
  cases h
  refine ⟨?_, ?_⟩
  · intro m hm
    exact ⟨_, forall₂_right (mapM_ok.mp hmessages) m hm⟩
  · intro u hu
    exact ⟨_, forall₂_right (mapM_ok.mp hstatuses) u hu⟩

theorem normalizeEntry_sourced {timestamp : Timestamp} {waba phone : Option String}
    {entry : MetaEntry} {events : MetaWebhookEvents}
    (h : normalizeEntry timestamp waba phone entry = .ok events) : Sourced timestamp events := by
  unfold normalizeEntry at h
  split_ifs at h
  obtain ⟨changes, hchanges, h⟩ := bind_ok h
  cases h
  refine sourced_foldl ⟨by simp, by simp⟩ ?_
  intro e he
  obtain ⟨change, hc⟩ := forall₂_right (mapM_ok.mp hchanges) e he
  exact normalizeChange_sourced hc

theorem normalizeWebhook_sourced {timestamp : Timestamp} {waba phone : Option String}
    {payload : MetaWebhookPayload} {events : MetaWebhookEvents}
    (h : normalizeWebhook timestamp waba phone payload = .ok events) :
    Sourced timestamp events := by
  obtain ⟨entries, hentries, h⟩ := bind_ok h
  cases h
  refine sourced_foldl ⟨by simp, by simp⟩ ?_
  intro e he
  obtain ⟨entry, hn⟩ := forall₂_right (mapM_ok.mp hentries) e he
  exact normalizeEntry_sourced hn

end Webhook
end Piki
