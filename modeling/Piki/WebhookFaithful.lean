import Piki.WebhookReceive

/-! What `normalize_webhook` returns: one event for each message and status of the payload,
in order, and nothing at all when one part of the payload is refused. -/
namespace Piki.Webhook

/-- The messages of a payload in the order of the loops, with the phone number of their
change. -/
def messagesOf (payload : MetaWebhookPayload) : List (String × MetaMessage) :=
  payload.flatMap fun entry => entry.changes.flatMap fun change =>
    change.messages.map fun message => (change.phoneNumberId, message)

def statusesOf (payload : MetaWebhookPayload) : List (String × MetaStatus) :=
  payload.flatMap fun entry => entry.changes.flatMap fun change =>
    change.statuses.map fun status => (change.phoneNumberId, status)

section Events
variable (ts : Timestamp)

/-- The event is that of the message, received on the given phone number. -/
structure MessageEvent (source : String × MetaMessage) (event : InboundMessage) : Prop where
  messageId : event.messageId = source.2.id
  channel : event.channel = .whatsapp
  conversationId : event.conversationId = source.2.sender
  senderId : event.senderId = source.2.sender
  receivedAt : ts source.2.timestamp = .ok event.receivedAt
  content : (event.kind, event.text, event.metadata) = messageMetadata source.2 source.1
  phoneNumberId : event.metadata.lookup "phone_number_id" = some source.1

structure StatusEvent (source : String × MetaStatus) (event : MetaStatusUpdate) : Prop where
  providerMessageId : event.providerMessageId = source.2.id
  phoneNumberId : event.phoneNumberId = source.1
  recipientId : event.recipientId = source.2.recipientId
  status : event.status = source.2.status.toStatus
  occurredAt : ts source.2.timestamp = .ok event.occurredAt
  errorCode : event.errorCode = source.2.errors.head?.map fun e => toString e.code
  errorMessage : event.errorMessage = source.2.errors.head?.bind statusErrorMessage

/-- What the contracts require of a message. -/
structure MessageValid (source : String × MetaMessage) : Prop where
  id_bounded : Bounded 1 255 source.2.id
  sender_bounded : Bounded 1 255 source.2.sender
  text_bounded : AtMost 4096 (messageMetadata source.2 source.1).2.1
  text_required : TextRequired (messageMetadata source.2 source.1).1
    (messageMetadata source.2 source.1).2.1
  dated : ∃ t, ts source.2.timestamp = .ok t

structure StatusValid (source : String × MetaStatus) : Prop where
  id_bounded : Bounded 1 255 source.2.id
  phone_bounded : Bounded 1 255 source.1
  recipient_bounded : Bounded 1 255 source.2.recipientId
  code_bounded : AtMost 100 (source.2.errors.head?.map fun e => toString e.code)
  message_bounded : AtMost 500 (source.2.errors.head?.bind statusErrorMessage)
  error_shape : source.2.status = .failed ↔ source.2.errors ≠ []
  dated : ∃ t, ts source.2.timestamp = .ok t

end Events

section Parts
variable {ts : Timestamp} {waba phone : Option String}

theorem messageMetadata_phone (message : MetaMessage) (phoneNumberId : String) :
    (messageMetadata message phoneNumberId).2.2.lookup "phone_number_id" =
      some phoneNumberId := by
  have hstart : ∀ rest : List (String × String),
      (("phone_number_id", phoneNumberId) :: rest).lookup "phone_number_id" =
        some phoneNumberId := fun rest => List.lookup_cons_self
  unfold messageMetadata
  dsimp only
  split_ifs
  · cases message.text <;> exact hstart _
  · cases message.image <;> exact hstart _
  · cases message.interactive.bind fun i => (i.buttonReply.or i.listReply).map (i, ·) <;>
      exact hstart _
  · exact hstart _

theorem rewrap_ok {α : Type} {message : String} {x : Except Failure α} {a : α} :
    rewrap message x = .ok a ↔ x = .ok a := by
  cases x with
  | ok b => rfl
  | error e => cases e <;> simp [rewrap]

theorem normalizeMessage_eq (phoneNumberId : String) (message : MetaMessage) :
    normalizeMessage ts phoneNumberId message =
      (ts message.timestamp >>= fun receivedAt => rewrap "invalid normalized Meta message"
        (InboundMessage.make message.id .whatsapp message.sender message.sender
          (messageMetadata message phoneNumberId).1 (messageMetadata message phoneNumberId).2.1
          receivedAt (messageMetadata message phoneNumberId).2.2)) := by
  unfold normalizeMessage
  generalize messageMetadata message phoneNumberId = content
  rfl

theorem normalizeMessage_event {phoneNumberId : String} {message : MetaMessage}
    {event : InboundMessage} (h : normalizeMessage ts phoneNumberId message = .ok event) :
    MessageEvent ts (phoneNumberId, message) event := by
  rw [normalizeMessage_eq] at h
  have hphone := messageMetadata_phone message phoneNumberId
  obtain ⟨receivedAt, hdated, h⟩ := bind_ok h
  rw [rewrap_ok] at h
  generalize hcontent : messageMetadata message phoneNumberId = content at h hphone
  rw [InboundMessage.make] at h
  split at h
  · cases h
    exact ⟨rfl, rfl, rfl, rfl, hdated, hcontent.symm, hphone⟩
  · cases h

theorem normalizeMessage_valid_iff {phoneNumberId : String} {message : MetaMessage} :
    (∃ event, normalizeMessage ts phoneNumberId message = .ok event) ↔
      MessageValid ts (phoneNumberId, message) := by
  constructor
  · rintro ⟨event, h⟩
    have hevent := normalizeMessage_event h
    have hkind : event.kind = (messageMetadata message phoneNumberId).1 := by
      rw [← hevent.content]
    have htext : event.text = (messageMetadata message phoneNumberId).2.1 := by
      rw [← hevent.content]
    refine ⟨?_, ?_, ?_, ?_, event.receivedAt, hevent.receivedAt⟩
    · rw [← hevent.messageId]
      exact event.messageId_bounded
    · rw [← hevent.senderId]
      exact event.senderId_bounded
    · rw [← htext]
      exact event.text_bounded
    · rw [← hkind, ← htext]
      exact event.text_required
  · intro hvalid
    obtain ⟨t, ht⟩ := hvalid.dated
    simp only [normalizeMessage_eq, ht, ok_bind, rewrap_ok, InboundMessage.make]
    rw [dif_pos ⟨hvalid.id_bounded, hvalid.sender_bounded, hvalid.sender_bounded,
      hvalid.text_bounded, hvalid.text_required⟩]
    exact ⟨_, rfl⟩

theorem normalizeStatus_event {phoneNumberId : String} {status : MetaStatus}
    {event : MetaStatusUpdate} (h : normalizeStatus ts phoneNumberId status = .ok event) :
    StatusEvent ts (phoneNumberId, status) event := by
  obtain ⟨occurredAt, hdated, h⟩ := bind_ok h
  rw [rewrap_ok, MetaStatusUpdate.make] at h
  split_ifs at h
  cases h
  exact ⟨rfl, rfl, rfl, rfl, hdated, rfl, rfl⟩

/-- The contract asks for an error code exactly where the status has an error. -/
theorem error_shape_iff (status : MetaStatus) :
    (status.status.toStatus = .failed ↔ (status.errors.head?.map fun e => toString e.code) ≠ none) ↔
      (status.status = .failed ↔ status.errors ≠ []) := by
  have hstatus : status.status.toStatus = .failed ↔ status.status = .failed := by
    cases status.status <;> simp [MetaStatusName.toStatus]
  have herrors : (status.errors.head?.map fun e => toString e.code) ≠ none ↔
      status.errors ≠ [] := by
    cases status.errors <;> simp
  rw [hstatus, herrors]

theorem normalizeStatus_valid_iff {phoneNumberId : String} {status : MetaStatus} :
    (∃ event, normalizeStatus ts phoneNumberId status = .ok event) ↔
      StatusValid ts (phoneNumberId, status) := by
  constructor
  · rintro ⟨event, h⟩
    have hevent := normalizeStatus_event h
    have hshape := event.error_shape
    rw [hevent.status, hevent.errorCode] at hshape
    refine ⟨?_, ?_, ?_, ?_, ?_, (error_shape_iff status).mp hshape, event.occurredAt,
      hevent.occurredAt⟩
    · rw [← hevent.providerMessageId]
      exact event.provider_bounded
    · rw [← hevent.phoneNumberId]
      exact event.phone_bounded
    · rw [← hevent.recipientId]
      exact event.recipient_bounded
    · rw [← hevent.errorCode]
      exact event.errorCode_bounded
    · rw [← hevent.errorMessage]
      exact event.errorMessage_bounded
  · intro hvalid
    obtain ⟨t, ht⟩ := hvalid.dated
    simp only [normalizeStatus, ht, ok_bind, rewrap_ok, MetaStatusUpdate.make]
    rw [dif_pos ⟨hvalid.id_bounded, hvalid.phone_bounded, hvalid.recipient_bounded,
      hvalid.code_bounded, hvalid.message_bounded, (error_shape_iff status).mpr hvalid.error_shape⟩]
    exact ⟨_, rfl⟩

end Parts

section Loops
variable {ts : Timestamp} {waba phone : Option String}

/-- The events are those of the messages and statuses, one for each and in order. -/
structure Carries (ts : Timestamp) (messages : List (String × MetaMessage))
    (statuses : List (String × MetaStatus)) (events : MetaWebhookEvents) : Prop where
  messages : List.Forall₂ (MessageEvent ts) messages events.messages
  statuses : List.Forall₂ (StatusEvent ts) statuses events.statuses

theorem foldl_append_eq (events : List MetaWebhookEvents) (acc : MetaWebhookEvents) :
    events.foldl MetaWebhookEvents.append acc =
      ⟨acc.messages ++ events.flatMap MetaWebhookEvents.messages,
        acc.statuses ++ events.flatMap MetaWebhookEvents.statuses⟩ := by
  induction events generalizing acc with
  | nil => simp
  | cons e events ih =>
    rw [List.foldl_cons, ih]
    simp [MetaWebhookEvents.append]

/-- The accumulators keep the order of the iterations. -/
theorem carries_foldl {α : Type} {xs : List α} {messages : α → List (String × MetaMessage)}
    {statuses : α → List (String × MetaStatus)} {events : List MetaWebhookEvents}
    (h : List.Forall₂ (fun x e => Carries ts (messages x) (statuses x) e) xs events) :
    Carries ts (xs.flatMap messages) (xs.flatMap statuses)
      (events.foldl MetaWebhookEvents.append ⟨[], []⟩) := by
  rw [foldl_append_eq]
  simp only [List.nil_append]
  induction h with
  | nil => exact ⟨.nil, .nil⟩
  | cons hx _ ih =>
    simp only [List.flatMap_cons]
    exact ⟨List.rel_append hx.messages ih.messages, List.rel_append hx.statuses ih.statuses⟩

theorem normalizeChange_carries {change : MetaChange} {events : MetaWebhookEvents}
    (h : normalizeChange ts phone change = .ok events) :
    Carries ts (change.messages.map fun message => (change.phoneNumberId, message))
      (change.statuses.map fun status => (change.phoneNumberId, status)) events := by
  unfold normalizeChange at h
  split_ifs at h
  obtain ⟨messages, hmessages, h⟩ := bind_ok h
  obtain ⟨statuses, hstatuses, h⟩ := bind_ok h
  cases h
  constructor
  · rw [List.forall₂_map_left_iff]
    exact (mapM_ok.mp hmessages).imp fun _ _ => normalizeMessage_event
  · rw [List.forall₂_map_left_iff]
    exact (mapM_ok.mp hstatuses).imp fun _ _ => normalizeStatus_event

theorem normalizeEntry_carries {entry : MetaEntry} {events : MetaWebhookEvents}
    (h : normalizeEntry ts waba phone entry = .ok events) :
    Carries ts
      (entry.changes.flatMap fun change =>
        change.messages.map fun message => (change.phoneNumberId, message))
      (entry.changes.flatMap fun change =>
        change.statuses.map fun status => (change.phoneNumberId, status)) events := by
  unfold normalizeEntry at h
  split_ifs at h
  obtain ⟨changes, hchanges, h⟩ := bind_ok h
  cases h
  exact carries_foldl ((mapM_ok.mp hchanges).imp fun _ _ => normalizeChange_carries)

theorem normalizeWebhook_carries {payload : MetaWebhookPayload} {events : MetaWebhookEvents}
    (h : normalizeWebhook ts waba phone payload = .ok events) :
    Carries ts (messagesOf payload) (statusesOf payload) events := by
  obtain ⟨entries, hentries, h⟩ := bind_ok h
  cases h
  exact carries_foldl ((mapM_ok.mp hentries).imp fun _ _ => normalizeEntry_carries)

end Loops

section Acceptance
variable {ts : Timestamp} {waba phone : Option String}

/-- Every entry and every change is that of the configured asset, where one is configured. -/
structure BoundTo (waba phone : Option String) (payload : MetaWebhookPayload) : Prop where
  entries : ∀ expected ∈ waba, ∀ entry ∈ payload, entry.id = expected
  changes : ∀ expected ∈ phone, ∀ entry ∈ payload, ∀ change ∈ entry.changes,
    change.phoneNumberId = expected

theorem checkAll_ok_iff {ps : List Part} :
    checkAll ts waba phone ps = .ok () ↔ ∀ p ∈ ps, check ts waba phone p = .ok () := by
  induction ps with
  | nil => simp [checkAll]
  | cons p ps ih =>
    rw [List.forall_mem_cons, ← ih, checkAll]
    cases check ts waba phone p with
    | error e => simp [error_bind]
    | ok u => simp [ok_bind]

theorem verdict_ok_iff {α : Type} {x : Except Failure α} :
    verdict x = .ok () ↔ ∃ a, x = .ok a := by
  cases x with
  | error e => simp [verdict, Except.map]
  | ok a => simp [verdict, Except.map]

theorem expected_ok_iff {expected : Option String} {id message : String} :
    (if expected.any (· ≠ id) then .error (.webhook message) else .ok () : Except Failure Unit) =
      .ok () ↔ ∀ e ∈ expected, id = e := by
  cases expected with
  | none => simp
  | some e =>
    by_cases h : e = id
    · simp [h]
    · have hne : ¬ id = e := fun heq => h heq.symm
      simp [h, hne]

theorem forall_parts_iff {P : Part → Prop} {payload : MetaWebhookPayload} :
    (∀ p ∈ parts payload, P p) ↔
      (∀ entry ∈ payload, P (.entry entry.id)) ∧
      (∀ entry ∈ payload, ∀ change ∈ entry.changes, P (.change change.phoneNumberId)) ∧
      (∀ source ∈ messagesOf payload, P (.message source.1 source.2)) ∧
      ∀ source ∈ statusesOf payload, P (.status source.1 source.2) := by
  have hchange : ∀ change : MetaChange, (∀ p ∈ changeParts change, P p) ↔
      P (.change change.phoneNumberId) ∧
      (∀ message ∈ change.messages, P (.message change.phoneNumberId message)) ∧
      ∀ status ∈ change.statuses, P (.status change.phoneNumberId status) := by
    intro change
    simp only [changeParts, List.forall_mem_cons, List.forall_mem_append, List.forall_mem_map]
  simp only [parts, entryParts, messagesOf, statusesOf, List.forall_mem_flatMap,
    List.forall_mem_cons, List.forall_mem_map, hchange]
  grind

theorem normalizeWebhook_returns_iff {payload : MetaWebhookPayload} :
    (∃ events, normalizeWebhook ts waba phone payload = .ok events) ↔
      BoundTo waba phone payload ∧ (∀ source ∈ messagesOf payload, MessageValid ts source) ∧
        ∀ source ∈ statusesOf payload, StatusValid ts source := by
  rw [← verdict_ok_iff, normalizeWebhook_verdict, checkAll_ok_iff, forall_parts_iff]
  simp only [check, expected_ok_iff, verdict_ok_iff, normalizeMessage_valid_iff,
    normalizeStatus_valid_iff]
  constructor
  · rintro ⟨hentries, hchanges, hmessages, hstatuses⟩
    exact ⟨⟨fun e he entry h => hentries entry h e he,
      fun e he entry h change hc => hchanges entry h change hc e he⟩, hmessages, hstatuses⟩
  · rintro ⟨hbound, hmessages, hstatuses⟩
    exact ⟨fun entry h e he => hbound.entries e he entry h,
      fun entry h change hc e he => hbound.changes e he entry h change hc, hmessages, hstatuses⟩

end Acceptance

/-- Events are returned exactly for a payload of the configured asset whose parts are all
valid. They are then one for each message and status, in the order of the payload, each
with its own fields and the phone number of its change. -/
theorem normalizeObject_faithful (digits : Digits) (laxInt : LaxInt)
    (waba phone : Option String) (j : Json) :
    (∀ events, normalizeObject digits laxInt waba phone j = .ok events →
      ∃ payload, modelValidate laxInt j = some payload ∧ BoundTo waba phone payload ∧
        Carries (timestamp digits) (messagesOf payload) (statusesOf payload) events ∧
        (∀ update ∈ events.statuses, update.errorCode ≠ none ↔ update.status = .failed) ∧
        ∀ message ∈ events.messages, message.kind = .text →
          ∃ text ∈ message.text, Text.strip text.toList ≠ []) ∧
    ((∃ events, normalizeObject digits laxInt waba phone j = .ok events) ↔
      ∃ payload, modelValidate laxInt j = some payload ∧ BoundTo waba phone payload ∧
        (∀ source ∈ messagesOf payload, MessageValid (timestamp digits) source) ∧
        ∀ source ∈ statusesOf payload, StatusValid (timestamp digits) source) := by
  unfold normalizeObject
  cases modelValidate laxInt j with
  | none => simp
  | some payload =>
    simp only [Option.some.injEq, exists_eq_left']
    constructor
    · intro events h
      have hbound := (normalizeWebhook_returns_iff.mp ⟨events, h⟩).1
      refine ⟨hbound, normalizeWebhook_carries h, ?_, ?_⟩
      · intro update _
        exact update.error_shape.symm
      · intro message _
        exact message.text_required
    · exact normalizeWebhook_returns_iff

end Piki.Webhook
