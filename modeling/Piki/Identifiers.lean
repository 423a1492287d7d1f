import Piki.Worker

/-! The identifiers that the pipeline derives from the id of a message, and the bounds
of the contracts and columns that take them. -/
namespace Piki.Identifiers
open ConversationRepository ConversationOrchestrator Worker

/-- The trace id of `DefaultMetaWebhookIngress.ingest`. -/
def metaTrace (messageId : String) : String := "meta:" ++ messageId

def handoffKey (messageId : String) : String := "handoff:" ++ messageId

/-- Every derived identifier meets the bound of the field or column that takes it. -/
structure Fits (message : InboundMessage) : Prop where
  conversation_trace : Bounded 1 128 (traceOf message.messageId)
  meta_trace : Bounded 1 128 (metaTrace message.messageId)
  reply_id : Bounded 1 255 (replyId message.messageId)
  delivery_key : Bounded 1 255 (replyKey message.messageId)
  handoff_key : Bounded 1 255 (handoffKey message.messageId)

/-- No stage refuses the message when everything but these identifiers fits and the
generated ids are new. -/
structure Accepted (message : InboundMessage) : Prop where
  /-- `record_inbound` of the webhook. -/
  ingested : ∀ (db : ConversationTables) (draw : Draw) (account : String),
    account.length ≤ 255 → (∀ c ∈ db.conversations, c.id ≠ draw.conversationUuid) →
    (∀ m ∈ db.messages, m.id ≠ draw.messageUuid) →
    ∃ r, recordInbound db draw account message (metaTrace message.messageId) true = .ok r
  /-- `record_inbound` of `respond`. -/
  recorded : ∀ (db : ConversationTables) (draw : Draw) (account : String),
    account.length ≤ 255 → (∀ c ∈ db.conversations, c.id ≠ draw.conversationUuid) →
    (∀ m ∈ db.messages, m.id ≠ draw.messageUuid) →
    ∃ r, recordInbound db draw account message (traceOf message.messageId) false = .ok r
  /-- Every lifecycle record of a call. -/
  observed : ∀ component, Bounded 1 100 component →
    emit (traceOf message.messageId) component = .ok ()
  context : ∀ task query confirmed unavailable actions rules mode activePickId,
    Bounded 1 500 task → Bounded 1 4096 query → AtMost 255 activePickId →
    ∃ packet, ContextPacket.make task query confirmed unavailable actions rules mode activePickId
      (traceOf message.messageId) = .ok packet
  handoff : ∀ conversationId reason, Bounded 1 500 reason →
    ∃ request, HandoffRequest.make conversationId (handoffKey message.messageId) reason
      (traceOf message.messageId) = .ok request
  /-- `record_outbound` of `respond` and `respond_persisted`. -/
  replied : ∀ (db : ConversationTables) (id conversationId : Uuid) (now : Time) (text : String),
    (∀ m ∈ db.messages, m.id ≠ id) → (∃ c ∈ db.conversations, c.id = conversationId) →
    ∃ r, recordOutbound db id now conversationId text (traceOf message.messageId)
      (replyId message.messageId) = .ok r
  delivered : ∀ content window, DeliveryContent.Valid content →
    ∃ request, DeliveryRequest.make (replyKey message.messageId) message.conversationId content
      window (traceOf message.messageId) = .ok request

theorem bounded_append {label s : String} {hi : ℕ} (hs : 1 ≤ s.length) :
    Bounded 1 hi (label ++ s) ↔ label.length + s.length ≤ hi := by
  simp only [Bounded, String.length_append]
  omega

/-- The trace of a conversation has the least room. -/
theorem fits_iff (message : InboundMessage) : Fits message ↔ message.messageId.length ≤ 115 := by
  have hpos := message.messageId_bounded.1
  have htrace : Bounded 1 128 (traceOf message.messageId) ↔
      "conversation:".length + message.messageId.length ≤ 128 := bounded_append hpos
  have hlabel : "conversation:".length = 13 := by decide
  constructor
  · rintro ⟨h, -⟩
    have := htrace.mp h
    omega
  · intro h
    refine ⟨htrace.mpr (by omega), ?_, ?_, ?_, ?_⟩
    · exact (bounded_append hpos).mpr (by rw [show "meta:".length = 5 by decide]; omega)
    · exact (bounded_append hpos).mpr (by rw [show "piki-reply:".length = 11 by decide]; omega)
    · exact (bounded_append hpos).mpr (by rw [show "reply:".length = 6 by decide]; omega)
    · exact (bounded_append hpos).mpr (by rw [show "handoff:".length = 8 by decide]; omega)

/-- Identifiers that fit are taken by every stage. -/
theorem Fits.accepted {message : InboundMessage} (h : Fits message) : Accepted message where
  ingested db draw account haccount hconv hmessage :=
    recordInbound_returns message true haccount h.meta_trace.2 hconv hmessage
  recorded db draw account haccount hconv hmessage :=
    recordInbound_returns message false haccount h.conversation_trace.2 hconv hmessage
  observed component hcomponent := by
    rw [emit, if_pos ⟨h.conversation_trace, hcomponent⟩]
  context task query confirmed unavailable actions rules mode activePickId htask hquery hactive := by
    rw [ContextPacket.make, dif_pos ⟨htask, hquery, hactive, h.conversation_trace⟩]
    exact ⟨_, rfl⟩
  handoff conversationId reason hreason := by
    rw [HandoffRequest.make, dif_pos ⟨h.handoff_key, hreason, h.conversation_trace⟩]
    exact ⟨_, rfl⟩
  replied db id conversationId now text hid hconv :=
    recordOutbound_returns h.reply_id.2 h.conversation_trace.2 hid hconv
  delivered content window hcontent := by
    rw [DeliveryRequest.make, dif_pos ⟨h.delivery_key, message.conversationId_bounded,
      h.conversation_trace, hcontent⟩]
    exact ⟨_, rfl⟩

/-- Every derived identifier fits, and no stage refuses the message for its length, if
and only if the id has at most 115 characters. -/
theorem identifiers_fit_iff (message : InboundMessage) :
    (Fits message ∧ Accepted message) ↔ message.messageId.length ≤ 115 := by
  rw [← fits_iff]
  exact ⟨fun h => h.1, fun h => ⟨h, h.accepted⟩⟩

set_option maxRecDepth 10000 in
/-- A text message whose id has 116 characters. -/
def longIdMessage : InboundMessage :=
  accepted (InboundMessage.make (String.ofList (List.replicate 116 'a')) .whatsapp "549" "549"
    .text (some "hola") 0 [("phone_number_id", "phone")]) (by decide +kernel)

set_option maxRecDepth 10000 in
/-- The webhook stores the message, but no call can observe that it was received. -/
theorem long_id_refused :
    (Ingress.recordMessages (fun i => ⟨i, i, 0, 0⟩) .empty [longIdMessage]).toBool = true ∧
      emit (traceOf longIdMessage.messageId) "conversation_worker" =
        .error (.validation "LifecycleRecord") ∧
      ¬ (Fits longIdMessage ∧ Accepted longIdMessage) := by
  have hemit : emit (traceOf longIdMessage.messageId) "conversation_worker" =
      .error (.validation "LifecycleRecord") := by decide
  refine ⟨by decide, hemit, ?_⟩
  rintro ⟨-, haccepted⟩
  have hok := haccepted.observed "conversation_worker" (by decide)
  exact absurd (hemit.symm.trans hok) (by simp)

end Piki.Identifiers
