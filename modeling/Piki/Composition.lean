import Piki.Grounding
import Piki.Prompts

/-! `composition/contracts.py`, `service.py` and `engine.py`: one response from one
packet. The language model is a function from the request it is given. -/
namespace Piki
open Text

inductive Role
  | user
  | assistant
  deriving DecidableEq, Repr

structure ConversationTurn where
  role : Role
  text : String
  text_bounded : Bounded 1 4096 text
  deriving Repr

def ConversationTurn.make (role : Role) (text : String) : Except Failure ConversationTurn :=
  if h : Bounded 1 4096 text then .ok ⟨role, text, h⟩ else .error (.validation "ConversationTurn")

structure CompositionRequest where
  systemPrompt : String
  evidencePrompt : String
  conversation : List ConversationTurn
  traceId : String
  systemPrompt_bounded : Bounded 1 12000 systemPrompt
  evidencePrompt_bounded : Bounded 1 30000 evidencePrompt
  conversation_bounded : conversation.length ≤ 20
  traceId_bounded : Bounded 1 128 traceId
  deriving Repr

def CompositionRequest.make (systemPrompt evidencePrompt : String)
    (conversation : List ConversationTurn) (traceId : String) :
    Except Failure CompositionRequest :=
  if h : Bounded 1 12000 systemPrompt ∧ Bounded 1 30000 evidencePrompt ∧
      conversation.length ≤ 20 ∧ Bounded 1 128 traceId then
    .ok ⟨systemPrompt, evidencePrompt, conversation, traceId, h.1, h.2.1, h.2.2.1, h.2.2.2⟩
  else .error (.validation "CompositionRequest")

structure CompositionResult where
  text : String
  providerResponseId : String
  model : String
  traceId : String
  text_bounded : Bounded 1 4096 text
  providerResponseId_bounded : Bounded 1 255 providerResponseId
  model_bounded : Bounded 1 255 model
  traceId_bounded : Bounded 1 128 traceId
  deriving Repr

inductive LLMErrorCode
  | badRequest
  | unauthorized
  | rateLimited
  | timeout
  | unavailable
  | refused
  | invalidResponse
  deriving DecidableEq, Repr

/-- What the adapter may do with a request: a result or its typed error. -/
abbrev LLMAdapter := CompositionRequest → Except LLMErrorCode CompositionResult

/-- A lifecycle record is validated whenever an event is emitted. -/
def emit (traceId component : String) : Except Failure Unit :=
  if Bounded 1 128 traceId ∧ Bounded 1 100 component then .ok ()
  else .error (.validation "LifecycleRecord")

structure ResponseOutcome where
  text : String
  mode : ResponseMode
  usedFallback : Bool
  groundingFailures : List GroundingFailure
  providerResponseId : Option String
  traceId : String
  text_bounded : Bounded 1 4096 text
  providerResponseId_bounded : AtMost 255 providerResponseId
  traceId_bounded : Bounded 1 128 traceId
  deriving Repr

def ResponseOutcome.make (text : String) (mode : ResponseMode) (usedFallback : Bool)
    (groundingFailures : List GroundingFailure) (providerResponseId : Option String)
    (traceId : String) : Except Failure ResponseOutcome :=
  if h : Bounded 1 4096 text ∧ AtMost 255 providerResponseId ∧ Bounded 1 128 traceId then
    .ok ⟨text, mode, usedFallback, groundingFailures, providerResponseId, traceId, h.1, h.2.1, h.2.2⟩
  else .error (.validation "ResponseOutcome")

namespace ResponseComposer

/-- The request that `compose` hands to the adapter. -/
def request (packet : ContextPacket) (conversation : List ConversationTurn) :
    Except Failure CompositionRequest :=
  if packet.responseMode ≠ .jinjaLlm ∧ packet.responseMode ≠ .nonCommercialLlm then
    .error (.value "response mode does not permit LLM composition")
  else do
    emit packet.traceId "jinja"
    CompositionRequest.make PromptAssets.systemPrompt (PromptAssets.renderEvidence packet)
      conversation packet.traceId

end ResponseComposer

namespace ResponseEngine

/-- What one call of the engine did: the request the adapter received, if any, and
what the call returned or raised. -/
structure Call where
  request : Option CompositionRequest
  outcome : Except Failure ResponseOutcome

section
variable (u : Unicode)

/-- `_fallback`. -/
def fallback (packet : ContextPacket) (failures : List GroundingFailure) :
    Except Failure ResponseOutcome :=
  ResponseOutcome.make (Grounding.factualFallback u packet) packet.responseMode true failures none
    packet.traceId

/-- A candidate text is returned as validated, or replaced. -/
def grounded (packet : ContextPacket) (text : String) (providerResponseId : Option String) :
    Except Failure ResponseOutcome := do
  let validation := Grounding.validate u text packet
  emit packet.traceId "grounding"
  match validation.safe, validation.text with
  | true, some validated =>
    ResponseOutcome.make validated packet.responseMode false [] providerResponseId packet.traceId
  | _, _ => fallback u packet validation.failures

def respond (adapter : LLMAdapter) (packet : ContextPacket) (conversation : List ConversationTurn)
    (deterministicText : Option String) : Call :=
  match emit packet.traceId "context_packet" with
  | .error e => ⟨none, .error e⟩
  | .ok () =>
    match packet.responseMode with
    | .jinja => ⟨none, fallback u packet []⟩
    | .deterministic =>
      match deterministicText with
      | none => ⟨none, .error (.value "deterministic response mode requires text")⟩
      | some text => ⟨none, grounded u packet text none⟩
    | .jinjaLlm | .nonCommercialLlm =>
      match emit packet.traceId "llm" with
      | .error e => ⟨none, .error e⟩
      | .ok () =>
        match ResponseComposer.request packet conversation with
        | .error e => ⟨none, .error e⟩
        | .ok request =>
          match adapter request with
          | .error _ => ⟨some request, emit packet.traceId "llm" >>= fun _ => fallback u packet []⟩
          | .ok composed => ⟨some request, emit packet.traceId "llm" >>= fun _ =>
              grounded u packet composed.text (some composed.providerResponseId)⟩

end

section
variable {u : Unicode}

theorem emit_packet (packet : ContextPacket) (component : String)
    (h : Bounded 1 100 component) : emit packet.traceId component = .ok () := by
  simp [emit, packet.traceId_bounded, h]

theorem fallback_ok (packet : ContextPacket) (failures : List GroundingFailure) :
    ∃ out, fallback u packet failures = .ok out ∧
      out.text = Grounding.factualFallback u packet ∧ out.usedFallback = true := by
  have hb : Bounded 1 4096 (Grounding.factualFallback u packet) ∧ AtMost 255 none ∧
      Bounded 1 128 packet.traceId :=
    ⟨Grounding.factualFallback_bounded packet, by simp [AtMost], packet.traceId_bounded⟩
  rw [fallback, ResponseOutcome.make, dif_pos hb]
  exact ⟨_, rfl, rfl, rfl⟩

/-- A grounded response is the stripped text when it is safe, and the factual text
of the packet otherwise. -/
theorem grounded_text {packet : ContextPacket} {text : String} {pid : Option String}
    {out : ResponseOutcome} (h : grounded u packet text pid = .ok out) :
    ((Grounding.validate u text packet).safe = true ∧
        out.text = String.ofList (strip text.toList) ∧ out.usedFallback = false) ∨
      ((Grounding.validate u text packet).safe = false ∧
        out.text = Grounding.factualFallback u packet ∧ out.usedFallback = true) := by
  unfold grounded at h
  rw [emit_packet packet "grounding" (by decide), ok_bind] at h
  rcases Grounding.validate_cases u text packet with ⟨hsafe, -, ht⟩ | ⟨hsafe, ht⟩
  · simp only [hsafe, ht, ResponseOutcome.make] at h
    split_ifs at h
    cases h
    exact .inl ⟨hsafe, rfl, rfl⟩
  · simp only [hsafe, ht] at h
    obtain ⟨out', hout, hot, hof⟩ := fallback_ok (u := u) packet
      (Grounding.validate u text packet).failures
    rw [hout] at h
    cases h
    exact .inr ⟨hsafe, hot, hof⟩

/-- Grounding a text that a model may return never raises. -/
theorem grounded_returns {packet : ContextPacket} {text : String} (htext : text.length ≤ 4096)
    {pid : Option String} (hpid : AtMost 255 pid) : ∃ out, grounded u packet text pid = .ok out := by
  unfold grounded
  rw [emit_packet packet "grounding" (by decide), ok_bind]
  rcases Grounding.validate_cases u text packet with ⟨hsafe, hne, ht⟩ | ⟨hsafe, ht⟩
  · have hb : Bounded 1 4096 (String.ofList (strip text.toList)) ∧ AtMost 255 pid ∧
        Bounded 1 128 packet.traceId :=
      ⟨Grounding.strip_bounded hne htext, hpid, packet.traceId_bounded⟩
    simp only [hsafe, ht]
    rw [ResponseOutcome.make, dif_pos hb]
    exact ⟨_, rfl⟩
  · obtain ⟨out, hout, -⟩ := fallback_ok (u := u) packet (Grounding.validate u text packet).failures
    simp only [hsafe, ht]
    exact ⟨out, hout⟩

theorem grounded_provenance {packet : ContextPacket} {text : String} {pid : Option String}
    {out : ResponseOutcome} (h : grounded u packet text pid = .ok out) :
    (Grounding.validate u out.text packet).safe = true ∨
      out.text = Grounding.factualFallback u packet := by
  rcases grounded_text h with ⟨hsafe, ht, -⟩ | ⟨-, ht, -⟩
  · left
    rw [ht, Grounding.validate_strip]
    exact hsafe
  · exact .inr ht

/-- A deterministic response uses no model and never raises. -/
theorem respond_deterministic {adapter : LLMAdapter} {packet : ContextPacket}
    (hmode : packet.responseMode = .deterministic) (conversation : List ConversationTurn)
    (text : String) :
    respond u adapter packet conversation (some text) = ⟨none, grounded u packet text none⟩ := by
  simp [respond, emit_packet packet "context_packet" (by decide), hmode]

/-- A response by a model: the request may be refused, and then nothing is asked. -/
theorem respond_llm {adapter : LLMAdapter} {packet : ContextPacket}
    (hmode : packet.responseMode = .jinjaLlm ∨ packet.responseMode = .nonCommercialLlm)
    (conversation : List ConversationTurn) (deterministicText : Option String) :
    respond u adapter packet conversation deterministicText =
      match CompositionRequest.make PromptAssets.systemPrompt (PromptAssets.renderEvidence packet)
        conversation packet.traceId with
      | .error e => ⟨none, .error e⟩
      | .ok request =>
        match adapter request with
        | .error _ => ⟨some request, fallback u packet []⟩
        | .ok composed => ⟨some request,
            grounded u packet composed.text (some composed.providerResponseId)⟩ := by
  have hc := emit_packet packet "context_packet" (by decide)
  have hl := emit_packet packet "llm" (by decide)
  have hj := emit_packet packet "jinja" (by decide)
  have hr : ResponseComposer.request packet conversation =
      CompositionRequest.make PromptAssets.systemPrompt (PromptAssets.renderEvidence packet)
        conversation packet.traceId := by
    unfold ResponseComposer.request
    rw [if_neg (by rcases hmode with h | h <;> simp [h]), hj, ok_bind]
  rcases hmode with h | h
  · simp only [respond, hc, hl, h, hr, ok_bind]
  · simp only [respond, hc, hl, h, hr, ok_bind]

/-- Where the text of a response comes from, in every mode. -/
theorem respond_provenance {adapter : LLMAdapter} {packet : ContextPacket}
    {conversation : List ConversationTurn} {deterministicText : Option String}
    {out : ResponseOutcome}
    (h : (respond u adapter packet conversation deterministicText).outcome = .ok out) :
    (Grounding.validate u out.text packet).safe = true ∨
      out.text = Grounding.factualFallback u packet := by
  have hfall : ∀ fs, fallback u packet fs = .ok out →
      out.text = Grounding.factualFallback u packet := by
    intro fs hf
    obtain ⟨out', hout, ht, -⟩ := fallback_ok (u := u) packet fs
    rw [hout] at hf
    cases hf
    exact ht
  cases hmode : packet.responseMode with
  | jinja =>
    simp only [respond, emit_packet packet "context_packet" (by decide), hmode] at h
    exact .inr (hfall [] h)
  | deterministic =>
    cases deterministicText with
    | none => simp [respond, emit_packet packet "context_packet" (by decide), hmode] at h
    | some text =>
      rw [respond_deterministic hmode] at h
      exact grounded_provenance h
  | jinjaLlm | nonCommercialLlm =>
    rw [respond_llm (by simp [hmode])] at h
    cases hr : CompositionRequest.make PromptAssets.systemPrompt
        (PromptAssets.renderEvidence packet) conversation packet.traceId with
    | error e => simp [hr] at h
    | ok request =>
      cases ha : adapter request with
      | error e =>
        simp only [hr, ha] at h
        exact .inr (hfall [] h)
      | ok composed =>
        simp only [hr, ha] at h
        exact grounded_provenance h

/-- A text of the model that the validator blocks is replaced as a whole. -/
theorem respond_blocked {adapter : LLMAdapter} {packet : ContextPacket}
    {conversation : List ConversationTurn} {deterministicText : Option String}
    {request : CompositionRequest} {composed : CompositionResult} {out : ResponseOutcome}
    (hr : (respond u adapter packet conversation deterministicText).request = some request)
    (hc : adapter request = .ok composed)
    (hb : (Grounding.validate u composed.text packet).safe = false)
    (h : (respond u adapter packet conversation deterministicText).outcome = .ok out) :
    out.text = Grounding.factualFallback u packet ∧ out.usedFallback = true := by
  cases hmode : packet.responseMode with
  | jinja => simp [respond, emit_packet packet "context_packet" (by decide), hmode] at hr
  | deterministic =>
    cases deterministicText with
    | none => simp [respond, emit_packet packet "context_packet" (by decide), hmode] at hr
    | some text =>
      rw [respond_deterministic hmode] at hr
      cases hr
  | jinjaLlm | nonCommercialLlm =>
    rw [respond_llm (by simp [hmode])] at h hr
    cases hm : CompositionRequest.make PromptAssets.systemPrompt
        (PromptAssets.renderEvidence packet) conversation packet.traceId with
    | error e => simp [hm] at h
    | ok request' =>
      cases ha : adapter request' with
      | error e =>
        simp only [hm, ha, Option.some.injEq] at hr
        rw [hr, hc] at ha
        cases ha
      | ok composed' =>
        simp only [hm, ha, Option.some.injEq] at hr h
        rw [hr, hc] at ha
        cases ha
        rcases grounded_text h with ⟨hsafe, -, -⟩ | ⟨-, ht, hf⟩
        · rw [hsafe] at hb
          cases hb
        · exact ⟨ht, hf⟩

end
end ResponseEngine
end Piki
