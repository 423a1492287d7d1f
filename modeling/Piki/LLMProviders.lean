import Piki.Answers
import Piki.Retrying

/-! `integrations/llm/openai_chat.py` and `openai_responses.py`, and the engine over
them. `ResponseEngine.respond` catches the errors that an adapter raises itself; what
the contracts refuse passes through it. -/
namespace Piki
open Text

structure LLMAdapterError where
  code : LLMErrorCode
  userSafeMessage : String
  statusCode : Option ℕ := none
  deriving DecidableEq, Repr

/-- How a call of `compose` fails: with the error of the adapter, or another one. -/
inductive ComposeError
  | adapter (error : LLMAdapterError)
  | raised (failure : Failure)
  deriving DecidableEq, Repr

def CompositionResult.make (text providerResponseId model traceId : String) :
    Except Failure CompositionResult :=
  if h : Bounded 1 4096 text ∧ Bounded 1 255 providerResponseId ∧ Bounded 1 255 model ∧
      Bounded 1 128 traceId then
    .ok ⟨text, providerResponseId, model, traceId, h.1, h.2.1, h.2.2.1, h.2.2.2⟩
  else .error (.validation "CompositionResult")

namespace LLMProvider

/-- The body of a response: nested so deeply that decoding it raises `RecursionError`, no
JSON of the envelope, or an envelope. -/
inductive Body (ε : Type)
  | tooDeep
  | invalid
  | envelope (e : ε)
  deriving DecidableEq, Repr

inductive Reply (ε : Type)
  | timeout
  | requestError
  | response (statusCode : ℕ) (body : Body ε)
  deriving DecidableEq, Repr

/-- `_model`, `_max_attempts` and `_max_output_tokens`; the constructor refuses
`max_attempts < 1`. -/
structure Settings where
  model : String
  maxAttempts : ℕ
  maxOutputTokens : ℕ
  positive : 0 < maxAttempts

def roleName : Role → String
  | .user => "user"
  | .assistant => "assistant"

def evidenceMessage (request : CompositionRequest) : String :=
  "Redactá la respuesta final usando exclusivamente este paquete de evidencia:\n\n" ++
    request.evidencePrompt

/-- The JSON of the POST, less its constants. -/
inductive PostBody
  | chat (model : String) (messages : List (String × String)) (maxTokens : ℕ)
  | responses (model instructions : String) (input : List (String × String)) (maxOutputTokens : ℕ)
  deriving DecidableEq, Repr

/-- What `_parse_response` puts into a `CompositionResult`. -/
structure Reading where
  text : String
  responseId : String
  model : String
  deriving DecidableEq, Repr

/-- The posts of a call, and how it ended. -/
structure Exchange where
  posts : List PostBody
  result : Except ComposeError CompositionResult

def invalidResponse (message : String) : LLMAdapterError := ⟨.invalidResponse, message, none⟩

def httpError (code : LLMErrorCode) (statusCode : ℕ) : LLMAdapterError :=
  ⟨code, "No pude redactar la respuesta en este momento.", some statusCode⟩

section
variable {ε : Type}

def retryable : Reply ε → Bool
  | .timeout => true
  | .requestError => false
  | .response statusCode _ => decide (statusCode ∈ [429, 500, 502, 503])

/-- How the loop of `compose` ends on a reply that is not retried. -/
def settle (mapHttpError : ℕ → LLMAdapterError) (read : ε → Except LLMAdapterError Reading)
    (traceId : String) : Reply ε → Except ComposeError CompositionResult
  | .timeout => .error (.adapter ⟨.timeout, "No pude redactar la respuesta a tiempo.", none⟩)
  | .requestError =>
    .error (.adapter ⟨.unavailable, "No pude acceder al redactor en este momento.", none⟩)
  | .response statusCode body =>
    if 400 ≤ statusCode ∧ statusCode ≤ 599 then .error (.adapter (mapHttpError statusCode))
    else match body with
      | .tooDeep => .error (.raised (.runtime "maximum recursion depth exceeded"))
      | .invalid =>
        .error (.adapter (invalidResponse "El redactor devolvió una respuesta inválida."))
      | .envelope e =>
        match read e with
        | .error error => .error (.adapter error)
        | .ok r => (CompositionResult.make r.text r.responseId r.model traceId).mapError .raised

/-- The loop of `compose`: attempt `i` gets `replies i`. -/
def exchange (settings : Settings) (mapHttpError : ℕ → LLMAdapterError)
    (read : ε → Except LLMAdapterError Reading) (replies : ℕ → Reply ε) (post : PostBody)
    (traceId : String) : Exchange :=
  let run := Retrying.loop retryable replies 1 settings.maxAttempts
  ⟨List.replicate run.1 post, match run.2 with
    | some reply => settle mapHttpError read traceId reply
    | none => .error (.raised (.runtime "LLM request loop exhausted unexpectedly"))⟩

end
end LLMProvider

namespace OpenAIChatCompletionsAdapter
open LLMProvider

/-- `choices` has the content of each message. -/
structure ChatCompletionEnvelope where
  id : String
  model : String
  choices : List (Option String)
  deriving DecidableEq, Repr

/-- `_append_message`: a message of the same role as the last one is joined to it. -/
def appendMessage (messages : List (String × String)) (role content : String) :
    List (String × String) :=
  match messages.getLast? with
  | some (last, text) =>
    if last = role then messages.dropLast ++ [(last, text ++ "\n\n" ++ content)]
    else messages ++ [(role, content)]
  | none => messages ++ [(role, content)]

def messages (request : CompositionRequest) : List (String × String) :=
  appendMessage (request.conversation.foldl
    (fun ms turn => appendMessage ms (roleName turn.role) turn.text)
    [("system", request.systemPrompt)]) "user" (evidenceMessage request)

/-- `_parse_response` of an envelope. -/
def read (e : ChatCompletionEnvelope) : Except LLMAdapterError Reading :=
  match e.choices with
  | [] => .error (invalidResponse "El redactor devolvió una respuesta inválida.")
  | content :: _ =>
    let text := strip (content.getD "").toList
    if text = [] then .error (invalidResponse "El redactor no devolvió texto utilizable.")
    else .ok ⟨String.ofList text, e.id, e.model⟩

def mapHttpError (statusCode : ℕ) : LLMAdapterError :=
  httpError (if statusCode = 400 then .badRequest
    else if statusCode = 401 ∨ statusCode = 403 then .unauthorized
    else if statusCode = 429 then .rateLimited else .unavailable) statusCode

def compose (settings : Settings) (replies : ℕ → Reply ChatCompletionEnvelope)
    (request : CompositionRequest) : Exchange :=
  exchange settings mapHttpError read replies
    (.chat settings.model (messages request) settings.maxOutputTokens) request.traceId

end OpenAIChatCompletionsAdapter

namespace OpenAIResponsesAdapter
open LLMProvider

inductive OutputContentType
  | outputText
  | refusal
  deriving DecidableEq, Repr

structure OutputContent where
  type : OutputContentType
  text : Option String
  deriving DecidableEq, Repr

structure OutputItem where
  type : String
  content : List OutputContent
  deriving DecidableEq, Repr

structure ResponsesEnvelope where
  id : String
  model : String
  status : String
  output : List OutputItem
  deriving DecidableEq, Repr

def input (request : CompositionRequest) : List (String × String) :=
  request.conversation.map (fun turn => (roleName turn.role, turn.text)) ++
    [("user", evidenceMessage request)]

/-- The contents of the items of type `message`. -/
def contents (e : ResponsesEnvelope) : List OutputContent :=
  (e.output.filter fun item => decide (item.type = "message")).flatMap OutputItem.content

/-- The stripped texts, blank ones included. -/
def textParts (e : ResponsesEnvelope) : List (List Char) :=
  (contents e).filterMap fun c =>
    if c.type = .outputText ∧ truthy c.text then some (strip (c.text.getD "").toList) else none

/-- `_parse_response` of an envelope. -/
def read (e : ResponsesEnvelope) : Except LLMAdapterError Reading :=
  if e.status ≠ "completed" then
    .error (invalidResponse "El redactor no completó la respuesta.")
  else if (contents e).any fun c => decide (c.type = .refusal) then
    .error ⟨.refused, "No pude redactar esa respuesta.", none⟩
  else
    let text := strip (['\n'].intercalate ((textParts e).filter (· ≠ [])))
    if text = [] then .error (invalidResponse "El redactor no devolvió texto utilizable.")
    else .ok ⟨String.ofList text, e.id, e.model⟩

def mapHttpError (statusCode : ℕ) : LLMAdapterError :=
  httpError (if statusCode = 400 then .badRequest else if statusCode = 401 then .unauthorized
    else if statusCode = 429 then .rateLimited else .unavailable) statusCode

def compose (settings : Settings) (replies : ℕ → Reply ResponsesEnvelope)
    (request : CompositionRequest) : Exchange :=
  exchange settings mapHttpError read replies
    (.responses settings.model request.systemPrompt (input request) settings.maxOutputTokens)
    request.traceId

end OpenAIResponsesAdapter

namespace LLMProvider
open PromptAssets

/-- The adapter in use, with what its provider replies to each attempt. -/
inductive Provider
  | chat (settings : Settings)
      (replies : ℕ → Reply OpenAIChatCompletionsAdapter.ChatCompletionEnvelope)
  | responses (settings : Settings)
      (replies : ℕ → Reply OpenAIResponsesAdapter.ResponsesEnvelope)

def Provider.compose : Provider → CompositionRequest → Except ComposeError CompositionResult
  | .chat settings replies, request =>
    (OpenAIChatCompletionsAdapter.compose settings replies request).result
  | .responses settings replies, request =>
    (OpenAIResponsesAdapter.compose settings replies request).result

/-- What `respond` sees of a call: every error that it catches has a code. -/
def Provider.adapter (provider : Provider) : LLMAdapter := fun request =>
  match provider.compose request with
  | .ok result => .ok result
  | .error (.adapter error) => .error error.code
  | .error (.raised _) => .error .unavailable

/-- `ResponseEngine.respond` over an adapter: an error that is not its own ends the call. -/
def respond (u : Unicode) (provider : Provider) (packet : ContextPacket)
    (conversation : List ConversationTurn) (deterministicText : Option String) :
    Except Failure ResponseOutcome :=
  let call := ResponseEngine.respond u provider.adapter packet conversation deterministicText
  match call.request with
  | none => call.outcome
  | some request =>
    match provider.compose request with
    | .error (.raised failure) => .error failure
    | _ => call.outcome

/-- The bounds of `CompositionResult` on what was read. -/
def Reading.Fits (r : Reading) : Prop :=
  r.text.length ≤ 4096 ∧ Bounded 1 255 r.responseId ∧ Bounded 1 255 r.model

/-- A reply is harmless unless it is a success that cannot be decoded for its depth, or
from which a text, an id or a model is read that does not fit. -/
def Harmless {ε : Type} (read : ε → Except LLMAdapterError Reading) : Reply ε → Prop
  | .response statusCode body => 400 ≤ statusCode ∧ statusCode ≤ 599 ∨
      match body with
      | .tooDeep => False
      | .invalid => True
      | .envelope e => ∀ r, read e = .ok r → r.Fits
  | _ => True

/-- The reply that ends the attempts is harmless: the first one that is not retried. -/
def HarmlessEnd {ε : Type} (settings : Settings) (read : ε → Except LLMAdapterError Reading)
    (replies : ℕ → Reply ε) : Prop :=
  ∀ i, Retrying.Decisive retryable replies 1 settings.maxAttempts i → Harmless read (replies i)

def Provider.HarmlessEnd : Provider → Prop
  | .chat settings replies =>
    LLMProvider.HarmlessEnd settings OpenAIChatCompletionsAdapter.read replies
  | .responses settings replies =>
    LLMProvider.HarmlessEnd settings OpenAIResponsesAdapter.read replies

/-- An adapter raises only its own errors. -/
def Typed (x : Except ComposeError CompositionResult) : Prop := ∀ failure, x ≠ .error (.raised failure)

theorem make_typed_iff {r : Reading} (ht : 1 ≤ r.text.length) {traceId : String}
    (htrace : Bounded 1 128 traceId) :
    Typed ((CompositionResult.make r.text r.responseId r.model traceId).mapError .raised) ↔
      r.Fits := by
  unfold CompositionResult.make
  constructor
  · intro htyped
    by_contra hfit
    rw [dif_neg] at htyped
    · exact htyped _ rfl
    · rintro ⟨htext, hid, hmodel, -⟩
      exact hfit ⟨htext.2, hid, hmodel⟩
  · rintro ⟨htext, hid, hmodel⟩ failure
    rw [dif_pos ⟨⟨ht, htext⟩, hid, hmodel, htrace⟩]
    simp [Except.mapError]

theorem settle_typed_iff {ε : Type} {mapHttpError : ℕ → LLMAdapterError}
    {read : ε → Except LLMAdapterError Reading}
    (hread : ∀ e r, read e = .ok r → 1 ≤ r.text.length) {traceId : String}
    (htrace : Bounded 1 128 traceId) (reply : Reply ε) :
    Typed (settle mapHttpError read traceId reply) ↔ Harmless read reply := by
  cases reply with
  | timeout | requestError => simp [Typed, settle, Harmless]
  | response statusCode body =>
    by_cases hs : 400 ≤ statusCode ∧ statusCode ≤ 599
    · simp [Typed, settle, Harmless, hs]
    · cases body with
      | tooDeep => simp [Typed, settle, Harmless, hs]
      | invalid => simp [Typed, settle, Harmless, hs]
      | envelope e =>
        simp only [settle, hs, if_false, Harmless, false_or]
        cases hr : read e with
        | error error => simp [Typed]
        | ok r =>
          dsimp only
          rw [make_typed_iff (hread e r hr) htrace]
          simp

theorem exchange_typed_iff {ε : Type} (settings : Settings) {mapHttpError : ℕ → LLMAdapterError}
    {read : ε → Except LLMAdapterError Reading}
    (hread : ∀ e r, read e = .ok r → 1 ≤ r.text.length) {traceId : String}
    (htrace : Bounded 1 128 traceId) (replies : ℕ → Reply ε) (post : PostBody) :
    Typed (exchange settings mapHttpError read replies post traceId).result ↔
      HarmlessEnd settings read replies := by
  obtain ⟨i, hi, hloop⟩ := Retrying.loop_decisive retryable replies 1 settings.positive
  simp only [exchange, hloop]
  rw [settle_typed_iff hread htrace]
  constructor
  · intro h j hj
    rw [hj.unique hi]
    exact h
  · intro h
    exact h i hi

theorem ofList_pos {l : List Char} (h : l ≠ []) : 1 ≤ (String.ofList l).length := by
  rw [String.length_ofList]
  exact List.length_pos_of_ne_nil h

theorem chat_read_pos (e : OpenAIChatCompletionsAdapter.ChatCompletionEnvelope) (r : Reading)
    (h : OpenAIChatCompletionsAdapter.read e = .ok r) : 1 ≤ r.text.length := by
  unfold OpenAIChatCompletionsAdapter.read at h
  split at h
  · cases h
  · dsimp only at h
    split_ifs at h with hne
    cases h
    exact ofList_pos hne

theorem responses_read_pos (e : OpenAIResponsesAdapter.ResponsesEnvelope) (r : Reading)
    (h : OpenAIResponsesAdapter.read e = .ok r) : 1 ≤ r.text.length := by
  unfold OpenAIResponsesAdapter.read at h
  dsimp only at h
  split_ifs at h with _ _ hne
  cases h
  exact ofList_pos hne

theorem compose_typed_iff (provider : Provider) (request : CompositionRequest) :
    Typed (provider.compose request) ↔ provider.HarmlessEnd := by
  cases provider with
  | chat settings replies =>
    exact exchange_typed_iff settings chat_read_pos request.traceId_bounded replies _
  | responses settings replies =>
    exact exchange_typed_iff settings responses_read_pos request.traceId_bounded replies _

/-- A call that asked nothing, or whose adapter raised only its own errors. -/
theorem respond_eq {u : Unicode} {provider : Provider} {packet : ContextPacket}
    {conversation : List ConversationTurn} {deterministicText : Option String}
    (h : ∀ request, (ResponseEngine.respond u provider.adapter packet conversation
      deterministicText).request = some request → Typed (provider.compose request)) :
    respond u provider packet conversation deterministicText =
      (ResponseEngine.respond u provider.adapter packet conversation deterministicText).outcome := by
  unfold respond
  dsimp only
  split
  · rfl
  · rename_i request hr
    split
    · rename_i failure hc
      exact absurd hc (h request hr failure)
    · rfl

/-- The request of a response by a model, when the prompt fits. -/
theorem request_of_fits (u : Unicode) (adapter : LLMAdapter) {packet : ContextPacket}
    (hmode : packet.responseMode = .jinjaLlm ∨ packet.responseMode = .nonCommercialLlm)
    {conversation : List ConversationTurn} (hc : conversation.length ≤ 20)
    (deterministicText : Option String) (hfit : (renderEvidence packet).length ≤ 30000) :
    ∃ request, (ResponseEngine.respond u adapter packet conversation deterministicText).request =
      some request := by
  have hb : Bounded 1 12000 systemPrompt ∧ Bounded 1 30000 (renderEvidence packet) ∧
      conversation.length ≤ 20 ∧ Bounded 1 128 packet.traceId :=
    ⟨ConversationOrchestrator.systemPrompt_bounded,
      ⟨ConversationOrchestrator.renderEvidence_pos packet, hfit⟩, hc, packet.traceId_bounded⟩
  rw [ResponseEngine.respond_llm hmode, CompositionRequest.make, dif_pos hb]
  dsimp only
  split <;> exact ⟨_, rfl⟩

theorem respond_llm_returns_iff {u : Unicode} {provider : Provider} {packet : ContextPacket}
    (hmode : packet.responseMode = .jinjaLlm ∨ packet.responseMode = .nonCommercialLlm)
    {conversation : List ConversationTurn} (hc : conversation.length ≤ 20)
    (deterministicText : Option String) :
    (∃ out, respond u provider packet conversation deterministicText = .ok out) ↔
      (renderEvidence packet).length ≤ 30000 ∧ provider.HarmlessEnd := by
  have hreturns : (∃ out, (ResponseEngine.respond u provider.adapter packet conversation
      none).outcome = .ok out) ↔ (renderEvidence packet).length ≤ 30000 :=
    ConversationOrchestrator.respond_returns hmode hc
  have hsame : ResponseEngine.respond u provider.adapter packet conversation none =
      ResponseEngine.respond u provider.adapter packet conversation deterministicText := by
    rw [ResponseEngine.respond_llm hmode, ResponseEngine.respond_llm hmode]
  rw [hsame] at hreturns
  by_cases htyped : provider.HarmlessEnd
  · rw [respond_eq fun request _ => (compose_typed_iff provider request).mpr htyped, hreturns]
    simp [htyped]
  · refine iff_of_false ?_ fun h => htyped h.2
    rintro ⟨out, hout⟩
    by_cases hfit : (renderEvidence packet).length ≤ 30000
    · obtain ⟨request, hr⟩ := request_of_fits u provider.adapter hmode hc deterministicText hfit
      have hraises := (not_congr (compose_typed_iff provider request)).mpr htyped
      simp only [Typed, not_forall, not_not] at hraises
      obtain ⟨failure, hfailure⟩ := hraises
      simp [respond, hr, hfailure] at hout
    · refine hfit (hreturns.mp ⟨out, ?_⟩)
      unfold respond at hout
      dsimp only at hout
      split at hout
      · exact hout
      · split at hout
        · cases hout
        · exact hout

/-- Outside the deterministic mode the engine returns a text of 1 to 4096 characters if
and only if no model is asked, or the prompt fits and the reply that ends the attempts is
harmless. -/
theorem engine_falls_back_iff (u : Unicode) (provider : Provider) {packet : ContextPacket}
    (hmode : packet.responseMode ≠ .deterministic) {conversation : List ConversationTurn}
    (hc : conversation.length ≤ 20) (deterministicText : Option String) :
    (∃ out, respond u provider packet conversation deterministicText = .ok out ∧
        Bounded 1 4096 out.text) ↔
      packet.responseMode = .jinja ∨
        ((renderEvidence packet).length ≤ 30000 ∧ provider.HarmlessEnd) := by
  have hbounded : (∃ out, respond u provider packet conversation deterministicText = .ok out ∧
        Bounded 1 4096 out.text) ↔
      ∃ out, respond u provider packet conversation deterministicText = .ok out :=
    ⟨fun ⟨out, h, _⟩ => ⟨out, h⟩, fun ⟨out, h⟩ => ⟨out, h, out.text_bounded⟩⟩
  rw [hbounded]
  cases hm : packet.responseMode with
  | deterministic => exact absurd hm hmode
  | jinja =>
    refine iff_of_true ?_ (.inl rfl)
    obtain ⟨out, hout, -⟩ := ResponseEngine.fallback_ok (u := u) packet []
    refine ⟨out, ?_⟩
    simp [respond, ResponseEngine.respond,
      ResponseEngine.emit_packet packet "context_packet" (by decide), hm, hout]
  | jinjaLlm =>
    rw [respond_llm_returns_iff (.inl hm) hc]
    simp
  | nonCommercialLlm =>
    rw [respond_llm_returns_iff (.inr hm) hc]
    simp

section Samples
open OpenAIChatCompletionsAdapter (ChatCompletionEnvelope)

/-- A greeting, to be written by the model. -/
def greetingPacket : ContextPacket :=
  accepted (ContextPacket.make "Saludar" "hola" [] [] [] [] .nonCommercialLlm none
    "conversation:wamid.1") (by decide +kernel)

def sampleSettings : Settings := ⟨"llama", 2, 500, by decide +kernel⟩

/-- The provider answers at once, under an id of 256 characters. -/
def longIdProvider : Provider :=
  .chat sampleSettings fun _ => .response 200
    (.envelope ⟨String.ofList (List.replicate 256 'a'), "llama", [some "Hola"]⟩)

/-- The id that does not fit is raised past the fallback. -/
theorem long_response_id_raises :
    (∃ failure, respond .latin1 longIdProvider greetingPacket [] none = .error failure) ∧
      ¬ ∃ out, respond .latin1 longIdProvider greetingPacket [] none = .ok out := by
  have hno : ¬ ∃ out, respond .latin1 longIdProvider greetingPacket [] none = .ok out := by
    rw [respond_llm_returns_iff (.inr rfl) (by simp)]
    rintro ⟨-, hend⟩
    have hfirst : Retrying.Decisive retryable
        (fun _ => Reply.response 200 (.envelope (ChatCompletionEnvelope.mk
          (String.ofList (List.replicate 256 'a')) "llama" [some "Hola"]))) 1 2 1 :=
      ⟨le_refl _, by decide, fun j hj hji => by omega, fun hr => by cases hr⟩
    rcases hend 1 hfirst with hstatus | hread
    · exact absurd hstatus (by decide)
    · have hfits := hread ⟨"Hola", String.ofList (List.replicate 256 'a'), "llama"⟩ rfl
      have hlong := hfits.2.1.2
      rw [String.length_ofList, List.length_replicate] at hlong
      omega
  refine ⟨?_, hno⟩
  cases h : respond .latin1 longIdProvider greetingPacket [] none with
  | error failure => exact ⟨failure, rfl⟩
  | ok out => exact absurd ⟨out, h⟩ hno

/-- The provider times out and then answers with a text. -/
def slowProvider : Provider :=
  .chat sampleSettings fun i => if i = 1 then .timeout
    else .response 200 (.envelope ⟨"chatcmpl-1", "llama", [some "¡Hola!"]⟩)

set_option maxRecDepth 10000 in
theorem slow_provider_returns :
    ∃ out, respond .latin1 slowProvider greetingPacket [] none = .ok out ∧
      Bounded 1 4096 out.text := by
  refine (engine_falls_back_iff .latin1 slowProvider (by decide) (by simp) none).mpr (.inr ⟨?_, ?_⟩)
  · have hstrip := strip_length_le (evidenceTemplate greetingPacket)
    have htemplate : (evidenceTemplate greetingPacket).length ≤ 30000 := by decide
    rw [renderEvidence, String.length_ofList]
    omega
  · intro i hi
    have hlast : i < 1 + 2 := hi.last
    have hfirst := hi.first
    have hcases : i = 1 ∨ i = 2 := by omega
    rcases hcases with rfl | rfl
    · trivial
    · right
      intro r hr
      have hread : OpenAIChatCompletionsAdapter.read ⟨"chatcmpl-1", "llama", [some "¡Hola!"]⟩ =
          .ok ⟨"¡Hola!", "chatcmpl-1", "llama"⟩ := by decide
      rw [hread] at hr
      cases hr
      exact ⟨by decide, by decide, by decide⟩

end Samples

end LLMProvider
end Piki
