import Piki.DeliveryStore

/-! `MetaDeliveryAdapter` of `integrations/meta/delivery.py`, and how
`IdempotentDeliveryService` answers from a stored attempt. -/
namespace Piki
open Text

/-- The JSON of the POST, by its message type. -/
inductive MetaBody
  | text (recipient body : String)
  | image (recipient link : String) (caption : Option String)
  | interactive (recipient text : String) (buttons : List (String × String))
  | template (recipient name language : String) (parameters : List String)
  deriving DecidableEq, Repr

/-- What became of a POST. A response has a status, the text of `error.code` if its
JSON has one, and the message ids if its JSON is a `MetaSendResponse`. -/
inductive PostOutcome
  | timeout
  | requestError
  | response (status : ℕ) (errorCode : Option String) (messageIds : Option (List String))
  deriving DecidableEq, Repr

namespace MetaDeliveryAdapter

def localFailure (request : DeliveryRequest) (code : String) : Except Failure DeliveryResult :=
  DeliveryResult.make .failed none (some code)
    (some "El mensaje no cumple el contrato de entrega de Meta.") request.traceId

def windowFailure (request : DeliveryRequest) : Except Failure DeliveryResult :=
  match request.customerServiceWindow with
  | .closed => DeliveryResult.make .failed none (some "META_TEMPLATE_REQUIRED")
      (some "La ventana de atención está cerrada; se requiere un template aprobado.") request.traceId
  | _ => DeliveryResult.make .failed none (some "META_WINDOW_UNCONFIRMED")
      (some "No se pudo confirmar la ventana de atención para el envío libre.") request.traceId

def rejectedResult (status : ℕ) (errorCode : Option String) (traceId : String) :
    Except Failure DeliveryResult :=
  let code := match errorCode with
    | some code => "META_" ++ code
    | none => "META_HTTP_" ++ toString status
  DeliveryResult.make .failed none (some code) (some "Meta rechazó el mensaje.") traceId

/-- The body, or the code of the local failure. -/
def buildBody (request : DeliveryRequest) : Except String MetaBody :=
  let content := request.content
  let text := content.text.getD ""
  match content.kind with
  | .text => .ok (.text request.conversationId text)
  | .image =>
    if 1024 < text.length then .error "META_IMAGE_CAPTION_TOO_LONG"
    else .ok (.image request.conversationId (content.mediaUrl.getD "")
      (if truthy content.text then some text else none))
  | .interactive => .ok (.interactive request.conversationId text
      (content.interactiveOptions.map fun o => (o.id, o.title)))
  | .template => .ok (.template request.conversationId (content.templateName.getD "")
      (content.templateLanguage.getD "") content.templateParameters)

/-- The first message id of a send response, unless it is blank. -/
def acceptedId (messageIds : Option (List String)) : Option String :=
  (messageIds.bind List.head?).filter fun id => strip id.toList ≠ []

def readResponse (request : DeliveryRequest) : PostOutcome → Except Failure DeliveryResult
  | .timeout => DeliveryResult.make .unknown none (some "META_TIMEOUT_UNCERTAIN")
      (some "Meta no confirmó si aceptó el mensaje antes del timeout.") request.traceId
  | .requestError => DeliveryResult.make .unknown none (some "META_NETWORK_UNCERTAIN")
      (some "No se pudo confirmar el resultado del envío con Meta.") request.traceId
  | .response status errorCode messageIds =>
    if 400 ≤ status ∧ status ≤ 599 then rejectedResult status errorCode request.traceId
    else match acceptedId messageIds with
      | some id => DeliveryResult.make .accepted (some id) none none request.traceId
      | none => DeliveryResult.make .unknown none (some "META_INVALID_SUCCESS_RESPONSE")
          (some "Meta respondió sin un identificador de mensaje válido.") request.traceId

/-- The POST that was made, if any, and the result. -/
def send (provider : MetaBody → PostOutcome) (request : DeliveryRequest) :
    Option MetaBody × Except Failure DeliveryResult :=
  if request.content.kind ≠ .template ∧ request.customerServiceWindow ≠ .open then
    (none, windowFailure request)
  else match buildBody request with
    | .error code => (none, localFailure request code)
    | .ok body => (some body, readResponse request (provider body))

end MetaDeliveryAdapter

/-- What the adapter can return: an accepted message with its id, or an error without. -/
def DeliveryResult.FromAdapter (r : DeliveryResult) : Prop :=
  (r.status = .accepted ∧ truthy r.providerMessageId = true) ∨
    (r.status.isError = true ∧ r.providerMessageId = none)

namespace MetaDeliveryAdapter

theorem make_error {status : DeliveryStatus} {code message : String} {traceId : String}
    {r : DeliveryResult} (hs : status.isError = true)
    (h : DeliveryResult.make status none (some code) (some message) traceId = .ok r) :
    r.FromAdapter := by
  obtain ⟨hst, hpid, -⟩ := DeliveryResult.make_ok h
  exact .inr ⟨hst ▸ hs, hpid⟩

theorem readResponse_ok {request : DeliveryRequest} {outcome : PostOutcome} {r : DeliveryResult}
    (h : readResponse request outcome = .ok r) : r.FromAdapter := by
  cases outcome with
  | timeout | requestError => exact make_error rfl h
  | response status errorCode messageIds =>
    simp only [readResponse] at h
    split_ifs at h
    · exact make_error rfl h
    · cases hid : acceptedId messageIds with
      | none =>
        simp only [hid] at h
        exact make_error rfl h
      | some id =>
        simp only [hid] at h
        obtain ⟨hst, -⟩ := DeliveryResult.make_ok h
        exact .inl ⟨hst, r.provider_shape (by rw [hst]; rfl)⟩

theorem send_ok {provider : MetaBody → PostOutcome} {request : DeliveryRequest} {r : DeliveryResult}
    (h : (send provider request).2 = .ok r) : r.FromAdapter := by
  unfold send at h
  split_ifs at h
  · simp only [windowFailure] at h
    split at h <;> exact make_error rfl h
  · cases hb : buildBody request with
    | error code =>
      simp only [hb, localFailure] at h
      exact make_error rfl h
    | ok body =>
      simp only [hb] at h
      exact readResponse_ok h

end MetaDeliveryAdapter

def DeliveryAttemptState.toStatus : DeliveryAttemptState → Option DeliveryStatus
  | .pending => none
  | .unknown => some .unknown
  | .accepted => some .accepted
  | .sent => some .sent
  | .delivered => some .delivered
  | .read => some .read
  | .failed => some .failed

namespace IdempotentDeliveryService

/-- `_existing_result`: a replay never sends, it reports the stored attempt. -/
def existingResult (attempt : DeliveryAttemptSnapshot) : Except Failure DeliveryResult :=
  match attempt.state.toStatus with
  | none => DeliveryResult.make .unknown none (some "DELIVERY_ALREADY_IN_PROGRESS")
      (some "Ya existe un intento de entrega en curso.") attempt.traceId
  | some status => DeliveryResult.make status attempt.providerMessageId attempt.errorCode
      attempt.errorMessage attempt.traceId

/-- A replay that reports success reports the provider id of the attempt. -/
theorem existingResult_success {attempt : DeliveryAttemptSnapshot} {r : DeliveryResult}
    (h : existingResult attempt = .ok r) (hs : r.status.isError = false) :
    truthy attempt.providerMessageId = true := by
  unfold existingResult at h
  cases hst : attempt.state.toStatus with
  | none =>
    simp only [hst] at h
    obtain ⟨hr, -⟩ := DeliveryResult.make_ok h
    rw [hr] at hs
    cases hs
  | some status =>
    simp only [hst] at h
    obtain ⟨-, hpid, -⟩ := DeliveryResult.make_ok h
    rw [← hpid]
    exact r.provider_shape hs

end IdempotentDeliveryService
end Piki
