import Piki.MetaPayload
import Piki.DeliveryService

/-! What `MetaDeliveryAdapter.send` reports for each behaviour of the provider, down to the
JSON of its response. -/
namespace Piki.MetaDeliveryAdapter
open Json Text

/-- A response and what `response.json()` gives, which is nothing if it raises `ValueError`. -/
structure HttpResponse where
  statusCode : ℕ
  json : Option Json

/-- `is_error` of a response. -/
def HttpResponse.isError (r : HttpResponse) : Bool := 400 ≤ r.statusCode && r.statusCode ≤ 599

/-- What the client does with one POST. -/
inductive Transport
  | timeout
  | requestError
  | response (r : HttpResponse)

/-- `MetaSendResponse.model_validate`: the message ids. -/
def metaSendResponse (j : Json) : Option (List String) := do
  let _ ← required "messaging_product" asStr j
  required "messages" (asTuple (required "id" asStr)) j

/-- The `code` of the error object; `str` is how the interpreter prints it. -/
def metaErrorCode (str : Json → String) (j : Json) : Option String :=
  match (j.get "error").bind (Json.get "code") with
  | none | some .null => none
  | some code => some (str code)

/-- What the adapter reads of a response. -/
def outcome (str : Json → String) : Transport → PostOutcome
  | .timeout => .timeout
  | .requestError => .requestError
  | .response r =>
    .response r.statusCode (r.json.bind (metaErrorCode str)) (r.json.bind metaSendResponse)

/-- `send` against a transport: the POSTs that were made, and what it returned or raised. -/
def sendOver (str : Json → String) (transport : MetaBody → Transport) (request : DeliveryRequest) :
    List MetaBody × Except Failure DeliveryResult :=
  let sent := send (fun body => outcome str (transport body)) request
  (sent.1.toList, sent.2)

/-- The response says that the message was taken. -/
def Accepts : Transport → Prop
  | .response r => r.isError = false ∧ ∃ j id ids, r.json = some j ∧
      metaSendResponse j = some (id :: ids) ∧ strip id.toList ≠ []
  | _ => False

/-- The response says that it was not. -/
def Rejects : Transport → Prop
  | .response r => r.isError = true
  | _ => False

theorem acceptedId_eq_some {messageIds : Option (List String)} {id : String} :
    acceptedId messageIds = some id ↔
      ∃ ids, messageIds = some (id :: ids) ∧ strip id.toList ≠ [] := by
  unfold acceptedId
  rcases messageIds with _ | _ | ⟨first, ids⟩
  · simp
  · simp
  · simp only [Option.bind_some, List.head?_cons, Option.filter_eq_some_iff, Option.some.injEq,
      decide_eq_true_eq, List.cons.injEq]
    constructor
    · rintro ⟨rfl, hid⟩
      exact ⟨ids, ⟨rfl, rfl⟩, hid⟩
    · rintro ⟨ids', ⟨rfl, -⟩, hid⟩
      exact ⟨rfl, hid⟩

theorem accepts_response {r : HttpResponse} (he : r.isError = false) :
    Accepts (.response r) ↔ ∃ id, acceptedId (r.json.bind metaSendResponse) = some id := by
  simp only [Accepts, he, true_and, acceptedId_eq_some]
  constructor
  · rintro ⟨j, id, ids, hj, hids, hid⟩
    exact ⟨id, ids, by rw [hj]; exact hids, hid⟩
  · rintro ⟨id, ids, hids, hid⟩
    obtain ⟨j, hj, hv⟩ := Option.bind_eq_some_iff.mp hids
    exact ⟨j, id, ids, hj, hv, hid⟩

/-- The status of a POST that was made follows from what became of it. -/
theorem readResponse_cases (str : Json → String) (request : DeliveryRequest) (t : Transport)
    {r : DeliveryResult} (h : readResponse request (outcome str t) = .ok r) :
    r.traceId = request.traceId ∧ (r.status = .accepted ∧ Accepts t ∨
      r.status = .failed ∧ Rejects t ∨ r.status = .unknown ∧ ¬ Accepts t ∧ ¬ Rejects t) := by
  cases t with
  | timeout =>
    obtain ⟨hs, -, -, -, ht⟩ := DeliveryResult.make_ok h
    exact ⟨ht, .inr (.inr ⟨hs, id, id⟩)⟩
  | requestError =>
    obtain ⟨hs, -, -, -, ht⟩ := DeliveryResult.make_ok h
    exact ⟨ht, .inr (.inr ⟨hs, id, id⟩)⟩
  | response response =>
    have herror : response.isError = true ↔
        400 ≤ response.statusCode ∧ response.statusCode ≤ 599 := by
      simp [HttpResponse.isError]
    simp only [outcome, readResponse] at h
    split_ifs at h with hstatus
    · obtain ⟨hs, -, -, -, ht⟩ := DeliveryResult.make_ok h
      exact ⟨ht, .inr (.inl ⟨hs, herror.mpr hstatus⟩)⟩
    · have he : response.isError = false := by rw [← Bool.not_eq_true, herror]; exact hstatus
      have hr : ¬ Rejects (.response response) := by simp [Rejects, he]
      cases hid : acceptedId (response.json.bind metaSendResponse) with
      | some id =>
        simp only [hid] at h
        obtain ⟨hs, -, -, -, ht⟩ := DeliveryResult.make_ok h
        exact ⟨ht, .inl ⟨hs, (accepts_response he).mpr ⟨id, hid⟩⟩⟩
      | none =>
        simp only [hid] at h
        obtain ⟨hs, -, -, -, ht⟩ := DeliveryResult.make_ok h
        have ha : ¬ Accepts (.response response) := by
          rw [accepts_response he, hid]
          simp
        exact ⟨ht, .inr (.inr ⟨hs, ha, hr⟩)⟩

/-- A request that is turned down before any POST. -/
def Local (request : DeliveryRequest) : Prop :=
  request.content.kind ≠ .template ∧ request.customerServiceWindow ≠ .open ∨
    request.content.kind = .image ∧ 1024 < (request.content.text.getD "").length

theorem windowFailure_ok {request : DeliveryRequest} {r : DeliveryResult}
    (h : windowFailure request = .ok r) : r.status = .failed ∧ r.traceId = request.traceId := by
  unfold windowFailure at h
  split at h
  · obtain ⟨hs, -, -, -, ht⟩ := DeliveryResult.make_ok h
    exact ⟨hs, ht⟩
  · obtain ⟨hs, -, -, -, ht⟩ := DeliveryResult.make_ok h
    exact ⟨hs, ht⟩

/-- Only the length of a caption keeps a body from being built. -/
theorem buildBody_error_iff {request : DeliveryRequest} :
    (∃ code, buildBody request = .error code) ↔
      request.content.kind = .image ∧ 1024 < (request.content.text.getD "").length := by
  cases hk : request.content.kind with
  | text | interactive | template => simp [buildBody, hk]
  | image =>
    by_cases hl : 1024 < (request.content.text.getD "").length
    · simp [buildBody, hk, hl]
    · simp [buildBody, hk, hl]

theorem sendOver_cases (str : Json → String) (transport : MetaBody → Transport)
    (request : DeliveryRequest) :
    (Local request ∧ (sendOver str transport request).1 = [] ∧
      ∀ r, (sendOver str transport request).2 = .ok r →
        r.status = .failed ∧ r.traceId = request.traceId) ∨
    (¬ Local request ∧ ∃ body, sendOver str transport request =
      ([body], readResponse request (outcome str (transport body)))) := by
  unfold sendOver send
  split_ifs with hw
  · exact .inl ⟨.inl hw, rfl, fun r h => windowFailure_ok h⟩
  · cases hb : buildBody request with
    | error code =>
      refine .inl ⟨.inr (buildBody_error_iff.mp ⟨code, hb⟩), rfl, ?_⟩
      intro r h
      obtain ⟨hs, -, -, -, ht⟩ := DeliveryResult.make_ok h
      exact ⟨hs, ht⟩
    | ok body =>
      refine .inr ⟨?_, body, rfl⟩
      rintro (h | h)
      · exact hw h
      · obtain ⟨code, hcode⟩ := buildBody_error_iff.mpr h
        rw [hb] at hcode
        cases hcode

/-- The truth table of `send`: which requests are posted, and what each status means. -/
theorem sendOver_truth_table (str : Json → String) (transport : MetaBody → Transport)
    (request : DeliveryRequest) :
    (sendOver str transport request).1.length ≤ 1 ∧
    (Local request → (sendOver str transport request).1 = []) ∧
    ∀ r, (sendOver str transport request).2 = .ok r →
      (r.status = .accepted ↔ ∃ body ∈ (sendOver str transport request).1,
        Accepts (transport body)) ∧
      (r.status = .failed ↔ (sendOver str transport request).1 = [] ∨
        ∃ body ∈ (sendOver str transport request).1, Rejects (transport body)) ∧
      (r.status = .unknown ↔ ∃ body ∈ (sendOver str transport request).1,
        ¬ Accepts (transport body) ∧ ¬ Rejects (transport body)) ∧
      r.traceId = request.traceId := by
  rcases sendOver_cases str transport request with ⟨hlocal, hnil, hfailed⟩ | ⟨hlocal, body, hsent⟩
  · refine ⟨by simp [hnil], fun _ => hnil, ?_⟩
    intro r hr
    obtain ⟨hs, ht⟩ := hfailed r hr
    simp [hnil, hs, ht]
  · refine ⟨by simp [hsent], fun h => absurd h hlocal, ?_⟩
    intro r hr
    rw [hsent] at hr ⊢
    obtain ⟨ht, ⟨hs, ha⟩ | ⟨hs, hj⟩ | ⟨hs, ha, hj⟩⟩ := readResponse_cases str request _ hr
    · have hj : ¬ Rejects (transport body) := by
        cases htb : transport body with
        | response response =>
          rw [htb] at ha
          simp [Rejects, ha.1]
        | timeout | requestError => exact id
      simp [hs, ht, ha, hj]
    · have ha : ¬ Accepts (transport body) := by
        cases htb : transport body with
        | response response =>
          rw [htb] at hj
          rintro ⟨hfalse, -⟩
          exact absurd (hfalse.symm.trans hj) (by simp)
        | timeout | requestError => exact id
      simp [hs, ht, ha, hj]
    · simp [hs, ht, ha, hj]

section Samples

def sampleSend : DeliveryRequest :=
  accepted (DeliveryRequest.make "reply:wamid.7" "549"
    ⟨.text, some "hola", none, [], none, none, []⟩ .open "trace") (by decide +kernel)

/-- Meta takes the message and gives it an id. -/
def takenBy (_ : MetaBody) : Transport :=
  .response ⟨200, some (.object [("messaging_product", .str "whatsapp"),
    ("messages", .array [.object [("id", .str "wamid.8")]])])⟩

theorem sendOver_truth_table_taken : ∃ r,
    (sendOver (fun _ => "") takenBy sampleSend).2 = .ok r ∧ r.status = .accepted := by
  refine ⟨_, rfl, ?_⟩
  refine ((sendOver_truth_table (fun _ => "") takenBy sampleSend).2.2 _ rfl).1.mpr ?_
  exact ⟨_, List.mem_cons_self, rfl, _, _, _, rfl, rfl, by decide⟩

end Samples
end Piki.MetaDeliveryAdapter
