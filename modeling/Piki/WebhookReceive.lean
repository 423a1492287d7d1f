import Piki.MetaPayload
import Piki.WebhookAuth
import Piki.Ingress

/-! The `receive` handler of `api/meta_webhook.py`, from the raw bytes of a request to its
HTTP status. The webhook errors and `JSONDecodeError` are caught; every other exception
leaves the handler. -/
namespace Piki.Webhook

/-- What the handler answers: the result, or the status and detail of an `HTTPException`. -/
inductive Reply
  | result (r : WebhookIngestResult)
  | raised (status : ℕ) (detail : String)
  deriving DecidableEq, Repr

def Reply.status : Reply → ℕ
  | .result _ => 200
  | .raised status _ => status

/-- What `json.loads` raises on bytes: `JSONDecodeError`, `UnicodeDecodeError`, the
`ValueError` of an integer with too many digits, or `RecursionError`. -/
inductive LoadsError
  | jsonDecode
  | unicodeDecode
  | digits
  | recursion
  deriving DecidableEq, Repr

def LoadsError.failure : LoadsError → Failure
  | .jsonDecode => .jsonDecode "Expecting value"
  | .unicodeDecode => .unicodeDecode "invalid start byte"
  | .digits => .value "Exceeds the limit for integer string conversion"
  | .recursion => .recursion "maximum recursion depth exceeded"

/-- The application's configuration and the library functions that it calls; `ingest`
returns a result or raises `MetaIngressRetryableError`. -/
structure Endpoint where
  appSecret : Option String
  expectedWabaId : Option String
  expectedPhoneNumberId : Option String
  ingress : Option (MetaWebhookEvents → Except String WebhookIngestResult)
  loads : List UInt8 → Except LoadsError Json
  laxInt : LaxInt
  digits : Digits

/-- The body of the first `try`. -/
def readEvents (api : Endpoint) (rawBody : List UInt8) : Except Failure MetaWebhookEvents := do
  let payload ← (api.loads rawBody).mapError LoadsError.failure
  if payload.isDict then
    normalizeObject api.digits api.laxInt api.expectedWabaId api.expectedPhoneNumberId payload
  else .error (.webhook "webhook payload must be an object")

def receive (api : Endpoint) (rawBody : List UInt8) (signatureHeader : Option String) :
    Except Failure Reply :=
  match api.appSecret, api.ingress with
  | some appSecret, some ingest => do
    if ← WebhookAuth.verifySignature rawBody signatureHeader appSecret then
      match readEvents api rawBody with
      | .error (.jsonDecode _) | .error (.webhook _) => .ok (.raised 400 "invalid webhook payload")
      | .error e => .error e
      | .ok events =>
        match ingest events with
        | .ok r => .ok (.result r)
        | .error _ => .ok (.raised 503 "webhook ingress temporarily unavailable")
    else .ok (.raised 401 "invalid webhook signature")
  | _, _ => .ok (.raised 503 "webhook not ready")

/-- The parts of a payload in the order in which `normalize_webhook` checks them. -/
inductive Part
  | entry (id : String)
  | change (phoneNumberId : String)
  | message (phoneNumberId : String) (message : MetaMessage)
  | status (phoneNumberId : String) (status : MetaStatus)

def changeParts (c : MetaChange) : List Part :=
  .change c.phoneNumberId ::
    (c.messages.map (.message c.phoneNumberId) ++ c.statuses.map (.status c.phoneNumberId))

def entryParts (e : MetaEntry) : List Part := .entry e.id :: e.changes.flatMap changeParts

def parts (payload : MetaWebhookPayload) : List Part := payload.flatMap entryParts

/-- What was computed is dropped, what was raised is kept. -/
def verdict {α : Type} (x : Except Failure α) : Except Failure Unit := x.map fun _ => ()

/-- The check of one part on its own. -/
def check (ts : Timestamp) (waba phone : Option String) : Part → Except Failure Unit
  | .entry id =>
    if waba.any (· ≠ id) then .error (.webhook "unexpected Meta WABA ID") else .ok ()
  | .change phoneNumberId =>
    if phone.any (· ≠ phoneNumberId) then .error (.webhook "unexpected Meta phone number ID")
    else .ok ()
  | .message phoneNumberId message => verdict (normalizeMessage ts phoneNumberId message)
  | .status phoneNumberId status => verdict (normalizeStatus ts phoneNumberId status)

def checkAll (ts : Timestamp) (waba phone : Option String) : List Part → Except Failure Unit
  | [] => .ok ()
  | p :: ps => do
    check ts waba phone p
    checkAll ts waba phone ps

section Order
variable (ts : Timestamp) (waba phone : Option String)

theorem checkAll_append (ps qs : List Part) :
    checkAll ts waba phone (ps ++ qs) =
      (checkAll ts waba phone ps >>= fun _ => checkAll ts waba phone qs) := by
  induction ps with
  | nil => rfl
  | cons p ps ih =>
    simp only [List.cons_append, checkAll, ih]
    cases check ts waba phone p <;> rfl

theorem checkAll_singleton (p : Part) : checkAll ts waba phone [p] = check ts waba phone p := by
  simp only [checkAll]
  cases check ts waba phone p <;> rfl

theorem verdict_bind {α β : Type} (x : Except Failure α) (f : α → Except Failure β)
    {y : Except Failure Unit} (h : ∀ a, verdict (f a) = y) :
    verdict (x >>= f) = (verdict x >>= fun _ => y) := by
  cases x with
  | error e => rfl
  | ok a => exact h a

/-- A traversal stops at the first element that raises. -/
theorem verdict_mapM {α β : Type} {f : α → Except Failure β} {g : α → List Part}
    (h : ∀ a, verdict (f a) = checkAll ts waba phone (g a)) (xs : List α) :
    verdict (xs.mapM f) = checkAll ts waba phone (xs.flatMap g) := by
  induction xs with
  | nil => rfl
  | cons x xs ih =>
    rw [List.mapM_cons, List.flatMap_cons, checkAll_append, ← h x, ← ih]
    refine verdict_bind _ _ fun a => ?_
    cases xs.mapM f <;> rfl

/-- The same for elements that are one part each. -/
theorem verdict_mapM_parts {α β : Type} {f : α → Except Failure β} {g : α → Part}
    (h : ∀ a, verdict (f a) = check ts waba phone (g a)) (xs : List α) :
    verdict (xs.mapM f) = checkAll ts waba phone (xs.map g) := by
  have hg : xs.flatMap (fun x => [g x]) = xs.map g := by
    induction xs with
    | nil => rfl
    | cons x xs ih => simp [ih]
  rw [← hg]
  exact verdict_mapM ts waba phone (fun a => (h a).trans (checkAll_singleton ..).symm) xs

theorem normalizeChange_verdict (c : MetaChange) :
    verdict (normalizeChange ts phone c) = checkAll ts waba phone (changeParts c) := by
  have hm : verdict (c.messages.mapM (normalizeMessage ts c.phoneNumberId)) =
      checkAll ts waba phone (c.messages.map (.message c.phoneNumberId)) :=
    verdict_mapM_parts ts waba phone (fun _ => rfl) c.messages
  have hs : verdict (c.statuses.mapM (normalizeStatus ts c.phoneNumberId)) =
      checkAll ts waba phone (c.statuses.map (.status c.phoneNumberId)) :=
    verdict_mapM_parts ts waba phone (fun _ => rfl) c.statuses
  simp only [changeParts, checkAll, check, normalizeChange]
  split_ifs
  · rfl
  · rw [ok_bind, checkAll_append, ← hm, ← hs]
    refine verdict_bind _ _ fun messages => ?_
    cases c.statuses.mapM (normalizeStatus ts c.phoneNumberId) <;> rfl

theorem normalizeEntry_verdict (e : MetaEntry) :
    verdict (normalizeEntry ts waba phone e) = checkAll ts waba phone (entryParts e) := by
  have hc := verdict_mapM ts waba phone (normalizeChange_verdict ts waba phone) e.changes
  simp only [entryParts, checkAll, check, normalizeEntry]
  split_ifs
  · rfl
  · rw [ok_bind, ← hc]
    cases e.changes.mapM (normalizeChange ts phone) <;> rfl

theorem normalizeWebhook_verdict (payload : MetaWebhookPayload) :
    verdict (normalizeWebhook ts waba phone payload) =
      checkAll ts waba phone (parts payload) := by
  have he := verdict_mapM ts waba phone (normalizeEntry_verdict ts waba phone) payload
  rw [parts, ← he, normalizeWebhook]
  cases payload.mapM (normalizeEntry ts waba phone) <;> rfl

end Order

section Overflow
variable {digits : Digits} {waba phone : Option String}

/-- The part has a timestamp outside 64 bits. -/
def Overflows (digits : Digits) : Part → Prop
  | .entry _ | .change _ => False
  | .message _ message => TooLarge digits message.timestamp
  | .status _ status => TooLarge digits status.timestamp

/-- Every timestamp outside 64 bits comes after a part that is rejected. -/
def Guarded (digits : Digits) (waba phone : Option String) (payload : MetaWebhookPayload) : Prop :=
  ∀ before p after, parts payload = before ++ p :: after → Overflows digits p →
    ∃ q ∈ before, check (timestamp digits) waba phone q ≠ .ok ()

/-- The events, or a webhook error. -/
def Closed {α : Type} (x : Except Failure α) : Prop :=
  (∃ a, x = .ok a) ∨ ∃ text, x = .error (.webhook text)

/-- A payload that the models accept has no unguarded timestamp outside 64 bits. -/
def Readable (digits : Digits) (laxInt : LaxInt) (waba phone : Option String) (j : Json) : Prop :=
  ∀ payload, modelValidate laxInt j = some payload → Guarded digits waba phone payload

end Overflow

theorem verifySignature_signed (rawBody : List UInt8) (appSecret : String) :
    WebhookAuth.verifySignature rawBody
      (some ("sha256=" ++ WebhookAuth.hexdigest rawBody appSecret)) appSecret = .ok true := by
  rw [WebhookAuth.verifySignature_digest,
    if_neg (not_not.mpr (WebhookAuth.hexdigest_length rawBody appSecret)),
    (WebhookAuth.compareDigest_ascii (WebhookAuth.hexdigest_ascii rawBody appSecret)).mpr
      (WebhookAuth.hexdigest_ascii rawBody appSecret)]
  simp

def asciiDigits : Digits where
  value c := if c.isDigit then some (c.toNat - 48) else none
  ascii _ _ := rfl

def emptyBody : String := "\x7b\"object\":\"whatsapp_business_account\",\"entry\":[]\x7d"

def emptyObject : Json :=
  .object [("object", .str "whatsapp_business_account"), ("entry", .array [])]

def sampleEndpoint : Endpoint where
  appSecret := some "secret"
  expectedWabaId := none
  expectedPhoneNumberId := none
  ingress := some fun _ => .ok ⟨0, 0, 0, 0, 0⟩
  loads rawBody := if rawBody = WebhookAuth.encode emptyBody then .ok emptyObject
    else .error .jsonDecode
  laxInt j := match j with
    | .int n => some n
    | _ => none
  digits := asciiDigits

end Piki.Webhook
