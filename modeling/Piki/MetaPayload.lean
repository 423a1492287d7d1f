import Piki.Webhook

/-! The payload models of `integrations/meta/webhook.py` on parsed JSON, and the
conversion of a timestamp. Fields the models do not name are ignored. -/
namespace Piki

/-- What `json.loads` returns. A string with a lone surrogate is one that no `str` field
takes. -/
inductive Json
  | null
  | bool (b : Bool)
  | int (n : ℤ)
  | float (text : String)
  | str (s : String)
  | surrogates
  | array (items : List Json)
  | object (fields : List (String × Json))

namespace Json

def get (key : String) : Json → Option Json
  | .object fields => fields.lookup key
  | _ => none

def isDict : Json → Bool
  | .object _ => true
  | _ => false

def asStr : Json → Option String
  | .str s => some s
  | _ => none

def asTuple {α : Type} (item : Json → Option α) : Json → Option (List α)
  | .array items => items.mapM item
  | _ => none

def required {α : Type} (key : String) (value : Json → Option α) (j : Json) : Option α :=
  (j.get key).bind value

/-- A field of type `… | None` whose default is `None`. -/
def optional {α : Type} (key : String) (value : Json → Option α) (j : Json) : Option (Option α) :=
  match j.get key with
  | none | some .null => some none
  | some v => (value v).map some

/-- A tuple field whose default is empty. -/
def tuple {α : Type} (key : String) (item : Json → Option α) (j : Json) : Option (List α) :=
  match j.get key with
  | none => some []
  | some v => asTuple item v

def literal (key value : String) (j : Json) : Option Unit :=
  if (j.get key).bind asStr = some value then some () else none

end Json

namespace Webhook
open Json

def metaText (j : Json) : Option String := required "body" asStr j

def metaImage (j : Json) : Option MetaImage := do
  let id ← required "id" asStr j
  let mimeType ← optional "mime_type" asStr j
  let sha256 ← optional "sha256" asStr j
  let caption ← optional "caption" asStr j
  some ⟨id, mimeType, sha256, caption⟩

def metaReply (j : Json) : Option MetaReply := do
  let id ← required "id" asStr j
  let title ← required "title" asStr j
  let _ ← optional "description" asStr j
  some ⟨id, title⟩

def metaInteractive (j : Json) : Option MetaInteractive := do
  let type ← required "type" asStr j
  let buttonReply ← optional "button_reply" metaReply j
  let listReply ← optional "list_reply" metaReply j
  some ⟨type, buttonReply, listReply⟩

def metaMessage (j : Json) : Option MetaMessage := do
  let id ← required "id" asStr j
  let sender ← required "from" asStr j
  let timestamp ← required "timestamp" asStr j
  let type ← required "type" asStr j
  let text ← optional "text" metaText j
  let image ← optional "image" metaImage j
  let interactive ← optional "interactive" metaInteractive j
  some ⟨id, sender, timestamp, type, text, image, interactive⟩

/-- The lax conversion of the validation library to an `int` field. -/
abbrev LaxInt := Json → Option ℤ

def metaErrorData (j : Json) : Option (Option String) :=
  if j.isDict then optional "details" asStr j else none

def metaStatusError (laxInt : LaxInt) (j : Json) : Option MetaStatusError := do
  let code ← required "code" laxInt j
  let title ← optional "title" asStr j
  let message ← optional "message" asStr j
  let errorData ← optional "error_data" metaErrorData j
  some ⟨code, title, message, errorData.join⟩

def metaStatusName (j : Json) : Option MetaStatusName :=
  match j with
  | .str "sent" => some .sent
  | .str "delivered" => some .delivered
  | .str "read" => some .read
  | .str "failed" => some .failed
  | _ => none

def metaStatus (laxInt : LaxInt) (j : Json) : Option MetaStatus := do
  let id ← required "id" asStr j
  let status ← required "status" metaStatusName j
  let timestamp ← required "timestamp" asStr j
  let recipientId ← required "recipient_id" asStr j
  let errors ← tuple "errors" (metaStatusError laxInt) j
  some ⟨id, status, timestamp, recipientId, errors⟩

/-- The phone number id of the metadata. -/
def metaMetadata (j : Json) : Option String := do
  let _ ← required "display_phone_number" asStr j
  required "phone_number_id" asStr j

def metaValue (laxInt : LaxInt) (j : Json) : Option MetaChange := do
  literal "messaging_product" "whatsapp" j
  let phoneNumberId ← required "metadata" metaMetadata j
  let messages ← tuple "messages" metaMessage j
  let statuses ← tuple "statuses" (metaStatus laxInt) j
  some ⟨phoneNumberId, messages, statuses⟩

def metaChange (laxInt : LaxInt) (j : Json) : Option MetaChange := do
  literal "field" "messages" j
  required "value" (metaValue laxInt) j

def metaEntry (laxInt : LaxInt) (j : Json) : Option MetaEntry := do
  let id ← required "id" asStr j
  let changes ← required "changes" (asTuple (metaChange laxInt)) j
  some ⟨id, changes⟩

/-- `MetaWebhookPayload.model_validate`; `none` is its `ValidationError`. -/
def modelValidate (laxInt : LaxInt) (j : Json) : Option MetaWebhookPayload := do
  literal "object" "whatsapp_business_account" j
  required "entry" (asTuple (metaEntry laxInt)) j

/-- The values of the decimal digits of the interpreter's Unicode version. -/
structure Digits where
  value : Char → Option ℕ
  ascii : ∀ c, c.toNat < 128 → value c = if c.isDigit then some (c.toNat - 48) else none

/-- Digits with single underscores between them. -/
def readDigits (digits : Digits) : List Char → Option (List ℕ)
  | [] => none
  | [c] => (digits.value c).map fun d => [d]
  | c :: '_' :: cs => (digits.value c).bind fun d => (readDigits digits cs).map (d :: ·)
  | c :: cs => (digits.value c).bind fun d => (readDigits digits cs).map (d :: ·)

/-- The digits of a number, of which the interpreter converts at most 4300. -/
def readNumber (digits : Digits) (s : List Char) : Option ℕ :=
  (readDigits digits s).bind fun ds =>
    if ds.length ≤ 4300 then some (ds.foldl (fun n d => 10 * n + d) 0) else none

/-- `int` of a text; `none` is its `ValueError`. -/
def int (digits : Digits) (s : String) : Option ℤ :=
  match Text.strip s.toList with
  | '-' :: cs => (readNumber digits cs).map fun n => -(n : ℤ)
  | '+' :: cs => (readNumber digits cs).map fun n => (n : ℤ)
  | cs => (readNumber digits cs).map fun n => (n : ℤ)

/-- `datetime.fromtimestamp(…, tz=UTC)` of an integer: outside 64 bits, outside the years
that `gmtime` represents, and outside the years that `datetime` represents it raises. -/
def fromTimestamp (n : ℤ) : Except Failure Time :=
  if n < -2 ^ 63 ∨ 2 ^ 63 ≤ n then
    .error (.overflow "timestamp out of range for platform time_t")
  else if n < -67768040609740800 ∨ 67768036191676799 < n then
    .error (.os "Value too large for defined data type")
  else if n < -62135596800 ∨ 253402300799 < n then .error (.value "year is out of range")
  else .ok (n * 1000000)

/-- `_timestamp`. -/
def timestamp (digits : Digits) : Timestamp := fun value =>
  match int digits value with
  | none => .error (.webhook "invalid Meta timestamp")
  | some n =>
    match fromTimestamp n with
    | .error (.value _) | .error (.os _) => .error (.webhook "invalid Meta timestamp")
    | r => r

/-- `normalize_webhook`. -/
def normalizeObject (digits : Digits) (laxInt : LaxInt)
    (expectedWabaId expectedPhoneNumberId : Option String) (payload : Json) :
    Except Failure MetaWebhookEvents :=
  match modelValidate laxInt payload with
  | none => .error (.webhook "invalid Meta webhook payload")
  | some parsed =>
    normalizeWebhook (timestamp digits) expectedWabaId expectedPhoneNumberId parsed

/-- The text is an integer that does not fit 64 bits. -/
def TooLarge (digits : Digits) (value : String) : Prop :=
  ∃ n, int digits value = some n ∧ (n < -2 ^ 63 ∨ 2 ^ 63 ≤ n)

end Webhook
end Piki
