import Piki.Evidence
import Piki.Retrying

/-! `BuenPickClient.get_customer_order` of `integrations/buenpick/client.py`: the
ownership proof that an order lookup carries. -/
namespace Piki
open Text

namespace BuenPickClient

/-- What became of a GET. A response has a status and, if its JSON is valid for the
model of the call, the parsed model. -/
inductive GetOutcome (α : Type)
  | timeout
  | requestError
  | response (statusCode : ℕ) (body : Option α)
  deriving DecidableEq, Repr

structure GetRequest where
  path : String
  params : List (String × String)
  deriving DecidableEq, Repr

/-- What a call asked for, request by request, and what it returned or raised. -/
structure Call (ε α : Type) where
  requests : List GetRequest
  result : Except ε α
  deriving DecidableEq, Repr

def hexDigit (n : ℕ) : Char := ("0123456789ABCDEF".toList[n]?).getD '0'

/-- The bytes that `quote(..., safe='')` leaves as they are. -/
def unreserved (b : UInt8) : Bool :=
  let c := Char.ofNat b.toNat
  c.isAlphanum || c ∈ ['_', '.', '-', '~']

/-- `urllib.parse.quote` with an empty `safe`. -/
def quote (s : String) : String :=
  String.ofList (s.toUTF8.toList.flatMap fun b =>
    if unreserved b then [Char.ofNat b.toNat]
    else ['%', hexDigit (b.toNat / 16), hexDigit (b.toNat % 16)])

section
variable {α : Type}

def retryable : GetOutcome α → Bool
  | .timeout => true
  | .requestError => false
  | .response statusCode _ => decide (statusCode ∈ [429, 500, 503])

/-- How the loop of `_request` ends on a reply that is not retried. -/
def settle : GetOutcome α → Except BuenPickClientError α
  | .timeout => .error .timedOut
  | .requestError => .error .requestFailed
  | .response statusCode body =>
    if 400 ≤ statusCode ∧ statusCode ≤ 599 then .error (.httpStatus statusCode)
    else match body with
      | some model => .ok model
      | none => .error .invalidResponse

/-- The constructor refuses `max_attempts < 1`. -/
structure Settings where
  maxAttempts : ℕ
  positive : 0 < maxAttempts

/-- What a call of the client raises: its own refusal, an error of the exchange, or
the assertion after the loop. -/
inductive Raised
  | ownership
  | client (e : BuenPickClientError)
  | exhausted
  deriving DecidableEq, Repr

def Raised.code : Raised → Option ToolErrorCode
  | .ownership => some .badRequest
  | .client e => some e.code
  | .exhausted => none

def Raised.userSafeMessage : Raised → Option String
  | .ownership => some "La orden requiere una unica prueba de pertenencia."
  | .client e => some e.userSafeMessage
  | .exhausted => none

/-- `_request`: attempt `i` gets the reply `transport i`. -/
def request (settings : Settings) (transport : ℕ → GetOutcome α) (get : GetRequest) :
    Call Raised α :=
  let run := Retrying.loop retryable transport 1 settings.maxAttempts
  ⟨List.replicate run.1 get, match run.2 with
    | some outcome => (settle outcome).mapError .client
    | none => .error .exhausted⟩

/-- `str.strip`. -/
def stripped (s : String) : String := String.ofList (strip s.toList)

/-- `bool(s and s.strip())`. -/
def provided (s : Option String) : Bool := s.any fun t => t ≠ "" && stripped t ≠ ""

/-- The proof is chosen by the raw text of the phone, not by its stripped text. -/
def ownershipParams (customerPhone customerReference : Option String) : List (String × String) :=
  if truthy customerPhone then [("customer_phone", stripped (customerPhone.getD ""))]
  else [("customer_reference", stripped (customerReference.getD ""))]

def getCustomerOrder (settings : Settings) (transport : ℕ → GetOutcome α) (orderId : String)
    (customerPhone customerReference : Option String) : Call Raised α :=
  if (provided customerPhone).toNat + (provided customerReference).toNat ≠ 1 then
    ⟨[], .error .ownership⟩
  else request settings transport
    ⟨"orders/" ++ quote orderId, ownershipParams customerPhone customerReference⟩

/-- The arguments that may prove the ownership, by the names of their parameters. -/
def proofs (customerPhone customerReference : Option String) : List (String × Option String) :=
  [("customer_phone", customerPhone), ("customer_reference", customerReference)]

/-- The argument is there and is not blank. -/
def NonBlank (s : Option String) : Prop := ∃ t, s = some t ∧ stripped t ≠ ""

instance (s : Option String) : Decidable (NonBlank s) :=
  match s with
  | none => isFalse (by rintro ⟨t, h, -⟩; cases h)
  | some t => decidable_of_iff (stripped t ≠ "") ⟨fun h => ⟨t, rfl, h⟩, by
      rintro ⟨_, he, h⟩
      cases he
      exact h⟩

def nonBlankCount (customerPhone customerReference : Option String) : ℕ :=
  (proofs customerPhone customerReference).countP fun p => decide (NonBlank p.2)

/-- The call asks nothing and reports a bad request, or asks with the stripped text of
the one argument that is not blank. -/
structure OneProof (customerPhone customerReference : Option String) (call : Call Raised α) :
    Prop where
  silent_iff : call.requests = [] ↔ nonBlankCount customerPhone customerReference ≠ 1
  refused : call.requests = [] → ∃ e, call.result = .error e ∧ e.code = some .badRequest
  proven : ∀ get ∈ call.requests, ∃ name text,
    (name, some text) ∈ proofs customerPhone customerReference ∧ stripped text ≠ "" ∧
      get.params = [(name, stripped text)]

/-- The phone is not there, is empty, or is not blank; or there is no reference. -/
def PhoneDecides (customerPhone customerReference : Option String) : Prop :=
  truthy customerPhone = true → NonBlank customerReference → NonBlank customerPhone

theorem stripped_empty : stripped "" = "" := rfl

theorem provided_iff {s : Option String} : provided s = true ↔ NonBlank s := by
  cases s with
  | none => simp [provided, NonBlank]
  | some t =>
    simp only [provided, NonBlank, Option.any_some, Bool.and_eq_true, decide_eq_true_eq,
      Option.some.injEq]
    constructor
    · rintro ⟨-, h⟩
      exact ⟨t, rfl, h⟩
    · rintro ⟨_, rfl, h⟩
      refine ⟨?_, h⟩
      rintro rfl
      exact h stripped_empty

theorem provided_count (customerPhone customerReference : Option String) :
    (provided customerPhone).toNat + (provided customerReference).toNat =
      nonBlankCount customerPhone customerReference := by
  have hbool : ∀ s, provided s = decide (NonBlank s) := by
    intro s
    rw [Bool.eq_iff_iff, provided_iff, decide_eq_true_eq]
  simp only [hbool, nonBlankCount, proofs, List.countP_cons, List.countP_nil]
  by_cases hp : NonBlank customerPhone <;> by_cases hr : NonBlank customerReference <;>
    simp [hp, hr]

theorem request_requests (settings : Settings) (transport : ℕ → GetOutcome α) (get : GetRequest) :
    ∃ n, 0 < n ∧ (request settings transport get).requests = List.replicate n get := by
  obtain ⟨_, -, hpos⟩ := Retrying.loop_ends retryable transport 1 settings.positive
  exact ⟨_, hpos, rfl⟩

/-- The parameters are right when the raw text of the phone decides as its stripped
text does. -/
theorem ownershipParams_iff {customerPhone customerReference : Option String}
    (h : nonBlankCount customerPhone customerReference = 1) :
    (∃ name text, (name, some text) ∈ proofs customerPhone customerReference ∧
        stripped text ≠ "" ∧
        ownershipParams customerPhone customerReference = [(name, stripped text)]) ↔
      PhoneDecides customerPhone customerReference := by
  unfold PhoneDecides ownershipParams
  by_cases ht : truthy customerPhone = true
  · obtain ⟨phone, rfl⟩ : ∃ phone, customerPhone = some phone := by
      cases customerPhone with
      | none => cases ht
      | some phone => exact ⟨phone, rfl⟩
    simp only [ht, if_true, Option.getD_some, forall_const]
    constructor
    · rintro ⟨name, text, -, hne, hparams⟩ -
      have hsame : stripped phone = stripped text := by
        simpa using congrArg (List.map Prod.snd) hparams
      exact ⟨phone, rfl, hsame ▸ hne⟩
    · intro hdecides
      have hphone : NonBlank (some phone) := by
        by_contra hblank
        have href : ¬ NonBlank customerReference := fun hr => hblank (hdecides hr)
        simp [nonBlankCount, proofs, hblank, href] at h
      obtain ⟨_, he, hne⟩ := hphone
      cases he
      exact ⟨"customer_phone", phone, by simp [proofs], hne, rfl⟩
  · simp only [ht, Bool.false_eq_true, if_false, false_implies, iff_true]
    have hblank : ¬ NonBlank customerPhone := by
      rintro ⟨phone, rfl, hne⟩
      apply hne
      simp only [truthy, Option.any_some, decide_eq_true_eq, not_not] at ht
      rw [ht, stripped_empty]
    have href : NonBlank customerReference := by
      by_contra hno
      simp [nonBlankCount, proofs, hblank, hno] at h
    obtain ⟨reference, rfl, hne⟩ := href
    exact ⟨"customer_reference", reference, by simp [proofs], hne, rfl⟩

/-- An order lookup carries exactly one real ownership proof if and only if the phone
is not a blank text beside a reference. -/
theorem order_lookup_proven_iff (settings : Settings) (transport : ℕ → GetOutcome α)
    (orderId : String) (customerPhone customerReference : Option String) :
    OneProof customerPhone customerReference
        (getCustomerOrder settings transport orderId customerPhone customerReference) ↔
      PhoneDecides customerPhone customerReference := by
  unfold getCustomerOrder
  rw [provided_count]
  split_ifs with hcount
  · refine iff_of_true ⟨by simp [hcount], fun _ => ⟨_, rfl, rfl⟩, by simp⟩ ?_
    intro ht href
    by_contra hblank
    exact hcount (by simp [nonBlankCount, proofs, hblank, href])
  · rw [not_not] at hcount
    obtain ⟨n, hpos, hrequests⟩ := request_requests settings transport
      ⟨"orders/" ++ quote orderId, ownershipParams customerPhone customerReference⟩
    have hne : List.replicate n (GetRequest.mk ("orders/" ++ quote orderId)
        (ownershipParams customerPhone customerReference)) ≠ [] := by
      simp only [ne_eq, List.replicate_eq_nil_iff]
      omega
    rw [← ownershipParams_iff hcount]
    constructor
    · rintro ⟨-, -, hproven⟩
      rw [hrequests] at hproven
      exact hproven _ (List.mem_replicate.mpr ⟨by omega, rfl⟩)
    · intro hproven
      rw [← hrequests] at hne
      refine ⟨by simp [hne, hcount], fun hnil => absurd hnil hne, ?_⟩
      intro get hget
      rw [hrequests] at hget
      rw [List.eq_of_mem_replicate hget]
      exact hproven

end

/-- The provider finds the order at once. -/
def orderFound (_ : ℕ) : GetOutcome String := .response 200 (some "order-1")

def blankPhoneCall : Call Raised String :=
  getCustomerOrder ⟨3, by decide +kernel⟩ orderFound "order-1" (some " ") (some "user-1")

/-- A blank phone beside a reference is sent as an empty proof. -/
theorem blank_phone_sent_empty :
    blankPhoneCall.requests = [⟨"orders/order-1", [("customer_phone", "")]⟩] ∧
      ¬ OneProof (some " ") (some "user-1") blankPhoneCall := by
  have hrequests : blankPhoneCall.requests = [⟨"orders/order-1", [("customer_phone", "")]⟩] := by
    with_unfolding_all rfl
  refine ⟨hrequests, ?_⟩
  rintro ⟨-, -, hproven⟩
  rw [hrequests] at hproven
  obtain ⟨name, text, -, hne, hparams⟩ := hproven _ List.mem_cons_self
  have hempty : "" = stripped text := by simpa using congrArg (List.map Prod.snd) hparams
  exact hne hempty.symm

end BuenPickClient
end Piki
