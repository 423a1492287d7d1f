import Piki.Sha256
import Piki.Contracts

/-! `verify_challenge` and `verify_signature` of `integrations/meta/webhook.py`. Header
and token are texts of a caller that nothing has authenticated yet. -/
namespace Piki.WebhookAuth

def isAscii (s : String) : Bool := s.toList.all fun c => c.toNat < 128

/-- `hmac.compare_digest` on two strings. -/
def compareDigest (a b : String) : Except Failure Bool :=
  if isAscii a && isAscii b then .ok (decide (a = b))
  else .error (.type "comparing strings with non-ASCII characters is not supported")

def verifyChallenge (mode providedToken : Option String) (expectedToken : String) :
    Except Failure Bool :=
  match providedToken with
  | none => .ok false
  | some token =>
    if mode = some "subscribe" then compareDigest token expectedToken else .ok false

/-- `str.encode()`. -/
def encode (s : String) : List UInt8 := s.toUTF8.data.toList

/-- `hmac.new(…, hashlib.sha256).hexdigest()`. -/
def hexdigest (rawBody : List UInt8) (appSecret : String) : String :=
  String.ofList (Sha256.hex (Sha256.hmac (encode appSecret) rawBody))

def verifySignature (rawBody : List UInt8) (signatureHeader : Option String)
    (appSecret : String) : Except Failure Bool :=
  match signatureHeader with
  | none => .ok false
  | some header =>
    if "sha256=".toList <+: header.toList then
      let providedDigest := String.ofList (header.toList.drop 7)
      if providedDigest.length ≠ 64 then .ok false
      else compareDigest providedDigest (hexdigest rawBody appSecret)
    else .ok false

theorem hexdigest_length (rawBody : List UInt8) (appSecret : String) :
    (hexdigest rawBody appSecret).length = 64 := by
  rw [hexdigest, String.length_ofList, Sha256.hex_length, Sha256.hmac_length]

theorem hexdigest_ascii (rawBody : List UInt8) (appSecret : String) :
    isAscii (hexdigest rawBody appSecret) = true := by
  simp only [isAscii, hexdigest, String.toList_ofList, List.all_eq_true, decide_eq_true_eq]
  exact Sha256.hex_ascii _

theorem compareDigest_ascii {a b : String} (hb : isAscii b = true) :
    compareDigest a b = .ok (decide (a = b)) ↔ isAscii a = true := by
  unfold compareDigest
  cases isAscii a <;> simp [hb]

/-- What the header has to be. -/
def Signed (rawBody : List UInt8) (signatureHeader : Option String) (appSecret : String) : Prop :=
  signatureHeader = some ("sha256=" ++ hexdigest rawBody appSecret)

instance (rawBody : List UInt8) (signatureHeader : Option String) (appSecret : String) :
    Decidable (Signed rawBody signatureHeader appSecret) :=
  inferInstanceAs (Decidable (_ = _))

/-- A digest of the right length with a character that `compare_digest` refuses. -/
def Refused (signatureHeader : Option String) : Prop :=
  ∃ digest : String, signatureHeader = some ("sha256=" ++ digest) ∧ digest.length = 64 ∧
    isAscii digest = false

theorem header_split {header : String} (h : "sha256=".toList <+: header.toList) :
    header = "sha256=" ++ String.ofList (header.toList.drop 7) := by
  obtain ⟨rest, hrest⟩ := h
  apply String.toList_injective
  simp only [String.toList_append, String.toList_ofList, ← hrest]
  rfl

theorem sha256_append_inj {a b : String} : "sha256=" ++ a = "sha256=" ++ b ↔ a = b := by
  constructor
  · intro h
    have hl := congrArg String.toList h
    rw [String.toList_append, String.toList_append] at hl
    exact String.toList_injective (List.append_cancel_left hl)
  · rintro rfl
    rfl

theorem verifySignature_digest (rawBody : List UInt8) (digest appSecret : String) :
    verifySignature rawBody (some ("sha256=" ++ digest)) appSecret =
      if digest.length ≠ 64 then .ok false
      else compareDigest digest (hexdigest rawBody appSecret) := by
  have hp : "sha256=".toList <+: ("sha256=" ++ digest).toList := by
    rw [String.toList_append]
    exact List.prefix_append _ _
  have hd : String.ofList (("sha256=" ++ digest).toList.drop 7) = digest := by
    apply String.toList_injective
    simp only [String.toList_append, String.toList_ofList]
    rfl
  simp only [verifySignature, if_pos hp, hd]

/-- A header without the scheme is neither signed nor refused. -/
theorem verifySignature_other (rawBody : List UInt8) {header : String} (appSecret : String)
    (h : ¬ "sha256=".toList <+: header.toList) :
    verifySignature rawBody (some header) appSecret = .ok false ∧
      ∀ digest, header ≠ "sha256=" ++ digest := by
  refine ⟨by simp only [verifySignature, if_neg h], ?_⟩
  rintro digest rfl
  rw [String.toList_append] at h
  exact h (List.prefix_append _ _)

theorem verifySignature_exact_iff (rawBody : List UInt8) (signatureHeader : Option String)
    (appSecret : String) :
    verifySignature rawBody signatureHeader appSecret =
        .ok (decide (Signed rawBody signatureHeader appSecret)) ↔ ¬ Refused signatureHeader := by
  cases signatureHeader with
  | none => simp [verifySignature, Signed, Refused]
  | some header =>
    by_cases hp : "sha256=".toList <+: header.toList
    · rw [header_split hp]
      generalize String.ofList (header.toList.drop 7) = digest
      have hsigned : Signed rawBody (some ("sha256=" ++ digest)) appSecret ↔
          digest = hexdigest rawBody appSecret := by
        simp only [Signed, Option.some.injEq, sha256_append_inj]
      have hrefused : Refused (some ("sha256=" ++ digest)) ↔
          digest.length = 64 ∧ isAscii digest = false := by
        simp only [Refused, Option.some.injEq, sha256_append_inj]
        exact ⟨fun ⟨d, hd, h⟩ => hd ▸ h, fun h => ⟨digest, rfl, h⟩⟩
      rw [verifySignature_digest, hrefused, decide_eq_decide.mpr hsigned]
      split_ifs with hl
      · have hne : digest ≠ hexdigest rawBody appSecret := by
          rintro rfl
          exact hl (hexdigest_length _ _)
        simp [hl, hne]
      · rw [compareDigest_ascii (hexdigest_ascii _ _)]
        simp [not_not.mp hl]
    · obtain ⟨hv, hne⟩ := verifySignature_other rawBody appSecret hp
      have hs : ¬ Signed rawBody (some header) appSecret := fun h => hne _ (Option.some.inj h)
      have hr : ¬ Refused (some header) := fun ⟨d, hd, _⟩ => hne d (Option.some.inj hd)
      simp [hv, hs, hr]

theorem verifyChallenge_exact_iff (mode providedToken : Option String) {expectedToken : String}
    (h : isAscii expectedToken = true) :
    verifyChallenge mode providedToken expectedToken =
        .ok (decide (mode = some "subscribe" ∧ providedToken = some expectedToken)) ↔
      ¬ (mode = some "subscribe" ∧ ∃ token, providedToken = some token ∧ isAscii token = false) := by
  cases providedToken with
  | none => simp [verifyChallenge]
  | some token =>
    by_cases hm : mode = some "subscribe"
    · simp only [verifyChallenge, hm, if_true, true_and, Option.some.injEq, exists_eq_left']
      rw [compareDigest_ascii h]
      simp
    · simp [verifyChallenge, hm]

/-- Both checks decide exactly what they check, as long as `compare_digest` is not given
a text that it refuses. -/
theorem verification_exact_iff (rawBody : List UInt8)
    (signatureHeader mode providedToken : Option String) (appSecret : String)
    {expectedToken : String} (h : isAscii expectedToken = true) :
    (verifySignature rawBody signatureHeader appSecret =
        .ok (decide (Signed rawBody signatureHeader appSecret)) ↔ ¬ Refused signatureHeader) ∧
    (verifyChallenge mode providedToken expectedToken =
        .ok (decide (mode = some "subscribe" ∧ providedToken = some expectedToken)) ↔
      ¬ (mode = some "subscribe" ∧ ∃ token, providedToken = some token ∧ isAscii token = false)) :=
  ⟨verifySignature_exact_iff rawBody signatureHeader appSecret,
    verifyChallenge_exact_iff mode providedToken h⟩

theorem verification_exact_short :
    verifySignature [123, 125] (some "sha256=short") "secret" = .ok false ∧
      verifyChallenge (some "subscribe") (some "guess") "token" = .ok false := by
  obtain ⟨hs, hc⟩ := verification_exact_iff [123, 125] (some "sha256=short") (some "subscribe")
    (some "guess") "secret" (show isAscii "token" = true by decide)
  have hshort : ¬ Refused (some "sha256=short") := by
    rintro ⟨digest, hd, hl, -⟩
    have he : "sha256=".length + digest.length = "sha256=short".length := by
      rw [Option.some.inj hd, String.length_append]
    rw [hl] at he
    exact absurd he (by decide)
  have hsigned : ¬ Signed [123, 125] (some "sha256=short") "secret" := by
    intro h
    have he := congrArg String.length (Option.some.inj h)
    rw [String.length_append, hexdigest_length] at he
    exact absurd he (by decide)
  refine ⟨by rw [hs.mpr hshort, decide_eq_false hsigned], ?_⟩
  rw [hc.mpr (by simp; decide)]
  decide

set_option maxRecDepth 10000 in
/-- A header or a token with other characters raises instead. -/
theorem verification_raises :
    verifySignature [123, 125] (some ("sha256=" ++ String.ofList (List.replicate 64 'é'))) "secret" =
        .error (.type "comparing strings with non-ASCII characters is not supported") ∧
      verifyChallenge (some "subscribe") (some "señal") "token" =
        .error (.type "comparing strings with non-ASCII characters is not supported") := by
  refine ⟨?_, by decide⟩
  rw [verifySignature_digest]
  decide

end Piki.WebhookAuth
