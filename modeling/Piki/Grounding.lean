import Piki.Contracts
import Piki.Regex

/-! `composition/grounding.py`: which generated texts may be shown, and the factual
text that replaces a blocked one. -/
namespace Piki
open Text Regex

inductive GroundingFailure
  | empty
  | internalLeak
  | unsupportedHighRiskFact
  | unavailableContentClaim
  | internalReference
  | evidenceFreeCommercialClaim
  deriving DecidableEq, Repr

structure GroundingResult where
  safe : Bool
  text : Option String
  failures : List GroundingFailure
  safe_shape : safe = (text.isSome && failures.isEmpty)
  blocked_shape : safe = false → failures ≠ []
  deriving DecidableEq, Repr

namespace Grounding
section Patterns
variable (u : Unicode)

def digit : Expr := .set u.isDecimal
def space : Expr := .set isSpace
def word : Expr := .set u.isWord
def oneOf (cs : List Char) : Expr := .set fun x => decide (x ∈ cs)

/-- A character class under `re.IGNORECASE`. -/
def folded (cs : List Char) : Expr := .set fun x => decide (u.reFold x ∈ cs.map u.reFold)

def foldedText (s : String) : Expr := seqs (s.toList.map fun c => folded u [c])

def url : Expr :=
  seqs [foldedText u "http", optional (folded u ['s']), foldedText u "://",
    plus (.set fun x => !(isSpace x || decide (x ∈ ['<', '>', '"', '\'']))) ]

def price : Expr :=
  seqs [optional (seqs [foldedText u "ARS", .many true space]), oneOf ['$'], .many true space,
    digit u, .many false (.set fun x => u.isDecimal x || decide (x = '.')),
    optional (seqs [oneOf [','], digit u, optional (digit u)]),
    .ahead (.alt space (.alt .atEnd (oneOf [')', '.', ',', ';', ':', '!', '?'])))]

def clock : Expr :=
  seqs [.wordBoundary,
    .alt (seqs [oneOf ['0', '1'], digit u]) (seqs [oneOf ['2'], oneOf ['0', '1', '2', '3']]),
    oneOf [':'], oneOf ['0', '1', '2', '3', '4', '5'], digit u, .wordBoundary]

/-- A separator and the digits after it. -/
def group : Expr := .seq (oneOf ['.', ',']) (plus (digit u))

def number : Expr :=
  .seq .wordBoundary (.seq (plus (digit u)) (.seq (.many true (group u)) .wordBoundary))

/-- `_HIGH_RISK_PATTERNS`. -/
def highRiskPatterns : List Expr := [url u, price u, clock u, number u]

/-- `_CONTENT_CLAIM`. -/
def contentClaim : Expr :=
  seqs [.wordBoundary,
    .alt (foldedText u "incluye") (.alt (foldedText u "contiene") (.alt (foldedText u "trae")
      (.alt (seqs [foldedText u "viene", plus space, foldedText u "con"])
        (seqs [foldedText u "est", folded u ['á', 'a'], plus space, foldedText u "compuest",
          folded u ['o', 'a']])))),
    .wordBoundary]

/-- Up to `n` further words. -/
def words (n : ℕ) : Expr := .upTo n (.seq (plus space) (plus (word u)))

def found : Expr := .seq (foldedText u "encontr") (folded u ['e', 'é'])

/-- `_EVIDENCE_FREE_AVAILABILITY`. -/
def evidenceFreeAvailability : Expr :=
  seqs [.wordBoundary,
    .alt
      (seqs [foldedText u "no", plus space,
        .alt (foldedText u "tengo") (.alt (foldedText u "hay") (found u)), words u 3, plus space,
        .alt (foldedText u "rescate") (.alt (foldedText u "pick")
          (seqs [foldedText u "opci", folded u ['o', 'ó'], foldedText u "n"]))])
      (seqs [.alt (foldedText u "hay") (found u), words u 5, plus space,
        .alt (seqs [foldedText u "disponible", optional (folded u ['s'])])
          (seqs [foldedText u "para", plus space, foldedText u "rescatar"])]),
    .wordBoundary]

/-- `_INTERNAL_PATTERNS`. -/
def internalPatterns : List String :=
  ["DATOS CONFIRMADOS", "DATOS NO DISPONIBLES", "ACCIONES REALIZADAS", "REGLAS DE REDACCIÓN",
    "SYSTEM PROMPT", "TRACE_ID", "BUENPICK_INTERNAL_API", "<TOOLS>", "TOOL_RESULT"]

/-- `_normalized`. -/
def normalized (s : List Char) : List Char := collapse (u.casefoldText s)

def leaksInternals (s : List Char) : Bool :=
  internalPatterns.any fun p => contains (u.upperText s) p.toList

/-- `_safe_fallback_value`. -/
def safeFallbackValue (value : String) : String :=
  let compact := collapse value.toList
  if leaksInternals u compact then "[dato omitido por seguridad]" else String.ofList compact

/-- `"\n".join`. -/
def joinLines (lines : List String) : List Char := ['\n'].intercalate (lines.map String.toList)

def fromApi (item : EvidenceItem) : Bool :=
  decide (item.source = .buenpickInternalApi)

def evidenceCorpus (packet : ContextPacket) : List Char :=
  normalized u (joinLines (packet.confirmedData.map EvidenceItem.value))

/-- The text that is looked up in the evidence for a match of a high-risk pattern. -/
def riskToken (matched : List Char) : List Char :=
  normalized u (rstripBy (fun c => decide (c ∈ ['.', ',', ';', ':', '!', '?', ')'])) matched)

def supported (corpus matched : List Char) : Bool :=
  riskToken u matched == [] || contains corpus (riskToken u matched)

/-- Which checks the stripped candidate fails. -/
def fails (candidate : List Char) (packet : ContextPacket) : GroundingFailure → Bool
  | .empty => candidate == []
  | .internalLeak => leaksInternals u candidate
  | .evidenceFreeCommercialClaim =>
    !(packet.confirmedData.any fromApi) &&
      search u.isWord (evidenceFreeAvailability u) candidate
  | .unsupportedHighRiskFact =>
    (highRiskPatterns u).any fun pattern =>
      (findIter u.isWord pattern candidate).any fun matched =>
        !supported u (evidenceCorpus u packet) matched
  | .unavailableContentClaim =>
    contains (normalized u (joinLines packet.unavailableData)) "contenido".toList &&
      search u.isWord (contentClaim u) candidate
  | .internalReference =>
    packet.confirmedData.any fun item =>
      item.sourceReference.any fun reference =>
        decide (reference ≠ "") &&
          contains (normalized u candidate) (normalized u reference.toList) &&
          !contains (evidenceCorpus u packet) (normalized u reference.toList)

/-- Failures in the order of their values. -/
def failureOrder : List GroundingFailure :=
  [.empty, .evidenceFreeCommercialClaim, .internalLeak, .internalReference,
    .unavailableContentClaim, .unsupportedHighRiskFact]

def validate (text : String) (packet : ContextPacket) : GroundingResult :=
  let candidate := strip text.toList
  let failures := failureOrder.filter (fails u candidate packet)
  if h : failures = [] then ⟨true, some (String.ofList candidate), [], rfl, by simp⟩
  else ⟨false, none, failures, rfl, fun _ => h⟩

def factualFallback (packet : ContextPacket) : String :=
  match packet.confirmedData.filter fromApi with
  | [] =>
    if packet.responseMode = .nonCommercialLlm then
      "Soy Piki, el asistente de BuenPick. Te ayudo a descubrir alimentos " ++
        "para rescatar y a consultar información confirmada por BuenPick."
    else
      "No pude confirmar la información necesaria en este momento. " ++
        "Probemos de nuevo en un rato."
  | item :: items =>
    let lines := "Esto es lo que pude confirmar:" ::
      ((item :: items).take 8).map fun e =>
        "- " ++ safeFallbackValue u e.label ++ ": " ++ safeFallbackValue u e.value
    let closing := if packet.unavailableData = [] then []
      else ["Hay datos que todavía no pude confirmar."]
    String.ofList ((joinLines (lines ++ closing)).take 4096)

end Patterns

section Lemmas
variable {u : Unicode}

/-- A text that no check fails is returned stripped; any other is blocked. -/
theorem validate_cases (u : Unicode) (text : String) (packet : ContextPacket) :
    ((validate u text packet).safe = true ∧ strip text.toList ≠ [] ∧
        (validate u text packet).text = some (String.ofList (strip text.toList))) ∨
      ((validate u text packet).safe = false ∧ (validate u text packet).text = none) := by
  by_cases h : failureOrder.filter (fails u (strip text.toList) packet) = []
  · left
    have hne : ¬ fails u (strip text.toList) packet .empty = true :=
      List.filter_eq_nil_iff.mp h _ (by decide)
    have hv : validate u text packet =
        ⟨true, some (String.ofList (strip text.toList)), [], rfl, by simp⟩ := by
      simp only [validate, h, dif_pos]
    rw [hv]
    exact ⟨rfl, by simpa [fails] using hne, rfl⟩
  · right
    simp [validate, h]

/-- The validated text passes the same validation again. -/
theorem validate_strip (text : String) (packet : ContextPacket) :
    validate u (String.ofList (strip text.toList)) packet = validate u text packet := by
  simp only [validate, String.toList_ofList, strip_strip]

theorem strip_bounded {text : String} (hne : strip text.toList ≠ []) (h : text.length ≤ 4096) :
    Bounded 1 4096 (String.ofList (strip text.toList)) := by
  have hlen := strip_length_le text.toList
  have hpos := List.length_pos_iff.mpr hne
  rw [String.length_toList] at hlen
  simp only [Bounded, String.length_ofList]
  omega

theorem joinLines_cons (line : String) (lines : List String) :
    ∃ rest, joinLines (line :: lines) = line.toList ++ rest := by
  cases lines with
  | nil => exact ⟨[], by simp [joinLines, List.intercalate]⟩
  | cons next lines => exact ⟨_, by simp [joinLines, List.intercalate]; rfl⟩

theorem factualFallback_bounded (packet : ContextPacket) :
    Bounded 1 4096 (factualFallback u packet) := by
  unfold factualFallback
  cases packet.confirmedData.filter fromApi with
  | nil =>
    simp only
    split_ifs <;>
      exact Bounded.mono (by decide) (by decide) ((bounded_chars _).append (bounded_chars _))
  | cons item items =>
    simp only [Bounded, String.length_ofList, List.length_take, List.cons_append]
    obtain ⟨rest, hrest⟩ := joinLines_cons "Esto es lo que pude confirmar:"
      ((((item :: items).take 8).map fun e =>
        "- " ++ safeFallbackValue u e.label ++ ": " ++ safeFallbackValue u e.value) ++
        if packet.unavailableData = [] then [] else ["Hay datos que todavía no pude confirmar."])
    rw [hrest, List.length_append]
    have hfirst : 0 < "Esto es lo que pude confirmar:".toList.length := by decide
    omega

end Lemmas
end Grounding
end Piki
