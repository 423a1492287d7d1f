import Piki.Composition

/-! `integrations/buenpick` and `evidence/buenpick.py`: what a search returned and
the evidence it confirms. -/
namespace Piki
open Text

/-- A pick of a search response; columns that the evidence does not use are left out. -/
structure PickSummary where
  id : String
  title : String
  price : ℕ
  availableQuantity : ℕ
  commerceName : String
  deriving DecidableEq, Repr

structure PickSearchResponse where
  items : List PickSummary
  deriving DecidableEq, Repr

/-- The ways in which the client gives up on a request. -/
inductive BuenPickClientError
  | timedOut
  | requestFailed
  | httpStatus (statusCode : ℕ)
  | invalidResponse
  deriving DecidableEq, Repr

namespace BuenPickClientError

def code : BuenPickClientError → ToolErrorCode
  | timedOut => .timeout
  | requestFailed => .upstreamUnavailable
  | httpStatus statusCode =>
    if statusCode = 400 then .badRequest else if statusCode = 401 then .unauthorized
    else if statusCode = 404 then .notFound else if statusCode = 429 then .rateLimited
    else .upstreamUnavailable
  | invalidResponse => .internalError

def userSafeMessage : BuenPickClientError → String
  | timedOut => "No pude confirmar la informacion con BuenPick a tiempo."
  | requestFailed => "BuenPick no esta disponible en este momento."
  | httpStatus statusCode =>
    if statusCode = 400 then "La consulta enviada a BuenPick no es valida."
    else if statusCode = 401 then "No pude validar el acceso o la pertenencia del recurso."
    else if statusCode = 404 then "No pude confirmar que el recurso siga disponible."
    else if statusCode = 429 then
      "BuenPick esta recibiendo muchas consultas. Intenta nuevamente en breve."
    else "BuenPick no esta disponible en este momento."
  | invalidResponse => "BuenPick devolvio una respuesta que no pude validar."

/-- Every error the client raises can be shown to the person. -/
theorem userSafeMessage_bounded (e : BuenPickClientError) : Bounded 1 500 e.userSafeMessage := by
  cases e with
  | timedOut | requestFailed | invalidResponse => exact bounded_ofList (by decide)
  | httpStatus statusCode =>
    simp only [userSafeMessage]
    split_ifs <;> exact bounded_ofList (by decide)

end BuenPickClientError

/-- `search_available_picks` of the client for one query. -/
abbrev PickSearch := String → Except BuenPickClientError PickSearchResponse

section Money

/-- The 28 significant digits of the decimal context, rounded half to even. -/
def roundSignificant (n : ℕ) : ℕ :=
  let k := (Nat.digits 10 n).length - 28
  let unit := 10 ^ k
  let quotient := n / unit
  let twice := 2 * (n % unit)
  if unit < twice ∨ (twice = unit ∧ quotient % 2 = 1) then (quotient + 1) * unit
  else quotient * unit

/-- Digits in groups of three, separated by points. -/
def groupThousands (digits : List Char) : List Char :=
  (['.'].intercalate ((digits.reverse.toChunks 3).map List.reverse).reverse)

def formatArsCents (cents : ℕ) : String :=
  let amount := roundSignificant cents
  let decimals := (toString (amount % 100)).toList
  String.ofList (['$'] ++ groupThousands (toString (amount / 100)).toList ++ [','] ++
    List.replicate (2 - decimals.length) '0' ++ decimals)

example : formatArsCents 250000 = "$2.500,00" := by decide +kernel
example : formatArsCents 5 = "$0,05" := by decide +kernel

end Money

structure ToolEvidenceBundle where
  confirmedData : List EvidenceItem
  unavailableData : List String
  actionsPerformed : List PerformedAction
  deriving DecidableEq, Repr

namespace Evidence

def searchAction (outcome : ActionOutcome) : PerformedAction :=
  ⟨"search_available_picks", outcome, none, by decide, by decide⟩

def noAvailablePicks : EvidenceItem :=
  ⟨"search_availability", "BuenPick returned no available picks for this search.",
    .buenpickInternalApi, none, by decide, by decide, by decide⟩

def pickLabel (index : ℕ) : String := "available_pick_" ++ toString index

def pickValue (pick : PickSummary) : String :=
  "Title: " ++ pick.title ++ "; Commerce: " ++ pick.commerceName ++ "; Price ARS: " ++
    formatArsCents pick.price ++ "; Available quantity: " ++ toString pick.availableQuantity ++
    "; Status: available"

def pickEvidence (indexed : PickSummary × ℕ) : Except Failure EvidenceItem :=
  EvidenceItem.make (pickLabel indexed.2) (pickValue indexed.1) .buenpickInternalApi
    (some indexed.1.id)

def surprise (u : Unicode) (pick : PickSummary) : Bool :=
  contains (u.casefoldText pick.title.toList) "sorpresa".toList

/-- The evidence of a search that succeeded. -/
def responseEvidence (u : Unicode) (response : PickSearchResponse) :
    Except Failure ToolEvidenceBundle :=
  if response.items = [] then
    .ok ⟨[noAvailablePicks], [], [searchAction .succeeded]⟩
  else do
    let evidence ← (response.items.zipIdx 1).mapM pickEvidence
    let unavailable := if response.items.any (surprise u) then
        ["El contenido exacto de una bolsa sorpresa no está confirmado por BuenPick."] else []
    .ok ⟨evidence, unavailable, [searchAction .succeeded]⟩

def searchResultEvidence (u : Unicode) (result : ToolResult PickSearchResponse) :
    Except Failure ToolEvidenceBundle :=
  match result.success, result.data with
  | true, some response => responseEvidence u response
  | _, _ =>
    let unavailable := if truthy result.userSafeMessage then result.userSafeMessage.getD ""
      else "No se pudo confirmar la búsqueda en BuenPick."
    .ok ⟨[], [unavailable], [searchAction .failed]⟩

end Evidence

namespace BuenPickTools

/-- `_run` of a search: the typed error of the client becomes a failed result. -/
def searchAvailablePicks (search : PickSearch) (latencyMs : ℕ) (query traceId : String) :
    Except Failure (ToolResult PickSearchResponse) := do
  emit traceId "search_available_picks"
  let outcome := search query
  emit traceId "search_available_picks"
  if ht : Bounded 1 128 traceId then
    match outcome with
    | .ok data => .ok ⟨true, some data, none, none, latencyMs, traceId, by simp [AtMost], ht,
        fun _ => rfl, by simp, by simp⟩
    | .error e => .ok ⟨false, none, some e.code, some e.userSafeMessage, latencyMs, traceId,
        by simpa [AtMost] using e.userSafeMessage_bounded.2, ht, by simp, by simp, by
          have h := e.userSafeMessage_bounded.1
          simp only [truthy, Option.any_some, decide_eq_true_eq]
          intro _ he
          rw [he] at h
          exact absurd h (by decide)⟩
  else .error (.validation "ToolResult")

end BuenPickTools
end Piki
