import Piki.Answers

/-! `order_result_evidence` of `evidence/buenpick.py`, and when the evidence of what
BuenPick returned can be built: the models of the API bound no text, the evidence
items do. -/
namespace Piki
open Text ConversationOrchestrator

inductive FulfillmentType
  | pickup
  | delivery
  deriving DecidableEq, Repr

def FulfillmentType.value : FulfillmentType → String
  | .pickup => "pickup"
  | .delivery => "delivery"

structure OrderPick where
  title : String
  quantity : ℕ
  lineTotal : ℕ
  quantity_pos : 0 < quantity
  deriving DecidableEq, Repr

structure OrderFulfillment where
  type : FulfillmentType
  pickupCode : Option String
  deriving DecidableEq, Repr

structure OrderPickup where
  instructions : Option String
  storeAddress : String
  deriving DecidableEq, Repr

/-- An order of the API; columns that the evidence does not use are left out. -/
structure CustomerOrder where
  id : String
  status : String
  commerceName : String
  picks : List OrderPick
  total : ℕ
  fulfillment : OrderFulfillment
  pickup : OrderPickup
  deriving DecidableEq, Repr

namespace Evidence

def orderAction (outcome : ActionOutcome) : PerformedAction :=
  ⟨"get_customer_order", outcome, none, by decide, noReference_bounded⟩

/-- Label and value of an item of evidence. -/
abbrev Fact := String × String

def orderPickFact (indexed : OrderPick × ℕ) : Fact :=
  ("order_pick_" ++ toString indexed.2,
    "Title: " ++ indexed.1.title ++ "; Quantity: " ++ toString indexed.1.quantity ++
      "; Line total ARS: " ++ formatArsCents indexed.1.lineTotal)

/-- A fact that is stated only where the order has a non-empty text for it. -/
def optionalFact (label : String) (value : Option String) : List Fact :=
  if truthy value then [(label, value.getD "")] else []

def orderFacts (order : CustomerOrder) : List Fact :=
  [("order_status", order.status), ("order_commerce", order.commerceName),
    ("order_total_ars", formatArsCents order.total),
    ("fulfillment_type", order.fulfillment.type.value)] ++
  (order.picks.zipIdx 1).map orderPickFact ++
  optionalFact "pickup_code" order.fulfillment.pickupCode ++
  optionalFact "pickup_instructions" order.pickup.instructions ++
  [("pickup_store_address", order.pickup.storeAddress)]

def factEvidence (reference : String) (fact : Fact) : Except Failure EvidenceItem :=
  EvidenceItem.make fact.1 fact.2 .buenpickInternalApi (some reference)

/-- The evidence of an order that was found. -/
def orderEvidence (order : CustomerOrder) : Except Failure ToolEvidenceBundle := do
  let evidence ← (orderFacts order).mapM (factEvidence order.id)
  .ok ⟨evidence, [], [orderAction .succeeded]⟩

def orderResultEvidence (result : ToolResult CustomerOrder) : Except Failure ToolEvidenceBundle :=
  match result.success, result.data with
  | true, some order => orderEvidence order
  | _, _ =>
    let unavailable := if truthy result.userSafeMessage then result.userSafeMessage.getD ""
      else "No se pudo confirmar una orden perteneciente a esta persona."
    .ok ⟨[], [unavailable], [orderAction .failed]⟩

/-- The picks of a response fit their items of evidence. -/
structure ResponseFits (response : PickSearchResponse) : Prop where
  count : response.items.length < 10 ^ 85
  id : ∀ pick ∈ response.items, pick.id.length ≤ 255
  text : ∀ pick ∈ response.items, pick.title.length + pick.commerceName.length +
    (formatArsCents pick.price).length + (toString pick.availableQuantity).length ≤ 1927

/-- An order fits its items of evidence. -/
structure OrderFits (order : CustomerOrder) : Prop where
  id : order.id.length ≤ 255
  status : Bounded 1 2000 order.status
  commerce : Bounded 1 2000 order.commerceName
  total : (formatArsCents order.total).length ≤ 2000
  count : order.picks.length < 10 ^ 89
  text : ∀ pick ∈ order.picks, pick.title.length + (toString pick.quantity).length +
    (formatArsCents pick.lineTotal).length ≤ 1963
  pickupCode : AtMost 2000 order.fulfillment.pickupCode
  instructions : AtMost 2000 order.pickup.instructions
  storeAddress : Bounded 1 2000 order.pickup.storeAddress

theorem mem_zipIdx_from {α : Type} {xs : List α} {x : α} {i : ℕ} (h : (x, i) ∈ xs.zipIdx 1) :
    x ∈ xs ∧ 1 ≤ i ∧ i ≤ xs.length := by
  obtain ⟨hlo, hhi, he⟩ := List.mem_zipIdx h
  exact ⟨he ▸ List.getElem_mem _, hlo, by omega⟩

/-- Numbering a list from one fits `k` digits if and only if its length does. -/
theorem zipIdx_digits_iff {α : Type} {xs : List α} {k : ℕ} (hk : 0 < k) :
    (∀ indexed ∈ xs.zipIdx 1, (toString indexed.2).length ≤ k) ↔ xs.length < 10 ^ k := by
  constructor
  · intro h
    rcases List.eq_nil_or_concat' xs with rfl | ⟨ys, y, rfl⟩
    · simp
    · have hm : (y, ys.length + 1) ∈ (ys ++ [y]).zipIdx 1 := by
        simp [List.zipIdx_append, Nat.add_comm]
      have hlen := (Nat.length_repr_le_iff hk).mp (h _ hm)
      simpa using hlen
  · rintro h ⟨x, i⟩ hx
    obtain ⟨-, -, hi⟩ := mem_zipIdx_from hx
    exact (Nat.length_repr_le_iff hk).mpr (by omega)

theorem mem_zipIdx_of_mem {α : Type} {xs : List α} {x : α} (h : x ∈ xs) :
    ∃ i, (x, i) ∈ xs.zipIdx 1 := by
  obtain ⟨i, hi, rfl⟩ := List.getElem_of_mem h
  exact ⟨1 + i, List.mk_add_mem_zipIdx_iff_getElem?.mpr (List.getElem?_eq_getElem hi)⟩

/-- A property of the entries alone does not depend on their numbers. -/
theorem forall_zipIdx_iff {α : Type} {xs : List α} {p : α → Prop} :
    (∀ indexed ∈ xs.zipIdx 1, p indexed.1) ↔ ∀ x ∈ xs, p x := by
  constructor
  · intro h x hx
    obtain ⟨i, hi⟩ := mem_zipIdx_of_mem hx
    exact h _ hi
  · rintro h ⟨x, i⟩ hx
    exact h x (mem_zipIdx_from hx).1

theorem pickFits_iff (response : PickSearchResponse) :
    (∀ indexed ∈ response.items.zipIdx 1, PickFits indexed) ↔ ResponseFits response := by
  have hlabel : ∀ i, (pickLabel i).length = 15 + (toString i).length := by
    intro i
    delta pickLabel
    rw [String.length_append]
    rfl
  have hvalue : ∀ pick : PickSummary, (pickValue pick).length = 73 + (pick.title.length +
      pick.commerceName.length + (formatArsCents pick.price).length +
        (toString pick.availableQuantity).length) := by
    intro pick
    simp only [pickValue, String.length_append]
    simp only [show "Title: ".length = 7 from rfl, show "; Commerce: ".length = 12 from rfl,
      show "; Price ARS: ".length = 13 from rfl, show "; Available quantity: ".length = 22 from rfl,
      show "; Status: available".length = 19 from rfl]
    omega
  constructor
  · intro h
    refine ⟨(zipIdx_digits_iff (by decide)).mp ?_, forall_zipIdx_iff.mp ?_, forall_zipIdx_iff.mp ?_⟩
    · intro indexed hm
      have := (h indexed hm).1
      rw [hlabel] at this
      omega
    · intro indexed hm
      exact (h indexed hm).2.2
    · intro indexed hm
      have := (h indexed hm).2.1
      rw [hvalue] at this
      omega
  · rintro ⟨hcount, hid, htext⟩ indexed hm
    have hdigits := (zipIdx_digits_iff (by decide)).mpr hcount indexed hm
    have ht := forall_zipIdx_iff.mpr htext indexed hm
    refine ⟨?_, ?_, forall_zipIdx_iff.mpr hid indexed hm⟩
    · rw [hlabel]
      omega
    · rw [hvalue]
      omega

/-- A fact of an order fits an item of evidence. -/
def FactFits (fact : Fact) : Prop := Bounded 1 100 fact.1 ∧ Bounded 1 2000 fact.2

theorem orderPickFact_fits (indexed : OrderPick × ℕ) : FactFits (orderPickFact indexed) ↔
    (toString indexed.2).length ≤ 89 ∧ indexed.1.title.length +
      (toString indexed.1.quantity).length + (formatArsCents indexed.1.lineTotal).length ≤ 1963 := by
  simp only [FactFits, Bounded, orderPickFact, String.length_append]
  simp only [show "order_pick_".length = 11 from rfl, show "Title: ".length = 7 from rfl,
    show "; Quantity: ".length = 12 from rfl, show "; Line total ARS: ".length = 18 from rfl]
  omega

theorem optionalFact_fits {label : String} {value : Option String} (h : Bounded 1 100 label) :
    (∀ fact ∈ optionalFact label value, FactFits fact) ↔ AtMost 2000 value := by
  cases value with
  | none => simp [optionalFact, truthy, AtMost]
  | some text =>
    by_cases ht : text = ""
    · simp [optionalFact, truthy, AtMost, ht]
    · have hpos : 1 ≤ text.length := by
        have : text.length ≠ 0 := by simpa using ht
        omega
      simp [optionalFact, truthy, AtMost, ht, FactFits, Bounded, hpos, h.1, h.2]

theorem formatArsCents_pos (cents : ℕ) : 1 ≤ (formatArsCents cents).length := by
  simp only [formatArsCents, String.length_ofList, List.length_append, List.length_singleton]
  omega

theorem orderFacts_fit (order : CustomerOrder) :
    ((∀ fact ∈ orderFacts order, FactFits fact) ∧ order.id.length ≤ 255) ↔ OrderFits order := by
  have hpicks : (∀ fact ∈ (order.picks.zipIdx 1).map orderPickFact, FactFits fact) ↔
      order.picks.length < 10 ^ 89 ∧ ∀ pick ∈ order.picks, pick.title.length +
        (toString pick.quantity).length + (formatArsCents pick.lineTotal).length ≤ 1963 := by
    have htext : (∀ indexed ∈ order.picks.zipIdx 1, indexed.1.title.length +
        (toString indexed.1.quantity).length + (formatArsCents indexed.1.lineTotal).length ≤ 1963) ↔
        ∀ pick ∈ order.picks, pick.title.length + (toString pick.quantity).length +
          (formatArsCents pick.lineTotal).length ≤ 1963 :=
      forall_zipIdx_iff (p := fun pick : OrderPick => pick.title.length +
        (toString pick.quantity).length + (formatArsCents pick.lineTotal).length ≤ 1963)
    rw [List.forall_mem_map, ← zipIdx_digits_iff (by decide), ← htext, ← forall₂_and]
    simp only [orderPickFact_fits]
  have htype : Bounded 1 2000 order.fulfillment.type.value := by
    cases order.fulfillment.type <;> exact bounded_ofList (by decide)
  have htotal : Bounded 1 2000 (formatArsCents order.total) ↔
      (formatArsCents order.total).length ≤ 2000 :=
    and_iff_right (formatArsCents_pos order.total)
  have hfixed : ∀ {label value : String}, Bounded 1 100 label →
      (FactFits (label, value) ↔ Bounded 1 2000 value) := fun h => and_iff_right h
  simp only [orderFacts, List.forall_mem_append, List.forall_mem_cons, hpicks]
  rw [optionalFact_fits (by decide), optionalFact_fits (by decide), hfixed (by decide),
    hfixed (by decide), hfixed (by decide), hfixed (by decide), hfixed (by decide), htotal]
  constructor
  · rintro ⟨⟨⟨⟨⟨⟨hs, hc, ht, -⟩, hn, hp⟩, hcode⟩, hi⟩, ha, -⟩, hid⟩
    exact ⟨hid, hs, hc, ht, hn, hp, hcode, hi, ha⟩
  · rintro ⟨hid, hs, hc, ht, hn, hp, hcode, hi, ha⟩
    exact ⟨⟨⟨⟨⟨⟨hs, hc, ht, htype, by simp⟩, hn, hp⟩, hcode⟩, hi⟩, ha, by simp⟩, hid⟩

theorem orderEvidence_returns_iff (order : CustomerOrder) :
    (∃ evidence, orderEvidence order = .ok evidence) ↔ OrderFits order := by
  have hitem : ∀ fact, (∃ item, factEvidence order.id fact = .ok item) ↔
      FactFits fact ∧ order.id.length ≤ 255 := by
    intro fact
    rw [factEvidence, make_returns_iff, ← and_assoc]
    simp [FactFits, AtMost]
  have hmap : (∃ items, (orderFacts order).mapM (factEvidence order.id) = .ok items) ↔
      OrderFits order := by
    rw [mapM_returns_iff, ← orderFacts_fit]
    simp only [hitem]
    constructor
    · intro h
      exact ⟨fun fact hm => (h fact hm).1, (h ("order_status", order.status) (by simp [orderFacts])).2⟩
    · rintro ⟨h, hid⟩ fact hm
      exact ⟨h fact hm, hid⟩
  rw [← hmap, orderEvidence]
  constructor
  · rintro ⟨evidence, h⟩
    obtain ⟨items, hitems, -⟩ := bind_ok h
    exact ⟨items, hitems⟩
  · rintro ⟨items, hitems⟩
    rw [hitems, ok_bind]
    exact ⟨_, rfl⟩

/-- The mappers return on what the API models accepted if and only if the picks of
the response and the fields of the order fit their items of evidence; a failed
result is always mapped. -/
theorem mappers_return_iff (u : Unicode) :
    (∀ result : ToolResult PickSearchResponse,
      (∃ bundle, searchResultEvidence u result = .ok bundle) ↔
        ∀ response, result.success = true → result.data = some response → ResponseFits response) ∧
    ∀ result : ToolResult CustomerOrder,
      (∃ bundle, orderResultEvidence result = .ok bundle) ↔
        ∀ order, result.success = true → result.data = some order → OrderFits order := by
  refine ⟨?_, ?_⟩
  · intro result
    rw [searchResultEvidence]
    cases hs : result.success with
    | false => exact iff_of_true ⟨_, rfl⟩ (by simp)
    | true =>
      cases hd : result.data with
      | none => exact iff_of_true ⟨_, rfl⟩ (by simp)
      | some response =>
        simp only [responseEvidence_returns_iff, pickFits_iff]
        simp
  · intro result
    rw [orderResultEvidence]
    cases hs : result.success with
    | false => exact iff_of_true ⟨_, rfl⟩ (by simp)
    | true =>
      cases hd : result.data with
      | none => exact iff_of_true ⟨_, rfl⟩ (by simp)
      | some order => simp [orderEvidence_returns_iff]

theorem success_codeless : true = true → (none : Option ToolErrorCode) = none := fun _ => rfl

theorem success_silent : true = false → truthy none = true := by decide

/-- A successful result of a tool. -/
def succeeded {α : Type} (data : α) : ToolResult α where
  success := true
  data := some data
  errorCode := none
  userSafeMessage := none
  latencyMs := 0
  traceId := "trace"
  message_bounded := by decide +kernel
  traceId_bounded := by decide
  success_shape := success_codeless
  failure_code := by decide
  failure_message := success_silent

/-- An order for delivery: the commerce gives no address to pick it up. -/
def addressless : CustomerOrder where
  id := "order-1"
  status := "paid"
  commerceName := "Panadería"
  picks := []
  total := 250000
  fulfillment := ⟨.delivery, none⟩
  pickup := ⟨none, ""⟩

/-- A pick with a title of 2000 characters. -/
def longTitle : PickSummary where
  id := "pick-1"
  title := String.ofList (List.replicate 2000 'a')
  price := 250000
  availableQuantity := 1
  commerceName := "Panadería"

theorem mappers_raise :
    (¬ ∃ bundle, searchResultEvidence .latin1 (succeeded ⟨[longTitle]⟩) = .ok bundle) ∧
      ¬ ∃ bundle, orderResultEvidence (succeeded addressless) = .ok bundle := by
  refine ⟨?_, ?_⟩
  · rintro ⟨bundle, h⟩
    have hfits := (pickFits_iff _).mp ((responseEvidence_returns_iff _).mp ⟨bundle, h⟩)
    have htext := hfits.text longTitle (List.mem_singleton_self _)
    have hlen : longTitle.title.length = 2000 := by
      rw [longTitle, String.length_ofList, List.length_replicate]
    omega
  · rintro ⟨bundle, h⟩
    have hfits := (orderEvidence_returns_iff addressless).mp ⟨bundle, h⟩
    exact absurd hfits.storeAddress.1 (by decide)

end Evidence
end Piki
