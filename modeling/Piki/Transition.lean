import Mathlib

/-! Runs of a partial labelled step function. A label that is not enabled has no
successor. Interleavings are schedules of labels, so a statement about every
schedule is a statement about every interleaving. -/
namespace Piki.Transition
variable {σ α : Type*} {step : σ → α → Option σ}

def exec (step : σ → α → Option σ) : σ → List α → Option σ
  | s, [] => some s
  | s, a :: as => (step s a).bind fun t => exec step t as

/-- Every label of the schedule satisfies `P` in the state where it is taken. -/
def Along (step : σ → α → Option σ) (P : σ → α → Prop) : σ → List α → Prop
  | _, [] => True
  | s, a :: as => P s a ∧ ∀ t, step s a = some t → Along step P t as

instance instDecidableAlong {P : σ → α → Prop} [∀ s a, Decidable (P s a)] :
    (s : σ) → (as : List α) → Decidable (Along step P s as)
  | _, [] => isTrue trivial
  | s, a :: as =>
    match h : step s a with
    | none => decidable_of_iff (P s a) (by simp [Along, h])
    | some t =>
      have := instDecidableAlong (P := P) t as
      decidable_of_iff (P s a ∧ Along step P t as) (by simp [Along, h])

@[simp] theorem exec_nil (s : σ) : exec step s [] = some s := rfl

@[grind =] theorem exec_cons_some {s u : σ} {a : α} {as : List α} :
    exec step s (a :: as) = some u ↔ ∃ t, step s a = some t ∧ exec step t as = some u := by
  simp [exec, Option.bind_eq_some_iff]

theorem exec_append {s u : σ} {as bs : List α} :
    exec step s (as ++ bs) = some u ↔
      ∃ t, exec step s as = some t ∧ exec step t bs = some u := by
  induction as generalizing s with
  | nil => simp
  | cons a as ih =>
    simp only [List.cons_append, exec_cons_some, ih]
    constructor
    · rintro ⟨t, ht, v, hv, hu⟩
      exact ⟨v, ⟨t, ht, hv⟩, hu⟩
    · rintro ⟨v, ⟨t, ht, hv⟩, hu⟩
      exact ⟨t, ht, v, hv, hu⟩

/-- The invariant rule: what one step preserves, every run preserves. -/
theorem exec_invariant {I : σ → Prop} (hstep : ∀ s a t, I s → step s a = some t → I t)
    {s t : σ} {as : List α} (hs : I s) (h : exec step s as = some t) : I t := by
  induction as generalizing s with
  | nil => simpa using (Option.some.inj h) ▸ hs
  | cons a as ih =>
    obtain ⟨u, hu, ht⟩ := exec_cons_some.mp h
    exact ih (hstep s a u hs hu) ht

/-- The invariant rule under a condition that every step of the run meets. -/
theorem exec_invariant_along {I : σ → Prop} {P : σ → α → Prop}
    (hstep : ∀ s a t, I s → P s a → step s a = some t → I t)
    {s t : σ} {as : List α} (hs : I s) (hp : Along step P s as)
    (h : exec step s as = some t) : I t := by
  induction as generalizing s with
  | nil => simpa using (Option.some.inj h) ▸ hs
  | cons a as ih =>
    obtain ⟨u, hu, ht⟩ := exec_cons_some.mp h
    exact ih (hstep s a u hs hp.1 hu) (hp.2 u hu) ht

theorem along_mono {I : σ → Prop} {P Q : σ → α → Prop}
    (hstep : ∀ s a t, I s → P s a → step s a = some t → I t)
    (hpq : ∀ s a, I s → P s a → Q s a) {s : σ} {as : List α} (hs : I s)
    (hp : Along step P s as) : Along step Q s as := by
  induction as generalizing s with
  | nil => trivial
  | cons a as ih =>
    refine ⟨hpq s a hs hp.1, fun t ht => ?_⟩
    exact ih (hstep s a t hs hp.1 ht) (hp.2 t ht)

/-- Two step conditions that agree wherever an invariant holds select the same
runs; the invariant need only survive the steps that meet the condition. -/
theorem along_iff {I : σ → Prop} {P Q : σ → α → Prop}
    (hstep : ∀ s a t, I s → P s a → step s a = some t → I t)
    (hpq : ∀ s a, I s → (P s a ↔ Q s a)) {s : σ} {as : List α} (hs : I s) :
    Along step P s as ↔ Along step Q s as := by
  constructor
  · exact along_mono hstep (fun s a hi hp => (hpq s a hi).mp hp) hs
  · refine along_mono (fun s a t hi hq ht => ?_) (fun s a hi hq => (hpq s a hi).mpr hq) hs
    exact hstep s a t hi ((hpq s a hi).mpr hq) ht

theorem along_of_forall {P : α → Prop} {s : σ} {as : List α} (h : ∀ a ∈ as, P a) :
    Along step (fun _ a => P a) s as := by
  induction as generalizing s with
  | nil => trivial
  | cons a as ih =>
    obtain ⟨ha, hrest⟩ := List.forall_mem_cons.mp h
    exact ⟨ha, fun t _ => ih hrest⟩

/-- A condition that every label of the schedule meets may be assumed at every step. -/
theorem along_and_iff {P : α → Prop} {Q : σ → α → Prop} {s : σ} {as : List α}
    (h : Along step (fun _ a => P a) s as) :
    Along step (fun s a => P a ∧ Q s a) s as ↔ Along step Q s as := by
  induction as generalizing s with
  | nil => exact Iff.rfl
  | cons a as ih =>
    constructor
    · rintro ⟨⟨-, hq⟩, hrest⟩
      exact ⟨hq, fun t ht => (ih (h.2 t ht)).mp (hrest t ht)⟩
    · rintro ⟨hq, hrest⟩
      exact ⟨⟨h.1, hq⟩, fun t ht => (ih (h.2 t ht)).mpr (hrest t ht)⟩

theorem along_last {P : σ → α → Prop} {s t : σ} {a : α} {as : List α}
    (hp : Along step P s (as ++ [a])) (h : exec step s as = some t) : P t a := by
  induction as generalizing s with
  | nil => exact (Option.some.inj h) ▸ hp.1
  | cons b as ih =>
    obtain ⟨u, hu, ht⟩ := exec_cons_some.mp h
    exact ih (hp.2 u hu) ht

end Piki.Transition
