import Mathlib.Logic.Function.Basic
import Mathlib.Tactic.Basic

/-! Locks that expire. A holder keeps the token that it took a key with. As long as no
key expires under its holder, a key has one holder, whose token it stores. -/
namespace Piki.Leases
variable {ι κ τ : Type*}

/-- The token under each key, and what each holder believes to hold. -/
structure View (ι κ τ : Type*) where
  locks : κ → Option τ
  holds : ι → Option (κ × τ)

namespace View

/-- Every holder is right, and holds alone. -/
structure Exclusive (v : View ι κ τ) : Prop where
  held : ∀ i k t, v.holds i = some (k, t) → v.locks k = some t
  alone : ∀ i j k t t', v.holds i = some (k, t) → v.holds j = some (k, t') → i = j

def Unheld (v : View ι κ τ) (k : κ) : Prop := ∀ i t, v.holds i ≠ some (k, t)

def put [DecidableEq κ] (v : View ι κ τ) (k : κ) (lock : Option τ) : View ι κ τ :=
  { v with locks := Function.update v.locks k lock }

def give [DecidableEq ι] (v : View ι κ τ) (i : ι) (h : Option (κ × τ)) : View ι κ τ :=
  { v with holds := Function.update v.holds i h }

end View

/-- What a client, or the clock, can do. -/
inductive Change [DecidableEq ι] [DecidableEq κ] (v : View ι κ τ) : View ι κ τ → Prop
  | stay : Change v v
  | acquire (i : ι) (k : κ) (t : τ) (hk : v.locks k = none) :
    Change v ((v.put k (some t)).give i (some (k, t)))
  | release (i : ι) (k : κ) (t : τ) (hi : v.holds i = some (k, t)) :
    Change v ((v.put k none).give i none)
  | leave (i : ι) : Change v (v.give i none)
  | expire (k : κ) (hk : v.Unheld k) : Change v (v.put k none)

variable {v w : View ι κ τ}

theorem View.Exclusive.unheld (h : v.Exclusive) {k : κ} (hk : v.locks k = none) : v.Unheld k := by
  intro i t hi
  rw [h.held i k t hi] at hk
  cases hk

theorem View.Exclusive.leave [DecidableEq ι] (h : v.Exclusive) (i : ι) :
    (v.give i none).Exclusive := by
  have hother : ∀ j k t, (v.give i none).holds j = some (k, t) → v.holds j = some (k, t) := by
    intro j k t hj
    by_cases he : j = i
    · simp [View.give, he] at hj
    · simpa [View.give, he] using hj
  refine ⟨fun j k t hj => h.held j k t (hother j k t hj), ?_⟩
  intro j j' k t t' hj hj'
  exact h.alone j j' k t t' (hother j k t hj) (hother j' k t' hj')

/-- A lock that nobody holds may go. -/
theorem View.Exclusive.expire [DecidableEq κ] (h : v.Exclusive) {k : κ} (hk : v.Unheld k) :
    (v.put k none).Exclusive := by
  refine ⟨?_, h.alone⟩
  intro i k' t hi
  have hne : k' ≠ k := by
    rintro rfl
    exact hk i t hi
  simpa [View.put, hne] using h.held i k' t hi

/-- Who takes a free key is its only holder. -/
theorem View.Exclusive.acquire [DecidableEq ι] [DecidableEq κ] (h : v.Exclusive) (i : ι) {k : κ}
    (t : τ) (hk : v.locks k = none) : ((v.put k (some t)).give i (some (k, t))).Exclusive := by
  have hfree := h.unheld hk
  have hcases : ∀ j k' t', ((v.put k (some t)).give i (some (k, t))).holds j = some (k', t') →
      (j = i ∧ k' = k ∧ t' = t) ∨ (k' ≠ k ∧ v.holds j = some (k', t')) := by
    intro j k' t' hj
    by_cases he : j = i
    · subst he
      simp only [View.give, View.put, Function.update_self, Option.some.injEq, Prod.mk.injEq] at hj
      exact .inl ⟨rfl, hj.1.symm, hj.2.symm⟩
    · have hold : v.holds j = some (k', t') := by simpa [View.give, View.put, he] using hj
      refine .inr ⟨?_, hold⟩
      rintro rfl
      exact hfree j t' hold
  refine ⟨?_, ?_⟩
  · intro j k' t' hj
    rcases hcases j k' t' hj with ⟨-, rfl, rfl⟩ | ⟨hne, hold⟩
    · simp [View.give, View.put]
    · simpa [View.give, View.put, hne] using h.held j k' t' hold
  · intro j j' k' t' t'' hj hj'
    rcases hcases j k' t' hj with ⟨rfl, rfl, -⟩ | ⟨hne, hold⟩
    · rcases hcases j' k' t'' hj' with ⟨rfl, -, -⟩ | ⟨hne', -⟩
      · rfl
      · exact absurd rfl hne'
    · rcases hcases j' k' t'' hj' with ⟨-, rfl, -⟩ | ⟨-, hold'⟩
      · exact absurd rfl hne
      · exact h.alone j j' k' t' t'' hold hold'

/-- After its holder left, nobody holds the key. -/
theorem View.Exclusive.unheld_leave [DecidableEq ι] (h : v.Exclusive) {i : ι} {k : κ} {t : τ}
    (hi : v.holds i = some (k, t)) : (v.give i none).Unheld k := by
  intro j t' hj
  by_cases he : j = i
  · simp [View.give, he] at hj
  · exact he (h.alone j i k t' t (by simpa [View.give, he] using hj) hi)

theorem Change.exclusive [DecidableEq ι] [DecidableEq κ] (h : Change v w) (hv : v.Exclusive) :
    w.Exclusive := by
  cases h with
  | stay => exact hv
  | acquire i k t hk => exact hv.acquire i t hk
  | release i k t hi => exact (hv.leave i).expire (hv.unheld_leave hi)
  | leave i => exact hv.leave i
  | expire k hk => exact hv.expire hk

end Piki.Leases
