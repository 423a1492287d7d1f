import Mathlib

/-! A bounded retry loop. Attempt `i` gets the reply `replies i`; a reply that may be
retried ends the loop only on the last attempt. -/
namespace Piki.Retrying
variable {ρ : Type*}

/-- The number of attempts made, and the reply that ended the loop. -/
def loop (retryable : ρ → Bool) (replies : ℕ → ρ) : (attempt remaining : ℕ) → ℕ × Option ρ
  | _, 0 => (0, none)
  | attempt, remaining + 1 =>
    if retryable (replies attempt) && decide (0 < remaining) then
      let rest := loop retryable replies (attempt + 1) remaining
      (rest.1 + 1, rest.2)
    else (1, some (replies attempt))

/-- A loop that may run at all makes an attempt and ends with a reply. -/
theorem loop_ends (retryable : ρ → Bool) (replies : ℕ → ρ) (attempt : ℕ) {remaining : ℕ}
    (h : 0 < remaining) :
    ∃ r, (loop retryable replies attempt remaining).2 = some r ∧
      0 < (loop retryable replies attempt remaining).1 := by
  induction remaining generalizing attempt with
  | zero => omega
  | succ n ih =>
    rw [loop]
    split_ifs with hretry
    · rw [Bool.and_eq_true, decide_eq_true_eq] at hretry
      obtain ⟨r, hr, -⟩ := ih (attempt + 1) hretry.2
      exact ⟨r, hr, Nat.succ_pos _⟩
    · exact ⟨_, rfl, Nat.one_pos⟩

/-- Attempt `i` of those from `attempt` on is the first that is not retried. -/
structure Decisive (retryable : ρ → Bool) (replies : ℕ → ρ) (attempt remaining i : ℕ) : Prop where
  first : attempt ≤ i
  last : i < attempt + remaining
  before : ∀ j, attempt ≤ j → j < i → retryable (replies j) = true
  ends : retryable (replies i) = true → i + 1 = attempt + remaining

/-- The loop ends with the decisive attempt, and makes those up to it. -/
theorem loop_spec (retryable : ρ → Bool) (replies : ℕ → ρ) (attempt : ℕ) {remaining : ℕ}
    (h : 0 < remaining) :
    ∃ i, Decisive retryable replies attempt remaining i ∧
      (loop retryable replies attempt remaining).2 = some (replies i) ∧
      attempt + (loop retryable replies attempt remaining).1 = i + 1 := by
  induction remaining generalizing attempt with
  | zero => omega
  | succ n ih =>
    rw [loop]
    split_ifs with hretry
    · rw [Bool.and_eq_true, decide_eq_true_eq] at hretry
      obtain ⟨i, ⟨hfirst, hlast, hbefore, hends⟩, hloop, hcount⟩ := ih (attempt + 1) hretry.2
      refine ⟨i, ⟨by omega, by omega, ?_, fun hr => ?_⟩, hloop, ?_⟩
      · intro j hj hji
        rcases Nat.eq_or_lt_of_le hj with rfl | hj
        · exact hretry.1
        · exact hbefore j hj hji
      · have := hends hr
        omega
      · simp only
        omega
    · refine ⟨attempt, ⟨le_refl _, by omega, fun j hj hji => by omega, fun hr => ?_⟩, rfl, rfl⟩
      rw [hr, Bool.true_and, decide_eq_true_eq] at hretry
      omega

theorem loop_decisive (retryable : ρ → Bool) (replies : ℕ → ρ) (attempt : ℕ) {remaining : ℕ}
    (h : 0 < remaining) :
    ∃ i, Decisive retryable replies attempt remaining i ∧
      (loop retryable replies attempt remaining).2 = some (replies i) := by
  obtain ⟨i, hi, hloop, -⟩ := loop_spec retryable replies attempt h
  exact ⟨i, hi, hloop⟩

/-- There is one decisive attempt. -/
theorem Decisive.unique {retryable : ρ → Bool} {replies : ℕ → ρ} {attempt remaining i j : ℕ}
    (hi : Decisive retryable replies attempt remaining i)
    (hj : Decisive retryable replies attempt remaining j) : i = j := by
  have hle : ∀ {i j}, Decisive retryable replies attempt remaining i →
      Decisive retryable replies attempt remaining j → ¬ i < j := by
    intro i j hi hj hlt
    have := hi.ends (hj.before i hi.first hlt)
    have := hj.last
    omega
  have := hle hi hj
  have := hle hj hi
  omega

end Piki.Retrying
