import Mathlib

/-! A repeated call that lowers a measure whenever it reports work, and does nothing
otherwise, reports work finitely often and then stands still. -/
namespace Piki.Descent
variable {σ : Type*}

/-- The state before the `n`-th call. -/
def iterate (call : ℕ → σ → Bool × σ) (s : σ) : ℕ → σ
  | 0 => s
  | n + 1 => (call n (iterate call s n)).2

/-- How many of the first `n` calls reported work. -/
def workCount (call : ℕ → σ → Bool × σ) (s : σ) (n : ℕ) : ℕ :=
  (List.range n).countP fun k => (call k (iterate call s k)).1

/-- Calls keep the invariant, lower the measure when they work and do nothing otherwise. -/
structure Lowers (call : ℕ → σ → Bool × σ) (I : σ → Prop) (measure : σ → ℕ) : Prop where
  keeps : ∀ n s, I s → I (call n s).2
  works : ∀ n s, I s → (call n s).1 = true → measure (call n s).2 < measure s
  rests : ∀ n s, I s → (call n s).1 = false → (call n s).2 = s

variable {call : ℕ → σ → Bool × σ} {I : σ → Prop} {measure : σ → ℕ} {s : σ}

theorem workCount_succ (call : ℕ → σ → Bool × σ) (s : σ) (n : ℕ) :
    workCount call s (n + 1) =
      workCount call s n + if (call n (iterate call s n)).1 then 1 else 0 := by
  simp only [workCount, List.range_succ, List.countP_append, List.countP_cons, List.countP_nil,
    Nat.zero_add]

theorem Lowers.iterate_keeps (h : Lowers call I measure) (hs : I s) (n : ℕ) :
    I (iterate call s n) := by
  induction n with
  | zero => exact hs
  | succ n ih => exact h.keeps n _ ih

/-- The measure pays for the calls that work. -/
theorem Lowers.workCount_le (h : Lowers call I measure) (hs : I s) (n : ℕ) :
    workCount call s n + measure (iterate call s n) ≤ measure s := by
  induction n with
  | zero => simp [workCount, iterate]
  | succ n ih =>
    have hI := h.iterate_keeps hs n
    rw [workCount_succ]
    cases hwork : (call n (iterate call s n)).1 with
    | true =>
      have hlt := h.works n _ hI hwork
      simp only [iterate, if_true]
      omega
    | false =>
      have hsame := h.rests n _ hI hwork
      simp only [iterate, hsame, Bool.false_eq_true, if_false]
      omega

theorem workCount_unbounded
    (h : ∀ n, ∃ k, n ≤ k ∧ (call k (iterate call s k)).1 = true) (b : ℕ) :
    ∃ n, b ≤ workCount call s n := by
  induction b with
  | zero => exact ⟨0, Nat.zero_le _⟩
  | succ b ih =>
    obtain ⟨n, hn⟩ := ih
    obtain ⟨k, hk, hwork⟩ := h n
    refine ⟨k + 1, ?_⟩
    have hmono : workCount call s n ≤ workCount call s k :=
      (List.range_sublist.mpr hk).countP_le
    rw [workCount_succ, hwork]
    simp only [if_true]
    omega

/-- From some call on, no call works and the state stays. -/
theorem Lowers.eventually_rests (h : Lowers call I measure) (hs : I s) :
    ∃ n, ∀ k, n ≤ k → (call k (iterate call s n)).1 = false ∧ iterate call s k = iterate call s n := by
  have hend : ∃ n, ∀ k, n ≤ k → (call k (iterate call s k)).1 = false := by
    by_contra hall
    push Not at hall
    obtain ⟨n, hn⟩ := workCount_unbounded
      (fun n => (hall n).imp fun k hk => ⟨hk.1, Bool.eq_true_of_not_eq_false hk.2⟩) (measure s + 1)
    have hle := h.workCount_le hs n
    omega
  obtain ⟨n, hn⟩ := hend
  have hsame : ∀ k, n ≤ k → iterate call s k = iterate call s n := by
    intro k hk
    induction k, hk using Nat.le_induction with
    | base => rfl
    | succ k hk ih => exact (h.rests k _ (h.iterate_keeps hs k) (hn k hk)).trans ih
  exact ⟨n, fun k hk => ⟨hsame k hk ▸ hn k hk, hsame k hk⟩⟩

end Piki.Descent
