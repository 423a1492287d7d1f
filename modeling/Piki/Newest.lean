import Mathlib

/-! The end of a list, found again by sorting newest first. A query that orders its rows,
takes the first `n` and turns them round gives the last `n` rows exactly when each of
those is newer than every row before it. -/
namespace Piki.Newest
variable {α : Type*} {r : α → α → Prop} {rows : List α} {n : ℕ}

theorem rdrop_append_rtake (rows : List α) (n : ℕ) : rows.rdrop n ++ rows.rtake n = rows := by
  rw [List.rdrop, List.rtake, List.take_append_drop]

theorem length_rtake (rows : List α) (n : ℕ) : (rows.rtake n).length = min n rows.length := by
  rw [List.rtake, List.length_drop]
  omega

/-- Each of the last `n` rows is newer than all the rows before it. -/
def LastNewest (r : α → α → Prop) (n : ℕ) (rows : List α) : Prop :=
  ∀ i j (hij : i < j) (hj : j < rows.length), rows.length ≤ j + n → r rows[j] rows[i]

/-- The same with the rows split where the last `n` begin. -/
@[grind =] theorem lastNewest_iff : LastNewest r n rows ↔
    (rows.rtake n).Pairwise (fun a b => r b a) ∧
      ∀ a ∈ rows.rdrop n, ∀ b ∈ rows.rtake n, r b a := by
  rw [List.pairwise_iff_getElem]
  unfold List.rtake List.rdrop
  constructor
  · intro h
    refine ⟨?_, ?_⟩
    · intro i j hi hj hij
      rw [List.length_drop] at hi hj
      rw [List.getElem_drop, List.getElem_drop]
      exact h _ _ (by omega) (by omega) (by omega)
    · intro a ha b hb
      obtain ⟨i, hi, rfl⟩ := List.mem_iff_getElem.mp ha
      obtain ⟨j, hj, rfl⟩ := List.mem_iff_getElem.mp hb
      rw [List.length_take] at hi
      rw [List.length_drop] at hj
      rw [List.getElem_take, List.getElem_drop]
      exact h _ _ (by omega) (by omega) (by omega)
  · rintro ⟨hlast, hfirst⟩ i j hij hj hn
    have hjd : j - (rows.length - n) < (rows.drop (rows.length - n)).length := by
      rw [List.length_drop]
      omega
    have hb : (rows.drop (rows.length - n))[j - (rows.length - n)] = rows[j] := by
      rw [List.getElem_drop]
      congr 1
      omega
    by_cases hi : i < rows.length - n
    · have hit : i < (rows.take (rows.length - n)).length := by
        rw [List.length_take]
        omega
      have ha : (rows.take (rows.length - n))[i] = rows[i] := List.getElem_take
      rw [← ha, ← hb]
      exact hfirst _ (List.getElem_mem _) _ (List.getElem_mem _)
    · have hid : i - (rows.length - n) < (rows.drop (rows.length - n)).length := by
        rw [List.length_drop]
        omega
      have ha : (rows.drop (rows.length - n))[i - (rows.length - n)] = rows[i] := by
        rw [List.getElem_drop]
        congr 1
        omega
      rw [← ha, ← hb]
      exact hlast _ _ hid hjd (by omega)

section Sorted
variable [DecidableRel r] [Std.Total r] [IsTrans α r]

/-- The rows are sorted newest first by turning their end round. -/
theorem insertionSort_eq (hr : ∀ a ∈ rows, ∀ b ∈ rows, r a b → r b a → a = b)
    (h : LastNewest r n rows) :
    rows.insertionSort r = (rows.rtake n).reverse ++ (rows.rdrop n).insertionSort r := by
  obtain ⟨hlast, hfirst⟩ := lastNewest_iff.mp h
  have hperm : ((rows.rtake n).reverse ++ (rows.rdrop n).insertionSort r).Perm rows := by
    calc ((rows.rtake n).reverse ++ (rows.rdrop n).insertionSort r).Perm
          (rows.rtake n ++ rows.rdrop n) :=
        (List.reverse_perm _).append (List.perm_insertionSort r _)
      _ |>.Perm (rows.rdrop n ++ rows.rtake n) := List.perm_append_comm
      _ = rows := rdrop_append_rtake rows n
  have hequal : ∀ a b, a ∈ rows.insertionSort r →
      b ∈ (rows.rtake n).reverse ++ (rows.rdrop n).insertionSort r → r a b → r b a → a = b := by
    intro a b ha hb
    exact hr a ((List.perm_insertionSort r rows).mem_iff.mp ha) b (hperm.mem_iff.mp hb)
  refine List.Perm.eq_of_pairwise hequal (List.pairwise_insertionSort r rows) ?_
    ((List.perm_insertionSort r rows).trans hperm.symm)
  rw [List.pairwise_append]
  refine ⟨List.pairwise_reverse.mpr hlast, List.pairwise_insertionSort r _, ?_⟩
  intro b hb a ha
  exact hfirst a ((List.perm_insertionSort r _).mem_iff.mp ha) b (List.mem_reverse.mp hb)

theorem rtake_of_insertionSort (hr : ∀ a ∈ rows, ∀ b ∈ rows, r a b → r b a → a = b) :
    ((rows.insertionSort r).take n).reverse = rows.rtake n ↔ LastNewest r n rows := by
  constructor
  · intro h
    have htake : (rows.insertionSort r).take n = (rows.rtake n).reverse := by
      rw [← h, List.reverse_reverse]
    have hsplit : (rows.rtake n).reverse ++ (rows.insertionSort r).drop n =
        rows.insertionSort r := by
      rw [← htake, List.take_append_drop]
    have hsorted := List.pairwise_insertionSort r rows
    rw [← hsplit, List.pairwise_append] at hsorted
    obtain ⟨hlast, -, hcross⟩ := hsorted
    -- what is not among the first `n` sorted rows is what comes before the last `n`
    have hrest : ((rows.insertionSort r).drop n).Perm (rows.rdrop n) := by
      refine (List.perm_append_left_iff (rows.rtake n)).mp ?_
      calc (rows.rtake n ++ (rows.insertionSort r).drop n).Perm
            ((rows.rtake n).reverse ++ (rows.insertionSort r).drop n) :=
          (List.reverse_perm _).symm.append_right _
        _ = rows.insertionSort r := hsplit
        _ |>.Perm rows := List.perm_insertionSort r rows
        _ = rows.rdrop n ++ rows.rtake n := (rdrop_append_rtake rows n).symm
        _ |>.Perm (rows.rtake n ++ rows.rdrop n) := List.perm_append_comm
    refine lastNewest_iff.mpr ⟨List.pairwise_reverse.mp hlast, ?_⟩
    intro a ha b hb
    exact hcross b (List.mem_reverse.mpr hb) a (hrest.mem_iff.mpr ha)
  · intro h
    rw [insertionSort_eq hr h]
    by_cases hn : n ≤ rows.length
    · have hl : (rows.rtake n).reverse.length = n := by
        rw [List.length_reverse, length_rtake]
        omega
      rw [List.take_left' hl, List.reverse_reverse]
    · have hnil : rows.rdrop n = [] := by
        rw [List.rdrop, show rows.length - n = 0 by omega, List.take_zero]
      have hl : (rows.rtake n).reverse.length ≤ n := by
        rw [List.length_reverse, length_rtake]
        omega
      rw [hnil, List.insertionSort_nil, List.append_nil, List.take_of_length_le hl,
        List.reverse_reverse]

end Sorted
end Piki.Newest
