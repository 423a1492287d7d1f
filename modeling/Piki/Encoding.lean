import Mathlib

/-! Self-delimiting encodings. A text that starts with an encoded value determines
the value, up to a relation, and where its encoding ends. -/
namespace Piki.Encoding
variable {α β χ : Type*} {r : α → α → Prop}

/-- Equal texts that start with encoded values have related values and equal rests. -/
def Delimited (enc : α → List χ) (r : α → α → Prop) : Prop :=
  ∀ a b x y, enc a ++ x = enc b ++ y → r a b ∧ x = y

/-- A reader that gives back the value and the rest. -/
theorem of_reader {enc : α → List χ} (read : List χ → Option (α × List χ))
    (h : ∀ a x, read (enc a ++ x) = some (a, x)) : Delimited enc Eq := by
  intro a b x y he
  have hread : some (a, x) = some (b, y) := by rw [← h a x, he, h b y]
  simpa using hread

theorem Delimited.mono {enc : α → List χ} {r' : α → α → Prop} (h : Delimited enc r)
    (hr : ∀ a b, r a b → r' a b) : Delimited enc r' := by
  intro a b x y he
  obtain ⟨hab, hxy⟩ := h a b x y he
  exact ⟨hr a b hab, hxy⟩

theorem Delimited.comp {enc : α → List χ} (h : Delimited enc r) (f : β → α) :
    Delimited (fun b => enc (f b)) fun b c => r (f b) (f c) :=
  fun b c x y he => h (f b) (f c) x y he

theorem delimited_const (l : List χ) : Delimited (fun _ : α => l) fun _ _ => True :=
  fun _ _ _ _ he => ⟨trivial, List.append_cancel_left he⟩

theorem Delimited.append {enc enc' : α → List χ} {r' : α → α → Prop} (h : Delimited enc r)
    (h' : Delimited enc' r') : Delimited (fun a => enc a ++ enc' a) fun a b => r a b ∧ r' a b := by
  intro a b x y he
  rw [List.append_assoc, List.append_assoc] at he
  obtain ⟨hab, he⟩ := h a b _ _ he
  obtain ⟨hab', hxy⟩ := h' a b _ _ he
  exact ⟨⟨hab, hab'⟩, hxy⟩

/-- Two forms of a value that no text can start with both. -/
theorem Delimited.ite {p : α → Prop} [DecidablePred p] {enc enc' : α → List χ}
    {r' : α → α → Prop} (h : Delimited enc r) (h' : Delimited enc' r')
    (hapart : ∀ a b x y, p a → ¬ p b → enc a ++ x ≠ enc' b ++ y) :
    Delimited (fun a => if p a then enc a else enc' a) fun a b =>
      (p a ↔ p b) ∧ (p a → r a b) ∧ (¬ p a → r' a b) := by
  intro a b x y he
  by_cases ha : p a <;> by_cases hb : p b
  · simp only [ha, hb, if_true] at he
    obtain ⟨hab, hxy⟩ := h a b x y he
    exact ⟨⟨by simp [ha, hb], fun _ => hab, fun hn => absurd ha hn⟩, hxy⟩
  · simp only [ha, hb, if_true, if_false] at he
    exact absurd he (hapart a b x y ha hb)
  · simp only [ha, hb, if_true, if_false] at he
    exact absurd he.symm (hapart b a y x hb ha)
  · simp only [ha, hb, if_false] at he
    obtain ⟨hab, hxy⟩ := h' a b x y he
    exact ⟨⟨by simp [ha, hb], fun hp => absurd hp ha, fun _ => hab⟩, hxy⟩

/-- A list ends at a mark that no encoded element starts with. -/
theorem Delimited.list {enc : α → List χ} (h : Delimited enc r) {mark : χ}
    (hmark : ∀ a, ∃ c l, enc a = c :: l ∧ c ≠ mark) :
    Delimited (fun as : List α => as.flatMap enc ++ [mark]) (List.Forall₂ r) := by
  intro as
  induction as with
  | nil =>
    intro bs x y he
    cases bs with
    | nil => exact ⟨.nil, by simpa using he⟩
    | cons b bs =>
      obtain ⟨c, l, hb, hne⟩ := hmark b
      simp only [List.flatMap_nil, List.flatMap_cons, hb, List.nil_append, List.cons_append,
        List.cons.injEq] at he
      exact absurd he.1.symm hne
  | cons a as ih =>
    intro bs x y he
    cases bs with
    | nil =>
      obtain ⟨c, l, ha, hne⟩ := hmark a
      simp only [List.flatMap_nil, List.flatMap_cons, ha, List.nil_append, List.cons_append,
        List.cons.injEq] at he
      exact absurd he.1 hne
    | cons b bs =>
      simp only [List.flatMap_cons, List.append_assoc] at he
      obtain ⟨hab, he⟩ := h a b _ _ he
      obtain ⟨hrest, hxy⟩ := ih bs x y (by simpa using he)
      exact ⟨.cons hab hrest, hxy⟩

/-- Every line ends with the mark. -/
def unlines (mark : χ) (lines : List (List χ)) : List χ := lines.flatMap fun l => l ++ [mark]

theorem splitOn_unlines [BEq χ] [LawfulBEq χ] {mark : χ} {lines : List (List χ)}
    (h : ∀ l ∈ lines, mark ∉ l) : (unlines mark lines).splitOn mark = lines ++ [[]] := by
  induction lines with
  | nil => simp [unlines]
  | cons l lines ih =>
    obtain ⟨hl, hrest⟩ := List.forall_mem_cons.mp h
    have hcons : unlines mark (l :: lines) = l ++ mark :: unlines mark lines := by simp [unlines]
    rw [hcons, List.splitOn_append_cons_self_of_not_mem hl, ih hrest]
    rfl

section Lines
variable {p : χ → Bool}

theorem splitOnP_of_none {x : List χ} (hx : x.any p = false) : x.splitOnP p = [x] :=
  List.splitOnP_eq_singleton (by simpa using hx)

theorem splitOnP_append_of_none {x : List χ} (hx : x.any p = false) (y : List χ) :
    (x ++ y).splitOnP p = (y.splitOnP p).modifyHead (x ++ ·) := by
  induction x with
  | nil =>
    obtain ⟨l, ls, hl⟩ := List.exists_cons_of_ne_nil (List.splitOnP_ne_nil p y)
    simp [hl]
  | cons c x ih =>
    simp only [List.any_cons, Bool.or_eq_false_iff] at hx
    obtain ⟨l, ls, hl⟩ := List.exists_cons_of_ne_nil (List.splitOnP_ne_nil p y)
    simp [List.splitOnP_cons_eq_if_modifyHead, hx.1, ih hx.2, hl]

/-- The line that runs over `c` is the only one that the two sides share. -/
theorem splitOnP_append_join (x : List χ) {c : χ} (hc : p c = false) (y : List χ) :
    ∃ first last, (x ++ c :: y).splitOnP p =
      (x.splitOnP p).dropLast ++ (first ++ c :: last) :: (y.splitOnP p).tail := by
  obtain ⟨last, ls, hlast⟩ := List.exists_cons_of_ne_nil (List.splitOnP_ne_nil p y)
  induction x with
  | nil => exact ⟨[], last, by simp [List.splitOnP_cons_eq_if_modifyHead, hc, hlast]⟩
  | cons d x ih =>
    obtain ⟨first, last, he⟩ := ih
    obtain ⟨l, ls', hl⟩ := List.exists_cons_of_ne_nil (List.splitOnP_ne_nil p x)
    by_cases hd : p d = true
    · refine ⟨first, last, ?_⟩
      simp [List.splitOnP_cons_eq_if_modifyHead, hd, he, hl]
    · cases ls' with
      | nil =>
        refine ⟨d :: first, last, ?_⟩
        simp [List.splitOnP_cons_eq_if_modifyHead, hd, he, hl]
      | cons l' ls' =>
        refine ⟨first, last, ?_⟩
        simp [List.splitOnP_cons_eq_if_modifyHead, hd, he, hl]

/-- An encoding that keeps the marks and makes no new ones is applied line by line. -/
theorem splitOnP_flatMap {q : α → Bool} {enc : α → List χ}
    (hmark : ∀ a, q a = true → ∃ c, enc a = [c] ∧ p c = true)
    (hother : ∀ a, q a = false → (enc a).any p = false) (s : List α) :
    (s.flatMap enc).splitOnP p = (s.splitOnP q).map fun l => l.flatMap enc := by
  induction s with
  | nil => simp
  | cons a s ih =>
    obtain ⟨l, ls, hl⟩ := List.exists_cons_of_ne_nil (List.splitOnP_ne_nil q s)
    cases ha : q a with
    | true =>
      obtain ⟨c, henc, hc⟩ := hmark a ha
      simp [List.splitOnP_cons_eq_if_modifyHead, ha, henc, hc, ih]
    | false =>
      rw [List.flatMap_cons, splitOnP_append_of_none (hother a ha), ih]
      simp [List.splitOnP_cons_eq_if_modifyHead, ha, hl]

theorem splitOnP_head {s l : List χ} {ls : List (List χ)} (h : s.splitOnP p = l :: ls)
    (hls : ls ≠ []) : ∃ d rest, p d = true ∧ s = l ++ d :: rest := by
  induction s generalizing l with
  | nil => simp_all
  | cons c s ih =>
    rw [List.splitOnP_cons_eq_if_modifyHead] at h
    split_ifs at h with hc
    · exact ⟨c, s, hc, by simp [← (List.cons.inj h).1]⟩
    · obtain ⟨l', ls', hl⟩ := List.exists_cons_of_ne_nil (List.splitOnP_ne_nil p s)
      rw [hl, List.modifyHead_cons] at h
      obtain ⟨rfl, rfl⟩ := List.cons.inj h
      obtain ⟨d, rest, hd, rfl⟩ := ih hl
      exact ⟨d, rest, hd, rfl⟩

/-- The lines of a text between its first and its last stand between two marks. -/
theorem mem_splitOnP_inner_iff {s l : List χ} (hl : l.any p = false) :
    l ∈ (s.splitOnP p).tail.dropLast ↔
      ∃ c d, p c = true ∧ p d = true ∧ c :: (l ++ [d]) <:+: s := by
  constructor
  · intro h
    induction s with
    | nil => simp at h
    | cons e s ih =>
      obtain ⟨first, ls, hs⟩ := List.exists_cons_of_ne_nil (List.splitOnP_ne_nil p s)
      rw [List.splitOnP_cons_eq_if_modifyHead] at h
      split_ifs at h with he
      · rw [List.tail_cons, hs] at h
        by_cases hls : ls = []
        · simp [hls] at h
        · rw [List.dropLast_cons_of_ne_nil hls, List.mem_cons] at h
          rcases h with rfl | h
          · obtain ⟨d, rest, hd, rfl⟩ := splitOnP_head hs hls
            exact ⟨e, d, he, hd, [], rest, by simp⟩
          · obtain ⟨c, d, hc, hd, hin⟩ := ih (by rw [hs]; exact h)
            exact ⟨c, d, hc, hd, hin.trans (List.suffix_cons e s).isInfix⟩
      · rw [hs, List.modifyHead_cons, List.tail_cons] at h
        obtain ⟨c, d, hc, hd, hin⟩ := ih (by rw [hs]; exact h)
        exact ⟨c, d, hc, hd, hin.trans (List.suffix_cons e s).isInfix⟩
  · rintro ⟨c, d, hc, hd, a, b, rfl⟩
    have hsplit : (a ++ c :: (l ++ [d]) ++ b).splitOnP p =
        a.splitOnP p ++ l :: b.splitOnP p := by
      have he : a ++ c :: (l ++ [d]) ++ b = a ++ c :: (l ++ d :: b) := by simp
      rw [he, List.splitOnP_append_cons _ _ hc,
        List.splitOnP_append_cons_of_forall_mem (by simpa using hl) d hd]
    rw [hsplit, List.tail_append_of_ne_nil (List.splitOnP_ne_nil p a),
      List.dropLast_append_of_ne_nil (List.cons_ne_nil _ _),
      List.dropLast_cons_of_ne_nil (List.splitOnP_ne_nil p b)]
    simp

end Lines

/-- The first part of `b` runs over the mark after the first part of `a`. -/
def Overruns (mark : χ) (a b : List χ × List χ) : Prop :=
  ∃ w, b.1 = a.1 ++ mark :: w ∧ a.2 = w ++ mark :: b.2

theorem Overruns.ne {mark : χ} {a b : List χ × List χ} (h : Overruns mark a b) : a ≠ b := by
  rintro rfl
  obtain ⟨w, hw, -⟩ := h
  simpa using congrArg List.length hw

/-- Two parts joined by a mark are ambiguous only if a first part runs over the mark
of the other pair. -/
theorem join_eq_iff {mark : χ} {a b : List χ × List χ} :
    a.1 ++ mark :: a.2 = b.1 ++ mark :: b.2 ↔
      a = b ∨ Overruns mark a b ∨ Overruns mark b a := by
  constructor
  · intro h
    rcases List.append_eq_append_iff.mp h with ⟨w, hb, ha⟩ | ⟨w, ha, hb⟩
    · cases w with
      | nil => exact .inl (Prod.ext (by simpa using hb.symm) (by simpa using ha))
      | cons c w =>
        obtain ⟨rfl, hrest⟩ := List.cons.inj ha
        exact .inr (.inl ⟨w, hb, hrest⟩)
    · cases w with
      | nil => exact .inl (Prod.ext (by simpa using ha) (by simpa using hb.symm))
      | cons c w =>
        obtain ⟨rfl, hrest⟩ := List.cons.inj hb
        exact .inr (.inr ⟨w, ha, hrest⟩)
  · rintro (rfl | ⟨w, h₁, h₂⟩ | ⟨w, h₁, h₂⟩)
    · rfl
    · rw [h₁, h₂]
      simp
    · rw [h₁, h₂]
      simp

/-- The mark inside a part makes two pairs one text. -/
example : ['a'] ++ '|' :: ['b', '|', 'c'] = ['a', '|', 'b'] ++ '|' :: ['c'] := by decide +kernel

end Piki.Encoding
