import Piki.Text

/-! The words of a text. Collapsing whitespace keeps them, and a part of a text
collapses to a part of the collapsed text. -/
namespace Piki.Text

theorem split_append_space (a b : List Char) {c : Char} (hc : isSpace c = true) :
    split (a ++ c :: b) = split a ++ split b := by
  rw [split, List.splitOnP_append_cons a b hc, List.filter_append]
  rfl

theorem split_word {w : List Char} (hne : w ≠ []) (h : ∀ c ∈ w, isSpace c = false) :
    split w = [w] := by
  rw [split, List.splitOnP_eq_singleton h]
  simp [hne]

/-- A text is one word, or it can be cut at its first space. -/
theorem first_space (s : List Char) : (∀ c ∈ s, isSpace c = false) ∨
    ∃ a c b, s = a ++ c :: b ∧ isSpace c = true ∧ ∀ x ∈ a, isSpace x = false := by
  induction s with
  | nil => exact .inl (by simp)
  | cons x xs ih =>
    cases hx : isSpace x with
    | true => exact .inr ⟨[], x, xs, rfl, hx, by simp⟩
    | false =>
      rcases ih with h | ⟨a, c, b, rfl, hc, ha⟩
      · exact .inl (by simpa [hx] using h)
      · exact .inr ⟨x :: a, c, b, rfl, hc, by simpa [hx] using ha⟩

theorem mem_split (s : List Char) : ∀ w ∈ split s, w ≠ [] ∧ ∀ c ∈ w, isSpace c = false := by
  induction hn : s.length using Nat.strong_induction_on generalizing s with
  | _ n ih =>
    subst hn
    have hword : ∀ a : List Char, (∀ c ∈ a, isSpace c = false) →
        ∀ w ∈ split a, w ≠ [] ∧ ∀ c ∈ w, isSpace c = false := by
      intro a ha w hw
      by_cases hne : a = []
      · simp [hne, split] at hw
      · rw [split_word hne ha, List.mem_singleton] at hw
        exact hw ▸ ⟨hne, ha⟩
    rcases first_space s with h | ⟨a, c, b, rfl, hc, ha⟩
    · exact hword s h
    · intro w hw
      rw [split_append_space a b hc] at hw
      rcases List.mem_append.mp hw with hw | hw
      · exact hword a ha w hw
      · exact ih b.length (by simp; omega) b rfl w hw

theorem split_intercalate {ws : List (List Char)}
    (h : ∀ w ∈ ws, w ≠ [] ∧ ∀ c ∈ w, isSpace c = false) : split ([' '].intercalate ws) = ws := by
  induction ws with
  | nil => rfl
  | cons w ws ih =>
    obtain ⟨hne, hw⟩ := h w List.mem_cons_self
    have hrest := ih fun v hv => h v (List.mem_cons_of_mem _ hv)
    cases ws with
    | nil => simpa [List.intercalate] using split_word hne hw
    | cons v vs =>
      have hcut : [' '].intercalate (w :: v :: vs) = w ++ ' ' :: [' '].intercalate (v :: vs) := by
        simp [List.intercalate]
      rw [hcut, split_append_space _ _ (by decide), split_word hne hw, hrest]
      rfl

theorem split_collapse (s : List Char) : split (collapse s) = split s :=
  split_intercalate (mem_split s)

example : split " hay\t picks\n".toList = ["hay".toList, "picks".toList] := by decide +kernel

section
variable {f : Char → List Char} (hf : ∀ c, isSpace c = true → f c = [c])
include hf

/-- A map of characters that keeps whitespace acts on the words one by one. -/
theorem split_flatMap (s : List Char) :
    split (s.flatMap f) = (split s).flatMap fun w => split (w.flatMap f) := by
  have hword : ∀ a : List Char, (∀ c ∈ a, isSpace c = false) →
      split (a.flatMap f) = (split a).flatMap fun w => split (w.flatMap f) := by
    intro a ha
    by_cases hne : a = []
    · simp [hne, split]
    · simp [split_word hne ha]
  induction hn : s.length using Nat.strong_induction_on generalizing s with
  | _ n ih =>
    subst hn
    rcases first_space s with h | ⟨a, c, b, rfl, hc, ha⟩
    · exact hword s h
    · have hb := ih b.length (by simp; omega) b rfl
      rw [List.flatMap_append, List.flatMap_cons, hf c hc, List.singleton_append,
        split_append_space _ _ hc, split_append_space _ _ hc, List.flatMap_append, hword a ha, hb]

theorem collapse_flatMap_collapse (s : List Char) :
    collapse ((collapse s).flatMap f) = collapse (s.flatMap f) := by
  rw [collapse, split_flatMap hf, split_collapse, ← split_flatMap hf, ← collapse]

end

theorem collapse_cons_space (s : List Char) {c : Char} (hc : isSpace c = true) :
    collapse (c :: s) = collapse s := by
  have h := split_append_space [] s hc
  rw [collapse, show c :: s = [] ++ c :: s from rfl, h]
  rfl

/-- What a character of a word adds to the collapsed text: a blank follows it where a
word ends before another one. -/
theorem collapse_cons (s : List Char) {c : Char} (hc : isSpace c = false) :
    collapse (c :: s) = c :: (if s.head?.any (fun x => !isSpace x) || (collapse s).isEmpty then
      collapse s else ' ' :: collapse s) := by
  obtain ⟨w, ws, hs⟩ := List.exists_cons_of_ne_nil (List.splitOnP_ne_nil isSpace s)
  have hcons : split (c :: s) = (c :: w) :: ws.filter (· ≠ []) := by
    rw [split, List.splitOnP_cons_eq_if_modifyHead, hs]
    simp [hc]
  have htail : split s = ([w].filter (· ≠ [])) ++ ws.filter (· ≠ []) := by
    rw [split, hs, ← List.filter_append]
    rfl
  have hhead : s.head?.any (fun x => !isSpace x) = true ↔ w ≠ [] := by
    cases s with
    | nil => simp at hs; simp [hs.1]
    | cons d s =>
      rw [List.splitOnP_cons_eq_if_modifyHead] at hs
      obtain ⟨v, vs, hv⟩ := List.exists_cons_of_ne_nil (List.splitOnP_ne_nil isSpace s)
      cases hd : isSpace d with
      | true => simp [hd] at hs; simp [hd, ← hs.1]
      | false => simp [hd, hv] at hs; simp [hd, ← hs.1]
  by_cases hw : w = []
  · have hn : s.head?.any (fun x => !isSpace x) = false := by
      rw [Bool.eq_false_iff]
      exact fun h => hhead.mp h hw
    rw [hw] at hcons htail
    have hs' : split s = ws.filter (· ≠ []) := by simpa using htail
    rw [hn, Bool.false_or, collapse, hcons, collapse, hs']
    cases hws : ws.filter (· ≠ []) with
    | nil => simp [List.intercalate]
    | cons v vs =>
      have hv : v ≠ [] := by
        have hm : v ∈ ws.filter (· ≠ []) := by rw [hws]; exact List.mem_cons_self
        simpa using (List.mem_filter.mp hm).2
      have hne : ([' '].intercalate (v :: vs)).isEmpty = false := by
        cases vs <;> simp [List.intercalate, hv]
      simp [hne]
  · rw [hhead.mpr hw, Bool.true_or, if_pos rfl, collapse, hcons, collapse, htail]
    cases ws.filter (· ≠ []) <;> simp [hw, List.intercalate]

theorem collapse_end (pre s : List Char) : collapse s <:+ collapse (pre ++ s) := by
  induction pre with
  | nil => exact List.suffix_refl _
  | cons c pre ih =>
    refine ih.trans ?_
    rw [List.cons_append]
    cases hc : isSpace c with
    | true => rw [collapse_cons_space _ hc]
    | false =>
      rw [collapse_cons _ hc]
      split_ifs
      · exact List.suffix_cons _ _
      · exact (List.suffix_cons _ _).trans (List.suffix_cons _ _)

theorem collapse_start (s post : List Char) : collapse s <+: collapse (s ++ post) := by
  induction s with
  | nil => exact List.nil_prefix
  | cons c s ih =>
    rw [List.cons_append]
    cases hc : isSpace c with
    | true => rw [collapse_cons_space _ hc, collapse_cons_space _ hc]; exact ih
    | false =>
      rw [collapse_cons _ hc, collapse_cons _ hc, List.prefix_cons_inj]
      cases s with
      | nil => simp [collapse, split, List.intercalate]
      | cons d s =>
        simp only [List.cons_append, List.head?_cons, Option.any_some]
        by_cases hd : isSpace d = false
        · simpa [hd] using ih
        · have hd : isSpace d = true := by simpa using hd
          by_cases he : collapse (d :: s) = []
          · simp [he]
          · have hlong : collapse (d :: (s ++ post)) ≠ [] := by
              intro hnil
              rw [List.cons_append, hnil] at ih
              exact he (List.prefix_nil.mp ih)
            simpa [hd, he, hlong] using ih

/-- A part of a text collapses to a part of the collapsed text. -/
theorem collapse_part {s t : List Char} (h : s <:+: t) : collapse s <:+: collapse t := by
  obtain ⟨pre, post, rfl⟩ := h
  exact (collapse_end pre s).isInfix.trans (collapse_start (pre ++ s) post).isInfix

example : collapse " hay\t picks\n".toList = "hay picks".toList := by decide +kernel

/-- What is put between a character that is no blank and the collapsed rest. -/
def gapBefore (s : List Char) : List Char :=
  if s.head?.any fun x => !isSpace x then [] else [' ']

theorem collapse_cons_gap {s : List Char} {c : Char} (hc : isSpace c = false)
    (hs : collapse s ≠ []) : collapse (c :: s) = c :: (gapBefore s ++ collapse s) := by
  have hempty : (collapse s).isEmpty = false := by simpa using hs
  rw [collapse_cons s hc, hempty, Bool.or_false, gapBefore]
  split_ifs <;> rfl

theorem gapBefore_prefix {x s : List Char} (h : x <+: s) (hx : x ≠ []) :
    gapBefore x = gapBefore s := by
  obtain ⟨rest, rfl⟩ := h
  rw [gapBefore, gapBefore, List.head?_append_of_ne_nil _ hx]

/-- A beginning of a collapsed text that does not end in a blank is a collapsed beginning. -/
theorem collapse_prefix {s q : List Char} (h : q <+: collapse s)
    (hlast : ∀ c, q.getLast? = some c → isSpace c = false) :
    ∃ x, x <+: s ∧ collapse x = q := by
  induction s generalizing q with
  | nil =>
    have hq : q = [] := List.prefix_nil.mp h
    exact ⟨[], List.nil_prefix, hq.symm⟩
  | cons c s ih =>
    cases hc : isSpace c with
    | true =>
      rw [collapse_cons_space s hc] at h
      obtain ⟨x, hx, hcollapse⟩ := ih h hlast
      exact ⟨c :: x, by simpa using hx, by rw [collapse_cons_space x hc, hcollapse]⟩
    | false =>
      by_cases hs : collapse s = []
      · rw [collapse_cons s hc, hs] at h
        have hshort : q <+: [c] := by simpa using h
        rcases List.prefix_cons_iff.mp hshort with rfl | ⟨t, rfl, ht⟩
        · exact ⟨[], List.nil_prefix, rfl⟩
        · rw [List.prefix_nil.mp ht]
          exact ⟨[c], by simp, collapse_of_no_space (by simpa using hc)⟩
      rw [collapse_cons_gap hc hs] at h
      rcases List.prefix_cons_iff.mp h with rfl | ⟨t, rfl, ht⟩
      · exact ⟨[], List.nil_prefix, rfl⟩
      by_cases htne : t = []
      · rw [htne]
        exact ⟨[c], by simp, collapse_of_no_space (by simpa using hc)⟩
      have hend : ∀ d, t.getLast? = some d → isSpace d = false := by
        intro d hd
        exact hlast d (by rw [List.getLast?_cons, hd]; rfl)
      obtain ⟨q, rfl, hq⟩ : ∃ q, t = gapBefore s ++ q ∧ q <+: collapse s := by
        unfold gapBefore at ht ⊢
        split_ifs at ht ⊢ with hjoin
        · exact ⟨t, rfl, ht⟩
        · rcases List.prefix_cons_iff.mp ht with rfl | ⟨q, rfl, hq⟩
          · exact absurd rfl htne
          · exact ⟨q, rfl, hq⟩
      have hqne : q ≠ [] := by
        rintro rfl
        unfold gapBefore at hend htne
        split_ifs at hend htne with hjoin
        · exact htne rfl
        · exact absurd (hend ' ' rfl) (by decide)
      obtain ⟨x, hx, hcollapse⟩ := ih hq (by
        intro d hd
        exact hend d (by rw [List.getLast?_append_of_ne_nil _ hqne]; exact hd))
      have hxne : x ≠ [] := by
        rintro rfl
        exact hqne hcollapse.symm
      refine ⟨c :: x, by simpa using hx, ?_⟩
      rw [collapse_cons_gap hc (by rw [hcollapse]; exact hqne), hcollapse,
        gapBefore_prefix hx hxne]

/-- An end of a collapsed text that does not begin with a blank is a collapsed end. -/
theorem collapse_suffix {s q : List Char} (h : q <:+ collapse s) (hne : q ≠ [])
    (hhead : ∀ c, q.head? = some c → isSpace c = false) :
    ∃ x, x <:+ s ∧ collapse x = q := by
  induction s with
  | nil => exact absurd (List.suffix_nil.mp h) hne
  | cons c s ih =>
    have hdeeper : q <:+ collapse s → ∃ x, x <:+ c :: s ∧ collapse x = q := by
      intro hs
      obtain ⟨x, hx, hcollapse⟩ := ih hs
      exact ⟨x, hx.trans (List.suffix_cons c s), hcollapse⟩
    cases hc : isSpace c with
    | true =>
      rw [collapse_cons_space s hc] at h
      exact hdeeper h
    | false =>
      have hcons := collapse_cons s hc
      rw [hcons] at h
      rcases List.suffix_cons_iff.mp h with heq | hin
      · exact ⟨c :: s, List.suffix_refl _, by rw [hcons, heq]⟩
      · split_ifs at hin
        · exact hdeeper hin
        · rcases List.suffix_cons_iff.mp hin with heq | hin
          · exact absurd (hhead ' ' (by rw [heq]; rfl)) (by decide)
          · exact hdeeper hin

/-- What occurs in a collapsed text is a collapsed part of it, blanks at its ends apart. -/
theorem infix_collapse_iff {s p : List Char} (hne : p ≠ [])
    (hhead : ∀ c, p.head? = some c → isSpace c = false)
    (hlast : ∀ c, p.getLast? = some c → isSpace c = false) :
    p <:+: collapse s ↔ ∃ x, x <:+: s ∧ collapse x = p := by
  constructor
  · rintro ⟨pre, post, h⟩
    have hpre : pre ++ p <+: collapse s := ⟨post, h⟩
    obtain ⟨y, hy, hcollapse⟩ := collapse_prefix hpre (by
      intro c hc
      rw [List.getLast?_append_of_ne_nil _ hne] at hc
      exact hlast c hc)
    obtain ⟨x, hx, hcollapse⟩ := collapse_suffix (s := y) ⟨pre, hcollapse.symm⟩ hne hhead
    exact ⟨x, hx.isInfix.trans hy.isInfix, hcollapse⟩
  · rintro ⟨x, hx, rfl⟩
    exact collapse_part hx

theorem intercalate_flatMap {α : Type} (sep first : List α) (rest : List (List α)) :
    sep.intercalate (first :: rest) = first ++ rest.flatMap fun next => sep ++ next := by
  induction rest generalizing first with
  | nil => simp [List.intercalate]
  | cons next rest ih =>
    have hcut : sep.intercalate (first :: next :: rest) =
        first ++ (sep ++ sep.intercalate (next :: rest)) := by
      simp [List.intercalate]
    rw [hcut, ih next]
    simp

theorem infix_flatMap {α β : Type} {s t : List α} (f : α → List β) (h : s <:+: t) :
    s.flatMap f <:+: t.flatMap f := by
  obtain ⟨pre, post, rfl⟩ := h
  exact ⟨pre.flatMap f, post.flatMap f, by simp⟩

/-- A position of two texts put together lies in one of them. -/
theorem append_cut {α : Type} {s t pre post : List α} {x : α} (h : s ++ t = pre ++ x :: post) :
    (∃ rest, s = pre ++ x :: rest ∧ post = rest ++ t) ∨
      ∃ gap, pre = s ++ gap ∧ t = gap ++ x :: post := by
  rcases List.append_eq_append_iff.mp h with ⟨gap, hpre, ht⟩ | ⟨rest, hs, hrest⟩
  · exact .inr ⟨gap, hpre, ht⟩
  · cases rest with
    | nil =>
      rw [List.append_nil] at hs
      exact .inr ⟨[], by rw [hs, List.append_nil], by simpa using hrest.symm⟩
    | cons y rest =>
      obtain ⟨rfl, hpost⟩ := List.cons.inj hrest
      exact .inl ⟨rest, hs, hpost⟩

/-- A part that does not have the separator lies on one side of it. -/
theorem infix_append_cons {α : Type} {p s t : List α} {x : α} (hx : x ∉ p)
    (h : p <:+: s ++ x :: t) : p <:+: s ∨ p <:+: t := by
  obtain ⟨pre, post, h⟩ := h
  rcases append_cut h with ⟨rest, hcut, ht⟩ | ⟨gap, hcut, ht⟩
  · rcases append_cut hcut with ⟨rest', -, hrest⟩ | ⟨gap, -, hp⟩
    · exact .inr ⟨rest', post, by rw [ht, hrest]⟩
    · exact absurd (hp ▸ by simp) hx
  · exact .inl ⟨pre, gap, hcut.symm⟩

/-- Facts of the character database beyond the ones of every `Unicode`: whitespace has
no case, and the letters of Latin-1 have the case they have there. -/
structure Unicode.Standard (u : Unicode) : Prop where
  space_casefold : ∀ c, isSpace c = true → u.casefold c = [c]
  space_reFold : ∀ c, isSpace c = true → u.reFold c = c
  latin_decimal : ∀ c, c.toNat < 256 → u.isDecimal c = c.isDigit
  latin_upper : ∀ c, c.toNat < 256 → u.upper c = latinUpper c
  latin_reFold : ∀ c, c.toNat < 256 → u.reFold c = latinFold c

theorem toLower_large {c : Char} (h : 256 ≤ c.toNat) : c.toLower = c := by
  have hval : ¬ c.val ≤ 90 := by
    rw [UInt32.le_iff_toNat_le, Char.toNat_val]
    have : (90 : UInt32).toNat = 90 := rfl
    omega
  simp only [Char.toLower, Char.reduceVal, ge_iff_le, hval, and_false, dite_false]

theorem latin_large {c : Char} (h : 256 ≤ c.toNat) : latinCasefold c = [c] ∧ latinFold c = c := by
  have hs : c ≠ 'ß' := by rintro rfl; exact absurd h (by decide)
  have hm : c ≠ 'µ' := by rintro rfl; exact absurd h (by decide)
  have hc : latinCapital c = false := by
    simp only [latinCapital, Bool.and_eq_false_iff, decide_eq_false_iff_not]
    omega
  simp [latinCasefold, latinFold, hs, hm, hc, toLower_large h]

set_option maxRecDepth 10000 in
theorem latin_space {c : Char} (h : c.toNat < 256) : isSpace c = true →
    latinCasefold c = [c] ∧ latinFold c = c := by
  obtain ⟨k, hk, rfl⟩ := char_below h
  clear h
  revert k
  decide

theorem Unicode.latin1_standard : Unicode.latin1.Standard := by
  have hspace : ∀ c, isSpace c = true → latinCasefold c = [c] ∧ latinFold c = c := by
    intro c hc
    by_cases h : c.toNat < 256
    · exact latin_space h hc
    · exact latin_large (by omega)
  exact ⟨fun c hc => (hspace c hc).1, fun c hc => (hspace c hc).2, fun _ _ => rfl, fun _ _ => rfl,
    fun _ _ => rfl⟩

end Piki.Text
