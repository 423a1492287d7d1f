import Piki.Text

/-! Backtracking regular expressions over code points. `results` lists every way
an expression can match at a cursor, in the order in which a backtracking engine
tries them; the first one is the match that it reports. -/
namespace Piki.Regex

/-- Whether a word character precedes the cursor, and the text after it. -/
structure Cursor where
  afterWord : Bool
  rest : List Char
  deriving DecidableEq, Repr

inductive Expr
  | empty
  | set (p : Char → Bool)
  | seq (r s : Expr)
  | alt (r s : Expr)
  | many (greedy : Bool) (r : Expr)
  | upTo (n : ℕ) (r : Expr)
  | wordBoundary
  | atEnd
  | ahead (r : Expr)

def plus (r : Expr) : Expr := .seq r (.many true r)
def optional (r : Expr) : Expr := .alt r .empty
def seqs : List Expr → Expr := List.foldr .seq .empty

/-- Repetition in the order of preference; a round that consumes nothing ends it. -/
def iterate (m : Cursor → List Cursor) (greedy : Bool) : ℕ → Cursor → List Cursor
  | 0, c => [c]
  | n + 1, c =>
    let more := ((m c).filter fun t => t.rest.length < c.rest.length).flatMap (iterate m greedy n)
    if greedy then more ++ [c] else c :: more

section
variable (isWord : Char → Bool)

def boundary (c : Cursor) : Bool := c.afterWord != c.rest.head?.any isWord

def results : Expr → Cursor → List Cursor
  | .empty, c => [c]
  | .set p, c =>
    match c.rest with
    | [] => []
    | x :: xs => if p x then [⟨isWord x, xs⟩] else []
  | .seq r s, c => (results r c).flatMap (results s)
  | .alt r s, c => results r c ++ results s c
  | .many greedy r, c => iterate (results r) greedy c.rest.length c
  | .upTo n r, c => iterate (results r) true n c
  | .wordBoundary, c => if boundary isWord c then [c] else []
  | .atEnd, c => if c.rest = [] ∨ c.rest = ['\n'] then [c] else []
  | .ahead r, c => if results r c = [] then [] else [c]

/-- The match that the engine reports at a cursor. -/
def first (r : Expr) (c : Cursor) : Option Cursor := (results isWord r c).head?

/-- `finditer` for expressions that never match the empty text: the matched texts
from left to right, each search starting where the last match ended. -/
def findIterFrom (r : Expr) : ℕ → Cursor → List (List Char)
  | 0, _ => []
  | n + 1, c =>
    match c.rest with
    | [] => []
    | x :: xs =>
      match first isWord r c with
      | none => findIterFrom r n ⟨isWord x, xs⟩
      | some t =>
        if t.rest.length < c.rest.length then
          c.rest.take (c.rest.length - t.rest.length) :: findIterFrom r n t
        else findIterFrom r n ⟨isWord x, xs⟩

def findIter (r : Expr) (s : List Char) : List (List Char) :=
  findIterFrom isWord r s.length ⟨false, s⟩

def searchFrom (r : Expr) : Bool → List Char → Bool
  | b, [] => (first isWord r ⟨b, []⟩).isSome
  | b, x :: xs => (first isWord r ⟨b, x :: xs⟩).isSome || searchFrom r (isWord x) xs

/-- `search(...) is not None`. -/
def search (r : Expr) (s : List Char) : Bool := searchFrom isWord r false s

theorem mem_iterate_succ {m : Cursor → List Cursor} {greedy : Bool} {n : ℕ} {c t : Cursor} :
    t ∈ iterate m greedy (n + 1) c ↔
      t = c ∨ ∃ v ∈ m c, v.rest.length < c.rest.length ∧ t ∈ iterate m greedy n v := by
  cases greedy
  · simp [iterate, and_assoc]
  · simp [iterate, and_assoc, or_comm]

theorem iterate_closed {R : Cursor → Cursor → Prop} (hrefl : ∀ c, R c c)
    (htrans : ∀ c t v, R c t → R t v → R c v) {m : Cursor → List Cursor}
    (hm : ∀ c, ∀ t ∈ m c, R c t) (greedy : Bool) (n : ℕ) :
    ∀ c, ∀ t ∈ iterate m greedy n c, R c t := by
  induction n with
  | zero =>
    intro c t ht
    rw [List.mem_singleton.mp ht]
    exact hrefl c
  | succ n ih =>
    intro c t ht
    rcases mem_iterate_succ.mp ht with rfl | ⟨v, hv, -, ht⟩
    · exact hrefl t
    · exact htrans c v t (hm c v hv) (ih v t ht)

theorem iterate_end {m : Cursor → List Cursor} {greedy : Bool} (n : ℕ) {c : Cursor}
    (h : c.rest.length = 0) : iterate m greedy n c = [c] := by
  cases n with
  | zero => rfl
  | succ n => cases greedy <;> simp [iterate, h]

/-- Fuel beyond the length of the text is never used. -/
theorem iterate_fuel {m : Cursor → List Cursor} {greedy : Bool} {n : ℕ} :
    ∀ {k : ℕ} {c : Cursor}, c.rest.length ≤ n → c.rest.length ≤ k →
      iterate m greedy n c = iterate m greedy k c := by
  induction n with
  | zero =>
    intro k c hn hk
    rw [iterate_end _ (by omega), iterate_end _ (by omega)]
  | succ n ih =>
    intro k c hn hk
    cases k with
    | zero => rw [iterate_end _ (by omega), iterate_end _ (by omega)]
    | succ k =>
      have hround : ((m c).filter fun t => t.rest.length < c.rest.length).flatMap
            (iterate m greedy n) =
          ((m c).filter fun t => t.rest.length < c.rest.length).flatMap (iterate m greedy k) := by
        refine List.flatMap_congr ?_
        intro t ht
        have hlt : t.rest.length < c.rest.length := by simpa using (List.mem_filter.mp ht).2
        exact ih (by omega) (by omega)
      simp only [iterate, hround]

/-- A search goes on where the last match ended. -/
example : findIter Char.isAlphanum (plus (.set Char.isDigit)) "a12b3".toList =
    ["12".toList, "3".toList] := by decide +kernel

/-- The cursor `t` is reached from `c` by consuming `d`. -/
structure Consumes (c : Cursor) (d : List Char) (t : Cursor) : Prop where
  text : c.rest = d ++ t.rest
  after : t.afterWord = (d.getLast?.map isWord).getD c.afterWord

variable {isWord}

theorem Consumes.refl (c : Cursor) : Consumes isWord c [] c := ⟨rfl, rfl⟩

theorem Consumes.one {p : Char → Bool} {c t : Cursor} (h : t ∈ results isWord (.set p) c) :
    ∃ x, p x = true ∧ Consumes isWord c [x] t := by
  obtain ⟨b, rest⟩ := c
  cases rest with
  | nil => simp [results] at h
  | cons x xs =>
    simp only [results] at h
    split_ifs at h with hp
    · rw [List.mem_singleton.mp h]
      exact ⟨x, hp, rfl, rfl⟩
    · simp at h

theorem Consumes.trans {c t v : Cursor} {d e : List Char} (h : Consumes isWord c d t)
    (k : Consumes isWord t e v) : Consumes isWord c (d ++ e) v := by
  refine ⟨by rw [h.text, k.text, List.append_assoc], ?_⟩
  rw [k.after, h.after, List.getLast?_append]
  cases e.getLast? <;> rfl

theorem Consumes.take {c t : Cursor} {d : List Char} (h : Consumes isWord c d t) :
    c.rest.take (c.rest.length - t.rest.length) = d := by
  rw [h.text]
  simp

/-- Characters that some set of the expression accepts satisfy `q`. -/
def Within (q : Char → Prop) : Expr → Prop
  | .set p => ∀ x, p x = true → q x
  | .seq r s | .alt r s => Within q r ∧ Within q s
  | .many _ r | .upTo _ r => Within q r
  | .empty | .wordBoundary | .atEnd | .ahead _ => True

/-- A match consumes characters that the sets of the expression accept. -/
theorem results_consumes {q : Char → Prop} {r : Expr} (h : Within q r) :
    ∀ c, ∀ t ∈ results isWord r c, ∃ d, (∀ x ∈ d, q x) ∧ Consumes isWord c d t := by
  have hrefl : ∀ c : Cursor, ∃ d, (∀ x ∈ d, q x) ∧ Consumes isWord c d c :=
    fun c => ⟨[], by simp, .refl c⟩
  have htrans : ∀ c t v : Cursor, (∃ d, (∀ x ∈ d, q x) ∧ Consumes isWord c d t) →
      (∃ d, (∀ x ∈ d, q x) ∧ Consumes isWord t d v) →
      ∃ d, (∀ x ∈ d, q x) ∧ Consumes isWord c d v := by
    rintro c t v ⟨d, hd, hc⟩ ⟨e, he, ht⟩
    refine ⟨d ++ e, ?_, hc.trans ht⟩
    intro x hx
    rcases List.mem_append.mp hx with hx | hx
    · exact hd x hx
    · exact he x hx
  induction r with
  | empty => intro c t ht; rw [List.mem_singleton.mp ht]; exact hrefl c
  | set p =>
    intro c t ht
    obtain ⟨x, hp, hc⟩ := Consumes.one ht
    exact ⟨[x], by simpa using h x hp, hc⟩
  | seq r s ihr ihs =>
    intro c t ht
    obtain ⟨v, hv, ht⟩ := List.mem_flatMap.mp ht
    exact htrans c v t (ihr h.1 c v hv) (ihs h.2 v t ht)
  | alt r s ihr ihs =>
    intro c t ht
    rcases List.mem_append.mp ht with ht | ht
    · exact ihr h.1 c t ht
    · exact ihs h.2 c t ht
  | many greedy r ih =>
    intro c t ht
    exact iterate_closed hrefl htrans (ih h) greedy _ c t ht
  | upTo n r ih =>
    intro c t ht
    exact iterate_closed hrefl htrans (ih h) true n c t ht
  | wordBoundary | atEnd | ahead =>
    intro c t ht
    simp only [results] at ht
    split_ifs at ht
    all_goals first
      | (rw [List.mem_singleton.mp ht]; exact hrefl c)
      | simp at ht

theorem within_true (r : Expr) : Within (fun _ => True) r := by
  induction r with
  | set => intro _ _; trivial
  | seq r s ihr ihs => exact ⟨ihr, ihs⟩
  | alt r s ihr ihs => exact ⟨ihr, ihs⟩
  | many g r ih => exact ih
  | upTo n r ih => exact ih
  | empty | wordBoundary | atEnd | ahead => trivial

/-- Every match needs a character outside `q`. -/
def Avoids (q : Char → Prop) : Expr → Prop
  | .set p => ∀ x, q x → p x = false
  | .seq r s => Avoids q r ∨ Avoids q s
  | .alt r s => Avoids q r ∧ Avoids q s
  | .ahead r => Avoids q r
  | .empty | .many _ _ | .upTo _ _ | .wordBoundary | .atEnd => False

theorem results_avoids {q : Char → Prop} {r : Expr} (h : Avoids q r) :
    ∀ c : Cursor, (∀ x ∈ c.rest, q x) → results isWord r c = [] := by
  induction r with
  | set p =>
    intro c hc
    obtain ⟨b, rest⟩ := c
    cases rest with
    | nil => rfl
    | cons x xs => simp [results, h x (hc x List.mem_cons_self)]
  | seq r s ihr ihs =>
    intro c hc
    rcases h with h | h
    · simp [results, ihr h c hc]
    · simp only [results, List.flatMap_eq_nil_iff]
      intro t ht
      obtain ⟨d, -, hd⟩ := results_consumes (within_true r) c t ht
      refine ihs h t ?_
      intro x hx
      exact hc x (by rw [hd.text]; exact List.mem_append_right _ hx)
  | alt r s ihr ihs =>
    intro c hc
    simp [results, ihr h.1 c hc, ihs h.2 c hc]
  | ahead r ih =>
    intro c hc
    simp [results, ih h c hc]
  | empty | many | upTo | wordBoundary | atEnd => cases h

theorem findIterFrom_avoids {q : Char → Prop} {r : Expr} (h : Avoids q r) (n : ℕ) :
    ∀ c : Cursor, (∀ x ∈ c.rest, q x) → findIterFrom isWord r n c = [] := by
  induction n with
  | zero => intro c _; rfl
  | succ n ih =>
    intro c hc
    obtain ⟨b, rest⟩ := c
    cases rest with
    | nil => rfl
    | cons x xs =>
      have hf : first isWord r ⟨b, x :: xs⟩ = none := by simp [first, results_avoids h _ hc]
      simp only [findIterFrom, hf]
      exact ih _ fun y hy => hc y (List.mem_cons_of_mem _ hy)

theorem searchFrom_avoids {q : Char → Prop} {r : Expr} (h : Avoids q r) (s : List Char) :
    ∀ b, (∀ x ∈ s, q x) → searchFrom isWord r b s = false := by
  induction s with
  | nil => intro b hs; simp [searchFrom, first, results_avoids h ⟨b, []⟩ hs]
  | cons x xs ih =>
    intro b hs
    have hf : first isWord r ⟨b, x :: xs⟩ = none := by simp [first, results_avoids h ⟨b, _⟩ hs]
    simp only [searchFrom, hf, Option.isSome_none, Bool.false_or]
    exact ih _ fun y hy => hs y (List.mem_cons_of_mem _ hy)

/-- What a reported token is: the text of the match at some later cursor. -/
theorem mem_findIterFrom {r : Expr} {d : List Char} (n : ℕ) :
    ∀ c, d ∈ findIterFrom isWord r n c → ∃ pre v t, Consumes isWord c pre v ∧
      t ∈ results isWord r v ∧ Consumes isWord v d t := by
  induction n with
  | zero => intro c hd; simp [findIterFrom] at hd
  | succ n ih =>
    intro c hd
    obtain ⟨b, rest⟩ := c
    cases rest with
    | nil => simp [findIterFrom] at hd
    | cons x xs =>
      have hskip : d ∈ findIterFrom isWord r n ⟨isWord x, xs⟩ → ∃ pre v t,
          Consumes isWord ⟨b, x :: xs⟩ pre v ∧ t ∈ results isWord r v ∧ Consumes isWord v d t := by
        intro hd
        obtain ⟨pre, v, t, hp, ht, hv⟩ := ih _ hd
        have hx : Consumes isWord ⟨b, x :: xs⟩ [x] ⟨isWord x, xs⟩ := ⟨rfl, rfl⟩
        exact ⟨[x] ++ pre, v, t, hx.trans hp, ht, hv⟩
      cases hf : first isWord r ⟨b, x :: xs⟩ with
      | none =>
        simp only [findIterFrom, hf] at hd
        exact hskip hd
      | some t =>
        simp only [findIterFrom, hf] at hd
        split_ifs at hd with hlt
        · have ht : t ∈ results isWord r ⟨b, x :: xs⟩ := List.mem_of_head? hf
          obtain ⟨e, -, he⟩ := results_consumes (within_true r) _ t ht
          rcases List.mem_cons.mp hd with rfl | hd
          · exact ⟨[], _, t, .refl _, ht, by rw [he.take]; exact he⟩
          · obtain ⟨pre, v, u, hp, hu, hv⟩ := ih t hd
            exact ⟨e ++ pre, v, u, he.trans hp, hu, hv⟩
        · exact hskip hd

theorem findIterFrom_end {r : Expr} (n : ℕ) (b : Bool) : findIterFrom isWord r n ⟨b, []⟩ = [] := by
  cases n <;> rfl

/-- A text that the expression matches in full at its start is its only token. -/
theorem findIter_eq_self {r : Expr} {d : List Char} (hd : d ≠ []) {b : Bool}
    (h : first isWord r ⟨false, d⟩ = some ⟨b, []⟩) : findIter isWord r d = [d] := by
  cases d with
  | nil => exact absurd rfl hd
  | cons x xs => simp [findIter, findIterFrom, h, findIterFrom_end]

theorem first_seq {r s : Expr} {c t v : Cursor} (hr : first isWord r c = some t)
    (hs : first isWord s t = some v) : first isWord (.seq r s) c = some v := by
  unfold first at *
  cases h : results isWord r c with
  | nil => simp [h] at hr
  | cons a as =>
    have ha : a = t := by simpa [h] using hr
    subst ha
    simp [results, h, List.head?_append, hs]

theorem first_iterate_more {m : Cursor → List Cursor} {n : ℕ} {c t v : Cursor}
    (hm : (m c).head? = some t) (hlt : t.rest.length < c.rest.length)
    (hv : (iterate m true n t).head? = some v) : (iterate m true (n + 1) c).head? = some v := by
  cases h : m c with
  | nil => simp [h] at hm
  | cons a as =>
    have ha : a = t := by simpa [h] using hm
    subst ha
    simp [iterate, h, hlt, List.head?_append, hv]

theorem first_iterate_stop {m : Cursor → List Cursor} {c : Cursor} (n : ℕ) (hm : m c = []) :
    (iterate m true n c).head? = some c := by
  cases n <;> simp [iterate, hm]

/-- Fuel beyond the length of the text is never used. -/
theorem findIterFrom_fuel {r : Expr} {n : ℕ} :
    ∀ {k : ℕ} {c : Cursor}, c.rest.length ≤ n → c.rest.length ≤ k →
      findIterFrom isWord r n c = findIterFrom isWord r k c := by
  induction n with
  | zero =>
    intro k c hn hk
    obtain ⟨b, rest⟩ := c
    cases List.eq_nil_of_length_eq_zero (Nat.le_zero.mp hn)
    rw [findIterFrom_end, findIterFrom_end]
  | succ n ih =>
    intro k c hn hk
    obtain ⟨b, rest⟩ := c
    cases rest with
    | nil => rw [findIterFrom_end, findIterFrom_end]
    | cons x xs =>
      cases k with
      | zero => simp at hk
      | succ k =>
        simp only [List.length_cons, Nat.add_le_add_iff_right] at hn hk
        have hnext : findIterFrom isWord r n ⟨isWord x, xs⟩ = findIterFrom isWord r k ⟨isWord x, xs⟩ :=
          ih hn hk
        cases hf : first isWord r ⟨b, x :: xs⟩ with
        | none => simp only [findIterFrom, hf, hnext]
        | some t =>
          simp only [findIterFrom, hf, hnext, List.length_cons]
          split_ifs with hlt
          · have ht : findIterFrom isWord r n t = findIterFrom isWord r k t :=
              ih (by omega) (by omega)
            rw [ht]
          · rfl

/-- Every match consumes a character of `q`. -/
def Needs (q : Char → Prop) : Expr → Prop
  | .set p => ∀ x, p x = true → q x
  | .seq r s => Needs q r ∨ Needs q s
  | .alt r s => Needs q r ∧ Needs q s
  | .empty | .many _ _ | .upTo _ _ | .wordBoundary | .atEnd | .ahead _ => False

theorem results_needs {q : Char → Prop} {r : Expr} (h : Needs q r) :
    ∀ c, ∀ t ∈ results isWord r c, ∃ d, (∃ x ∈ d, q x) ∧ Consumes isWord c d t := by
  induction r with
  | set p =>
    intro c t ht
    obtain ⟨x, hp, hc⟩ := Consumes.one ht
    exact ⟨[x], ⟨x, List.mem_singleton_self x, h x hp⟩, hc⟩
  | seq r s ihr ihs =>
    intro c t ht
    obtain ⟨v, hv, ht⟩ := List.mem_flatMap.mp ht
    obtain ⟨d, -, hd⟩ := results_consumes (within_true r) c v hv
    obtain ⟨e, -, he⟩ := results_consumes (within_true s) v t ht
    rcases h with h | h
    · obtain ⟨d', ⟨x, hx, hq⟩, hd'⟩ := ihr h c v hv
      exact ⟨d' ++ e, ⟨x, List.mem_append_left _ hx, hq⟩, hd'.trans he⟩
    · obtain ⟨e', ⟨x, hx, hq⟩, he'⟩ := ihs h v t ht
      exact ⟨d ++ e', ⟨x, List.mem_append_right _ hx, hq⟩, hd.trans he'⟩
  | alt r s ihr ihs =>
    intro c t ht
    rcases List.mem_append.mp ht with ht | ht
    · exact ihr h.1 c t ht
    · exact ihs h.2 c t ht
  | empty | many | upTo | wordBoundary | atEnd | ahead => cases h

theorem Consumes.unique {c t : Cursor} {d e : List Char} (h : Consumes isWord c d t)
    (k : Consumes isWord c e t) : d = e :=
  List.append_cancel_right (h.text.symm.trans k.text)

theorem mem_wordBoundary {c t : Cursor} (h : t ∈ results isWord .wordBoundary c) :
    t = c ∧ c.afterWord ≠ c.rest.head?.any isWord := by
  simp only [results] at h
  split_ifs at h with hb
  · exact ⟨List.mem_singleton.mp h, by simpa [boundary] using hb⟩
  · simp at h

theorem mem_ahead {r : Expr} {c t : Cursor} (h : t ∈ results isWord (.ahead r) c) :
    t = c ∧ ∃ v, v ∈ results isWord r c := by
  simp only [results] at h
  split_ifs at h with hr
  · simp at h
  · exact ⟨List.mem_singleton.mp h, List.exists_mem_of_ne_nil _ hr⟩

theorem mem_iterate_self (m : Cursor → List Cursor) (greedy : Bool) (n : ℕ) (c : Cursor) :
    c ∈ iterate m greedy n c := by
  cases n <;> cases greedy <;> simp [iterate]

theorem mem_optional {r : Expr} {c t : Cursor} (h : t ∈ results isWord (optional r) c) :
    t ∈ results isWord r c ∨ t = c := by
  rcases List.mem_append.mp h with h | h
  · exact .inl h
  · exact .inr (List.mem_singleton.mp h)

/-- A scan that reports nothing has tried every position of the text. -/
theorem results_of_findIterFrom_nil {r : Expr}
    (hr : ∀ c, ∀ t ∈ results isWord r c, t.rest.length < c.rest.length) (n : ℕ) :
    ∀ c : Cursor, c.rest.length ≤ n → findIterFrom isWord r n c = [] →
      ∀ pre v, Consumes isWord c pre v → results isWord r v = [] := by
  have hend : ∀ v : Cursor, v.rest = [] → results isWord r v = [] := by
    intro v hv
    rw [List.eq_nil_iff_forall_not_mem]
    intro t ht
    have := hr v t ht
    simp [hv] at this
  induction n with
  | zero =>
    intro c hc _ pre v hv
    have hnil : c.rest = [] := List.eq_nil_of_length_eq_zero (Nat.le_zero.mp hc)
    exact hend v (List.append_eq_nil_iff.mp (hv.text.symm.trans hnil)).2
  | succ n ih =>
    intro c hc hnone pre v hv
    obtain ⟨b, rest⟩ := c
    cases rest with
    | nil => exact hend v (List.append_eq_nil_iff.mp hv.text.symm).2
    | cons x xs =>
      cases hf : first isWord r ⟨b, x :: xs⟩ with
      | some t =>
        have hlt := hr _ t (List.mem_of_head? hf)
        simp only [findIterFrom, hf, if_pos hlt] at hnone
        cases hnone
      | none =>
        simp only [findIterFrom, hf] at hnone
        cases pre with
        | nil =>
          obtain ⟨a, rest⟩ := v
          obtain ⟨htext, hafter⟩ := hv
          simp only [List.nil_append] at htext
          simp only [List.getLast?_nil, Option.map_none, Option.getD_none] at hafter
          subst htext
          subst hafter
          exact List.head?_eq_none_iff.mp hf
        | cons y ys =>
          have htext : x = y ∧ xs = ys ++ v.rest := List.cons.inj hv.text
          refine ih ⟨isWord x, xs⟩ (by simpa using hc) hnone ys v ⟨htext.2, ?_⟩
          rw [hv.after, htext.1, List.getLast?_cons]
          cases ys.getLast? <;> rfl

/-- No set accepts a character of `q`, and no assertion looks at one. -/
def Skips (q : Char → Prop) : Expr → Prop
  | .set p => ∀ x, q x → p x = false
  | .seq r s | .alt r s => Skips q r ∧ Skips q s
  | .many _ r | .upTo _ r => Skips q r
  | .empty | .wordBoundary => True
  | .atEnd | .ahead _ => False

def Cursor.pad (post : List Char) (c : Cursor) : Cursor := ⟨c.afterWord, c.rest ++ post⟩

@[simp] theorem Cursor.pad_rest (post : List Char) (c : Cursor) :
    (c.pad post).rest = c.rest ++ post := rfl

theorem iterate_pad {post : List Char} {m : Cursor → List Cursor}
    (hm : ∀ c : Cursor, m (c.pad post) = (m c).map (Cursor.pad post)) (greedy : Bool) (n : ℕ) :
    ∀ c : Cursor, iterate m greedy n (c.pad post) = (iterate m greedy n c).map (Cursor.pad post) := by
  induction n with
  | zero => intro c; rfl
  | succ n ih =>
    intro c
    have hround : ((m (c.pad post)).filter fun t => t.rest.length < (c.pad post).rest.length).flatMap
          (iterate m greedy n) =
        (((m c).filter fun t => t.rest.length < c.rest.length).flatMap (iterate m greedy n)).map
          (Cursor.pad post) := by
      rw [hm, List.filter_map, List.flatMap_map, List.map_flatMap]
      have hf : ((fun t : Cursor => decide (t.rest.length < (c.pad post).rest.length)) ∘
          Cursor.pad post) = fun t : Cursor => decide (t.rest.length < c.rest.length) := by
        funext t
        simp
      rw [hf]
      exact List.flatMap_congr fun t _ => ih t
    cases greedy <;> simp only [iterate, hround] <;> simp

theorem skips_within {q : Char → Prop} {r : Expr} (h : Skips q r) : Within (fun x => ¬ q x) r := by
  induction r with
  | set p =>
    intro x hp hq
    rw [h x hq] at hp
    cases hp
  | seq r s ihr ihs => exact ⟨ihr h.1, ihs h.2⟩
  | alt r s ihr ihs => exact ⟨ihr h.1, ihs h.2⟩
  | many g r ih => exact ih h
  | upTo n r ih => exact ih h
  | empty | wordBoundary | atEnd | ahead => trivial

section
variable {q : Char → Prop} (hword : ∀ x, q x → isWord x = false)
include hword

/-- Padding the text with characters that the expression skips changes no match. -/
theorem results_pad {r : Expr} (h : Skips q r) {post : List Char} (hpost : ∀ x ∈ post, q x) :
    ∀ c : Cursor, results isWord r (c.pad post) = (results isWord r c).map (Cursor.pad post) := by
  induction r with
  | empty => intro c; rfl
  | set p =>
    intro c
    obtain ⟨b, rest⟩ := c
    cases rest with
    | nil =>
      cases post with
      | nil => rfl
      | cons y ys => simp [results, Cursor.pad, h y (hpost y List.mem_cons_self)]
    | cons x xs =>
      simp only [results, Cursor.pad, List.cons_append]
      split_ifs <;> rfl
  | seq r s ihr ihs =>
    intro c
    simp only [results, ihr h.1 c, List.flatMap_map, List.map_flatMap]
    exact List.flatMap_congr fun t _ => ihs h.2 t
  | alt r s ihr ihs =>
    intro c
    simp [results, ihr h.1 c, ihs h.2 c]
  | many greedy r ih =>
    intro c
    simp only [results, iterate_pad (ih h)]
    rw [iterate_fuel (k := c.rest.length) (by simp) (Nat.le_refl _)]
  | upTo n r ih => intro c; exact iterate_pad (ih h) true n c
  | wordBoundary =>
    intro c
    have hb : boundary isWord (c.pad post) = boundary isWord c := by
      obtain ⟨b, rest⟩ := c
      cases rest with
      | cons x xs => rfl
      | nil =>
        cases post with
        | nil => rfl
        | cons y ys => simp [boundary, Cursor.pad, hword y (hpost y List.mem_cons_self)]
    simp only [results, hb]
    split_ifs <;> rfl
  | atEnd | ahead => cases h

/-- A skipped character in front starts no match. -/
theorem findIterFrom_skip {r : Expr} (h : Skips q r) {x : Char} (hx : q x) (n : ℕ) (b : Bool)
    (xs : List Char) :
    findIterFrom isWord r (n + 1) ⟨b, x :: xs⟩ = findIterFrom isWord r n ⟨false, xs⟩ := by
  have hlen : ∀ t ∈ results isWord r ⟨b, x :: xs⟩, ¬ t.rest.length < (x :: xs).length := by
    intro t ht hlt
    obtain ⟨d, hd, hc⟩ := results_consumes (skips_within h) _ t ht
    cases d with
    | nil =>
      rw [show x :: xs = t.rest from hc.text] at hlt
      omega
    | cons y ys =>
      have he : x = y := (List.cons.inj hc.text).1
      exact hd y List.mem_cons_self (he ▸ hx)
  cases hf : first isWord r ⟨b, x :: xs⟩ with
  | none => simp only [findIterFrom, hf, hword x hx]
  | some t =>
    have ht := hlen t (List.mem_of_head? hf)
    simp only [findIterFrom, hf, ht, if_false, hword x hx]

theorem findIterFrom_pre {r : Expr} (h : Skips q r) {pre : List Char} (hpre : ∀ x ∈ pre, q x)
    (s : List Char) :
    findIterFrom isWord r (pre ++ s).length ⟨false, pre ++ s⟩ =
      findIterFrom isWord r s.length ⟨false, s⟩ := by
  induction pre with
  | nil => rfl
  | cons x xs ih =>
    have hx := hpre x List.mem_cons_self
    rw [List.cons_append, List.length_cons, findIterFrom_skip hword h hx]
    exact ih fun y hy => hpre y (List.mem_cons_of_mem _ hy)

theorem findIterFrom_skipped {r : Expr} (h : Skips q r) {post : List Char}
    (hpost : ∀ x ∈ post, q x) (n : ℕ) (b : Bool) : findIterFrom isWord r n ⟨b, post⟩ = [] := by
  induction post generalizing n b with
  | nil => exact findIterFrom_end n b
  | cons y ys ih =>
    cases n with
    | zero => rfl
    | succ n =>
      rw [findIterFrom_skip hword h (hpost y List.mem_cons_self)]
      exact ih (fun x hx => hpost x (List.mem_cons_of_mem _ hx)) n false

theorem findIterFrom_pad {r : Expr} (h : Skips q r) {post : List Char} (hpost : ∀ x ∈ post, q x)
    (n : ℕ) : ∀ c : Cursor, c.rest.length ≤ n →
    findIterFrom isWord r (n + post.length) (c.pad post) = findIterFrom isWord r n c := by
  induction n with
  | zero =>
    intro c hc
    obtain ⟨b, rest⟩ := c
    cases List.eq_nil_of_length_eq_zero (Nat.le_zero.mp hc)
    exact findIterFrom_skipped hword h hpost _ b
  | succ n ih =>
    intro c hc
    obtain ⟨b, rest⟩ := c
    cases rest with
    | nil =>
      rw [findIterFrom_end]
      exact findIterFrom_skipped hword h hpost _ b
    | cons x xs =>
      simp only [List.length_cons, Nat.add_le_add_iff_right] at hc
      have hpad : first isWord r ⟨b, x :: (xs ++ post)⟩ =
          (first isWord r ⟨b, x :: xs⟩).map (Cursor.pad post) := by
        have hr := results_pad hword h hpost ⟨b, x :: xs⟩
        simp only [first, ← List.head?_map, ← hr]
        rfl
      have hnext := ih ⟨isWord x, xs⟩ hc
      simp only [Cursor.pad] at hnext
      rw [Nat.add_right_comm]
      cases hf : first isWord r ⟨b, x :: xs⟩ with
      | none =>
        simp only [findIterFrom, Cursor.pad, List.cons_append, hpad, hf, Option.map_none, hnext]
      | some t =>
        have hlen : t.rest.length ≤ xs.length + 1 := by
          obtain ⟨d, -, hd⟩ := results_consumes (within_true r) _ t (List.mem_of_head? hf)
          have := congrArg List.length hd.text
          simp only [List.length_cons, List.length_append] at this
          omega
        simp only [findIterFrom, Cursor.pad, List.cons_append, hpad, hf, Option.map_some, hnext,
          List.length_cons, List.length_append]
        by_cases hlt : t.rest.length < xs.length + 1
        · have hlt' : t.rest.length + post.length < xs.length + post.length + 1 := by omega
          have hk : xs.length + post.length + 1 - (t.rest.length + post.length) =
              xs.length + 1 - t.rest.length := by omega
          have ht := ih t (by omega)
          simp only [Cursor.pad] at ht
          have htake : (x :: (xs ++ post)).take (xs.length + 1 - t.rest.length) =
              (x :: xs).take (xs.length + 1 - t.rest.length) := by
            rw [← List.cons_append, List.take_append_of_le_length (by simp)]
          rw [if_pos hlt, if_pos hlt', hk, ht, htake]
        · have hlt' : ¬ t.rest.length + post.length < xs.length + post.length + 1 := by omega
          rw [if_neg hlt, if_neg hlt']

/-- Skipped characters around a text change none of its tokens. -/
theorem findIter_trim {r : Expr} (h : Skips q r) {pre post : List Char} (hpre : ∀ x ∈ pre, q x)
    (hpost : ∀ x ∈ post, q x) (s : List Char) :
    findIter isWord r (pre ++ s ++ post) = findIter isWord r s := by
  have hp := findIterFrom_pad hword h hpost s.length ⟨false, s⟩ (Nat.le_refl _)
  rw [findIter, List.append_assoc, findIterFrom_pre hword h hpre, List.length_append]
  exact hp

end

end
end Piki.Regex
