import Piki.Regex

/-! What an expression matches, without the order of the attempts: the matcher reports
exactly the texts of the relation `Matches`. -/
namespace Piki.Regex
variable (isWord : Char → Bool)

/-- Whether a word character precedes the cursor behind `d`. -/
def endWord (b : Bool) (d : List Char) : Bool := (d.getLast?.map isWord).getD b

/-- Up to `n` rounds of matches that are not empty. -/
inductive Rounds (M : Bool → List Char → List Char → Prop) :
    ℕ → Bool → List Char → List Char → Prop
  | stop (n : ℕ) (b : Bool) (rest : List Char) : Rounds M n b [] rest
  | more {n : ℕ} {b : Bool} {d e rest : List Char} (hd : M b d (e ++ rest)) (hne : d ≠ [])
      (he : Rounds M n (endWord isWord b d) e rest) : Rounds M (n + 1) b (d ++ e) rest

/-- The expression matches `d` between a cursor that a word character precedes or not and
the text `rest`. -/
def Matches : Expr → Bool → List Char → List Char → Prop
  | .empty, _, d, _ => d = []
  | .set p, _, d, _ => ∃ x, p x = true ∧ d = [x]
  | .seq r s, b, d, rest => ∃ d₁ d₂, d = d₁ ++ d₂ ∧ Matches r b d₁ (d₂ ++ rest) ∧
      Matches s (endWord isWord b d₁) d₂ rest
  | .alt r s, b, d, rest => Matches r b d rest ∨ Matches s b d rest
  | .many _ r, b, d, rest => ∃ n, Rounds isWord (Matches r) n b d rest
  | .upTo n r, b, d, rest => Rounds isWord (Matches r) n b d rest
  | .wordBoundary, b, d, rest => d = [] ∧ b ≠ rest.head?.any isWord
  | .atEnd, _, d, rest => d = [] ∧ (rest = [] ∨ rest = ['\n'])
  | .ahead r, b, d, rest => d = [] ∧ ∃ e post, rest = e ++ post ∧ Matches r b e post

variable {isWord}

theorem endWord_append (b : Bool) (d e : List Char) :
    endWord isWord b (d ++ e) = endWord isWord (endWord isWord b d) e := by
  unfold endWord
  rw [List.getLast?_append]
  cases e.getLast? <;> rfl

example : endWord Char.isAlphanum false "a-".toList = false := by decide +kernel

theorem Consumes.eq_of_nil {c t : Cursor} (h : Consumes isWord c [] t) : t = c := by
  obtain ⟨b, rest⟩ := c
  obtain ⟨b', rest'⟩ := t
  obtain ⟨htext, hafter⟩ := h
  simp only [List.nil_append, List.getLast?_nil, Option.map_none, Option.getD_none]
    at htext hafter
  rw [htext, hafter]

/-- A consumed text can be consumed in two steps. -/
theorem Consumes.split {c t : Cursor} {d e : List Char} (h : Consumes isWord c (d ++ e) t) :
    Consumes isWord c d ⟨endWord isWord c.afterWord d, e ++ t.rest⟩ ∧
      Consumes isWord ⟨endWord isWord c.afterWord d, e ++ t.rest⟩ e t := by
  refine ⟨⟨?_, rfl⟩, ⟨rfl, ?_⟩⟩
  · rw [h.text, List.append_assoc]
  · exact h.after.trans (endWord_append _ _ _)

section Rounds
variable {M : Bool → List Char → List Char → Prop}

theorem Rounds.mono {n k : ℕ} (h : n ≤ k) {b : Bool} {d rest : List Char}
    (hr : Rounds isWord M n b d rest) : Rounds isWord M k b d rest := by
  induction hr generalizing k with
  | stop n b rest => exact .stop k b rest
  | more hd hne _ ih =>
    obtain ⟨k, rfl⟩ : ∃ j, k = j + 1 := ⟨k - 1, by omega⟩
    exact .more hd hne (ih (by omega))

/-- No more rounds than characters are needed. -/
theorem Rounds.bounded {n : ℕ} {b : Bool} {d rest : List Char}
    (hr : Rounds isWord M n b d rest) : Rounds isWord M d.length b d rest := by
  induction hr with
  | stop n b rest => exact .stop _ b rest
  | @more n b d e rest hd hne _ ih =>
    have hpos : 0 < d.length := List.length_pos_iff.mpr hne
    refine (Rounds.more hd hne ih).mono ?_
    rw [List.length_append]
    omega

theorem mem_iterate_iff {m : Cursor → List Cursor}
    (hm : ∀ c t, t ∈ m c ↔ ∃ d, Consumes isWord c d t ∧ M c.afterWord d t.rest)
    {greedy : Bool} {n : ℕ} {c t : Cursor} :
    t ∈ iterate m greedy n c ↔
      ∃ d, Consumes isWord c d t ∧ Rounds isWord M n c.afterWord d t.rest := by
  induction n generalizing c with
  | zero =>
    constructor
    · intro h
      rw [List.mem_singleton.mp h]
      exact ⟨[], .refl c, .stop 0 _ _⟩
    · rintro ⟨d, hc, hr⟩
      cases hr
      rw [hc.eq_of_nil]
      exact List.mem_singleton_self c
  | succ n ih =>
    rw [mem_iterate_succ]
    constructor
    · rintro (rfl | ⟨v, hv, hlt, ht⟩)
      · exact ⟨[], .refl t, .stop _ _ _⟩
      · obtain ⟨d, hd, hM⟩ := (hm c v).mp hv
        obtain ⟨e, he, hr⟩ := ih.mp ht
        have hne : d ≠ [] := by
          rintro rfl
          rw [hd.text] at hlt
          simp at hlt
        refine ⟨d ++ e, hd.trans he, .more ?_ hne ?_⟩
        · rw [← he.text]
          exact hM
        · rw [show endWord isWord c.afterWord d = v.afterWord from hd.after.symm]
          exact hr
    · rintro ⟨d, hc, hr⟩
      generalize hd : d = d' at hr
      cases hr with
      | stop =>
        subst hd
        exact .inl hc.eq_of_nil
      | @more _ _ d₁ e _ hM hne hr =>
        subst hd
        obtain ⟨hfirst, hrest⟩ := hc.split
        refine .inr ⟨⟨endWord isWord c.afterWord d₁, e ++ t.rest⟩, ?_, ?_, ?_⟩
        · exact (hm _ _).mpr ⟨d₁, hfirst, hM⟩
        · have hpos : 0 < d₁.length := List.length_pos_iff.mpr hne
          rw [hc.text]
          simp only [List.length_append]
          omega
        · exact ih.mpr ⟨e, hrest, hr⟩

end Rounds

section Pieces
variable {M : Bool → List Char → List Char → Prop} {P : List Char → Prop}

/-- Rounds whose matches do not depend on what surrounds them. -/
theorem rounds_iff_flatten (hM : ∀ b d rest, M b d rest ↔ P d) (hne : ∀ d, P d → d ≠ [])
    {n : ℕ} {b : Bool} {d rest : List Char} :
    Rounds isWord M n b d rest ↔
      ∃ ds : List (List Char), ds.length ≤ n ∧ (∀ e ∈ ds, P e) ∧ d = ds.flatten := by
  constructor
  · intro h
    induction h with
    | stop n b rest => exact ⟨[], by simp, by simp, rfl⟩
    | @more n b d e rest hd _ _ ih =>
      obtain ⟨ds, hlen, hall, rfl⟩ := ih
      refine ⟨d :: ds, by simpa using hlen, ?_, rfl⟩
      exact List.forall_mem_cons.mpr ⟨(hM _ _ _).mp hd, hall⟩
  · rintro ⟨ds, hlen, hall, rfl⟩
    induction ds generalizing n b with
    | nil => exact .stop n b rest
    | cons e ds ih =>
      obtain ⟨n, rfl⟩ : ∃ j, n = j + 1 := ⟨n - 1, by simp at hlen; omega⟩
      obtain ⟨he, hds⟩ := List.forall_mem_cons.mp hall
      refine .more ((hM _ _ _).mpr he) (hne e he) (ih ?_ hds)
      simpa using hlen

theorem matches_plus_set {p : Char → Bool} {b : Bool} {d rest : List Char} :
    Matches isWord (plus (.set p)) b d rest ↔ d ≠ [] ∧ ∀ c ∈ d, p c = true := by
  have hmany : ∀ {n : ℕ} {b : Bool} {d rest : List Char},
      Rounds isWord (Matches isWord (.set p)) n b d rest ↔
        ∃ ds : List (List Char), ds.length ≤ n ∧ (∀ e ∈ ds, ∃ x, p x = true ∧ e = [x]) ∧
          d = ds.flatten := by
    intro n b d rest
    refine rounds_iff_flatten (P := fun e => ∃ x, p x = true ∧ e = [x])
      (fun b d rest => Iff.rfl) ?_
    rintro d ⟨x, -, rfl⟩
    simp
  constructor
  · rintro ⟨d₁, d₂, rfl, ⟨x, hx, rfl⟩, n, hr⟩
    obtain ⟨ds, -, hall, rfl⟩ := hmany.mp hr
    refine ⟨by simp, ?_⟩
    intro c hc
    rcases List.mem_append.mp hc with hc | hc
    · rw [List.mem_singleton.mp hc]
      exact hx
    · obtain ⟨e, he, hin⟩ := List.mem_flatten.mp hc
      obtain ⟨y, hy, rfl⟩ := hall e he
      rw [List.mem_singleton.mp hin]
      exact hy
  · rintro ⟨hne, hall⟩
    cases d with
    | nil => exact absurd rfl hne
    | cons x d =>
      obtain ⟨hx, hd⟩ := List.forall_mem_cons.mp hall
      refine ⟨[x], d, rfl, ⟨x, hx, rfl⟩, d.length, hmany.mpr ⟨d.map fun c => [c], by simp, ?_, ?_⟩⟩
      · intro e he
        obtain ⟨c, hc, rfl⟩ := List.mem_map.mp he
        exact ⟨c, hd c hc, rfl⟩
      · clear hne hall hd
        induction d with
        | nil => rfl
        | cons c d ih => simpa using ih

/-- An expression between two word boundaries. -/
theorem matches_whole {r : Expr} {b : Bool} {d rest : List Char} :
    Matches isWord (seqs [.wordBoundary, r, .wordBoundary]) b d rest ↔
      b ≠ (d ++ rest).head?.any isWord ∧ endWord isWord b d ≠ rest.head?.any isWord ∧
        Matches isWord r b d rest := by
  constructor
  · rintro ⟨_, _, rfl, ⟨rfl, hstart⟩, d, _, rfl, hr, _, _, rfl, ⟨rfl, hend⟩, rfl⟩
    have htext : [] ++ (d ++ ([] ++ [])) = d := by simp
    rw [List.append_nil, List.append_nil] at hstart
    rw [htext]
    exact ⟨hstart, hend, hr⟩
  · rintro ⟨hstart, hend, hr⟩
    refine ⟨[], d, rfl, ⟨rfl, hstart⟩, d, [], by simp, ?_, [], [], rfl, ⟨rfl, ?_⟩, rfl⟩
    · exact hr
    · exact hend

end Pieces

/-- The matcher finds exactly the texts that the expression matches. -/
@[grind =] theorem mem_results_iff {r : Expr} {c t : Cursor} :
    t ∈ results isWord r c ↔
      ∃ d, Consumes isWord c d t ∧ Matches isWord r c.afterWord d t.rest := by
  induction r generalizing c t with
  | empty =>
    constructor
    · intro h
      rw [List.mem_singleton.mp h]
      exact ⟨[], .refl c, rfl⟩
    · rintro ⟨d, hc, rfl⟩
      rw [hc.eq_of_nil]
      exact List.mem_singleton_self c
  | set p =>
    constructor
    · intro h
      obtain ⟨x, hx, hc⟩ := Consumes.one h
      exact ⟨[x], hc, x, hx, rfl⟩
    · rintro ⟨d, ⟨htext, hafter⟩, x, hx, rfl⟩
      obtain ⟨b, rest⟩ := c
      obtain ⟨b', rest'⟩ := t
      simp only [List.singleton_append, List.getLast?_singleton, Option.map_some,
        Option.getD_some] at htext hafter
      simp [results, htext, hx, hafter]
  | seq r s ihr ihs =>
    rw [results, List.mem_flatMap]
    constructor
    · rintro ⟨v, hv, ht⟩
      obtain ⟨d₁, hd₁, hr⟩ := ihr.mp hv
      obtain ⟨d₂, hd₂, hs⟩ := ihs.mp ht
      refine ⟨d₁ ++ d₂, hd₁.trans hd₂, d₁, d₂, rfl, ?_, ?_⟩
      · rw [← hd₂.text]
        exact hr
      · rw [show endWord isWord c.afterWord d₁ = v.afterWord from hd₁.after.symm]
        exact hs
    · rintro ⟨d, hc, d₁, d₂, rfl, hr, hs⟩
      obtain ⟨hfirst, hrest⟩ := hc.split
      exact ⟨_, ihr.mpr ⟨d₁, hfirst, hr⟩, ihs.mpr ⟨d₂, hrest, hs⟩⟩
  | alt r s ihr ihs =>
    rw [results, List.mem_append, ihr, ihs]
    simp only [Matches, and_or_left, exists_or]
  | many greedy r ih =>
    rw [results, mem_iterate_iff fun c t => ih]
    constructor
    · rintro ⟨d, hc, hr⟩
      exact ⟨d, hc, _, hr⟩
    · rintro ⟨d, hc, n, hr⟩
      refine ⟨d, hc, hr.bounded.mono ?_⟩
      rw [hc.text, List.length_append]
      omega
  | upTo n r ih =>
    rw [results, mem_iterate_iff fun c t => ih]
    rfl
  | wordBoundary =>
    constructor
    · intro h
      obtain ⟨rfl, hb⟩ := mem_wordBoundary h
      exact ⟨[], .refl t, rfl, hb⟩
    · rintro ⟨d, hc, rfl, hb⟩
      obtain rfl := hc.eq_of_nil
      have hboundary : boundary isWord t = true := by simpa [boundary] using hb
      simp [results, hboundary]
  | atEnd =>
    constructor
    · intro h
      simp only [results] at h
      split_ifs at h with hend
      · obtain rfl := List.mem_singleton.mp h
        exact ⟨[], .refl t, rfl, hend⟩
      · simp at h
    · rintro ⟨d, hc, rfl, hend⟩
      obtain rfl := hc.eq_of_nil
      simp [results, hend]
  | ahead r ih =>
    constructor
    · intro h
      obtain ⟨rfl, v, hv⟩ := mem_ahead h
      obtain ⟨e, he, hr⟩ := ih.mp hv
      exact ⟨[], .refl t, rfl, e, v.rest, he.text, hr⟩
    · rintro ⟨d, hc, rfl, e, post, htext, hr⟩
      obtain rfl := hc.eq_of_nil
      have hmem : (⟨endWord isWord t.afterWord e, post⟩ : Cursor) ∈ results isWord r t :=
        ih.mpr ⟨e, ⟨htext, rfl⟩, hr⟩
      simp [results, List.ne_nil_of_mem hmem]

/-- The longest run of digits is tried first. -/
example : results Char.isAlphanum (.seq .wordBoundary (plus (.set Char.isDigit)))
    ⟨false, "12 x".toList⟩ = [⟨true, " x".toList⟩, ⟨true, "2 x".toList⟩] := by decide +kernel

theorem first_isSome_iff {r : Expr} {c : Cursor} : (first isWord r c).isSome = true ↔
    ∃ d post, c.rest = d ++ post ∧ Matches isWord r c.afterWord d post := by
  rw [first, List.isSome_head?]
  constructor
  · intro h
    obtain ⟨t, ht⟩ := List.exists_mem_of_ne_nil _ h
    obtain ⟨d, hc, hr⟩ := mem_results_iff.mp ht
    exact ⟨d, t.rest, hc.text, hr⟩
  · rintro ⟨d, post, htext, hr⟩
    exact List.ne_nil_of_mem (mem_results_iff.mpr
      ⟨d, (⟨htext, rfl⟩ : Consumes isWord c d ⟨endWord isWord c.afterWord d, post⟩), hr⟩)

theorem searchFrom_iff {r : Expr} {s : List Char} {b : Bool} : searchFrom isWord r b s = true ↔
    ∃ pre d post, s = pre ++ (d ++ post) ∧ Matches isWord r (endWord isWord b pre) d post := by
  induction s generalizing b with
  | nil =>
    rw [searchFrom, first_isSome_iff]
    constructor
    · rintro ⟨d, post, htext, hr⟩
      exact ⟨[], d, post, htext, hr⟩
    · rintro ⟨pre, d, post, htext, hr⟩
      obtain ⟨rfl, hnil⟩ := List.append_eq_nil_iff.mp htext.symm
      exact ⟨d, post, hnil.symm, hr⟩
  | cons x xs ih =>
    rw [searchFrom, Bool.or_eq_true, first_isSome_iff, ih]
    have hafter : ∀ pre, endWord isWord b (x :: pre) = endWord isWord (isWord x) pre :=
      fun pre => endWord_append b [x] pre
    constructor
    · rintro (⟨d, post, htext, hr⟩ | ⟨pre, d, post, htext, hr⟩)
      · exact ⟨[], d, post, htext, hr⟩
      · exact ⟨x :: pre, d, post, by rw [htext]; rfl, by rwa [hafter]⟩
    · rintro ⟨pre, d, post, htext, hr⟩
      cases pre with
      | nil => exact .inl ⟨d, post, htext, hr⟩
      | cons y pre =>
        obtain ⟨rfl, htail⟩ := List.cons.inj htext
        exact .inr ⟨pre, d, post, htail, by rwa [hafter] at hr⟩

/-- A search succeeds if and only if some part of the text is matched where it stands. -/
theorem search_iff {r : Expr} {s : List Char} : search isWord r s = true ↔
    ∃ pre d post, s = pre ++ (d ++ post) ∧
      Matches isWord r (pre.getLast?.any isWord) d post := by
  have hafter : ∀ pre, endWord isWord false pre = pre.getLast?.any isWord := by
    intro pre
    unfold endWord
    cases pre.getLast? <;> rfl
  rw [search, searchFrom_iff]
  simp only [hafter]

/-- The last digit stands at a word boundary, the first one does not. -/
example : search Char.isAlphanum (.seq .wordBoundary (.set Char.isDigit)) "a1".toList = false ∧
    search Char.isAlphanum (.seq .wordBoundary (.set Char.isDigit)) "a1 2".toList = true := by
  decide +kernel

end Piki.Regex
