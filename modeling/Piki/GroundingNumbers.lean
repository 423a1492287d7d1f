import Piki.Grounding

/-! Which numbers an accepted text can contain. The validator looks a number up as
a substring of all confirmed values joined together. -/
namespace Piki.Grounding
open Text Regex
variable {u : Unicode}

/-- The matches of the number pattern in a text. -/
def numberTokens (u : Unicode) (s : List Char) : List (List Char) :=
  findIter u.isWord (number u) s

/-- The text is one number and nothing else. -/
def IsNumber (u : Unicode) (d : List Char) : Prop := numberTokens u d = [d]

/-- `d` is a whole number of the value of one confirmed item. -/
def Whole (u : Unicode) (packet : ContextPacket) (d : List Char) : Prop :=
  ∃ item ∈ packet.confirmedData, d ∈ numberTokens u item.value.toList

def Digits (u : Unicode) (d : List Char) : Prop := d ≠ [] ∧ ∀ c ∈ d, u.isDecimal c = true

abbrev Group := Char × List Char

def Group.Valid (u : Unicode) (g : Group) : Prop := g.1 ∈ ['.', ','] ∧ Digits u g.2

def spell (gs : List Group) : List Char := gs.flatMap fun g => g.1 :: g.2

theorem digits_consumed {c t : Cursor} (h : t ∈ results u.isWord (plus (digit u)) c) :
    ∃ d, Digits u d ∧ Consumes u.isWord c d t := by
  obtain ⟨v, hv, ht⟩ := List.mem_flatMap.mp h
  obtain ⟨x, hx, hc⟩ := Consumes.one hv
  have hw : Within (fun c => u.isDecimal c = true) (.many true (digit u)) := fun y hy => hy
  obtain ⟨e, he, hcv⟩ := results_consumes hw v t ht
  refine ⟨[x] ++ e, ⟨by simp, ?_⟩, hc.trans hcv⟩
  intro y hy
  rcases List.mem_append.mp hy with hy | hy
  · rw [List.mem_singleton.mp hy]
    exact hx
  · exact he y hy

theorem group_consumed {c t : Cursor} (h : t ∈ results u.isWord (group u) c) :
    ∃ g : Group, g.Valid u ∧ Consumes u.isWord c (g.1 :: g.2) t := by
  obtain ⟨v, hv, ht⟩ := List.mem_flatMap.mp h
  obtain ⟨x, hx, hc⟩ := Consumes.one hv
  obtain ⟨d, hd, hcv⟩ := digits_consumed ht
  exact ⟨(x, d), ⟨by simpa using hx, hd⟩, hc.trans hcv⟩

theorem groups_consumed {n : ℕ} {c t : Cursor}
    (h : t ∈ iterate (results u.isWord (group u)) true n c) :
    ∃ gs : List Group, (∀ g ∈ gs, g.Valid u) ∧ Consumes u.isWord c (spell gs) t := by
  refine iterate_closed (R := fun c t => ∃ gs : List Group, (∀ g ∈ gs, g.Valid u) ∧
    Consumes u.isWord c (spell gs) t) ?_ ?_ ?_ true n c t h
  · intro c
    exact ⟨[], by simp, .refl c⟩
  · rintro c t v ⟨gs, hg, hc⟩ ⟨ks, hk, ht⟩
    refine ⟨gs ++ ks, ?_, by rw [spell, List.flatMap_append]; exact hc.trans ht⟩
    intro g hgk
    rcases List.mem_append.mp hgk with hgk | hgk
    · exact hg g hgk
    · exact hk g hgk
  · intro c t ht
    obtain ⟨g, hg, hc⟩ := group_consumed ht
    exact ⟨[g], by simpa using hg, by simpa [spell] using hc⟩

theorem spell_last {d : List Char} {gs : List Group} (hd : Digits u d)
    (hg : ∀ g ∈ gs, g.Valid u) : ∀ c, (d ++ spell gs).getLast? = some c → u.isDecimal c = true := by
  intro c hc
  induction gs using List.reverseRecOn with
  | nil =>
    simp only [spell, List.flatMap_nil, List.append_nil] at hc
    exact hd.2 c (List.mem_of_getLast? hc)
  | append_singleton gs g _ =>
    obtain ⟨-, hne, hdig⟩ := hg g (by simp)
    have hl : c ∈ g.2 := by
      refine List.mem_of_getLast? ?_
      rw [← hc, spell, List.flatMap_append, ← List.append_assoc, List.getLast?_append]
      cases hg2 : g.2 with
      | nil => exact absurd hg2 hne
      | cons x xs => simp [hg2, List.getLast?_cons]
    exact hdig c hl

/-- What the number pattern can match: whole groups of digits, with no character of a
word on either side. -/
theorem number_consumed {c t : Cursor} (h : t ∈ results u.isWord (number u) c) :
    ∃ d gs, Digits u d ∧ (∀ g ∈ gs, Group.Valid u g) ∧ Consumes u.isWord c (d ++ spell gs) t ∧
      c.afterWord = false ∧ t.rest.head?.any u.isWord = false := by
  obtain ⟨v, hv, hrest⟩ := List.mem_flatMap.mp h
  obtain ⟨w, hw, hrest⟩ := List.mem_flatMap.mp hrest
  obtain ⟨x, hx, hlast⟩ := List.mem_flatMap.mp hrest
  obtain ⟨rfl, hstart⟩ := mem_wordBoundary hv
  obtain ⟨rfl, hend⟩ := mem_wordBoundary hlast
  obtain ⟨d, hd, hcd⟩ := digits_consumed hw
  obtain ⟨gs, hg, hcg⟩ := groups_consumed hx
  have hc := hcd.trans hcg
  refine ⟨d, gs, hd, hg, hc, ?_, ?_⟩
  · obtain ⟨hne, hall⟩ := hd
    cases d with
    | nil => exact absurd rfl hne
    | cons y ys =>
      rw [hc.text] at hstart
      simpa [u.decimal_word (hall y List.mem_cons_self)] using hstart
  · have hafter : t.afterWord = true := by
      obtain ⟨y, hy⟩ := Option.ne_none_iff_exists'.mp
        (mt List.getLast?_eq_none_iff.mp (show d ++ spell gs ≠ [] by simp [hd.1]))
      rw [hc.after, hy]
      exact u.decimal_word (spell_last hd hg y hy)
    rw [hafter] at hend
    simpa using hend.symm

theorem first_digits (d : List Char) (hd : ∀ c ∈ d, u.isDecimal c = true) (b : Bool)
    (rest : List Char) (hrest : ∀ c, rest.head? = some c → u.isDecimal c = false) (n : ℕ)
    (hn : d.length ≤ n) :
    (iterate (results u.isWord (digit u)) true n ⟨b, d ++ rest⟩).head? =
      some ⟨if d = [] then b else true, rest⟩ := by
  induction d generalizing b n with
  | nil =>
    refine first_iterate_stop n ?_
    cases rest with
    | nil => rfl
    | cons x xs => simp [digit, results, hrest x rfl]
  | cons x xs ih =>
    cases n with
    | zero => simp at hn
    | succ n =>
      have hx := hd x List.mem_cons_self
      refine first_iterate_more (t := ⟨true, xs ++ rest⟩) ?_ (by simp) ?_
      · simp [digit, results, hx, u.decimal_word hx]
      · have h := ih (fun c hc => hd c (List.mem_cons_of_mem _ hc)) true n (by simpa using hn)
        simpa using h

theorem first_plus_digits {d : List Char} (hd : Digits u d) (b : Bool) {rest : List Char}
    (hrest : ∀ c, rest.head? = some c → u.isDecimal c = false) :
    first u.isWord (plus (digit u)) ⟨b, d ++ rest⟩ = some ⟨true, rest⟩ := by
  obtain ⟨hne, hall⟩ := hd
  cases d with
  | nil => exact absurd rfl hne
  | cons x xs =>
    have hx := hall x List.mem_cons_self
    refine first_seq (t := ⟨true, xs ++ rest⟩) ?_ ?_
    · simp [first, digit, results, hx, u.decimal_word hx]
    · have h := first_digits xs (fun c hc => hall c (List.mem_cons_of_mem _ hc)) true rest hrest
        (xs ++ rest).length (by simp)
      simpa [first, results] using h

theorem separator_not_decimal {c : Char} (h : c ∈ ['.', ',']) : u.isDecimal c = false := by
  simp only [List.mem_cons, List.not_mem_nil, or_false] at h
  rcases h with rfl | rfl
  · exact u.ascii_decimal '.' (by decide)
  · exact u.ascii_decimal ',' (by decide)

theorem spell_head {gs : List Group} (h : ∀ g ∈ gs, g.Valid u) :
    ∀ c, (spell gs).head? = some c → u.isDecimal c = false := by
  intro c hc
  cases gs with
  | nil => simp [spell] at hc
  | cons g gs =>
    have hg : c = g.1 := by simpa [spell, eq_comm] using hc
    rw [hg]
    exact separator_not_decimal (h g List.mem_cons_self).1

theorem first_groups (gs : List Group) (h : ∀ g ∈ gs, g.Valid u) (n : ℕ)
    (hn : (spell gs).length ≤ n) :
    (iterate (results u.isWord (group u)) true n ⟨true, spell gs⟩).head? = some ⟨true, []⟩ := by
  induction gs generalizing n with
  | nil => exact first_iterate_stop n (by simp [group, oneOf, results, spell])
  | cons g gs ih =>
    obtain ⟨hsep, hdig⟩ := h g List.mem_cons_self
    have htail : ∀ k ∈ gs, k.Valid u := fun k hk => h k (List.mem_cons_of_mem _ hk)
    have hspell : spell (g :: gs) = g.1 :: (g.2 ++ spell gs) := by simp [spell]
    have hlen : (spell gs).length < (spell (g :: gs)).length := by
      rw [hspell]
      simp only [List.length_cons, List.length_append]
      omega
    cases n with
    | zero => omega
    | succ n =>
      refine first_iterate_more (t := ⟨true, spell gs⟩) ?_ hlen (ih htail n (by omega))
      rw [hspell]
      refine first_seq (t := ⟨u.isWord g.1, g.2 ++ spell gs⟩) ?_ ?_
      · simp [first, oneOf, results, show g.1 = '.' ∨ g.1 = ',' by simpa using hsep]
      · exact first_plus_digits hdig _ (spell_head htail)

/-- The pattern reports a number that stands alone in full. -/
theorem first_number {d : List Char} {gs : List Group} (hd : Digits u d)
    (hg : ∀ g ∈ gs, g.Valid u) :
    first u.isWord (number u) ⟨false, d ++ spell gs⟩ = some ⟨true, []⟩ := by
  have hstart : first u.isWord .wordBoundary ⟨false, d ++ spell gs⟩ =
      some ⟨false, d ++ spell gs⟩ := by
    obtain ⟨hne, hall⟩ := hd
    cases d with
    | nil => exact absurd rfl hne
    | cons x xs => simp [first, results, boundary, u.decimal_word (hall x List.mem_cons_self)]
  refine first_seq hstart (first_seq (first_plus_digits hd false (spell_head hg)) ?_)
  refine first_seq (first_groups gs hg _ (Nat.le_refl _)) ?_
  simp [first, results, boundary]

theorem isNumber_spell {d : List Char} {gs : List Group} (hd : Digits u d)
    (hg : ∀ g ∈ gs, g.Valid u) : IsNumber u (d ++ spell gs) :=
  findIter_eq_self (by simp [hd.1]) (first_number hd hg)

/-- A token of any text is digits with single separators between them. -/
theorem token_spelled {s d : List Char} (h : d ∈ numberTokens u s) :
    ∃ e gs, Digits u e ∧ (∀ g ∈ gs, Group.Valid u g) ∧ d = e ++ spell gs := by
  obtain ⟨pre, v, t, -, ht, hd⟩ := mem_findIterFrom _ _ h
  obtain ⟨e, gs, he, hg, hc, -⟩ := number_consumed ht
  refine ⟨e, gs, he, hg, ?_⟩
  have htext := hd.text.symm.trans hc.text
  exact List.append_cancel_right htext

theorem token_isNumber {s d : List Char} (h : d ∈ numberTokens u s) : IsNumber u d := by
  obtain ⟨e, gs, he, hg, rfl⟩ := token_spelled h
  exact isNumber_spell he hg

/-- A group of digits belongs to the number before it. -/
example : numberTokens .latin1 "Son $1.250, 3.".toList = ["1.250".toList, "3".toList] := by
  decide +kernel

/-- The characters of numbers. -/
def Numeric (u : Unicode) (c : Char) : Prop := u.isDecimal c = true ∨ c ∈ ['.', ',']

theorem IsNumber.spelled {d : List Char} (h : IsNumber u d) :
    ∃ e gs, Digits u e ∧ (∀ g ∈ gs, Group.Valid u g) ∧ d = e ++ spell gs := by
  refine token_spelled (s := d) ?_
  rw [h]
  exact List.mem_singleton_self d

theorem IsNumber.ne_nil {d : List Char} (h : IsNumber u d) : d ≠ [] := by
  obtain ⟨e, gs, he, -, rfl⟩ := h.spelled
  simp [he.1]

theorem IsNumber.numeric {d : List Char} (h : IsNumber u d) : ∀ c ∈ d, Numeric u c := by
  obtain ⟨e, gs, he, hg, rfl⟩ := h.spelled
  intro c hc
  rcases List.mem_append.mp hc with hc | hc
  · exact .inl (he.2 c hc)
  · obtain ⟨g, hgm, hcg⟩ := List.mem_flatMap.mp hc
    obtain ⟨hsep, hdig⟩ := hg g hgm
    rcases List.mem_cons.mp hcg with rfl | hcg
    · exact .inr hsep
    · exact .inl (hdig.2 c hcg)

theorem IsNumber.last {d : List Char} (h : IsNumber u d) :
    ∀ c, d.getLast? = some c → u.isDecimal c = true := by
  obtain ⟨e, gs, he, hg, rfl⟩ := h.spelled
  exact spell_last he hg

theorem Numeric.not_space {c : Char} (h : Numeric u c) : isSpace c = false := by
  rcases h with h | h
  · exact u.decimal_not_space h
  · simp only [List.mem_cons, List.not_mem_nil, or_false] at h
    rcases h with rfl | rfl <;> decide

theorem Numeric.fixed {c : Char} (h : Numeric u c) :
    u.casefold c = [c] ∧ u.upper c = [c] ∧ u.reFold c = c := by
  rcases h with h | h
  · exact ⟨u.decimal_casefold c h, u.decimal_upper c h, u.decimal_reFold c h⟩
  · simp only [List.mem_cons, List.not_mem_nil, or_false] at h
    rcases h with rfl | rfl
    · exact ⟨u.ascii_casefold '.' (by decide), u.ascii_upper '.' (by decide),
        u.ascii_reFold '.' (by decide)⟩
    · exact ⟨u.ascii_casefold ',' (by decide), u.ascii_upper ',' (by decide),
        u.ascii_reFold ',' (by decide)⟩

/-- An ASCII character that is neither a digit nor a separator. -/
def Plain (c : Char) : Prop := c.toNat < 128 ∧ c.isDigit = false ∧ c ∉ ['.', ',']

instance (c : Char) : Decidable (Plain c) := by unfold Plain; infer_instance

theorem Plain.not_numeric {c : Char} (h : Plain c) : ¬ Numeric u c := by
  obtain ⟨ha, hd, hs⟩ := h
  rintro (hc | hc)
  · rw [u.ascii_decimal c ha, hd] at hc
    cases hc
  · exact hs hc

theorem casefold_numeric {d : List Char} (h : ∀ c ∈ d, Numeric u c) : u.casefoldText d = d := by
  induction d with
  | nil => rfl
  | cons x xs ih =>
    have hx := (h x List.mem_cons_self).fixed.1
    have hxs := ih fun c hc => h c (List.mem_cons_of_mem _ hc)
    simp only [Unicode.casefoldText] at hxs
    simp [Unicode.casefoldText, hx, hxs]

theorem upper_numeric {d : List Char} (h : ∀ c ∈ d, Numeric u c) : u.upperText d = d := by
  induction d with
  | nil => rfl
  | cons x xs ih =>
    have hx := (h x List.mem_cons_self).fixed.2.1
    have hxs := ih fun c hc => h c (List.mem_cons_of_mem _ hc)
    simp only [Unicode.upperText] at hxs
    simp [Unicode.upperText, hx, hxs]

theorem normalized_numeric {d : List Char} (h : ∀ c ∈ d, Numeric u c) : normalized u d = d := by
  rw [normalized, casefold_numeric h]
  exact collapse_of_no_space fun c hc => (h c hc).not_space

theorem IsNumber.riskToken {d : List Char} (h : IsNumber u d) : riskToken u d = d := by
  have hr : rstripBy (fun c => decide (c ∈ ['.', ',', ';', ':', '!', '?', ')'])) d = d := by
    refine rstripBy_self ?_
    intro c hc
    have hdec := h.last c hc
    rw [decide_eq_false_iff_not]
    intro hm
    have hplain : ['.', ',', ';', ':', '!', '?', ')'].all
        (fun x => decide (x.toNat < 128) && !x.isDigit) = true := by decide
    have hc := List.all_eq_true.mp hplain c hm
    simp only [Bool.and_eq_true, decide_eq_true_eq, Bool.not_eq_true'] at hc
    rw [u.ascii_decimal c hc.1, hc.2] at hdec
    cases hdec
  rw [Grounding.riskToken, hr, normalized_numeric h.numeric]

example : riskToken .latin1 " 18:30. ".toList = "18:30.".toList := by decide +kernel

/-- A literal that ignores case matches no character of a number. -/
theorem folded_avoids {c : Char} (hc : Plain c) (hl : c.toLower = c) :
    Avoids (Numeric u) (folded u [c]) := by
  intro x hx
  rw [decide_eq_false_iff_not, List.map_singleton, List.mem_singleton, hx.fixed.2.2,
    u.ascii_reFold c hc.1, hl]
  intro he
  exact hc.not_numeric (he ▸ hx)

theorem foldedText_avoids {s : String} {c : Char} {cs : List Char} (hs : s.toList = c :: cs)
    (hc : Plain c) (hl : c.toLower = c) : Avoids (Numeric u) (foldedText u s) := by
  rw [foldedText, hs]
  exact .inl (folded_avoids hc hl)

theorem oneOf_avoids {c : Char} (hc : Plain c) : Avoids (Numeric u) (oneOf [c]) := by
  intro x hx
  rw [decide_eq_false_iff_not, List.mem_singleton]
  intro he
  exact hc.not_numeric (he ▸ hx)

theorem url_avoids : Avoids (Numeric u) (url u) :=
  .inl (foldedText_avoids rfl (by decide) rfl)

theorem price_avoids : Avoids (Numeric u) (price u) :=
  .inr (.inl (oneOf_avoids (by decide)))

theorem clock_avoids : Avoids (Numeric u) (clock u) :=
  .inr (.inr (.inl (oneOf_avoids (by decide))))

theorem contentClaim_avoids : Avoids (Numeric u) (contentClaim u) := by
  refine .inr (.inl ⟨?_, ?_, ?_, .inl ?_, .inl ?_⟩) <;>
    exact foldedText_avoids rfl (by decide) rfl

theorem evidenceFreeAvailability_avoids : Avoids (Numeric u) (evidenceFreeAvailability u) := by
  refine .inr (.inl ⟨.inl ?_, .inl ⟨?_, .inl ?_⟩⟩) <;>
    exact foldedText_avoids rfl (by decide) rfl

theorem leaksInternals_numeric {d : List Char} (h : ∀ c ∈ d, Numeric u c) :
    leaksInternals u d = false := by
  have hplain : ∀ p ∈ internalPatterns, p.toList.any (fun c => decide (Plain c)) = true := by
    decide
  rw [leaksInternals, upper_numeric h, List.any_eq_false]
  intro p hp hc
  obtain ⟨c, hcm, hcp⟩ := List.any_eq_true.mp (hplain p hp)
  exact (of_decide_eq_true hcp).not_numeric (h c ((contains_iff.mp hc).subset hcm))

/-- A number that occurs in the joined evidence is accepted as a text. -/
theorem number_accepted {d : List Char} {packet : ContextPacket} (h : IsNumber u d)
    (hd : d <:+: evidenceCorpus u packet) :
    (validate u (String.ofList d) packet).safe = true := by
  have hnum := h.numeric
  have hstrip : strip (String.ofList d).toList = d := by
    rw [String.toList_ofList]
    refine strip_self ?_ ?_
    · intro c hc
      exact (hnum c (List.mem_of_head? hc)).not_space
    · intro c hc
      exact (hnum c (List.mem_of_getLast? hc)).not_space
  have hfails : ∀ f, fails u d packet f = false := by
    intro f
    cases f with
    | empty => simp [fails, h.ne_nil]
    | internalLeak => exact leaksInternals_numeric hnum
    | evidenceFreeCommercialClaim =>
      have hs : searchFrom u.isWord (evidenceFreeAvailability u) false d = false :=
        searchFrom_avoids evidenceFreeAvailability_avoids d false hnum
      simp [fails, search, hs]
    | unavailableContentClaim =>
      have hs : searchFrom u.isWord (contentClaim u) false d = false :=
        searchFrom_avoids contentClaim_avoids d false hnum
      simp [fails, search, hs]
    | internalReference =>
      simp only [fails, normalized_numeric hnum, List.any_eq_false]
      intro item _ hi
      obtain ⟨reference, -, hr⟩ := (Option.any_eq_true _ _).mp hi
      simp only [Bool.and_eq_true, Bool.not_eq_true'] at hr
      obtain ⟨⟨-, hin⟩, hout⟩ := hr
      have hcorpus := contains_iff.mpr ((contains_iff.mp hin).trans hd)
      rw [hcorpus] at hout
      cases hout
    | unsupportedHighRiskFact =>
      have hn : ∀ e ∈ findIter u.isWord (number u) d, supported u (evidenceCorpus u packet) e = true := by
        intro e he
        rw [show findIter u.isWord (number u) d = [d] from h] at he
        rw [List.mem_singleton.mp he, supported, h.riskToken, contains_iff.mpr hd, Bool.or_true]
      simp only [fails, highRiskPatterns, List.any_cons, List.any_nil, findIter,
        findIterFrom_avoids url_avoids d.length ⟨false, d⟩ hnum,
        findIterFrom_avoids price_avoids d.length ⟨false, d⟩ hnum,
        findIterFrom_avoids clock_avoids d.length ⟨false, d⟩ hnum, Bool.false_or, Bool.or_false]
      rw [List.any_eq_false]
      intro e he
      simp [hn e he]
  simp only [validate, hstrip]
  rw [dif_pos]
  rw [List.filter_eq_nil_iff]
  intro f _
  simp [hfails f]

theorem number_skips_space : Skips (fun c => isSpace c = true) (number u) := by
  have hdig : ∀ c, isSpace c = true → u.isDecimal c = false := by
    intro c hc
    cases hd : u.isDecimal c with
    | false => rfl
    | true => rw [u.decimal_not_space hd] at hc; cases hc
  have hsep : ∀ c, isSpace c = true → decide (c ∈ ['.', ',']) = false := by
    intro c hc
    rw [decide_eq_false_iff_not]
    intro hm
    rw [Numeric.not_space (u := u) (.inr hm)] at hc
    cases hc
  exact ⟨trivial, ⟨hdig, hdig⟩, ⟨hsep, hdig, hdig⟩, trivial⟩

/-- Stripping a text changes none of its number tokens. -/
theorem numberTokens_strip (s : List Char) : numberTokens u (strip s) = numberTokens u s := by
  obtain ⟨pre, post, hs, hpre, hpost⟩ := strip_decompose s
  have h := findIter_trim (r := number u) (fun c hc => u.space_not_word hc) number_skips_space
    hpre hpost (strip s)
  rw [← hs] at h
  exact h.symm

/-- A number token of an accepted text occurs in the joined evidence. -/
theorem accepted_token {text : String} {packet : ContextPacket}
    (h : (validate u text packet).safe = true) {d : List Char}
    (hd : d ∈ numberTokens u text.toList) : d <:+: evidenceCorpus u packet := by
  rw [← numberTokens_strip] at hd
  have hnone : failureOrder.filter (fails u (strip text.toList) packet) = [] := by
    simp only [validate] at h
    split_ifs at h with hf
    exact hf
  have hrisk : ¬ fails u (strip text.toList) packet .unsupportedHighRiskFact = true :=
    List.filter_eq_nil_iff.mp hnone _ (by decide)
  have hnum := token_isNumber hd
  simp only [fails, highRiskPatterns, List.any_cons, Bool.or_eq_true, not_or] at hrisk
  obtain ⟨-, -, -, hrisk, -⟩ := hrisk
  rw [Bool.not_eq_true, List.any_eq_false] at hrisk
  have hsup : supported u (evidenceCorpus u packet) d = true := by simpa using hrisk d hd
  rw [supported, hnum.riskToken] at hsup
  rcases Bool.or_eq_true_iff.mp hsup with hnil | hin
  · exact absurd (by simpa using hnil) hnum.ne_nil
  · exact contains_iff.mp hin

/-- Accepted texts quote only whole numbers of single confirmed values, for every
text, if and only if every number that occurs anywhere in the joined evidence is a
whole number of one value; and for one text it is enough that its own numbers that
occur there are. -/
theorem accepted_numbers_whole_iff (u : Unicode) (packet : ContextPacket) :
    ((∀ text, (validate u text packet).safe = true →
        ∀ d ∈ numberTokens u text.toList, Whole u packet d) ↔
      ∀ d, IsNumber u d → d <:+: evidenceCorpus u packet → Whole u packet d) ∧
    ∀ text, (∀ d ∈ numberTokens u text.toList, d <:+: evidenceCorpus u packet → Whole u packet d) →
      (validate u text packet).safe = true →
        ∀ d ∈ numberTokens u text.toList, Whole u packet d := by
  refine ⟨⟨?_, ?_⟩, ?_⟩
  · intro h d hd hin
    refine h (String.ofList d) (number_accepted hd hin) d ?_
    rw [String.toList_ofList, show numberTokens u d = [d] from hd]
    exact List.mem_singleton_self d
  · intro h text hsafe d hd
    exact h d (token_isNumber hd) (accepted_token hsafe hd)
  · intro text h hsafe d hd
    exact h d hd (accepted_token hsafe hd)

/-- The evidence of one confirmed price. -/
def pricePacket : ContextPacket :=
  let price := accepted (EvidenceItem.make "precio" "$2.500,00" .buenpickInternalApi none)
    (by decide +kernel)
  accepted (ContextPacket.make "Responder la consulta." "¿Cuánto sale?" [price] [] [] [] .jinjaLlm
    none "trace") (by decide)

instance (packet : ContextPacket) (d : List Char) : Decidable (Whole u packet d) := by
  unfold Whole; infer_instance

/-- A price of 50 is accepted because `50` occurs inside `$2.500,00`. -/
theorem fragment_accepted :
    ¬ ((validate .latin1 "Sale 50 pesos" pricePacket).safe = true →
      ∀ d ∈ numberTokens .latin1 "Sale 50 pesos".toList, Whole .latin1 pricePacket d) := by
  decide

end Piki.Grounding
