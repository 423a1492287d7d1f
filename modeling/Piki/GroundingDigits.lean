import Piki.GroundingNumbers

/-! Which digits the validator sees. A digit stands in a match of a risky pattern only
as part of a group of digits that touches no letter and no underscore, or inside a URL. -/
namespace Piki.Grounding
open Text Regex
variable {u : Unicode}

/-- A group of digits of the text with no character of a word on either side. -/
def DigitWord (u : Unicode) (s : List Char) : Prop :=
  ∃ pre d post, s = pre ++ d ++ post ∧ Digits u d ∧ pre.getLast?.any u.isWord = false ∧
    post.head?.any u.isWord = false

theorem ascii_not_word {c : Char} (ha : c.toNat < 128) (h : c.isAlphanum = false) (hu : c ≠ '_') :
    u.isWord c = false := by
  simp [Unicode.isWord, u.ascii_alnum c ha, h, hu]

theorem separator_not_word {c : Char} (h : c ∈ ['.', ',']) : u.isWord c = false := by
  simp only [List.mem_cons, List.not_mem_nil, or_false] at h
  rcases h with rfl | rfl <;> exact ascii_not_word (by decide) (by decide) (by decide)

/-- Digits and separators that follow no word and precede none begin with such a group. -/
theorem digitWord_of_numeric {pre body post : List Char} {d : Char}
    (hpre : pre.getLast?.any u.isWord = false) (hd : u.isDecimal d = true)
    (hbody : ∀ c ∈ body, Numeric u c) (hpost : post.head?.any u.isWord = false) :
    DigitWord u (pre ++ d :: body ++ post) := by
  refine ⟨pre, d :: body.takeWhile u.isDecimal, body.dropWhile u.isDecimal ++ post, ?_,
    ⟨by simp, ?_⟩, hpre, ?_⟩
  · have hcut := List.takeWhile_append_dropWhile (p := u.isDecimal) (l := body)
    simp only [List.append_assoc, List.cons_append, List.append_cancel_left_eq, List.cons.injEq,
      true_and]
    rw [← List.append_assoc, hcut]
  · intro c hc
    rcases List.mem_cons.mp hc with rfl | hc
    · exact hd
    · exact List.mem_takeWhile_imp hc
  · cases he : body.dropWhile u.isDecimal with
    | nil => simpa using hpost
    | cons x xs =>
      have hx : u.isDecimal x = false := by
        have h := List.head?_dropWhile_not u.isDecimal body
        rw [he] at h
        simpa using h
      have hm : x ∈ body := (List.dropWhile_suffix _).subset (he ▸ List.mem_cons_self)
      rcases hbody x hm with h | h
      · rw [hx] at h
        cases h
      · simp [separator_not_word h]

/-- No match of the number pattern is empty. -/
theorem number_productive (c : Cursor) :
    ∀ t ∈ results u.isWord (number u) c, t.rest.length < c.rest.length := by
  intro t ht
  obtain ⟨d, gs, hd, -, hc, -⟩ := number_consumed ht
  have hpos := List.length_pos_iff.mpr hd.1
  have hlen := congrArg List.length hc.text
  simp only [List.length_append] at hlen
  omega

theorem number_matches {d post : List Char} (hd : Digits u d)
    (hpost : post.head?.any u.isWord = false) :
    (⟨true, post⟩ : Cursor) ∈ results u.isWord (number u) ⟨false, d ++ post⟩ := by
  have hrest : ∀ c, post.head? = some c → u.isDecimal c = false := by
    intro c hc
    rw [hc, Option.any_some] at hpost
    by_contra h
    rw [u.decimal_word (by simpa using h)] at hpost
    cases hpost
  have hstart : boundary u.isWord ⟨false, d ++ post⟩ = true := by
    obtain ⟨hne, hall⟩ := hd
    cases d with
    | nil => exact absurd rfl hne
    | cons x xs => simp [boundary, u.decimal_word (hall x List.mem_cons_self)]
  have hend : boundary u.isWord ⟨true, post⟩ = true := by simp [boundary, hpost]
  refine List.mem_flatMap.mpr ⟨⟨false, d ++ post⟩, by simp [results, hstart], ?_⟩
  refine List.mem_flatMap.mpr ⟨⟨true, post⟩, List.mem_of_head? (first_plus_digits hd _ hrest), ?_⟩
  exact List.mem_flatMap.mpr ⟨⟨true, post⟩, mem_iterate_self _ _ _ _, by simp [results, hend]⟩

theorem consumes_after {s pre : List Char} {v : Cursor}
    (h : Consumes u.isWord ⟨false, s⟩ pre v) : v.afterWord = pre.getLast?.any u.isWord := by
  rw [h.after]
  cases pre.getLast? <;> rfl

/-- The number pattern finds something if and only if there is such a group. -/
theorem numberTokens_ne_nil_iff (s : List Char) : numberTokens u s ≠ [] ↔ DigitWord u s := by
  constructor
  · intro h
    obtain ⟨m, hm⟩ := List.exists_mem_of_ne_nil _ h
    obtain ⟨pre, v, t, hp, ht, -⟩ := mem_findIterFrom _ _ hm
    obtain ⟨d, gs, hd, hg, hc, hstart, hend⟩ := number_consumed ht
    have hs : s = pre ++ (d ++ spell gs) ++ t.rest := by
      rw [List.append_assoc, ← hc.text]
      exact hp.text
    obtain ⟨hne, hall⟩ := hd
    cases d with
    | nil => exact absurd rfl hne
    | cons x xs =>
      rw [hs]
      refine digitWord_of_numeric (consumes_after hp ▸ hstart) (hall x List.mem_cons_self) ?_ hend
      intro c hc
      refine (isNumber_spell ⟨hne, hall⟩ hg).numeric c ?_
      exact List.mem_cons_of_mem _ hc
  · rintro ⟨pre, d, post, rfl, hd, hpre, hpost⟩ hnil
    have hv : Consumes u.isWord ⟨false, pre ++ d ++ post⟩ pre ⟨false, d ++ post⟩ := by
      refine ⟨by simp, ?_⟩
      cases hl : pre.getLast? with
      | none => rfl
      | some c =>
        rw [hl] at hpre
        simpa using hpre.symm
    have hnone := results_of_findIterFrom_nil number_productive (pre ++ d ++ post).length
      ⟨false, pre ++ d ++ post⟩ (Nat.le_refl _) hnil pre _ hv
    have hmem := number_matches hd hpost
    rw [hnone] at hmem
    simp at hmem

theorem folded_one {cs : List Char} {c t : Cursor} (h : t ∈ results u.isWord (folded u cs) c) :
    ∃ x, u.reFold x ∈ cs.map u.reFold ∧ Consumes u.isWord c [x] t := by
  obtain ⟨x, hx, hc⟩ := Consumes.one h
  exact ⟨x, by simpa using hx, hc⟩

theorem oneOf_one {cs : List Char} {c t : Cursor} (h : t ∈ results u.isWord (oneOf cs) c) :
    ∃ x ∈ cs, Consumes u.isWord c [x] t := by
  obtain ⟨x, hx, hc⟩ := Consumes.one h
  exact ⟨x, by simpa using hx, hc⟩

theorem spaces_consumed {greedy : Bool} {c t : Cursor}
    (h : t ∈ results u.isWord (.many greedy space) c) :
    ∃ g, (∀ x ∈ g, isSpace x = true) ∧ Consumes u.isWord c g t :=
  results_consumes (q := fun x => isSpace x = true) (r := .many greedy space) (fun _ hx => hx) c t h

/-- The optional currency before a price. -/
def Currency (u : Unicode) (l : List Char) : Prop :=
  l = [] ∨ ∃ a r s g, l = a :: r :: s :: g ∧ u.reFold a = 'a' ∧ u.reFold r = 'r' ∧
    u.reFold s = 's' ∧ ∀ x ∈ g, isSpace x = true

theorem currency_consumed {c t : Cursor}
    (h : t ∈ results u.isWord (optional (seqs [foldedText u "ARS", .many true space])) c) :
    ∃ l, Currency u l ∧ Consumes u.isWord c l t := by
  rcases mem_optional h with h | rfl
  · obtain ⟨v, hv, h⟩ := List.mem_flatMap.mp h
    obtain ⟨w, hw, h⟩ := List.mem_flatMap.mp h
    obtain rfl := List.mem_singleton.mp h
    obtain ⟨v₁, h₁, hv⟩ := List.mem_flatMap.mp hv
    obtain ⟨v₂, h₂, hv⟩ := List.mem_flatMap.mp hv
    obtain ⟨v₃, h₃, hv⟩ := List.mem_flatMap.mp hv
    obtain rfl := List.mem_singleton.mp hv
    obtain ⟨a, ha, hc₁⟩ := folded_one h₁
    obtain ⟨r, hr, hc₂⟩ := folded_one h₂
    obtain ⟨s, hs, hc₃⟩ := folded_one h₃
    obtain ⟨g, hg, hc₄⟩ := spaces_consumed hw
    have hascii : u.reFold 'A' = 'a' ∧ u.reFold 'R' = 'r' ∧ u.reFold 'S' = 's' :=
      ⟨u.ascii_reFold _ (by decide), u.ascii_reFold _ (by decide), u.ascii_reFold _ (by decide)⟩
    rw [List.map_singleton, List.mem_singleton] at ha hr hs
    refine ⟨a :: r :: s :: g, .inr ⟨a, r, s, g, rfl, ha.trans hascii.1, hr.trans hascii.2.1,
      hs.trans hascii.2.2, hg⟩, ?_⟩
    exact ((hc₁.trans hc₂).trans hc₃).trans hc₄
  · exact ⟨[], .inl rfl, .refl t⟩

/-- The tail of a price: more digits and points, then perhaps decimals. -/
theorem decimals_consumed {c v t : Cursor}
    (hv : v ∈ results u.isWord (.many false (.set fun x => u.isDecimal x || decide (x = '.'))) c)
    (ht : t ∈ results u.isWord
      (optional (seqs [oneOf [','], digit u, optional (digit u)])) v) :
    ∃ r, (∀ x ∈ r, Numeric u x) ∧ Consumes u.isWord c r t := by
  have hpoint : Within (Numeric u) (.many false (.set fun x => u.isDecimal x || decide (x = '.'))) := by
    intro x hx
    rcases Bool.or_eq_true_iff.mp hx with hx | hx
    · exact .inl hx
    · exact .inr (by simp [of_decide_eq_true hx])
  have hdigit : Within (Numeric u) (digit u) := fun x hx => .inl hx
  have hcomma : Within (Numeric u) (oneOf [',']) := by
    intro x hx
    exact .inr (List.mem_cons_of_mem _ (of_decide_eq_true hx))
  have hdecimals : Within (Numeric u) (optional (seqs [oneOf [','], digit u, optional (digit u)])) :=
    ⟨⟨hcomma, hdigit, ⟨hdigit, trivial⟩, trivial⟩, trivial⟩
  obtain ⟨d, hd, hcd⟩ := results_consumes hpoint c v hv
  obtain ⟨e, he, hce⟩ := results_consumes hdecimals v t ht
  refine ⟨d ++ e, ?_, hcd.trans hce⟩
  intro x hx
  rcases List.mem_append.mp hx with hx | hx
  · exact hd x hx
  · exact he x hx

/-- What the price pattern looks for after a match is no part of a word. -/
theorem price_end {c t : Cursor} (h : t ∈ results u.isWord
    (.ahead (.alt space (.alt .atEnd (oneOf [')', '.', ',', ';', ':', '!', '?'])))) c) :
    t = c ∧ c.rest.head?.any u.isWord = false := by
  obtain ⟨rfl, v, hv⟩ := mem_ahead h
  refine ⟨rfl, ?_⟩
  rcases List.mem_append.mp hv with hv | hv
  · obtain ⟨x, hx, hc⟩ := Consumes.one hv
    simp [hc.text, u.space_not_word hx]
  rcases List.mem_append.mp hv with hv | hv
  · simp only [results] at hv
    split_ifs at hv with hend
    · rcases hend with hend | hend
      · simp [hend]
      · simp [hend, u.space_not_word (show isSpace '\n' = true by decide)]
    · simp at hv
  · obtain ⟨x, hx, hc⟩ := oneOf_one hv
    have hplain : [')', '.', ',', ';', ':', '!', '?'].all
        (fun x => decide (x.toNat < 128) && !x.isAlphanum && decide (x ≠ '_')) = true := by decide
    have hxp := List.all_eq_true.mp hplain x hx
    simp only [Bool.and_eq_true, decide_eq_true_eq, Bool.not_eq_true'] at hxp
    simp [hc.text, ascii_not_word hxp.1.1 hxp.1.2 hxp.2]

theorem price_consumed {c t : Cursor} (h : t ∈ results u.isWord (price u) c) :
    ∃ l g d r, Currency u l ∧ (∀ x ∈ g, isSpace x = true) ∧ u.isDecimal d = true ∧
      (∀ x ∈ r, Numeric u x) ∧ Consumes u.isWord c (l ++ '$' :: g ++ d :: r) t ∧
      t.rest.head?.any u.isWord = false := by
  obtain ⟨v₁, h₁, h⟩ := List.mem_flatMap.mp h
  obtain ⟨v₂, h₂, h⟩ := List.mem_flatMap.mp h
  obtain ⟨v₃, h₃, h⟩ := List.mem_flatMap.mp h
  obtain ⟨v₄, h₄, h⟩ := List.mem_flatMap.mp h
  obtain ⟨v₅, h₅, h⟩ := List.mem_flatMap.mp h
  obtain ⟨v₆, h₆, h⟩ := List.mem_flatMap.mp h
  obtain ⟨v₇, h₇, h⟩ := List.mem_flatMap.mp h
  obtain rfl := List.mem_singleton.mp h
  obtain ⟨l, hl, hc₁⟩ := currency_consumed h₁
  obtain ⟨x, hx, hc₂⟩ := oneOf_one h₂
  obtain ⟨g, hg, hc₃⟩ := spaces_consumed h₃
  obtain ⟨d, hd, hc₄⟩ := Consumes.one h₄
  obtain ⟨r, hr, hc₅⟩ := decimals_consumed h₅ h₆
  obtain ⟨rfl, hend⟩ := price_end h₇
  obtain rfl := List.mem_singleton.mp hx
  refine ⟨l, g, d, r, hl, hg, hd, hr, ?_, hend⟩
  have hc := (((hc₁.trans hc₂).trans hc₃).trans hc₄).trans hc₅
  simpa using hc

example : findIter Unicode.latin1.isWord (price .latin1) "a ARS 1.250, b $99!".toList =
    ["$99".toList] := by decide +kernel

theorem clock_consumed {c t : Cursor} (h : t ∈ results u.isWord (clock u) c) :
    ∃ a b x y, u.isDecimal a = true ∧ u.isDecimal b = true ∧ u.isDecimal x = true ∧
      u.isDecimal y = true ∧ Consumes u.isWord c [a, b, ':', x, y] t ∧ c.afterWord = false := by
  have hascii : ∀ {cs : List Char} {x : Char}, cs.all (fun x => x.isDigit) = true → x ∈ cs →
      u.isDecimal x = true := by
    intro cs x hcs hx
    have hd : x.isDigit = true := List.all_eq_true.mp hcs x hx
    rw [u.ascii_decimal x (digit_lt hd), hd]
  obtain ⟨v₁, h₁, h⟩ := List.mem_flatMap.mp h
  obtain ⟨v₂, h₂, h⟩ := List.mem_flatMap.mp h
  obtain ⟨v₃, h₃, h⟩ := List.mem_flatMap.mp h
  obtain ⟨v₄, h₄, h⟩ := List.mem_flatMap.mp h
  obtain ⟨v₅, h₅, h⟩ := List.mem_flatMap.mp h
  obtain ⟨v₆, h₆, h⟩ := List.mem_flatMap.mp h
  obtain rfl := List.mem_singleton.mp h
  obtain ⟨rfl, hstart⟩ := mem_wordBoundary h₁
  obtain ⟨rfl, -⟩ := mem_wordBoundary h₆
  have hhour : ∃ a b, u.isDecimal a = true ∧ u.isDecimal b = true ∧
      Consumes u.isWord v₁ [a, b] v₂ := by
    rcases List.mem_append.mp h₂ with h₂ | h₂ <;>
      obtain ⟨w, hw, h₂⟩ := List.mem_flatMap.mp h₂ <;>
      obtain ⟨w', hw', h₂⟩ := List.mem_flatMap.mp h₂ <;>
      obtain rfl := List.mem_singleton.mp h₂ <;>
      obtain ⟨a, ha, hca⟩ := oneOf_one hw
    · obtain ⟨b, hb, hcb⟩ := Consumes.one hw'
      exact ⟨a, b, hascii (by decide) ha, hb, hca.trans hcb⟩
    · obtain ⟨b, hb, hcb⟩ := oneOf_one hw'
      exact ⟨a, b, hascii (by decide) ha, hascii (by decide) hb, hca.trans hcb⟩
  obtain ⟨a, b, ha, hb, hcab⟩ := hhour
  obtain ⟨z, hz, hcz⟩ := oneOf_one h₃
  obtain ⟨x, hx, hcx⟩ := oneOf_one h₄
  obtain ⟨y, hy, hcy⟩ := Consumes.one h₅
  obtain rfl := List.mem_singleton.mp hz
  refine ⟨a, b, x, y, ha, hb, hascii (by decide) hx, hy,
    ((hcab.trans hcz).trans hcx).trans hcy, ?_⟩
  rw [hcab.text] at hstart
  simpa [u.decimal_word ha] using hstart

theorem price_digitWord {s m : List Char} (h : m ∈ findIter u.isWord (price u) s) :
    DigitWord u s := by
  obtain ⟨pre, v, t, hp, ht, -⟩ := mem_findIterFrom _ _ h
  obtain ⟨l, g, d, r, -, hg, hd, hr, hc, hend⟩ := price_consumed ht
  have hs : s = (pre ++ (l ++ '$' :: g)) ++ d :: r ++ t.rest := by
    have htext : s = pre ++ v.rest := hp.text
    rw [htext, hc.text]
    simp
  have hlast : (pre ++ (l ++ '$' :: g)).getLast?.any u.isWord = false := by
    have hdollar : u.isWord '$' = false := ascii_not_word (by decide) (by decide) (by decide)
    rw [← List.append_assoc, List.getLast?_append, List.getLast?_cons]
    cases hl : g.getLast? with
    | none => simpa using hdollar
    | some x => simpa using u.space_not_word (hg x (List.mem_of_getLast? hl))
  rw [hs]
  exact digitWord_of_numeric hlast hd hr hend

theorem clock_digitWord {s m : List Char} (h : m ∈ findIter u.isWord (clock u) s) :
    DigitWord u s := by
  obtain ⟨pre, v, t, hp, ht, -⟩ := mem_findIterFrom _ _ h
  obtain ⟨a, b, x, y, ha, hb, -, -, hc, hstart⟩ := clock_consumed ht
  have hs : s = pre ++ a :: [b] ++ (':' :: x :: y :: t.rest) := by
    have htext : s = pre ++ v.rest := hp.text
    rw [htext, hc.text]
    simp
  have hcolon : u.isWord ':' = false := ascii_not_word (by decide) (by decide) (by decide)
  rw [hs]
  refine digitWord_of_numeric (consumes_after hp ▸ hstart) ha ?_ (by simpa using hcolon)
  intro c hc
  rw [List.mem_singleton.mp hc]
  exact .inl hb

/-- The text has a URL. -/
def UrlToken (u : Unicode) (s : List Char) : Prop :=
  ∃ m ∈ findIter u.isWord (url u) s, riskToken u m ≠ []

/-- Without evidence a text states risky facts if and only if it has a URL or a group of
digits that stands on its own. -/
theorem unsupported_iff {packet : ContextPacket} (h : packet.confirmedData = []) (s : List Char) :
    fails u s packet .unsupportedHighRiskFact = true ↔ UrlToken u s ∨ DigitWord u s := by
  have hcorpus : evidenceCorpus u packet = [] := by rw [evidenceCorpus, h]; rfl
  have hsupported : ∀ m, supported u (evidenceCorpus u packet) m = false ↔ riskToken u m ≠ [] := by
    intro m
    rw [supported, hcorpus, contains]
    simp
  simp only [fails, highRiskPatterns, List.any_cons, List.any_nil, Bool.or_false, Bool.or_eq_true,
    List.any_eq_true, Bool.not_eq_true', hsupported]
  constructor
  · rintro (hm | ⟨m, hm, -⟩ | ⟨m, hm, -⟩ | ⟨m, hm, -⟩)
    · exact .inl hm
    · exact .inr (price_digitWord hm)
    · exact .inr (clock_digitWord hm)
    · exact .inr ((numberTokens_ne_nil_iff s).mp (List.ne_nil_of_mem hm))
  · rintro (hm | hd)
    · exact .inl hm
    · obtain ⟨m, hm⟩ := List.exists_mem_of_ne_nil _ ((numberTokens_ne_nil_iff s).mpr hd)
      have hnum := token_isNumber hm
      exact .inr (.inr (.inr ⟨m, hm, by rw [hnum.riskToken]; exact hnum.ne_nil⟩))

theorem safe_iff (text : String) (packet : ContextPacket) :
    (validate u text packet).safe = true ↔ ∀ f, fails u (strip text.toList) packet f = false := by
  have hall : ∀ f : GroundingFailure, f ∈ failureOrder := by
    intro f
    cases f <;> decide
  have hfilter : failureOrder.filter (fails u (strip text.toList) packet) = [] ↔
      ∀ f, fails u (strip text.toList) packet f = false := by
    rw [List.filter_eq_nil_iff]
    constructor
    · intro h f
      simpa using h f (hall f)
    · intro h f _
      simp [h f]
  rw [← hfilter, validate]
  split_ifs with h
  · simp [h]
  · simp [h]

/-- The text is blocked for what it says in words. -/
def BlockedWords (u : Unicode) (packet : ContextPacket) (s : List Char) : Prop :=
  leaksInternals u s = true ∨ search u.isWord (evidenceFreeAvailability u) s = true ∨
    (contains (normalized u (joinLines packet.unavailableData)) "contenido".toList = true ∧
      search u.isWord (contentClaim u) s = true)

theorem digit_strip {text : String} {c : Char} (hc : c ∈ text.toList) (hd : c.isDigit = true) :
    c ∈ strip text.toList := by
  obtain ⟨pre, post, hs, hpre, hpost⟩ := strip_decompose text.toList
  have hspace : isSpace c = false :=
    Unicode.latin1.decimal_not_space hd
  rw [hs, List.append_assoc] at hc
  rcases List.mem_append.mp hc with hc | hc
  · rw [hpre c hc] at hspace
    cases hspace
  rcases List.mem_append.mp hc with hc | hc
  · exact hc
  · rw [hpost c hc] at hspace
    cases hspace

/-- Without evidence an accepted text has no digit if and only if the text has none, or
one of its groups of digits stands on its own, or it has a URL, or it is blocked for
what it says in words. -/
theorem digits_blocked_iff (u : Unicode) (packet : ContextPacket) (h : packet.confirmedData = [])
    (text : String) :
    ((validate u text packet).safe = true → ∀ c ∈ text.toList, c.isDigit = false) ↔
      (∀ c ∈ text.toList, c.isDigit = false) ∨ DigitWord u text.toList ∨
        UrlToken u (strip text.toList) ∨ BlockedWords u packet (strip text.toList) := by
  have hword : DigitWord u (strip text.toList) ↔ DigitWord u text.toList := by
    rw [← numberTokens_ne_nil_iff, ← numberTokens_ne_nil_iff, numberTokens_strip]
  have hrisk := unsupported_iff (u := u) h (strip text.toList)
  rw [hword] at hrisk
  rw [safe_iff]
  constructor
  · intro hsafe
    by_contra hnone
    simp only [not_or] at hnone
    obtain ⟨hdigit, hnoword, hnourl, hnowords⟩ := hnone
    refine hdigit (hsafe fun f => ?_)
    obtain ⟨hleak, havailable, hcontent⟩ := by simpa only [BlockedWords, not_or] using hnowords
    cases f with
    | empty =>
      simp only [not_forall] at hdigit
      obtain ⟨c, hc, hd⟩ := hdigit
      have hm := digit_strip hc (by simpa using hd)
      simpa [fails] using List.ne_nil_of_mem hm
    | internalLeak => simpa [fails] using hleak
    | evidenceFreeCommercialClaim =>
      simp only [Bool.not_eq_true] at havailable
      simp [fails, havailable]
    | unavailableContentClaim => simpa [fails] using hcontent
    | internalReference => simp [fails, h]
    | unsupportedHighRiskFact =>
      rw [← Bool.not_eq_true, hrisk, not_or]
      exact ⟨hnourl, hnoword⟩
  · rintro (hno | hd | hurl | hwords) hsafe
    · exact hno
    · have hf := hsafe .unsupportedHighRiskFact
      rw [hrisk.mpr (.inr hd)] at hf
      cases hf
    · have hf := hsafe .unsupportedHighRiskFact
      rw [hrisk.mpr (.inl hurl)] at hf
      cases hf
    · exfalso
      rcases hwords with hleak | havailable | ⟨hmissing, hcontent⟩
      · have hf := hsafe .internalLeak
        simp only [fails] at hf
        rw [hleak] at hf
        cases hf
      · have hf := hsafe .evidenceFreeCommercialClaim
        simp [fails, h, havailable] at hf
      · have hf := hsafe .unavailableContentClaim
        simp only [fails] at hf
        rw [hmissing, hcontent] at hf
        cases hf

/-- A packet without evidence. -/
def barePacket : ContextPacket :=
  accepted (ContextPacket.make "Responder la consulta." "¿Cuánto sale?" [] [] [] [] .jinjaLlm none
    "trace") (by decide +kernel)

/-- Every figure of the text is glued to a letter. -/
theorem glued_digits_accepted :
    ¬ ((validate .latin1 "Llevate 2kg por $500ars hasta las 20hs" barePacket).safe = true →
      ∀ c ∈ "Llevate 2kg por $500ars hasta las 20hs".toList, c.isDigit = false) := by
  have hsafe : (validate .latin1 "Llevate 2kg por $500ars hasta las 20hs" barePacket).safe = true := by
    decide
  have hdigit : '2' ∈ "Llevate 2kg por $500ars hasta las 20hs".toList := by decide
  intro h
  exact absurd (h hsafe '2' hdigit) (by decide)

theorem lone_digit_blocked : barePacket.confirmedData = [] ∧
    ((validate .latin1 "Quedan 5 panes" barePacket).safe = true →
      ∀ c ∈ "Quedan 5 panes".toList, c.isDigit = false) := by
  have hbare : barePacket.confirmedData = [] := by decide
  have hword : DigitWord .latin1 "Quedan 5 panes".toList :=
    ⟨"Quedan ".toList, ['5'], " panes".toList, by decide,
      ⟨by decide, List.forall_mem_singleton.mpr rfl⟩, by decide, by decide⟩
  exact ⟨hbare, (digits_blocked_iff .latin1 barePacket hbare _).mpr (.inr (.inl hword))⟩

end Piki.Grounding
