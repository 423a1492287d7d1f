import Piki.GroundingDigits
import Piki.TextWords

/-! Where the risky patterns can match. Every match has an anchor: a slash, a dollar, or
a digit that no word precedes. -/
namespace Piki.Grounding
open Text Regex
variable {u : Unicode}

section Matches

/-- A part of a line that cannot reach over `": "` in front of it, nor over the line
break behind it. -/
structure Confined (l r : List Char) : Prop where
  first : ∀ c, l.head? = some c → isSpace c = false
  left : ' ' ∉ l ∨ ':' ∉ l
  last : ∀ c, r.getLast? = some c → isSpace c = false
  right : '\n' ∉ r ∨ ('-' ∉ r ∧ 'H' ∉ r)

/-- What every match of a risky pattern has around its anchor, after the text `pre`. -/
structure Anchored (u : Unicode) (pre l : List Char) (a : Char) (r : List Char) : Prop where
  confined : Confined l r
  anchor : u.reFold a = '/' ∨ a = '$' ∨
    (l = [] ∧ u.isDecimal a = true ∧ pre.getLast?.any u.isWord = false)

theorem confined_of_no_space {l r : List Char} (hl : ∀ c ∈ l, isSpace c = false)
    (hr : ∀ c ∈ r, isSpace c = false) : Confined l r := by
  refine ⟨fun c hc => hl c (List.mem_of_head? hc), .inl ?_,
    fun c hc => hr c (List.mem_of_getLast? hc), .inl ?_⟩
  · intro h
    exact absurd (hl ' ' h) (by decide)
  · intro h
    exact absurd (hr '\n' h) (by decide)

/-- The match `m` of a pattern in `s` is anchored. -/
def AnchoredIn (u : Unicode) (s m : List Char) : Prop :=
  ∃ pre l a r post, m = l ++ a :: r ∧ s = pre ++ m ++ post ∧ Anchored u pre l a r

theorem mem_findIter {r : Expr} {s m : List Char} (h : m ∈ findIter u.isWord r s) :
    ∃ pre v t, s = pre ++ m ++ t.rest ∧ t ∈ results u.isWord r v ∧ Consumes u.isWord v m t ∧
      v.afterWord = pre.getLast?.any u.isWord := by
  obtain ⟨pre, v, t, hp, ht, hm⟩ := mem_findIterFrom _ _ h
  refine ⟨pre, v, t, ?_, ht, hm, consumes_after hp⟩
  rw [List.append_assoc, ← hm.text]
  exact hp.text

theorem number_anchored {s m : List Char} (h : m ∈ findIter u.isWord (number u) s) :
    AnchoredIn u s m := by
  obtain ⟨pre, v, t, hs, ht, hm, hafter⟩ := mem_findIter h
  obtain ⟨d, gs, hd, hg, hc, hstart, -⟩ := number_consumed ht
  have hspell := hm.unique hc
  have hnum := (isNumber_spell hd hg).numeric
  obtain ⟨hne, hall⟩ := hd
  cases d with
  | nil => exact absurd rfl hne
  | cons x xs =>
    refine ⟨pre, [], x, xs ++ spell gs, t.rest, hspell, hs, ⟨?_, ?_⟩⟩
    · exact confined_of_no_space (by simp) fun c hc => (hnum c (List.mem_cons_of_mem _ hc)).not_space
    · exact .inr (.inr ⟨rfl, hall x List.mem_cons_self, hafter ▸ hstart⟩)

theorem clock_anchored {s m : List Char} (h : m ∈ findIter u.isWord (clock u) s) :
    AnchoredIn u s m := by
  obtain ⟨pre, v, t, hs, ht, hm, hafter⟩ := mem_findIter h
  obtain ⟨a, b, x, y, ha, hb, hx, hy, hc, hstart⟩ := clock_consumed ht
  refine ⟨pre, [], a, [b, ':', x, y], t.rest, hm.unique hc, hs, ⟨?_, ?_⟩⟩
  · refine confined_of_no_space (by simp) ?_
    have hcolon : isSpace ':' = false := by decide
    simp [u.decimal_not_space hb, u.decimal_not_space hx, u.decimal_not_space hy, hcolon]
  · exact .inr (.inr ⟨rfl, ha, hafter ▸ hstart⟩)

variable (hu : u.Standard)
include hu

theorem folded_no_space {c : Char} (hc : isSpace (u.reFold c) = false) :
    Within (fun x => isSpace x = false) (folded u [c]) := by
  intro x hx
  by_contra hspace
  rw [decide_eq_true_eq, List.map_singleton, List.mem_singleton,
    hu.space_reFold x (by simpa using hspace)] at hx
  exact hspace (hx ▸ hc)

theorem foldedText_no_space {s : String} (h : ∀ c ∈ s.toList, isSpace (u.reFold c) = false) :
    Within (fun x => isSpace x = false) (foldedText u s) := by
  unfold foldedText
  revert h
  induction s.toList with
  | nil => intro _; trivial
  | cons c cs ih =>
    intro h
    exact ⟨folded_no_space hu (h c List.mem_cons_self),
      ih fun x hx => h x (List.mem_cons_of_mem _ hx)⟩

theorem url_anchored {s m : List Char} (h : m ∈ findIter u.isWord (url u) s) :
    AnchoredIn u s m := by
  obtain ⟨pre, v, t, hs, ht, hm, -⟩ := mem_findIter h
  have hfold : ∀ c : Char, c.toNat < 128 → isSpace c.toLower = false →
      isSpace (u.reFold c) = false := by
    intro c hc hl
    rw [u.ascii_reFold c hc]
    exact hl
  have hscheme : "://".toList = [':', '/', '/'] := by decide
  have hwithin : Within (fun x => isSpace x = false) (url u) := by
    refine ⟨foldedText_no_space hu ?_, ⟨folded_no_space hu (hfold 's' (by decide) (by decide)), trivial⟩,
      foldedText_no_space hu ?_, ?_, trivial⟩
    · rw [show "http".toList = ['h', 't', 't', 'p'] by decide]
      simp only [List.forall_mem_cons, List.not_mem_nil, false_imp_iff, implies_true, and_true]
      refine ⟨?_, ?_, ?_, ?_⟩ <;> exact hfold _ (by decide) (by decide)
    · rw [hscheme]
      simp only [List.forall_mem_cons, List.not_mem_nil, false_imp_iff, implies_true, and_true]
      refine ⟨?_, ?_, ?_⟩ <;> exact hfold _ (by decide) (by decide)
    · have hset : ∀ x, (!(isSpace x || decide (x ∈ ['<', '>', '"', '\'']))) = true →
          isSpace x = false := by
        intro x hx
        simp only [Bool.not_eq_true', Bool.or_eq_false_iff] at hx
        exact hx.1
      exact ⟨hset, hset⟩
  have hneeds : Needs (fun x => u.reFold x = '/') (url u) := by
    refine .inr (.inr (.inl ?_))
    rw [foldedText, hscheme]
    refine .inr (.inl ?_)
    intro x hx
    rw [decide_eq_true_eq, List.map_singleton, List.mem_singleton,
      u.ascii_reFold '/' (by decide)] at hx
    exact hx
  obtain ⟨d, hd, hcd⟩ := results_consumes hwithin v t ht
  obtain ⟨e, ⟨a, ha, hfa⟩, hce⟩ := results_needs hneeds v t ht
  rw [hce.unique hm] at ha
  rw [hcd.unique hm] at hd
  obtain ⟨l, r, hlr⟩ := List.append_of_mem ha
  refine ⟨pre, l, a, r, t.rest, hlr, hs, ⟨confined_of_no_space ?_ ?_, .inl hfa⟩⟩
  · intro c hc
    exact hd c (by rw [hlr]; exact List.mem_append_left _ hc)
  · intro c hc
    exact hd c (by rw [hlr]; exact List.mem_append_right _ (List.mem_cons_of_mem _ hc))

example : findIter Unicode.latin1.isWord (url .latin1) "<HTTPS://a.b/c> http:".toList =
    ["HTTPS://a.b/c".toList] := by decide +kernel

theorem currency_confined {l : List Char} (h : Currency u l) :
    (∀ c, l.head? = some c → isSpace c = false) ∧ ':' ∉ l := by
  rcases h with rfl | ⟨a, r, s, g, rfl, ha, hr, hs, hg⟩
  · exact ⟨by simp, by simp⟩
  have hcolon : u.reFold ':' = ':' := u.ascii_reFold ':' (by decide)
  refine ⟨?_, ?_⟩
  · intro c hc
    obtain rfl : a = c := by simpa using hc
    by_contra hspace
    have hspace : isSpace a = true := by simpa using hspace
    rw [hu.space_reFold a hspace] at ha
    rw [ha] at hspace
    exact absurd hspace (by decide)
  · simp only [List.mem_cons, not_or]
    refine ⟨?_, ?_, ?_, ?_⟩
    · rintro rfl
      exact absurd (hcolon.symm.trans ha) (by decide)
    · rintro rfl
      exact absurd (hcolon.symm.trans hr) (by decide)
    · rintro rfl
      exact absurd (hcolon.symm.trans hs) (by decide)
    · intro hm
      exact absurd (hg ':' hm) (by decide)

theorem price_anchored {s m : List Char} (h : m ∈ findIter u.isWord (price u) s) :
    AnchoredIn u s m := by
  obtain ⟨pre, v, t, hs, ht, hm, -⟩ := mem_findIter h
  obtain ⟨l, g, d, r, hl, hg, hd, hr, hc, -⟩ := price_consumed ht
  obtain ⟨hfirst, hcolon⟩ := currency_confined hu hl
  have hnum : ∀ x ∈ d :: r, Numeric u x := List.forall_mem_cons.mpr ⟨.inl hd, hr⟩
  have hletter : ∀ x : Char, isSpace x = false → Plain x → x ∉ g ++ d :: r := by
    intro x hx hp hmem
    rcases List.mem_append.mp hmem with hmem | hmem
    · rw [hg x hmem] at hx
      cases hx
    · exact hp.not_numeric (hnum x hmem)
  refine ⟨pre, l, '$', g ++ d :: r, t.rest, ?_, hs, ⟨⟨hfirst, .inr hcolon, ?_, .inr ⟨?_, ?_⟩⟩, ?_⟩⟩
  · rw [hm.unique hc]
    simp
  · intro c hc
    rw [List.getLast?_append_of_ne_nil _ (by simp)] at hc
    exact (hnum c (List.mem_of_getLast? hc)).not_space
  · exact hletter '-' (by decide) (by decide)
  · exact hletter 'H' (by decide) (by decide)
  · exact .inr (.inl rfl)

theorem risky_anchored {pattern : Expr} (hp : pattern ∈ highRiskPatterns u) {s m : List Char}
    (h : m ∈ findIter u.isWord pattern s) : AnchoredIn u s m := by
  simp only [highRiskPatterns, List.mem_cons, List.not_mem_nil, or_false] at hp
  rcases hp with rfl | rfl | rfl | rfl
  · exact url_anchored hu h
  · exact price_anchored hu h
  · exact clock_anchored h
  · exact number_anchored h

end Matches

section Fixed

/-- A text without any anchor. -/
def Mute (u : Unicode) (s : List Char) : Prop :=
  ∀ c ∈ s, u.isDecimal c = false ∧ c ≠ '$' ∧ u.reFold c ≠ '/'

/-- A text in which no match can be anchored: its digits follow characters of words. -/
structure Inert (u : Unicode) (s : List Char) : Prop where
  sign : ∀ c ∈ s, c ≠ '$' ∧ u.reFold c ≠ '/'
  digit : ∀ a c b, s = a ++ c :: b → u.isDecimal c = true → a.getLast?.any u.isWord = true

theorem Mute.inert {s : List Char} (h : Mute u s) : Inert u s := by
  refine ⟨fun c hc => (h c hc).2, ?_⟩
  rintro a c b rfl hd
  rw [(h c (by simp)).1] at hd
  cases hd

theorem Inert.append {s t : List Char} (hs : Inert u s) (ht : Inert u t) : Inert u (s ++ t) := by
  refine ⟨?_, ?_⟩
  · intro c hc
    rcases List.mem_append.mp hc with hc | hc
    · exact hs.sign c hc
    · exact ht.sign c hc
  · intro a c b h hd
    rcases append_cut h with ⟨rest, hcut, -⟩ | ⟨gap, rfl, hcut⟩
    · exact hs.digit a c rest hcut hd
    · have hgap := ht.digit gap c b hcut hd
      cases hl : gap.getLast? with
      | none => simp [hl] at hgap
      | some x =>
        rw [List.getLast?_append, hl]
        simpa [hl] using hgap

/-- An inert text in front of the anchor of a match does not reach it. -/
theorem Inert.not_anchored {s z x y pre l r : List Char} {a : Char} (hs : Inert u s)
    (hcut : s = x ++ a :: y) (hpre : pre ++ l = z ++ x) : ¬ Anchored u pre l a r := by
  rintro ⟨-, hslash | hdollar | ⟨rfl, hd, hword⟩⟩
  · exact (hs.sign a (by simp [hcut])).2 hslash
  · exact (hs.sign a (by simp [hcut])).1 hdollar
  · have hx := hs.digit x a y hcut hd
    rw [List.append_nil] at hpre
    cases hl : x.getLast? with
    | none => simp [hl] at hx
    | some c =>
      rw [hpre, List.getLast?_append, hl] at hword
      rw [hl] at hx
      simp_all

/-- The labels of evidence: ASCII names. -/
def Name (label : String) : Prop :=
  (∀ c ∈ label.toList, c.isAlphanum = true ∨ c = '_') ∧
    ∀ c, label.toList.head? = some c → c.isDigit = false

theorem name_char {c : Char} (h : c.isAlphanum = true ∨ c = '_') : c.toNat < 128 ∧
    isSpace c = false ∧ u.isWord c = true ∧ c ≠ '$' ∧ u.reFold c ≠ '/' := by
  have hascii : c.toNat < 128 := by
    rcases h with h | rfl
    · exact alphanum_lt h
    · decide
  have hfacts : isSpace c = false ∧ c ≠ '$' ∧ c.toLower ≠ '/' := by
    obtain ⟨k, hk, rfl⟩ := char_below hascii
    clear hascii
    revert k
    decide
  refine ⟨hascii, hfacts.1, ?_, hfacts.2.1, ?_⟩
  · rcases h with h | rfl
    · simp [Unicode.isWord, u.ascii_alnum c hascii, h]
    · simp [Unicode.isWord]
  · rw [u.ascii_reFold c hascii]
    exact hfacts.2.2

theorem Name.inert {label : String} (h : Name label) : Inert u label.toList := by
  obtain ⟨hall, hhead⟩ := h
  refine ⟨fun c hc => (name_char (hall c hc)).2.2.2, ?_⟩
  intro a c b hcut hd
  cases hl : a.getLast? with
  | none =>
    rw [List.getLast?_eq_none_iff.mp hl] at hcut
    have hc := hall c (by simp [hcut])
    rw [u.ascii_decimal c (name_char (u := u) hc).1, hhead c (by simp [hcut])] at hd
    cases hd
  | some x =>
    have hx : x ∈ label.toList := by
      rw [hcut]
      exact List.mem_append_left _ (List.mem_of_getLast? hl)
    simpa using (name_char (hall x hx)).2.2.1

/-- The test of a fixed text: Latin letters, no anchor, no internal marker. -/
def isPlain (s : List Char) : Bool :=
  s.all (fun c => decide (c.toNat < 256) && !c.isDigit && decide (c ≠ '$') &&
    decide (latinFold c ≠ '/')) && !leaksInternals .latin1 s

variable (hu : u.Standard)
include hu

theorem mute_of_plain {s : List Char} (h : isPlain s = true) : Mute u s := by
  intro c hc
  have hfacts := List.all_eq_true.mp (Bool.and_eq_true_iff.mp h).1 c hc
  simp only [Bool.and_eq_true, decide_eq_true_eq, Bool.not_eq_true'] at hfacts
  obtain ⟨⟨⟨hlt, hdigit⟩, hdollar⟩, hslash⟩ := hfacts
  exact ⟨by rw [hu.latin_decimal c hlt, hdigit], hdollar, by rw [hu.latin_reFold c hlt]; exact hslash⟩

theorem clean_of_plain {s : List Char} (h : isPlain s = true) : leaksInternals u s = false := by
  obtain ⟨hall, hleak⟩ := Bool.and_eq_true_iff.mp h
  have htext : u.upperText s = Unicode.latin1.upperText s := by
    refine List.flatMap_congr ?_
    intro c hc
    have hfacts := List.all_eq_true.mp hall c hc
    simp only [Bool.and_eq_true, decide_eq_true_eq] at hfacts
    exact hu.latin_upper c hfacts.1.1.1
  rw [leaksInternals, htext]
  simpa [leaksInternals] using hleak

/-- No match in a text without anchors. -/
theorem no_match_of_mute {pattern : Expr} (hp : pattern ∈ highRiskPatterns u) {s : List Char}
    (hs : Mute u s) : findIter u.isWord pattern s = [] := by
  rw [List.eq_nil_iff_forall_not_mem]
  intro m hm
  obtain ⟨pre, l, a, r, post, rfl, rfl, han⟩ := risky_anchored hu hp hm
  have hcut : pre ++ (l ++ a :: r) ++ post = (pre ++ l) ++ a :: (r ++ post) := by simp
  exact hs.inert.not_anchored hcut (List.nil_append _).symm han

end Fixed

end Piki.Grounding
