import Piki.FallbackGrounding

/-! The two detectors of internal markers: the validator looks at the stripped text, the
fallback at the collapsed one. They differ on a marker whose words are spaced otherwise. -/
namespace Piki.Grounding
open Text Regex

/-- Upper-casing keeps whitespace and makes no whitespace and no empty text of the rest. -/
structure KeepsWords (u : Unicode) : Prop where
  space_upper : ∀ c, isSpace c = true → u.upper c = [c]
  word_upper : ∀ c, isSpace c = false → u.upper c ≠ [] ∧ ∀ x ∈ u.upper c, isSpace x = false

section Words
variable {u : Unicode} (hu : KeepsWords u)
include hu

theorem upper_word {w : List Char} (hne : w ≠ []) (h : ∀ c ∈ w, isSpace c = false) :
    u.upperText w ≠ [] ∧ ∀ x ∈ u.upperText w, isSpace x = false := by
  constructor
  · cases w with
    | nil => exact absurd rfl hne
    | cons c w =>
      have hc := (hu.word_upper c (h c List.mem_cons_self)).1
      simp [Unicode.upperText, hc]
  · intro x hx
    obtain ⟨c, hc, hin⟩ := List.mem_flatMap.mp hx
    exact (hu.word_upper c (h c hc)).2 x hin

theorem split_upper (s : List Char) : split (u.upperText s) = (split s).map u.upperText := by
  have hwords : ∀ w ∈ split s, split (u.upperText w) = [u.upperText w] := by
    intro w hw
    obtain ⟨hne, hword⟩ := mem_split s w hw
    obtain ⟨hupper, hspace⟩ := upper_word hu hne hword
    exact split_word hupper hspace
  rw [Unicode.upperText, split_flatMap hu.space_upper]
  generalize split s = ws at hwords
  induction ws with
  | nil => rfl
  | cons w ws ih =>
    obtain ⟨hw, hws⟩ := List.forall_mem_cons.mp hwords
    rw [List.flatMap_cons, List.map_cons, ih hws]
    exact congrArg (· ++ _) hw

/-- Upper-casing and collapsing can change places. -/
theorem upper_collapse (s : List Char) : u.upperText (collapse s) = collapse (u.upperText s) := by
  have hblank : u.upper ' ' = [' '] := hu.space_upper ' ' (by decide)
  have hjoin : ∀ ws : List (List Char),
      u.upperText ([' '].intercalate ws) = [' '].intercalate (ws.map u.upperText) := by
    intro ws
    cases ws with
    | nil => rfl
    | cons w ws =>
      rw [intercalate_flatMap, List.map_cons, intercalate_flatMap, Unicode.upperText,
        List.flatMap_append, List.flatMap_assoc, List.flatMap_map]
      simp only [List.flatMap_append, List.flatMap_singleton, hblank]
      rfl
  rw [collapse, hjoin, collapse, split_upper hu]

end Words

section Ends

/-- Blanks before a text hold no part that begins with another character. -/
theorem infix_after_blanks {p pre s : List Char} (hpre : ∀ c ∈ pre, isSpace c = true)
    (hne : p ≠ []) (hhead : ∀ c, p.head? = some c → isSpace c = false) (h : p <:+: pre ++ s) :
    p <:+: s := by
  induction pre with
  | nil => exact h
  | cons c pre ih =>
    obtain ⟨hc, hpre⟩ := List.forall_mem_cons.mp hpre
    rcases List.infix_cons_iff.mp h with hstart | hin
    · obtain ⟨rest, hrest⟩ := hstart
      cases p with
      | nil => exact absurd rfl hne
      | cons x p =>
        obtain ⟨rfl, -⟩ := List.cons.inj hrest
        rw [hhead x rfl] at hc
        cases hc
    · exact ih hpre hin

theorem infix_before_blanks {p s post : List Char} (hpost : ∀ c ∈ post, isSpace c = true)
    (hne : p ≠ []) (hlast : ∀ c, p.getLast? = some c → isSpace c = false)
    (h : p <:+: s ++ post) : p <:+: s := by
  rw [← List.reverse_infix] at h ⊢
  rw [List.reverse_append] at h
  refine infix_after_blanks ?_ (by simpa using hne) ?_ h
  · intro c hc
    exact hpost c (List.mem_reverse.mp hc)
  · intro c hc
    exact hlast c (by rwa [List.head?_reverse] at hc)

/-- Every marker is collapsed, and begins and ends with a character that is no blank. -/
theorem internalPatterns_collapsed : (internalPatterns.all fun p => !p.toList.isEmpty &&
    p.toList.head?.all (fun c => !isSpace c) && p.toList.getLast?.all (fun c => !isSpace c) &&
    decide (collapse p.toList = p.toList)) = true := by
  decide

theorem marker_ends {p : String} (hp : p ∈ internalPatterns) : p.toList ≠ [] ∧
    (∀ c, p.toList.head? = some c → isSpace c = false) ∧
    (∀ c, p.toList.getLast? = some c → isSpace c = false) ∧ collapse p.toList = p.toList := by
  have h := List.all_eq_true.mp internalPatterns_collapsed p hp
  simp only [Bool.and_eq_true, Bool.not_eq_true', List.isEmpty_eq_false_iff, Option.all_eq_true,
    decide_eq_true_eq] at h
  exact ⟨h.1.1.1, h.1.1.2, h.1.2, h.2⟩

end Ends

section Detectors
variable {u : Unicode}

/-- A marker stands in the upper-cased text, its words separated by any whitespace. -/
def Spaced (u : Unicode) (text : String) : Prop :=
  ∃ p ∈ internalPatterns, ∃ x, x <:+: u.upperText text.toList ∧ collapse x = p.toList

/-- A marker stands in the upper-cased text as it is. -/
def Literal (u : Unicode) (text : String) : Prop :=
  ∃ p ∈ internalPatterns, p.toList <:+: u.upperText text.toList

/-- `_safe_fallback_value` replaces the text. -/
def redacts (u : Unicode) (text : String) : Bool := leaksInternals u (collapse text.toList)

/-- The validator reports a leak where the fallback redacts, and a safe text has no marker
once it is collapsed and upper-cased. -/
structure DetectorsAgree (u : Unicode) (text : String) (packet : ContextPacket) : Prop where
  same : .internalLeak ∈ (validate u text packet).failures ↔ redacts u text = true
  safe_clean : (validate u text packet).safe = true →
    ∀ p ∈ internalPatterns, ¬ p.toList <:+: u.upperText (collapse text.toList)

theorem redacts_iff (hu : KeepsWords u) (text : String) :
    redacts u text = true ↔ Spaced u text := by
  rw [redacts, leaksInternals_iff, upper_collapse hu, Spaced]
  refine exists_congr fun p => and_congr_right fun hp => ?_
  obtain ⟨hne, hhead, hlast, -⟩ := marker_ends hp
  exact infix_collapse_iff hne hhead hlast

theorem leaks_strip_iff (hu : KeepsWords u) (text : String) :
    leaksInternals u (strip text.toList) = true ↔ Literal u text := by
  rw [leaksInternals_iff, Literal]
  obtain ⟨pre, post, htext, hpre, hpost⟩ := strip_decompose text.toList
  have hblank : ∀ {cs : List Char}, (∀ c ∈ cs, isSpace c = true) →
      ∀ x ∈ u.upperText cs, isSpace x = true := by
    intro cs hcs x hx
    obtain ⟨c, hc, hin⟩ := List.mem_flatMap.mp hx
    rw [hu.space_upper c (hcs c hc), List.mem_singleton] at hin
    rw [hin]
    exact hcs c hc
  have hupper : u.upperText text.toList =
      u.upperText pre ++ (u.upperText (strip text.toList) ++ u.upperText post) := by
    conv_lhs => rw [htext]
    simp [Unicode.upperText]
  refine exists_congr fun p => and_congr_right fun hp => ?_
  obtain ⟨hne, hhead, hlast, -⟩ := marker_ends hp
  rw [hupper]
  constructor
  · intro hin
    exact hin.trans ⟨u.upperText pre, u.upperText post, by rw [List.append_assoc]⟩
  · intro hin
    have hstart := infix_after_blanks (hblank hpre) hne hhead hin
    exact infix_before_blanks (hblank hpost) hne hlast hstart

/-- The detectors agree on a text if and only if it has a marker as it is whenever it has
one with other whitespace between its words. -/
theorem detectors_agree_iff {u : Unicode} (hu : KeepsWords u) (text : String)
    (packet : ContextPacket) :
    DetectorsAgree u text packet ↔ (Spaced u text → Literal u text) := by
  have hleak : .internalLeak ∈ (validate u text packet).failures ↔ Literal u text := by
    rw [mem_failures_iff, fails, leaks_strip_iff hu]
  have hredacts := redacts_iff hu text
  constructor
  · intro h hspaced
    exact hleak.mp (h.same.mpr (hredacts.mpr hspaced))
  · intro h
    have hliteral : Literal u text → Spaced u text := by
      rintro ⟨p, hp, hin⟩
      exact ⟨p, hp, p.toList, hin, (marker_ends hp).2.2.2⟩
    refine ⟨?_, ?_⟩
    · rw [hleak, hredacts]
      exact ⟨hliteral, h⟩
    · intro hsafe p hp hin
      have hspaced : Spaced u text := hredacts.mp (leaksInternals_iff.mpr ⟨p, hp, hin⟩)
      have hmem := hleak.mpr (h hspaced)
      have hshape := (validate u text packet).safe_shape
      rw [hsafe, eq_comm, Bool.and_eq_true, List.isEmpty_iff] at hshape
      rw [hshape.2] at hmem
      cases hmem

end Detectors

set_option maxRecDepth 10000 in
theorem latin_keepsWords {c : Char} (h : c.toNat < 256) :
    (isSpace c = true → latinUpper c = [c]) ∧ (isSpace c = false → latinUpper c ≠ [] ∧
      (latinUpper c).all (fun x => !isSpace x) = true) := by
  obtain ⟨k, hk, rfl⟩ := char_below h
  clear h
  revert k
  decide

theorem latinUpper_large {c : Char} (h : 256 ≤ c.toNat) : latinUpper c = [c] := by
  have hs : c ≠ 'ß' := by rintro rfl; exact absurd h (by decide)
  have hm : c ≠ 'µ' := by rintro rfl; exact absurd h (by decide)
  have hy : c ≠ 'ÿ' := by rintro rfl; exact absurd h (by decide)
  have hc : latinSmall c = false := by
    simp only [latinSmall, Bool.and_eq_false_iff, decide_eq_false_iff_not]
    omega
  have hval : ¬ c.val ≤ 122 := by
    rw [UInt32.le_iff_toNat_le, Char.toNat_val]
    have : (122 : UInt32).toNat = 122 := rfl
    omega
  have hupper : c.toUpper = c := by
    simp only [Char.toUpper, Char.reduceVal, hval, and_false, dite_false]
  simp [latinUpper, hs, hm, hy, hc, hupper]

theorem latin1_keepsWords : KeepsWords .latin1 := by
  constructor
  · intro c hc
    by_cases h : c.toNat < 256
    · exact (latin_keepsWords h).1 hc
    · exact latinUpper_large (by omega)
  · intro c hc
    by_cases h : c.toNat < 256
    · obtain ⟨hne, hspace⟩ := (latin_keepsWords h).2 hc
      refine ⟨hne, ?_⟩
      intro x hx
      simpa using List.all_eq_true.mp hspace x hx
    · have hupper : Unicode.latin1.upper c = [c] := latinUpper_large (by omega)
      rw [hupper]
      simpa using hc

/-- A line break inside a marker hides it from the validator only. -/
theorem broken_marker_unreported :
    ¬ DetectorsAgree .latin1 "DATOS\nCONFIRMADOS" markedPacket := by
  have hredacts : redacts .latin1 "DATOS\nCONFIRMADOS" = true := by decide
  have hunseen : leaksInternals .latin1 (strip "DATOS\nCONFIRMADOS".toList) = false := by
    decide
  intro h
  have hreported := mem_failures_iff.mp (h.same.mpr hredacts)
  rw [fails, hunseen] at hreported
  cases hreported

/-- A marker on one line is seen by both. -/
theorem spaced_marker_reported : KeepsWords .latin1 ∧
    DetectorsAgree .latin1 " datos confirmados\t" markedPacket := by
  have hliteral : Literal .latin1 " datos confirmados\t" :=
    leaksInternals_iff.mp (by decide)
  exact ⟨latin1_keepsWords, (detectors_agree_iff latin1_keepsWords _ _).mpr fun _ => hliteral⟩

end Piki.Grounding
