import Piki.OrderEvidence
import Piki.RiskAnchors

/-! The factual fallback passes the checks it replaces a text for: the fixed parts of it
have no anchor of a risky pattern, so that every match lies in one confirmed value, and
no internal marker reaches over a join. -/
namespace Piki.Grounding
open Text Regex Evidence ConversationOrchestrator
variable {u : Unicode}

section Layout

def heading : List Char := "Esto es lo que pude confirmar:".toList
def omitted : List Char := "[dato omitido por seguridad]".toList
def missing : List Char := "Hay datos que todavía no pude confirmar.".toList

/-- What is said without evidence of the API. -/
def excuse (mode : ResponseMode) : List Char :=
  if mode = .nonCommercialLlm then
    "Soy Piki, el asistente de BuenPick. Te ayudo a descubrir alimentos ".toList ++
      "para rescatar y a consultar información confirmada por BuenPick.".toList
  else
    "No pude confirmar la información necesaria en este momento. ".toList ++
      "Probemos de nuevo en un rato.".toList

set_option maxRecDepth 10000 in
theorem texts_checked : isPlain heading = true ∧ heading = 'E' :: heading.tail ∧
    isPlain omitted = true ∧ isPlain missing = true ∧ missing = 'H' :: missing.tail ∧
    isPlain (excuse .nonCommercialLlm) = true ∧ isPlain (excuse .jinja) = true ∧
    isPlain ['\n', '-', ' '] = true ∧ isPlain [':', ' '] = true := by
  decide

/-- No internal marker begins with a blank or has a line break, a dash or a colon. -/
theorem internalPatterns_shape : ∀ p ∈ internalPatterns, p.toList ≠ [] ∧
    p.toList.head? ≠ some ' ' ∧ '\n' ∉ p.toList ∧ '-' ∉ p.toList ∧ ':' ∉ p.toList := by
  decide

/-- The fixed texts of the fallback are plain. -/
structure FixedTexts : Prop where
  heading_plain : isPlain heading = true
  heading_head : heading = 'E' :: heading.tail
  omitted_plain : isPlain omitted = true
  missing_plain : isPlain missing = true
  missing_head : missing = 'H' :: missing.tail
  introduction_plain : isPlain (excuse .nonCommercialLlm) = true
  apology_plain : isPlain (excuse .jinja) = true
  bullet_plain : isPlain ['\n', '-', ' '] = true
  colon_plain : isPlain [':', ' '] = true

theorem fixedTexts : FixedTexts := by
  obtain ⟨h₁, h₂, h₃, h₄, h₅, h₆, h₇, h₈, h₉⟩ := texts_checked
  exact ⟨h₁, h₂, h₃, h₄, h₅, h₆, h₇, h₈, h₉⟩

theorem excuse_plain (mode : ResponseMode) : isPlain (excuse mode) = true := by
  by_cases h : mode = .nonCommercialLlm
  · rw [h]
    exact fixedTexts.introduction_plain
  · rw [excuse, if_neg h]
    exact fixedTexts.apology_plain

/-- What stands between the values of two facts. -/
def gap (u : Unicode) (fact : Fact) : List Char :=
  '\n' :: '-' :: ' ' :: (safeFallbackValue u fact.1).toList ++ [':', ' ']

def shown (u : Unicode) (fact : Fact) : List Char := (safeFallbackValue u fact.2).toList

def bullet (u : Unicode) (fact : Fact) : List Char := gap u fact ++ shown u fact

def closing (packet : ContextPacket) : List Char :=
  if packet.unavailableData = [] then [] else '\n' :: missing

/-- Labels and values of the evidence of the API. -/
def apiFacts (packet : ContextPacket) : List Fact :=
  (packet.confirmedData.filter fromApi).map fun item => (item.label, item.value)

def body (u : Unicode) (packet : ContextPacket) : List Char :=
  heading ++ (((apiFacts packet).take 8).flatMap (bullet u) ++ closing packet)

theorem joinLines_eq (line : String) (lines : List String) :
    joinLines (line :: lines) = line.toList ++ lines.flatMap fun next => '\n' :: next.toList := by
  rw [joinLines, List.map_cons, intercalate_flatMap, List.flatMap_map]
  rfl

theorem infix_joinLines {line : String} {lines : List String} (h : line ∈ lines) :
    line.toList <:+: joinLines lines := by
  cases lines with
  | nil => simp at h
  | cons first lines =>
    rw [joinLines_eq]
    rcases List.mem_cons.mp h with rfl | h
    · exact (List.prefix_append _ _).isInfix
    · obtain ⟨before, after, rfl⟩ := List.append_of_mem h
      refine ⟨first.toList ++ before.flatMap (fun next => '\n' :: next.toList) ++ ['\n'],
        after.flatMap fun next => '\n' :: next.toList, ?_⟩
      simp

/-- With evidence of the API the fallback is the beginning of the laid out facts. -/
theorem factualFallback_body {packet : ContextPacket} (h : apiFacts packet ≠ []) :
    factualFallback u packet = String.ofList ((body u packet).take 4096) := by
  have hne : packet.confirmedData.filter fromApi ≠ [] := by
    intro hnil
    exact h (by rw [apiFacts, hnil]; rfl)
  obtain ⟨item, items, hitems⟩ := List.exists_cons_of_ne_nil hne
  have hline : ∀ e : EvidenceItem, '\n' :: ("- " ++ safeFallbackValue u e.label ++ ": " ++
      safeFallbackValue u e.value).toList = bullet u (e.label, e.value) := by
    intro e
    simp [bullet, gap, shown, show "- ".toList = ['-', ' '] by decide,
      show ": ".toList = [':', ' '] by decide]
  have hclosing : ∀ rest : List String, (rest = if packet.unavailableData = [] then []
      else ["Hay datos que todavía no pude confirmar."]) →
      (rest.flatMap fun next => '\n' :: next.toList) = closing packet := by
    rintro rest rfl
    unfold closing
    split_ifs
    · rfl
    · exact List.flatMap_singleton _ _
  have hbody : joinLines ("Esto es lo que pude confirmar:" ::
      ((((item :: items).take 8).map fun e =>
        "- " ++ safeFallbackValue u e.label ++ ": " ++ safeFallbackValue u e.value) ++
        if packet.unavailableData = [] then []
        else ["Hay datos que todavía no pude confirmar."])) = body u packet := by
    have hlines : (((item :: items).take 8).flatMap fun e => '\n' :: ("- " ++
        safeFallbackValue u e.label ++ ": " ++ safeFallbackValue u e.value).toList) =
        ((item :: items).take 8).flatMap fun e => bullet u (e.label, e.value) :=
      List.flatMap_congr fun e _ => hline e
    have hfacts : body u packet = heading ++ ((((item :: items).take 8).flatMap fun e =>
        bullet u (e.label, e.value)) ++ closing packet) := by
      rw [body, apiFacts, hitems, ← List.map_take, List.flatMap_map]
    rw [joinLines_eq, List.flatMap_append, List.flatMap_map, hclosing _ rfl, hlines]
    exact hfacts.symm
  rw [factualFallback, hitems]
  simp only [List.cons_append]
  rw [hbody]

/-- The position of a character in the list of facts: in a fixed text, or in a value
with `": "` before it and nothing or a new line behind it. -/
theorem locate {facts : List Fact} {tail : List Char} (hgap : ∀ f ∈ facts, Inert u (gap u f))
    (htail : Inert u tail) (hshape : tail = [] ∨ ∃ rest, tail = '\n' :: 'H' :: rest)
    {pre post : List Char} {a : Char} (h : facts.flatMap (bullet u) ++ tail = pre ++ a :: post) :
    (∃ s x y z, Inert u s ∧ s = x ++ a :: y ∧ pre = z ++ x) ∨
      ∃ f ∈ facts, ∃ z l r next, shown u f = l ++ a :: r ∧ pre = z ++ [':', ' '] ++ l ∧
        post = r ++ next ∧
        (next = [] ∨ ∃ y rest, next = '\n' :: y :: rest ∧ (y = '-' ∨ y = 'H')) := by
  induction facts generalizing pre with
  | nil => exact .inl ⟨tail, pre, post, [], htail, by simpa using h, rfl⟩
  | cons f fs ih =>
    rw [List.flatMap_cons, bullet, List.append_assoc, List.append_assoc] at h
    rcases append_cut h with ⟨rest, hcut, -⟩ | ⟨x, rfl, hrest⟩
    · exact .inl ⟨gap u f, pre, rest, [], hgap f List.mem_cons_self, hcut, rfl⟩
    rcases append_cut hrest with ⟨rest, hcut, hpost⟩ | ⟨w, rfl, hnext⟩
    · refine .inr ⟨f, List.mem_cons_self, '\n' :: '-' :: ' ' :: (safeFallbackValue u f.1).toList,
        x, rest, _, hcut, by simp [gap], hpost, ?_⟩
      cases fs with
      | nil =>
        rcases hshape with rfl | ⟨rest, rfl⟩
        · exact .inl rfl
        · exact .inr ⟨'H', rest, rfl, .inr rfl⟩
      | cons g gs => exact .inr ⟨'-', _, rfl, .inl rfl⟩
    · rcases ih (fun g hg => hgap g (List.mem_cons_of_mem _ hg)) hnext with
        ⟨s, x, y, z, hs, hcut, rfl⟩ | ⟨g, hg, z, l, r, next, hcut, rfl, hpost, hshape⟩
      · exact .inl ⟨s, x, y, gap u f ++ (shown u f ++ z), hs, hcut, by simp⟩
      · exact .inr ⟨g, List.mem_cons_of_mem _ hg, gap u f ++ (shown u f ++ z), l, r, next, hcut,
          by simp, hpost, hshape⟩

/-- A match anchored in a value does not leave it. -/
theorem confined_part {pre l r post z l' r' next : List Char} {a : Char} (h : Confined l r)
    (hleft : pre ++ l = z ++ [':', ' '] ++ l') (hright : r ++ post = r' ++ next)
    (hnext : next = [] ∨ ∃ y rest, next = '\n' :: y :: rest ∧ (y = '-' ∨ y = 'H')) :
    l ++ a :: r <:+: l' ++ a :: r' := by
  have hl : ∃ w, l' = w ++ l := by
    rcases List.append_eq_append_iff.mp hleft with ⟨w, hz, hw⟩ | ⟨w, -, hw⟩
    · rcases List.eq_nil_or_concat' w with rfl | ⟨w, c, rfl⟩
      · exact ⟨[], by simpa using hw.symm⟩
      · exfalso
        have hc : c = ' ' := by
          have := congrArg List.getLast? hz
          simpa using this.symm
        rcases List.eq_nil_or_concat' w with rfl | ⟨w, d, rfl⟩
        · exact absurd (h.first c (by simp [hw])) (by rw [hc]; decide)
        · have hd : d = ':' := by
            have := congrArg (fun s => s.dropLast.getLast?) hz
            simpa [List.dropLast_append] using this.symm
          rcases h.left with hno | hno
          · exact hno (by simp [hw, hc])
          · exact hno (by simp [hw, hd])
    · exact ⟨w, hw⟩
  have hr : ∃ w, r' = r ++ w := by
    rcases List.append_eq_append_iff.mp hright with ⟨w, hw, -⟩ | ⟨w, hw, hnx⟩
    · exact ⟨w, hw⟩
    · rcases hnext with rfl | ⟨y, rest, rfl, hy⟩
      · obtain ⟨rfl, -⟩ := List.append_eq_nil_iff.mp hnx.symm
        exact ⟨[], by simpa using hw.symm⟩
      · cases w with
        | nil => exact ⟨[], by simpa using hw.symm⟩
        | cons c w =>
          exfalso
          obtain ⟨rfl, hnx'⟩ := List.cons.inj hnx
          cases w with
          | nil => exact absurd (h.last '\n' (by simp [hw])) (by decide)
          | cons d w =>
            obtain ⟨rfl, -⟩ := List.cons.inj hnx'
            rcases h.right with hno | ⟨hdash, hh⟩
            · exact hno (by simp [hw])
            · rcases hy with rfl | rfl
              · exact hdash (by simp [hw])
              · exact hh (by simp [hw])
  obtain ⟨w, rfl⟩ := hl
  obtain ⟨w', rfl⟩ := hr
  exact ⟨w, w', by simp⟩

end Layout

section Grounded
variable (hu : u.Standard)
include hu

theorem safeFallbackValue_inert {label : String} (h : Name label) :
    Inert u (safeFallbackValue u label).toList := by
  simp only [safeFallbackValue]
  split_ifs
  · exact (mute_of_plain hu fixedTexts.omitted_plain).inert
  · rw [String.toList_ofList, collapse_of_no_space fun c hc => (name_char (u := u) (h.1 c hc)).2.1]
    exact h.inert

theorem gap_inert {fact : Fact} (h : Name fact.1) : Inert u (gap u fact) := by
  have hstart : Inert u ['\n', '-', ' '] := (mute_of_plain hu fixedTexts.bullet_plain).inert
  have hend : Inert u [':', ' '] := (mute_of_plain hu fixedTexts.colon_plain).inert
  exact (hstart.append (safeFallbackValue_inert hu h)).append hend

theorem closing_inert (packet : ContextPacket) : Inert u (closing packet) ∧
    (closing packet = [] ∨ ∃ rest, closing packet = '\n' :: 'H' :: rest) := by
  unfold closing
  split_ifs
  · exact ⟨⟨by simp, by simp⟩, .inl rfl⟩
  · have hbreak : Inert u ['\n'] :=
      (Mute.inert fun c hc => mute_of_plain hu fixedTexts.bullet_plain c (by simp_all))
    refine ⟨hbreak.append (mute_of_plain hu fixedTexts.missing_plain).inert, .inr ⟨missing.tail, ?_⟩⟩
    rw [← fixedTexts.missing_head]

/-- A match of a risky pattern in the facts lies in one value that is shown as it is. -/
theorem match_in_value {packet : ContextPacket} (hname : ∀ f ∈ apiFacts packet, Name f.1)
    {pattern : Expr} (hp : pattern ∈ highRiskPatterns u) {s m : List Char}
    (hs : s <+: body u packet) (hm : m ∈ findIter u.isWord pattern s) :
    ∃ f ∈ apiFacts packet, m <:+: collapse f.2.toList := by
  obtain ⟨pre, l, a, r, post, rfl, rfl, han⟩ := risky_anchored hu hp hm
  obtain ⟨cut, hcut⟩ := hs
  have hpos : heading ++ (((apiFacts packet).take 8).flatMap (bullet u) ++ closing packet) =
      (pre ++ l) ++ a :: (r ++ (post ++ cut)) := by
    rw [← body, ← hcut]
    simp
  obtain ⟨htail, hshape⟩ := closing_inert hu packet
  have hheading : Inert u heading := (mute_of_plain hu fixedTexts.heading_plain).inert
  rcases append_cut hpos with ⟨rest, hin, -⟩ | ⟨x, hpre, hrest⟩
  · exact absurd han (hheading.not_anchored hin (List.nil_append _).symm)
  have hgap : ∀ f ∈ (apiFacts packet).take 8, Inert u (gap u f) :=
    fun f hf => gap_inert hu (hname f (List.mem_of_mem_take hf))
  rcases locate hgap htail hshape hrest with
    ⟨t, y, w, z, ht, hin, rfl⟩ | ⟨f, hf, z, l', r', next, hin, rfl, hpost, hnext⟩
  · refine absurd han (ht.not_anchored hin (z := heading ++ z) ?_)
    rw [hpre, List.append_assoc]
  · refine ⟨f, List.mem_of_mem_take hf, ?_⟩
    have hleft : pre ++ l = (heading ++ z) ++ [':', ' '] ++ l' := by
      rw [hpre]
      simp
    have hvalue : l ++ a :: r <:+: shown u f := by
      rw [hin]
      exact confined_part han.confined hleft hpost hnext
    have hkept : shown u f = collapse f.2.toList := by
      have hmute := mute_of_plain hu fixedTexts.omitted_plain
      simp only [shown, safeFallbackValue] at hin ⊢
      split_ifs at hin ⊢ with hleak
      · exact absurd han (hmute.inert.not_anchored hin hleft)
      · exact String.toList_ofList
    rwa [hkept] at hvalue

/-- What is looked up for a part of a shown value occurs in the joined evidence. -/
theorem riskToken_grounded {packet : ContextPacket} {f : Fact} (hf : f ∈ apiFacts packet)
    {m : List Char} (hm : m <:+: collapse f.2.toList) :
    riskToken u m <:+: evidenceCorpus u packet := by
  obtain ⟨item, hitem, rfl⟩ := List.mem_map.mp hf
  have hvalue : item.value.toList <:+: joinLines (packet.confirmedData.map EvidenceItem.value) :=
    infix_joinLines (List.mem_map_of_mem (List.mem_filter.mp hitem).1)
  have htoken : riskToken u m <:+: collapse (u.casefoldText (collapse item.value.toList)) :=
    collapse_part (infix_flatMap _ ((rstripBy_isPrefix _ _).isInfix.trans hm))
  rw [Unicode.casefoldText, collapse_flatMap_collapse hu.space_casefold] at htoken
  exact htoken.trans (collapse_part (infix_flatMap _ hvalue))

end Grounded

section Leaks

@[grind =] theorem leaksInternals_iff {s : List Char} : leaksInternals u s = true ↔
    ∃ p ∈ internalPatterns, p.toList <:+: u.upperText s := by
  simp only [leaksInternals, List.any_eq_true, contains_iff]

theorem leaksInternals_part {s t : List Char} (h : s <:+: t) (ht : leaksInternals u t = false) :
    leaksInternals u s = false := by
  rw [Bool.eq_false_iff] at ht ⊢
  intro hs
  obtain ⟨p, hp, hin⟩ := leaksInternals_iff.mp hs
  exact ht (leaksInternals_iff.mpr ⟨p, hp, hin.trans (infix_flatMap _ h)⟩)

theorem leaksInternals_cut {s t : List Char} {c : Char} (hc : c ∈ ['\n', '-', ':'])
    (hs : leaksInternals u s = false) (ht : leaksInternals u t = false) :
    leaksInternals u (s ++ c :: t) = false := by
  have hfree : ∀ p ∈ internalPatterns, c ∉ p.toList := by
    intro p hp
    obtain ⟨-, -, hbreak, hdash, hcolon⟩ := internalPatterns_shape p hp
    simp only [List.mem_cons, List.not_mem_nil, or_false] at hc
    rcases hc with rfl | rfl | rfl
    · exact hbreak
    · exact hdash
    · exact hcolon
  have hascii : c.toNat < 128 ∧ c.toUpper = c := by
    simp only [List.mem_cons, List.not_mem_nil, or_false] at hc
    rcases hc with rfl | rfl | rfl <;> exact ⟨by decide, rfl⟩
  have htext : u.upperText (s ++ c :: t) = u.upperText s ++ c :: u.upperText t := by
    simp [Unicode.upperText, u.ascii_upper c hascii.1, hascii.2]
  rw [Bool.eq_false_iff] at hs ht ⊢
  intro h
  obtain ⟨p, hp, hin⟩ := leaksInternals_iff.mp h
  rw [htext] at hin
  rcases infix_append_cons (hfree p hp) hin with hin | hin
  · exact hs (leaksInternals_iff.mpr ⟨p, hp, hin⟩)
  · exact ht (leaksInternals_iff.mpr ⟨p, hp, hin⟩)

theorem leaksInternals_blank {s : List Char} (hs : leaksInternals u s = false) :
    leaksInternals u (' ' :: s) = false := by
  have htext : u.upperText (' ' :: s) = ' ' :: u.upperText s := by
    simp [Unicode.upperText, u.ascii_upper ' ' (by decide)]
  rw [Bool.eq_false_iff] at hs ⊢
  intro h
  obtain ⟨p, hp, hin⟩ := leaksInternals_iff.mp h
  obtain ⟨hne, hblank, -⟩ := internalPatterns_shape p hp
  rw [htext] at hin
  rcases List.infix_cons_iff.mp hin with hpre | hin
  · obtain ⟨post, hpost⟩ := hpre
    cases hl : p.toList with
    | nil => exact hne hl
    | cons x xs =>
      rw [hl] at hpost hblank
      exact hblank (by rw [(List.cons.inj hpost).1]; rfl)
  · exact hs (leaksInternals_iff.mpr ⟨p, hp, hin⟩)

variable (hu : u.Standard)
include hu

theorem safeFallbackValue_clean (value : String) :
    leaksInternals u (safeFallbackValue u value).toList = false := by
  simp only [safeFallbackValue]
  split_ifs with h
  · exact clean_of_plain hu fixedTexts.omitted_plain
  · rw [String.toList_ofList]
    simpa using h

example : safeFallbackValue .latin1 "ver trace_id" = "[dato omitido por seguridad]" := by
  decide +kernel

theorem bullet_clean {s : List Char} (hs : leaksInternals u s = false) (fact : Fact) :
    leaksInternals u (s ++ bullet u fact) = false := by
  have hlayout : bullet u fact = '\n' :: ([] ++ '-' :: (' ' :: (safeFallbackValue u fact.1).toList ++
      ':' :: ' ' :: shown u fact)) := by
    simp [bullet, gap]
  have hnil : leaksInternals u [] = false := clean_of_plain hu (by decide)
  rw [hlayout]
  refine leaksInternals_cut (by decide) hs (leaksInternals_cut (by decide) hnil ?_)
  refine leaksInternals_cut (by decide) ?_ ?_
  · exact leaksInternals_blank (safeFallbackValue_clean hu fact.1)
  · exact leaksInternals_blank (safeFallbackValue_clean hu fact.2)

/-- Putting clean values one below the other makes no internal marker. -/
theorem body_clean (packet : ContextPacket) : leaksInternals u (body u packet) = false := by
  have hfacts : ∀ (facts : List Fact) (s : List Char), leaksInternals u s = false →
      leaksInternals u (s ++ (facts.flatMap (bullet u) ++ closing packet)) = false := by
    intro facts
    induction facts with
    | nil =>
      intro s hs
      rw [List.flatMap_nil, List.nil_append, closing]
      split_ifs
      · simpa using hs
      · exact leaksInternals_cut (by decide) hs (clean_of_plain hu fixedTexts.missing_plain)
    | cons fact facts ih =>
      intro s hs
      have h := ih (s ++ bullet u fact) (bullet_clean hu hs fact)
      simpa using h
  exact hfacts _ _ (clean_of_plain hu fixedTexts.heading_plain)

end Leaks

section Bundles

/-- The bundle is what a mapper made of the result of a tool. -/
def Mapped (u : Unicode) (bundle : ToolEvidenceBundle) : Prop :=
  (∃ result, searchResultEvidence u result = .ok bundle) ∨
    ∃ result, orderResultEvidence result = .ok bundle

/-- The packet states the facts of the bundle. Its query, its references and its
evidence from other sources are free. -/
def BuiltFrom (bundle : ToolEvidenceBundle) (packet : ContextPacket) : Prop :=
  apiFacts packet = bundle.confirmedData.map fun item => (item.label, item.value)

/-- The test of a fixed label. -/
def isName (label : String) : Bool :=
  label.toList.all (fun c => c.isAlphanum || c == '_') &&
    label.toList.head?.any (fun c => !c.isDigit)

theorem name_numbered {stem : String} (h : isName stem = true) (i : ℕ) :
    Name (stem ++ toString i) := by
  obtain ⟨hall, hhead⟩ := Bool.and_eq_true_iff.mp h
  refine ⟨?_, ?_⟩
  · intro c hc
    rw [String.toList_append] at hc
    rcases List.mem_append.mp hc with hc | hc
    · simpa using List.all_eq_true.mp hall c hc
    · have hd : c.isDigit = true := by
        rw [Nat.toString_eq_repr, Nat.toList_repr] at hc
        exact Nat.isDigit_of_mem_toDigits (by decide) (by decide) hc
      exact .inl (by simp [Char.isAlphanum, hd])
  · intro c hc
    rw [String.toList_append, List.head?_append] at hc
    obtain ⟨x, hx, hd⟩ := (Option.any_eq_true _ _).mp hhead
    rw [hx] at hc
    obtain rfl : x = c := by simpa using hc
    simpa using hd

theorem name_fixed {label : String} (h : isName label = true) : Name label := by
  obtain ⟨hall, hhead⟩ := Bool.and_eq_true_iff.mp h
  refine ⟨fun c hc => by simpa using List.all_eq_true.mp hall c hc, ?_⟩
  intro c hc
  rw [hc] at hhead
  simpa using hhead

def labels : List String :=
  ["search_availability", "available_pick_", "order_pick_", "order_status", "order_commerce",
    "order_total_ars", "fulfillment_type", "pickup_code", "pickup_instructions",
    "pickup_store_address"]

theorem isName_ofList {l : List Char} (h : (l.all (fun c => c.isAlphanum || c == '_') &&
    l.head?.any (fun c => !c.isDigit)) = true) : isName (String.ofList l) = true := by
  rwa [isName, String.toList_ofList]

theorem labels_named : ∀ label ∈ labels, isName label = true := by
  intro label hl
  simp only [labels, List.mem_cons, List.not_mem_nil, or_false] at hl
  rcases hl with rfl | rfl | rfl | rfl | rfl | rfl | rfl | rfl | rfl | rfl <;>
    exact isName_ofList (by decide)

theorem make_label {label value : String} {source : EvidenceSource} {reference : Option String}
    {item : EvidenceItem} (h : EvidenceItem.make label value source reference = .ok item) :
    item.label = label ∧ item.source = source := by
  unfold EvidenceItem.make at h
  split_ifs at h
  cases h
  exact ⟨rfl, rfl⟩

theorem orderFacts_named (order : CustomerOrder) : ∀ f ∈ orderFacts order, Name f.1 := by
  have hoptional : ∀ {label : String} {value : Option String}, Name label →
      ∀ f ∈ optionalFact label value, Name f.1 := by
    intro label value h f hf
    unfold optionalFact at hf
    split_ifs at hf
    · rw [List.mem_singleton.mp hf]
      exact h
    · simp at hf
  have hfixed := fun label hl => name_fixed (labels_named label hl)
  intro f hf
  simp only [orderFacts, List.mem_append, List.mem_cons, List.not_mem_nil, or_false,
    List.mem_map] at hf
  rcases hf with ((((rfl | rfl | rfl | rfl) | ⟨indexed, -, rfl⟩) | hf) | hf) | rfl
  · exact hfixed "order_status" (by simp [labels])
  · exact hfixed "order_commerce" (by simp [labels])
  · exact hfixed "order_total_ars" (by simp [labels])
  · exact hfixed "fulfillment_type" (by simp [labels])
  · exact name_numbered (labels_named "order_pick_" (by simp [labels])) indexed.2
  · exact hoptional (hfixed "pickup_code" (by simp [labels])) f hf
  · exact hoptional (hfixed "pickup_instructions" (by simp [labels])) f hf
  · exact hfixed "pickup_store_address" (by simp [labels])

/-- Mapped evidence comes from the API, under labels that are names. -/
theorem Mapped.named {bundle : ToolEvidenceBundle} (h : Mapped u bundle) :
    ∀ item ∈ bundle.confirmedData, Name item.label ∧ item.source = .buenpickInternalApi := by
  rcases h with ⟨result, h⟩ | ⟨result, h⟩
  · unfold searchResultEvidence at h
    split at h
    · rename_i response _ _
      intro item hitem
      obtain ⟨hsource, hfrom⟩ := (responseEvidence_ok h).2 item hitem
      refine ⟨?_, hsource⟩
      rcases hfrom with ⟨-, rfl⟩ | ⟨indexed, -, hpick⟩
      · exact name_fixed (labels_named "search_availability" (by simp [labels]))
      · rw [(make_label hpick).1]
        exact name_numbered (labels_named "available_pick_" (by simp [labels])) indexed.2
    · cases h
      simp
  · unfold orderResultEvidence at h
    split at h
    · rename_i order _ _
      obtain ⟨items, hitems, hret⟩ := bind_ok h
      cases hret
      intro item hitem
      obtain ⟨f, hf, hmake⟩ := forall₂_mem_right (mapM_ok.mp hitems) hitem
      obtain ⟨hlabel, hsource⟩ := make_label hmake
      exact ⟨hlabel ▸ orderFacts_named order f hf, hsource⟩
    · cases h
      simp

/-- A packet with the evidence of the bundle and nothing else is built from it. -/
theorem Mapped.builtFrom {bundle : ToolEvidenceBundle} (h : Mapped u bundle)
    {packet : ContextPacket} (hp : packet.confirmedData = bundle.confirmedData) :
    BuiltFrom bundle packet := by
  rw [BuiltFrom, apiFacts, hp, List.filter_eq_self.mpr]
  intro item hitem
  simp [fromApi, (h.named item hitem).2]

theorem factualFallback_empty {packet : ContextPacket} (h : apiFacts packet = []) :
    (factualFallback u packet).toList = excuse packet.responseMode := by
  have hnone : packet.confirmedData.filter fromApi = [] := List.map_eq_nil_iff.mp h
  simp only [factualFallback, hnone]
  by_cases hm : packet.responseMode = .nonCommercialLlm
  · rw [excuse, if_pos hm, if_pos hm]
    exact String.toList_append
  · rw [excuse, if_neg hm, if_neg hm]
    exact String.toList_append

/-- The fallback depends on the facts, on the mode and on whether something is
unavailable. -/
theorem factualFallback_congr {packet other : ContextPacket} (hf : apiFacts other = apiFacts packet)
    (hu : other.unavailableData = packet.unavailableData)
    (hm : other.responseMode = packet.responseMode) :
    factualFallback u other = factualFallback u packet := by
  by_cases hne : apiFacts packet = []
  · rw [← String.toList_inj, factualFallback_empty hne, factualFallback_empty (hf.trans hne), hm]
  · have hbody : body u other = body u packet := by simp only [body, hf, closing, hu]
    rw [factualFallback_body hne, factualFallback_body (hf ▸ hne), hbody]

theorem mem_failures_iff {text : String} {packet : ContextPacket} {f : GroundingFailure} :
    f ∈ (validate u text packet).failures ↔ fails u (strip text.toList) packet f = true := by
  have hall : f ∈ failureOrder := by cases f <;> decide
  have hfilter : f ∈ failureOrder.filter (fails u (strip text.toList) packet) ↔
      fails u (strip text.toList) packet f = true := by
    rw [List.mem_filter]
    exact and_iff_right hall
  rw [← hfilter, validate]
  split_ifs with h
  · simp [h]
  · rfl

/-- A text whose matches occur in the evidence states no unsupported fact. -/
theorem risk_free {s : List Char} {packet : ContextPacket}
    (h : ∀ pattern ∈ highRiskPatterns u, ∀ m ∈ findIter u.isWord pattern s,
      riskToken u m <:+: evidenceCorpus u packet) :
    fails u s packet .unsupportedHighRiskFact = false := by
  simp only [fails, List.any_eq_false]
  intro pattern hp hany
  obtain ⟨m, hm, hno⟩ := List.any_eq_true.mp hany
  rw [supported, contains_iff.mpr (h pattern hp m hm), Bool.or_true] at hno
  cases hno

/-- What is looked up for a part of a confirmed value occurs in the joined evidence. -/
theorem riskToken_part {packet : ContextPacket} {item : EvidenceItem}
    (hitem : item ∈ packet.confirmedData) {m : List Char} (hm : m <:+: item.value.toList) :
    riskToken u m <:+: evidenceCorpus u packet := by
  have hvalue : item.value.toList <:+: joinLines (packet.confirmedData.map EvidenceItem.value) :=
    infix_joinLines (List.mem_map_of_mem hitem)
  have htrimmed : rstripBy (fun c => decide (c ∈ ['.', ',', ';', ':', '!', '?', ')'])) m <:+:
      joinLines (packet.confirmedData.map EvidenceItem.value) :=
    (rstripBy_isPrefix _ _).isInfix.trans (hm.trans hvalue)
  exact collapse_part (infix_flatMap _ htrimmed)

theorem match_within {r : Expr} {s m : List Char} (h : m ∈ findIter u.isWord r s) : m <:+: s := by
  obtain ⟨pre, v, t, hs, -⟩ := mem_findIter h
  exact ⟨pre, t.rest, hs.symm⟩

theorem strip_prefix_body (packet : ContextPacket) :
    strip ((body u packet).take 4096) <+: body u packet := by
  have hhead : ((body u packet).take 4096).dropWhile isSpace = (body u packet).take 4096 := by
    have hspace : isSpace 'E' = false := by decide
    rw [body, fixedTexts.heading_head, List.cons_append, List.take_succ_cons, List.dropWhile_cons, hspace]
    simp
  rw [strip, hhead]
  exact (rstripBy_isPrefix _ _).trans (List.take_prefix _ _)

/-- The fallback of a packet that states mapped evidence has 1 to 4096 characters, does
not depend on the query, the references and other evidence, and passes the checks for
internal markers and unsupported facts. -/
theorem factualFallback_grounded (u : Unicode) (hu : u.Standard) {bundle : ToolEvidenceBundle}
    (hb : Mapped u bundle) {packet : ContextPacket} (hp : BuiltFrom bundle packet) :
    Bounded 1 4096 (factualFallback u packet) ∧
    (∀ other, BuiltFrom bundle other → other.unavailableData = packet.unavailableData →
      other.responseMode = packet.responseMode →
        factualFallback u other = factualFallback u packet) ∧
    .internalLeak ∉ (validate u (factualFallback u packet) packet).failures ∧
    .unsupportedHighRiskFact ∉ (validate u (factualFallback u packet) packet).failures := by
  have hname : ∀ f ∈ apiFacts packet, Name f.1 := by
    intro f hf
    rw [hp] at hf
    obtain ⟨item, hitem, rfl⟩ := List.mem_map.mp hf
    exact (hb.named item hitem).1
  refine ⟨factualFallback_bounded packet, ?_, ?_, ?_⟩
  · intro other ho
    exact factualFallback_congr (ho.trans hp.symm)
  · rw [mem_failures_iff, Bool.not_eq_true]
    refine leaksInternals_part (strip_isInfix _) ?_
    by_cases hne : apiFacts packet = []
    · rw [factualFallback_empty hne]
      exact clean_of_plain hu (excuse_plain _)
    · rw [factualFallback_body hne, String.toList_ofList]
      exact leaksInternals_part (List.take_prefix _ _).isInfix (body_clean hu packet)
  · rw [mem_failures_iff, Bool.not_eq_true]
    refine risk_free fun pattern hpat m hm => ?_
    by_cases hne : apiFacts packet = []
    · have hmute : Mute u (strip (excuse packet.responseMode)) :=
        fun c hc => mute_of_plain hu (excuse_plain _) c ((strip_isInfix _).subset hc)
      rw [factualFallback_empty hne, no_match_of_mute hu hpat hmute] at hm
      simp at hm
    · rw [factualFallback_body hne, String.toList_ofList] at hm
      obtain ⟨f, hf, hin⟩ := match_in_value hu hname hpat (strip_prefix_body packet) hm
      exact riskToken_grounded hu hf hin

theorem ok_accepted {α : Type} {x : Except Failure α} (h : x.isOk = true) :
    x = .ok (accepted x h) := by
  cases x with
  | ok a => rfl
  | error e => cases h

/-- A pick whose title has an internal marker. -/
def markedPick : PickSummary where
  id := "pick-1"
  title := "Pan tool_result 2kg"
  price := 250000
  availableQuantity := 3
  commerceName := "Panadería"

set_option maxRecDepth 10000 in
def markedBundle : ToolEvidenceBundle :=
  accepted (searchResultEvidence .latin1 (succeeded ⟨[markedPick]⟩)) (by decide +kernel)

def markedPacket : ContextPacket :=
  accepted (ContextPacket.make "Responder la consulta." "¿Hay pan?" markedBundle.confirmedData
    markedBundle.unavailableData markedBundle.actionsPerformed [] .jinjaLlm none "trace")
    (by decide +kernel)

theorem markedBundle_mapped : Mapped .latin1 markedBundle := .inl ⟨_, ok_accepted _⟩

set_option maxRecDepth 10000 in
theorem markedPacket_grounded : Unicode.latin1.Standard ∧ Mapped .latin1 markedBundle ∧
    BuiltFrom markedBundle markedPacket ∧
    .unsupportedHighRiskFact ∉
      (validate .latin1 (factualFallback .latin1 markedPacket) markedPacket).failures := by
  have hbuilt : BuiltFrom markedBundle markedPacket :=
    markedBundle_mapped.builtFrom (by decide)
  have h := factualFallback_grounded .latin1 Unicode.latin1_standard markedBundle_mapped hbuilt
  exact ⟨Unicode.latin1_standard, markedBundle_mapped, hbuilt, h.2.2.2⟩

/-- Quoting a confirmed value states no unsupported fact: what is looked up for each match
of a risky pattern in the value, stripped or not, occurs in the joined evidence. -/
theorem quoted_value_supported (u : Unicode) (packet : ContextPacket) :
    ∀ item ∈ packet.confirmedData,
      .unsupportedHighRiskFact ∉ (validate u item.value packet).failures ∧
      ∀ pattern ∈ highRiskPatterns u,
        (∀ m ∈ findIter u.isWord pattern item.value.toList,
          riskToken u m <:+: evidenceCorpus u packet) ∧
        ∀ m ∈ findIter u.isWord pattern (strip item.value.toList),
          riskToken u m <:+: evidenceCorpus u packet := by
  intro item hitem
  have hmatch : ∀ pattern ∈ highRiskPatterns u,
      ∀ m ∈ findIter u.isWord pattern (strip item.value.toList),
        riskToken u m <:+: evidenceCorpus u packet := by
    intro pattern _ m hm
    exact riskToken_part hitem ((match_within hm).trans (strip_isInfix _))
  refine ⟨?_, fun pattern hp => ⟨fun m hm => riskToken_part hitem (match_within hm),
    hmatch pattern hp⟩⟩
  rw [mem_failures_iff, risk_free hmatch]
  exact Bool.false_ne_true

set_option maxRecDepth 10000 in
theorem marked_value_supported : ∃ item ∈ markedPacket.confirmedData,
    contains item.value.toList "$2.500,00".toList = true ∧
    .unsupportedHighRiskFact ∉ (validate .latin1 item.value markedPacket).failures := by
  have hprice : (markedPacket.confirmedData.any fun item =>
      contains item.value.toList "$2.500,00".toList) = true := by decide
  obtain ⟨item, hitem, hvalue⟩ := List.any_eq_true.mp hprice
  exact ⟨item, hitem, hvalue, (quoted_value_supported .latin1 markedPacket item hitem).1⟩

end Bundles

end Piki.Grounding
