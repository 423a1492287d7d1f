import Piki.GroundingDigits
import Piki.RegexMeaning

/-! Which sentences the pattern for claims without evidence catches: phrases of whole words,
with a noun in the singular. -/
namespace Piki.Grounding
open Text Regex

section Phrases
variable (u : Unicode)

/-- One of the words, in any letter case. -/
def Reads (words : List String) (w : List Char) : Prop :=
  ∃ word ∈ words, List.Forall₂ (fun x c => u.reFold x = u.reFold c) w word.toList

def Blank (g : List Char) : Prop := g ≠ [] ∧ ∀ c ∈ g, isSpace c = true

def IsWord (w : List Char) : Prop := w ≠ [] ∧ ∀ c ∈ w, u.isWord c = true

/-- Up to `n` words, each behind whitespace. -/
def Further (n : ℕ) (d : List Char) : Prop :=
  ∃ ds : List (List Char), ds.length ≤ n ∧
    (∀ e ∈ ds, ∃ g w, e = g ++ w ∧ Blank g ∧ IsWord u w) ∧ d = ds.flatten

/-- "no", a verb, up to three words and a noun. -/
def Absence (verbs nouns : List String) (d : List Char) : Prop :=
  ∃ no g verb more g' noun, d = no ++ (g ++ (verb ++ (more ++ (g' ++ noun)))) ∧
    Reads u ["no"] no ∧ Blank g ∧ Reads u verbs verb ∧ Further u 3 more ∧ Blank g' ∧
    Reads u nouns noun

/-- A verb, up to five words, and "disponible", "disponibles" or "para rescatar". -/
def Presence (d : List Char) : Prop :=
  ∃ verb more g what, d = verb ++ (more ++ (g ++ what)) ∧
    Reads u ["hay", "encontre", "encontré"] verb ∧ Further u 5 more ∧ Blank g ∧
    (Reads u ["disponible", "disponibles"] what ∨
      ∃ para g' rescatar, what = para ++ (g' ++ rescatar) ∧ Reads u ["para"] para ∧ Blank g' ∧
        Reads u ["rescatar"] rescatar)

/-- The text has the phrase between two word boundaries. -/
def Says (phrase : List Char → Prop) (s : List Char) : Prop :=
  ∃ pre d post, s = pre ++ (d ++ post) ∧
    pre.getLast?.any u.isWord ≠ (d ++ post).head?.any u.isWord ∧
    (pre ++ d).getLast?.any u.isWord ≠ post.head?.any u.isWord ∧ phrase d

/-- The text claims that there are no picks, in the singular or the plural. -/
def ClaimsAbsence (s : List Char) : Prop :=
  Says u (Absence u ["tengo", "hay", "encontré"]
    ["rescate", "rescates", "pick", "picks", "opción", "opciones"]) s

/-- The claims that the pattern covers. -/
def Caught (s : List Char) : Prop :=
  Says u (fun d => Absence u ["tengo", "hay", "encontre", "encontré"]
    ["rescate", "pick", "opcion", "opción"] d ∨ Presence u d) s

end Phrases

section Spelling
variable {u : Unicode}

/-- The expression matches exactly these words, in any letter case. -/
def Spells (u : Unicode) (r : Expr) (words : List (List Char)) : Prop :=
  ∀ b d rest, Matches u.isWord r b d rest ↔
    ∃ w ∈ words, List.Forall₂ (fun x c => u.reFold x = u.reFold c) d w

theorem spells_empty : Spells u .empty [[]] := by
  intro b d rest
  simp [Matches]

theorem spells_folded (cs : List Char) : Spells u (folded u cs) (cs.map fun c => [c]) := by
  intro b d rest
  constructor
  · rintro ⟨x, hx, rfl⟩
    obtain ⟨c, hc, hfold⟩ := List.mem_map.mp (of_decide_eq_true hx)
    exact ⟨[c], List.mem_map_of_mem hc, .cons hfold.symm .nil⟩
  · rintro ⟨w, hw, hd⟩
    obtain ⟨c, hc, rfl⟩ := List.mem_map.mp hw
    obtain _ | ⟨hfold, hnil⟩ := hd
    cases hnil
    exact ⟨_, decide_eq_true (hfold ▸ List.mem_map_of_mem hc), rfl⟩

theorem spells_seq {r s : Expr} {ws vs : List (List Char)} (hr : Spells u r ws)
    (hs : Spells u s vs) : Spells u (.seq r s) (ws.flatMap fun w => vs.map fun v => w ++ v) := by
  intro b d rest
  constructor
  · rintro ⟨d₁, d₂, rfl, h₁, h₂⟩
    obtain ⟨w, hw, hd₁⟩ := (hr _ _ _).mp h₁
    obtain ⟨v, hv, hd₂⟩ := (hs _ _ _).mp h₂
    refine ⟨w ++ v, List.mem_flatMap.mpr ⟨w, hw, List.mem_map_of_mem hv⟩, ?_⟩
    exact List.rel_append hd₁ hd₂
  · rintro ⟨_, hmem, hd⟩
    obtain ⟨w, hw, hmem⟩ := List.mem_flatMap.mp hmem
    obtain ⟨v, hv, rfl⟩ := List.mem_map.mp hmem
    refine ⟨d.take w.length, d.drop w.length, (List.take_append_drop _ _).symm, ?_, ?_⟩
    · exact (hr _ _ _).mpr ⟨w, hw, List.forall₂_take_append _ _ _ hd⟩
    · exact (hs _ _ _).mpr ⟨v, hv, List.forall₂_drop_append _ _ _ hd⟩

theorem spells_alt {r s : Expr} {ws vs : List (List Char)} (hr : Spells u r ws)
    (hs : Spells u s vs) : Spells u (.alt r s) (ws ++ vs) := by
  intro b d rest
  rw [Matches, hr, hs]
  simp only [List.mem_append, or_and_right, exists_or]

theorem spells_text (text : String) : Spells u (foldedText u text) [text.toList] := by
  unfold foldedText
  induction text.toList with
  | nil => exact spells_empty
  | cons c cs ih => exact spells_seq (spells_folded [c]) ih

@[grind =] theorem matches_space {b : Bool} {d rest : List Char} :
    Matches u.isWord (plus space) b d rest ↔ Blank d := matches_plus_set

/-- The optional words between two others. -/
@[grind =] theorem matches_words {n : ℕ} {b : Bool} {d rest : List Char} :
    Matches u.isWord (words u n) b d rest ↔ Further u n d := by
  refine rounds_iff_flatten (P := fun e => ∃ g w, e = g ++ w ∧ Blank g ∧ IsWord u w) ?_ ?_
  · intro b d rest
    simp only [Matches, matches_space]
    refine exists_congr fun g => exists_congr fun w => and_congr_right fun _ =>
      and_congr_right fun _ => ?_
    exact matches_plus_set
  · rintro d ⟨g, w, rfl, hg, -⟩ hnil
    exact hg.1 (List.append_eq_nil_iff.mp hnil).1

theorem spells_reads {r : Expr} {ws : List String} (h : Spells u r (ws.map String.toList))
    {b : Bool} {d rest : List Char} : Matches u.isWord r b d rest ↔ Reads u ws d := by
  rw [h, Reads]
  simp only [List.mem_map, exists_exists_and_eq_and]

theorem spells_found : Spells u (found u) ["encontre".toList, "encontré".toList] :=
  spells_seq (spells_text "encontr") (spells_folded ['e', 'é'])

example : search Unicode.latin1.isWord (found .latin1) "ENCONTRÉ".toList = true := by decide +kernel

/-- The first alternative of the pattern. -/
theorem matches_absence {b : Bool} {d rest : List Char} :
    Matches u.isWord (seqs [foldedText u "no", plus space,
      .alt (foldedText u "tengo") (.alt (foldedText u "hay") (found u)), words u 3, plus space,
      .alt (foldedText u "rescate") (.alt (foldedText u "pick")
        (seqs [foldedText u "opci", folded u ['o', 'ó'], foldedText u "n"]))]) b d rest ↔
      Absence u ["tengo", "hay", "encontre", "encontré"] ["rescate", "pick", "opcion", "opción"] d := by
  have hno : ∀ {b d rest}, Matches u.isWord (foldedText u "no") b d rest ↔ Reads u ["no"] d :=
    spells_reads (spells_text "no")
  have hverb : ∀ {b d rest}, Matches u.isWord (.alt (foldedText u "tengo")
      (.alt (foldedText u "hay") (found u))) b d rest ↔
        Reads u ["tengo", "hay", "encontre", "encontré"] d :=
    spells_reads (spells_alt (spells_text "tengo") (spells_alt (spells_text "hay") spells_found))
  have hnoun : ∀ {b d rest}, Matches u.isWord (.alt (foldedText u "rescate")
      (.alt (foldedText u "pick")
        (seqs [foldedText u "opci", folded u ['o', 'ó'], foldedText u "n"]))) b d rest ↔
        Reads u ["rescate", "pick", "opcion", "opción"] d :=
    spells_reads (spells_alt (spells_text "rescate") (spells_alt (spells_text "pick")
      (spells_seq (spells_text "opci") (spells_seq (spells_folded ['o', 'ó'])
        (spells_seq (spells_text "n") spells_empty)))))
  constructor
  · rintro ⟨no, _, rfl, h₁, g, _, rfl, h₂, verb, _, rfl, h₃, more, _, rfl, h₄, g', _, rfl, h₅,
      noun, _, rfl, h₆, rfl⟩
    exact ⟨no, g, verb, more, g', noun, by simp, hno.mp h₁, matches_space.mp h₂, hverb.mp h₃,
      matches_words.mp h₄, matches_space.mp h₅, hnoun.mp h₆⟩
  · rintro ⟨no, g, verb, more, g', noun, rfl, h₁, h₂, h₃, h₄, h₅, h₆⟩
    exact ⟨no, _, rfl, hno.mpr h₁, g, _, rfl, matches_space.mpr h₂, verb, _, rfl, hverb.mpr h₃,
      more, _, rfl, matches_words.mpr h₄, g', noun, rfl, matches_space.mpr h₅, noun, [], by simp,
      hnoun.mpr h₆, rfl⟩

/-- The second alternative of the pattern. -/
theorem matches_presence {b : Bool} {d rest : List Char} :
    Matches u.isWord (seqs [.alt (foldedText u "hay") (found u), words u 5, plus space,
      .alt (seqs [foldedText u "disponible", optional (folded u ['s'])])
        (seqs [foldedText u "para", plus space, foldedText u "rescatar"])]) b d rest ↔
      Presence u d := by
  have hverb : ∀ {b d rest}, Matches u.isWord (.alt (foldedText u "hay") (found u)) b d rest ↔
      Reads u ["hay", "encontre", "encontré"] d :=
    spells_reads (spells_alt (spells_text "hay") spells_found)
  have hplural : Spells u (seqs [foldedText u "disponible", optional (folded u ['s'])])
      ["disponibles".toList, "disponible".toList] :=
    spells_seq (spells_text "disponible") (spells_seq (spells_alt (spells_folded ['s']) spells_empty)
      spells_empty)
  have havailable : ∀ {b d rest}, Matches u.isWord
      (seqs [foldedText u "disponible", optional (folded u ['s'])]) b d rest ↔
        Reads u ["disponible", "disponibles"] d := by
    intro b d rest
    rw [hplural, Reads]
    simp only [List.mem_cons, List.not_mem_nil, or_false, exists_eq_or_imp, exists_eq_left]
    exact or_comm
  have hpara : ∀ {b d rest}, Matches u.isWord (foldedText u "para") b d rest ↔
      Reads u ["para"] d := spells_reads (spells_text "para")
  have hrescatar : ∀ {b d rest}, Matches u.isWord (foldedText u "rescatar") b d rest ↔
      Reads u ["rescatar"] d := spells_reads (spells_text "rescatar")
  constructor
  · rintro ⟨verb, _, rfl, h₁, more, _, rfl, h₂, g, _, rfl, h₃, what, _, rfl, h₄, rfl⟩
    refine ⟨verb, more, g, what, by simp, hverb.mp h₁, matches_words.mp h₂, matches_space.mp h₃, ?_⟩
    rcases h₄ with h | ⟨para, _, rfl, h₅, g', _, rfl, h₆, rescatar, _, rfl, h₇, rfl⟩
    · exact .inl (havailable.mp h)
    · exact .inr ⟨para, g', rescatar, by simp, hpara.mp h₅, matches_space.mp h₆, hrescatar.mp h₇⟩
  · rintro ⟨verb, more, g, what, rfl, h₁, h₂, h₃, h₄⟩
    refine ⟨verb, _, rfl, hverb.mpr h₁, more, _, rfl, matches_words.mpr h₂, g, what, rfl,
      matches_space.mpr h₃, what, [], by simp, ?_, rfl⟩
    rcases h₄ with h | ⟨para, g', rescatar, rfl, h₅, h₆, h₇⟩
    · exact .inl (havailable.mpr h)
    · exact .inr ⟨para, _, rfl, hpara.mpr h₅, g', rescatar, rfl, matches_space.mpr h₆, rescatar,
        [], by simp, hrescatar.mpr h₇, rfl⟩

/-- The pattern finds exactly the phrases it covers. -/
theorem search_caught_iff {s : List Char} :
    search u.isWord (evidenceFreeAvailability u) s = true ↔ Caught u s := by
  have hend : ∀ pre d : List Char, endWord u.isWord (pre.getLast?.any u.isWord) d =
      (pre ++ d).getLast?.any u.isWord := by
    intro pre d
    rw [endWord, List.getLast?_append]
    cases d.getLast? <;> rfl
  rw [search_iff, Caught, Says]
  refine exists_congr fun pre => exists_congr fun d => exists_congr fun post =>
    and_congr_right fun _ => ?_
  rw [evidenceFreeAvailability, matches_whole, hend, Matches, matches_absence, matches_presence]

example : search Unicode.latin1.isWord (evidenceFreeAvailability .latin1) "NO hay  un pick".toList =
    true := by decide +kernel

end Spelling

section Validation
variable (u : Unicode)

def NoApiEvidence (packet : ContextPacket) : Prop :=
  ∀ item ∈ packet.confirmedData, item.source ≠ .buenpickInternalApi

/-- The stripped text fails one of the other checks. -/
def OtherChecksFail (packet : ContextPacket) (s : List Char) : Prop :=
  ∃ f, f ≠ .evidenceFreeCommercialClaim ∧ fails u s packet f = true

theorem blocked_iff {packet : ContextPacket} (h : NoApiEvidence packet) (text : String) :
    (validate u text packet).safe = false ↔
      Caught u (strip text.toList) ∨ OtherChecksFail u packet (strip text.toList) := by
  have hnone : packet.confirmedData.any fromApi = false := by
    rw [List.any_eq_false]
    intro item hitem
    simpa [fromApi] using h item hitem
  have hclaim : fails u (strip text.toList) packet .evidenceFreeCommercialClaim = true ↔
      Caught u (strip text.toList) := by
    rw [fails, hnone, Bool.not_false, Bool.true_and, search_caught_iff]
  rw [← Bool.not_eq_true, safe_iff, not_forall, ← hclaim]
  constructor
  · rintro ⟨f, hf⟩
    by_cases hf' : f = .evidenceFreeCommercialClaim
    · exact .inl (by simpa [hf'] using hf)
    · exact .inr ⟨f, hf', by simpa using hf⟩
  · rintro (hf | ⟨f, -, hf⟩)
    · exact ⟨.evidenceFreeCommercialClaim, by simp [hf]⟩
    · exact ⟨f, by simp [hf]⟩

/-- A claim of absence without evidence is blocked if and only if the text also makes a
claim that the pattern covers, in which the noun is in the singular, or fails another
check. -/
theorem absence_blocked_iff (packet : ContextPacket) (text : String) :
    (NoApiEvidence packet → ClaimsAbsence u text.toList → (validate u text packet).safe = false) ↔
      (NoApiEvidence packet → ClaimsAbsence u text.toList →
        Caught u (strip text.toList) ∨ OtherChecksFail u packet (strip text.toList)) := by
  refine forall_congr' fun hnone => forall_congr' fun _ => ?_
  exact blocked_iff u hnone text

end Validation

/-- The plural is not caught. -/
theorem plural_absence_accepted :
    ¬ (NoApiEvidence barePacket → ClaimsAbsence .latin1 "Por ahora no hay picks".toList →
      (validate .latin1 "Por ahora no hay picks" barePacket).safe = false) := by
  have hnone : NoApiEvidence barePacket := by
    have hbare : barePacket.confirmedData = [] := by decide
    intro item hitem
    rw [hbare] at hitem
    cases hitem
  have hsafe : (validate .latin1 "Por ahora no hay picks" barePacket).safe = true := by
    decide
  have hreads : ∀ (word : String) (ws : List String), word ∈ ws →
      Reads .latin1 ws word.toList := by
    intro word ws hmem
    exact ⟨word, hmem, List.forall₂_same.mpr fun _ _ => rfl⟩
  have hblank : Blank [' '] := ⟨by simp, List.forall_mem_singleton.mpr (by decide)⟩
  have hclaims : ClaimsAbsence .latin1 "Por ahora no hay picks".toList := by
    refine ⟨"Por ahora ".toList, "no hay picks".toList, [], by decide, by decide,
      by decide, "no".toList, [' '], "hay".toList, [], [' '], "picks".toList,
      by decide, hreads _ _ (by decide), hblank, hreads _ _ (by decide), ?_, hblank,
      hreads _ _ (by decide)⟩
    exact ⟨[], by simp, by simp, rfl⟩
  intro h
  rw [h hnone hclaims] at hsafe
  cases hsafe

end Piki.Grounding
