import Piki.Encoding
import Piki.Prompts

/-! The evidence prompt is a code: the text of a packet determines the packet, and its
headings are the only lines that read like headings. -/
namespace Piki.PromptAssets
open Encoding Text

def hexValue (c : Char) : ℕ := if c.toNat < 58 then c.toNat - 48 else c.toNat - 87

/-- Reads back one character of a JSON string. -/
def readEscape : List Char → Option (Char × List Char)
  | '\\' :: 'u' :: _ :: _ :: h :: l :: x => some (Char.ofNat (16 * hexValue h + hexValue l), x)
  | '\\' :: 'n' :: x => some ('\n', x)
  | '\\' :: 'r' :: x => some ('\r', x)
  | '\\' :: 't' :: x => some ('\t', x)
  | '\\' :: 'b' :: x => some (Char.ofNat 8, x)
  | '\\' :: 'f' :: x => some (Char.ofNat 12, x)
  | '\\' :: c :: x => some (c, x)
  | c :: x => some (c, x)
  | [] => none

theorem char_of_toNat {c : Char} {n : ℕ} (h : c.toNat = n) : c = Char.ofNat n := by
  rw [← h, Char.ofNat_toNat]

theorem hex_roundtrip : ∀ n < 32, Char.ofNat (16 * hexValue (hexDigit (n / 16)) +
    hexValue (hexDigit (n % 16))) = Char.ofNat n := by
  decide

theorem readEscape_jsonEscape (c : Char) (x : List Char) :
    readEscape (jsonEscape c ++ x) = some (c, x) := by
  unfold jsonEscape
  split_ifs with hquote hslash hn hr ht hb hf hlow
  · rw [hquote]; rfl
  · rw [hslash]; rfl
  · rw [hn]; rfl
  · rw [hr]; rfl
  · rw [ht]; rfl
  · rw [char_of_toNat hb]; rfl
  · rw [char_of_toNat hf]; rfl
  · simp only [List.cons_append, List.nil_append, readEscape]
    rw [hex_roundtrip c.toNat hlow, Char.ofNat_toNat]
  · unfold readEscape
    simp [hslash]

theorem jsonEscape_delimited : Delimited jsonEscape Eq := of_reader readEscape readEscape_jsonEscape

example : readEscape (jsonEscape '\n' ++ ['x']) = some ('\n', ['x']) := by decide +kernel

/-- An escaped character is not empty and starts with no quote. -/
theorem jsonEscape_head (c : Char) : ∃ d l, jsonEscape c = d :: l ∧ d ≠ '"' := by
  unfold jsonEscape
  split_ifs with hquote
  all_goals first | exact ⟨_, _, rfl, by decide⟩ | exact ⟨_, _, rfl, hquote⟩

/-- JSON strings are self-delimiting. -/
theorem jsonString_delimited : Delimited jsonString Eq := by
  intro a b x y he
  simp only [jsonString, List.append_assoc, List.cons_append, List.nil_append, List.cons.injEq,
    true_and] at he
  obtain ⟨hall, hxy⟩ := jsonEscape_delimited.list jsonEscape_head a.toList b.toList x y
    (by simpa using he)
  rw [List.forall₂_eq_eq_eq] at hall
  exact ⟨String.toList_inj.mp hall, hxy⟩

/-- An empty reference is rendered like an absent one. -/
def present (s : Option String) : Option String := if truthy s then s else none

theorem present_eq {a b : Option String} (h : truthy a = true ↔ truthy b = true)
    (heq : truthy a = true → a.getD "" = b.getD "") : present a = present b := by
  unfold present
  by_cases ha : truthy a = true
  · rw [if_pos ha, if_pos (h.mp ha)]
    have hb := h.mp ha
    cases a with
    | none => cases ha
    | some a =>
      cases b with
      | none => cases hb
      | some b => exact congrArg some (heq ha)
  · rw [if_neg ha, if_neg (fun hb => ha (h.mpr hb))]

/-- An optional part is read off its first character. -/
theorem optional_delimited (open' close rest : List Char) {c d : Char}
    {l l' : List Char} (hopen : open' = c :: l) (hrest : rest = d :: l') (hne : c ≠ d) :
    Delimited (fun s : Option String =>
      (if truthy s then open' ++ jsonString (s.getD "") ++ close else []) ++ rest)
      fun a b => present a = present b := by
  have hsome : Delimited (fun s : Option String => open' ++ (jsonString (s.getD "") ++
      (close ++ rest))) fun a b => True ∧ a.getD "" = b.getD "" ∧ True :=
    (delimited_const open').append
      ((jsonString_delimited.comp fun s : Option String => s.getD "").append (delimited_const _))
  have hboth := Delimited.ite (p := fun s : Option String => truthy s = true) hsome
    (delimited_const rest) (by
      intro a b x y _ _ he
      rw [hopen, hrest] at he
      exact hne (List.cons.inj he).1)
  intro a b x y he
  obtain ⟨⟨hiff, heq, -⟩, hxy⟩ := hboth a b x y (by
    simp only [List.append_assoc] at he ⊢
    split_ifs at he ⊢ <;> simpa using he)
  exact ⟨present_eq hiff fun ha => (heq ha).2.1, hxy⟩

structure SameEvidence (a b : EvidenceItem) : Prop where
  label : a.label = b.label
  value : a.value = b.value
  source : a.source = b.source
  reference : present a.sourceReference = present b.sourceReference

theorem source_value_injective {a b : EvidenceSource} (h : a.value = b.value) : a = b := by
  cases a <;> cases b <;> first | rfl | (revert h; decide)

theorem confirmedLine_delimited : Delimited confirmedLine SameEvidence := by
  intro a b x y he
  simp only [confirmedLine, List.append_assoc] at he
  have he := List.append_cancel_left he
  obtain ⟨hlabel, he⟩ := jsonString_delimited _ _ _ _ he
  have he := List.append_cancel_left he
  obtain ⟨hvalue, he⟩ := jsonString_delimited _ _ _ _ he
  have he := List.append_cancel_left he
  obtain ⟨hsource, he⟩ := jsonString_delimited _ _ _ _ he
  obtain ⟨href, hxy⟩ := optional_delimited (literal ", referencia=") [] (literal ")\n")
    rfl rfl (by decide) a.sourceReference b.sourceReference x y
    (by simpa only [List.append_nil, List.append_assoc] using he)
  exact ⟨⟨hlabel, hvalue, source_value_injective hsource, href⟩, hxy⟩

structure SameAction (a b : PerformedAction) : Prop where
  name : a.name = b.name
  outcome : a.outcome = b.outcome
  reference : present a.reference = present b.reference

theorem outcome_value_injective {a b : ActionOutcome} (h : a.value = b.value) : a = b := by
  cases a <;> cases b <;> first | rfl | (revert h; decide)

theorem actionLine_delimited : Delimited actionLine SameAction := by
  intro a b x y he
  simp only [actionLine, List.append_assoc] at he
  have he := List.append_cancel_left he
  obtain ⟨hname, he⟩ := jsonString_delimited _ _ _ _ he
  have he := List.append_cancel_left he
  obtain ⟨houtcome, he⟩ := jsonString_delimited _ _ _ _ he
  obtain ⟨href, hxy⟩ := optional_delimited (literal " (referencia=") (literal ")")
    (literal "\n") rfl rfl (by decide) a.reference b.reference x y
    (by simpa only [List.append_assoc] using he)
  exact ⟨⟨hname, outcome_value_injective houtcome, href⟩, hxy⟩

theorem listLine_delimited : Delimited listLine Eq := by
  intro a b x y he
  simp only [listLine, List.append_assoc] at he
  have he := List.append_cancel_left he
  obtain ⟨hab, he⟩ := jsonString_delimited _ _ _ _ he
  exact ⟨hab, List.append_cancel_left he⟩

/-- A block ends at the heading that follows it, and its `else` line is no item. -/
theorem block_delimited {α : Type} {line : α → List Char} {r : α → α → Prop}
    (hline : Delimited line r) (hitem : ∀ a, ∃ l, line a = '-' :: ' ' :: '"' :: l)
    {otherwise : String} {c : Char} {l : List Char}
    (hotherwise : literal otherwise = '-' :: ' ' :: c :: l) (hc : c ≠ '"') {mark : Char}
    (hmark : '-' ≠ mark) :
    Delimited (fun items : List α => block items line otherwise ++ [mark]) (List.Forall₂ r) := by
  have hitems : Delimited (fun items : List α => items.flatMap line ++ [mark]) (List.Forall₂ r) := by
    refine hline.list fun a => ?_
    obtain ⟨l, hl⟩ := hitem a
    exact ⟨_, _, hl, hmark⟩
  have hboth := Delimited.ite (p := fun items : List α => items = [])
    (delimited_const (literal otherwise ++ [mark])) hitems (by
      intro a b x y _ hb he
      obtain ⟨item, rest, rfl⟩ := List.exists_cons_of_ne_nil hb
      obtain ⟨l', hl'⟩ := hitem item
      rw [List.flatMap_cons, hl', hotherwise] at he
      simp only [List.cons_append, List.cons.injEq, true_and] at he
      exact hc he.1)
  intro a b x y he
  obtain ⟨⟨hiff, -, hrest⟩, hxy⟩ := hboth a b x y (by
    simp only [block] at he ⊢
    split_ifs at he ⊢ <;> exact he)
  refine ⟨?_, hxy⟩
  by_cases ha : a = []
  · rw [ha, hiff.mp ha]
    exact .nil
  · exact hrest ha

theorem block_cancel {α : Type} {line : α → List Char} {r : α → α → Prop}
    (hline : Delimited line r) (hitem : ∀ a, ∃ l, line a = '-' :: ' ' :: '"' :: l)
    {otherwise : String} {c : Char} {l : List Char}
    (hotherwise : literal otherwise = '-' :: ' ' :: c :: l) (hc : c ≠ '"') {heading : List Char}
    {mark : Char} {l' : List Char} (hheading : heading = mark :: l') (hmark : '-' ≠ mark)
    {as bs : List α} {x y : List Char}
    (he : block as line otherwise ++ (heading ++ x) = block bs line otherwise ++ (heading ++ y)) :
    List.Forall₂ r as bs ∧ x = y := by
  obtain ⟨hall, hxy⟩ := block_delimited hline hitem hotherwise hc hmark as bs (l' ++ x) (l' ++ y)
    (by simpa [hheading] using he)
  exact ⟨hall, List.append_cancel_left hxy⟩

/-- What the prompt says of a packet. -/
structure Agree (p q : ContextPacket) : Prop where
  task : p.task = q.task
  query : p.query = q.query
  confirmed : List.Forall₂ SameEvidence p.confirmedData q.confirmedData
  unavailable : p.unavailableData = q.unavailableData
  actions : List.Forall₂ SameAction p.actionsPerformed q.actionsPerformed
  rules : p.writingRules = q.writingRules
  mode : p.responseMode = q.responseMode
  active : present p.activePickId = present q.activePickId
  trace : p.traceId = q.traceId

theorem mode_value_injective {a b : ResponseMode} (h : a.value = b.value) : a = b := by
  cases a <;> cases b <;> first | rfl | (revert h; decide)

theorem confirmedLine_item (item : EvidenceItem) :
    ∃ l, confirmedLine item = '-' :: ' ' :: '"' :: l := by
  simp [confirmedLine, literal, jsonString]

theorem actionLine_item (action : PerformedAction) :
    ∃ l, actionLine action = '-' :: ' ' :: '"' :: l := by
  simp [actionLine, literal, jsonString]

theorem listLine_item (value : String) : ∃ l, listLine value = '-' :: ' ' :: '"' :: l := by
  simp [listLine, literal, jsonString]

/-- The pick id is written as a JSON string, or as `null`. -/
theorem active_delimited : Delimited (fun s : Option String =>
    if truthy s then jsonString (s.getD "") else literal "null")
    fun a b => present a = present b := by
  have hboth := Delimited.ite (p := fun s : Option String => truthy s = true)
    (jsonString_delimited.comp fun s : Option String => s.getD "")
    (delimited_const (literal "null")) (by
      intro a b x y _ _ he
      have hhead := congrArg List.head? he
      simp [jsonString, literal] at hhead)
  intro a b x y he
  obtain ⟨⟨hiff, heq, -⟩, hxy⟩ := hboth a b x y he
  exact ⟨present_eq hiff heq, hxy⟩

/-- The template determines the packet: it is read from the left, section by section. -/
theorem evidenceTemplate_injective {p q : ContextPacket}
    (h : evidenceTemplate p = evidenceTemplate q) : Agree p q := by
  delta evidenceTemplate at h
  simp only [List.append_assoc] at h
  obtain ⟨htask, h⟩ := jsonString_delimited _ _ _ _ (List.append_cancel_left h)
  obtain ⟨hquery, h⟩ := jsonString_delimited _ _ _ _ (List.append_cancel_left h)
  obtain ⟨hconfirmed, h⟩ := block_cancel confirmedLine_delimited confirmedLine_item rfl (by decide)
    rfl (by decide) (List.append_cancel_left h)
  obtain ⟨hunavailable, h⟩ := block_cancel listLine_delimited listLine_item rfl (by decide)
    rfl (by decide) h
  obtain ⟨hactions, h⟩ := block_cancel actionLine_delimited actionLine_item rfl (by decide)
    rfl (by decide) h
  obtain ⟨hrules, h⟩ := block_cancel listLine_delimited listLine_item rfl (by decide)
    rfl (by decide) h
  obtain ⟨hmode, h⟩ := jsonString_delimited _ _ _ _ h
  obtain ⟨hactive, h⟩ := active_delimited _ _ _ _ (List.append_cancel_left h)
  obtain ⟨htrace, -⟩ := jsonString_delimited _ _ _ _ (List.append_cancel_left h)
  rw [List.forall₂_eq_eq_eq] at hunavailable hrules
  exact ⟨htask, hquery, hconfirmed, hunavailable, hactions, hrules, mode_value_injective hmode,
    hactive, htrace⟩

theorem present_congr {a b : Option String} (h : present a = present b) {β : Type}
    (f : String → β) (z : β) : (if truthy a then f (a.getD "") else z) =
      if truthy b then f (b.getD "") else z := by
  have hpresent : ∀ s : Option String, (if truthy s then f (s.getD "") else z) =
      ((present s).map f).getD z := by
    intro s
    unfold present
    split_ifs with hs
    · cases s with
      | none => cases hs
      | some s => rfl
    · rfl
  rw [hpresent, hpresent, h]

theorem SameEvidence.line {a b : EvidenceItem} (h : SameEvidence a b) :
    confirmedLine a = confirmedLine b := by
  simp only [confirmedLine, h.label, h.value, h.source]
  rw [present_congr h.reference (fun s => literal ", referencia=" ++ jsonString s) []]

theorem SameAction.line {a b : PerformedAction} (h : SameAction a b) :
    actionLine a = actionLine b := by
  simp only [actionLine, h.name, h.outcome]
  rw [present_congr h.reference (fun s => literal " (referencia=" ++ jsonString s ++ literal ")") []]

theorem block_congr {α : Type} {line : α → List Char} {r : α → α → Prop}
    (hline : ∀ a b, r a b → line a = line b) (otherwise : String) {as bs : List α}
    (h : List.Forall₂ r as bs) : block as line otherwise = block bs line otherwise := by
  have hflat : as.flatMap line = bs.flatMap line := by
    induction h with
    | nil => rfl
    | cons hab _ ih => rw [List.flatMap_cons, List.flatMap_cons, hline _ _ hab, ih]
  cases h with
  | nil => rfl
  | cons hab hrest => simp only [block, reduceCtorEq, if_false, hflat]

theorem Agree.template {p q : ContextPacket} (h : Agree p q) :
    evidenceTemplate p = evidenceTemplate q := by
  delta evidenceTemplate
  simp only [h.task, h.query, h.unavailable, h.rules, h.mode, h.trace,
    block_congr (fun _ _ hab => SameEvidence.line hab) "- Ninguno.\n" h.confirmed,
    block_congr (fun _ _ hab => SameAction.line hab) "- Ninguna.\n" h.actions]
  rw [present_congr h.active jsonString (literal "null")]

example : jsonString "a\"b" = "\"a\\\"b\"".toList := by decide +kernel

theorem evidenceTemplate_ends (p : ContextPacket) :
    ∃ middle, evidenceTemplate p = 'T' :: (middle ++ ['"']) ++ ['\n'] := by
  have hfront : ∃ front, evidenceTemplate p = front ++ jsonString p.traceId ++ literal "\n" ∧
      front.head? = some 'T' := by
    refine ⟨_, rfl, ?_⟩
    simp only [List.head?_append]
    rfl
  obtain ⟨front, he, hhead⟩ := hfront
  obtain ⟨rest, rfl⟩ := List.head?_eq_some_iff.mp hhead
  refine ⟨rest ++ ['"'] ++ p.traceId.toList.flatMap jsonEscape, ?_⟩
  rw [he]
  simp [jsonString, literal]

/-- `strip` takes away the final newline of the template and nothing else. -/
theorem renderEvidence_newline (p : ContextPacket) :
    (renderEvidence p).toList ++ ['\n'] = evidenceTemplate p := by
  obtain ⟨middle, hm⟩ := evidenceTemplate_ends p
  have hstrip : strip (evidenceTemplate p) = 'T' :: (middle ++ ['"']) := by
    rw [hm, strip_append_space _ (by decide)]
    refine strip_self ?_ ?_
    · intro c hc
      cases hc
      decide
    · intro c hc
      have hlast : c = '"' := by
        rw [← List.cons_append, List.getLast?_append] at hc
        exact (Option.some.inj hc).symm
      rw [hlast]
      decide
  rw [renderEvidence, String.toList_ofList, hstrip, hm]

theorem renderEvidence_eq_iff (p q : ContextPacket) :
    renderEvidence p = renderEvidence q ↔ Agree p q := by
  constructor
  · intro h
    refine evidenceTemplate_injective ?_
    rw [← renderEvidence_newline, h, renderEvidence_newline]
  · intro h
    rw [renderEvidence, renderEvidence, h.template]

def headings : List String :=
  ["TAREA", "CONSULTA", "DATOS CONFIRMADOS", "DATOS NO DISPONIBLES", "ACCIONES REALIZADAS",
    "REGLAS DE REDACCIÓN", "CONTROL"]

/-- `text.split("\n")`. -/
def lines (text : List Char) : List String := (text.splitOn '\n').map String.ofList

/-- A text made of whole lines, of which those in `hs` are headings. -/
def Headed (text : List Char) (hs : List String) : Prop :=
  ∃ ls, text = unlines '\n' ls ∧ (∀ l ∈ ls, '\n' ∉ l) ∧
    (ls.map String.ofList).filter (· ∈ headings) = hs

theorem Headed.append {s t : List Char} {hs ht : List String} (h : Headed s hs)
    (h' : Headed t ht) : Headed (s ++ t) (hs ++ ht) := by
  obtain ⟨ls, rfl, hls, rfl⟩ := h
  obtain ⟨ls', rfl, hls', rfl⟩ := h'
  refine ⟨ls ++ ls', by simp [unlines], ?_, by simp⟩
  intro l hl
  exact (List.mem_append.mp hl).elim (hls l) (hls' l)

theorem headed_line {l : List Char} {hs : List String} (hl : '\n' ∉ l)
    (hhs : [String.ofList l].filter (· ∈ headings) = hs) : Headed (l ++ ['\n']) hs :=
  ⟨[l], by simp [unlines], by simpa using hl, hhs⟩

/-- A line that starts with a dash or a quote is no heading. -/
theorem headed_item {l : List Char} (hl : '\n' ∉ l)
    (hc : l.head? = some '-' ∨ l.head? = some '"') : Headed (l ++ ['\n']) [] := by
  have hnone : ∀ h ∈ headings, h.toList.head? ≠ some '-' ∧ h.toList.head? ≠ some '"' := by decide
  refine headed_line hl (List.filter_eq_nil_iff.mpr ?_)
  intro s hs hm
  rw [List.mem_singleton.mp hs] at hm
  obtain ⟨hdash, hquote⟩ := hnone _ (of_decide_eq_true hm)
  rw [String.toList_ofList] at hdash hquote
  exact hc.elim hdash hquote

theorem jsonEscape_newline (c : Char) : '\n' ∉ jsonEscape c := by
  have hhex : ∀ n < 32, '\n' ≠ hexDigit (n / 16) ∧ '\n' ≠ hexDigit (n % 16) := by decide
  unfold jsonEscape
  split_ifs with hquote hslash hn hr ht hb hf hlow
  all_goals try decide
  · obtain ⟨hhigh, hlow⟩ := hhex c.toNat hlow
    simp [hhigh, hlow]
  · simpa [eq_comm] using hn

theorem jsonString_newline (s : String) : '\n' ∉ jsonString s := by
  have hflat : '\n' ∉ s.toList.flatMap jsonEscape := by
    intro hm
    obtain ⟨c, -, hc⟩ := List.mem_flatMap.mp hm
    exact jsonEscape_newline c hc
  simp [jsonString, hflat]

theorem headed_jsonString (s : String) : Headed (jsonString s ++ ['\n']) [] :=
  headed_item (jsonString_newline s) (.inr rfl)

theorem headed_list {α : Type} {line : α → List Char} (h : ∀ a, Headed (line a) [])
    (items : List α) : Headed (items.flatMap line) [] := by
  induction items with
  | nil => exact ⟨[], rfl, by simp, rfl⟩
  | cons a items ih => exact (h a).append ih

theorem headed_block {α : Type} {line : α → List Char} (h : ∀ a, Headed (line a) [])
    {otherwise : String} (ho : Headed (literal otherwise) []) (items : List α) :
    Headed (block items line otherwise) [] := by
  unfold block
  split_ifs
  · exact ho
  · exact headed_list h items

theorem headed_confirmedLine (item : EvidenceItem) : Headed (confirmedLine item) [] := by
  have hend : literal ")\n" = literal ")" ++ ['\n'] := rfl
  unfold confirmedLine
  rw [hend, ← List.append_assoc]
  refine headed_item ?_ (.inl ?_)
  · have hlabel := jsonString_newline item.label
    have hvalue := jsonString_newline item.value
    have hsource := jsonString_newline item.source.value
    have href := jsonString_newline (item.sourceReference.getD "")
    split_ifs <;> simp [literal, hlabel, hvalue, hsource, href]
  · simp [literal]

theorem headed_actionLine (action : PerformedAction) : Headed (actionLine action) [] := by
  have hend : literal "\n" = ['\n'] := rfl
  unfold actionLine
  rw [hend]
  refine headed_item ?_ (.inl ?_)
  · have hname := jsonString_newline action.name
    have houtcome := jsonString_newline action.outcome.value
    have href := jsonString_newline (action.reference.getD "")
    split_ifs <;> simp [literal, hname, houtcome, href]
  · simp [literal]

theorem headed_listLine (value : String) : Headed (listLine value) [] := by
  have hend : literal "\n" = ['\n'] := rfl
  have hvalue := jsonString_newline value
  unfold listLine
  rw [hend]
  refine headed_item ?_ (.inl ?_)
  · simp [literal, hvalue]
  · simp [literal]

/-- The control section after its heading. -/
def controlLines (p : ContextPacket) : List Char :=
  literal "- modo=" ++ jsonString p.responseMode.value ++ ['\n'] ++
    (literal "- active_pick_id=" ++ (if truthy p.activePickId then
      jsonString (p.activePickId.getD "") else literal "null") ++ ['\n']) ++
    (literal "- trace_id=" ++ jsonString p.traceId ++ ['\n'])

/-- The template as whole lines, section by section. -/
theorem evidenceTemplate_sections (p : ContextPacket) : evidenceTemplate p =
    literal "TAREA\n" ++ (jsonString p.task ++ ['\n']) ++ (['\n'] ++
    (literal "CONSULTA\n" ++ (jsonString p.query ++ ['\n']) ++ (['\n'] ++
    (literal "DATOS CONFIRMADOS\n" ++ block p.confirmedData confirmedLine "- Ninguno.\n" ++
    (literal "DATOS NO DISPONIBLES\n" ++ block p.unavailableData listLine "- Ninguno.\n" ++
    (literal "ACCIONES REALIZADAS\n" ++ block p.actionsPerformed actionLine "- Ninguna.\n" ++
    (literal "REGLAS DE REDACCIÓN\n" ++
      block p.writingRules listLine "- Aplicar únicamente el system prompt.\n" ++
    (literal "CONTROL\n" ++ controlLines p)))))))) := by
  have hlines : literal "\n\nCONSULTA\n" = ['\n'] ++ (['\n'] ++ literal "CONSULTA\n") ∧
      literal "\n\nDATOS CONFIRMADOS\n" = ['\n'] ++ (['\n'] ++ literal "DATOS CONFIRMADOS\n") ∧
      literal "CONTROL\n- modo=" = literal "CONTROL\n" ++ literal "- modo=" ∧
      literal "\n- active_pick_id=" = ['\n'] ++ literal "- active_pick_id=" ∧
      literal "\n- trace_id=" = ['\n'] ++ literal "- trace_id=" ∧ literal "\n" = ['\n'] :=
    ⟨rfl, rfl, rfl, rfl, rfl, rfl⟩
  obtain ⟨hline1, hline2, hline3, hline4, hline5, hline6⟩ := hlines
  delta evidenceTemplate controlLines
  simp only [hline1, hline2, hline3, hline4, hline5, hline6, List.append_assoc]

theorem headed_control (p : ContextPacket) : Headed (controlLines p) [] := by
  have hmode := jsonString_newline p.responseMode.value
  have hactive := jsonString_newline (p.activePickId.getD "")
  have htrace := jsonString_newline p.traceId
  have hfirst : Headed (literal "- modo=" ++ jsonString p.responseMode.value ++ ['\n']) [] := by
    refine headed_item ?_ (.inl rfl)
    simp [literal, hmode]
  have hsecond : Headed (literal "- active_pick_id=" ++ (if truthy p.activePickId then
      jsonString (p.activePickId.getD "") else literal "null") ++ ['\n']) [] := by
    refine headed_item ?_ (.inl rfl)
    split_ifs <;> simp [literal, hactive]
  have hthird : Headed (literal "- trace_id=" ++ jsonString p.traceId ++ ['\n']) [] := by
    refine headed_item ?_ (.inl rfl)
    simp [literal, htrace]
  exact (hfirst.append hsecond).append hthird

/-- A section is its heading and lines that are none. -/
theorem headed_section (s h : String) {t : List Char} (hs : literal s = h.toList ++ ['\n'])
    (hh : h ∈ headings) (hn : '\n' ∉ h.toList) (ht : Headed t []) :
    Headed (literal s ++ t) [h] := by
  have hline : Headed (h.toList ++ ['\n']) [h] := headed_line hn (by simp [hh])
  rw [hs]
  exact hline.append ht

theorem headed_template (p : ContextPacket) : Headed (evidenceTemplate p) headings := by
  have hblank : Headed ['\n'] [] := headed_line (l := []) (by simp) rfl
  have hnone : Headed (literal "- Ninguno.\n") [] :=
    headed_item (l := "- Ninguno.".toList) (by decide) (.inl rfl)
  have hnoAction : Headed (literal "- Ninguna.\n") [] :=
    headed_item (l := "- Ninguna.".toList) (by decide) (.inl rfl)
  have hnoRule : Headed (literal "- Aplicar únicamente el system prompt.\n") [] :=
    headed_item (l := "- Aplicar únicamente el system prompt.".toList) (by decide) (.inl rfl)
  have htask := headed_section "TAREA\n" "TAREA" rfl (by decide) (by decide)
    (headed_jsonString p.task)
  have hquery := headed_section "CONSULTA\n" "CONSULTA" rfl (by decide) (by decide)
    (headed_jsonString p.query)
  have hconfirmed := headed_section "DATOS CONFIRMADOS\n" "DATOS CONFIRMADOS" rfl (by decide)
    (by decide) (headed_block headed_confirmedLine hnone p.confirmedData)
  have hunavailable := headed_section "DATOS NO DISPONIBLES\n" "DATOS NO DISPONIBLES" rfl
    (by decide) (by decide) (headed_block headed_listLine hnone p.unavailableData)
  have hactions := headed_section "ACCIONES REALIZADAS\n" "ACCIONES REALIZADAS" rfl (by decide)
    (by decide) (headed_block headed_actionLine hnoAction p.actionsPerformed)
  have hrules := headed_section "REGLAS DE REDACCIÓN\n" "REGLAS DE REDACCIÓN" rfl (by decide)
    (by decide) (headed_block headed_listLine hnoRule p.writingRules)
  have hcontrol := headed_section "CONTROL\n" "CONTROL" rfl (by decide) (by decide)
    (headed_control p)
  rw [evidenceTemplate_sections]
  exact htask.append (hblank.append (hquery.append (hblank.append (hconfirmed.append
    (hunavailable.append (hactions.append (hrules.append hcontrol)))))))

/-- Two packets have the same prompt exactly when they agree on everything that the
prompt says of them, and the lines of a prompt that read like headings are the headings,
once each and in their order. -/
theorem renderEvidence_faithful :
    (∀ p q : ContextPacket, renderEvidence p = renderEvidence q ↔ Agree p q) ∧
    ∀ p : ContextPacket, (lines (renderEvidence p).toList).filter (· ∈ headings) = headings := by
  refine ⟨renderEvidence_eq_iff, ?_⟩
  intro p
  obtain ⟨ls, htext, hls, hfilter⟩ := headed_template p
  have hsplit : (renderEvidence p).toList.splitOn '\n' = ls := by
    have h := congrArg (List.splitOn '\n') ((renderEvidence_newline p).trans htext)
    rw [List.splitOn_append_cons_self, splitOn_unlines hls, List.splitOn_nil] at h
    exact List.append_cancel_right h
  rw [lines, hsplit, hfilter]

end Piki.PromptAssets
