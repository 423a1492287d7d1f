import Piki.LLMProviders
import Piki.MetaPayload
import Piki.TextWords

/-! `OpenAIResponsesAdapter._parse_response` from the JSON of a body on. The whole envelope
is validated before the items that are no messages are skipped. -/
namespace Piki.OpenAIResponsesAdapter
open Text LLMProvider Json

/-- The type of a part is one of two. -/
def outputContentType (j : Json) : Option OutputContentType :=
  match j with
  | .str "output_text" => some .outputText
  | .str "refusal" => some .refusal
  | _ => none

def outputContent (j : Json) : Option OutputContent := do
  let type ← required "type" outputContentType j
  let text ← optional "text" asStr j
  let _ ← optional "refusal" asStr j
  some ⟨type, text⟩

def outputItem (j : Json) : Option OutputItem := do
  let type ← required "type" asStr j
  let content ← tuple "content" outputContent j
  some ⟨type, content⟩

/-- `ResponsesEnvelope.model_validate`; `none` is its `ValidationError`. -/
def responsesEnvelope (j : Json) : Option ResponsesEnvelope := do
  let id ← required "id" asStr j
  let model ← required "model" asStr j
  let status ← required "status" asStr j
  let output ← required "output" (asTuple outputItem) j
  some ⟨id, model, status, output⟩

/-- `_parse_response` of a body that is JSON. -/
def parseResponse (j : Json) (traceId : String) : Except ComposeError CompositionResult :=
  match responsesEnvelope j with
  | none => .error (.adapter (invalidResponse "El redactor devolvió una respuesta inválida."))
  | some e =>
    match read e with
    | .error error => .error (.adapter error)
    | .ok r => (CompositionResult.make r.text r.responseId r.model traceId).mapError .raised

/-- It is how `compose` settles a success with this body. -/
theorem parseResponse_settle (j : Json) (traceId : String) :
    parseResponse j traceId = settle mapHttpError read traceId (.response 200
      (match responsesEnvelope j with
        | none => .invalid
        | some e => .envelope e)) := by
  unfold parseResponse
  cases responsesEnvelope j <;> rfl

section Interleaving
variable {α β : Type}

/-- `items` has the items of `base` in their order, with those of `extra` anywhere between. -/
inductive Interleaved : (extra base items : List α) → Prop
  | nil : Interleaved [] [] []
  | keep (item : α) {extra base items : List α} (h : Interleaved extra base items) :
      Interleaved extra (item :: base) (item :: items)
  | insert (item : α) {extra base items : List α} (h : Interleaved extra base items) :
      Interleaved (item :: extra) base (item :: items)

theorem mapM_cons_filter (f : α → Option β) (p : β → Bool) (x : α) (xs : List α) :
    ((x :: xs).mapM f).map (List.filter p) = (f x).bind fun b =>
      ((xs.mapM f).map (List.filter p)).map fun bs => if p b then b :: bs else bs := by
  rw [List.mapM_cons]
  cases f x with
  | none => rfl
  | some b =>
    cases xs.mapM f with
    | none => rfl
    | some bs => simp [List.filter_cons]

/-- A traversal that drops the inserted results does not depend on them. -/
theorem Interleaved.mapM_filter {extra base items : List α} (h : Interleaved extra base items)
    {f : α → Option β} {p : β → Bool} (hsome : ∀ item ∈ extra, (f item).isSome = true)
    (hdrop : ∀ item ∈ extra, ∀ b, f item = some b → p b = false) :
    (items.mapM f).map (List.filter p) = (base.mapM f).map (List.filter p) := by
  induction h with
  | nil => rfl
  | keep item _ ih => rw [mapM_cons_filter, mapM_cons_filter, ih hsome hdrop]
  | insert item _ ih =>
    obtain ⟨hitem, hsome⟩ := List.forall_mem_cons.mp hsome
    obtain ⟨hdropped, hdrop⟩ := List.forall_mem_cons.mp hdrop
    obtain ⟨b, hb⟩ := Option.isSome_iff_exists.mp hitem
    rw [mapM_cons_filter, ih hsome hdrop, hb]
    simp [hdropped b hb, Function.comp_def]

/-- A traversal that returns went through every inserted item. -/
theorem Interleaved.mapM_some {extra base items : List α} (h : Interleaved extra base items)
    {f : α → Option β} {ys : List β} (hitems : items.mapM f = some ys) :
    (∀ item ∈ extra, (f item).isSome = true) ∧ (base.mapM f).isSome = true := by
  have hcons : ∀ (item : α) (items : List α) (ys : List β), (item :: items).mapM f = some ys →
      (f item).isSome = true ∧ ∃ zs, items.mapM f = some zs := by
    intro item items ys hys
    rw [List.mapM_cons] at hys
    cases hf : f item with
    | none => simp [hf] at hys
    | some b =>
      cases hi : items.mapM f with
      | none => simp [hf, hi] at hys
      | some zs => exact ⟨rfl, zs, rfl⟩
  induction h generalizing ys with
  | nil => exact ⟨by simp, rfl⟩
  | keep item _ ih =>
    obtain ⟨hitem, zs, hzs⟩ := hcons _ _ _ hitems
    obtain ⟨hextra, hbase⟩ := ih hzs
    refine ⟨hextra, ?_⟩
    obtain ⟨b, hb⟩ := Option.isSome_iff_exists.mp hitem
    obtain ⟨bs, hbs⟩ := Option.isSome_iff_exists.mp hbase
    simp [List.mapM_cons, hb, hbs]
  | insert item _ ih =>
    obtain ⟨hitem, zs, hzs⟩ := hcons _ _ _ hitems
    obtain ⟨hextra, hbase⟩ := ih hzs
    exact ⟨List.forall_mem_cons.mpr ⟨hitem, hextra⟩, hbase⟩

end Interleaving

/-- A body, and the same body with further items, none of them a message, anywhere in its
output. -/
structure Insertion where
  body : Json
  extended : Json
  base : List Json
  extra : List Json
  items : List Json
  body_output : body.get "output" = some (.array base)
  extended_output : extended.get "output" = some (.array items)
  other_fields : ∀ key, key ≠ "output" → extended.get key = body.get key
  interleaved : Interleaved extra base items
  no_message : ∀ item ∈ extra, item.get "type" ≠ some (.str "message")

/-- The texts of the message items: stripped, in order, without the blank ones. -/
def messageTexts (e : ResponsesEnvelope) : List (List Char) :=
  (((contents e).filter fun c => decide (c.type = .outputText)).map fun c =>
    strip (c.text.getD "").toList).filter (· ≠ [])

/-- What a body is read as: the joined texts of its messages, or a refusal. -/
structure ReadsMessages (j : Json) (traceId : String) : Prop where
  text : ∀ result, parseResponse j traceId = .ok result → ∃ e, responsesEnvelope j = some e ∧
    result.text = String.ofList (['\n'].intercalate (messageTexts e))
  refused : ∀ e, responsesEnvelope j = some e → (∃ c ∈ contents e, c.type = .refusal) →
    ∃ error, parseResponse j traceId = .error (.adapter error) ∧ error.code = .refused

section Envelopes
variable {ins : Insertion}

theorem responsesEnvelope_eq {j : Json} {items : List Json}
    (h : j.get "output" = some (.array items)) :
    responsesEnvelope j = (required "id" asStr j).bind fun id =>
      (required "model" asStr j).bind fun model => (required "status" asStr j).bind fun status =>
        (items.mapM outputItem).map fun output => ⟨id, model, status, output⟩ := by
  have houtput : required "output" (asTuple outputItem) j = items.mapM outputItem := by
    rw [required, h]
    rfl
  rw [responsesEnvelope, houtput]
  cases required "id" asStr j <;> cases required "model" asStr j <;>
    cases required "status" asStr j <;> cases items.mapM outputItem <;> rfl

/-- The envelope of the longer body, with the fields of the shorter one. -/
theorem extended_envelope (ins : Insertion) :
    responsesEnvelope ins.extended = (required "id" asStr ins.body).bind fun id =>
      (required "model" asStr ins.body).bind fun model =>
        (required "status" asStr ins.body).bind fun status =>
          (ins.items.mapM outputItem).map fun output => ⟨id, model, status, output⟩ := by
  rw [responsesEnvelope_eq ins.extended_output]
  simp only [required, ins.other_fields "id" (by decide), ins.other_fields "model" (by decide),
    ins.other_fields "status" (by decide)]

theorem outputItem_type {item : Json} {b : OutputItem} (h : outputItem item = some b) :
    item.get "type" = some (.str b.type) := by
  unfold outputItem required at h
  cases hget : item.get "type" with
  | none => simp [hget] at h
  | some v =>
    cases v with
    | str t =>
      simp only [hget, Option.bind_some, asStr, Option.bind_eq_bind] at h
      obtain ⟨content, -, hb⟩ := Option.bind_eq_some_iff.mp h
      cases hb
      rfl
    | _ => simp [hget, asStr] at h

theorem read_congr {e e' : ResponsesEnvelope} (hid : e.id = e'.id) (hmodel : e.model = e'.model)
    (hstatus : e.status = e'.status) (hcontents : contents e = contents e') : read e = read e' := by
  have hparts : textParts e = textParts e' := by rw [textParts, textParts, hcontents]
  unfold read
  rw [hid, hmodel, hstatus, hcontents, hparts]

/-- Items that validate and are no messages are without effect. -/
theorem parseResponse_insert (hvalid : ∀ item ∈ ins.extra, (outputItem item).isSome = true)
    (traceId : String) : parseResponse ins.extended traceId = parseResponse ins.body traceId := by
  have hfilter := ins.interleaved.mapM_filter (p := fun item => decide (item.type = "message"))
    hvalid (by
      intro item hitem b hb
      rw [decide_eq_false_iff_not]
      intro hmessage
      exact ins.no_message item hitem (hmessage ▸ outputItem_type hb))
  unfold parseResponse
  rw [extended_envelope, responsesEnvelope_eq ins.body_output]
  cases required "id" asStr ins.body with
  | none => rfl
  | some id =>
    cases required "model" asStr ins.body with
    | none => rfl
    | some model =>
      cases required "status" asStr ins.body with
      | none => rfl
      | some status =>
        cases hitems : ins.items.mapM outputItem with
        | none =>
          rw [hitems, Option.map_none, eq_comm, Option.map_eq_none_iff] at hfilter
          rw [hfilter]
        | some output =>
          rw [hitems, Option.map_some, eq_comm, Option.map_eq_some_iff] at hfilter
          obtain ⟨base, hbase, hsame⟩ := hfilter
          have hread : read ⟨id, model, status, output⟩ = read ⟨id, model, status, base⟩ :=
            read_congr rfl rfl rfl (by simp only [contents, hsame])
          simp only [hbase, Option.bind_some, Option.map_some, hread]

/-- One inserted item that does not validate makes the body invalid. -/
theorem extended_invalid {item : Json} (hitem : item ∈ ins.extra)
    (hinvalid : outputItem item = none) : responsesEnvelope ins.extended = none := by
  have hitems : ins.items.mapM outputItem = none := by
    cases h : ins.items.mapM outputItem with
    | none => rfl
    | some output =>
      have hsome := (ins.interleaved.mapM_some h).1 item hitem
      rw [hinvalid] at hsome
      cases hsome
  rw [extended_envelope, hitems]
  cases required "id" asStr ins.body <;> cases required "model" asStr ins.body <;>
    cases required "status" asStr ins.body <;> rfl

theorem body_invalid (h : responsesEnvelope ins.body = none) :
    responsesEnvelope ins.extended = none := by
  rw [responsesEnvelope_eq ins.body_output] at h
  rw [extended_envelope]
  cases hid : required "id" asStr ins.body with
  | none => rfl
  | some id =>
    cases hmodel : required "model" asStr ins.body with
    | none => rfl
    | some model =>
      cases hstatus : required "status" asStr ins.body with
      | none => rfl
      | some status =>
        simp only [hid, hmodel, hstatus, Option.bind_some, Option.map_eq_none_iff] at h ⊢
        cases hitems : ins.items.mapM outputItem with
        | none => rfl
        | some output =>
          have hsome := (ins.interleaved.mapM_some hitems).2
          rw [h] at hsome
          cases hsome

end Envelopes

section Texts

theorem intercalate_ends (sep last : List Char) (init : List (List Char)) :
    ∃ start, sep.intercalate (init ++ [last]) = start ++ last := by
  cases init with
  | nil => exact ⟨[], by simp⟩
  | cons first init =>
    rw [List.cons_append, intercalate_flatMap, List.flatMap_append]
    exact ⟨first ++ init.flatMap (fun next => sep ++ next) ++ sep, by simp⟩

/-- Stripped parts that are not blank are joined to a stripped text. -/
theorem strip_join {parts : List (List Char)} (h : ∀ p ∈ parts, p ≠ [] ∧ strip p = p) :
    strip (['\n'].intercalate parts) = ['\n'].intercalate parts := by
  refine strip_self ?_ ?_
  · intro c hc
    cases parts with
    | nil => cases hc
    | cons first rest =>
      obtain ⟨hne, hstrip⟩ := h first List.mem_cons_self
      rw [intercalate_flatMap, List.head?_append_of_ne_nil _ hne, ← hstrip] at hc
      exact strip_head first c hc
  · intro c hc
    rcases List.eq_nil_or_concat parts with rfl | ⟨init, last, rfl⟩
    · cases hc
    · rw [List.concat_eq_append] at hc h
      obtain ⟨hne, hstrip⟩ := h last (by simp)
      obtain ⟨start, hstart⟩ := intercalate_ends ['\n'] last init
      rw [hstart, List.getLast?_append_of_ne_nil _ hne, ← hstrip] at hc
      exact strip_last last c hc

theorem textParts_filter (e : ResponsesEnvelope) :
    (textParts e).filter (· ≠ []) = messageTexts e := by
  unfold textParts messageTexts
  induction contents e with
  | nil => rfl
  | cons c cs ih =>
    rw [List.filterMap_cons, List.filter_cons]
    by_cases htype : c.type = .outputText
    · by_cases htext : truthy c.text = true
      · simp only [htype, htext, and_self, if_true, decide_true, List.map_cons, List.filter_cons, ih]
      · have hempty : strip (c.text.getD "").toList = [] := by
          cases hc : c.text with
          | none => rfl
          | some t =>
            simp only [hc, truthy, Option.any_some, decide_eq_true_eq, not_not] at htext
            rw [htext]
            rfl
        simp only [htype, htext, and_false, Bool.false_eq_true, if_false, ih, decide_true, if_true,
          List.map_cons, hempty, List.filter_cons, ne_eq, not_true_eq_false, decide_false]
    · simp only [htype, false_and, if_false, ih, decide_false, Bool.false_eq_true]

theorem read_text {e : ResponsesEnvelope} {r : Reading} (h : read e = .ok r) :
    r.text = String.ofList (['\n'].intercalate (messageTexts e)) := by
  have hstripped : ∀ p ∈ messageTexts e, p ≠ [] ∧ strip p = p := by
    intro p hp
    obtain ⟨hmem, hne⟩ := List.mem_filter.mp hp
    obtain ⟨c, -, rfl⟩ := List.mem_map.mp hmem
    exact ⟨by simpa using hne, strip_strip _⟩
  simp only [read, textParts_filter, strip_join hstripped] at h
  split_ifs at h
  cases h
  rfl

/-- The texts are always read as they should be; a refusal is, unless the response was not
completed. -/
theorem readsMessages_iff (j : Json) (traceId : String) :
    ReadsMessages j traceId ↔ ∀ e, responsesEnvelope j = some e →
      (∃ c ∈ contents e, c.type = .refusal) → e.status = "completed" := by
  constructor
  · intro h e he hrefusal
    by_contra hstatus
    obtain ⟨error, hparse, hcode⟩ := h.refused e he hrefusal
    simp only [parseResponse, he, read, if_pos hstatus] at hparse
    cases hparse
    cases hcode
  · intro h
    refine ⟨?_, ?_⟩
    · intro result hparse
      unfold parseResponse at hparse
      cases he : responsesEnvelope j with
      | none => simp [he] at hparse
      | some e =>
        refine ⟨e, rfl, ?_⟩
        rw [he] at hparse
        cases hr : read e with
        | error error => simp [hr] at hparse
        | ok r =>
          rw [← read_text hr]
          simp only [hr, CompositionResult.make] at hparse
          split_ifs at hparse
          · cases hparse
            rfl
          · cases hparse
    · intro e he hrefusal
      have hany : ((contents e).any fun c => decide (c.type = .refusal)) = true := by
        obtain ⟨c, hc, htype⟩ := hrefusal
        exact List.any_eq_true.mpr ⟨c, hc, by simpa using htype⟩
      refine ⟨⟨.refused, "No pude redactar esa respuesta.", none⟩, ?_, rfl⟩
      simp only [parseResponse, he, read]
      rw [if_neg (not_not.mpr (h e he hrefusal)), if_pos hany]

end Texts

/-- The answer to an invalid body is not the one to an envelope. -/
theorem parseResponse_valid {j : Json} {e : ResponsesEnvelope} (he : responsesEnvelope j = some e)
    (traceId : String) : parseResponse j traceId ≠
      .error (.adapter (invalidResponse "El redactor devolvió una respuesta inválida.")) := by
  unfold parseResponse
  cases hr : read e with
  | error error =>
    have herror : error ≠ invalidResponse "El redactor devolvió una respuesta inválida." := by
      simp only [read] at hr
      rintro rfl
      split_ifs at hr
      · exact absurd (Except.error.inj hr) (by decide)
      · exact absurd (Except.error.inj hr) (by decide)
      · exact absurd (Except.error.inj hr) (by decide)
    simpa [he, hr] using herror
  | ok r =>
    simp only [he, hr, CompositionResult.make]
    split_ifs <;> simp [Except.mapError]

/-- Inserted items that are no messages change nothing, and texts and refusals are read from
the messages, if and only if each inserted item validates or the body did not, and no
refusal stands in a response that was not completed. -/
theorem insertion_ignored_iff (ins : Insertion) (traceId : String) :
    (parseResponse ins.extended traceId = parseResponse ins.body traceId ∧
      ReadsMessages ins.body traceId) ↔
    (responsesEnvelope ins.body = none ∨ ∀ item ∈ ins.extra, (outputItem item).isSome = true) ∧
      ∀ e, responsesEnvelope ins.body = some e → (∃ c ∈ contents e, c.type = .refusal) →
        e.status = "completed" := by
  rw [readsMessages_iff]
  refine and_congr_left fun _ => ?_
  constructor
  · intro hsame
    by_contra hno
    push Not at hno
    obtain ⟨hbody, item, hitem, hinvalid⟩ := hno
    obtain ⟨e, he⟩ := Option.ne_none_iff_exists'.mp hbody
    have hextended : responsesEnvelope ins.extended = none :=
      extended_invalid hitem (by simpa using hinvalid)
    refine parseResponse_valid he traceId ?_
    rw [← hsame, parseResponse, hextended]
  · rintro (hbody | hvalid)
    · rw [parseResponse, parseResponse, hbody, body_invalid hbody]
    · exact parseResponse_insert hvalid traceId

def messageItem : Json :=
  .object [("type", .str "message"),
    ("content", .array [.object [("type", .str "output_text"), ("text", .str "Hola")]])]

/-- A reasoning item with a part of its own type. -/
def reasoningItem : Json :=
  .object [("type", .str "reasoning"),
    ("content", .array [.object [("type", .str "reasoning_text"), ("text", .str "Saludar.")]])]

def responseBody (output : List Json) : Json :=
  .object [("id", .str "resp-1"), ("model", .str "gpt"), ("status", .str "completed"),
    ("output", .array output)]

theorem responseBody_get (output other : List Json) (key : String) (h : key ≠ "output") :
    (responseBody output).get key = (responseBody other).get key := by
  have hkey : (key == "output") = false := by simpa using h
  simp [responseBody, Json.get, List.lookup_cons, hkey]

theorem reasoningItem_no_message :
    ∀ item ∈ [reasoningItem], item.get "type" ≠ some (.str "message") := by
  intro item hitem
  rw [List.mem_singleton.mp hitem]
  have htype : reasoningItem.get "type" = some (.str "reasoning") := rfl
  rw [htype]
  intro heq
  exact absurd (Json.str.inj (Option.some.inj heq)) (by decide)

def reasoningInsertion : Insertion where
  body := responseBody [messageItem]
  extended := responseBody [reasoningItem, messageItem]
  base := [messageItem]
  extra := [reasoningItem]
  items := [reasoningItem, messageItem]
  body_output := rfl
  extended_output := rfl
  other_fields := responseBody_get _ _
  interleaved := .insert _ (.keep _ .nil)
  no_message := reasoningItem_no_message

/-- The answer is lost to a part of an item that is skipped. -/
theorem reasoning_part_invalidates :
    (parseResponse reasoningInsertion.body "trace").toOption.map CompositionResult.text =
      some "Hola" ∧
    (parseResponse reasoningInsertion.extended "trace").toOption.map CompositionResult.text =
      none ∧
    ¬ (parseResponse reasoningInsertion.extended "trace" =
        parseResponse reasoningInsertion.body "trace" ∧
      ReadsMessages reasoningInsertion.body "trace") := by
  have hbody : (parseResponse reasoningInsertion.body "trace").toOption.map
      CompositionResult.text = some "Hola" := by decide
  have hextended : (parseResponse reasoningInsertion.extended "trace").toOption.map
      CompositionResult.text = none := by decide
  refine ⟨hbody, hextended, ?_⟩
  rintro ⟨hsame, -⟩
  rw [hsame, hbody] at hextended
  cases hextended

end Piki.OpenAIResponsesAdapter
