import Piki.Provenance
import Piki.Processing
import Piki.Webhook

/-! When a claimed message is answered. Every model between the stored row and the
reply has its own bounds; what remains of them is a condition on the message, on the
stored reply and on what the search returned. -/
namespace Piki.ConversationOrchestrator
open Text Table Evidence PromptAssets ConversationRepository
variable {u : Unicode}

section Prompt

theorem jsonEscape_length (c : Char) : (jsonEscape c).length ≤ 6 := by
  unfold jsonEscape
  split_ifs <;> simp

example : (jsonEscape '\x01').length = 6 := by decide +kernel

theorem jsonString_length (s : String) : (jsonString s).length ≤ 6 * s.length + 2 := by
  have h : (s.toList.flatMap jsonEscape).length ≤ 6 * s.toList.length := by
    induction s.toList with
    | nil => simp
    | cons c cs ih =>
      have hc := jsonEscape_length c
      simp only [List.flatMap_cons, List.length_append, List.length_cons]
      omega
  rw [String.length_toList] at h
  simp only [jsonString, List.length_append, List.length_singleton]
  omega

theorem systemPrompt_bounded : Bounded 1 12000 systemPrompt := by
  delta systemPrompt
  refine Bounded.mono ?_ ?_ (Bounded.append (Bounded.append (Bounded.append (Bounded.append
    (Bounded.append (Bounded.append (Bounded.append (Bounded.append (bounded_chars _)
    (bounded_chars _)) (bounded_chars _)) (bounded_chars _)) (bounded_chars _)) (bounded_chars _))
    (bounded_chars _)) (bounded_chars _)) (bounded_chars _))
  · decide
  · decide

theorem renderEvidence_pos (packet : ContextPacket) : 1 ≤ (renderEvidence packet).length := by
  have hhead : ∃ rest, evidenceTemplate packet = literal "TAREA\n" ++ rest := by
    delta evidenceTemplate
    simp only [List.append_assoc]
    exact ⟨_, rfl⟩
  obtain ⟨rest, hrest⟩ := hhead
  have hT : 'T' ∈ evidenceTemplate packet := by
    rw [hrest]
    exact List.mem_append_left _ (by decide)
  have hne : strip (evidenceTemplate packet) ≠ [] := by
    intro hnil
    obtain ⟨pre, post, hs, hpre, hpost⟩ := strip_decompose (evidenceTemplate packet)
    rw [hs, hnil, List.append_nil, List.mem_append] at hT
    rcases hT with hT | hT
    · exact absurd (hpre _ hT) (by decide)
    · exact absurd (hpost _ hT) (by decide)
  rw [renderEvidence, String.length_ofList]
  exact List.length_pos_iff.mpr hne

/-- The fixed parts of the explanation prompt, before and after the query. -/
def explainHead : List Char :=
  literal "TAREA\n" ++ jsonString (getPolicy .explainBuenpick).task ++ literal "\n\nCONSULTA\n"

def explainMiddle : List Char :=
  literal "\n\nDATOS CONFIRMADOS\n" ++ literal "- Ninguno.\n" ++
    literal "DATOS NO DISPONIBLES\n" ++ literal "- Ninguno.\n" ++ literal "ACCIONES REALIZADAS\n" ++
    literal "- Ninguna.\n" ++ literal "REGLAS DE REDACCIÓN\n" ++
    block (getPolicy .explainBuenpick).writingRules listLine
      "- Aplicar únicamente el system prompt.\n" ++
    literal "CONTROL\n- modo=" ++ jsonString ResponseMode.nonCommercialLlm.value ++
    literal "\n- active_pick_id=" ++ literal "null" ++ literal "\n- trace_id="

set_option maxRecDepth 10000 in
theorem explain_fixed_length : explainHead.length + explainMiddle.length ≤ 1000 := by
  decide

/-- The prompt of the explanation route always fits. -/
theorem explain_prompt_length {packet : ContextPacket} (hp : packet.confirmedData = [])
    (hu : packet.unavailableData = []) (ha : packet.actionsPerformed = [])
    (ht : packet.task = (getPolicy .explainBuenpick).task)
    (hr : packet.writingRules = (getPolicy .explainBuenpick).writingRules)
    (hm : packet.responseMode = .nonCommercialLlm) (hi : packet.activePickId = none) :
    (renderEvidence packet).length ≤ 30000 := by
  have hnil : ∀ {α : Type} (line : α → List Char) (otherwise : String),
      block [] line otherwise = literal otherwise := fun _ _ => if_pos rfl
  have hnone : (if truthy none = true then jsonString (none.getD "") else literal "null") =
      literal "null" := if_neg (by decide)
  have htemplate : evidenceTemplate packet = explainHead ++ (jsonString packet.query ++
      (explainMiddle ++ (jsonString packet.traceId ++ literal "\n"))) := by
    delta evidenceTemplate explainHead explainMiddle
    rw [hp, hu, ha, ht, hr, hm, hi, hnil, hnil, hnil, hnone]
    simp only [List.append_assoc]
  have hq := jsonString_length packet.query
  have hq' := packet.query_bounded.2
  have hc := jsonString_length packet.traceId
  have hc' := packet.traceId_bounded.2
  have hfixed := explain_fixed_length
  have hend : (literal "\n").length = 1 := by decide
  have hstrip := strip_length_le (evidenceTemplate packet)
  rw [htemplate] at hstrip
  simp only [List.length_append, hend] at hstrip
  rw [renderEvidence, String.length_ofList, htemplate]
  omega

end Prompt

/-- Every stored text and trace fits the contracts that later read it. -/
def Readable (db : ConversationTables) : Prop :=
  ∀ m ∈ db.messages, AtMost 4096 m.contentText ∧ Bounded 1 128 m.traceId

section Routes

theorem recentMessages_ok {db : ConversationTables} (h : Readable db) (cid : Uuid) :
    ∃ rows, recentMessages db cid 20 = .ok rows ∧ rows.length ≤ 20 ∧
      ∀ m ∈ rows, AtMost 4096 m.contentText := by
  refine ⟨_, by simp only [recentMessages]; rfl, ?_, ?_⟩
  · rw [List.length_reverse, List.length_take]
    exact Nat.min_le_left _ _
  · intro m hm
    have hs := List.mem_of_mem_take (List.mem_reverse.mp hm)
    have hf := (List.mem_insertionSort _).mp hs
    exact (h m (List.mem_filter.mp hf).1).1

theorem truthy_bounded {s : Option String} (ht : truthy s = true) (hs : AtMost 4096 s) :
    Bounded 1 4096 (s.getD "") := by
  cases s with
  | none => cases ht
  | some t =>
    have hne : t ≠ "" := by simpa [truthy] using ht
    have hpos : t.length ≠ 0 := by simpa using hne
    exact ⟨Nat.one_le_iff_ne_zero.mpr hpos, hs t rfl⟩

/-- Stored messages become turns of the request. -/
theorem turns_ok {history : List MessageRecord} (h : ∀ m ∈ history, AtMost 4096 m.contentText)
    (hlen : history.length ≤ 20) : ∃ ts, turns history = .ok ts ∧ ts.length ≤ 20 := by
  have hall : ∀ rows : List MessageRecord, (∀ m ∈ rows, Bounded 1 4096 (m.contentText.getD "")) →
      ∃ ts, rows.mapM (fun m => ConversationTurn.make
        (if m.direction = .outbound then .assistant else .user) (m.contentText.getD "")) = .ok ts ∧
        ts.length = rows.length := by
    intro rows hrows
    induction rows with
    | nil => exact ⟨[], rfl, rfl⟩
    | cons m rows ih =>
      obtain ⟨ts, hts, hl⟩ := ih fun x hx => hrows x (List.mem_cons_of_mem _ hx)
      have hm := hrows m List.mem_cons_self
      refine ⟨⟨if m.direction = .outbound then .assistant else .user, _, hm⟩ :: ts, ?_, by simp [hl]⟩
      rw [List.mapM_cons, ConversationTurn.make, dif_pos hm, ok_bind, hts, ok_bind]
      rfl
  obtain ⟨ts, hts, hl⟩ := hall (history.filter fun m => truthy m.contentText) (by
    intro m hm
    obtain ⟨hmem, ht⟩ := List.mem_filter.mp hm
    exact truthy_bounded ht (h m hmem))
  refine ⟨ts, hts, ?_⟩
  have hf := List.length_filter_le (fun m => truthy m.contentText) history
  omega

/-- A model is asked when the prompt fits, and then the engine returns. -/
theorem respond_returns {adapter : LLMAdapter} {packet : ContextPacket}
    (hmode : packet.responseMode = .jinjaLlm ∨ packet.responseMode = .nonCommercialLlm)
    {conversation : List ConversationTurn} (hc : conversation.length ≤ 20) :
    (∃ out, (ResponseEngine.respond u adapter packet conversation none).outcome = .ok out) ↔
      (renderEvidence packet).length ≤ 30000 := by
  rw [ResponseEngine.respond_llm hmode]
  by_cases hr : (renderEvidence packet).length ≤ 30000
  · have hb : Bounded 1 12000 systemPrompt ∧ Bounded 1 30000 (renderEvidence packet) ∧
        conversation.length ≤ 20 ∧ Bounded 1 128 packet.traceId :=
      ⟨systemPrompt_bounded, ⟨renderEvidence_pos packet, hr⟩, hc, packet.traceId_bounded⟩
    rw [CompositionRequest.make, dif_pos hb]
    refine iff_of_true ?_ hr
    cases ha : adapter ⟨systemPrompt, renderEvidence packet, conversation, packet.traceId,
        hb.1, hb.2.1, hb.2.2.1, hb.2.2.2⟩ with
    | error e =>
      obtain ⟨out, hout, -⟩ := ResponseEngine.fallback_ok (u := u) packet []
      simp only [ha]
      exact ⟨out, hout⟩
    | ok composed =>
      simp only [ha]
      refine ResponseEngine.grounded_returns composed.text_bounded.2 ?_
      intro t ht
      rw [← Option.some.inj ht]
      exact composed.providerResponseId_bounded.2
  · have hb : ¬ (Bounded 1 12000 systemPrompt ∧ Bounded 1 30000 (renderEvidence packet) ∧
        conversation.length ≤ 20 ∧ Bounded 1 128 packet.traceId) := fun h => hr h.2.1.2
    rw [CompositionRequest.make, dif_neg hb]
    refine iff_of_false ?_ hr
    rintro ⟨out, hout⟩
    cases hout

/-- A turn that returned a text that the reply accepts. -/
def Returned (turn : Turn) : Prop := ∃ text fb, turn.reply = .ok (text, fb) ∧ Bounded 1 4096 text

theorem answer_returned {ports : Ports} {db : ConversationTables} {packet : ContextPacket}
    {conversation : List ConversationTurn} {det : Option String} :
    Returned (answer u ports db (.ok packet) conversation det) ↔
      ∃ out, (ResponseEngine.respond u ports.adapter packet conversation det).outcome = .ok out := by
  unfold Returned answer
  simp only
  constructor
  · rintro ⟨text, fb, h, -⟩
    cases hout : (ResponseEngine.respond u ports.adapter packet conversation det).outcome with
    | error e => simp [hout, Except.map] at h
    | ok out => exact ⟨out, rfl⟩
  · rintro ⟨out, hout⟩
    exact ⟨out.text, out.usedFallback, by simp [hout, Except.map], out.text_bounded⟩

theorem not_returned_raised (db : ConversationTables) (e : Failure) :
    ¬ Returned (.raised db e) := by
  rintro ⟨text, fb, h, -⟩
  cases h

theorem ContextPacket.make_of_bounded {task query : String} {confirmed : List EvidenceItem}
    {unavailable : List String} {actions : List PerformedAction} {rules : List String}
    {mode : ResponseMode} {traceId : String} (htask : Bounded 1 500 task)
    (hq : Bounded 1 4096 query) (ht : Bounded 1 128 traceId) :
    ∃ packet, ContextPacket.make task query confirmed unavailable actions rules mode none traceId =
      .ok packet := by
  have hb : Bounded 1 500 task ∧ Bounded 1 4096 query ∧ AtMost 255 none ∧ Bounded 1 128 traceId :=
    ⟨htask, hq, by simp [AtMost], ht⟩
  exact ⟨_, by rw [ContextPacket.make, dif_pos hb]⟩

/-- An empty query is refused. -/
theorem explainPacket_empty (traceId : String) :
    explainPacket "" traceId = .error (.validation "ContextPacket") := by
  rw [explainPacket, PolicyDefinition.contextPacket, if_neg (by simp [getPolicy]),
    ContextPacket.make, dif_neg (by simp [Bounded])]

/-- The explanation route answers every non-empty query, and no other. -/
theorem explain_returned {ports : Ports} {db : ConversationTables} {query traceId : String}
    (hq : query.length ≤ 4096) (ht : Bounded 1 128 traceId) {conversation : List ConversationTurn}
    (hc : conversation.length ≤ 20) :
    Returned (answer u ports db (explainPacket query traceId) conversation none) ↔ query ≠ "" := by
  by_cases hne : query = ""
  · refine iff_of_false ?_ (by simp [hne])
    rw [hne, explainPacket_empty]
    exact not_returned_raised db _
  · refine iff_of_true ?_ hne
    have hpos : query.length ≠ 0 := by simpa using hne
    obtain ⟨packet, hp⟩ : ∃ packet, explainPacket query traceId = .ok packet := by
      rw [explainPacket, PolicyDefinition.contextPacket, if_neg (by simp [getPolicy])]
      exact ContextPacket.make_of_bounded (getPolicy_valid _).2 ⟨by omega, hq⟩ ht
    have hf := hp
    rw [explainPacket, PolicyDefinition.contextPacket, if_neg (by simp [getPolicy])] at hf
    obtain ⟨htask, -, hconf, hun, hact, hrules, hmode, hactive, -⟩ := ContextPacket.make_ok hf
    rw [hp, answer_returned, respond_returns (.inr hmode) hc]
    exact explain_prompt_length hconf hun hact htask hrules hmode hactive

theorem handoffText_bounded : Bounded 1 4096 handoffText := by
  delta handoffText
  exact Bounded.mono (by decide) (by decide) ((bounded_chars _).append (bounded_chars _))

theorem handoff_answered {ports : Ports} {db : ConversationTables} {query traceId : String}
    (hq : Bounded 1 4096 query) (ht : Bounded 1 128 traceId)
    (conversation : List ConversationTurn) :
    Returned (answer u ports db (handoffPacket query traceId) conversation (some handoffText)) := by
  obtain ⟨packet, hp⟩ : ∃ packet, handoffPacket query traceId = .ok packet := by
    rw [handoffPacket, PolicyDefinition.contextPacket, if_neg (by simp [getPolicy])]
    exact ContextPacket.make_of_bounded (getPolicy_valid _).2 hq ht
  have hf := hp
  rw [handoffPacket, PolicyDefinition.contextPacket, if_neg (by simp [getPolicy])] at hf
  have hmode : packet.responseMode = .deterministic := (ContextPacket.make_ok hf).2.2.2.2.2.2.1
  rw [hp, answer_returned, ResponseEngine.respond_deterministic hmode]
  dsimp only
  exact ResponseEngine.grounded_returns handoffText_bounded.2 (by simp [AtMost])

/-- A request for a person is stored, or an earlier one is found. -/
theorem request_ok {db : ConversationTables} {id : Uuid} {now : Time} {request : HandoffRequest}
    (hid : ∀ h ∈ db.handoffs, h.id ≠ id)
    (hconv : ∃ c ∈ db.conversations, c.id = request.conversationId) :
    ∃ r, HandoffRepository.request db id now request = .ok r ∧ r.2.messages = db.messages ∧
      ∃ c ∈ r.2.conversations, c.id = request.conversationId := by
  have hkeep : ∀ db' : ConversationTables, db'.conversations = db.conversations →
      ∃ c ∈ (HandoffRepository.needsHuman request.conversationId db').conversations,
        c.id = request.conversationId := by
    intro db' hdb
    obtain ⟨c, hc, hcid⟩ := hconv
    refine ⟨_, mem_updateWhere.mpr ⟨c, hdb ▸ hc, rfl⟩, ?_⟩
    split_ifs <;> exact hcid
  have hfresh : conflict (fun h : HandoffRecord => some h.id) db.handoffs
      (HandoffRepository.requestRow id now request) = none := by
    rw [conflict_eq_none]
    intro k hk h hh he
    exact hid h hh (Option.some.inj (he.trans hk.symm))
  unfold HandoffRepository.request
  simp only [hfresh, Option.isSome_none, Bool.false_or]
  split_ifs with hc hany
  · exact ⟨_, rfl, rfl, hkeep db rfl⟩
  · exfalso
    apply hany
    rw [Bool.or_eq_true, Option.isSome_iff_exists, Option.isSome_iff_exists] at hc
    rcases hc with ⟨h, hh⟩ | ⟨h, hh⟩
    · obtain ⟨hm, k, hk, he⟩ := conflict_eq_some hh
      refine List.any_eq_true.mpr ⟨h, hm, ?_⟩
      have heq := he.trans hk.symm
      simp only [HandoffRepository.requestKey, HandoffRepository.requestRow, Option.some.injEq,
        Prod.mk.injEq] at heq
      simp [HandoffRepository.sameRequest, heq.1, heq.2]
    · obtain ⟨hm, k, hk, he⟩ := conflict_eq_some hh
      refine List.any_eq_true.mpr ⟨h, hm, ?_⟩
      have hopen : HandoffRepository.isOpen h = true := by
        by_contra hno
        simp [HandoffRepository.openKey, hno] at he
      have heq := he.trans hk.symm
      simp only [HandoffRepository.openKey, hopen, if_true] at heq
      have hrow : HandoffRepository.isOpen (HandoffRepository.requestRow id now request) = true := rfl
      simp only [hrow, if_true, Option.some.injEq] at heq
      simp [HandoffRepository.sameRequest, hopen, heq, HandoffRepository.requestRow]
  · obtain ⟨c, hcm, hcid⟩ := hconv
    have href : (db.conversations.any fun c => c.id = request.conversationId) = true :=
      List.any_eq_true.mpr ⟨c, hcm, by simpa using hcid⟩
    rw [requireReferenced, if_pos href, ok_bind]
    exact ⟨_, rfl, rfl, hkeep _ rfl⟩

/-- The evidence item of a pick can be built. -/
def PickFits (indexed : PickSummary × ℕ) : Prop :=
  (pickLabel indexed.2).length ≤ 100 ∧ (pickValue indexed.1).length ≤ 2000 ∧
    indexed.1.id.length ≤ 255

theorem make_returns_iff {label value : String} {source : EvidenceSource}
    {reference : Option String} :
    (∃ item, EvidenceItem.make label value source reference = .ok item) ↔
      Bounded 1 100 label ∧ Bounded 1 2000 value ∧ AtMost 255 reference := by
  rw [EvidenceItem.make]
  split_ifs with h
  · exact iff_of_true ⟨_, rfl⟩ h
  · refine iff_of_false ?_ h
    rintro ⟨item, hi⟩
    cases hi

theorem pickEvidence_ok_iff (indexed : PickSummary × ℕ) :
    (∃ item, pickEvidence indexed = .ok item) ↔ PickFits indexed := by
  have hlabel : 1 ≤ (pickLabel indexed.2).length := by
    delta pickLabel
    rw [String.length_append]
    have : 1 ≤ "available_pick_".length := by decide
    omega
  have hvalue : 1 ≤ (pickValue indexed.1).length := by
    delta pickValue
    repeat rw [String.length_append]
    have : 1 ≤ "Title: ".length := by decide
    omega
  rw [pickEvidence, make_returns_iff]
  simp [Bounded, PickFits, AtMost, hlabel, hvalue]

example : pickLabel 3 = "available_pick_3" := by decide +kernel

theorem mapM_returns_iff {α β : Type} {f : α → Except Failure β} {xs : List α} :
    (∃ ys, xs.mapM f = .ok ys) ↔ ∀ x ∈ xs, ∃ y, f x = .ok y := by
  induction xs with
  | nil => exact iff_of_true ⟨[], rfl⟩ (by simp)
  | cons x xs ih =>
    rw [List.mapM_cons, List.forall_mem_cons, ← ih]
    constructor
    · rintro ⟨ys, h⟩
      obtain ⟨y, hy, hrest⟩ := bind_ok h
      obtain ⟨zs, hzs, -⟩ := bind_ok hrest
      exact ⟨⟨y, hy⟩, zs, hzs⟩
    · rintro ⟨⟨y, hy⟩, zs, hzs⟩
      exact ⟨y :: zs, by rw [hy, ok_bind, hzs, ok_bind]; rfl⟩

theorem responseEvidence_returns_iff (response : PickSearchResponse) :
    (∃ evidence, responseEvidence u response = .ok evidence) ↔
      ∀ indexed ∈ response.items.zipIdx 1, PickFits indexed := by
  have hmap : (∃ items, (response.items.zipIdx 1).mapM pickEvidence = .ok items) ↔
      ∀ indexed ∈ response.items.zipIdx 1, PickFits indexed := by
    rw [mapM_returns_iff]
    simp only [pickEvidence_ok_iff]
  rw [← hmap, responseEvidence]
  by_cases hnil : response.items = []
  · rw [if_pos hnil, hnil]
    exact iff_of_true ⟨_, rfl⟩ ⟨[], rfl⟩
  · rw [if_neg hnil]
    constructor
    · rintro ⟨evidence, h⟩
      obtain ⟨items, hitems, -⟩ := bind_ok h
      exact ⟨items, hitems⟩
    · rintro ⟨items, hitems⟩
      rw [hitems, ok_bind]
      exact ⟨_, rfl⟩

/-- The response of a search fits the models that carry it to the language model:
every pick its evidence item, and all of them the prompt. -/
def SearchFits (u : Unicode) (query traceId : String) (response : PickSearchResponse) : Prop :=
  (∀ indexed ∈ response.items.zipIdx 1, PickFits indexed) ∧
    ∀ evidence packet, responseEvidence u response = .ok evidence →
      discoverPacket query traceId evidence = .ok packet → (renderEvidence packet).length ≤ 30000

theorem discoverPacket_returns {query traceId : String} {evidence : ToolEvidenceBundle}
    (hne : evidence.confirmedData ≠ []) (hq : Bounded 1 4096 query) (ht : Bounded 1 128 traceId) :
    ∃ packet, discoverPacket query traceId evidence = .ok packet ∧
      packet.responseMode = .jinjaLlm := by
  have hcond : ¬ ((getPolicy .discoverPicks).requiresConfirmedEvidence = true ∧
      evidence.confirmedData = []) := fun h => hne h.2
  rw [discoverPacket, PolicyDefinition.contextPacket, if_neg hcond]
  obtain ⟨packet, hp⟩ : ∃ packet, ContextPacket.make (getPolicy .discoverPicks).task query
      evidence.confirmedData evidence.unavailableData evidence.actionsPerformed
      (getPolicy .discoverPicks).writingRules (getPolicy .discoverPicks).responseMode none traceId =
        .ok packet :=
    ContextPacket.make_of_bounded (getPolicy_valid .discoverPicks).2 hq ht
  exact ⟨packet, hp, (ContextPacket.make_ok hp).2.2.2.2.2.2.1⟩

theorem notConfiguredText_bounded : Bounded 1 4096 notConfiguredText := by
  delta notConfiguredText
  exact Bounded.mono (by decide) (by decide) ((bounded_chars _).append (bounded_chars _))

/-- The search route answers unless what the search returned does not fit. -/
theorem discover_returned {ports : Ports} {db : ConversationTables} {query traceId : String}
    (hq : Bounded 1 4096 query) (ht : Bounded 1 128 traceId) {conversation : List ConversationTurn}
    (hc : conversation.length ≤ 20) :
    Returned (discover u ports db query traceId conversation) ↔
      ∀ search response, ports.search = some search → search query = .ok response →
        SearchFits u query traceId response := by
  rw [discover_eq ports db query ht]
  cases hs : ports.search with
  | none =>
    refine iff_of_true ⟨_, _, rfl, notConfiguredText_bounded⟩ ?_
    intro search response h
    cases h
  | some search =>
    cases hsq : search query with
    | error e =>
      simp only [hsq]
      have hb := e.userSafeMessage_bounded
      refine iff_of_true ⟨_, _, rfl, hb.1, le_trans hb.2 (by decide)⟩ ?_
      intro search' response h hr
      cases h
      rw [hsq] at hr
      cases hr
    | ok response =>
      have hgoal : (∀ search' response', some search = some search' →
          search' query = .ok response' → SearchFits u query traceId response') ↔
          SearchFits u query traceId response := by
        constructor
        · intro h
          exact h search response rfl hsq
        · intro h search' response' he hr
          cases he
          rw [hsq] at hr
          cases hr
          exact h
      rw [hgoal]
      simp only [hsq]
      cases he : responseEvidence u response with
      | error e =>
        refine iff_of_false (not_returned_raised db e) ?_
        intro hfits
        obtain ⟨evidence, hev⟩ := (responseEvidence_returns_iff (u := u) response).mpr hfits.1
        rw [he] at hev
        cases hev
      | ok evidence =>
        have hpicks := (responseEvidence_returns_iff (u := u) response).mp ⟨evidence, he⟩
        obtain ⟨packet, hp, hmode⟩ := discoverPacket_returns (responseEvidence_ok he).1 hq ht
        simp only [hp]
        rw [answer_returned, respond_returns (.inl hmode) hc]
        constructor
        · intro hlen
          refine ⟨hpicks, ?_⟩
          intro evidence' packet' he' hp'
          rw [he] at he'
          cases he'
          rw [hp] at hp'
          cases hp'
          exact hlen
        · intro hfits
          exact hfits.2 evidence packet he hp

end Routes

/-- What a call needs of the database: stored texts fit, the conversation is there,
and generated ids are new. -/
structure Usable (db : ConversationTables) (conversationId : Uuid) (draw : CallDraw) : Prop where
  readable : Readable db
  conversation : ∃ c ∈ db.conversations, c.id = conversationId
  message_fresh : ∀ m ∈ db.messages, m.id ≠ draw.messageUuid
  handoff_fresh : ∀ h ∈ db.handoffs, h.id ≠ draw.handoffUuid

/-- A message is answered when its id leaves room for the trace, and either its reply
is stored already or it has text and what the search returned for it fits. -/
def Answerable (u : Unicode) (ports : Ports) (db : ConversationTables) (message : InboundMessage) :
    Prop :=
  message.messageId.length ≤ 115 ∧
    ((findReply db message.messageId).isSome = true ∨
      message.text.getD "" ≠ "" ∧
        (ConversationIntentResolver.resolve u (message.text.getD "") = .discoverPicks →
          ∀ search response, ports.search = some search →
            search (message.text.getD "") = .ok response →
            SearchFits u (message.text.getD "") (traceOf message.messageId) response))

theorem traceOf_bounded_iff (messageId : String) :
    Bounded 1 128 (traceOf messageId) ↔ messageId.length ≤ 115 := by
  have hlen : "conversation:".length = 13 := by decide
  delta traceOf
  rw [Bounded, String.length_append, hlen]
  omega

theorem resolve_empty : ConversationIntentResolver.resolve u "" = .explainBuenpick := by
  have hnil : ConversationIntentResolver.normalized u "" = [] := rfl
  unfold ConversationIntentResolver.resolve
  rw [hnil]
  decide

example : ConversationIntentResolver.resolve .latin1 "Hay PICKS?" = .discoverPicks := by
  decide +kernel

theorem intent_component (intent : ConversationIntent) : Bounded 1 100 intent.value := by
  cases intent <;> decide

/-- When the composition of a reply to a readable history returns a text. -/
theorem composeReply_returned (ports : Ports) {db : ConversationTables} {draw : CallDraw}
    {cid : Uuid} (hdb : Usable db cid draw) {query messageId : String} (hq : query.length ≤ 4096)
    (hid : messageId.length ≤ 115) {history : List MessageRecord}
    (hh : ∀ m ∈ history, AtMost 4096 m.contentText) (hlen : history.length ≤ 20) :
    Returned (composeReply u ports db draw.handoffUuid draw.handoffNow
      (ConversationIntentResolver.resolve u query) query (traceOf messageId) cid history messageId) ↔
      query ≠ "" ∧ (ConversationIntentResolver.resolve u query = .discoverPicks →
        ∀ search response, ports.search = some search → search query = .ok response →
          SearchFits u query (traceOf messageId) response) := by
  have ht := (traceOf_bounded_iff messageId).mpr hid
  obtain ⟨conversation, hts, hc⟩ := turns_ok hh hlen
  by_cases hne : query = ""
  · subst hne
    rw [resolve_empty]
    simp only [composeReply, hts]
    rw [explain_returned (by decide) ht hc]
    simp
  · have hpos : query.length ≠ 0 := by simpa using hne
    have hqb : Bounded 1 4096 query := ⟨by omega, hq⟩
    cases hi : ConversationIntentResolver.resolve u query with
    | discoverPicks =>
      simp only [composeReply, hts]
      rw [discover_returned hqb ht hc]
      simp [hne]
    | greeting | explainBuenpick =>
      simp only [composeReply, hts]
      rw [explain_returned hq ht hc]
      simp
    | humanHandoff =>
      refine iff_of_true ?_ ⟨hne, by simp⟩
      have hkey : Bounded 1 255 ("handoff:" ++ messageId) := by
        have h8 : "handoff:".length = 8 := by decide
        rw [Bounded, String.length_append, h8]
        omega
      have hreq : ∃ request, HandoffRequest.make cid ("handoff:" ++ messageId)
          "La persona solicitó atención humana." (traceOf messageId) = .ok request ∧
          request.conversationId = cid := by
        rw [HandoffRequest.make, dif_pos ⟨hkey, by decide, ht⟩]
        exact ⟨_, rfl, rfl⟩
      obtain ⟨request, hmake, hcid⟩ := hreq
      obtain ⟨r, hr, -⟩ : ∃ r, HandoffRepository.request db draw.handoffUuid draw.handoffNow request =
          .ok r ∧ _ := request_ok hdb.handoff_fresh (hcid.symm ▸ hdb.conversation)
      have hsession : requestHandoff db draw.handoffUuid draw.handoffNow cid messageId
          (traceOf messageId) = .ok r := by
        rw [requestHandoff, hmake, ok_bind]
        exact hr
      simp only [composeReply, hts, hsession]
      exact handoff_answered hqb ht conversation

theorem answer_tables (ports : Ports) (db : ConversationTables)
    (packet : Except Failure ContextPacket) (conversation : List ConversationTurn)
    (det : Option String) : (answer u ports db packet conversation det).tables = db := by
  cases packet <;> rfl

theorem discover_tables (ports : Ports) (db : ConversationTables) (query traceId : String)
    (conversation : List ConversationTurn) :
    (discover u ports db query traceId conversation).tables = db := by
  unfold discover
  cases ports.search with
  | none => rfl
  | some search =>
    dsimp only
    cases BuenPickTools.searchAvailablePicks search ports.latencyMs query traceId >>=
        searchResultEvidence u with
    | error e => rfl
    | ok evidence =>
      dsimp only
      split_ifs
      · rfl
      · exact answer_tables ports db _ conversation none

/-- The messages and the identities of the conversations are unchanged. -/
structure SameRows (db db' : ConversationTables) : Prop where
  messages : db'.messages = db.messages
  conversations : db'.conversations.map (fun c => (c.id, c.identity)) =
    db.conversations.map (fun c => (c.id, c.identity))

theorem SameRows.refl (db : ConversationTables) : SameRows db db := ⟨rfl, rfl⟩

theorem SameRows.conversation {db db' : ConversationTables} (h : SameRows db db')
    {c : ConversationRecord} (hc : c ∈ db.conversations) :
    ∃ c' ∈ db'.conversations, c'.id = c.id ∧ c'.identity = c.identity := by
  have hm : (c.id, c.identity) ∈ db.conversations.map fun c => (c.id, c.identity) :=
    List.mem_map.mpr ⟨c, hc, rfl⟩
  rw [← h.conversations] at hm
  obtain ⟨c', hc', he⟩ := List.mem_map.mp hm
  exact ⟨c', hc', (Prod.mk.inj he).1, (Prod.mk.inj he).2⟩

theorem SameRows.constraints {db db' : ConversationTables} (h : SameRows db db')
    (hu : db.Constraints) : db'.Constraints := by
  have hkey : ∀ {κ : Type} (f : Uuid × (Channel × String × String) → κ),
      Table.Unique (fun c : ConversationRecord => some (f (c.id, c.identity))) db.conversations →
      Table.Unique (fun c : ConversationRecord => some (f (c.id, c.identity))) db'.conversations := by
    intro κ f hf
    have hmap : ∀ rows : List ConversationRecord,
        rows.filterMap (fun c => some (f (c.id, c.identity))) =
          (rows.map fun c => (c.id, c.identity)).map f := by
      intro rows
      rw [List.map_map, ← List.filterMap_eq_map]
      rfl
    rw [Table.Unique, hmap] at hf ⊢
    rw [h.conversations]
    exact hf
  refine ⟨hkey Prod.fst hu.conversation_id, hkey Prod.snd hu.conversation_identity, ?_, ?_⟩
  · rw [h.messages]
    exact hu.message_id
  · rw [h.messages]
    exact hu.message_external

theorem needsHuman_sameRows (cid : Uuid) (db : ConversationTables) (handoffs : List HandoffRecord) :
    SameRows db (HandoffRepository.needsHuman cid { db with handoffs := handoffs }) := by
  refine ⟨rfl, ?_⟩
  simp only [HandoffRepository.needsHuman, updateWhere, List.map_map]
  refine List.map_congr_left ?_
  intro c _
  simp only [Function.comp_apply]
  split_ifs <;> rfl

/-- A request for a person stores no message and keeps every conversation. -/
theorem requestHandoff_sameRows {db : ConversationTables} {handoffId cid : Uuid} {now : Time}
    {messageId traceId : String} {r : Bool × ConversationTables}
    (h : requestHandoff db handoffId now cid messageId traceId = .ok r) : SameRows db r.2 := by
  unfold requestHandoff at h
  obtain ⟨request, -, h⟩ := bind_ok h
  unfold HandoffRepository.request at h
  dsimp only at h
  split_ifs at h
  · cases h
    exact needsHuman_sameRows _ db db.handoffs
  · obtain ⟨_, -, hret⟩ := bind_ok h
    cases hret
    exact needsHuman_sameRows _ db _

/-- A composition stores no message and keeps every conversation. -/
theorem composeReply_sameRows (u : Unicode) (ports : Ports) (db : ConversationTables)
    (handoffId : Uuid) (now : Time) (intent : ConversationIntent) (query traceId : String)
    (cid : Uuid) (history : List MessageRecord) (messageId : String) :
    SameRows db (composeReply u ports db handoffId now intent query traceId cid history
      messageId).tables := by
  have hsame : ∀ turn : Turn, turn.tables = db → SameRows db turn.tables := by
    intro turn ht
    rw [ht]
    exact .refl db
  unfold composeReply
  cases turns history with
  | error e => exact hsame _ rfl
  | ok conversation =>
    cases intent with
    | discoverPicks => exact hsame _ (discover_tables ports db query traceId conversation)
    | greeting | explainBuenpick => exact hsame _ (answer_tables ports db _ conversation none)
    | humanHandoff =>
      dsimp only
      cases hr : requestHandoff db handoffId now cid messageId traceId with
      | error e => exact hsame _ rfl
      | ok r =>
        dsimp only
        rw [answer_tables]
        exact requestHandoff_sameRows hr

theorem answer_bounded {ports : Ports} {db : ConversationTables}
    {packet : Except Failure ContextPacket} {conversation : List ConversationTurn}
    {det : Option String} {text : String} {fb : Bool}
    (h : (answer u ports db packet conversation det).reply = .ok (text, fb)) :
    Bounded 1 4096 text := by
  cases packet with
  | error e => cases h
  | ok p =>
    simp only [answer] at h
    cases hout : (ResponseEngine.respond u ports.adapter p conversation det).outcome with
    | error e => simp [hout, Except.map] at h
    | ok out =>
      simp only [hout, Except.map, Except.ok.injEq, Prod.mk.injEq] at h
      exact h.1 ▸ out.text_bounded

theorem discover_bounded {ports : Ports} {db : ConversationTables} {query traceId : String}
    {conversation : List ConversationTurn} {text : String} {fb : Bool}
    (h : (discover u ports db query traceId conversation).reply = .ok (text, fb)) :
    Bounded 1 4096 text := by
  cases hs : ports.search with
  | none =>
    simp only [discover, hs, Except.ok.injEq, Prod.mk.injEq] at h
    exact h.1 ▸ notConfiguredText_bounded
  | some search =>
    by_cases ht : Bounded 1 128 traceId
    · rw [discover_eq ports db query ht, hs] at h
      cases hq : search query with
      | error e =>
        simp only [hq, Except.ok.injEq, Prod.mk.injEq] at h
        have hb := e.userSafeMessage_bounded
        exact h.1 ▸ ⟨hb.1, le_trans hb.2 (by decide)⟩
      | ok response =>
        cases he : responseEvidence u response with
        | error e =>
          simp only [hq, he] at h
          cases h
        | ok evidence =>
          simp only [hq, he] at h
          exact answer_bounded h
    · rw [discover_untraced hs db query ht] at h
      cases h

/-- Whatever a composition returns fits the contracts that carry it on. -/
theorem composeReply_bounded {ports : Ports} {db : ConversationTables} {handoffId : Uuid}
    {now : Time} {intent : ConversationIntent} {query traceId : String} {cid : Uuid}
    {history : List MessageRecord} {messageId text : String} {fb : Bool}
    (h : (composeReply u ports db handoffId now intent query traceId cid history messageId).reply =
      .ok (text, fb)) : Bounded 1 4096 text := by
  unfold composeReply at h
  cases hts : turns history with
  | error e =>
    simp only [hts] at h
    cases h
  | ok conversation =>
    cases intent with
    | discoverPicks =>
      simp only [hts] at h
      exact discover_bounded h
    | greeting | explainBuenpick =>
      simp only [hts] at h
      exact answer_bounded h
    | humanHandoff =>
      cases hr : requestHandoff db handoffId now cid messageId traceId with
      | error e =>
        simp only [hts, hr] at h
        cases h
      | ok r =>
        simp only [hts, hr] at h
        exact answer_bounded h

/-- What the composition step of a call leaves: the same rows, and a text and a trace
that fit. -/
theorem composeFor_spec (u : Unicode) (ports : Ports) (db : ConversationTables) (handoffId : Uuid)
    (now : Time) (message : InboundMessage) (cid : Uuid) (history : List MessageRecord) :
    SameRows db (composeFor u ports db handoffId now message cid history).tables ∧
      ∀ text fb, (composeFor u ports db handoffId now message cid history).reply = .ok (text, fb) →
        Bounded 1 4096 text ∧ Bounded 1 128 (traceOf message.messageId) := by
  cases he : emit (traceOf message.messageId)
      (ConversationIntentResolver.resolve u (message.text.getD "")).value with
  | error e =>
    simp only [composeFor, he]
    exact ⟨.refl db, fun _ _ h => by cases h⟩
  | ok _ =>
    have htrace : Bounded 1 128 (traceOf message.messageId) := by
      unfold emit at he
      split_ifs at he with hb
      exact hb.1
    simp only [composeFor, he]
    exact ⟨composeReply_sameRows u ports db _ _ _ _ _ _ _ _,
      fun _ _ h => ⟨composeReply_bounded h, htrace⟩⟩

/-- A message without text is never answered. -/
theorem composeFor_empty (u : Unicode) (ports : Ports) (db : ConversationTables) (handoffId : Uuid)
    (now : Time) {message : InboundMessage} (htext : message.text.getD "" = "") (cid : Uuid)
    (history : List MessageRecord) :
    ∃ e, (composeFor u ports db handoffId now message cid history).reply = .error e := by
  simp only [composeFor, htext, resolve_empty]
  cases emit (traceOf message.messageId) ConversationIntent.explainBuenpick.value with
  | error e => exact ⟨e, rfl⟩
  | ok _ =>
    simp only [composeReply]
    cases turns history with
    | error e => exact ⟨e, rfl⟩
    | ok conversation =>
      simp only [explainPacket_empty]
      exact ⟨_, rfl⟩

theorem replyId_length (messageId : String) : (replyId messageId).length = 11 + messageId.length := by
  have h11 : "piki-reply:".length = 11 := by decide
  delta replyId
  rw [String.length_append, h11]

/-- Recording never fails on a usable database. -/
theorem recordReply_returns {db : ConversationTables} {id : Uuid} {now : Time}
    {message : InboundMessage} {cid : Uuid} {text : String} {fb : Bool}
    (hid : message.messageId.length ≤ 115) (hfresh : ∀ m ∈ db.messages, m.id ≠ id)
    (hconv : ∃ c ∈ db.conversations, c.id = cid) (htext : Bounded 1 4096 text) :
    ∃ reply, (recordReply u db id now message cid text fb).2 = .ok reply := by
  have ht := (traceOf_bounded_iff message.messageId).mpr hid
  have hout : ∃ p, recordOutbound db id now cid text (traceOf message.messageId)
      (replyId message.messageId) = .ok p :=
    recordOutbound_returns (by rw [replyId_length]; omega) ht.2 hfresh hconv
  obtain ⟨p, hp⟩ := hout
  simp only [recordReply, hp, ConversationReply.make, dif_pos (And.intro htext ht)]
  exact ⟨_, rfl⟩

/-- What a recorded reply says, and the row that was stored for it or stood there. -/
theorem recordReply_ok {db : ConversationTables} {id : Uuid} {now : Time}
    {message : InboundMessage} {cid : Uuid} {text : String} {fb : Bool} {reply : ConversationReply}
    (h : (recordReply u db id now message cid text fb).2 = .ok reply) :
    reply.text = text ∧ ∃ p, recordOutbound db id now cid text (traceOf message.messageId)
      (replyId message.messageId) = .ok (p, (recordReply u db id now message cid text fb).1) := by
  delta recordReply at h ⊢
  cases hout : recordOutbound db id now cid text (traceOf message.messageId)
      (replyId message.messageId) with
  | error e =>
    simp only [hout] at h
    cases h
  | ok r =>
    simp only [hout] at h
    unfold ConversationReply.make at h
    split_ifs at h
    cases h
    exact ⟨rfl, r.1, rfl⟩

/-- A stored reply with text is returned from a readable database. -/
theorem storedReply_returns {db : ConversationTables} (hr : Readable db) {message : InboundMessage}
    {existing : MessageRecord} (hf : findReply db message.messageId = some existing) (cid : Uuid) :
    ∃ reply, storedReply u message cid existing = .ok reply := by
  obtain ⟨hfind, ht⟩ := Option.filter_eq_some_iff.mp hf
  obtain ⟨htext, htrace⟩ := hr existing (findMessage_some hfind).1
  rw [storedReply, ConversationReply.make, dif_pos ⟨truthy_bounded ht htext, htrace⟩]
  exact ⟨_, rfl⟩

theorem storedReply_text {message : InboundMessage} {cid : Uuid} {existing : MessageRecord}
    {reply : ConversationReply} (h : storedReply u message cid existing = .ok reply) :
    reply.text = existing.contentText.getD "" := by
  unfold storedReply ConversationReply.make at h
  split_ifs at h
  cases h
  rfl

example : replyId "wamid.1" = "piki-reply:wamid.1" := by decide +kernel

theorem findReply_some {db : ConversationTables} {messageId : String} {m : MessageRecord}
    (h : findReply db messageId = some m) :
    m ∈ db.messages ∧ m.externalMessageId = some (replyId messageId) ∧
      truthy m.contentText = true := by
  obtain ⟨hfind, ht⟩ := Option.filter_eq_some_iff.mp h
  obtain ⟨hm, he⟩ := findMessage_some hfind
  exact ⟨hm, he, ht⟩

theorem truthy_eq_some {s : Option String} (h : truthy s = true) : s = some (s.getD "") := by
  cases s with
  | none => cases h
  | some t => rfl

/-- A text that can be composed: it is not empty, and what the search returned for it
fits. -/
def Composable (u : Unicode) (ports : Ports) (message : InboundMessage) : Prop :=
  message.text.getD "" ≠ "" ∧
    (ConversationIntentResolver.resolve u (message.text.getD "") = .discoverPicks →
      ∀ search response, ports.search = some search →
        search (message.text.getD "") = .ok response →
        SearchFits u (message.text.getD "") (traceOf message.messageId) response)

/-- A call after its first session, when no other call runs in between. -/
def finishCall (u : Unicode) (ports : Ports) (db : ConversationTables) (draw : CallDraw)
    (message : InboundMessage) (conversationId : Uuid) (history : List MessageRecord) :
    ConversationTables × Except Failure ConversationReply :=
  let turn := composeFor u ports db draw.handoffUuid draw.handoffNow message conversationId history
  match turn.reply with
  | .error e => (turn.tables, .error e)
  | .ok (text, usedFallback) =>
    recordReply u turn.tables draw.messageUuid draw.recordNow message conversationId text usedFallback

/-- On a usable database, a call that was opened returns a reply exactly when its
message can be composed. -/
theorem finishCall_returns_iff (ports : Ports) {db : ConversationTables} {draw : CallDraw}
    {message : InboundMessage} {cid : Uuid} (hdb : Usable db cid draw)
    (hid : message.messageId.length ≤ 115) {history : List MessageRecord}
    (hread : ∀ m ∈ history, AtMost 4096 m.contentText) (hlen : history.length ≤ 20) :
    (∃ reply, (finishCall u ports db draw message cid history).2 = .ok reply) ↔
      Composable u ports message := by
  have ht := (traceOf_bounded_iff message.messageId).mpr hid
  have hquery : (message.text.getD "").length ≤ 4096 := by
    cases htext : message.text with
    | none => simp
    | some t => exact message.text_bounded t htext
  have hintent : emit (traceOf message.messageId)
      (ConversationIntentResolver.resolve u (message.text.getD "")).value = .ok () :=
    if_pos ⟨ht, intent_component _⟩
  have hcompose : Returned (composeFor u ports db draw.handoffUuid draw.handoffNow message cid
      history) ↔ Composable u ports message := by
    simp only [composeFor, hintent]
    exact composeReply_returned ports hdb hquery hid hread hlen
  obtain ⟨htables, -⟩ := composeFor_spec u ports db draw.handoffUuid draw.handoffNow message cid
    history
  rw [← hcompose]
  delta finishCall
  generalize composeFor u ports db draw.handoffUuid draw.handoffNow message cid history = turn
    at htables
  constructor
  · rintro ⟨reply, h⟩
    cases hreply : turn.reply with
    | error e => simp [hreply] at h
    | ok r =>
      obtain ⟨text, fb⟩ := r
      simp only [hreply] at h
      exact ⟨text, fb, hreply, (recordReply_ok h).1 ▸ reply.text_bounded⟩
  · rintro ⟨text, fb, hreply, htext⟩
    obtain ⟨c, hc, hcid⟩ := hdb.conversation
    obtain ⟨c', hc', hsame, -⟩ := htables.conversation hc
    simp only [hreply]
    exact recordReply_returns hid (by rw [htables.messages]; exact hdb.message_fresh)
      ⟨c', hc', hsame.trans hcid⟩ htext

/-- A call on a usable database returns a reply exactly when its message can be
answered. -/
theorem respondPersisted_returns_iff (ports : Ports) {db : ConversationTables} {draw : CallDraw}
    (message : InboundMessage) {account : String} {cid : Uuid} (hdb : Usable db cid draw)
    (haccount : Bounded 1 255 account) :
    (∃ reply, (respondPersisted u ports db draw message account cid).2 = .ok reply) ↔
      Answerable u ports db message := by
  have hname : Bounded 1 100 "conversation_worker" := by decide
  by_cases hid : message.messageId.length ≤ 115
  swap
  · refine iff_of_false ?_ fun h => hid h.1
    have ht : ¬ (Bounded 1 128 (traceOf message.messageId) ∧ Bounded 1 100 "conversation_worker") :=
      fun h => hid ((traceOf_bounded_iff _).mp h.1)
    rintro ⟨reply, h⟩
    delta respondPersisted at h
    rw [emit, if_neg ht, error_bind] at h
    cases h
  have ht := (traceOf_bounded_iff message.messageId).mpr hid
  have hemit : emit (traceOf message.messageId) "conversation_worker" = .ok () := if_pos ⟨ht, hname⟩
  have hscope : ∃ scope, ConversationScope.make message.channel account message.conversationId =
      .ok scope := ⟨_, dif_pos ⟨haccount, message.conversationId_bounded⟩⟩
  obtain ⟨scope, hscope⟩ := hscope
  have hlookup : emit (traceOf message.messageId) "conversation_worker" >>= (fun _ =>
      ConversationScope.make message.channel account message.conversationId >>= fun _ =>
      lookupReply u db message cid) = lookupReply u db message cid := by
    rw [hemit, ok_bind, hscope, ok_bind]
  delta respondPersisted
  rw [hlookup]
  cases hf : findReply db message.messageId with
  | some existing =>
    obtain ⟨reply, hreply⟩ := storedReply_returns (u := u) hdb.readable hf cid
    refine iff_of_true ?_ ⟨hid, .inl (by simp [hf])⟩
    simp only [lookupReply, hf, hreply]
    exact ⟨reply, rfl⟩
  | none =>
    obtain ⟨history, hrows, hlen, hread⟩ := recentMessages_ok hdb.readable cid
    have hfresh : lookupReply u db message cid = .ok (.fresh history) := by
      simp only [lookupReply, hf, hrows]
      rfl
    have hanswer : Answerable u ports db message ↔ Composable u ports message := by
      simp [Answerable, Composable, hid, hf]
    rw [hanswer, ← finishCall_returns_iff ports hdb hid hread hlen]
    simp only [hfresh]
    exact Iff.rfl

/-- The message is stored as it was received. -/
def Recorded (db : ConversationTables) (message : InboundMessage) : Prop :=
  ∃ m ∈ db.messages, m.externalMessageId = some message.messageId ∧ m.contentText = message.text

/-- A recorded and claimed message is answered with 1 to 4096 characters if and only
if its id leaves room for the trace, and its reply is stored already or it has text
and what the search returned for it fits. -/
theorem claimed_message_answered_iff (u : Unicode) (ports : Ports) {db claimed : ConversationTables}
    (hu : db.Constraints) {message : InboundMessage} (hrec : Recorded db message) {now : Time}
    {timeout : ℕ} {locked : List Uuid} {job : ClaimedInbound}
    (hclaim : MessageProcessingStore.claimNext db now timeout locked = .ok (some job, claimed))
    (hjob : job.message.messageId = message.messageId) {current : ConversationTables}
    {draw : CallDraw} (husable : Usable current job.conversationRecordId draw) :
    (∃ reply, (respondPersisted u ports current draw job.message job.channelAccountId
        job.conversationRecordId).2 = .ok reply ∧ Bounded 1 4096 reply.text) ↔
      Answerable u ports current message := by
  have hreturns := respondPersisted_returns_iff (u := u) ports job.message husable
    job.channelAccountId_bounded
  have htext : job.message.text = message.text := by
    rcases MessageProcessingStore.claimNext_ok hclaim with ⟨hnone, -⟩ | ⟨j, m, c, hj, hm, -, -, -, hd, -⟩
    · cases hnone
    · cases hj
      obtain ⟨m', hm', hext, ht⟩ := hrec
      have hsame : m = m' :=
        unique_eq hu.message_external hm hm' (hjob ▸ hd.external_id) hext
      rw [hd.text, hsame, ht]
  have hanswer : Answerable u ports current job.message ↔ Answerable u ports current message := by
    simp only [Answerable, hjob, htext]
  rw [← hanswer, ← hreturns]
  constructor
  · rintro ⟨reply, h, -⟩
    exact ⟨reply, h⟩
  · rintro ⟨reply, h⟩
    exact ⟨reply, h, reply.text_bounded⟩

section Samples

/-- Whole seconds since the epoch. -/
def secondsTimestamp : Webhook.Timestamp := fun s =>
  if s ≠ "" ∧ s.toList.all Char.isDigit then
    .ok (((s.toList.foldl (fun n c => 10 * n + (c.toNat - 48)) 0 : ℕ) : ℤ) * 1000000)
  else .error (.webhook "invalid timestamp")

/-- A picture without a caption. -/
def bareImage : MetaMessage :=
  ⟨"wamid.1", "5491100000000", "1700000000", "image", none, some ⟨"media.1", none, none, none⟩, none⟩

def bareImageMessage : InboundMessage :=
  accepted (InboundMessage.make "wamid.1" .whatsapp "5491100000000" "5491100000000" .image none
    1700000000000000
    [("phone_number_id", "phone"), ("meta_message_type", "image"), ("media_id", "media.1")])
    (by decide +kernel)

/-- A greeting as the outbox returns it. -/
def greetingMessage : InboundMessage :=
  accepted (InboundMessage.make "wamid.2" .whatsapp "5491100000000" "5491100000000" .text
    (some "hola") 0 []) (by decide +kernel)

/-- The tables after one message was recorded. -/
def recordedTables (message : InboundMessage) : ConversationTables :=
  ⟨[⟨1, .whatsapp, "phone", "5491100000000", .pikiActive⟩],
    [inboundRow ⟨1, 2, 0, 0⟩ 1 message ("meta:" ++ message.messageId) true], []⟩

def sampleJob (message : InboundMessage) : ClaimedInbound :=
  accepted (ClaimedInbound.make 2 1 "phone" { message with receivedAt := 0, metadata := [] } 1) rfl

def claimedTables (message : InboundMessage) : ConversationTables :=
  MessageProcessingStore.updateMessage (recordedTables message) 2
    (MessageProcessingStore.markProcessing 0)

/-- No search is configured and the model is unavailable. -/
def offlinePorts : Ports := ⟨none, 0, fun _ => .error .unavailable⟩

def sampleDraw : CallDraw := ⟨7, 8, 0, 0⟩

/-- The picture is admitted, recorded and claimed, and then its empty query is refused. -/
theorem bare_image_refused :
    Webhook.normalizeWebhook secondsTimestamp none none
        [⟨"waba", [⟨"phone", [bareImage], []⟩]⟩] = .ok ⟨[bareImageMessage], []⟩ ∧
      recordInbound .empty ⟨1, 2, 0, 0⟩ "phone" bareImageMessage "meta:wamid.1" true =
        .ok (⟨.created, 1, some 2⟩, recordedTables bareImageMessage) ∧
      MessageProcessingStore.claimNext (recordedTables bareImageMessage) 0 60 [] =
        .ok (some (sampleJob bareImageMessage), claimedTables bareImageMessage) ∧
      (respondPersisted .latin1 offlinePorts (claimedTables bareImageMessage) sampleDraw
        (sampleJob bareImageMessage).message "phone" 1).2 = .error (.validation "ContextPacket") := by
  refine ⟨?_, ?_, ?_, ?_⟩ <;> decide

theorem recordedTables_constraints (message : InboundMessage) :
    (recordedTables message).Constraints := by
  refine ⟨?_, ?_, ?_, ?_⟩ <;> simp [Table.Unique, recordedTables, inboundRow]

/-- A greeting is answered while the model is unavailable. -/
theorem greeting_answered :
    ∃ reply, (respondPersisted .latin1 offlinePorts (claimedTables greetingMessage) sampleDraw
      (sampleJob greetingMessage).message "phone" 1).2 = .ok reply ∧ Bounded 1 4096 reply.text := by
  have hclaim : MessageProcessingStore.claimNext (recordedTables greetingMessage) 0 60 [] =
      .ok (some (sampleJob greetingMessage), claimedTables greetingMessage) := by
    decide
  have husable : Usable (claimedTables greetingMessage) 1 sampleDraw := by
    refine ⟨?_, ⟨_, List.mem_cons_self, rfl⟩, ?_, ?_⟩
    · unfold Readable
      decide
    · decide
    · decide
  refine (claimed_message_answered_iff .latin1 offlinePorts
    (recordedTables_constraints greetingMessage) ⟨_, List.mem_cons_self, rfl, rfl⟩ hclaim rfl
    husable).mpr ?_
  refine ⟨by decide, .inr ⟨by decide, ?_⟩⟩
  intro _ search response hs
  cases hs

end Samples

end Piki.ConversationOrchestrator
