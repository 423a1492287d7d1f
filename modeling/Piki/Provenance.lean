import Piki.Orchestrator

/-! Where the text of a reply comes from, over every route of `_compose_reply`. -/
namespace Piki.ConversationOrchestrator
open Text Evidence
variable {u : Unicode}

/-- The item was made from the response of a successful search. -/
def FromSearch (response : PickSearchResponse) (item : EvidenceItem) : Prop :=
  (response.items = [] ∧ item = noAvailablePicks) ∨
    ∃ indexed ∈ response.items.zipIdx 1, pickEvidence indexed = .ok item

theorem forall₂_mem_right {α β : Type} {R : α → β → Prop} {xs : List α} {ys : List β}
    (h : List.Forall₂ R xs ys) {y : β} (hy : y ∈ ys) : ∃ x ∈ xs, R x y := by
  induction h with
  | nil => simp at hy
  | cons hr _ ih =>
    rcases List.mem_cons.mp hy with rfl | hy
    · exact ⟨_, List.mem_cons_self, hr⟩
    · obtain ⟨x, hx, hxy⟩ := ih hy
      exact ⟨x, List.mem_cons_of_mem _ hx, hxy⟩

theorem pickEvidence_source {indexed : PickSummary × ℕ} {item : EvidenceItem}
    (h : pickEvidence indexed = .ok item) : item.source = .buenpickInternalApi := by
  unfold pickEvidence EvidenceItem.make at h
  split_ifs at h
  cases h
  rfl

/-- Every item that a successful search confirms was returned by it. -/
theorem responseEvidence_ok {response : PickSearchResponse} {evidence : ToolEvidenceBundle}
    (h : responseEvidence u response = .ok evidence) :
    evidence.confirmedData ≠ [] ∧ ∀ item ∈ evidence.confirmedData,
      item.source = .buenpickInternalApi ∧ FromSearch response item := by
  unfold responseEvidence at h
  by_cases hnil : response.items = []
  · rw [if_pos hnil] at h
    cases h
    refine ⟨by simp, ?_⟩
    intro item hi
    rw [List.mem_singleton.mp hi]
    exact ⟨rfl, .inl ⟨hnil, rfl⟩⟩
  · rw [if_neg hnil] at h
    obtain ⟨items, hitems, hret⟩ := bind_ok h
    cases hret
    have hall := mapM_ok.mp hitems
    refine ⟨?_, ?_⟩
    · intro hempty
      have hlen := hall.length_eq
      have hzero : items.length = 0 := by simpa using congrArg List.length hempty
      rw [List.length_zipIdx, hzero] at hlen
      exact hnil (List.eq_nil_of_length_eq_zero hlen)
    · intro item hi
      obtain ⟨indexed, hm, hp⟩ := forall₂_mem_right hall hi
      exact ⟨pickEvidence_source hp, .inr ⟨indexed, hm, hp⟩⟩

/-- The tool turns the client's answer into evidence; a trace that no event accepts
stops it first. -/
theorem search_evidence (search : PickSearch) (latencyMs : ℕ) (query traceId : String) :
    BuenPickTools.searchAvailablePicks search latencyMs query traceId >>= searchResultEvidence u =
      if Bounded 1 128 traceId then
        match search query with
        | .ok response => responseEvidence u response
        | .error e => .ok ⟨[], [e.userSafeMessage], [searchAction .failed]⟩
      else .error (.validation "LifecycleRecord") := by
  have hname : Bounded 1 100 "search_available_picks" := by decide
  by_cases ht : Bounded 1 128 traceId
  · have hemit : emit traceId "search_available_picks" = .ok () := if_pos ⟨ht, hname⟩
    rw [if_pos ht, BuenPickTools.searchAvailablePicks, hemit, ok_bind, ok_bind, dif_pos ht]
    cases hs : search query with
    | ok response => rfl
    | error e =>
      have hmsg : truthy (some e.userSafeMessage) = true := by
        have hpos := e.userSafeMessage_bounded.1
        have hne : e.userSafeMessage ≠ "" := by
          intro he
          rw [he] at hpos
          exact absurd hpos (by decide)
        simpa [truthy] using hne
      simp only [ok_bind, searchResultEvidence, hmsg, if_true, Option.getD_some]
  · have hemit : emit traceId "search_available_picks" = .error (.validation "LifecycleRecord") :=
      if_neg fun h => ht h.1
    rw [if_neg ht, BuenPickTools.searchAvailablePicks, hemit, error_bind]
    rfl

/-- The text is accepted against the packet, or replaces a blocked one. -/
def Grounded (u : Unicode) (packet : ContextPacket) (text : String) : Prop :=
  (Grounding.validate u text packet).safe = true ∨ text = Grounding.factualFallback u packet

/-- The engine's answer to a packet that was built. -/
theorem answer_ok {ports : Ports} {db : ConversationTables} {packet : Except Failure ContextPacket}
    {conversation : List ConversationTurn} {det : Option String} {text : String} {fb : Bool}
    (h : (answer u ports db packet conversation det).reply = .ok (text, fb)) :
    ∃ p, packet = .ok p ∧ (answer u ports db packet conversation det).packet = some p ∧
      Grounded u p text := by
  cases packet with
  | error e => cases h
  | ok p =>
    simp only [answer] at h
    cases hout : (ResponseEngine.respond u ports.adapter p conversation det).outcome with
    | error e => simp [hout, Except.map] at h
    | ok out =>
      simp only [hout, Except.map, Except.ok.injEq, Prod.mk.injEq] at h
      obtain ⟨rfl, -⟩ := h
      exact ⟨p, rfl, rfl, ResponseEngine.respond_provenance hout⟩

theorem answer_blocked {ports : Ports} {db : ConversationTables}
    {packet : Except Failure ContextPacket} {conversation : List ConversationTurn}
    {det : Option String} {p : ContextPacket} {request : CompositionRequest}
    {composed : CompositionResult} {text : String} {fb : Bool}
    (hp : (answer u ports db packet conversation det).packet = some p)
    (hr : (answer u ports db packet conversation det).request = some request)
    (hc : ports.adapter request = .ok composed)
    (hb : (Grounding.validate u composed.text p).safe = false)
    (h : (answer u ports db packet conversation det).reply = .ok (text, fb)) :
    text = Grounding.factualFallback u p ∧ fb = true := by
  cases packet with
  | error e => cases h
  | ok q =>
    simp only [answer, Option.some.injEq] at hp hr h
    subst hp
    cases hout : (ResponseEngine.respond u ports.adapter q conversation det).outcome with
    | error e => simp [hout, Except.map] at h
    | ok out =>
      simp only [hout, Except.map, Except.ok.injEq, Prod.mk.injEq] at h
      obtain ⟨rfl, rfl⟩ := h
      exact ResponseEngine.respond_blocked hr hc hb hout

theorem discoverPacket_ok {query traceId : String} {evidence : ToolEvidenceBundle}
    {packet : ContextPacket} (h : discoverPacket query traceId evidence = .ok packet) :
    packet.confirmedData = evidence.confirmedData := by
  unfold discoverPacket PolicyDefinition.contextPacket at h
  split_ifs at h
  exact (ContextPacket.make_ok h).2.2.1

/-- All that the search route can do: answer without a packet, or from the items
that its search returned. -/
theorem discover_eq (ports : Ports) (db : ConversationTables) (query : String) {traceId : String}
    (ht : Bounded 1 128 traceId) (conversation : List ConversationTurn) :
    discover u ports db query traceId conversation =
      match ports.search with
      | none => ⟨db, none, none, .ok (notConfiguredText, true)⟩
      | some search =>
        match search query with
        | .error e => ⟨db, none, none, .ok (e.userSafeMessage, true)⟩
        | .ok response =>
          match responseEvidence u response with
          | .error e => .raised db e
          | .ok evidence =>
            answer u ports db (discoverPacket query traceId evidence) conversation none := by
  unfold discover
  cases hs : ports.search with
  | none => rfl
  | some search =>
    simp only [search_evidence, if_pos ht]
    cases hq : search query with
    | error e => simp
    | ok response =>
      cases he : responseEvidence u response with
      | error e => simp only [he]
      | ok evidence => simp only [he, (responseEvidence_ok he).1, if_false]

theorem discover_untraced {ports : Ports} {search : PickSearch} (hs : ports.search = some search)
    (db : ConversationTables) (query : String) {traceId : String} (ht : ¬ Bounded 1 128 traceId)
    (conversation : List ConversationTurn) :
    discover u ports db query traceId conversation =
      .raised db (.validation "LifecycleRecord") := by
  simp only [discover, hs, search_evidence, if_neg ht]

/-- The allowed sources of a composed text. -/
structure Provenance (u : Unicode) (ports : Ports) (intent : ConversationIntent) (query : String)
    (turn : Turn) : Prop where
  /-- The text was accepted or built from this turn's packet, or is fixed, or is the
  message of this turn's failed search. -/
  sources : ∀ text fb, turn.reply = .ok (text, fb) →
    (∃ packet, turn.packet = some packet ∧ Grounded u packet text) ∨
    text = notConfiguredText ∨
    ∃ search e, ports.search = some search ∧ search query = .error e ∧ text = e.userSafeMessage
  /-- A text of the model that the validator blocks is replaced as a whole. -/
  blocked : ∀ packet request composed, turn.packet = some packet → turn.request = some request →
    ports.adapter request = .ok composed →
    (Grounding.validate u composed.text packet).safe = false →
    ∀ text fb, turn.reply = .ok (text, fb) →
      text = Grounding.factualFallback u packet ∧ fb = true
  /-- On the search route the model is asked only about items of this turn's
  successful search. -/
  searched : intent = .discoverPicks → ∀ request, turn.request = some request →
    ∃ packet search response, turn.packet = some packet ∧ ports.search = some search ∧
      search query = .ok response ∧ packet.confirmedData ≠ [] ∧
      ∀ item ∈ packet.confirmedData, item.source = .buenpickInternalApi ∧ FromSearch response item

theorem provenance_raised (ports : Ports) (intent : ConversationIntent) (query : String)
    (db : ConversationTables) (e : Failure) :
    Provenance u ports intent query (.raised db e) where
  sources _ _ h := by cases h
  blocked _ _ _ h := by cases h
  searched _ _ h := by cases h

theorem provenance_answer (ports : Ports) {intent : ConversationIntent}
    (hintent : intent ≠ .discoverPicks) (query : String) (db : ConversationTables)
    (packet : Except Failure ContextPacket) (conversation : List ConversationTurn)
    (det : Option String) :
    Provenance u ports intent query (answer u ports db packet conversation det) where
  sources text fb h := by
    obtain ⟨p, -, hp, hg⟩ := answer_ok h
    exact .inl ⟨p, hp, hg⟩
  blocked _ _ _ hp hr hc hb _ _ h := answer_blocked hp hr hc hb h
  searched h := absurd h hintent

theorem provenance_unpacked (ports : Ports) (intent : ConversationIntent) (query : String)
    (db : ConversationTables) {text : String} (fb : Bool)
    (h : text = notConfiguredText ∨ ∃ search e, ports.search = some search ∧
      search query = .error e ∧ text = e.userSafeMessage) :
    Provenance u ports intent query ⟨db, none, none, .ok (text, fb)⟩ where
  sources _ _ hr := by cases hr; exact .inr h
  blocked _ _ _ hp := by cases hp
  searched _ _ hr := by cases hr

theorem provenance_discover (ports : Ports) (db : ConversationTables) (query traceId : String)
    (conversation : List ConversationTurn) :
    Provenance u ports .discoverPicks query (discover u ports db query traceId conversation) := by
  cases hs : ports.search with
  | none =>
    rw [discover, hs]
    exact provenance_unpacked ports _ query db true (.inl rfl)
  | some search =>
    by_cases ht : Bounded 1 128 traceId
    · rw [discover_eq ports db query ht, hs]
      cases hq : search query with
      | error e =>
        simp only [hq]
        exact provenance_unpacked ports _ query db true (.inr ⟨search, e, hs, hq, rfl⟩)
      | ok response =>
        cases he : responseEvidence u response with
        | error e =>
          simp only [hq, he]
          exact provenance_raised ports _ query db e
        | ok evidence =>
          obtain ⟨hne, hall⟩ := responseEvidence_ok he
          simp only [hq, he]
          refine ⟨?_, fun _ _ _ hp hr hc hb _ _ h => answer_blocked hp hr hc hb h, ?_⟩
          · intro text fb h
            obtain ⟨p, -, hp, hg⟩ := answer_ok h
            exact .inl ⟨p, hp, hg⟩
          · intro _ request hreq
            cases hp : discoverPacket query traceId evidence with
            | error e =>
              rw [hp] at hreq
              cases hreq
            | ok p =>
              refine ⟨p, search, response, rfl, hs, hq, ?_, ?_⟩
              · rw [discoverPacket_ok hp]
                exact hne
              · rw [discoverPacket_ok hp]
                exact hall
    · rw [discover_untraced hs db query ht]
      exact provenance_raised ports _ query db _

/-- Every route of a composition ends in an allowed source of text. -/
theorem composeReply_provenance (u : Unicode) (ports : Ports) (db : ConversationTables)
    (handoffId : Uuid) (now : Time) (intent : ConversationIntent) (query traceId : String)
    (conversationId : Uuid) (history : List MessageRecord) (messageId : String) :
    Provenance u ports intent query (composeReply u ports db handoffId now intent query traceId
      conversationId history messageId) := by
  unfold composeReply
  cases turns history with
  | error e => exact provenance_raised ports intent query db e
  | ok conversation =>
    cases intent with
    | humanHandoff =>
      simp only
      cases requestHandoff db handoffId now conversationId messageId traceId with
      | error e => exact provenance_raised ports _ query db e
      | ok r => exact provenance_answer ports (by decide) query _ _ _ _
    | discoverPicks => exact provenance_discover ports db query traceId conversation
    | greeting | explainBuenpick => exact provenance_answer ports (by decide) query _ _ _ _

end Piki.ConversationOrchestrator
