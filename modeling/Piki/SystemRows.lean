import Piki.SystemTables

/-! Three invariants of the tables and the writes that keep them: references resolve,
traces lead back to the message of a turn, and the status of a conversation tells
whether a person was asked for. -/
namespace Piki.System
open Table ConversationRepository ConversationOrchestrator Worker
variable {db db' : Ingress.Tables}

section References

/-- Every foreign key of the schema names a stored row. -/
structure Referenced (db : Ingress.Tables) : Prop where
  messages : Refers MessageRecord.conversationId db.conversations.messages
    ConversationRecord.id db.conversations.conversations
  handoffs : Refers HandoffRecord.conversationId db.conversations.handoffs
    ConversationRecord.id db.conversations.conversations
  attempts : Refers DeliveryAttemptRecord.conversationId db.deliveries.attempts
    ConversationRecord.id db.conversations.conversations
  events : Refers DeliveryStatusEventRecord.deliveryAttemptId db.deliveries.events
    DeliveryAttemptRecord.id db.deliveries.attempts

theorem Extends.conversation_key (h : Extends db db') :
    ∀ c ∈ db.conversations.conversations, ∃ c' ∈ db'.conversations.conversations, c'.id = c.id := by
  intro c hc
  obtain ⟨c', hc', hid, -⟩ := h.conversation hc
  exact ⟨c', hc', hid⟩

theorem Extends.attempt_key (h : Extends db db') :
    ∀ a ∈ db.deliveries.attempts, ∃ a' ∈ db'.deliveries.attempts, a'.id = a.id := by
  intro a ha
  obtain ⟨a', ha', he⟩ := h.attempt ha
  exact ⟨a', ha', congrArg Prod.fst he⟩

/-- A message that was received belongs to a stored conversation. -/
theorem Referenced.received (h : Referenced db) {messageId : String} {cid : Uuid}
    (hm : Received db.conversations messageId cid) :
    ∃ c ∈ db.conversations.conversations, c.id = cid := by
  obtain ⟨_, m, hm, -, -, rfl, -⟩ := hm
  exact h.messages m hm

/-- The references of the rows that a write leaves as they are. -/
theorem Referenced.extends (h : Referenced db) (he : Extends db db')
    (hmessages : db'.conversations.messages = db.conversations.messages)
    (hhandoffs : db'.conversations.handoffs = db.conversations.handoffs)
    (hdeliveries : db'.deliveries = db.deliveries) : Referenced db' := by
  have hc := he.conversation_key
  refine ⟨?_, ?_, ?_, ?_⟩
  · rw [hmessages]
    exact h.messages.mono hc
  · rw [hhandoffs]
    exact h.handoffs.mono hc
  · rw [hdeliveries]
    exact h.attempts.mono hc
  · rw [hdeliveries]
    exact h.events

theorem Referenced.recordInbound (hr : Referenced db) {draw : Draw} {account traceId : String}
    {message : InboundMessage} {enqueue : Bool} {p : PersistedInbound}
    {conversations : ConversationTables}
    (h : recordInbound db.conversations draw account message traceId enqueue =
      .ok (p, conversations)) : Referenced { db with conversations := conversations } := by
  have he := recordInbound_extends h
  obtain ⟨db₁, hup, hins⟩ := recordInbound_ok h
  have hhandoffs := (upsertConversation_labels hup).2
  obtain ⟨c, hc, hid, -⟩ := upsertConversation_stored hup
  rcases hins with ⟨-, rfl, -⟩ | ⟨-, -, -, rfl⟩
  · exact hr.extends he (upsertConversation_messages hup) hhandoffs rfl
  · refine ⟨(hr.messages.mono he.conversation_key).append ⟨c, hc, hid⟩, ?_,
      hr.attempts.mono he.conversation_key, hr.events⟩
    exact hhandoffs ▸ hr.handoffs.mono he.conversation_key

theorem Referenced.request (hr : Referenced db) {id : Uuid} {now : Time} {request : HandoffRequest}
    {created : Bool} {conversations : ConversationTables}
    (h : HandoffRepository.request db.conversations id now request = .ok (created, conversations)) :
    Referenced { db with conversations := conversations } := by
  have he := request_extends h
  obtain ⟨handoffs, rfl, hrows⟩ := request_writes h
  rcases hrows with ⟨rfl, -⟩ | ⟨rfl, -, c, hc, hid⟩
  · exact hr.extends he rfl rfl rfl
  · obtain ⟨c', hc', hid'⟩ := he.conversation_key c hc
    exact ⟨hr.messages.mono he.conversation_key,
      (hr.handoffs.mono he.conversation_key).append ⟨c', hc', hid'.trans hid⟩,
      hr.attempts.mono he.conversation_key, hr.events⟩

theorem Write.referenced (h : Write db db') (hr : Referenced db) : Referenced db' := by
  have he := h.extends
  cases h with
  | inbound htrace h => exact hr.recordInbound h
  | handoff hm hkey htrace h => exact hr.request h
  | reply hm h =>
    rcases recordOutbound_ok h with ⟨-, rfl, -⟩ | ⟨-, -, -, rfl⟩
    · exact hr
    · exact ⟨hr.messages.append (hr.received hm), hr.handoffs, hr.attempts, hr.events⟩
  | processing hf hs hp =>
    refine ⟨hr.messages.updateWhere fun m => ?_, hr.handoffs, hr.attempts, hr.events⟩
    exact content_field MessageRecord.conversationId (fun _ => rfl) (hf m)
  | @attempt _ _ _ _ claim _ hm hkey htrace h =>
    obtain ⟨created, attempt⟩ := claim
    rcases DeliveryStore.claim_ok h with ⟨-, rfl, -⟩ | ⟨-, -, -, -, rfl⟩
    · exact hr
    · exact ⟨hr.messages, hr.handoffs, hr.attempts.append (hr.received ⟨_, hm⟩),
        hr.events.mono he.attempt_key⟩
  | finalize ha h =>
    obtain ⟨-, -, rfl⟩ := DeliveryStore.finalize_ok h
    obtain ⟨a, ha, hid, -⟩ := ha
    obtain ⟨a', ha', hid'⟩ := he.attempt_key a ha
    exact ⟨hr.messages, hr.handoffs, hr.attempts.updateWhere fun _ => rfl,
      (hr.events.mono he.attempt_key).append ⟨a', ha', hid'.trans hid⟩⟩
  | @callback callback attempt ha =>
    obtain ⟨a, ha, hid, -⟩ := ha
    obtain ⟨a', ha', hid'⟩ := he.attempt_key a ha
    refine ⟨hr.messages, hr.handoffs, ?_, ?_⟩
    · simp only [DeliveryStore.commitCallback]
      split_ifs
      · exact hr.attempts.updateWhere fun _ => rfl
      · exact hr.attempts
    · rw [Callbacks.commitCallback_events]
      exact (hr.events.mono he.attempt_key).append ⟨a', ha', hid'.trans hid⟩

end References

section Traces

/-- How a stored message came about: a webhook delivered it and put it into the outbox,
a call of `respond` recorded it, or it answers a message of its conversation. -/
inductive Traced (db : ConversationTables) (m : MessageRecord) : Prop
  | webhook {messageId : String} (hdir : m.direction = .inbound)
      (hext : m.externalMessageId = some messageId) (htrace : m.traceId = "meta:" ++ messageId)
      (hstatus : m.processingStatus ≠ none)
  | web {messageId : String} (hdir : m.direction = .inbound)
      (hext : m.externalMessageId = some messageId) (htrace : m.traceId = traceOf messageId)
      (hstatus : m.processingStatus = none)
  | reply {messageId : String} (hdir : m.direction = .outbound)
      (hext : m.externalMessageId = some (replyId messageId))
      (htrace : m.traceId = traceOf messageId) (hstatus : m.processingStatus = none)
      (hm : Received db messageId m.conversationId)

/-- Every row leads back to the message that it was written for. -/
structure Correlated (db : Ingress.Tables) : Prop where
  messages : ∀ m ∈ db.conversations.messages, Traced db.conversations m
  handoffs : ∀ h ∈ db.conversations.handoffs, ∃ messageId, h.idempotencyKey = "handoff:" ++ messageId ∧
    h.traceId = traceOf messageId ∧ Received db.conversations messageId h.conversationId
  attempts : ∀ a ∈ db.deliveries.attempts, ∃ messageId, a.idempotencyKey = replyKey messageId ∧
    Admitted db.conversations messageId a.conversationId ("meta:" ++ messageId) ∧
    ReplyTrace db.conversations messageId a.traceId
  events : ∀ e ∈ db.deliveries.events, Tried db.deliveries e.deliveryAttemptId e.traceId

theorem Traced.keeps {db db' : ConversationTables} {m : MessageRecord} (h : Traced db m)
    (hk : Keeps db db') : Traced db' m := by
  cases h with
  | webhook hdir hext htrace hstatus => exact .webhook hdir hext htrace hstatus
  | web hdir hext htrace hstatus => exact .web hdir hext htrace hstatus
  | reply hdir hext htrace hstatus hm => exact .reply hdir hext htrace hstatus (hm.keeps hk)

/-- A rewrite of the processing columns of an enqueued message. -/
theorem Traced.processed {db : ConversationTables} {m m' : MessageRecord} (h : Traced db m)
    (hc : m'.content = m.content) (hs : m.processingStatus ≠ none)
    (hs' : m'.processingStatus ≠ none) : Traced db m' := by
  cases h with
  | webhook hdir hext htrace hstatus =>
    exact .webhook ((content_field MessageRecord.direction (fun _ => rfl) hc).trans hdir)
      ((content_external hc).trans hext)
      ((content_field MessageRecord.traceId (fun _ => rfl) hc).trans htrace) hs'
  | web hdir hext htrace hstatus => exact absurd hstatus hs
  | reply hdir hext htrace hstatus hm => exact absurd hstatus hs

/-- What a write leaves of the rows that were there. -/
theorem Correlated.extends (h : Correlated db) (he : Extends db db') :
    (∀ m ∈ db.conversations.messages, Traced db'.conversations m) ∧
    (∀ x ∈ db.conversations.handoffs, ∃ messageId, x.idempotencyKey = "handoff:" ++ messageId ∧
      x.traceId = traceOf messageId ∧ Received db'.conversations messageId x.conversationId) ∧
    (∀ a ∈ db.deliveries.attempts, ∃ messageId, a.idempotencyKey = replyKey messageId ∧
      Admitted db'.conversations messageId a.conversationId ("meta:" ++ messageId) ∧
      ReplyTrace db'.conversations messageId a.traceId) ∧
    ∀ e ∈ db.deliveries.events, Tried db'.deliveries e.deliveryAttemptId e.traceId := by
  refine ⟨fun m hm => (h.messages m hm).keeps he.messages, ?_, ?_,
    fun e hm => (h.events e hm).extends he⟩
  · intro x hx
    obtain ⟨messageId, hkey, htrace, hm⟩ := h.handoffs x hx
    exact ⟨messageId, hkey, htrace, hm.keeps he.messages⟩
  · intro a ha
    obtain ⟨messageId, hkey, hm, htrace⟩ := h.attempts a ha
    exact ⟨messageId, hkey, hm.keeps he.messages, htrace.keeps he.messages⟩

theorem forall_mem_snoc {α : Type*} {P : α → Prop} {xs : List α} {x : α} (hxs : ∀ y ∈ xs, P y)
    (hx : P x) : ∀ y ∈ xs ++ [x], P y := by
  intro y hy
  rcases List.mem_append.mp hy with hy | hy
  · exact hxs y hy
  · exact List.mem_singleton.mp hy ▸ hx

theorem Correlated.recordInbound (hr : Correlated db) {draw : Draw} {account traceId : String}
    {message : InboundMessage} {enqueue : Bool} {p : PersistedInbound}
    {conversations : ConversationTables}
    (htrace : traceId = if enqueue then "meta:" ++ message.messageId else traceOf message.messageId)
    (h : recordInbound db.conversations draw account message traceId enqueue =
      .ok (p, conversations)) : Correlated { db with conversations := conversations } := by
  obtain ⟨hmessages, hhandoffs, hattempts, hevents⟩ := hr.extends (recordInbound_extends h)
  obtain ⟨db₁, hup, hins⟩ := recordInbound_ok h
  have hrows := upsertConversation_messages hup
  have hsame := (upsertConversation_labels hup).2
  rcases hins with ⟨-, rfl, -⟩ | ⟨-, -, -, rfl⟩
  · exact ⟨hrows ▸ hmessages, hsame ▸ hhandoffs, hattempts, hevents⟩
  · refine ⟨forall_mem_snoc hmessages ?_, hsame ▸ hhandoffs, hattempts, hevents⟩
    cases enqueue with
    | true => exact .webhook rfl rfl htrace (by simp [inboundRow])
    | false => exact .web rfl rfl htrace rfl

theorem Correlated.request (hr : Correlated db) {id : Uuid} {now : Time} {request : HandoffRequest}
    {created : Bool} {messageId : String} {conversations : ConversationTables}
    (hm : Received db.conversations messageId request.conversationId)
    (hkey : request.idempotencyKey = "handoff:" ++ messageId)
    (htrace : request.traceId = traceOf messageId)
    (h : HandoffRepository.request db.conversations id now request = .ok (created, conversations)) :
    Correlated { db with conversations := conversations } := by
  have he := request_extends h
  obtain ⟨hmessages, hhandoffs, hattempts, hevents⟩ := hr.extends he
  obtain ⟨handoffs, rfl, hrows⟩ := request_writes h
  rcases hrows with ⟨rfl, -⟩ | ⟨rfl, -⟩
  · exact ⟨hmessages, hhandoffs, hattempts, hevents⟩
  · exact ⟨hmessages, forall_mem_snoc hhandoffs ⟨messageId, hkey, htrace, hm.keeps he.messages⟩,
      hattempts, hevents⟩

theorem updateWhere_forall {ρ : Type*} {P : ρ → Prop} {p : ρ → Bool} {f : ρ → ρ} {rows : List ρ}
    (hrows : ∀ r ∈ rows, P r) (hf : ∀ r ∈ rows, p r = true → P (f r)) :
    ∀ r ∈ updateWhere p f rows, P r := by
  intro r hr
  obtain ⟨x, hx, rfl⟩ := mem_updateWhere.mp hr
  split_ifs with hp
  · exact hf x hx hp
  · exact hrows x hx

theorem Write.correlated (h : Write db db') (hr : Correlated db) : Correlated db' := by
  have he := h.extends
  obtain ⟨hmessages, hhandoffs, hattempts, hevents⟩ := hr.extends he
  cases h with
  | inbound htrace h => exact hr.recordInbound htrace h
  | handoff hm hkey htrace h => exact hr.request hm hkey htrace h
  | reply hm h =>
    rcases recordOutbound_ok h with ⟨-, rfl, -⟩ | ⟨-, -, -, rfl⟩
    · exact hr
    · refine ⟨forall_mem_snoc hmessages ?_, hhandoffs, hattempts, hevents⟩
      exact .reply rfl rfl rfl rfl (hm.keeps he.messages)
  | processing hf hs hp =>
    refine ⟨updateWhere_forall hmessages fun m hm hpm => ?_, hhandoffs, hattempts, hevents⟩
    exact (hmessages m hm).processed (hf m) (hp m hm hpm) (hs m)
  | @attempt _ _ _ messageId claim _ hm hkey htrace h =>
    obtain ⟨created, attempt⟩ := claim
    rcases DeliveryStore.claim_ok h with ⟨-, rfl, -⟩ | ⟨-, -, -, -, rfl⟩
    · exact hr
    · exact ⟨hmessages, hhandoffs, forall_mem_snoc hattempts ⟨messageId, hkey, hm, htrace⟩,
        hevents⟩
  | finalize ha h =>
    obtain ⟨-, -, rfl⟩ := DeliveryStore.finalize_ok h
    exact ⟨hmessages, hhandoffs, updateWhere_forall hattempts fun a ha _ => hattempts a ha,
      forall_mem_snoc hevents (ha.extends he)⟩
  | @callback callback attempt ha =>
    refine ⟨hmessages, hhandoffs, ?_, ?_⟩
    · simp only [DeliveryStore.commitCallback]
      split_ifs
      · exact updateWhere_forall hattempts fun a ha _ => hattempts a ha
      · exact hattempts
    · rw [Callbacks.commitCallback_events]
      exact forall_mem_snoc hevents (ha.extends he)

end Traces

section Flags

/-- A conversation waits for a person exactly if it has a handoff; handoffs stay as they
were requested, one for a conversation. -/
structure Flagged (db : ConversationTables) : Prop where
  requested : ∀ h ∈ db.handoffs, h.status = .requested
  single : Unique (fun h : HandoffRecord => some h.conversationId) db.handoffs
  status : ∀ c ∈ db.conversations,
    (c.status = .needsHuman ∧ ∃ h ∈ db.handoffs, h.conversationId = c.id) ∨
      (c.status = .pikiActive ∧ ∀ h ∈ db.handoffs, h.conversationId ≠ c.id)

theorem Flagged.recordInbound {db conversations : ConversationTables} (hf : Flagged db)
    (href : Refers HandoffRecord.conversationId db.handoffs ConversationRecord.id db.conversations)
    {draw : Draw} {account traceId : String} {message : InboundMessage} {enqueue : Bool}
    {p : PersistedInbound}
    (h : recordInbound db draw account message traceId enqueue = .ok (p, conversations)) :
    Flagged conversations := by
  obtain ⟨db₁, hup, hins⟩ := recordInbound_ok h
  have hf₁ : Flagged db₁ := by
    rcases upsertConversation_ok hup with ⟨rfl, -⟩ | ⟨-, -, hnew, rfl⟩
    · exact hf
    · refine ⟨hf.requested, hf.single, forall_mem_snoc hf.status (.inr ⟨rfl, ?_⟩)⟩
      intro x hx he
      obtain ⟨c, hc, hid⟩ := href x hx
      exact hnew c hc (hid.trans he)
  rcases hins with ⟨-, rfl, -⟩ | ⟨-, -, -, rfl⟩
  · exact hf₁
  · exact ⟨hf₁.requested, hf₁.single, hf₁.status⟩

/-- The statuses after a request, given the handoffs that it left. -/
theorem Flagged.needsHuman {db : ConversationTables} (hf : Flagged db) {cid : Uuid}
    {handoffs : List HandoffRecord} (hfound : ∃ x ∈ handoffs, x.conversationId = cid)
    (hold : ∀ x ∈ db.handoffs, x ∈ handoffs)
    (hnew : ∀ x ∈ handoffs, x ∈ db.handoffs ∨ x.conversationId = cid) :
    ∀ c ∈ (HandoffRepository.needsHuman cid { db with handoffs := handoffs }).conversations,
      (c.status = .needsHuman ∧ ∃ x ∈ handoffs, x.conversationId = c.id) ∨
        (c.status = .pikiActive ∧ ∀ x ∈ handoffs, x.conversationId ≠ c.id) := by
  intro c' hc'
  obtain ⟨c, hc, rfl⟩ := mem_updateWhere.mp hc'
  split_ifs with hid
  · exact .inl ⟨rfl, (of_decide_eq_true hid) ▸ hfound⟩
  · rcases hf.status c hc with ⟨hs, x, hx, he⟩ | ⟨hs, hno⟩
    · exact .inl ⟨hs, x, hold x hx, he⟩
    · refine .inr ⟨hs, fun x hx he => ?_⟩
      rcases hnew x hx with hx | hx
      · exact hno x hx he
      · exact hid (decide_eq_true (he.symm.trans hx))

theorem Flagged.request {db conversations : ConversationTables} (hf : Flagged db) {id : Uuid}
    {now : Time} {request : HandoffRequest} {created : Bool}
    (h : HandoffRepository.request db id now request = .ok (created, conversations)) :
    Flagged conversations := by
  obtain ⟨handoffs, rfl, hrows⟩ := request_writes h
  rcases hrows with ⟨rfl, hfound⟩ | ⟨rfl, hconflict, -⟩
  · exact ⟨hf.requested, hf.single,
      hf.needsHuman hfound (fun _ hx => hx) fun _ hx => .inl hx⟩
  · refine ⟨forall_mem_snoc hf.requested rfl, unique_append hf.single ?_, hf.needsHuman
      ⟨_, List.mem_append_right _ (List.mem_singleton_self _), rfl⟩
      (fun _ hx => List.mem_append_left _ hx) ?_⟩
    · rw [conflict_eq_none] at hconflict ⊢
      intro k hk x hx he
      have hopen : HandoffRepository.openKey x = some k := by
        rw [HandoffRepository.openKey, if_pos (by simp [HandoffRepository.isOpen, hf.requested x hx])]
        exact he
      exact hconflict k hk x hx hopen
    · intro x hx
      rcases List.mem_append.mp hx with hx | hx
      · exact .inl hx
      · exact .inr (List.mem_singleton.mp hx ▸ rfl)

theorem Write.flagged (h : Write db db') (hr : Referenced db) (hf : Flagged db.conversations) :
    Flagged db'.conversations := by
  cases h with
  | inbound htrace h => exact hf.recordInbound hr.handoffs h
  | handoff hm hkey htrace h => exact hf.request h
  | reply hm h =>
    rcases recordOutbound_ok h with ⟨-, rfl, -⟩ | ⟨-, -, -, rfl⟩
    · exact hf
    · exact ⟨hf.requested, hf.single, hf.status⟩
  | processing hf' hs hp => exact ⟨hf.requested, hf.single, hf.status⟩
  | attempt | finalize | callback => exact hf

end Flags

section Keys

theorem request_constraints {db conversations : ConversationTables} (hu : db.Constraints) {id : Uuid}
    {now : Time} {request : HandoffRequest} {created : Bool}
    (h : HandoffRepository.request db id now request = .ok (created, conversations)) :
    conversations.Constraints := by
  obtain ⟨handoffs, rfl, -⟩ := request_writes h
  exact (needsHuman_sameRows _ db handoffs).constraints hu

theorem Write.constraints (h : Write db db') (hu : db.conversations.Constraints) :
    db'.conversations.Constraints := by
  cases h with
  | inbound htrace h => exact recordInbound_constraints hu h
  | handoff hm hkey htrace h => exact request_constraints hu h
  | reply hm h => exact recordOutbound_constraints hu h
  | processing hf hs hp => exact constraints_update hf hu
  | attempt | finalize | callback => exact hu

theorem Write.uniqueAttempts (h : Write db db') (hu : UniqueAttempts db.deliveries) :
    UniqueAttempts db'.deliveries := by
  cases h with
  | inbound | handoff | reply | processing => exact hu
  | @attempt _ _ _ _ claim _ hm hkey htrace h =>
    obtain ⟨created, attempt⟩ := claim
    rcases DeliveryStore.claim_ok h with ⟨-, rfl, -⟩ | ⟨-, -, hkey, hid, rfl⟩
    · exact hu
    · exact hu.append hkey hid
  | finalize ha h => exact hu.of_keys (finalize_keys h)
  | callback ha => exact hu.of_keys (commitCallback_keys _ _ _)

end Keys

/-- The invariant of the tables. -/
structure Consistent (db : Ingress.Tables) : Prop where
  constraints : db.conversations.Constraints
  attempts : UniqueAttempts db.deliveries
  references : Referenced db
  traces : Correlated db
  flags : Flagged db.conversations

theorem consistent_empty : Consistent ⟨.empty, .empty⟩ where
  constraints := ConversationTables.empty_constraints
  attempts := ⟨unique_nil _, unique_nil _⟩
  references := ⟨refers_nil _ _ _, refers_nil _ _ _, refers_nil _ _ _, refers_nil _ _ _⟩
  traces := ⟨List.forall_mem_nil _, List.forall_mem_nil _, List.forall_mem_nil _,
    List.forall_mem_nil _⟩
  flags := ⟨List.forall_mem_nil _, unique_nil _, List.forall_mem_nil _⟩

/-- No write breaks the invariant. -/
theorem Write.consistent (h : Write db db') (hc : Consistent db) : Consistent db' :=
  ⟨h.constraints hc.constraints, h.uniqueAttempts hc.attempts, h.referenced hc.references,
    h.correlated hc.traces, h.flagged hc.references hc.flags⟩

/-- The writes of one step of the system, which may be several transactions. -/
abbrev Writes : Ingress.Tables → Ingress.Tables → Prop := Relation.ReflTransGen Write

theorem Writes.extends (h : Writes db db') : Extends db db' := by
  induction h with
  | refl => exact .refl db
  | tail _ hw ih => exact ih.trans hw.extends

theorem Writes.consistent (h : Writes db db') (hc : Consistent db) : Consistent db' := by
  induction h with
  | refl => exact hc
  | tail _ hw ih => exact hw.consistent ih

end Piki.System
