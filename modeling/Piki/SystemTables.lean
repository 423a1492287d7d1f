import Piki.HandoffPause
import Piki.WorkerCompletion

/-! What the transactions of the whole system write to the database, and what every
write keeps: rows stay in place, references resolve, and each row points back to the
message it was written for. -/
namespace Piki.System
open Table ConversationRepository ConversationOrchestrator Worker
variable {db db' : Ingress.Tables}

/-- The columns of a conversation that no statement rewrites. -/
def conversationLabel (c : ConversationRecord) : Uuid × Channel × String × String :=
  (c.id, c.identity)

/-- The columns of an attempt that no statement rewrites. -/
def attemptLabel (a : DeliveryAttemptRecord) : Uuid × Uuid × String × String :=
  (a.id, a.conversationId, a.idempotencyKey, a.traceId)

theorem prefix_of_eq {α : Type*} {xs ys : List α} (h : ys = xs) : xs <+: ys := by
  rw [h]

/-- Every table keeps its rows in place, up to statuses, and adds new ones behind. -/
structure Extends (db db' : Ingress.Tables) : Prop where
  conversations : db.conversations.conversations.map conversationLabel <+:
    db'.conversations.conversations.map conversationLabel
  messages : Keeps db.conversations db'.conversations
  handoffs : db.conversations.handoffs <+: db'.conversations.handoffs
  attempts : db.deliveries.attempts.map attemptLabel <+: db'.deliveries.attempts.map attemptLabel
  events : db.deliveries.events <+: db'.deliveries.events

theorem Extends.refl (db : Ingress.Tables) : Extends db db :=
  ⟨List.prefix_refl _, .refl _, List.prefix_refl _, List.prefix_refl _, List.prefix_refl _⟩

theorem Extends.trans {a b c : Ingress.Tables} (hab : Extends a b) (hbc : Extends b c) :
    Extends a c :=
  ⟨hab.conversations.trans hbc.conversations, hab.messages.trans hbc.messages,
    hab.handoffs.trans hbc.handoffs, hab.attempts.trans hbc.attempts, hab.events.trans hbc.events⟩

theorem Extends.conversation (h : Extends db db') {c : ConversationRecord}
    (hc : c ∈ db.conversations.conversations) :
    ∃ c' ∈ db'.conversations.conversations, c'.id = c.id ∧ c'.identity = c.identity := by
  obtain ⟨c', hc', he⟩ := mem_of_map_prefix h.conversations hc
  exact ⟨c', hc', congrArg Prod.fst he, congrArg Prod.snd he⟩

theorem Extends.attempt (h : Extends db db') {a : DeliveryAttemptRecord}
    (ha : a ∈ db.deliveries.attempts) :
    ∃ a' ∈ db'.deliveries.attempts, attemptLabel a' = attemptLabel a :=
  mem_of_map_prefix h.attempts ha

/-- The inbound message with this id was recorded in this conversation under this trace. -/
def Admitted (db : ConversationTables) (messageId : String) (cid : Uuid) (traceId : String) : Prop :=
  ∃ m ∈ db.messages, m.direction = .inbound ∧ m.externalMessageId = some messageId ∧
    m.conversationId = cid ∧ m.traceId = traceId

def Received (db : ConversationTables) (messageId : String) (cid : Uuid) : Prop :=
  ∃ traceId, Admitted db messageId cid traceId

theorem Admitted.keeps {db db' : ConversationTables} {messageId traceId : String} {cid : Uuid}
    (h : Admitted db messageId cid traceId) (hk : Keeps db db') :
    Admitted db' messageId cid traceId := by
  obtain ⟨m, hm, hdir, hext, hcid, htrace⟩ := h
  obtain ⟨m', hm', hc⟩ := hk.mem hm
  exact ⟨m', hm', (content_field MessageRecord.direction (fun _ => rfl) hc).trans hdir,
    (content_external hc).trans hext,
    (content_field MessageRecord.conversationId (fun _ => rfl) hc).trans hcid,
    (content_field MessageRecord.traceId (fun _ => rfl) hc).trans htrace⟩

theorem Received.keeps {db db' : ConversationTables} {messageId : String} {cid : Uuid}
    (h : Received db messageId cid) (hk : Keeps db db') : Received db' messageId cid :=
  h.imp fun _ ha => ha.keeps hk

/-- The trace of a reply: that of its turn, unless the client of another message had
chosen the reply id for its own. -/
def ReplyTrace (db : ConversationTables) (messageId traceId : String) : Prop :=
  traceId = traceOf messageId ∨ ∃ m ∈ db.messages, m.direction = .inbound ∧
    m.externalMessageId = some (replyId messageId) ∧ m.traceId = traceId

theorem ReplyTrace.keeps {db db' : ConversationTables} {messageId traceId : String}
    (h : ReplyTrace db messageId traceId) (hk : Keeps db db') :
    ReplyTrace db' messageId traceId := by
  refine h.imp_right ?_
  rintro ⟨m, hm, hdir, hext, htrace⟩
  obtain ⟨m', hm', hc⟩ := hk.mem hm
  exact ⟨m', hm', (content_field MessageRecord.direction (fun _ => rfl) hc).trans hdir,
    (content_external hc).trans hext,
    (content_field MessageRecord.traceId (fun _ => rfl) hc).trans htrace⟩

/-- An attempt with this id and this trace is stored. -/
def Tried (d : DeliveryTables) (id : Uuid) (traceId : String) : Prop :=
  ∃ a ∈ d.attempts, a.id = id ∧ a.traceId = traceId

theorem Tried.extends (h : Extends db db') {id : Uuid} {traceId : String}
    (ht : Tried db.deliveries id traceId) : Tried db'.deliveries id traceId := by
  obtain ⟨a, ha, hid, htrace⟩ := ht
  obtain ⟨a', ha', he⟩ := h.attempt ha
  simp only [attemptLabel, Prod.mk.injEq] at he
  exact ⟨a', ha', he.1.trans hid, he.2.2.2.trans htrace⟩

/-- What one transaction writes, with what its issuer knows of the stored rows. -/
inductive Write (db : Ingress.Tables) : Ingress.Tables → Prop
  | inbound {draw : Draw} {account traceId : String} {message : InboundMessage} {enqueue : Bool}
      {p : PersistedInbound} {conversations : ConversationTables}
      (htrace : traceId = if enqueue then "meta:" ++ message.messageId
        else traceOf message.messageId)
      (h : recordInbound db.conversations draw account message traceId enqueue =
        .ok (p, conversations)) :
    Write db { db with conversations := conversations }
  | handoff {id : Uuid} {now : Time} {request : HandoffRequest} {created : Bool}
      {messageId : String} {conversations : ConversationTables}
      (hm : Received db.conversations messageId request.conversationId)
      (hkey : request.idempotencyKey = "handoff:" ++ messageId)
      (htrace : request.traceId = traceOf messageId)
      (h : HandoffRepository.request db.conversations id now request =
        .ok (created, conversations)) :
    Write db { db with conversations := conversations }
  | reply {id cid : Uuid} {now : Time} {text messageId : String} {p : PersistedOutbound}
      {conversations : ConversationTables} (hm : Received db.conversations messageId cid)
      (h : recordOutbound db.conversations id now cid text (traceOf messageId)
        (replyId messageId) = .ok (p, conversations)) :
    Write db { db with conversations := conversations }
  | processing {p : MessageRecord → Bool} {f : MessageRecord → MessageRecord}
      (hf : ∀ m, (f m).content = m.content) (hs : ∀ m, (f m).processingStatus ≠ none)
      (hp : ∀ m ∈ db.conversations.messages, p m = true → m.processingStatus ≠ none) :
    Write db { db with conversations :=
      { db.conversations with messages := (updateWhere p f db.conversations.messages) } }
  | attempt {attemptId cid : Uuid} {request : DeliveryRequest} {messageId : String}
      {claim : DeliveryClaim} {deliveries : DeliveryTables}
      (hm : Admitted db.conversations messageId cid ("meta:" ++ messageId))
      (hkey : request.idempotencyKey = replyKey messageId)
      (htrace : ReplyTrace db.conversations messageId request.traceId)
      (h : DeliveryStore.claim db.deliveries attemptId cid request = .ok (claim, deliveries)) :
    Write db { db with deliveries := deliveries }
  | finalize {now : Time} {attemptId : Uuid} {result : DeliveryResult} {deliveries : DeliveryTables}
      (ha : Tried db.deliveries attemptId result.traceId)
      (h : DeliveryStore.finalize db.deliveries now attemptId result = .ok ((), deliveries)) :
    Write db { db with deliveries := deliveries }
  | callback {callback : MetaStatusUpdate} {attempt : DeliveryAttemptRecord}
      (ha : Tried db.deliveries attempt.id attempt.traceId) :
    Write db { db with deliveries := (DeliveryStore.commitCallback db.deliveries callback attempt).2 }

section Effects

theorem upsertConversation_labels {db db' : ConversationTables} {id cid : Uuid} {channel : Channel}
    {account ext : String} (h : upsertConversation db id channel account ext = .ok (cid, db')) :
    db.conversations.map conversationLabel <+: db'.conversations.map conversationLabel ∧
      db'.handoffs = db.handoffs := by
  rcases upsertConversation_ok h with ⟨rfl, -⟩ | ⟨-, -, -, rfl⟩
  · exact ⟨List.prefix_refl _, rfl⟩
  · refine ⟨?_, rfl⟩
    rw [List.map_append]
    exact List.prefix_append _ _

/-- The conversation that an upsert returns is stored with the identity asked for. -/
theorem upsertConversation_stored {db db' : ConversationTables} {id cid : Uuid} {channel : Channel}
    {account ext : String} (h : upsertConversation db id channel account ext = .ok (cid, db')) :
    ∃ c ∈ db'.conversations, c.id = cid ∧ c.identity = (channel, account, ext) := by
  rcases upsertConversation_ok h with ⟨rfl, c, hc, hident, hid⟩ | ⟨rfl, -, -, rfl⟩
  · exact ⟨c, hc, hid, hident⟩
  · exact ⟨_, List.mem_append_right _ (List.mem_singleton_self _), rfl, rfl⟩

theorem recordInbound_extends {draw : Draw} {account traceId : String} {message : InboundMessage}
    {enqueue : Bool} {p : PersistedInbound} {conversations : ConversationTables}
    (h : recordInbound db.conversations draw account message traceId enqueue =
      .ok (p, conversations)) : Extends db { db with conversations := conversations } := by
  obtain ⟨db₁, hup, hins⟩ := recordInbound_ok h
  obtain ⟨hlabels, hhandoffs⟩ := upsertConversation_labels hup
  have hmessages := upsertConversation_messages hup
  rcases hins with ⟨-, rfl, -⟩ | ⟨-, -, -, rfl⟩
  · exact ⟨hlabels, keeps_of_eq hmessages, by rw [hhandoffs], List.prefix_refl _,
      List.prefix_refl _⟩
  · exact ⟨hlabels, keeps_of_append rfl, by rw [hhandoffs], List.prefix_refl _,
      List.prefix_refl _⟩

/-- All that a committed request for a person can do. -/
theorem request_writes {db db' : ConversationTables} {id : Uuid} {now : Time}
    {request : HandoffRequest} {created : Bool}
    (h : HandoffRepository.request db id now request = .ok (created, db')) :
    ∃ handoffs, db' = HandoffRepository.needsHuman request.conversationId
        { db with handoffs := handoffs } ∧
      ((handoffs = db.handoffs ∧ ∃ x ∈ db.handoffs, x.conversationId = request.conversationId) ∨
        (handoffs = db.handoffs ++ [HandoffRepository.requestRow id now request] ∧
          conflict HandoffRepository.openKey db.handoffs
            (HandoffRepository.requestRow id now request) = none ∧
          ∃ c ∈ db.conversations, c.id = request.conversationId)) := by
  unfold HandoffRepository.request at h
  dsimp only at h
  split_ifs at h with hconflict hany
  · cases h
    obtain ⟨x, hx, hsame⟩ := List.any_eq_true.mp hany
    simp only [HandoffRepository.sameRequest, Bool.and_eq_true, decide_eq_true_eq] at hsame
    exact ⟨db.handoffs, rfl, .inl ⟨rfl, x, hx, hsame.1⟩⟩
  · obtain ⟨_, href, hret⟩ := bind_ok h
    cases hret
    simp only [Bool.or_eq_true, not_or, Option.not_isSome_iff_eq_none] at hconflict
    refine ⟨_, rfl, .inr ⟨rfl, hconflict.2, ?_⟩⟩
    unfold requireReferenced at href
    split_ifs at href with hfound
    obtain ⟨c, hc, hid⟩ := List.any_eq_true.mp hfound
    exact ⟨c, hc, by simpa using hid⟩

theorem request_extends {id : Uuid} {now : Time} {request : HandoffRequest} {created : Bool}
    {conversations : ConversationTables}
    (h : HandoffRepository.request db.conversations id now request = .ok (created, conversations)) :
    Extends db { db with conversations := conversations } := by
  obtain ⟨handoffs, rfl, hrows⟩ := request_writes h
  obtain ⟨hmessages, hlabels⟩ := needsHuman_sameRows request.conversationId db.conversations handoffs
  refine ⟨?_, keeps_of_eq hmessages, ?_, List.prefix_refl _, List.prefix_refl _⟩
  · exact prefix_of_eq hlabels
  · rcases hrows with ⟨rfl, -⟩ | ⟨rfl, -⟩
    · exact List.prefix_refl _
    · exact List.prefix_append _ _

theorem recordOutbound_extends {id cid : Uuid} {now : Time} {text traceId ext : String}
    {p : PersistedOutbound} {conversations : ConversationTables}
    (h : recordOutbound db.conversations id now cid text traceId ext = .ok (p, conversations)) :
    Extends db { db with conversations := conversations } := by
  rcases recordOutbound_ok h with ⟨-, rfl, -⟩ | ⟨-, -, -, rfl⟩
  · exact .refl db
  · exact ⟨List.prefix_refl _, keeps_of_append rfl, List.prefix_refl _, List.prefix_refl _,
      List.prefix_refl _⟩

theorem claim_extends {attemptId cid : Uuid} {request : DeliveryRequest} {claim : DeliveryClaim}
    {deliveries : DeliveryTables}
    (h : DeliveryStore.claim db.deliveries attemptId cid request = .ok (claim, deliveries)) :
    Extends db { db with deliveries := deliveries } := by
  obtain ⟨created, attempt⟩ := claim
  refine ⟨List.prefix_refl _, .refl _, List.prefix_refl _, ?_, ?_⟩ <;>
    rcases DeliveryStore.claim_ok h with ⟨-, rfl, -⟩ | ⟨-, -, -, -, rfl⟩
  · exact List.prefix_refl _
  · rw [List.map_append]
    exact List.prefix_append _ _
  · exact List.prefix_refl _
  · exact List.prefix_refl _

theorem finalize_extends {now : Time} {attemptId : Uuid} {result : DeliveryResult}
    {deliveries : DeliveryTables}
    (h : DeliveryStore.finalize db.deliveries now attemptId result = .ok ((), deliveries)) :
    Extends db { db with deliveries := deliveries } := by
  obtain ⟨-, -, rfl⟩ := DeliveryStore.finalize_ok h
  refine ⟨List.prefix_refl _, .refl _, List.prefix_refl _, ?_, List.prefix_append _ _⟩
  exact prefix_of_eq (map_updateWhere fun _ _ => rfl)

theorem commitCallback_extends (db : Ingress.Tables) (callback : MetaStatusUpdate)
    (attempt : DeliveryAttemptRecord) :
    Extends db { db with deliveries :=
      (DeliveryStore.commitCallback db.deliveries callback attempt).2 } := by
  refine ⟨List.prefix_refl _, .refl _, List.prefix_refl _, ?_, ?_⟩
  · simp only [DeliveryStore.commitCallback]
    split_ifs
    · exact prefix_of_eq (map_updateWhere fun _ _ => rfl)
    · exact List.prefix_refl _
  · rw [Callbacks.commitCallback_events]
    exact List.prefix_append _ _

theorem Write.extends (h : Write db db') : Extends db db' := by
  cases h with
  | inbound htrace h => exact recordInbound_extends h
  | handoff hm hkey htrace h => exact request_extends h
  | reply hm h => exact recordOutbound_extends h
  | processing hf hs hp =>
    exact ⟨List.prefix_refl _, keeps_update hf, List.prefix_refl _, List.prefix_refl _,
      List.prefix_refl _⟩
  | attempt hm hkey htrace h => exact claim_extends h
  | finalize ha h => exact finalize_extends h
  | callback ha => exact commitCallback_extends db _ _

end Effects

end Piki.System
