import Piki.Answers
import Piki.DeliveryTruth
import Piki.Worker

/-! What the steps of the system leave of the stored rows: messages keep everything
but their processing fields, attempts keep their id and key. -/
namespace Piki
open Table ConversationRepository ConversationOrchestrator MessageProcessingStore

/-- A message without its processing fields. -/
def MessageRecord.content (m : MessageRecord) : MessageRecord :=
  { m with
    processingStatus := none
    processingAttempts := 0
    processingAvailableAt := none
    processingClaimedAt := none
    processingErrorCode := none }

/-- Stored messages stay in place and keep their content; new ones are added behind. -/
def Keeps (db db' : ConversationTables) : Prop :=
  db.messages.map MessageRecord.content <+: db'.messages.map MessageRecord.content

theorem Keeps.refl (db : ConversationTables) : Keeps db db := List.prefix_refl _

theorem Keeps.trans {a b c : ConversationTables} (hab : Keeps a b) (hbc : Keeps b c) : Keeps a c :=
  List.IsPrefix.trans hab hbc

theorem keeps_of_append {db db' : ConversationTables} {rows : List MessageRecord}
    (h : db'.messages = db.messages ++ rows) : Keeps db db' := by
  unfold Keeps
  rw [h, List.map_append]
  exact List.prefix_append _ _

theorem keeps_of_eq {db db' : ConversationTables} (h : db'.messages = db.messages) : Keeps db db' :=
  keeps_of_append (h.trans (List.append_nil _).symm)

theorem keeps_update {db : ConversationTables} {p : MessageRecord → Bool}
    {f : MessageRecord → MessageRecord} (hf : ∀ m, (f m).content = m.content) :
    Keeps db { db with messages := updateWhere p f db.messages } := by
  unfold Keeps
  rw [map_updateWhere fun m _ => hf m]

theorem Keeps.mem {db db' : ConversationTables} (h : Keeps db db') {m : MessageRecord}
    (hm : m ∈ db.messages) : ∃ m' ∈ db'.messages, m'.content = m.content :=
  List.mem_map.mp (h.subset (List.mem_map.mpr ⟨m, hm, rfl⟩))

/-- Two rows of the same content agree on every field of it. -/
theorem content_field {α : Type} (g : MessageRecord → α) (hg : ∀ m, g m.content = g m)
    {m m' : MessageRecord} (h : m'.content = m.content) : g m' = g m := by
  rw [← hg m', h, hg m]

theorem content_id {m m' : MessageRecord} (h : m'.content = m.content) : m'.id = m.id :=
  content_field MessageRecord.id (fun _ => rfl) h

theorem content_external {m m' : MessageRecord} (h : m'.content = m.content) :
    m'.externalMessageId = m.externalMessageId :=
  content_field MessageRecord.externalMessageId (fun _ => rfl) h

theorem constraints_update {db : ConversationTables} {p : MessageRecord → Bool}
    {f : MessageRecord → MessageRecord} (hf : ∀ m, (f m).content = m.content)
    (hu : db.Constraints) :
    ConversationTables.Constraints { db with messages := updateWhere p f db.messages } :=
  ⟨hu.conversation_id, hu.conversation_identity,
    unique_updateWhere (fun m _ => congrArg some (content_id (hf m))) hu.message_id,
    unique_updateWhere (fun m _ => content_external (hf m)) hu.message_external⟩

theorem recordMessages_keeps {draws : ℕ → Draw} {db db' : ConversationTables}
    {messages : List InboundMessage} {statuses : List PersistStatus}
    (h : Ingress.recordMessages draws db messages = .ok (statuses, db')) : Keeps db db' := by
  obtain ⟨rows, hrows, -⟩ := Ingress.recordMessages_rows h
  exact keeps_of_append hrows

/-- The last session of a reply adds at most one row, which is not enqueued. -/
theorem recordReply_rows (u : Text.Unicode) (db : ConversationTables) (id : Uuid) (now : Time)
    (message : InboundMessage) (cid : Uuid) (text : String) (fb : Bool) :
    ∃ rows, (recordReply u db id now message cid text fb).1.messages = db.messages ++ rows ∧
      ∀ m ∈ rows, m = outboundRow id now cid text (traceOf message.messageId)
        (replyId message.messageId) := by
  delta recordReply
  cases hout : recordOutbound db id now cid text (traceOf message.messageId)
      (replyId message.messageId) with
  | error e => exact ⟨[], by simp, by simp⟩
  | ok r =>
    obtain ⟨p, db'⟩ := r
    rcases recordOutbound_ok hout with ⟨-, rfl, -⟩ | ⟨-, -, -, rfl⟩
    · exact ⟨[], by simp, by simp⟩
    · exact ⟨[_], rfl, by simp⟩

theorem recordReply_conversations (u : Text.Unicode) (db : ConversationTables) (id : Uuid)
    (now : Time) (message : InboundMessage) (cid : Uuid) (text : String) (fb : Bool) :
    (recordReply u db id now message cid text fb).1.conversations = db.conversations := by
  delta recordReply
  cases hout : recordOutbound db id now cid text (traceOf message.messageId)
      (replyId message.messageId) with
  | error e => rfl
  | ok r =>
    obtain ⟨p, db'⟩ := r
    rcases recordOutbound_ok hout with ⟨-, rfl, -⟩ | ⟨-, -, -, rfl⟩ <;> rfl

theorem recordReply_keeps (u : Text.Unicode) (db : ConversationTables) (id : Uuid) (now : Time)
    (message : InboundMessage) (cid : Uuid) (text : String) (fb : Bool) :
    Keeps db (recordReply u db id now message cid text fb).1 := by
  obtain ⟨rows, hrows, -⟩ := recordReply_rows u db id now message cid text fb
  exact keeps_of_append hrows

theorem recordReply_constraints (u : Text.Unicode) {db : ConversationTables} (hu : db.Constraints)
    (id : Uuid) (now : Time) (message : InboundMessage) (cid : Uuid) (text : String) (fb : Bool) :
    (recordReply u db id now message cid text fb).1.Constraints := by
  delta recordReply
  cases hout : recordOutbound db id now cid text (traceOf message.messageId)
      (replyId message.messageId) with
  | error e => exact hu
  | ok r => exact recordOutbound_constraints hu hout

/-- Ending a claim is one guarded rewrite of processing fields. -/
theorem settle_updates {db db' : ConversationTables} {now : Time} {job : ClaimedInbound}
    {result : DeliveryResult} (h : Worker.settleJob db now job result = .ok ((), db')) :
    ∃ status errorCode availableAt,
      transition db job.messageRecordId status errorCode availableAt = .ok ((), db') := by
  unfold Worker.settleJob at h
  split_ifs at h
  · exact ⟨_, _, _, h⟩
  · exact ⟨_, _, _, h⟩

theorem fail_updates {db db' : ConversationTables} {now : Time} {id : Uuid} {errorCode : ErrorCode}
    {retry : Bool} (h : fail db now id errorCode retry = .ok ((), db')) :
    ∃ status errorCode availableAt, transition db id status errorCode availableAt = .ok ((), db') := by
  unfold fail at h
  split_ifs at h
  · exact ⟨_, _, _, h⟩
  · exact ⟨_, _, _, h⟩

/-- The columns of an attempt that no statement rewrites. -/
def attemptKey (a : DeliveryAttemptRecord) : Uuid × String := (a.id, a.idempotencyKey)

theorem finalize_keys {db db' : DeliveryTables} {now : Time} {attemptId : Uuid}
    {result : DeliveryResult} (h : DeliveryStore.finalize db now attemptId result = .ok ((), db')) :
    db'.attempts.map attemptKey = db.attempts.map attemptKey := by
  obtain ⟨-, -, rfl⟩ := DeliveryStore.finalize_ok h
  exact map_updateWhere fun _ _ => rfl

theorem commitCallback_keys (db : DeliveryTables) (callback : MetaStatusUpdate)
    (attempt : DeliveryAttemptRecord) :
    (DeliveryStore.commitCallback db callback attempt).2.attempts.map attemptKey =
      db.attempts.map attemptKey := by
  simp only [DeliveryStore.commitCallback]
  split_ifs
  · exact map_updateWhere fun _ _ => rfl
  · rfl

theorem callback_keys {s t : Callbacks.State} {l : Callbacks.Label}
    (h : Callbacks.step s l = some t) :
    t.tables.attempts.map attemptKey = s.tables.attempts.map attemptKey := by
  rcases DeliveryTruth.callback_tables h with he | ⟨n, callback, attempt, -, he⟩
  · rw [he]
  · rw [he]
    exact commitCallback_keys s.tables callback attempt

namespace Worker
variable {cfg : Config} {s t : State}

/-- No move touches the content of a stored message, or breaks a constraint. -/
theorem Move.messages {a : Action} {p q : Phase} {db : ConversationTables} {d : DeliveryTables}
    {sent : List DeliveryRequest} (h : Move cfg s a p q db d sent) :
    Keeps s.conversations db ∧ (s.conversations.Constraints → db.Constraints) := by
  have hsame : Keeps s.conversations s.conversations ∧
      (s.conversations.Constraints → s.conversations.Constraints) := ⟨.refl _, id⟩
  have htransition : ∀ {id status errorCode availableAt db},
      transition s.conversations id status errorCode availableAt = .ok ((), db) →
      Keeps s.conversations db ∧ (s.conversations.Constraints → db.Constraints) := by
    intro id status errorCode availableAt db ht
    obtain ⟨-, rfl⟩ := transition_ok ht
    exact ⟨keeps_update fun _ => rfl, constraints_update fun _ => rfl⟩
  cases h with
  | lapse | acquire | stored | fresh | release | created | replayed | invoke | receive | finalize =>
    exact hsame
  | claim hq h =>
    rcases claimNext_ok h with ⟨hn, -⟩ | ⟨j, m, c, -, -, -, -, -, -, rfl⟩
    · cases hn
    · exact ⟨keeps_update fun _ => rfl, constraints_update fun _ => rfl⟩
  | @compose _ job _ _ history ports handoffId now hq =>
    obtain ⟨hrows, -⟩ := composeFor_spec cfg.unicode ports s.conversations handoffId now job.message
      job.conversationRecordId history
    exact ⟨keeps_of_eq hrows.messages, hrows.constraints⟩
  | record id now hq =>
    exact ⟨recordReply_keeps _ _ _ _ _ _ _ _, fun hu => recordReply_constraints _ hu _ _ _ _ _ _⟩
  | settle h hq =>
    obtain ⟨status, errorCode, availableAt, ht⟩ := settle_updates h
    exact htransition ht
  | fail h hq =>
    obtain ⟨status, errorCode, availableAt, ht⟩ := fail_updates h
    exact htransition ht

/-- A move adds the attempt of a new key, or adds no attempt at all. -/
theorem Move.attempts {a : Action} {p q : Phase} {db : ConversationTables} {d : DeliveryTables}
    {sent : List DeliveryRequest} (h : Move cfg s a p q db d sent) :
    d.attempts.map attemptKey = s.deliveries.tables.attempts.map attemptKey ∨
    ∃ row, d.attempts = s.deliveries.tables.attempts ++ [row] ∧
      (∀ a ∈ s.deliveries.tables.attempts, a.idempotencyKey ≠ row.idempotencyKey) ∧
      ∀ a ∈ s.deliveries.tables.attempts, a.id ≠ row.id := by
  cases h with
  | lapse | claim | acquire | stored | fresh | compose | record | release | invoke | receive
  | settle | fail => exact .inl rfl
  | finalize h hq => exact .inl (finalize_keys h)
  | created hrequest h hq =>
    rcases DeliveryStore.claim_ok h with ⟨hc, -⟩ | ⟨-, -, hkey, hid, rfl⟩
    · cases hc
    · exact .inr ⟨_, rfl, hkey, hid⟩
  | replayed hrequest h hq =>
    rcases DeliveryStore.claim_ok h with ⟨-, rfl, -⟩ | ⟨hc, -⟩
    · exact .inl rfl
    · cases hc

/-- The status that a worker is about to leave its message in. -/
def Phase.outcome : Phase → Option (ClaimedInbound × ProcessingStatus)
  | .settling job result => some (job, if result.status.isError then .failed else .completed)
  | .failing job _ retry => some (job, if retry then .pending else .failed)
  | _ => none

/-- The two sessions that end a claim. -/
def Action.Reports : Action → Prop
  | .settle _ _ | .fail _ _ => True
  | _ => False

/-- Where a row of the tables after a move comes from. -/
inductive RowFrom (cfg : Config) (s : State) (a : Action) (p : Phase) : MessageRecord → Prop
  | kept {m : MessageRecord} (hm : m ∈ s.conversations.messages) : RowFrom cfg s a p m
  | reply {m : MessageRecord} (hs : m.processingStatus = none) (ha : m.processingAttempts = 0) :
    RowFrom cfg s a p m
  | claimed {m : MessageRecord} {now : Time} {locked : List Uuid} {acked : Bool} {row : Joined}
      (ha : a = .claim now locked acked)
      (hrow : row ∈ eligible s.conversations now cfg.claimTimeoutSeconds locked)
      (hfirst : ∀ other ∈ eligible s.conversations now cfg.claimTimeoutSeconds locked,
        before row.1 other.1 = true)
      (hm : m ∈ s.conversations.messages) (hid : m.id = row.1.id) :
    RowFrom cfg s a p (markProcessing now m)
  | left {m : MessageRecord} {job : ClaimedInbound} {status : ProcessingStatus}
      {errorCode : Option ErrorCode} {availableAt : Option Time}
      (ha : a.Reports) (hp : p.outcome = some (job, status)) (hm : m ∈ s.conversations.messages)
      (hid : m.id = job.messageRecordId) (hs : m.processingStatus = some .processing) :
    RowFrom cfg s a p (leaveProcessing status errorCode availableAt m)

theorem transition_row {a : Action} {p : Phase} {db : ConversationTables} {job : ClaimedInbound}
    {status : ProcessingStatus} {errorCode : Option ErrorCode} {availableAt : Option Time}
    (ha : a.Reports) (hp : p.outcome = some (job, status))
    (h : transition s.conversations job.messageRecordId status errorCode availableAt = .ok ((), db))
    {m : MessageRecord} (hm : m ∈ db.messages) : RowFrom cfg s a p m := by
  obtain ⟨-, rfl⟩ := transition_ok h
  obtain ⟨x, hx, rfl⟩ := mem_updateWhere.mp hm
  split_ifs with hactive
  · obtain ⟨hid, hst⟩ := of_decide_eq_true hactive
    exact .left ha hp hx hid hst
  · exact .kept hx

theorem Move.row {a : Action} {p q : Phase} {db : ConversationTables} {d : DeliveryTables}
    {sent : List DeliveryRequest} (h : Move cfg s a p q db d sent) {m : MessageRecord}
    (hm : m ∈ db.messages) : RowFrom cfg s a p m := by
  cases h with
  | lapse | acquire | stored | fresh | release | created | replayed | invoke | receive
  | finalize => exact .kept hm
  | claim hq hc =>
    obtain ⟨row, hrow, hfirst, rfl⟩ := claimNext_first hc
    obtain ⟨x, hx, rfl⟩ := mem_updateWhere.mp hm
    split_ifs with hid
    · exact .claimed rfl hrow hfirst hx (of_decide_eq_true hid)
    · exact .kept hx
  | compose ports handoffId now hq =>
    obtain ⟨hrows, -⟩ := composeFor_spec cfg.unicode ports s.conversations handoffId now _ _ _
    rw [hrows.messages] at hm
    exact .kept hm
  | record id now hq =>
    obtain ⟨rows, hrows, hall⟩ := recordReply_rows cfg.unicode s.conversations id now _ _ _ _
    rw [hrows] at hm
    rcases List.mem_append.mp hm with hm | hm
    · exact .kept hm
    · rw [hall m hm]
      exact .reply rfl rfl
  | @settle now acked job result _ _ hc hq =>
    have hreports : Action.Reports (.settle now acked) := trivial
    unfold settleJob at hc
    split_ifs at hc with herror
    · exact transition_row hreports (by simp [Phase.outcome, herror]) hc hm
    · exact transition_row hreports (by simp [Phase.outcome, herror]) hc hm
  | @fail now acked job _ _ retry _ hc hq =>
    have hreports : Action.Reports (.fail now acked) := trivial
    unfold MessageProcessingStore.fail at hc
    split_ifs at hc with hretry
    · exact transition_row hreports (by simp [Phase.outcome, hretry]) hc hm
    · exact transition_row hreports (by simp [Phase.outcome, hretry]) hc hm

theorem step_messages {l : Label} (h : step cfg s l = some t) :
    Keeps s.conversations t.conversations ∧
      (s.conversations.Constraints → t.conversations.Constraints) := by
  cases step_stepped h with
  | refused | callback | expire => exact ⟨.refl _, id⟩
  | recorded hr =>
    exact ⟨recordMessages_keeps hr, fun hu => Ingress.recordMessages_constraints hu hr⟩
  | worker locks hact hmove => exact hmove.messages

end Worker
end Piki
