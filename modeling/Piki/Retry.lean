import Piki.Isolation

/-! A call of `respond` that repeats the message of an earlier call. The earlier call,
like any other one, may have stopped before or after each of its sessions. -/
namespace Piki.Retry
open Table Transition ConversationRepository ConversationOrchestrator Isolation
variable {u : Text.Unicode}

/-- `respond` when the lock is granted and no other call runs in between: the tables it
leaves, and what it returned or raised. -/
def respond (u : Text.Unicode) (ports : Ports) (db : ConversationTables) (draw : Draw)
    (calls : CallDraw) (message : InboundMessage) (account : String) :
    ConversationTables × Except Failure ConversationReply :=
  match openCall u db draw account message with
  | .error e => (db, .error e)
  | .ok (.answered reply, db) => (db, .ok reply)
  | .ok (.opened cid history, db) => finishCall u ports db calls message cid history

/-- A call that nobody interrupts is a run of its sessions. -/
theorem respond_exec (ports : Ports) {s : State} {call : ℕ} (hidle : s.calls call = .idle)
    (draw : Draw) (calls : CallDraw) (message : InboundMessage) (account : String) :
    ∃ schedule t, exec (step u) s schedule = some t ∧
      t.tables = (respond u ports s.tables draw calls message account).1 := by
  cases hopen : openCall u s.tables draw account message with
  | error e => exact ⟨[], s, exec_nil _, by simp only [respond, hopen]⟩
  | ok r =>
    obtain ⟨⟨reply⟩ | ⟨cid, history⟩, db⟩ := r
    · refine ⟨[.start call draw account message], s.setCall db call .idle, ?_, ?_⟩
      · exact exec_cons_some.mpr ⟨_, by simp only [step, hidle, hopen], exec_nil _⟩
      · delta respond
        rw [hopen]
        rfl
    · let s₁ := s.setCall db call (.opened message cid history)
      let turn := composeFor u ports db calls.handoffUuid calls.handoffNow message cid history
      have hstart : step u s (.start call draw account message) = some s₁ := by
        simp only [step, hidle, hopen, s₁]
      have hopened : s₁.calls call = .opened message cid history := Function.update_self _ _ _
      delta respond
      rw [hopen]
      cases hreply : turn.reply with
      | error e =>
        have hcompose : step u s₁ (.compose call ports calls.handoffUuid calls.handoffNow) =
            some (s₁.setCall turn.tables call .idle) := by
          simp only [step, hopened, show (composeFor u ports s₁.tables _ _ _ _ _).reply = _ from hreply]
          rfl
        refine ⟨[.start call draw account message,
          .compose call ports calls.handoffUuid calls.handoffNow], _,
          exec_cons_some.mpr ⟨_, hstart, exec_cons_some.mpr ⟨_, hcompose, exec_nil _⟩⟩, ?_⟩
        simp only [finishCall, show (composeFor u ports db _ _ _ _ _).reply = _ from hreply]
        rfl
      | ok r =>
        obtain ⟨text, fb⟩ := r
        let s₂ := s₁.setCall turn.tables call (.composed message cid text fb)
        have hcompose : step u s₁ (.compose call ports calls.handoffUuid calls.handoffNow) =
            some s₂ := by
          simp only [step, hopened, show (composeFor u ports s₁.tables _ _ _ _ _).reply = _ from hreply]
          rfl
        have hcomposed : s₂.calls call = .composed message cid text fb := Function.update_self _ _ _
        have hrecord : step u s₂ (.record call calls.messageUuid calls.recordNow) =
            some (s₂.setCall (recordReply u turn.tables calls.messageUuid calls.recordNow message cid
              text fb).1 call .idle) := by
          simp only [step, hcomposed]
          rfl
        refine ⟨[.start call draw account message,
          .compose call ports calls.handoffUuid calls.handoffNow,
          .record call calls.messageUuid calls.recordNow], _,
          exec_cons_some.mpr ⟨_, hstart, exec_cons_some.mpr ⟨_, hcompose,
            exec_cons_some.mpr ⟨_, hrecord, exec_nil _⟩⟩⟩, ?_⟩
        simp only [finishCall, show (composeFor u ports db _ _ _ _ _).reply = _ from hreply]
        rfl

/-- The generated ids are new. -/
structure Fresh (db : ConversationTables) (draw : Draw) (calls : CallDraw) : Prop where
  conversation : ∀ c ∈ db.conversations, c.id ≠ draw.conversationUuid
  inbound : ∀ m ∈ db.messages, m.id ≠ draw.messageUuid
  outbound : ∀ m ∈ db.messages, m.id ≠ calls.messageUuid
  distinct : draw.messageUuid ≠ calls.messageUuid
  handoff : ∀ h ∈ db.handoffs, h.id ≠ calls.handoffUuid

/-- How many rows a message has in one direction. -/
def rowCount (db : ConversationTables) (externalId : String) (direction : Direction) : ℕ :=
  db.messages.countP fun m => m.externalMessageId = some externalId ∧ m.direction = direction

/-- The call returned a reply, and the message has one inbound and one outbound row. -/
def Recovered (message : InboundMessage)
    (r : ConversationTables × Except Failure ConversationReply) : Prop :=
  (∃ reply, r.2 = .ok reply) ∧ rowCount r.1 message.messageId .inbound = 1 ∧
    rowCount r.1 (replyId message.messageId) .outbound = 1

/-- Some row has this id and this direction. -/
def Has (db : ConversationTables) (externalId : String) (direction : Direction) : Prop :=
  ∃ m ∈ db.messages, m.externalMessageId = some externalId ∧ m.direction = direction

/-- The earlier call stored both its rows, or not even the first one and nothing stands
in the way of the reply. -/
def Retriable (u : Text.Unicode) (ports : Ports) (db : ConversationTables)
    (message : InboundMessage) (account : String) : Prop :=
  Bounded 1 255 account ∧ message.messageId.length ≤ 115 ∧
    ((Has db message.messageId .inbound ∧ ∃ m ∈ db.messages,
        m.externalMessageId = some (replyId message.messageId) ∧ m.direction = .outbound ∧
          truthy m.contentText = true) ∨
      (∀ m ∈ db.messages, m.externalMessageId ≠ some message.messageId) ∧
        (∀ m ∈ db.messages, m.externalMessageId = some (replyId message.messageId) →
          m.direction = .outbound) ∧
        Composable u ports message)

theorem rowCount_eq_one_iff {db : ConversationTables} (hu : db.Constraints) (externalId : String)
    (direction : Direction) :
    rowCount db externalId direction = 1 ↔ Has db externalId direction := by
  have hle : rowCount db externalId direction ≤ 1 :=
    unique_count hu.message_external (k := externalId) fun m hm => (of_decide_eq_true hm).1
  have hpos : 0 < rowCount db externalId direction ↔ Has db externalId direction := by
    simp [rowCount, Has, List.countP_pos_iff]
  rw [← hpos]
  omega

theorem recovered_iff {message : InboundMessage} {db : ConversationTables}
    {outcome : Except Failure ConversationReply} (hu : db.Constraints) :
    Recovered message (db, outcome) ↔ (∃ reply, outcome = .ok reply) ∧
      Has db message.messageId .inbound ∧ Has db (replyId message.messageId) .outbound := by
  rw [Recovered, rowCount_eq_one_iff hu, rowCount_eq_one_iff hu]

theorem not_recovered_error {message : InboundMessage} {db : ConversationTables} {e : Failure} :
    ¬ Recovered message (db, .error e) := by
  rintro ⟨⟨reply, h⟩, -⟩
  cases h

theorem replyId_ne (messageId : String) : replyId messageId ≠ messageId := by
  intro h
  have hlen := replyId_length messageId
  rw [h] at hlen
  omega

theorem enroll_returns_iff {db : ConversationTables} {draw : Draw} {calls : CallDraw}
    (hf : Fresh db draw calls) (message : InboundMessage) (account : String) :
    (∃ r, enroll db draw account message = .ok r) ↔
      Bounded 1 255 account ∧ message.messageId.length ≤ 115 := by
  constructor
  · rintro ⟨r, h⟩
    unfold enroll at h
    obtain ⟨_, hemit, h⟩ := bind_ok h
    obtain ⟨scope, hscope, -⟩ := bind_ok h
    unfold emit at hemit
    unfold ConversationScope.make at hscope
    split_ifs at hemit with ht
    split_ifs at hscope with hs
    exact ⟨hs.1, (traceOf_bounded_iff _).mp ht.1⟩
  · rintro ⟨haccount, hid⟩
    have ht := (traceOf_bounded_iff message.messageId).mpr hid
    have hname : Bounded 1 100 "conversation" := by decide
    obtain ⟨r, hr⟩ : ∃ r, recordInbound db draw account message (traceOf message.messageId) false =
        .ok r := recordInbound_returns message false haccount.2 ht.2 hf.conversation hf.inbound
    refine ⟨r, ?_⟩
    rw [enroll, emit, if_pos ⟨ht, hname⟩, ok_bind, ConversationScope.make,
      dif_pos ⟨haccount, message.conversationId_bounded⟩, ok_bind]
    exact hr

/-- A duplicate without a stored reply is refused. -/
theorem openCall_unanswered {db db' : ConversationTables} {draw : Draw} {account : String}
    {message : InboundMessage} {p : PersistedInbound}
    (henroll : enroll db draw account message = .ok (p, db')) (hs : p.status = .duplicate)
    (hf : findReply db message.messageId = none) :
    openCall u db draw account message = .error (.busy "duplicate message reply is not ready") := by
  have hmsgs := (enroll_duplicate henroll).2 hs
  have hf' : findReply db' message.messageId = none := by
    rw [findReply, findMessage, hmsgs]
    exact hf
  rw [openCall, henroll, ok_bind]
  simp only [hs, hf']

/-- A new message is stored, and its history is read. -/
theorem openCall_created {db db' : ConversationTables} (hu : db.Constraints) (hr : Readable db)
    {draw : Draw} {account : String} {message : InboundMessage} {p : PersistedInbound}
    (henroll : enroll db draw account message = .ok (p, db')) (hs : p.status = .created) :
    ∃ history, openCall u db draw account message = .ok (.opened p.conversationId history, db') ∧
      history.length ≤ 20 ∧ ∀ m ∈ history, AtMost 4096 m.contentText := by
  obtain ⟨-, hr'⟩ := enroll_inv hu hr henroll
  obtain ⟨history, hrows, hlen, hread⟩ := recentMessages_ok hr' p.conversationId
  refine ⟨history, ?_, hlen, hread⟩
  rw [openCall, henroll, ok_bind]
  simp only [hs, hrows, ok_bind]

theorem respond_duplicate_iff (ports : Ports) {db db' : ConversationTables} (hu : db.Constraints)
    (hr : Readable db) {draw : Draw} {calls : CallDraw} {message : InboundMessage}
    {account : String} {p : PersistedInbound}
    (henroll : enroll db draw account message = .ok (p, db')) (hs : p.status = .duplicate) :
    Recovered message (respond u ports db draw calls message account) ↔
      Has db message.messageId .inbound ∧ ∃ m ∈ db.messages,
        m.externalMessageId = some (replyId message.messageId) ∧ m.direction = .outbound ∧
          truthy m.contentText = true := by
  have hmsgs := (enroll_duplicate henroll).2 hs
  have hsame : ∀ ext direction, Has db' ext direction ↔ Has db ext direction := by
    intro ext direction
    rw [Has, Has, hmsgs]
  cases hf : findReply db message.messageId with
  | none =>
    delta respond
    rw [openCall_unanswered henroll hs hf]
    refine iff_of_false not_recovered_error ?_
    rintro ⟨-, m, hm, he, -, ht⟩
    have hfind : findReply db message.messageId = some m := by
      rw [findReply, findMessage_of_mem hu hm he]
      simp [ht]
    rw [hf] at hfind
    cases hfind
  | some existing =>
    obtain ⟨hm, he, ht⟩ := findReply_some hf
    obtain ⟨reply, hopen⟩ := openCall_of_duplicate (u := u) hu hr henroll hs hm he ht
    delta respond
    rw [hopen]
    dsimp only
    rw [recovered_iff (enroll_inv hu hr henroll).1, hsame, hsame]
    constructor
    · rintro ⟨-, hin, m, hm', he', hd⟩
      have hx : existing = m := unique_eq hu.message_external hm hm' he he'
      exact ⟨hin, existing, hm, he, hx ▸ hd, ht⟩
    · rintro ⟨hin, m, hm', he', hd, -⟩
      exact ⟨⟨reply, rfl⟩, hin, m, hm', he', hd⟩

/-- What the rest of a call leaves behind if it returns. -/
theorem finishCall_rows (ports : Ports) {db : ConversationTables} (hu : db.Constraints)
    (hr : Readable db) {calls : CallDraw} {message : InboundMessage} {cid : Uuid}
    {history : List MessageRecord} {reply : ConversationReply}
    (h : (finishCall u ports db calls message cid history).2 = .ok reply) :
    (finishCall u ports db calls message cid history).1.Constraints ∧
      ((∃ m ∈ db.messages, m.externalMessageId = some (replyId message.messageId)) ∧
          (finishCall u ports db calls message cid history).1.messages = db.messages ∨
        ∃ row, (finishCall u ports db calls message cid history).1.messages = db.messages ++ [row] ∧
          row.externalMessageId = some (replyId message.messageId) ∧ row.direction = .outbound) := by
  obtain ⟨hsame, hfit⟩ := composeFor_spec u ports db calls.handoffUuid calls.handoffNow message cid
    history
  delta finishCall at h ⊢
  generalize composeFor u ports db calls.handoffUuid calls.handoffNow message cid history = turn
    at hsame hfit h
  cases hreply : turn.reply with
  | error e => simp [hreply] at h
  | ok r =>
    obtain ⟨text, fb⟩ := r
    simp only [hreply] at h ⊢
    obtain ⟨htext, htrace⟩ := hfit text fb hreply
    have hread : Readable turn.tables := by
      intro m hm
      exact hr m (hsame.messages ▸ hm)
    refine ⟨(recordReply_inv (hsame.constraints hu) hread _ _ cid fb htext htrace).1, ?_⟩
    obtain ⟨-, p, hout⟩ := recordReply_ok h
    rcases recordOutbound_ok hout with ⟨-, hdb, hex⟩ | ⟨-, -, -, hdb⟩
    · left
      rw [hdb, hsame.messages]
      exact ⟨hsame.messages ▸ hex, rfl⟩
    · right
      refine ⟨outboundRow calls.messageUuid calls.recordNow cid text (traceOf message.messageId)
        (replyId message.messageId), ?_, rfl, rfl⟩
      rw [hdb, ← hsame.messages]

/-- A recorded message leaves a database on which the call can go on. -/
theorem enroll_created {db db' : ConversationTables} (hu : db.Constraints) (hr : Readable db)
    {draw : Draw} {calls : CallDraw} (hf : Fresh db draw calls) {message : InboundMessage}
    {account : String} {p : PersistedInbound}
    (henroll : enroll db draw account message = .ok (p, db')) (hs : p.status = .created) :
    Usable db' p.conversationId calls ∧ db'.messages = db.messages ++
      [inboundRow draw p.conversationId message (traceOf message.messageId) false] := by
  obtain ⟨db₁, hup, hins⟩ := recordInbound_ok (enroll_recorded henroll)
  obtain ⟨-, hr'⟩ := enroll_inv hu hr henroll
  rcases hins with ⟨hd, -⟩ | ⟨-, -, -, rfl⟩
  · rw [hs] at hd
    cases hd
  · refine ⟨⟨hr', ?_, ?_, ?_⟩, rfl⟩
    · rcases upsertConversation_ok hup with ⟨rfl, c, hc, -, he⟩ | ⟨hcid, -, -, rfl⟩
      · exact ⟨c, hc, he⟩
      · exact ⟨_, List.mem_append_right _ List.mem_cons_self, hcid.symm⟩
    · intro m hm
      rcases List.mem_append.mp hm with hm | hm
      · exact hf.outbound m hm
      · rw [List.mem_singleton.mp hm]
        exact hf.distinct
    · intro h hh
      refine hf.handoff h ?_
      rcases upsertConversation_ok hup with ⟨rfl, -⟩ | ⟨-, -, -, rfl⟩ <;> exact hh

theorem respond_created_iff (ports : Ports) {db db' : ConversationTables} (hu : db.Constraints)
    (hr : Readable db) {draw : Draw} {calls : CallDraw} (hf : Fresh db draw calls)
    {message : InboundMessage} (hid : message.messageId.length ≤ 115) {account : String}
    {p : PersistedInbound} (henroll : enroll db draw account message = .ok (p, db'))
    (hs : p.status = .created) :
    Recovered message (respond u ports db draw calls message account) ↔
      (∀ m ∈ db.messages, m.externalMessageId = some (replyId message.messageId) →
        m.direction = .outbound) ∧ Composable u ports message := by
  obtain ⟨hu', hr'⟩ := enroll_inv hu hr henroll
  obtain ⟨husable, hmsgs⟩ := enroll_created hu hr hf henroll hs
  obtain ⟨history, hopen, hlen, hread⟩ := openCall_created (u := u) hu hr henroll hs
  have hreturns := finishCall_returns_iff (u := u) ports husable hid hread hlen
  have hrespond : respond u ports db draw calls message account =
      finishCall u ports db' calls message p.conversationId history := by
    delta respond
    rw [hopen]
  rw [hrespond]
  have hnew : ∀ m ∈ db'.messages, m.externalMessageId = some (replyId message.messageId) →
      m ∈ db.messages := by
    intro m hm he
    rw [hmsgs] at hm
    rcases List.mem_append.mp hm with hm | hm
    · exact hm
    · rw [List.mem_singleton.mp hm] at he
      exact absurd (Option.some.inj he).symm (replyId_ne _)
  have hin : inboundRow draw p.conversationId message (traceOf message.messageId) false ∈
      db'.messages := hmsgs ▸ List.mem_append_right _ List.mem_cons_self
  constructor
  · rintro hrec
    obtain ⟨reply, hreply⟩ := hrec.1
    refine ⟨?_, hreturns.mp ⟨reply, hreply⟩⟩
    obtain ⟨hu'', hrows⟩ := finishCall_rows ports hu' hr' hreply
    obtain ⟨m, hm, he, hd⟩ := (rowCount_eq_one_iff hu'' _ _).mp hrec.2.2
    intro m' hm' he'
    have hkept : m' ∈ (finishCall u ports db' calls message p.conversationId history).1.messages := by
      have hold : m' ∈ db'.messages := hmsgs ▸ List.mem_append_left _ hm'
      rcases hrows with ⟨-, hsame⟩ | ⟨row, hadd, -⟩
      · exact hsame ▸ hold
      · rw [hadd]
        exact List.mem_append_left _ hold
    rw [unique_eq hu''.message_external hkept hm he' he]
    exact hd
  · rintro ⟨hclean, hcompose⟩
    obtain ⟨reply, hreply⟩ := hreturns.mpr hcompose
    obtain ⟨hu'', hrows⟩ := finishCall_rows ports hu' hr' hreply
    refine ⟨⟨reply, hreply⟩, (rowCount_eq_one_iff hu'' _ _).mpr ?_,
      (rowCount_eq_one_iff hu'' _ _).mpr ?_⟩
    · rcases hrows with ⟨-, hsame⟩ | ⟨row, hadd, -⟩
      · exact ⟨_, hsame ▸ hin, rfl, rfl⟩
      · exact ⟨_, hadd ▸ List.mem_append_left _ hin, rfl, rfl⟩
    · rcases hrows with ⟨⟨m, hm, he⟩, hsame⟩ | ⟨row, hadd, he, hd⟩
      · exact ⟨m, hsame ▸ hm, he, hclean m (hnew m hm he) he⟩
      · exact ⟨row, hadd ▸ List.mem_append_right _ List.mem_cons_self, he, hd⟩

/-- Whatever calls ran before and wherever they stopped, repeating a message returns a
reply and leaves one row in each direction if and only if both rows of the message are
stored already, or neither is and the message can be answered. -/
theorem retry_recovers_iff (u : Text.Unicode) (ports : Ports) {tables : ConversationTables}
    (hu : tables.Constraints) (hr : Readable tables) {schedule : List Label} {s : State}
    (hrun : exec (step u) (start tables) schedule = some s) {draw : Draw} {calls : CallDraw}
    (hf : Fresh s.tables draw calls) (message : InboundMessage) (account : String) :
    Recovered message (respond u ports s.tables draw calls message account) ↔
      Retriable u ports s.tables message account := by
  have hinv : Inv s := exec_invariant (fun _ _ _ hi hs => inv_step hi hs) (inv_start hu hr) hrun
  by_cases hok : Bounded 1 255 account ∧ message.messageId.length ≤ 115
  swap
  · refine iff_of_false ?_ fun h => hok ⟨h.1, h.2.1⟩
    have hno : ¬ ∃ r, enroll s.tables draw account message = .ok r := by
      rw [enroll_returns_iff hf]
      exact hok
    rintro ⟨⟨reply, h⟩, -⟩
    cases hopen : openCall u s.tables draw account message with
    | error e =>
      delta respond at h
      rw [hopen] at h
      cases h
    | ok r =>
      obtain ⟨p, henroll⟩ := openCall_admitted hopen
      exact hno ⟨_, henroll⟩
  · obtain ⟨⟨p, db'⟩, henroll⟩ := (enroll_returns_iff hf message account).mpr hok
    obtain ⟨hdup, -⟩ := enroll_duplicate henroll
    rw [Retriable]
    cases hs : p.status with
    | duplicate =>
      obtain ⟨m, hm, he⟩ := hdup.mp hs
      rw [respond_duplicate_iff ports hinv.constraints hinv.readable henroll hs]
      constructor
      · intro h
        exact ⟨hok.1, hok.2, .inl h⟩
      · rintro ⟨-, -, h | ⟨hnone, -⟩⟩
        · exact h
        · exact absurd he (hnone m hm)
    | created =>
      have hnone : ∀ m ∈ s.tables.messages, m.externalMessageId ≠ some message.messageId := by
        intro m hm he
        have hd := hdup.mpr ⟨m, hm, he⟩
        rw [hs] at hd
        cases hd
      rw [respond_created_iff ports hinv.constraints hinv.readable hf hok.2 henroll hs]
      constructor
      · intro h
        exact ⟨hok.1, hok.2, .inr ⟨hnone, h⟩⟩
      · rintro ⟨-, -, ⟨⟨m, hm, he, -⟩, -⟩ | ⟨-, h⟩⟩
        · exact absurd he (hnone m hm)
        · exact h

section Samples

def retryDraw : Draw := ⟨11, 12, 5, 5⟩
def retryCalls : CallDraw := ⟨13, 14, 5, 5⟩

/-- The message is stored, and then its call is given up before a reply is composed. -/
def halfDone : List Label := [.start 1 ⟨1, 2, 0, 0⟩ "local" ana, .drop 1]

def halfDoneTables : ConversationTables where
  conversations := [⟨1, .web, "local", "ana", .pikiActive⟩]
  messages := [inboundRow ⟨1, 2, 0, 0⟩ 1 ana "conversation:1" false]
  handoffs := []

theorem halfDoneTables_fresh : Fresh halfDoneTables retryDraw retryCalls := by
  refine ⟨?_, ?_, ?_, ?_, ?_⟩ <;> decide

/-- From then on, repeating the message is refused. -/
theorem half_done_turn_refused :
    (exec (step .latin1) (start .empty) halfDone).map State.tables = some halfDoneTables ∧
      Fresh halfDoneTables retryDraw retryCalls ∧
      (respond .latin1 offlinePorts halfDoneTables retryDraw retryCalls ana "local").2 =
        .error (.busy "duplicate message reply is not ready") ∧
      ¬ Recovered ana (respond .latin1 offlinePorts halfDoneTables retryDraw retryCalls ana "local") := by
  have hbusy : (respond .latin1 offlinePorts halfDoneTables retryDraw retryCalls ana "local").2 =
      .error (.busy "duplicate message reply is not ready") := by
    decide
  refine ⟨by decide, halfDoneTables_fresh, hbusy, ?_⟩
  rintro ⟨⟨reply, h⟩, -⟩
  rw [hbusy] at h
  cases h

/-- A message whose call was interrupted before its first session is answered by the
next call. -/
theorem interrupted_turn_retried :
    ∃ s, exec (step .latin1) (start .empty) [Label.drop 1] = some s ∧
      Recovered ana (respond .latin1 offlinePorts s.tables retryDraw retryCalls ana "local") := by
  have hr : Readable .empty := by
    intro m hm
    cases hm
  have hf : Fresh .empty retryDraw retryCalls := by
    refine ⟨?_, ?_, ?_, ?_, ?_⟩ <;> decide
  have hrun : exec (step .latin1) (start .empty) [Label.drop 1] =
      some ((start .empty).setCall .empty 1 .idle) :=
    exec_cons_some.mpr ⟨_, rfl, exec_nil _⟩
  refine ⟨_, hrun, (retry_recovers_iff .latin1 offlinePorts
    ConversationTables.empty_constraints hr hrun hf ana "local").mpr ?_⟩
  refine ⟨by decide, by decide, .inr ⟨?_, ?_, by decide, ?_⟩⟩
  · intro m hm
    cases hm
  · intro m hm
    cases hm
  · intro _ search response hs
    cases hs

end Samples

end Piki.Retry
