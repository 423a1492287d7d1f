import Piki.Answers
import Piki.Transition

/-! Concurrent calls of `respond` over any set of scopes. The sessions of different
calls interleave freely; message ids are chosen by the clients. -/
namespace Piki.Isolation
open Table Transition ConversationRepository ConversationOrchestrator
variable {u : Text.Unicode}

inductive Call
  | idle
  | opened (message : InboundMessage) (conversationId : Uuid) (history : List MessageRecord)
  | composed (message : InboundMessage) (conversationId : Uuid) (text : String) (usedFallback : Bool)

structure State where
  tables : ConversationTables
  calls : ℕ → Call

inductive Label
  | start (call : ℕ) (draw : Draw) (account : String) (message : InboundMessage)
  | compose (call : ℕ) (ports : Ports) (handoffId : Uuid) (now : Time)
  | record (call : ℕ) (id : Uuid) (now : Time)
  | drop (call : ℕ)

def State.setCall (s : State) (tables : ConversationTables) (call : ℕ) (c : Call) : State :=
  ⟨tables, Function.update s.calls call c⟩

/-- One session of one call, or a call that is given up. -/
def step (u : Text.Unicode) (s : State) : Label → Option State
  | .start call draw account message =>
    match s.calls call with
    | .idle =>
      match openCall u s.tables draw account message with
      | .ok (.opened cid history, db) => some (s.setCall db call (.opened message cid history))
      | .ok (.answered _, db) => some (s.setCall db call .idle)
      | .error _ => some s
    | _ => none
  | .compose call ports handoffId now =>
    match s.calls call with
    | .opened message cid history =>
      let turn := composeFor u ports s.tables handoffId now message cid history
      match turn.reply with
      | .ok (text, fb) => some (s.setCall turn.tables call (.composed message cid text fb))
      | .error _ => some (s.setCall turn.tables call .idle)
    | _ => none
  | .record call id now =>
    match s.calls call with
    | .composed message cid text fb =>
      some (s.setCall (recordReply u s.tables id now message cid text fb).1 call .idle)
    | _ => none
  | .drop call => some (s.setCall s.tables call .idle)

/-- No call is in progress. -/
def start (tables : ConversationTables) : State := ⟨tables, fun _ => .idle⟩

/-- The message row belongs to the conversation of the scope. -/
def InScope (db : ConversationTables) (account : String) (message : InboundMessage)
    (m : MessageRecord) : Prop :=
  ∃ c ∈ db.conversations, c.identity = (message.channel, account, message.conversationId) ∧
    m.conversationId = c.id

/-- A reply marked as duplicate is the stored reply to the message in its own scope,
and only a message that this scope sent before is treated as a duplicate. -/
def Isolated (u : Text.Unicode) (s : State) : Label → Prop
  | .start _ draw account message =>
    (∀ reply db, openCall u s.tables draw account message = .ok (.answered reply, db) →
      ∃ m ∈ s.tables.messages, m.externalMessageId = some (replyId message.messageId) ∧
        m.direction = .outbound ∧ m.contentText = some reply.text ∧
        InScope s.tables account message m) ∧
    (∀ p db, enroll s.tables draw account message = .ok (p, db) → p.status = .duplicate →
      ∃ m ∈ s.tables.messages, m.externalMessageId = some message.messageId ∧
        m.direction = .inbound ∧ InScope s.tables account message m)
  | _ => True

/-- If the database admits the call, every stored row under the message id is an
inbound row of its scope; and if there is one, every stored row with text under the
derived reply id is an outbound row of its scope. -/
def Clean (s : State) : Label → Prop
  | .start _ draw account message =>
    (∃ r, enroll s.tables draw account message = .ok r) →
    (∀ m ∈ s.tables.messages, m.externalMessageId = some message.messageId →
      m.direction = .inbound ∧ InScope s.tables account message m) ∧
    ((∃ m ∈ s.tables.messages, m.externalMessageId = some message.messageId) →
      ∀ m ∈ s.tables.messages, m.externalMessageId = some (replyId message.messageId) →
        truthy m.contentText = true → m.direction = .outbound ∧ InScope s.tables account message m)
  | _ => True

structure Inv (s : State) : Prop where
  constraints : s.tables.Constraints
  readable : Readable s.tables
  composed : ∀ call message cid text fb, s.calls call = .composed message cid text fb →
    Bounded 1 4096 text ∧ Bounded 1 128 (traceOf message.messageId)

theorem enroll_recorded {db db' : ConversationTables} {draw : Draw} {account : String}
    {message : InboundMessage} {p : PersistedInbound}
    (h : enroll db draw account message = .ok (p, db')) :
    recordInbound db draw account message (traceOf message.messageId) false = .ok (p, db') := by
  unfold enroll at h
  obtain ⟨_, -, h⟩ := bind_ok h
  obtain ⟨_, -, h⟩ := bind_ok h
  exact h

/-- A call is a duplicate exactly when some row holds its message id, and then it
stores no message. -/
theorem enroll_duplicate {db db' : ConversationTables} {draw : Draw} {account : String}
    {message : InboundMessage} {p : PersistedInbound}
    (h : enroll db draw account message = .ok (p, db')) :
    (p.status = .duplicate ↔ ∃ m ∈ db.messages, m.externalMessageId = some message.messageId) ∧
      (p.status = .duplicate → db'.messages = db.messages) := by
  obtain ⟨db₁, hup, hins⟩ := recordInbound_ok (enroll_recorded h)
  have hmsgs := upsertConversation_messages hup
  rcases hins with ⟨hs, rfl, hm⟩ | ⟨hs, hc, -, -⟩
  · exact ⟨iff_of_true hs hm, fun _ => hmsgs⟩
  · have hno : ¬ ∃ m ∈ db.messages, m.externalMessageId = some message.messageId := by
      rintro ⟨m, hm, he⟩
      exact conflict_eq_none.mp hc _ rfl m hm he
    refine ⟨iff_of_false (by simp [hs]) hno, ?_⟩
    intro hd
    rw [hs] at hd
    cases hd

/-- What an immediate answer was taken from. -/
theorem openCall_answered {db db' : ConversationTables} {draw : Draw} {account : String}
    {message : InboundMessage} {reply : ConversationReply}
    (h : openCall u db draw account message = .ok (.answered reply, db')) :
    ∃ p, enroll db draw account message = .ok (p, db') ∧ p.status = .duplicate ∧
      ∃ m ∈ db.messages, m.externalMessageId = some (replyId message.messageId) ∧
        truthy m.contentText = true ∧ m.contentText = some reply.text := by
  unfold openCall at h
  obtain ⟨⟨p, db₁⟩, henroll, hrest⟩ := bind_ok h
  dsimp only at hrest
  cases hs : p.status with
  | created =>
    simp only [hs] at hrest
    obtain ⟨history, -, hret⟩ := bind_ok hrest
    cases hret
  | duplicate =>
    simp only [hs] at hrest
    cases hf : findReply db₁ message.messageId with
    | none => simp [hf] at hrest
    | some existing =>
      simp only [hf] at hrest
      obtain ⟨r, hr, hret⟩ := bind_ok hrest
      cases hret
      obtain ⟨hm, he, ht⟩ := findReply_some hf
      rw [(enroll_duplicate henroll).2 hs] at hm
      refine ⟨p, henroll, hs, existing, hm, he, ht, ?_⟩
      rw [storedReply_text hr]
      exact truthy_eq_some ht

/-- A duplicate whose reply row has text is answered from that row. -/
theorem openCall_of_duplicate {db db' : ConversationTables} (hu : db.Constraints)
    (hr : Readable db) {draw : Draw} {account : String} {message : InboundMessage}
    {p : PersistedInbound} (henroll : enroll db draw account message = .ok (p, db'))
    (hs : p.status = .duplicate) {m : MessageRecord} (hm : m ∈ db.messages)
    (he : m.externalMessageId = some (replyId message.messageId))
    (ht : truthy m.contentText = true) :
    ∃ reply, openCall u db draw account message = .ok (.answered reply, db') := by
  have hmsgs := (enroll_duplicate henroll).2 hs
  have hfind : findReply db' message.messageId = some m := by
    have hf := findMessage_of_mem hu hm he
    rw [findReply, findMessage, hmsgs]
    rw [findMessage] at hf
    rw [hf]
    simp [ht]
  have hread : Readable db' := by
    intro x hx
    exact hr x (hmsgs ▸ hx)
  obtain ⟨reply, hreply⟩ := storedReply_returns (u := u) hread hfind p.conversationId
  refine ⟨reply, ?_⟩
  rw [openCall, henroll, ok_bind]
  simp only [hs, hfind, hreply, ok_bind]

/-- A call that composed no reply cannot record one. -/
example : (step .latin1 (start .empty) (.record 0 1 0)).isNone = true := by decide +kernel

/-- In one state, a call is isolated exactly when the rows under its two ids are
those of its scope. -/
theorem isolated_iff_clean {s : State} (h : Inv s) (l : Label) : Isolated u s l ↔ Clean s l := by
  cases l with
  | compose | record | drop => exact Iff.rfl
  | start call draw account message =>
    have hunique : ∀ {a b : MessageRecord} {k : String}, a ∈ s.tables.messages →
        b ∈ s.tables.messages → a.externalMessageId = some k → b.externalMessageId = some k →
        a = b := fun ha hb => unique_eq h.constraints.message_external ha hb
    constructor
    · rintro hiso ⟨⟨p, db'⟩, henroll⟩
      refine ⟨?_, ?_⟩
      · intro m hm he
        have hdup := (enroll_duplicate henroll).1.mpr ⟨m, hm, he⟩
        obtain ⟨m', hm', he', hdir, hscope⟩ := hiso.2 p db' henroll hdup
        rw [hunique hm hm' he he']
        exact ⟨hdir, hscope⟩
      · intro hsent m hm he ht
        have hdup := (enroll_duplicate henroll).1.mpr hsent
        obtain ⟨reply, hopen⟩ := openCall_of_duplicate (u := u) h.constraints h.readable henroll hdup
          hm he ht
        obtain ⟨m', hm', he', hdir, -, hscope⟩ := hiso.1 reply db' hopen
        rw [hunique hm hm' he he']
        exact ⟨hdir, hscope⟩
    · intro hclean
      refine ⟨?_, ?_⟩
      · intro reply db' hopen
        obtain ⟨p, henroll, hdup, m, hm, he, ht, htext⟩ := openCall_answered hopen
        have hsent := (enroll_duplicate henroll).1.mp hdup
        obtain ⟨hdir, hscope⟩ := (hclean ⟨_, henroll⟩).2 hsent m hm he ht
        exact ⟨m, hm, he, hdir, htext, hscope⟩
      · intro p db' henroll hdup
        obtain ⟨m, hm, he⟩ := (enroll_duplicate henroll).1.mp hdup
        obtain ⟨hdir, hscope⟩ := (hclean ⟨_, henroll⟩).1 m hm he
        exact ⟨m, hm, he, hdir, hscope⟩

theorem enroll_inv {db db' : ConversationTables} (hu : db.Constraints) (hr : Readable db)
    {draw : Draw} {account : String} {message : InboundMessage} {p : PersistedInbound}
    (h : enroll db draw account message = .ok (p, db')) : db'.Constraints ∧ Readable db' := by
  have hrec := enroll_recorded h
  refine ⟨recordInbound_constraints hu hrec, ?_⟩
  have htrace : Bounded 1 128 (traceOf message.messageId) := by
    unfold enroll emit at h
    obtain ⟨_, he, -⟩ := bind_ok h
    split_ifs at he with hb
    exact hb.1
  obtain ⟨db₁, hup, hins⟩ := recordInbound_ok hrec
  have hmsgs := upsertConversation_messages hup
  rcases hins with ⟨-, rfl, -⟩ | ⟨-, -, -, rfl⟩
  · intro m hm
    exact hr m (hmsgs ▸ hm)
  · intro m hm
    rcases List.mem_append.mp hm with hm | hm
    · exact hr m hm
    · rw [List.mem_singleton.mp hm]
      exact ⟨message.text_bounded, htrace⟩

theorem openCall_admitted {db db' : ConversationTables} {draw : Draw} {account : String}
    {message : InboundMessage} {o : Opened}
    (h : openCall u db draw account message = .ok (o, db')) :
    ∃ p, enroll db draw account message = .ok (p, db') := by
  unfold openCall at h
  obtain ⟨⟨p, db₁⟩, henroll, hrest⟩ := bind_ok h
  dsimp only at hrest
  refine ⟨p, ?_⟩
  cases hs : p.status with
  | created =>
    simp only [hs] at hrest
    obtain ⟨history, -, hret⟩ := bind_ok hrest
    cases hret
    exact henroll
  | duplicate =>
    simp only [hs] at hrest
    cases hf : findReply db₁ message.messageId with
    | none => simp [hf] at hrest
    | some existing =>
      simp only [hf] at hrest
      obtain ⟨r, -, hret⟩ := bind_ok hrest
      cases hret
      exact henroll

/-- Only a message whose id no row holds is opened. -/
theorem openCall_opened {db db' : ConversationTables} {draw : Draw} {account : String}
    {message : InboundMessage} {cid : Uuid} {history : List MessageRecord}
    (h : openCall u db draw account message = .ok (.opened cid history, db')) :
    ∀ m ∈ db.messages, m.externalMessageId ≠ some message.messageId := by
  unfold openCall at h
  obtain ⟨⟨p, db₁⟩, henroll, hrest⟩ := bind_ok h
  intro m hm he
  have hs := (enroll_duplicate henroll).1.mpr ⟨m, hm, he⟩
  simp only [hs] at hrest
  cases hf : findReply db₁ message.messageId with
  | none => simp [hf] at hrest
  | some existing =>
    simp only [hf] at hrest
    obtain ⟨r, -, hret⟩ := bind_ok hrest
    cases hret

/-- The row that the last session adds is readable. -/
theorem recordReply_inv {db : ConversationTables} (hu : db.Constraints) (hr : Readable db)
    (id : Uuid) (now : Time) {message : InboundMessage} (cid : Uuid) {text : String} (fb : Bool)
    (htext : Bounded 1 4096 text) (htrace : Bounded 1 128 (traceOf message.messageId)) :
    (recordReply u db id now message cid text fb).1.Constraints ∧
      Readable (recordReply u db id now message cid text fb).1 := by
  delta recordReply
  cases hout : recordOutbound db id now cid text (traceOf message.messageId)
      (replyId message.messageId) with
  | error e => exact ⟨hu, hr⟩
  | ok r =>
    obtain ⟨p, db'⟩ := r
    refine ⟨recordOutbound_constraints hu hout, ?_⟩
    dsimp only
    rcases recordOutbound_ok hout with ⟨-, rfl, -⟩ | ⟨-, -, -, rfl⟩
    · exact hr
    · intro m hm
      rcases List.mem_append.mp hm with hm | hm
      · exact hr m hm
      · rw [List.mem_singleton.mp hm]
        refine ⟨?_, htrace⟩
        intro t ht
        cases ht
        exact htext.2

/-- A step that leaves such tables and such a call keeps the invariant. -/
theorem inv_setCall {s : State} {db : ConversationTables} (h : Inv s) (hu : db.Constraints)
    (hr : Readable db) (call : ℕ) {c : Call}
    (hc : ∀ message cid text fb, c = .composed message cid text fb →
      Bounded 1 4096 text ∧ Bounded 1 128 (traceOf message.messageId)) :
    Inv (s.setCall db call c) := by
  refine ⟨hu, hr, ?_⟩
  intro call' message cid text fb hcall
  by_cases he : call' = call
  · subst he
    simp only [State.setCall, Function.update_self] at hcall
    exact hc message cid text fb hcall
  · simp only [State.setCall, Function.update_of_ne he] at hcall
    exact h.composed call' message cid text fb hcall

theorem inv_step {s t : State} {l : Label} (h : Inv s) (hs : step u s l = some t) : Inv t := by
  cases l with
  | start call draw account message =>
    simp only [step] at hs
    split at hs
    · cases hopen : openCall u s.tables draw account message with
      | error e =>
        simp only [hopen] at hs
        cases hs
        exact h
      | ok r =>
        obtain ⟨o, db⟩ := r
        obtain ⟨p, henroll⟩ := openCall_admitted hopen
        obtain ⟨hu, hr⟩ := enroll_inv h.constraints h.readable henroll
        cases o <;> simp only [hopen] at hs <;> cases hs <;> exact inv_setCall h hu hr _ (by simp)
    · cases hs
  | compose call ports handoffId now =>
    simp only [step] at hs
    split at hs
    · rename_i message cid history _
      obtain ⟨hsame, hfit⟩ := composeFor_spec u ports s.tables handoffId now message cid history
      have hu := hsame.constraints h.constraints
      have hr : Readable (composeFor u ports s.tables handoffId now message cid history).tables := by
        intro m hm
        exact h.readable m (hsame.messages ▸ hm)
      split at hs
      · rename_i text fb hreply
        cases hs
        refine inv_setCall h hu hr _ ?_
        intro message' cid' text' fb' he
        cases he
        exact hfit text fb hreply
      · cases hs
        exact inv_setCall h hu hr _ (by simp)
    · cases hs
  | record call id now =>
    simp only [step] at hs
    split at hs
    · rename_i message cid text fb hcall
      cases hs
      obtain ⟨htext, htrace⟩ := h.composed call message cid text fb hcall
      obtain ⟨hu, hr⟩ := recordReply_inv (u := u) h.constraints h.readable id now cid fb htext htrace
      exact inv_setCall h hu hr _ (by simp)
    · cases hs
  | drop call =>
    cases hs
    exact inv_setCall h h.constraints h.readable _ (by simp)

theorem inv_start {tables : ConversationTables} (hu : tables.Constraints) (hr : Readable tables) :
    Inv (start tables) := by
  refine ⟨hu, hr, ?_⟩
  intro call message cid text fb hcall
  cases hcall

/-- Over every run of calls in any scopes, replies are isolated if and only if no
admitted call meets a row of another scope, or of the wrong direction, under its
message id or its reply id. -/
theorem replies_isolated_iff (u : Text.Unicode) {tables : ConversationTables}
    (hu : tables.Constraints) (hr : Readable tables) (schedule : List Label) :
    Along (step u) (Isolated u) (start tables) schedule ↔
      Along (step u) Clean (start tables) schedule :=
  along_iff (I := Inv) (fun _ _ _ hi _ ht => inv_step hi ht)
    (fun _ l hi => isolated_iff_clean hi l) (inv_start hu hr)

section Samples

/-- A search of one web conversation under a client-chosen id. -/
def webMessage (conversationId : String) (h : Bounded 1 255 conversationId) : InboundMessage :=
  ⟨"1", .web, conversationId, conversationId, .text, some "hay picks", 0, [], by decide +kernel, h, h,
    by decide, by decide⟩

def ana : InboundMessage := webMessage "ana" (by decide +kernel)
def beto : InboundMessage := webMessage "beto" (by decide +kernel)

/-- The first conversation sends message 1 and is answered. -/
def anaSchedule : List Label :=
  [.start 1 ⟨1, 2, 0, 0⟩ "local" ana, .compose 1 offlinePorts 9 0, .record 1 3 0]

def answeredTables : ConversationTables where
  conversations := [⟨1, .web, "local", "ana", .pikiActive⟩]
  messages := [
    inboundRow ⟨1, 2, 0, 0⟩ 1 ana "conversation:1" false,
    outboundRow 3 0 1 notConfiguredText "conversation:1" "piki-reply:1"]
  handoffs := []

theorem exec_anaSchedule :
    (exec (step .latin1) (start .empty) anaSchedule).map State.tables = some answeredTables := by
  decide

instance (db : ConversationTables) (account : String) (message : InboundMessage) (m : MessageRecord) :
    Decidable (InScope db account message m) := by
  unfold InScope; infer_instance

set_option maxRecDepth 10000 in
/-- Another conversation sends its own message 1 and is treated as a duplicate. -/
theorem other_scope_suppressed :
    ¬ Along (step .latin1) (Isolated .latin1) (start .empty)
      (anaSchedule ++ [.start 2 ⟨11, 12, 0, 0⟩ "local" beto]) := by
  intro h
  obtain ⟨s, hs, htables⟩ := Option.map_eq_some_iff.mp exec_anaSchedule
  have hiso := along_last h hs
  rw [Isolated, htables] at hiso
  have henroll : enroll answeredTables ⟨11, 12, 0, 0⟩ "local" beto = .ok (⟨.duplicate, 11, none⟩,
      { answeredTables with conversations := answeredTables.conversations ++
        [⟨11, .web, "local", "beto", .pikiActive⟩] }) := by
    decide
  obtain ⟨m, hm, -, -, hscope⟩ := hiso.2 _ _ henroll rfl
  have hnone : ∀ m ∈ answeredTables.messages, ¬ InScope answeredTables "local" beto m := by
    decide
  exact hnone m hm hscope

/-- A conversation that repeats its own message is answered from its own row. -/
theorem repeated_message_isolated :
    ConversationTables.empty.Constraints ∧ Readable .empty ∧
    Along (step .latin1) (Isolated .latin1) (start .empty)
      (anaSchedule ++ [.start 2 ⟨11, 12, 0, 0⟩ "local" ana]) := by
  have hr : Readable .empty := by
    intro m hm
    cases hm
  have hu := ConversationTables.empty_constraints
  refine ⟨hu, hr, (replies_isolated_iff .latin1 hu hr _).mpr ?_⟩
  have hempty : Clean (start .empty) (.start 1 ⟨1, 2, 0, 0⟩ "local" ana) := by
    intro _
    refine ⟨?_, ?_⟩
    · intro m hm
      cases hm
    · intro _ m hm
      cases hm
  refine ⟨hempty, fun s₁ h₁ => ⟨trivial, fun s₂ h₂ => ⟨trivial, fun s₃ h₃ => ⟨?_, fun _ _ => trivial⟩⟩⟩⟩
  have hs : exec (step .latin1) (start .empty) anaSchedule = some s₃ :=
    exec_cons_some.mpr ⟨s₁, h₁, exec_cons_some.mpr ⟨s₂, h₂, exec_cons_some.mpr ⟨s₃, h₃, rfl⟩⟩⟩
  have htables : s₃.tables = answeredTables := by
    have he := exec_anaSchedule
    rw [hs] at he
    exact Option.some.inj he
  intro _
  rw [htables]
  refine ⟨by decide, fun _ => by decide⟩

end Samples

end Piki.Isolation
