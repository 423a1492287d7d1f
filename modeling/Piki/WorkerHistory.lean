import Piki.WorkerOnce

/-! Whether the stored reply is the text that was sent. -/
namespace Piki.Worker
open Table Transition ConversationRepository ConversationOrchestrator
variable {cfg : Config} {s t : State}

/-- The history holds this text as the reply to the message. -/
def StoredReply (db : ConversationTables) (messageId text : String) : Prop :=
  ∃ m ∈ db.messages, m.externalMessageId = some (replyId messageId) ∧ m.direction = .outbound ∧
    m.contentText = some text

theorem StoredReply.keeps {db db' : ConversationTables} {messageId text : String}
    (h : StoredReply db messageId text) (hk : Keeps db db') : StoredReply db' messageId text := by
  obtain ⟨m, hm, hext, hdir, htext⟩ := h
  obtain ⟨m', hm', hc⟩ := hk.mem hm
  exact ⟨m', hm', (content_external hc).trans hext,
    (content_field MessageRecord.direction (fun _ => rfl) hc).trans hdir,
    (content_field MessageRecord.contentText (fun _ => rfl) hc).trans htext⟩

/-- The request is the delivery of a stored reply. -/
def Backed (db : ConversationTables) (request : DeliveryRequest) : Prop :=
  ∃ messageId text, request.idempotencyKey = replyKey messageId ∧
    request.content.text = some text ∧ StoredReply db messageId text

/-- What a phase promises about the history. -/
def Phase.Faithful (db : ConversationTables) : Phase → Prop
  | .releasing job _ (.ok reply) | .replied job reply =>
    StoredReply db job.message.messageId reply.text
  | .posting _ _ request => Backed db request
  | _ => True

/-- The row that holds the reply id of a worker's job, if there is one, is an outbound
row; and if the worker has composed a text, the row holds this text. -/
def Unclaimed (db : ConversationTables) : Phase → Prop
  | .locked job _ => ∀ m ∈ db.messages,
      m.externalMessageId = some (replyId job.message.messageId) → m.direction = .outbound
  | .composed job _ text _ => ∀ m ∈ db.messages,
      m.externalMessageId = some (replyId job.message.messageId) →
        m.direction = .outbound ∧ m.contentText = some text
  | _ => True

instance (db : ConversationTables) : DecidablePred (Unclaimed db) := fun p => by
  cases p with
  | locked job lease => exact inferInstanceAs (Decidable (∀ m ∈ db.messages,
      m.externalMessageId = some (replyId job.message.messageId) → m.direction = .outbound))
  | composed job lease text fb => exact inferInstanceAs (Decidable (∀ m ∈ db.messages,
      m.externalMessageId = some (replyId job.message.messageId) →
        m.direction = .outbound ∧ m.contentText = some text))
  | _ => exact isTrue trivial

/-- Whenever a reply is looked up or recorded, its id is not held by anything else. -/
def Unrivalled (s : State) : Label → Prop
  | .worker w .lookup | .worker w (.record _ _ _) => Unclaimed s.conversations (s.workers w)
  | _ => True

instance (s : State) : (l : Label) → Decidable (Unrivalled s l)
  | .worker w .lookup | .worker w (.record _ _ _) =>
    inferInstanceAs (Decidable (Unclaimed s.conversations (s.workers w)))
  | .worker _ (.claim _ _ _) | .worker _ (.acquire _ _) | .worker _ (.compose _ _ _ _)
  | .worker _ (.release _) | .worker _ (.deliver _ _ _) | .worker _ .invoke
  | .worker _ (.receive _) | .worker _ (.finalize _ _) | .worker _ (.settle _ _)
  | .worker _ (.fail _ _) | .worker _ .disturb | .worker _ .crash | .ingest _ _ | .callback _
  | .expire _ => isTrue trivial

/-- What was sent and what is about to be sent is in the history. -/
structure FaithfulInv (s : State) : Prop where
  phases : ∀ w, (s.workers w).Faithful s.conversations
  sent : ∀ request ∈ s.sent, Backed s.conversations request

theorem Backed.keeps {db db' : ConversationTables} {request : DeliveryRequest}
    (h : Backed db request) (hk : Keeps db db') : Backed db' request := by
  obtain ⟨messageId, text, hkey, htext, hstored⟩ := h
  exact ⟨messageId, text, hkey, htext, hstored.keeps hk⟩

theorem Phase.Faithful.keeps {db db' : ConversationTables} {p : Phase} (h : p.Faithful db)
    (hk : Keeps db db') : p.Faithful db' := by
  cases p with
  | releasing job lease outcome =>
    cases outcome with
    | error e => trivial
    | ok reply => exact StoredReply.keeps h hk
  | replied job reply => exact StoredReply.keeps h hk
  | posting job aid request => exact Backed.keeps h hk
  | _ => trivial

theorem Phase.Lapses.faithful {p q : Phase} (h : p.Lapses q) (db : ConversationTables) :
    q.Faithful db := by
  cases q with
  | releasing job lease outcome =>
    cases outcome with
    | error e => trivial
    | ok reply => cases h.1
  | replied | posting => cases h.1
  | _ => trivial

/-- A reply that is looked up is stored with its text. -/
theorem lookupReply_stored {u : Text.Unicode} {db : ConversationTables} {message : InboundMessage}
    {cid : Uuid} {reply : ConversationReply}
    (h : lookupReply u db message cid = .ok (.stored reply))
    (hdir : ∀ m ∈ db.messages, m.externalMessageId = some (replyId message.messageId) →
      m.direction = .outbound) : StoredReply db message.messageId reply.text := by
  unfold lookupReply at h
  cases hf : findReply db message.messageId with
  | none =>
    simp only [hf] at h
    obtain ⟨history, -, he⟩ := map_ok h
    cases he
  | some existing =>
    simp only [hf] at h
    obtain ⟨r, hr, he⟩ := map_ok h
    cases he
    obtain ⟨hm, hext, ht⟩ := findReply_some hf
    refine ⟨existing, hm, hext, hdir existing hm hext, ?_⟩
    rw [storedReply_text hr]
    exact truthy_eq_some ht

/-- A recorded reply is stored with its text, unless another row was there. -/
theorem recordReply_stored {u : Text.Unicode} {db : ConversationTables} {id : Uuid} {now : Time}
    {message : InboundMessage} {cid : Uuid} {text : String} {fb : Bool} {reply : ConversationReply}
    (h : (recordReply u db id now message cid text fb).2 = .ok reply)
    (hrow : ∀ m ∈ db.messages, m.externalMessageId = some (replyId message.messageId) →
      m.direction = .outbound ∧ m.contentText = some text) :
    StoredReply (recordReply u db id now message cid text fb).1 message.messageId reply.text := by
  obtain ⟨htext, p, hout⟩ := recordReply_ok h
  rw [htext]
  rcases recordOutbound_ok hout with ⟨-, hdb, m, hm, hext⟩ | ⟨-, -, -, hdb⟩
  · rw [hdb]
    obtain ⟨hdir, hcontent⟩ := hrow m hm hext
    exact ⟨m, hm, hext, hdir, hcontent⟩
  · rw [hdb]
    exact ⟨_, List.mem_append_right _ (List.mem_singleton_self _), rfl, rfl, rfl⟩

/-- The phase after a move keeps its promise. -/
theorem Move.faithful {w : ℕ} {a : Action} {q : Phase} {db : ConversationTables}
    {d : DeliveryTables} {sent : List DeliveryRequest}
    (hmove : Move cfg s a (s.workers w) q db d sent) (h : FaithfulInv s)
    (hl : Unrivalled s (.worker w a)) :
    q.Faithful db ∧ ∀ request ∈ sent, Backed db request := by
  have hkeeps := hmove.messages.1
  have hold : ∀ request ∈ s.sent, Backed db request :=
    fun request hr => (h.sent request hr).keeps hkeeps
  have hp := h.phases w
  generalize hw : s.workers w = p at hmove hp
  cases hmove with
  | lapse hq | settle hc hq | fail hc hq => exact ⟨hq.faithful _, hold⟩
  | acquire | fresh | receive => exact ⟨trivial, hold⟩
  | claim hq hc =>
    rcases hq with rfl | hq
    · exact ⟨trivial, hold⟩
    · exact ⟨hq.faithful _, hold⟩
  | stored hc =>
    rw [Unrivalled, hw] at hl
    exact ⟨lookupReply_stored hc hl, hold⟩
  | compose ports handoffId now hq =>
    rcases hq with ⟨text, fb, rfl⟩ | hq
    · exact ⟨trivial, hold⟩
    · exact ⟨hq.faithful _, hold⟩
  | record id now hq =>
    rcases hq with ⟨reply, hreply, rfl⟩ | hq
    · rw [Unrivalled, hw] at hl
      exact ⟨recordReply_stored hreply hl, hold⟩
    · exact ⟨hq.faithful _, hold⟩
  | release reply => exact ⟨hp, hold⟩
  | created hrequest hc hq =>
    rcases hq with rfl | hq
    · obtain ⟨hkey, htext, -⟩ := replyRequest_content hrequest
      exact ⟨⟨_, _, hkey, htext, hp⟩, hold⟩
    · exact ⟨hq.faithful _, hold⟩
  | replayed hrequest hc hq =>
    rcases hq with ⟨result, -, rfl⟩ | hq
    · exact ⟨trivial, hold⟩
    · exact ⟨hq.faithful _, hold⟩
  | invoke =>
    refine ⟨trivial, ?_⟩
    intro request hr
    rcases List.mem_append.mp hr with hr | hr
    · exact hold request hr
    · rw [List.mem_singleton.mp hr]
      exact hp
  | finalize hc hq =>
    rcases hq with rfl | hq
    · exact ⟨trivial, hold⟩
    · exact ⟨hq.faithful _, hold⟩

theorem faithful_step {l : Label} (h : FaithfulInv s) (hl : Unrivalled s l)
    (hs : step cfg s l = some t) : FaithfulInv t := by
  have hkeeps := (step_messages hs).1
  have hsame : t.workers = s.workers → t.sent = s.sent → FaithfulInv t := by
    intro hw hsent
    refine ⟨?_, ?_⟩
    · intro w
      rw [hw]
      exact (h.phases w).keeps hkeeps
    · intro request hr
      rw [hsent] at hr
      exact (h.sent request hr).keeps hkeeps
  cases step_stepped hs with
  | refused | recorded | callback | expire => exact hsame rfl rfl
  | @worker w _ _ _ _ _ locks hact hmove =>
    obtain ⟨hphase, hsent⟩ := hmove.faithful h hl
    refine ⟨?_, hsent⟩
    intro w'
    by_cases he : w' = w
    · subst he
      simp only [State.moved, Function.update_self]
      exact hphase
    · simp only [State.moved, Function.update_of_ne he]
      exact (h.phases w').keeps hkeeps

/-- The adapter was called only with the text that the history holds as the reply. -/
def SentAsRecorded (s : State) : Prop :=
  ∀ request ∈ s.sent, ∀ messageId text, request.idempotencyKey = replyKey messageId →
    request.content.text = some text → StoredReply s.conversations messageId text

/-- In a run in which no reply meets a row of another kind or text under its id, what
was sent is what the history records. -/
theorem sent_as_recorded (cfg : Config) (db : ConversationTables) (d : DeliveryTables)
    {schedule : List Label} (hl : Along (step cfg) Unrivalled (start db d) schedule)
    (hrun : exec (step cfg) (start db d) schedule = some t) : SentAsRecorded t := by
  have hstart : FaithfulInv (start db d) :=
    ⟨fun _ => trivial, fun request hr => by cases hr⟩
  have hinv := exec_invariant_along (fun _ _ _ hi hp hs => faithful_step hi hp hs) hstart hl hrun
  intro request hr messageId text hkey htext
  obtain ⟨messageId', text', hkey', htext', hstored⟩ := hinv.sent request hr
  have hid := replyKey_injective (hkey.symm.trans hkey')
  have ht : text = text' := Option.some.inj (htext.symm.trans htext')
  rw [hid, ht]
  exact hstored

section Samples

/-- The search of the second worker fails. -/
def failingPorts : Ports :=
  ⟨some fun _ => .error .timedOut, 0, fun _ => .error .unavailable⟩

theorem rivalScope_accepted : (ConversationScope.make .whatsapp "phone" "549").isOk = true := by
  decide

/-- Worker 1 has looked for a reply when its claim and its lock expire; worker 2 takes
over, composes another text, records second and delivers first. -/
def rivalSchedule : List Label :=
  [.ingest (fun _ => ⟨1, 2, 0, 0⟩) [pickMessage], .worker 1 (.claim 0 [] true),
    .worker 1 (.acquire 5 true), .worker 1 .lookup,
    .expire (accepted (ConversationScope.make .whatsapp "phone" "549") rivalScope_accepted),
    .worker 2 (.claim 120000000 [] true), .worker 2 (.acquire 6 true), .worker 2 .lookup,
    .worker 1 (.compose offlinePorts 9 0 true), .worker 1 (.record 3 0 true),
    .worker 2 (.compose failingPorts 9 0 true), .worker 2 (.record 4 0 true),
    .worker 2 (.release true), .worker 2 (.deliver 5 120000000 true), .worker 2 .invoke]

/-- The keys and texts that were sent, and the texts of the reply rows. -/
def State.sentTexts (s : State) : List (String × Option String) × List (Option String) :=
  (s.sent.map fun r => (r.idempotencyKey, r.content.text),
    (s.conversations.messages.filter fun m => m.externalMessageId = some (replyId "wamid.1")).map
      MessageRecord.contentText)

set_option maxRecDepth 10000 in
theorem exec_rivalSchedule :
    (exec (step sampleConfig) (start .empty .empty) rivalSchedule).map State.sentTexts =
      some ([("reply:wamid.1", some BuenPickClientError.timedOut.userSafeMessage)],
        [some notConfiguredText]) := by
  decide

/-- Worker 2 sends its own text while the history holds the text of worker 1. -/
theorem rival_sent_unrecorded : ∃ t,
    exec (step sampleConfig) (start .empty .empty) rivalSchedule = some t ∧ ¬ SentAsRecorded t := by
  obtain ⟨t, ht, htexts⟩ := Option.map_eq_some_iff.mp exec_rivalSchedule
  obtain ⟨hsent, hrows⟩ := Prod.mk.inj htexts
  refine ⟨t, ht, fun hrecorded => ?_⟩
  obtain ⟨request, hr, he⟩ : ∃ request ∈ t.sent, (request.idempotencyKey, request.content.text) =
      ("reply:wamid.1", some BuenPickClientError.timedOut.userSafeMessage) := by
    refine List.mem_map.mp ?_
    rw [hsent]
    exact List.mem_singleton_self _
  obtain ⟨hkey, htext⟩ := Prod.mk.inj he
  obtain ⟨m, hm, hext, -, hcontent⟩ := hrecorded request hr "wamid.1" _ hkey htext
  have hmem : m.contentText ∈ [some notConfiguredText] := by
    rw [← hrows]
    exact List.mem_map.mpr ⟨m, List.mem_filter.mpr ⟨hm, by simpa using hext⟩, rfl⟩
  rw [hcontent, List.mem_singleton] at hmem
  exact absurd hmem (by decide)

set_option maxRecDepth 10000 in
/-- One worker alone sends what it records. -/
theorem answered_as_recorded : ∃ t,
    exec (step sampleConfig) (start .empty .empty) answeredSchedule = some t ∧
      t.sentKeys = ["reply:wamid.1"] ∧ SentAsRecorded t := by
  have hsent : (exec (step sampleConfig) (start .empty .empty) answeredSchedule).map
      State.sentKeys = some ["reply:wamid.1"] := by
    decide
  have hl : Along (step sampleConfig) Unrivalled (start .empty .empty) answeredSchedule := by
    decide
  obtain ⟨t, ht, hkeys⟩ := Option.map_eq_some_iff.mp hsent
  exact ⟨t, ht, hkeys, sent_as_recorded sampleConfig .empty .empty hl ht⟩

end Samples

end Piki.Worker
