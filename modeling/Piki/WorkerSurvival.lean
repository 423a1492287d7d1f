import Piki.WorkerOnce

/-! Whether an exception can leave `process_once` while the database is reachable. -/
namespace Piki.Worker
open Table Transition ConversationRepository ConversationOrchestrator MessageProcessingStore
variable {cfg : Config} {s t : State}

/-- The database answers: no session is cut off. -/
def Action.Connected : Action → Prop
  | .claim _ _ acked | .compose _ _ _ acked | .record _ _ acked | .deliver _ _ acked
  | .finalize _ acked | .settle _ acked | .fail _ acked => acked = true
  | .disturb => False
  | _ => True

def Label.Connected : Label → Prop
  | .worker _ action => action.Connected
  | _ => True

/-- No exception has left `process_once`. -/
def Alive (s : State) : Prop := ∀ w, s.workers w ≠ .stopped

/-- The step lets no exception out of `process_once`. -/
def Survives (cfg : Config) (s : State) (l : Label) : Prop := ∀ t, step cfg s l = some t → Alive t

/-- When a handler reports its failure, the message is still being processed. -/
def Holding (s : State) : Label → Prop
  | .worker w (.fail _ _) => ∀ job errorCode retry, s.workers w = .failing job errorCode retry →
      ∃ m ∈ s.conversations.messages, m.id = job.messageRecordId ∧
        m.processingStatus = some .processing
  | _ => True

/-- Phases inside the `try` of `process_once`. -/
def Phase.guarded : Phase → Bool
  | .idle | .failing _ _ _ | .stopped => false
  | _ => true

theorem Phase.raised_guarded {p : Phase} (h : p.guarded = true) (e : Failure) :
    p.raised cfg e ≠ .stopped := by
  cases p with
  | idle | failing | stopped => cases h
  | locked | opened | composed => exact fun he => by cases he
  | claimed | releasing | replied | posting | awaiting | posted | settling =>
    exact fun he => by cases he

theorem raise_guarded {s' : State} {w : ℕ} {p : Phase} (hp : s'.workers w = p)
    (h : p.guarded = true) (e : Failure) : (s'.raise cfg w e).workers w ≠ .stopped := by
  simp only [State.raise, State.put, Function.update_self, hp]
  exact Phase.raised_guarded h e

theorem put_alive {s' : State} {w : ℕ} {q : Phase} (h : q ≠ .stopped) :
    (s'.put w q).workers w ≠ .stopped := by
  simpa only [State.put, Function.update_self] using h

section Actions
variable {w : ℕ}

/-- While the database answers, only the two calls outside the `try` can stop a worker. -/
theorem act_stops {a : Action} (h : act cfg s w a = some t) (hc : a.Connected)
    (hstop : t.workers w = .stopped) (halive : s.workers w ≠ .stopped) :
    (∃ now locked acked e, a = .claim now locked acked ∧
      claimNext s.conversations now cfg.claimTimeoutSeconds locked = .error e) ∨
    ∃ now acked job errorCode retry e, a = .fail now acked ∧
      s.workers w = .failing job errorCode retry ∧
      fail s.conversations now job.messageRecordId errorCode retry = .error e := by
  cases a with
  | claim now locked acked =>
    cases hc
    simp only [act] at h
    split at h
    · split at h
      · rename_i e he
        exact .inl ⟨now, locked, true, e, rfl, he⟩
      · cases h
        exact absurd hstop halive
      · cases h
        exact absurd hstop (put_alive (by simp))
    · cases h
  | acquire token reachable =>
    simp only [act] at h
    split at h
    · rename_i job hp
      split at h
      · cases h
        exact absurd hstop (raise_guarded hp rfl _)
      · split_ifs at h
        · cases h
          exact absurd hstop (put_alive (by simp))
        · cases h
          exact absurd hstop (raise_guarded hp rfl _)
    · cases h
  | lookup =>
    simp only [act] at h
    split at h
    · rename_i job lease hp
      split at h <;> cases h
      · exact absurd hstop (raise_guarded hp rfl _)
      · exact absurd hstop (put_alive (by simp))
      · exact absurd hstop (put_alive (by simp))
    · cases h
  | compose ports handoffId now acked =>
    cases hc
    simp only [act] at h
    split at h
    · rename_i job lease history hp
      split at h <;> cases h
      · exact absurd hstop (raise_guarded (p := .opened job lease history) hp rfl _)
      · exact absurd hstop (put_alive (by simp))
    · cases h
  | record id now acked =>
    cases hc
    simp only [act] at h
    split at h
    · rename_i job lease text fb hp
      split at h <;> cases h
      · exact absurd hstop (raise_guarded (p := .composed job lease text fb) hp rfl _)
      · exact absurd hstop (put_alive (by simp))
    · cases h
  | release reachable =>
    simp only [act] at h
    split at h
    · split at h <;> cases h <;> exact absurd hstop (put_alive (by simp [caught]))
    · cases h
  | deliver attemptId now acked =>
    cases hc
    simp only [act] at h
    split at h
    · rename_i job reply hp
      split at h
      · cases h
        exact absurd hstop (raise_guarded hp rfl _)
      · cases h
        unfold deliver at hstop
        split at hstop
        · exact absurd hstop (raise_guarded hp rfl _)
        · split_ifs at hstop
          · exact absurd hstop (put_alive (by simp))
          · split at hstop
            · exact absurd hstop (raise_guarded (p := .replied job reply) hp rfl _)
            · exact absurd hstop (put_alive (by simp))
    · cases h
  | invoke =>
    simp only [act] at h
    split at h
    · cases h
      exact absurd hstop (put_alive (by simp))
    · cases h
  | receive provider =>
    simp only [act] at h
    split at h
    · rename_i job attemptId request hp
      split at h <;> cases h
      · exact absurd hstop (raise_guarded hp rfl _)
      · exact absurd hstop (put_alive (by simp))
    · cases h
  | finalize now acked =>
    cases hc
    simp only [act] at h
    split at h
    · rename_i job attemptId result hp
      split at h <;> cases h
      · exact absurd hstop (raise_guarded hp rfl _)
      · exact absurd hstop (put_alive (by simp))
    · cases h
  | settle now acked =>
    cases hc
    simp only [act] at h
    split at h
    · rename_i job result hp
      split at h <;> cases h
      · exact absurd hstop (raise_guarded hp rfl _)
      · exact absurd hstop (put_alive (by simp))
    · cases h
  | fail now acked =>
    cases hc
    simp only [act] at h
    split at h
    · rename_i job errorCode retry hp
      split at h
      · rename_i e he
        exact .inr ⟨now, true, job, errorCode, retry, e, rfl, hp, he⟩
      · cases h
        exact absurd hstop (put_alive (by simp))
    · cases h
  | disturb => cases hc
  | crash =>
    cases h
    exact absurd hstop (put_alive (by simp))

end Actions

/-- Every stored row passes the contracts that `claim_next` rebuilds it with. -/
structure Readable (db : ConversationTables) : Prop where
  conversations : ∀ c ∈ db.conversations, Bounded 1 255 c.channelAccountId ∧
    Bounded 1 255 c.externalConversationId
  messages : ∀ m ∈ db.messages, m.direction = .inbound →
    (∃ ext, m.externalMessageId = some ext ∧ Bounded 1 255 ext) ∧ AtMost 4096 m.contentText ∧
      TextRequired m.kind m.contentText

/-- `claim_next` raises on no readable table. -/
theorem claimNext_returns {db : ConversationTables} (h : Readable db) (now : Time) (timeout : ℕ)
    (locked : List Uuid) : ∃ r, claimNext db now timeout locked = .ok r := by
  unfold claimNext
  dsimp only
  generalize hr : earliest _ = r
  cases r with
  | none => exact ⟨_, rfl⟩
  | some row =>
    obtain ⟨record, conversation⟩ := row
    have hmem := earliest_mem hr
    rw [List.mem_filter, Bool.and_eq_true] at hmem
    obtain ⟨hjoin, hclaim, -⟩ := hmem
    obtain ⟨hm, hc, -⟩ := mem_joined hjoin
    have hinbound : record.direction = .inbound := by
      simp only [claimable, Bool.and_eq_true] at hclaim
      exact of_decide_eq_true hclaim.1
    obtain ⟨⟨ext, hext, hbounded⟩, htext, hrequired⟩ := h.messages record hm hinbound
    obtain ⟨haccount, hconversation⟩ := h.conversations conversation hc
    simp only [hext]
    rw [InboundMessage.make, dif_pos ⟨hbounded, hconversation, hconversation, htext, hrequired⟩,
      ok_bind, ClaimedInbound.make, dif_pos ⟨haccount, Nat.le_add_left 1 _⟩, ok_bind]
    exact ⟨_, rfl⟩

theorem Readable.update {db : ConversationTables} {p : MessageRecord → Bool}
    {f : MessageRecord → MessageRecord} (h : Readable db) (hf : ∀ m, (f m).content = m.content) :
    Readable { db with messages := updateWhere p f db.messages } := by
  refine ⟨h.conversations, ?_⟩
  intro m hm hdir
  obtain ⟨x, hx, rfl⟩ := mem_updateWhere.mp hm
  split_ifs at hdir ⊢
  · have hfield := fun {α : Type} (g : MessageRecord → α) (hg : ∀ m, g m.content = g m) =>
      content_field g hg (hf x)
    rw [hfield MessageRecord.direction fun _ => rfl] at hdir
    rw [hfield MessageRecord.externalMessageId fun _ => rfl,
      hfield MessageRecord.contentText fun _ => rfl, hfield MessageRecord.kind fun _ => rfl]
    exact h.messages x hx hdir
  · exact h.messages x hx hdir

theorem Readable.outbound {db db' : ConversationTables} {rows : List MessageRecord}
    (h : Readable db) (hconv : db'.conversations = db.conversations)
    (hrows : db'.messages = db.messages ++ rows) (hall : ∀ m ∈ rows, m.direction = .outbound) :
    Readable db' := by
  refine ⟨by rw [hconv]; exact h.conversations, ?_⟩
  intro m hm hdir
  rw [hrows] at hm
  rcases List.mem_append.mp hm with hm | hm
  · exact h.messages m hm hdir
  · rw [hall m hm] at hdir
    cases hdir

theorem Readable.sameRows {db db' : ConversationTables} (h : Readable db)
    (hs : SameRows db db') : Readable db' := by
  refine ⟨?_, by rw [hs.messages]; exact h.messages⟩
  intro c hc
  have hm : (c.id, c.identity) ∈ db.conversations.map fun c => (c.id, c.identity) := by
    rw [← hs.conversations]
    exact List.mem_map.mpr ⟨c, hc, rfl⟩
  obtain ⟨c', hc', he⟩ := List.mem_map.mp hm
  obtain ⟨haccount, hexternal⟩ := h.conversations c' hc'
  have hidentity : c'.identity = c.identity := (Prod.mk.inj he).2
  simp only [ConversationRecord.identity, Prod.mk.injEq] at hidentity
  rw [← hidentity.2.1, ← hidentity.2.2]
  exact ⟨haccount, hexternal⟩

/-- A recorded message is readable: its account is not empty and its contract held. -/
theorem recordInbound_readable {db db' : ConversationTables} {draw : Draw}
    {account traceId : String} {message : InboundMessage} {enqueue : Bool} {p : PersistedInbound}
    (h : Readable db) (haccount : account ≠ "")
    (hr : recordInbound db draw account message traceId enqueue = .ok (p, db')) : Readable db' := by
  obtain ⟨db₁, hup, hins⟩ := recordInbound_ok hr
  have hlength : account.length ≤ 255 := by
    unfold upsertConversation at hup
    obtain ⟨_, hcolumn, -⟩ := bind_ok hup
    unfold column at hcolumn
    split_ifs at hcolumn with hle
    exact hle
  have hpos : 1 ≤ account.length := by
    rw [Nat.one_le_iff_ne_zero]
    intro hzero
    exact haccount (String.length_eq_zero_iff.mp hzero)
  have h₁ : Readable db₁ := by
    rcases upsertConversation_ok hup with ⟨rfl, -⟩ | ⟨-, -, -, rfl⟩
    · exact h
    · refine ⟨?_, h.messages⟩
      intro c hc
      rcases List.mem_append.mp hc with hc | hc
      · exact h.conversations c hc
      · rw [List.mem_singleton.mp hc]
        exact ⟨⟨hpos, hlength⟩, message.conversationId_bounded⟩
  rcases hins with ⟨-, rfl, -⟩ | ⟨-, -, -, rfl⟩
  · exact h₁
  · refine ⟨h₁.conversations, ?_⟩
    intro m hm hdir
    rcases List.mem_append.mp hm with hm | hm
    · exact h.messages m hm hdir
    · rw [List.mem_singleton.mp hm]
      exact ⟨⟨_, rfl, message.messageId_bounded⟩, message.text_bounded, message.text_required⟩

theorem recordMessages_readable {draws : ℕ → Draw} {db db' : ConversationTables}
    {messages : List InboundMessage} {statuses : List PersistStatus} (h : Readable db)
    (hr : Ingress.recordMessages draws db messages = .ok (statuses, db')) : Readable db' := by
  induction messages generalizing draws db statuses with
  | nil =>
    cases hr
    exact h
  | cons message messages ih =>
    obtain ⟨account, haccount, hrest⟩ := bind_ok hr
    obtain ⟨⟨p, db₁⟩, hrec, hrest⟩ := bind_ok hrest
    obtain ⟨⟨rest, db₂⟩, htail, hret⟩ := bind_ok hrest
    cases hret
    have hne : account ≠ "" := by
      unfold Ingress.phoneNumberId at haccount
      split at haccount
      · rename_i id hid
        cases haccount
        exact of_decide_eq_true (Option.filter_eq_some_iff.mp hid).2
      · cases haccount
    exact ih (recordInbound_readable h hne hrec) htail

theorem Move.readable {a : Action} {p q : Phase} {db : ConversationTables} {d : DeliveryTables}
    {sent : List DeliveryRequest} (h : Move cfg s a p q db d sent)
    (hr : Readable s.conversations) : Readable db := by
  cases h with
  | lapse | acquire | stored | fresh | release | created | replayed | invoke | receive
  | finalize => exact hr
  | claim hq hc =>
    rcases claimNext_ok hc with ⟨hn, -⟩ | ⟨j, m, c, -, -, -, -, -, -, rfl⟩
    · cases hn
    · exact hr.update fun _ => rfl
  | compose ports handoffId now hq =>
    obtain ⟨hrows, -⟩ := composeFor_spec cfg.unicode ports s.conversations handoffId now _ _ _
    exact hr.sameRows hrows
  | record id now hq =>
    obtain ⟨rows, hrows, hall⟩ := recordReply_rows cfg.unicode s.conversations id now _ _ _ _
    refine hr.outbound ?_ hrows ?_
    · exact recordReply_conversations _ _ _ _ _ _ _ _
    · intro m hm
      rw [hall m hm]
      rfl
  | settle hc hq =>
    obtain ⟨status, errorCode, availableAt, ht⟩ := settle_updates hc
    obtain ⟨-, rfl⟩ := transition_ok ht
    exact hr.update fun _ => rfl
  | fail hc hq =>
    obtain ⟨status, errorCode, availableAt, ht⟩ := fail_updates hc
    obtain ⟨-, rfl⟩ := transition_ok ht
    exact hr.update fun _ => rfl

/-- What a run keeps while no exception leaves `process_once`. -/
structure Healthy (s : State) : Prop where
  alive : Alive s
  readable : Readable s.conversations

theorem readable_step {l : Label} (h : Readable s.conversations) (hs : step cfg s l = some t) :
    Readable t.conversations := by
  cases step_stepped hs with
  | refused | callback | expire => exact h
  | recorded hr => exact recordMessages_readable h hr
  | worker locks hact hmove => exact hmove.readable h

/-- The handler raises exactly when the row has left `processing`. -/
theorem fail_raises_iff {db : ConversationTables} {now : Time} {id : Uuid} {errorCode : ErrorCode}
    {retry : Bool} : (∃ e, fail db now id errorCode retry = .error e) ↔
      ∀ m ∈ db.messages, m.id = id → m.processingStatus ≠ some .processing := by
  unfold fail
  split_ifs <;> exact transition_raises_iff

/-- A step of the other components stops no worker. -/
theorem survives_other {l : Label} (h : Alive s) (hl : ∀ w a, l ≠ .worker w a) :
    Survives cfg s l := by
  intro t ht
  have hsame : t.workers = s.workers := by
    cases step_stepped ht with
    | refused | recorded | callback | expire => rfl
    | worker => exact absurd rfl (hl _ _)
  intro w
  rw [hsame]
  exact h w

/-- While the database answers, a step lets an exception out exactly when a handler
finds that its message is no longer being processed. -/
theorem survives_iff_holding (h : Healthy s) {l : Label} (hc : l.Connected) :
    Survives cfg s l ↔ Holding s l := by
  cases l with
  | ingest | callback | expire =>
    exact iff_of_true (survives_other h.alive fun _ _ he => by cases he) trivial
  | worker w a =>
    constructor
    · intro hsurvives
      cases a with
      | fail now acked =>
        intro job errorCode retry hp
        by_contra hgone
        push Not at hgone
        obtain ⟨e, he⟩ : ∃ e, MessageProcessingStore.fail s.conversations now job.messageRecordId
            errorCode retry = .error e := fail_raises_iff.mpr hgone
        have hstep : step cfg s (.worker w (.fail now acked)) = some (s.raise cfg w e) := by
          simp only [step, act, hp, he]
        refine hsurvives _ hstep w ?_
        simp only [State.raise, State.put, Function.update_self, hp, Phase.raised]
      | _ => trivial
    · intro hholding t ht w' hstop
      by_cases he : w' = w
      · subst he
        rcases act_stops ht hc hstop (h.alive w') with
          ⟨now, locked, acked, e, -, herror⟩ | ⟨now, acked, job, code, retry, e, rfl, hp, herror⟩
        · obtain ⟨r, hr⟩ := claimNext_returns h.readable now cfg.claimTimeoutSeconds locked
          rw [hr] at herror
          cases herror
        · obtain ⟨m, hm, hid, hst⟩ := hholding job code retry hp
          exact fail_raises_iff.mp ⟨e, herror⟩ m hm hid hst
      · obtain ⟨q, db, d, locks, sent, -, rfl⟩ := act_moved ht
        simp only [State.moved, Function.update_of_ne he] at hstop
        exact h.alive w' hstop

/-- While the database is reachable, no exception leaves `process_once` in a run exactly
when every handler that reports a failure finds its message still being processed. -/
theorem worker_survives_iff (cfg : Config) {schedule : List Label}
    (hc : ∀ l ∈ schedule, l.Connected) :
    Along (step cfg) (Survives cfg) (start .empty .empty) schedule ↔
      Along (step cfg) Holding (start .empty .empty) schedule := by
  have hconnected : Along (step cfg) (fun _ l => l.Connected) (start .empty .empty) schedule :=
    along_of_forall hc
  have hstart : Healthy (start .empty .empty) :=
    ⟨fun _ => by simp [start], ⟨by simp [start, ConversationTables.empty],
      by simp [start, ConversationTables.empty]⟩⟩
  refine (along_and_iff hconnected).symm.trans (Iff.trans ?_ (along_and_iff hconnected))
  refine along_iff (I := Healthy) ?_ ?_ hstart
  · intro s l t hi hp hs
    exact ⟨hp.2 t hs, readable_step hi.readable hs⟩
  · intro s l hi
    exact and_congr_right fun hl => survives_iff_holding hi hl

section Samples

instance : DecidablePred Label.Connected
  | .worker _ (.claim _ _ acked) | .worker _ (.compose _ _ _ acked)
  | .worker _ (.record _ _ acked) | .worker _ (.deliver _ _ acked)
  | .worker _ (.finalize _ acked) | .worker _ (.settle _ acked) | .worker _ (.fail _ acked) =>
    inferInstanceAs (Decidable (acked = true))
  | .worker _ .disturb => isFalse id
  | .worker _ (.acquire _ _) | .worker _ .lookup | .worker _ (.release _) | .worker _ .invoke
  | .worker _ (.receive _) | .worker _ .crash | .ingest _ _ | .callback _ | .expire _ =>
    isTrue trivial

/-- The job of a worker that handles an exception. -/
def Phase.reporting : Phase → Option ClaimedInbound
  | .failing job _ _ => some job
  | _ => none

theorem reporting_iff {w : ℕ} {now : Time} {acked : Bool} :
    (∀ job ∈ (s.workers w).reporting, ∃ m ∈ s.conversations.messages,
      m.id = job.messageRecordId ∧ m.processingStatus = some .processing) ↔
      Holding s (.worker w (.fail now acked)) := by
  constructor
  · intro h job errorCode retry hp
    exact h job (by rw [hp]; rfl)
  · intro h job hjob
    cases hp : s.workers w with
    | failing job' errorCode retry =>
      rw [hp] at hjob
      cases hjob
      exact h job errorCode retry hp
    | _ =>
      rw [hp] at hjob
      cases hjob

instance (s : State) : (l : Label) → Decidable (Holding s l)
  | .worker _ (.fail _ _) => decidable_of_iff _ reporting_iff
  | .worker _ (.claim _ _ _) | .worker _ (.acquire _ _) | .worker _ .lookup
  | .worker _ (.compose _ _ _ _) | .worker _ (.record _ _ _) | .worker _ (.release _)
  | .worker _ (.deliver _ _ _) | .worker _ .invoke | .worker _ (.receive _)
  | .worker _ (.finalize _ _) | .worker _ (.settle _ _) | .worker _ .disturb | .worker _ .crash
  | .ingest _ _ | .callback _ | .expire _ => isTrue trivial

/-- The second worker answers the message while the first one waits for the lock. -/
def answerActions : List Action :=
  [.lookup, .compose offlinePorts 9 0 true, .record 3 0 true, .release true, .deliver 4 0 true,
    .invoke, .receive fun _ => .response 200 none (some ["wamid.out"]), .finalize 0 true,
    .settle 0 true]

/-- Worker 2 takes over a stale claim and completes the message before worker 1, which
finds the lock taken, reports that the conversation is busy. -/
def lostSchedule : List Label :=
  [.ingest (fun _ => ⟨1, 2, 0, 0⟩) [pickMessage], .worker 1 (.claim 0 [] true),
    .worker 2 (.claim 120000000 [] true), .worker 2 (.acquire 5 true),
    .worker 1 (.acquire 6 true)] ++ answerActions.map (.worker 2) ++
    [.worker 1 (.fail 120000000 true)]

def Phase.isStopped : Phase → Bool
  | .stopped => true
  | _ => false

set_option maxRecDepth 10000 in
theorem lost_claim_stops_worker : (∀ l ∈ lostSchedule, l.Connected) ∧
    ∃ t, exec (step sampleConfig) (start .empty .empty) lostSchedule = some t ∧
      t.workers 1 = .stopped := by
  refine ⟨by decide, ?_⟩
  have hrun : (exec (step sampleConfig) (start .empty .empty) lostSchedule).map
      (fun t => (t.workers 1).isStopped) = some true := by
    decide
  obtain ⟨t, ht, hstopped⟩ := Option.map_eq_some_iff.mp hrun
  refine ⟨t, ht, ?_⟩
  cases hp : t.workers 1 with
  | stopped => rfl
  | _ =>
    rw [hp] at hstopped
    cases hstopped

/-- A worker that cannot take the lock re-queues its message. -/
def requeuedSchedule : List Label :=
  [.ingest (fun _ => ⟨1, 2, 0, 0⟩) [pickMessage], .worker 1 (.claim 0 [] true),
    .worker 1 (.acquire 6 false), .worker 1 (.fail 0 true)]

theorem requeued_survives : (∀ l ∈ requeuedSchedule, l.Connected) ∧
    (exec (step sampleConfig) (start .empty .empty) requeuedSchedule).isSome = true ∧
    Along (step sampleConfig) (Survives sampleConfig) (start .empty .empty)
      requeuedSchedule := by
  have hconnected : ∀ l ∈ requeuedSchedule, l.Connected := by decide
  refine ⟨hconnected, by decide, ?_⟩
  rw [worker_survives_iff sampleConfig hconnected]
  decide

end Samples

end Piki.Worker
