import Piki.SystemIntegrity

/-! A completed message was answered exactly once: one reply row, one attempt, one call of
the delivery adapter. Web calls work on the same tables, under any interleaving. -/
namespace Piki.System
open Table Transition ConversationRepository ConversationOrchestrator MessageProcessingStore Worker
variable {cfg : Config} {s t : Worker.State}

/-- Some row holds the reply id of the message. -/
def Replied (db : ConversationTables) (messageId : String) : Prop :=
  ∃ m ∈ db.messages, m.externalMessageId = some (replyId messageId)

theorem Replied.keeps {db db' : ConversationTables} {messageId : String} (h : Replied db messageId)
    (hk : Keeps db db') : Replied db' messageId := by
  obtain ⟨m, hm, hext⟩ := h
  obtain ⟨m', hm', hc⟩ := hk.mem hm
  exact ⟨m', hm', (content_external hc).trans hext⟩

/-- What a phase says of the replies that are stored and of the keys that were sent. -/
def Dispatched (db : ConversationTables) (keys : List String) : Phase → Prop
  | .releasing job _ (.ok _) | .replied job _ => Replied db job.message.messageId
  | .posting job _ request =>
    Replied db job.message.messageId ∧ request.idempotencyKey = replyKeyOf job
  | .awaiting job _ _ | .posted job _ _ => replyKeyOf job ∈ keys
  | _ => True

theorem Dispatched.mono {db db' : ConversationTables} {keys keys' : List String} {p : Phase}
    (h : Dispatched db keys p) (hk : Keeps db db') (hkeys : keys ⊆ keys') :
    Dispatched db' keys' p := by
  cases p with
  | releasing job lease outcome =>
    cases outcome with
    | error e => trivial
    | ok reply => exact Replied.keeps h hk
  | replied job reply => exact Replied.keeps h hk
  | posting job aid request => exact ⟨Replied.keeps h.1 hk, h.2⟩
  | awaiting job aid request => exact hkeys h
  | posted job aid result => exact hkeys h
  | _ => trivial

theorem lapses_dispatched {p q : Phase} (h : p.Lapses q) (db : ConversationTables)
    (keys : List String) : Dispatched db keys q := by
  cases q with
  | releasing job lease outcome =>
    cases outcome with
    | error e => trivial
    | ok reply => cases h.1
  | replied | posting | awaiting | posted => cases h.1
  | _ => trivial

/-- Only attempts whose key was sent have a provider id. -/
def SentBefore (d : DeliveryTables) (keys : List String) : Prop :=
  ∀ a ∈ d.attempts, a.providerMessageId ≠ none → a.idempotencyKey ∈ keys

/-- Every key that was sent is that of a stored reply. -/
def RepliesStored (db : ConversationTables) (keys : List String) : Prop :=
  ∀ key ∈ keys, ∃ messageId, key = replyKey messageId ∧ Replied db messageId

structure OnceInv (s : Worker.State) : Prop where
  honest : HonestInv s
  phases : ∀ w, Dispatched s.conversations s.sentKeys (s.workers w)
  attempts : SentBefore s.deliveries.tables s.sentKeys
  replies : RepliesStored s.conversations s.sentKeys

theorem RepliesStored.keeps {db db' : ConversationTables} {keys : List String}
    (h : RepliesStored db keys) (hk : Keeps db db') : RepliesStored db' keys := by
  intro key hkey
  obtain ⟨messageId, he, hr⟩ := h key hkey
  exact ⟨messageId, he, hr.keeps hk⟩

theorem lookupReply_replied {u : Text.Unicode} {db : ConversationTables} {message : InboundMessage}
    {cid : Uuid} {reply : ConversationReply}
    (h : lookupReply u db message cid = .ok (.stored reply)) : Replied db message.messageId := by
  unfold lookupReply at h
  cases hf : findReply db message.messageId with
  | none =>
    simp only [hf] at h
    obtain ⟨history, -, he⟩ := map_ok h
    cases he
  | some existing =>
    obtain ⟨hm, hext, -⟩ := findReply_some hf
    exact ⟨existing, hm, hext⟩

theorem recordReply_replied {u : Text.Unicode} {db : ConversationTables} {id : Uuid} {now : Time}
    {message : InboundMessage} {cid : Uuid} {text : String} {fb : Bool} {reply : ConversationReply}
    (h : (recordReply u db id now message cid text fb).2 = .ok reply) :
    Replied (recordReply u db id now message cid text fb).1 message.messageId := by
  obtain ⟨-, p, hout⟩ := recordReply_ok h
  rcases recordOutbound_ok hout with ⟨-, hdb, m, hm, hext⟩ | ⟨-, -, -, hdb⟩
  · rw [hdb]
    exact ⟨m, hm, hext⟩
  · rw [hdb]
    exact ⟨_, List.mem_append_right _ (List.mem_singleton_self _), rfl⟩

/-- A result is stored for an attempt whose request was sent. -/
theorem finalize_sentBefore {d d' : DeliveryTables} {keys : List String} {now : Time} {aid : Uuid}
    {result : DeliveryResult} {key : String} (hs : SentBefore d keys) (hu : UniqueAttempts d)
    (hf : DeliveryStore.finalize d now aid result = .ok ((), d'))
    (ha : ∃ a ∈ d.attempts, a.id = aid ∧ a.idempotencyKey = key) (hkey : key ∈ keys) :
    SentBefore d' keys := by
  obtain ⟨-, -, rfl⟩ := DeliveryStore.finalize_ok hf
  obtain ⟨a, ham, haid, hak⟩ := ha
  intro y hy hp
  obtain ⟨x, hx, rfl⟩ := mem_updateWhere.mp hy
  split_ifs at hp ⊢ with hpending
  · have hid : x.id = aid := (of_decide_eq_true hpending).1
    have hsame := Callbacks.attempt_eq hu.id hx ham (hid.trans haid.symm)
    have hkx : x.idempotencyKey = key := hsame ▸ hak
    exact hkx ▸ hkey
  · exact hs x hx hp

/-- A move of a worker, apart from sending. -/
theorem move_dispatched {a : Action} {p q : Phase} {db : ConversationTables} {d : DeliveryTables}
    (h : Move cfg s a p q db d s.sent) (hi : OnceInv s) (hp : Dispatched s.conversations s.sentKeys p)
    (hhonest : p.Honest s.deliveries.tables) :
    Dispatched db s.sentKeys q ∧ SentBefore d s.sentKeys := by
  have hold := hi.attempts
  generalize hsent : s.sent = sent at h
  cases h with
  | lapse hq | settle hc hq | fail hc hq => exact ⟨lapses_dispatched hq _ _, hold⟩
  | acquire | fresh => exact ⟨trivial, hold⟩
  | claim hq hc =>
    refine ⟨?_, hold⟩
    rcases hq with rfl | hq
    · trivial
    · exact lapses_dispatched hq _ _
  | stored hc => exact ⟨lookupReply_replied hc, hold⟩
  | compose ports handoffId now hq =>
    refine ⟨?_, hold⟩
    rcases hq with ⟨text, fb, rfl⟩ | hq
    · trivial
    · exact lapses_dispatched hq _ _
  | record id now hq =>
    refine ⟨?_, hold⟩
    rcases hq with ⟨reply, hreply, rfl⟩ | hq
    · exact recordReply_replied hreply
    · exact lapses_dispatched hq _ _
  | release reply => exact ⟨hp, hold⟩
  | created hrequest hc hq =>
    rcases DeliveryStore.claim_ok hc with ⟨hfalse, -⟩ | ⟨-, -, -, -, rfl⟩
    · cases hfalse
    · refine ⟨?_, forall_mem_snoc hold fun hne => absurd rfl hne⟩
      rcases hq with rfl | hq
      · exact ⟨hp, (replyRequest_content hrequest).1⟩
      · exact lapses_dispatched hq _ _
  | replayed hrequest hc hq =>
    rcases DeliveryStore.claim_ok hc with ⟨-, rfl, -⟩ | ⟨htrue, -⟩
    · refine ⟨?_, hold⟩
      rcases hq with ⟨result, -, rfl⟩ | hq
      · trivial
      · exact lapses_dispatched hq _ _
    · cases htrue
  | invoke => simp at hsent
  | receive hsend => exact ⟨hp, hold⟩
  | finalize hc hq =>
    refine ⟨?_, finalize_sentBefore hold hi.honest.once.attempts hc (hhonest.attempt _ _ rfl) hp⟩
    rcases hq with rfl | hq
    · trivial
    · exact lapses_dispatched hq _ _

/-- One step of the workers, the webhooks and the callbacks. -/
theorem once_step {l : Worker.Label} (h : OnceInv s) (hs : Worker.step cfg s l = some t) :
    OnceInv t := by
  have hhonest := honest_step h.honest hs
  have hkeeps := (step_messages hs).1
  have hphases : t.workers = s.workers → t.sentKeys = s.sentKeys →
      ∀ w, Dispatched t.conversations t.sentKeys (t.workers w) := by
    intro hw hkeys w
    rw [hw, hkeys]
    exact (h.phases w).mono hkeeps fun _ hk => hk
  cases step_stepped hs with
  | refused => exact h
  | recorded | expire =>
    exact ⟨hhonest, hphases rfl rfl, h.attempts, h.replies.keeps hkeeps⟩
  | @callback _ c hd =>
    refine ⟨hhonest, hphases rfl rfl, ?_, h.replies.keeps hkeeps⟩
    show SentBefore c.tables s.sentKeys
    rcases DeliveryTruth.callback_tables hd with he | ⟨n, callback, attempt, -, he⟩
    · rw [he]
      exact h.attempts
    · rw [he]
      simp only [DeliveryStore.commitCallback]
      split_ifs
      · exact updateWhere_forall h.attempts fun a ha _ => h.attempts a ha
      · exact h.attempts
  | @worker w a q db d sent locks hact hmove =>
    have hall : ∀ (keys : List String), s.sentKeys ⊆ keys →
        (Dispatched db keys q) → ∀ w', Dispatched db keys (Function.update s.workers w q w') := by
      intro keys hsub hq w'
      by_cases he : w' = w
      · subst he
        rw [Function.update_self]
        exact hq
      · rw [Function.update_of_ne he]
        exact (h.phases w').mono hkeeps hsub
    rcases move_sent hmove with rfl | ⟨job, aid, request, hp, rfl⟩
    · obtain ⟨hq, hattempts⟩ := move_dispatched hmove h (h.phases w) (h.honest.phases w)
      exact ⟨hhonest, hall _ (fun _ hk => hk) hq, hattempts, h.replies.keeps hkeeps⟩
    · have hposting := h.phases w
      rw [hp] at hposting
      obtain ⟨hreplied, hkey⟩ := hposting
      have hkeys : (s.moved w q db d locks (s.sent ++ [request])).sentKeys =
          s.sentKeys ++ [replyKeyOf job] := by
        simp [State.sentKeys, State.moved, hkey]
      have hsub : s.sentKeys ⊆ s.sentKeys ++ [replyKeyOf job] := List.subset_append_left _ _
      rw [hp] at hmove
      obtain ⟨rfl, rfl, rfl⟩ : q = .awaiting job aid request ∧ db = s.conversations ∧
          d = s.deliveries.tables := by
        generalize hsent : s.sent ++ [request] = sent at hmove
        cases hmove with
        | lapse => simp at hsent
        | invoke => exact ⟨rfl, rfl, rfl⟩
      refine ⟨hhonest, ?_, ?_, ?_⟩
      · rw [hkeys]
        exact hall _ hsub (List.mem_append_right _ (List.mem_singleton_self _))
      · rw [hkeys]
        exact fun a ha hne => hsub (h.attempts a ha hne)
      · rw [hkeys]
        exact forall_mem_snoc h.replies ⟨_, rfl, hreplied⟩

section Calls
open HandoffPause Turns

/-- A call of `respond` adds messages that are not enqueued. -/
theorem advance_messages {u : Text.Unicode} {db conversations : ConversationTables}
    {message : InboundMessage} {account : String} {p p' : Progress} {session : Session}
    (hu : db.Constraints)
    (h : advance u (.respond message account) db p session = some (conversations, p')) :
    conversations.Constraints ∧ ∃ rows, conversations.messages = db.messages ++ rows ∧
      ∀ m ∈ rows, m.processingStatus = none := by
  have hsame : db.Constraints ∧ ∃ rows, db.messages = db.messages ++ rows ∧
      ∀ m ∈ rows, m.processingStatus = none := ⟨hu, [], by simp, by simp⟩
  cases p with
  | begun =>
    cases session with
    | first draw acked =>
      have hopened : ∀ {o : Opened} {db' : ConversationTables},
          openCall u db draw account message = .ok (o, db') → db'.Constraints ∧
            ∃ rows, db'.messages = db.messages ++ rows ∧ ∀ m ∈ rows, m.processingStatus = none := by
        intro o db' hopen
        obtain ⟨persisted, henroll⟩ := Isolation.openCall_admitted hopen
        have hrec := Isolation.enroll_recorded henroll
        obtain ⟨rows, hrows, hall⟩ := recordInbound_rows hrec
        refine ⟨recordInbound_constraints hu hrec, rows, hrows, ?_⟩
        intro m hm
        rw [hall m hm]
        rfl
      simp only [advance, firstSession] at h
      cases hopen : openCall u db draw account message with
      | error e =>
        rw [hopen, error_bind] at h
        cases h
        exact hsame
      | ok r =>
        obtain ⟨⟨reply⟩ | ⟨cid, history⟩, db₁⟩ := r <;> rw [hopen, ok_bind] at h <;> cases h <;>
          exact hopened hopen
    | raise e =>
      cases h
      exact hsame
    | compose | last => cases h
  | opened cid history =>
    cases session with
    | compose ports handoffId now acked =>
      obtain ⟨hrows, -⟩ := composeFor_spec u ports db handoffId now message cid history
      have hturn : (composeFor u ports db handoffId now message cid history).tables.Constraints ∧
          ∃ rows, (composeFor u ports db handoffId now message cid history).tables.messages =
            db.messages ++ rows ∧ ∀ m ∈ rows, m.processingStatus = none :=
        ⟨hrows.constraints hu, [], by simp [hrows.messages], by simp⟩
      simp only [advance, Invocation.message] at h
      split at h <;> cases h <;> exact hturn
    | raise e =>
      cases h
      exact hsame
    | first | last => cases h
  | composed cid text fb =>
    cases session with
    | last id now acked =>
      obtain ⟨rows, hrows, hall⟩ := recordReply_rows u db id now message cid text fb
      have hturn : (recordReply u db id now message cid text fb).1.Constraints ∧
          ∃ rows, (recordReply u db id now message cid text fb).1.messages = db.messages ++ rows ∧
            ∀ m ∈ rows, m.processingStatus = none := by
        refine ⟨recordReply_constraints u hu id now message cid text fb, rows, hrows, ?_⟩
        intro m hm
        rw [hall m hm]
        rfl
      simp only [advance, Invocation.message] at h
      split at h <;> cases h <;> exact hturn
    | raise e =>
      cases h
      exact hsame
    | first | compose => cases h
  | ended outcome => cases session <;> cases h

/-- The sessions of web calls leave the promises of the workers alone. -/
theorem OnceInv.withConversations {db : ConversationTables} (h : OnceInv s) (hu : db.Constraints)
    {rows : List MessageRecord} (hrows : db.messages = s.conversations.messages ++ rows)
    (hall : ∀ m ∈ rows, m.processingStatus = none) : OnceInv (s.withConversations db) := by
  have hk : Keeps s.conversations db := keeps_of_append hrows
  refine ⟨⟨?_, ?_, h.honest.sound, h.honest.reads, h.honest.phases, ?_⟩, ?_, h.attempts,
    h.replies.keeps hk⟩
  · exact inv_quiet h.honest.once hu h.honest.once.attempts (fun _ hc => hc)
      (fun _ _ _ _ hw => hw) rfl
  · exact fun w job hj => (h.honest.jobs w job hj).keeps hk
  · refine CompletedDelivered.append h.honest.completed hrows ?_
    intro m hm hc
    rw [hall m hm] at hc
    cases hc
  · exact fun w => (h.phases w).mono hk fun _ hm => hm

theorem OnceInv.setLock (h : OnceInv s) (scope : ConversationScope) (lock : Option ℕ) :
    OnceInv (s.setLock scope lock) :=
  ⟨⟨inv_quiet h.honest.once h.honest.once.constraints h.honest.once.attempts (fun _ hc => hc)
    (fun _ _ _ _ hw => hw) rfl, h.honest.jobs, h.honest.sound, h.honest.reads, h.honest.phases,
    h.honest.completed⟩, h.phases, h.attempts, h.replies⟩

/-- One step of the whole system. -/
theorem system_once_step {s t : HandoffPause.State} {l : HandoffPause.Label} (h : OnceInv s.base)
    (hs : HandoffPause.step cfg s l = some t) : OnceInv t.base := by
  cases l with
  | base l =>
    obtain ⟨b, hb, rfl⟩ := Option.map_eq_some_iff.mp hs
    exact once_step h hb
  | call n message account token reachable =>
    simp only [HandoffPause.step] at hs
    split at hs
    · cases hs
    · split at hs
      · cases hs
        exact h
      · split_ifs at hs
        · cases hs
          exact h.setLock _ _
        · cases hs
          exact h
  | session n session =>
    simp only [HandoffPause.step] at hs
    split at hs
    · cases hs
    · split at hs
      · cases hs
      · rename_i db p' hadv
        cases hs
        obtain ⟨hu, rows, hrows, hall⟩ := advance_messages h.honest.once.constraints hadv
        exact h.withConversations hu hrows hall
  | leave n reachable =>
    simp only [HandoffPause.step] at hs
    split at hs
    · cases hs
      show OnceInv (if _ then _ else _)
      split_ifs
      · exact h.setLock _ _
      · exact h
    · cases hs
  | crash n =>
    cases hs
    exact h

end Calls

theorem once_start : OnceInv systemStart.base where
  honest := honest_start
  phases _ := trivial
  attempts := List.forall_mem_nil _
  replies := List.forall_mem_nil _

theorem count_of_unique {ρ : Type*} {xs : List ρ} {p : ρ → Bool} (h : xs.countP p ≤ 1)
    (hx : ∃ x ∈ xs, p x = true) : xs.countP p = 1 := by
  have hpos := List.countP_pos_iff.mpr hx
  omega

/-- In every reachable state of the whole system, a completed message has exactly one row
under its id, exactly one under its reply id and one attempt, its reply was passed to the
delivery adapter exactly once, and the provider took it. -/
theorem completed_exactly_once (cfg : Config) {schedule : List HandoffPause.Label}
    {t : HandoffPause.State}
    (hrun : exec (HandoffPause.step cfg) systemStart schedule = some t) {m : MessageRecord}
    (hm : m ∈ t.base.conversations.messages) (hc : m.processingStatus = some .completed) :
    ∃ messageId, m.externalMessageId = some messageId ∧
      t.base.conversations.messages.countP (fun x => x.externalMessageId = some messageId) = 1 ∧
      t.base.conversations.messages.countP
        (fun x => x.externalMessageId = some (replyId messageId)) = 1 ∧
      t.base.deliveries.tables.attempts.countP
        (fun a => a.idempotencyKey = replyKey messageId) = 1 ∧
      t.base.sent.countP (fun r => r.idempotencyKey = replyKey messageId) = 1 ∧
      ∃ a ∈ t.base.deliveries.tables.attempts, a.idempotencyKey = replyKey messageId ∧
        DeliveryTruth.Taken t.base.deliveries.tables a := by
  have hinv : OnceInv t.base := exec_invariant (I := fun s : HandoffPause.State => OnceInv s.base)
    (fun _ _ _ hi hs => system_once_step hi hs) once_start hrun
  obtain ⟨messageId, hext, hid⟩ := hinv.honest.completed m hm hc
  have honce := hinv.honest.once.atMostOnce messageId
  obtain ⟨a, ha, hkey, htaken⟩ := hid.taken hinv.honest.sound
  have hsent : replyKey messageId ∈ t.base.sentKeys := by
    obtain ⟨x, hx, hxkey, p, hp⟩ := hid
    exact hxkey ▸ hinv.attempts x hx (by simp [hp])
  obtain ⟨other, he, hreplied⟩ := hinv.replies _ hsent
  obtain ⟨r, hr, hrkey⟩ := List.mem_map.mp hsent
  refine ⟨messageId, hext, ?_, ?_, ?_, ?_, a, ha, hkey, htaken⟩
  · exact count_of_unique (unique_count hinv.honest.once.constraints.message_external
      (k := messageId) (by simp)) ⟨m, hm, by simpa using hext⟩
  · obtain ⟨x, hx, hxext⟩ := replyKey_injective he ▸ hreplied
    exact count_of_unique honce.reply ⟨x, hx, by simpa using hxext⟩
  · exact count_of_unique honce.attempt ⟨a, ha, by simpa using hkey⟩
  · exact count_of_unique honce.sent ⟨r, hr, by simpa using hrkey⟩

/-- The message of the sample run is completed. -/
theorem sample_exactly_once : ∃ t,
    exec (HandoffPause.step sampleConfig) systemStart (personSchedule ++ visitSchedule) = some t ∧
      ∃ m ∈ t.base.conversations.messages, m.processingStatus = some .completed ∧
      ∃ messageId, m.externalMessageId = some messageId ∧
        t.base.conversations.messages.countP (fun x => x.externalMessageId = some messageId) = 1 ∧
        t.base.conversations.messages.countP
          (fun x => x.externalMessageId = some (replyId messageId)) = 1 ∧
        t.base.deliveries.tables.attempts.countP
          (fun a => a.idempotencyKey = replyKey messageId) = 1 ∧
        t.base.sent.countP (fun r => r.idempotencyKey = replyKey messageId) = 1 ∧
        ∃ a ∈ t.base.deliveries.tables.attempts, a.idempotencyKey = replyKey messageId ∧
          DeliveryTruth.Taken t.base.deliveries.tables a := by
  obtain ⟨t, ht, hsummary⟩ := Option.map_eq_some_iff.mp exec_visitSchedule
  have hstatuses : t.base.conversations.messages.map MessageRecord.processingStatus =
      [some .completed, none, none, none] := congrArg Summary.messages hsummary
  obtain ⟨m, hm, hc⟩ := List.mem_map.mp (hstatuses ▸ List.mem_cons_self)
  exact ⟨t, ht, m, hm, hc, completed_exactly_once sampleConfig ht hm hc⟩

end Piki.System
