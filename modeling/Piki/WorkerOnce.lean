import Piki.WorkerRows

/-! At most one reply for every message, over every interleaving, stall and crash. -/
namespace Piki.Worker
open Table Transition ConversationOrchestrator
variable {cfg : Config} {s t : State}

/-- Attempt ids and idempotency keys are unique. -/
structure UniqueAttempts (d : DeliveryTables) : Prop where
  id : Unique (fun a : DeliveryAttemptRecord => some a.id) d.attempts
  key : Unique (fun a : DeliveryAttemptRecord => some a.idempotencyKey) d.attempts

/-- An attempt with this key is stored. -/
def Claimed (d : DeliveryTables) (key : String) : Prop := ∃ a ∈ d.attempts, a.idempotencyKey = key

theorem UniqueAttempts.of_keys {d d' : DeliveryTables} (h : UniqueAttempts d)
    (hkeys : d'.attempts.map attemptKey = d.attempts.map attemptKey) : UniqueAttempts d' :=
  ⟨unique_of_map (fun k : Uuid × String => some k.1) hkeys h.id,
    unique_of_map (fun k : Uuid × String => some k.2) hkeys h.key⟩

theorem UniqueAttempts.append {d : DeliveryTables} (h : UniqueAttempts d)
    {row : DeliveryAttemptRecord} (hkey : ∀ a ∈ d.attempts, a.idempotencyKey ≠ row.idempotencyKey)
    (hid : ∀ a ∈ d.attempts, a.id ≠ row.id) :
    UniqueAttempts { d with attempts := d.attempts ++ [row] } := by
  refine ⟨unique_append h.id ?_, unique_append h.key ?_⟩
  · rw [conflict_eq_none]
    rintro k hk a ha he
    exact hid a ha (Option.some.inj (he.trans hk.symm))
  · rw [conflict_eq_none]
    rintro k hk a ha he
    exact hkey a ha (Option.some.inj (he.trans hk.symm))

theorem claimed_of_keys {d d' : DeliveryTables} {key : String}
    (hkeys : d'.attempts.map attemptKey = d.attempts.map attemptKey) (h : Claimed d key) :
    Claimed d' key := by
  obtain ⟨a, ha, hk⟩ := h
  have hm : attemptKey a ∈ d'.attempts.map attemptKey := by
    rw [hkeys]
    exact List.mem_map.mpr ⟨a, ha, rfl⟩
  obtain ⟨a', ha', he⟩ := List.mem_map.mp hm
  exact ⟨a', ha', (congrArg Prod.snd he).trans hk⟩

/-- The keys of the requests that were sent. -/
def State.sentKeys (s : State) : List String := s.sent.map DeliveryRequest.idempotencyKey

/-- Whoever is about to send is the only one with this key, the key has an attempt,
and nothing was sent for it. -/
structure Inv (s : State) : Prop where
  constraints : s.conversations.Constraints
  attempts : UniqueAttempts s.deliveries.tables
  posting : ∀ w job aid request, s.workers w = .posting job aid request →
    Claimed s.deliveries.tables request.idempotencyKey ∧ request.idempotencyKey ∉ s.sentKeys
  exclusive : ∀ w w' job job' aid aid' request request', s.workers w = .posting job aid request →
    s.workers w' = .posting job' aid' request' →
    request.idempotencyKey = request'.idempotencyKey → w = w'
  sent_once : s.sentKeys.Nodup
  sent_claimed : ∀ key ∈ s.sentKeys, Claimed s.deliveries.tables key

theorem inv_start {db : ConversationTables} {d : DeliveryTables} (hu : db.Constraints)
    (hd : d.Constraints) : Inv (start db d) where
  constraints := hu
  attempts := ⟨hd.attempt_id, hd.attempt_key⟩
  posting w job aid request h := by cases h
  exclusive w w' job job' aid aid' request request' h := by cases h
  sent_once := List.nodup_nil
  sent_claimed key h := by cases h

/-- Steps in which nobody starts to send and nothing is sent. -/
theorem inv_quiet (h : Inv s) (hu : t.conversations.Constraints)
    (hattempts : UniqueAttempts t.deliveries.tables)
    (hclaimed : ∀ key, Claimed s.deliveries.tables key → Claimed t.deliveries.tables key)
    (hposting : ∀ w job aid request, t.workers w = .posting job aid request →
      s.workers w = .posting job aid request) (hsent : t.sent = s.sent) : Inv t := by
  have hkeys : t.sentKeys = s.sentKeys := by rw [State.sentKeys, hsent]; rfl
  refine ⟨hu, hattempts, ?_, ?_, by rw [hkeys]; exact h.sent_once, ?_⟩
  · intro w job aid request hw
    obtain ⟨hc, hn⟩ := h.posting w job aid request (hposting w job aid request hw)
    rw [hkeys]
    exact ⟨hclaimed _ hc, hn⟩
  · intro w w' job job' aid aid' request request' hw hw' he
    exact h.exclusive w w' job job' aid aid' request request' (hposting _ _ _ _ hw)
      (hposting _ _ _ _ hw') he
  · intro key hk
    rw [hkeys] at hk
    exact hclaimed key (h.sent_claimed key hk)

/-- The creator of an attempt becomes the only sender of its key. -/
theorem inv_created (h : Inv s) {w : ℕ} {job : ClaimedInbound} {aid : Uuid}
    {request : DeliveryRequest} {row : DeliveryAttemptRecord}
    (locks : ConversationScope → Option ℕ)
    (hrow : row.idempotencyKey = request.idempotencyKey)
    (hkey : ∀ a ∈ s.deliveries.tables.attempts, a.idempotencyKey ≠ row.idempotencyKey)
    (hid : ∀ a ∈ s.deliveries.tables.attempts, a.id ≠ row.id) :
    Inv (s.moved w (.posting job aid request) s.conversations
      { s.deliveries.tables with attempts := s.deliveries.tables.attempts ++ [row] } locks
      s.sent) := by
  have hfresh : ¬ Claimed s.deliveries.tables request.idempotencyKey := by
    rintro ⟨a, ha, he⟩
    exact hkey a ha (he.trans hrow.symm)
  have hclaimed : ∀ key, Claimed s.deliveries.tables key → Claimed
      { s.deliveries.tables with attempts := s.deliveries.tables.attempts ++ [row] } key := by
    rintro key ⟨a, ha, he⟩
    exact ⟨a, List.mem_append_left _ ha, he⟩
  refine ⟨h.constraints, h.attempts.append hkey hid, ?_, ?_, h.sent_once, ?_⟩
  · intro w' job' aid' request' hw'
    by_cases he : w' = w
    · subst he
      simp only [State.moved, Function.update_self] at hw'
      cases hw'
      refine ⟨⟨row, by simp [State.moved, Callbacks.State.withTables], hrow⟩, ?_⟩
      intro hs
      exact hfresh (h.sent_claimed _ hs)
    · simp only [State.moved, Function.update_of_ne he] at hw'
      obtain ⟨hc, hn⟩ := h.posting w' job' aid' request' hw'
      exact ⟨hclaimed _ hc, hn⟩
  · intro w₁ w₂ job₁ job₂ aid₁ aid₂ r₁ r₂ h₁ h₂ he
    by_cases e₁ : w₁ = w <;> by_cases e₂ : w₂ = w
    · rw [e₁, e₂]
    · subst e₁
      simp only [State.moved, Function.update_self, Function.update_of_ne e₂] at h₁ h₂
      cases h₁
      exact absurd (he ▸ (h.posting w₂ _ _ _ h₂).1) hfresh
    · subst e₂
      simp only [State.moved, Function.update_self, Function.update_of_ne e₁] at h₁ h₂
      cases h₂
      exact absurd (he ▸ (h.posting w₁ _ _ _ h₁).1) hfresh
    · simp only [State.moved, Function.update_of_ne e₁, Function.update_of_ne e₂] at h₁ h₂
      exact h.exclusive w₁ w₂ _ _ _ _ _ _ h₁ h₂ he
  · intro key hk
    exact hclaimed key (h.sent_claimed key hk)

/-- The sender leaves the phase in which it may send as it sends. -/
theorem inv_invoke (h : Inv s) {w : ℕ} {job : ClaimedInbound} {aid : Uuid}
    {request : DeliveryRequest} (hw : s.workers w = .posting job aid request)
    (locks : ConversationScope → Option ℕ) :
    Inv (s.moved w (.awaiting job aid request) s.conversations s.deliveries.tables locks
      (s.sent ++ [request])) := by
  have hold : ∀ w' job' aid' request',
      (s.moved w (.awaiting job aid request) s.conversations s.deliveries.tables locks
        (s.sent ++ [request])).workers w' = .posting job' aid' request' →
      w' ≠ w ∧ s.workers w' = .posting job' aid' request' := by
    intro w' job' aid' request' hw'
    by_cases he : w' = w
    · subst he
      simp only [State.moved, Function.update_self] at hw'
      cases hw'
    · simp only [State.moved, Function.update_of_ne he] at hw'
      exact ⟨he, hw'⟩
  obtain ⟨hclaimed, hunsent⟩ := h.posting w job aid request hw
  have hkeys : (s.moved w (.awaiting job aid request) s.conversations s.deliveries.tables locks
      (s.sent ++ [request])).sentKeys = s.sentKeys ++ [request.idempotencyKey] := by
    simp [State.sentKeys, State.moved]
  refine ⟨h.constraints, h.attempts, ?_, ?_, ?_, ?_⟩
  · intro w' job' aid' request' hw'
    obtain ⟨hne, hp⟩ := hold w' job' aid' request' hw'
    obtain ⟨hc, hn⟩ := h.posting w' job' aid' request' hp
    refine ⟨hc, ?_⟩
    rw [hkeys, List.mem_append, List.mem_singleton, not_or]
    exact ⟨hn, fun he => hne (h.exclusive w' w _ _ _ _ _ _ hp hw he)⟩
  · intro w₁ w₂ job₁ job₂ aid₁ aid₂ r₁ r₂ h₁ h₂ he
    exact h.exclusive w₁ w₂ _ _ _ _ _ _ (hold _ _ _ _ h₁).2 (hold _ _ _ _ h₂).2 he
  · rw [hkeys]
    refine List.nodup_append.mpr ⟨h.sent_once, List.nodup_singleton _, ?_⟩
    intro a ha b hb he
    rw [List.mem_singleton] at hb
    exact hunsent (hb ▸ he ▸ ha)
  · intro key hk
    rw [hkeys, List.mem_append, List.mem_singleton] at hk
    rcases hk with hk | rfl
    · exact h.sent_claimed key hk
    · exact hclaimed

def Phase.isPosting : Phase → Bool
  | .posting _ _ _ => true
  | _ => false

theorem Phase.Lapses.not_posting {p q : Phase} (h : p.Lapses q) : q.isPosting = false := by
  cases q with
  | posting => cases h.1
  | _ => rfl

/-- A move that neither sends nor makes its worker a sender. -/
theorem inv_unsent {a : Action} {w : ℕ} {p q : Phase} {db : ConversationTables} {d : DeliveryTables}
    (h : Inv s) (hmove : Move cfg s a p q db d s.sent) (hq : q.isPosting = false)
    (locks : ConversationScope → Option ℕ) : Inv (s.moved w q db d locks s.sent) := by
  have hd : UniqueAttempts d ∧ ∀ key, Claimed s.deliveries.tables key → Claimed d key := by
    rcases hmove.attempts with hkeys | ⟨row, hrows, hkey, hid⟩
    · exact ⟨h.attempts.of_keys hkeys, fun key => claimed_of_keys hkeys⟩
    · have happend := h.attempts.append hkey hid
      refine ⟨⟨by rw [hrows]; exact happend.id, by rw [hrows]; exact happend.key⟩, ?_⟩
      rintro key ⟨a, ha, he⟩
      exact ⟨a, by rw [hrows]; exact List.mem_append_left _ ha, he⟩
  refine inv_quiet h (hmove.messages.2 h.constraints) hd.1 hd.2 ?_ rfl
  intro w' job aid request hw'
  by_cases he : w' = w
  · subst he
    simp only [State.moved, Function.update_self] at hw'
    rw [hw'] at hq
    cases hq
  · simpa only [State.moved, Function.update_of_ne he] using hw'

theorem inv_move {a : Action} {w : ℕ} {q : Phase} {db : ConversationTables} {d : DeliveryTables}
    {sent : List DeliveryRequest} (h : Inv s) (hmove : Move cfg s a (s.workers w) q db d sent)
    (locks : ConversationScope → Option ℕ) : Inv (s.moved w q db d locks sent) := by
  have hall := hmove
  generalize hp : s.workers w = p at hmove hall
  cases hmove with
  | lapse hq => exact inv_unsent h hall hq.not_posting locks
  | acquire | stored | fresh | release | receive => exact inv_unsent h hall rfl locks
  | claim hq hc | finalize hc hq =>
    refine inv_unsent h hall ?_ locks
    rcases hq with rfl | hq
    · rfl
    · exact hq.not_posting
  | compose ports handoffId now hq =>
    refine inv_unsent h hall ?_ locks
    rcases hq with ⟨text, fb, rfl⟩ | hq
    · rfl
    · exact hq.not_posting
  | record id now hq =>
    refine inv_unsent h hall ?_ locks
    rcases hq with ⟨reply, -, rfl⟩ | hq
    · rfl
    · exact hq.not_posting
  | replayed hrequest hc hq =>
    refine inv_unsent h hall ?_ locks
    rcases hq with ⟨result, -, rfl⟩ | hq
    · rfl
    · exact hq.not_posting
  | settle hc hq | fail hc hq => exact inv_unsent h hall hq.not_posting locks
  | created hrequest hc hq =>
    rcases hq with rfl | hq
    · rcases DeliveryStore.claim_ok hc with ⟨hfalse, -⟩ | ⟨-, -, hkey, hid, rfl⟩
      · cases hfalse
      · exact inv_created h locks rfl hkey hid
    · exact inv_unsent h hall hq.not_posting locks
  | invoke => exact inv_invoke h hp locks

/-- No step of the system breaks the invariant. -/
theorem inv_step {l : Label} (h : Inv s) (hs : step cfg s l = some t) : Inv t := by
  have hu := (step_messages hs).2 h.constraints
  cases step_stepped hs with
  | refused => exact h
  | recorded | expire =>
    exact inv_quiet h hu h.attempts (fun _ hk => hk) (fun _ _ _ _ hw => hw) rfl
  | callback hd =>
    have hkeys := callback_keys hd
    exact inv_quiet h hu (h.attempts.of_keys hkeys) (fun _ => claimed_of_keys hkeys)
      (fun _ _ _ _ hw => hw) rfl
  | worker locks hact hmove => exact inv_move h hmove locks

/-- The rows and the calls of the adapter that concern one message id. -/
structure AtMostOnce (s : State) (messageId : String) : Prop where
  inbound : s.conversations.messages.countP (fun m => m.direction = .inbound ∧
    m.externalMessageId = some messageId) ≤ 1
  reply : s.conversations.messages.countP (fun m =>
    m.externalMessageId = some (replyId messageId)) ≤ 1
  attempt : s.deliveries.tables.attempts.countP (fun a =>
    a.idempotencyKey = replyKey messageId) ≤ 1
  sent : s.sent.countP (fun r => r.idempotencyKey = replyKey messageId) ≤ 1

theorem Inv.atMostOnce (h : Inv s) (messageId : String) : AtMostOnce s messageId where
  inbound := by
    refine unique_count h.constraints.message_external (k := messageId) ?_
    intro m hm
    simp only [decide_eq_true_eq] at hm
    exact hm.2
  reply := by
    refine unique_count h.constraints.message_external (k := replyId messageId) ?_
    intro m hm
    simpa using hm
  attempt := by
    refine unique_count h.attempts.key (k := replyKey messageId) ?_
    intro a ha
    simpa using ha
  sent := by
    have hcount : s.sent.countP (fun r => r.idempotencyKey = replyKey messageId) =
        s.sentKeys.count (replyKey messageId) := by
      rw [State.sentKeys, List.count, List.countP_map]
      rfl
    rw [hcount]
    exact List.nodup_iff_count_le_one.mp h.sent_once _

/-- Whatever the workers, webhook deliveries and callbacks do, in whatever order, a
message has at most one inbound row, one reply row, one attempt and one call of the
adapter. -/
theorem reply_at_most_once (cfg : Config) {db : ConversationTables} {d : DeliveryTables}
    (hu : db.Constraints) (hd : d.Constraints) {schedule : List Label}
    (hrun : exec (step cfg) (start db d) schedule = some t) (messageId : String) :
    AtMostOnce t messageId :=
  (exec_invariant (fun _ _ _ hi hs => inv_step hi hs) (inv_start hu hd) hrun).atMostOnce messageId

section Samples

def sampleConfig : Config := ⟨120, 3, .latin1, fun _ => "error"⟩

/-- A webhook message that asks for picks while no search is configured. -/
def pickMessage : InboundMessage :=
  accepted (InboundMessage.make "wamid.1" .whatsapp "549" "549" .text (some "hay picks") 0
    [("phone_number_id", "phone")]) (by decide +kernel)

/-- Another message of the same conversation. -/
def nextMessage : InboundMessage :=
  accepted (InboundMessage.make "wamid.2" .whatsapp "549" "549" .text (some "hay picks") 0
    [("phone_number_id", "phone")]) (by decide +kernel)

/-- One worker takes the message to the point where its reply is recorded. -/
def recordActions : List Action :=
  [.claim 0 [] true, .acquire 5 true, .lookup, .compose offlinePorts 9 0 true, .record 3 0 true]

/-- The rest of the job: the adapter is called and the message is accepted. -/
def deliverActions : List Action :=
  [.release true, .deliver 4 0 true, .invoke,
    .receive fun _ => .response 200 none (some ["wamid.out"]), .finalize 0 true, .settle 0 true]

/-- The webhook is delivered twice and one worker answers the message. -/
def answeredSchedule : List Label :=
  [.ingest (fun _ => ⟨1, 2, 0, 0⟩) [pickMessage], .ingest (fun _ => ⟨6, 7, 0, 0⟩) [pickMessage]] ++
    (recordActions ++ deliverActions).map (.worker 1)

set_option maxRecDepth 10000 in
/-- The answered message was sent once, and the bound holds of its run. -/
theorem answered_once : ∃ t, exec (step sampleConfig) (start .empty .empty) answeredSchedule = some t ∧
    t.sentKeys = ["reply:wamid.1"] ∧ AtMostOnce t "wamid.1" := by
  have hsent : (exec (step sampleConfig) (start .empty .empty) answeredSchedule).map State.sentKeys =
      some ["reply:wamid.1"] := by
    decide
  obtain ⟨t, ht, hkeys⟩ := Option.map_eq_some_iff.mp hsent
  exact ⟨t, ht, hkeys, reply_at_most_once sampleConfig ConversationTables.empty_constraints
    DeliveryTables.empty_constraints ht "wamid.1"⟩

end Samples

end Piki.Worker
