import Piki.DeliveryTruth

/-! Atomic runs of `claim`, `finalize` and `apply_callback`: what the columns of an
attempt say about each other, and that every stored attempt can be replayed. -/
namespace Piki.DeliveryAttempts
open Table Transition DeliveryStore DeliveryTruth

/-- `sending` lists the attempts that `send` created and has not finalised, and
`issued` the ids that Meta has given out. -/
structure State where
  tables : DeliveryTables
  sending : List (Uuid × DeliveryRequest)
  issued : List String

/-- A callback is update `n` of a webhook payload. -/
inductive Label
  | claim (attemptId conversationId : Uuid) (request : DeliveryRequest)
  | finalize (now : Time) (attemptId : Uuid) (request : DeliveryRequest)
      (provider : MetaBody → PostOutcome)
  | callback (timestamp : Webhook.Timestamp) (expectedWabaId expectedPhoneNumberId : Option String)
      (payload : MetaWebhookPayload) (n : ℕ)

/-- Meta never gives out an id twice. -/
def Unissued (s : State) (result : DeliveryResult) : Prop :=
  ∀ p ∈ result.providerMessageId, p ∉ s.issued

instance (s : State) (result : DeliveryResult) : Decidable (Unissued s result) := by
  unfold Unissued; infer_instance

def step (s : State) : Label → Option State
  | .claim attemptId conversationId request =>
    match claim s.tables attemptId conversationId request with
    | .error _ => some s
    | .ok (claim, db) =>
      some ⟨db, if claim.created then (claim.attempt.id, request) :: s.sending else s.sending,
        s.issued⟩
  | .finalize now attemptId request provider =>
    if (attemptId, request) ∈ s.sending then
      let sending := s.sending.filter fun p => decide (p.1 ≠ attemptId)
      match (MetaDeliveryAdapter.send provider request).2 with
      | .error _ => some { s with sending := sending }
      | .ok result =>
        if Unissued s result then
          match finalize s.tables now attemptId result with
          | .error _ => some { s with sending := sending }
          | .ok (_, db) => some ⟨db, sending, s.issued ++ result.providerMessageId.toList⟩
        else none
    else none
  | .callback timestamp expectedWabaId expectedPhoneNumberId payload n =>
    match Webhook.normalizeWebhook timestamp expectedWabaId expectedPhoneNumberId payload with
    | .error _ => some s
    | .ok events =>
      match events.statuses[n]? with
      | none => none
      | some callback =>
        match applyCallback s.tables callback with
        | .error _ => some s
        | .ok (_, db) => some { s with tables := db }

def start : State := ⟨.empty, [], []⟩

/-- What the columns of one attempt say about each other. -/
structure Truthful (a : DeliveryAttemptRecord) : Prop where
  pending : a.status = .pending → a.providerMessageId = none
  taken : taken a.status = true → truthy a.providerMessageId = true ∧ a.errorCode = none
  refused : a.status = .failed ∨ a.status = .unknown → truthy a.errorCode = true

/-- The bounds of `DeliveryResult`. -/
structure Fits (a : DeliveryAttemptRecord) : Prop where
  provider : AtMost 255 a.providerMessageId
  errorCode : AtMost 100 a.errorCode
  errorMessage : AtMost 500 a.errorMessage
  trace : Bounded 1 128 a.traceId

/-- A replay is answered from any truthful row. -/
theorem existingResult_ok {a : DeliveryAttemptRecord} (ht : Truthful a) (hf : Fits a) :
    ∃ r, IdempotentDeliveryService.existingResult (snapshot a) = .ok r := by
  unfold IdempotentDeliveryService.existingResult
  cases hs : (snapshot a).state.toStatus with
  | none =>
    refine ⟨_, dif_pos ⟨?_, ?_, ?_, hf.trace, ?_, ?_, ?_⟩⟩ <;> decide
  | some status =>
    have hstate : a.status = status.toState := by
      change a.status.toStatus = some status at hs
      cases he : a.status <;> rw [he] at hs <;> cases hs <;> rfl
    refine ⟨_, dif_pos ⟨hf.provider, hf.errorCode, hf.errorMessage, hf.trace, ?_, ?_, ?_⟩⟩
    · intro herror
      refine ht.refused ?_
      rw [hstate]
      cases status <;> first | exact .inl rfl | exact .inr rfl | cases herror
    · intro herror
      exact (ht.taken (by rw [hstate, taken_toState, herror]; rfl)).2
    · intro herror
      exact (ht.taken (by rw [hstate, taken_toState, herror]; rfl)).1

theorem toString_ne_empty (n : ℤ) : toString n ≠ "" := by
  cases n with
  | ofNat n => exact Nat.repr_ne_empty
  | negSucc n =>
    intro h
    have hlist := congrArg String.toList h
    simp [toString, Int.repr] at hlist

/-- What `normalize_webhook` guarantees of a status update. -/
structure Normalized (callback : MetaStatusUpdate) : Prop where
  reported : Callbacks.Reported callback
  code : ∀ c ∈ callback.errorCode, c ≠ ""

theorem normalizeStatus_normalized {timestamp : Webhook.Timestamp} {phoneNumberId : String}
    {status : MetaStatus} {callback : MetaStatusUpdate}
    (h : Webhook.normalizeStatus timestamp phoneNumberId status = .ok callback) :
    Normalized callback := by
  obtain ⟨occurredAt, -, h⟩ := bind_ok h
  unfold MetaStatusUpdate.make at h
  split_ifs at h
  · cases h
    refine ⟨⟨status.status, rfl⟩, ?_⟩
    intro c hc
    obtain ⟨e, -, rfl⟩ := Option.map_eq_some_iff.mp hc
    exact toString_ne_empty e.code
  · cases h

/-- The invariant of atomic runs. Events belong to attempts that were finalised, and
every id in the tables was issued. -/
structure Inv (s : State) : Prop where
  ids : Unique (fun a : DeliveryAttemptRecord => some a.id) s.tables.attempts
  rows : ∀ a ∈ s.tables.attempts, Truthful a ∧ Fits a
  events : ∀ e ∈ s.tables.events, ∃ a ∈ s.tables.attempts,
    a.id = e.deliveryAttemptId ∧ a.status ≠ .pending
  attemptIds : ∀ a ∈ s.tables.attempts, ∀ p ∈ a.providerMessageId, p ∈ s.issued
  eventIds : ∀ e ∈ s.tables.events, ∀ p ∈ e.providerMessageId, p ∈ s.issued
  sending : ∀ x ∈ s.sending, ∃ a ∈ s.tables.attempts, a.id = x.1 ∧ a.status = .pending

theorem inv_start : Inv start where
  ids := unique_nil _
  rows a ha := by cases ha
  events e he := by cases he
  attemptIds a ha := by cases ha
  eventIds e he := by cases he
  sending x hx := by cases hx

theorem pendingRow_truthful (attemptId conversationId : Uuid) (request : DeliveryRequest) :
    Truthful (pendingRow attemptId conversationId request) ∧
      Fits (pendingRow attemptId conversationId request) := by
  refine ⟨⟨fun _ => rfl, ?_, ?_⟩, ⟨?_, ?_, ?_, request.traceId_bounded⟩⟩
  · intro h
    cases h
  · rintro (h | h) <;> cases h
  all_goals
    intro t ht
    cases ht

theorem inv_claim {s : State} {attemptId conversationId : Uuid} {request : DeliveryRequest}
    {created : Bool} {attempt : DeliveryAttemptSnapshot} {db : DeliveryTables} (h : Inv s)
    (hc : claim s.tables attemptId conversationId request = .ok (⟨created, attempt⟩, db)) :
    Inv ⟨db, if created then (attempt.id, request) :: s.sending else s.sending, s.issued⟩ := by
  rcases claim_ok hc with ⟨rfl, rfl, -⟩ | ⟨rfl, rfl, -, hid, rfl⟩
  · exact h
  · have hold : ∀ {q : DeliveryAttemptRecord → Prop}, (∃ a ∈ s.tables.attempts, q a) →
        ∃ a ∈ s.tables.attempts ++ [pendingRow attemptId conversationId request], q a := by
      rintro q ⟨a, ha, hq⟩
      exact ⟨a, List.mem_append_left _ ha, hq⟩
    refine ⟨unique_append h.ids ?_, ?_, fun e he => hold (h.events e he), ?_, h.eventIds, ?_⟩
    · rw [conflict_eq_none]
      rintro k hk a ha he
      exact hid a ha (Option.some.inj (he.trans hk.symm))
    · intro a ha
      rcases List.mem_append.mp ha with ha | ha
      · exact h.rows a ha
      · rw [List.mem_singleton.mp ha]
        exact pendingRow_truthful _ _ _
    · intro a ha p hp
      rcases List.mem_append.mp ha with ha | ha
      · exact h.attemptIds a ha p hp
      · rw [List.mem_singleton.mp ha] at hp
        cases hp
    · intro x hx
      rcases List.mem_cons.mp hx with rfl | hx
      · exact ⟨_, List.mem_append_right _ (List.mem_singleton_self _), rfl, rfl⟩
      · exact hold (h.sending x hx)

/-- A result of the adapter makes a truthful row. -/
theorem finalizeRow_truthful {result : DeliveryResult} (hresult : result.FromAdapter)
    {a : DeliveryAttemptRecord} (ha : Fits a) :
    Truthful (finalizeRow result a) ∧ Fits (finalizeRow result a) ∧
      (finalizeRow result a).status ≠ .pending := by
  have hpending : result.status.toState ≠ .pending := by cases result.status <;> decide
  refine ⟨⟨fun hp => absurd hp hpending, ?_, ?_⟩, ⟨result.provider_bounded,
    result.errorCode_bounded, result.errorMessage_bounded, ha.trace⟩, hpending⟩
  · intro ht
    have herror : result.status.isError = false := by
      simpa [finalizeRow, taken_toState] using ht
    exact ⟨result.provider_shape herror, result.success_shape herror⟩
  · intro hst
    refine result.error_shape ?_
    rcases hresult with ⟨haccepted, -⟩ | ⟨herror, -⟩
    · simp [finalizeRow, haccepted, DeliveryStatus.toState] at hst
    · exact herror

/-- The second half of `send` never meets the error of `finalize` or the constraint. -/
theorem finalize_succeeds {s : State} (h : Inv s) {attemptId : Uuid} {request : DeliveryRequest}
    (hx : (attemptId, request) ∈ s.sending) {result : DeliveryResult} (hnew : Unissued s result)
    (now : Time) : ∃ db, finalize s.tables now attemptId result = .ok ((), db) := by
  obtain ⟨a, ha, hid, hpending⟩ := h.sending _ hx
  have hany : s.tables.attempts.any (pendingAttempt attemptId) = true := by
    refine List.any_eq_true.mpr ⟨a, ha, ?_⟩
    simp [pendingAttempt, hid, hpending]
  have hfree : conflict DeliveryStatusEventRecord.providerState s.tables.events
      (resultEvent attemptId now result) = none := by
    rw [conflict_eq_none]
    intro k hk e he hek
    obtain ⟨p, hp, rfl⟩ := Option.map_eq_some_iff.mp hk
    obtain ⟨p', hp', heq⟩ := Option.map_eq_some_iff.mp hek
    have hpp : p' = p := congrArg Prod.fst heq
    rw [hpp] at hp'
    exact hnew p hp (h.eventIds e he p hp')
  unfold finalize
  rw [if_pos hany]
  simp only [requireFresh, hfree]
  exact ⟨_, rfl⟩

/-- Only a pending attempt is finalized. -/
example : pendingAttempt 1 ⟨1, 2, "reply:wamid.1", none, .accepted, none, none, "t"⟩ = false := by
  decide +kernel

theorem Inv.drop {s : State} (h : Inv s) (attemptId : Uuid) :
    Inv { s with sending := s.sending.filter fun x => decide (x.1 ≠ attemptId) } :=
  ⟨h.ids, h.rows, h.events, h.attemptIds, h.eventIds, fun x hx =>
    h.sending x (List.mem_of_mem_filter hx)⟩

theorem inv_finalize {s : State} {now : Time} {attemptId : Uuid} {result : DeliveryResult}
    {db : DeliveryTables} (h : Inv s) (hresult : result.FromAdapter)
    (hf : finalize s.tables now attemptId result = .ok ((), db)) :
    Inv ⟨db, s.sending.filter fun x => decide (x.1 ≠ attemptId),
      s.issued ++ result.providerMessageId.toList⟩ := by
  obtain ⟨⟨a, ha, hid, hpending⟩, -, rfl⟩ := finalize_ok hf
  have hissued : ∀ p, p ∈ s.issued ∨ p ∈ result.providerMessageId →
      p ∈ s.issued ++ result.providerMessageId.toList := by
    rintro p (hp | hp)
    · exact List.mem_append_left _ hp
    · exact List.mem_append_right _ (Option.mem_toList.mpr hp)
  have hrow : ∀ x ∈ s.tables.attempts, ∃ y ∈ updateWhere (pendingAttempt attemptId)
      (finalizeRow result) s.tables.attempts, y.id = x.id ∧
        (x.id = attemptId → x.status = .pending → y.status ≠ .pending) ∧
        (x.id ≠ attemptId ∨ x.status ≠ .pending → y = x) := by
    intro x hx
    refine ⟨_, mem_updateWhere.mpr ⟨x, hx, rfl⟩, ?_⟩
    by_cases hp : x.id = attemptId ∧ x.status = .pending
    · rw [if_pos (by simpa [pendingAttempt] using hp)]
      refine ⟨rfl, fun _ _ => (finalizeRow_truthful hresult (h.rows x hx).2).2.2, ?_⟩
      rintro (hne | hne)
      · exact absurd hp.1 hne
      · exact absurd hp.2 hne
    · rw [if_neg (by simpa [pendingAttempt] using hp)]
      exact ⟨rfl, fun hi hst => absurd ⟨hi, hst⟩ hp, fun _ => rfl⟩
  refine ⟨unique_updateWhere (fun _ _ => rfl) h.ids, ?_, ?_, ?_, ?_, ?_⟩
  · intro y hy
    obtain ⟨x, hx, rfl⟩ := mem_updateWhere.mp hy
    obtain ⟨ht, hfit⟩ := h.rows x hx
    split_ifs
    · obtain ⟨ht', hfit', -⟩ := finalizeRow_truthful hresult hfit
      exact ⟨ht', hfit'⟩
    · exact ⟨ht, hfit⟩
  · intro e he
    rcases List.mem_append.mp he with he | he
    · obtain ⟨x, hx, hxe, hne⟩ := h.events e he
      obtain ⟨y, hy, -, -, hsame⟩ := hrow x hx
      rw [hsame (.inr hne)] at hy
      exact ⟨x, hy, hxe, hne⟩
    · rw [List.mem_singleton.mp he]
      obtain ⟨y, hy, hyi, hne, -⟩ := hrow a ha
      exact ⟨y, hy, hyi.trans hid, hne hid hpending⟩
  · intro y hy p hp
    obtain ⟨x, hx, rfl⟩ := mem_updateWhere.mp hy
    refine hissued p ?_
    split_ifs at hp
    · exact .inr hp
    · exact .inl (h.attemptIds x hx p hp)
  · intro e he p hp
    refine hissued p ?_
    rcases List.mem_append.mp he with he | he
    · exact .inl (h.eventIds e he p hp)
    · rw [List.mem_singleton.mp he] at hp
      exact .inr hp
  · intro x hx
    obtain ⟨hx, hne⟩ := List.mem_filter.mp hx
    obtain ⟨b, hb, hbi, hbp⟩ := h.sending x hx
    obtain ⟨y, hy, -, -, hsame⟩ := hrow b hb
    rw [hsame (.inl (by rw [hbi]; exact of_decide_eq_true hne))] at hy
    exact ⟨b, hy, hbi, hbp⟩

/-- A callback that is applied leaves a truthful row. -/
theorem callbackRow_truthful {callback : MetaStatusUpdate} {a : DeliveryAttemptRecord}
    (hn : Normalized callback) (ht : Truthful a) (hf : Fits a)
    (hedge : canTransition a.status callback.status.toState = true) :
    Truthful (callbackRow callback a a) ∧ Fits (callbackRow callback a a) := by
  have htaken := canTransition_taken hedge
  obtain ⟨hpending, -, -⟩ := reported_state hn.reported
  refine ⟨⟨fun hp => absurd hp hpending, ?_, ?_⟩, ⟨hf.provider, ?_, ?_, hf.trace⟩⟩
  · intro hc
    refine ⟨(ht.taken htaken).1, ?_⟩
    simp only [callbackRow, flushed_loaded]
    by_contra hcode
    have hfailed := callback.error_shape.mpr hcode
    simp [callbackRow, hfailed, DeliveryStatus.toState, taken] at hc
  · intro hst
    have hfailed : callback.status = .failed := by
      obtain ⟨name, hname⟩ := hn.reported
      change callback.status.toState = .failed ∨ callback.status.toState = .unknown at hst
      rw [hname] at hst ⊢
      cases name <;> simp_all [MetaStatusName.toStatus, DeliveryStatus.toState]
    obtain ⟨c, hc⟩ := Option.ne_none_iff_exists'.mp (callback.error_shape.mp hfailed)
    simp only [callbackRow, flushed_loaded, hc]
    simpa [truthy] using hn.code c hc
  · simp only [callbackRow, flushed_loaded]
    exact callback.errorCode_bounded
  · simp only [callbackRow, flushed_loaded]
    exact callback.errorMessage_bounded

/-- The row that a callback selected was finalised before, so no pending row changes. -/
theorem inv_commit {s : State} {callback : MetaStatusUpdate} {attempt : DeliveryAttemptRecord}
    (h : Inv s) (hn : Normalized callback) (hm : attempt ∈ s.tables.attempts)
    (hpid : attempt.providerMessageId = some callback.providerMessageId) :
    Inv { s with tables := (commitCallback s.tables callback attempt).2 } := by
  have hknown := h.attemptIds attempt hm _ hpid
  have hsettled : attempt.status ≠ .pending := by
    intro hp
    rw [(h.rows attempt hm).1.pending hp] at hpid
    cases hpid
  obtain ⟨hpending, -, -⟩ := reported_state hn.reported
  have hrow : ∀ x ∈ s.tables.attempts, ∃ y ∈ (commitCallback s.tables callback attempt).2.attempts,
      y.id = x.id ∧ (x.status ≠ .pending → y.status ≠ .pending) ∧
      (x.status = .pending → y = x) := by
    intro x hx
    simp only [commitCallback]
    split_ifs
    · refine ⟨_, mem_updateWhere.mpr ⟨x, hx, rfl⟩, ?_⟩
      by_cases hi : x.id = attempt.id
      · rw [if_pos (decide_eq_true hi)]
        refine ⟨rfl, fun _ => hpending, ?_⟩
        intro hp
        rw [Callbacks.attempt_eq h.ids hx hm hi] at hp
        exact absurd hp hsettled
      · rw [if_neg (by simpa using hi)]
        exact ⟨rfl, id, fun _ => rfl⟩
    · exact ⟨x, hx, rfl, id, fun _ => rfl⟩
  refine ⟨Callbacks.commitCallback_ids callback attempt h.ids, ?_, ?_, ?_, ?_, ?_⟩
  · intro y hy
    rcases Callbacks.commitCallback_attempts hy with hy | ⟨hedge, x, hx, hi, rfl⟩
    · exact h.rows y hy
    · rw [Callbacks.attempt_eq h.ids hx hm hi]
      exact callbackRow_truthful hn (h.rows attempt hm).1 (h.rows attempt hm).2 hedge
  · intro e he
    rw [Callbacks.commitCallback_events] at he
    rcases List.mem_append.mp he with he | he
    · obtain ⟨x, hx, hxe, hne⟩ := h.events e he
      obtain ⟨y, hy, hyi, hyne, -⟩ := hrow x hx
      exact ⟨y, hy, hyi.trans hxe, hyne hne⟩
    · rw [List.mem_singleton.mp he]
      obtain ⟨y, hy, hyi, hyne, -⟩ := hrow attempt hm
      exact ⟨y, hy, hyi, hyne hsettled⟩
  · intro y hy p hp
    rcases Callbacks.commitCallback_attempts hy with hy | ⟨-, x, hx, -, rfl⟩
    · exact h.attemptIds y hy p hp
    · exact h.attemptIds x hx p hp
  · intro e he p hp
    rw [Callbacks.commitCallback_events] at he
    rcases List.mem_append.mp he with he | he
    · exact h.eventIds e he p hp
    · rw [List.mem_singleton.mp he] at hp
      cases hp
      exact hknown
  · intro x hx
    obtain ⟨b, hb, hbi, hbp⟩ := h.sending x hx
    obtain ⟨y, hy, -, -, hsame⟩ := hrow b hb
    rw [hsame hbp] at hy
    exact ⟨b, hy, hbi, hbp⟩

theorem inv_callback {s : State} {callback : MetaStatusUpdate} {status : CallbackApplyStatus}
    {db : DeliveryTables} (h : Inv s) (hn : Normalized callback)
    (hc : applyCallback s.tables callback = .ok (status, db)) : Inv { s with tables := db } := by
  rcases applyCallback_ok hc with ⟨rfl, -⟩ | ⟨attempt, hsel, ⟨rfl, -⟩ | ⟨-, hcommit⟩⟩
  · exact h
  · exact h
  · obtain ⟨hm, hpid⟩ := Callbacks.selectAttempt_mem hsel
    have hinv := inv_commit h hn hm hpid
    rwa [hcommit] at hinv

/-- All that a step can do. -/
theorem step_cases {s t : State} {l : Label} (h : Inv s) (hs : step s l = some t) :
    t = s ∨
    (∃ attemptId, t = { s with sending := s.sending.filter fun x => decide (x.1 ≠ attemptId) }) ∨
    (∃ attemptId conversationId request created attempt db,
      claim s.tables attemptId conversationId request = .ok (⟨created, attempt⟩, db) ∧
      t = ⟨db, if created then (attempt.id, request) :: s.sending else s.sending, s.issued⟩) ∨
    (∃ now attemptId result db, result.FromAdapter ∧ Unissued s result ∧
      finalize s.tables now attemptId result = .ok ((), db) ∧
      t = ⟨db, s.sending.filter fun x => decide (x.1 ≠ attemptId),
        s.issued ++ result.providerMessageId.toList⟩) ∨
    ∃ callback status db, Normalized callback ∧
      applyCallback s.tables callback = .ok (status, db) ∧ t = { s with tables := db } := by
  cases l with
  | claim attemptId conversationId request =>
    simp only [step] at hs
    cases hc : claim s.tables attemptId conversationId request with
    | error e =>
      simp only [hc] at hs
      cases hs
      exact .inl rfl
    | ok r =>
      simp only [hc] at hs
      cases hs
      exact .inr (.inr (.inl ⟨_, _, _, _, _, _, hc, rfl⟩))
  | finalize now attemptId request provider =>
    simp only [step] at hs
    split_ifs at hs with hx
    cases hr : (MetaDeliveryAdapter.send provider request).2 with
    | error e =>
      simp only [hr] at hs
      cases hs
      exact .inr (.inl ⟨attemptId, rfl⟩)
    | ok result =>
      simp only [hr] at hs
      split_ifs at hs with hnew
      obtain ⟨db, hf⟩ := finalize_succeeds h hx hnew now
      simp only [hf] at hs
      cases hs
      exact .inr (.inr (.inr (.inl
        ⟨now, attemptId, result, db, MetaDeliveryAdapter.send_ok hr, hnew, hf, rfl⟩)))
  | callback timestamp waba phone payload n =>
    simp only [step] at hs
    cases hw : Webhook.normalizeWebhook timestamp waba phone payload with
    | error e =>
      simp only [hw] at hs
      cases hs
      exact .inl rfl
    | ok events =>
      simp only [hw] at hs
      cases hn : events.statuses[n]? with
      | none =>
        simp only [hn] at hs
        cases hs
      | some callback =>
        simp only [hn] at hs
        obtain ⟨_, status, hstatus⟩ :=
          (Webhook.normalizeWebhook_sourced hw).statuses callback (List.mem_of_getElem? hn)
        cases hc : applyCallback s.tables callback with
        | error e =>
          simp only [hc] at hs
          cases hs
          exact .inl rfl
        | ok r =>
          simp only [hc] at hs
          cases hs
          exact .inr (.inr (.inr (.inr
            ⟨callback, _, _, normalizeStatus_normalized hstatus, hc, rfl⟩)))

theorem inv_step {s t : State} {l : Label} (h : Inv s) (hs : step s l = some t) : Inv t := by
  rcases step_cases h hs with rfl | ⟨attemptId, rfl⟩ | ⟨_, _, _, _, _, _, hc, rfl⟩ |
    ⟨_, _, _, _, hresult, -, hf, rfl⟩ | ⟨_, _, _, hn, hc, rfl⟩
  · exact h
  · exact h.drop attemptId
  · exact inv_claim h hc
  · exact inv_finalize h hresult hf
  · exact inv_callback h hn hc

/-- In every reachable state: pending attempts have no provider id and no event, the
taken ones have an id and no error, the refused ones an error; the `finalize` of every
send in progress succeeds; and every stored attempt can be replayed. -/
theorem attempts_truthful {schedule : List Label} {t : State}
    (hrun : exec step start schedule = some t) :
    (∀ a ∈ t.tables.attempts,
      (a.status = .pending → a.providerMessageId = none ∧
        ∀ e ∈ t.tables.events, e.deliveryAttemptId ≠ a.id) ∧
      (a.status ∈ [.accepted, .sent, .delivered, .read] →
        truthy a.providerMessageId = true ∧ a.errorCode = none) ∧
      (a.status ∈ [.failed, .unknown] → truthy a.errorCode = true)) ∧
    (∀ attemptId request, (attemptId, request) ∈ t.sending → ∀ provider result now,
      (MetaDeliveryAdapter.send provider request).2 = .ok result → Unissued t result →
        ∃ db, finalize t.tables now attemptId result = .ok ((), db)) ∧
    ∀ a ∈ t.tables.attempts, ∃ r, IdempotentDeliveryService.existingResult (snapshot a) = .ok r := by
  have hinv : Inv t := exec_invariant (fun _ _ _ hi hs => inv_step hi hs) inv_start hrun
  refine ⟨?_, ?_, ?_⟩
  · intro a ha
    obtain ⟨htruth, -⟩ := hinv.rows a ha
    refine ⟨fun hp => ⟨htruth.pending hp, ?_⟩, ?_, ?_⟩
    · intro e he hid
      obtain ⟨b, hb, hbe, hne⟩ := hinv.events e he
      rw [Callbacks.attempt_eq hinv.ids hb ha (hbe.trans hid)] at hne
      exact hne hp
    · intro hst
      exact htruth.taken (taken_iff.mpr hst)
    · intro hst
      exact htruth.refused (by simpa using hst)
  · intro attemptId request hx provider result now _ hnew
    exact finalize_succeeds hinv hx hnew now
  · intro a ha
    obtain ⟨htruth, hfits⟩ := hinv.rows a ha
    exact existingResult_ok htruth hfits

/-- A reply inside the service window. -/
def replyRequest : DeliveryRequest :=
  accepted (DeliveryRequest.make "reply:wamid.1" "549"
    ⟨.text, some "hola", none, [], none, none, []⟩ .open "t") (by decide +kernel)

/-- A payload with one status of the message `wamid.out`. -/
def statusPayload (status : MetaStatusName) (errors : List MetaStatusError) : MetaWebhookPayload :=
  [⟨"waba", [⟨"phone", [], [⟨"wamid.out", status, "0", "549", errors⟩]⟩]⟩]

/-- A callback overtakes the `finalize`, and the message fails after it was sent. -/
def failedSchedule : List Label :=
  [.claim 1 1 replyRequest, .callback (fun _ => .ok 0) none none (statusPayload .sent []) 0,
    .finalize 0 1 replyRequest fun _ => .response 200 none (some ["wamid.out"]),
    .callback (fun _ => .ok 0) none none (statusPayload .sent []) 0,
    .callback (fun _ => .ok 0) none none (statusPayload .failed [⟨131026, none, none, none⟩]) 0]

theorem failed_attempt_truthful : ∃ t, exec step start failedSchedule = some t ∧
    ∃ a ∈ t.tables.attempts, a.status = .failed ∧ truthy a.errorCode = true ∧
      ∃ r, IdempotentDeliveryService.existingResult (snapshot a) = .ok r := by
  have hfailed : (exec step start failedSchedule).map
      (fun t => t.tables.attempts.any fun a => a.status = .failed) = some true := by
    decide
  obtain ⟨t, ht, hany⟩ := Option.map_eq_some_iff.mp hfailed
  obtain ⟨a, ha, hst⟩ := List.any_eq_true.mp hany
  have hstatus : a.status = .failed := by simpa using hst
  obtain ⟨hrows, -, hreplay⟩ := attempts_truthful ht
  exact ⟨t, ht, a, ha, hstatus, (hrows a ha).2.2 (by simp [hstatus]), hreplay a ha⟩

end Piki.DeliveryAttempts
