import Piki.IngressStatuses

/-! Which callbacks of a batch are stored when some of them have no attempt. The loop of
`ingest` ends at the first one that does not name exactly one attempt. -/
namespace Piki.CallbackBatches
open DeliveryStore Ingress IngressStatuses
open Callbacks (eventKey commitCallback_events)

/-- Some attempt has the provider id of the callback. -/
def HasAttempt (d : DeliveryTables) (callback : MetaStatusUpdate) : Prop :=
  ∃ a ∈ d.attempts, a.providerMessageId = some callback.providerMessageId

/-- Exactly one attempt has it. -/
def resolves (d : DeliveryTables) (callback : MetaStatusUpdate) : Bool :=
  decide ((d.attempts.map DeliveryAttemptRecord.providerMessageId).count
    (some callback.providerMessageId) = 1)

theorem resolves_iff {d : DeliveryTables} {callback : MetaStatusUpdate} :
    resolves d callback = true ↔
      ∃ attempt, selectAttempt d callback.providerMessageId = .ok (some attempt) := by
  rw [resolves, decide_eq_true_eq, selectAttempt_found_iff]

/-- The callback stores its own event, if it was not stored, and no other. -/
theorem applyStatus_logged_iff {d d' : DeliveryTables} {callback other : MetaStatusUpdate}
    {status : CallbackApplyStatus} (h : applyStatus d callback = .ok (status, d')) :
    Logged d' other ↔ Logged d other ∨ eventKey callback = eventKey other := by
  obtain ⟨attempt, -, ⟨⟨e, he, hk⟩, -, rfl⟩ | ⟨-, hcommit⟩⟩ := applyStatus_ok_iff.mp h
  · constructor
    · exact .inl
    · rintro (hlog | hsame)
      · exact hlog
      · exact ⟨e, he, hk.trans (congrArg some hsame)⟩
  · have hevents : d'.events = d.events ++ [callbackEvent callback attempt] := by
      rw [← commitCallback_events, hcommit]
    have hkey : (callbackEvent callback attempt).providerState = some (eventKey callback) := rfl
    simp only [Logged, hevents, List.mem_append, List.mem_singleton, or_and_right, exists_or,
      exists_eq_left, hkey, Option.some.injEq]

theorem applyStatus_returns_iff {d : DeliveryTables} {callback : MetaStatusUpdate} :
    (∃ status d', applyStatus d callback = .ok (status, d')) ↔ resolves d callback = true := by
  rw [resolves_iff]
  constructor
  · rintro ⟨status, d', h⟩
    obtain ⟨attempt, hsel, -⟩ := applyStatus_ok_iff.mp h
    exact ⟨attempt, hsel⟩
  · rintro ⟨attempt, hsel⟩
    by_cases hlog : Logged d callback
    · exact ⟨_, _, applyStatus_ok_iff.mpr ⟨attempt, hsel, .inl ⟨hlog, rfl, rfl⟩⟩⟩
    · exact ⟨_, _, applyStatus_ok_iff.mpr ⟨attempt, hsel, .inr ⟨hlog, rfl⟩⟩⟩

theorem applyStatus_resolves {d d' : DeliveryTables} {callback : MetaStatusUpdate}
    {status : CallbackApplyStatus} (h : applyStatus d callback = .ok (status, d')) :
    resolves d' = resolves d := by
  funext other
  simp only [resolves, applyStatus_providers h]

/-- The callbacks before the first one that does not resolve are stored, and no other. -/
theorem applyStatuses_logged_iff {d : DeliveryTables} {callbacks : List MetaStatusUpdate}
    {other : MetaStatusUpdate} :
    Logged (applyStatuses d callbacks).1 other ↔
      Logged d other ∨ ∃ c ∈ callbacks.takeWhile (resolves d), eventKey c = eventKey other := by
  induction callbacks generalizing d with
  | nil => simp [applyStatuses]
  | cons callback callbacks ih =>
    cases ha : applyStatus d callback with
    | error e =>
      have hr : resolves d callback = false := by
        rw [← Bool.not_eq_true, ← applyStatus_returns_iff, ha]
        rintro ⟨status, d', h⟩
        cases h
      simp [applyStatuses, ha, hr]
    | ok r =>
      obtain ⟨status, d'⟩ := r
      have hr : resolves d callback = true := applyStatus_returns_iff.mp ⟨status, d', ha⟩
      simp only [applyStatuses, ha, List.takeWhile_cons, hr, if_true]
      rw [ih, applyStatus_logged_iff ha, applyStatus_resolves ha]
      simp only [List.mem_cons, exists_eq_or_imp, or_assoc]

/-- The message half of the batch commits and its claims do not raise. -/
def MessagesPass (draws : ℕ → Draw) (db : ConversationTables)
    (messages : List InboundMessage) : Prop :=
  (recordMessages draws db messages).isOk = true ∧ (messages.mapM claimDedup).isOk = true

theorem ingest_logged_iff (draws : ℕ → Draw) (db : Tables)
    (events : MetaWebhookEvents) (other : MetaStatusUpdate) :
    Logged (ingest draws db events).1.deliveries other ↔
      Logged db.deliveries other ∨ (MessagesPass draws db.conversations events.messages ∧
        ∃ c ∈ events.statuses.takeWhile (resolves db.deliveries), eventKey c = eventKey other) := by
  unfold MessagesPass ingest
  cases recordMessages draws db.conversations events.messages with
  | error e => simp [Except.isOk, Except.toBool]
  | ok r =>
    cases events.messages.mapM claimDedup with
    | error e => simp [Except.isOk, Except.toBool]
    | ok u =>
      simp only [Except.isOk, Except.toBool, true_and]
      exact applyStatuses_logged_iff

/-- Every callback that has an attempt ends up stored exactly when the batch meets it, or
another one of the same event, before a callback that has none. -/
theorem ingest_stores_existing_iff (draws : ℕ → Draw) (db : Tables) (events : MetaWebhookEvents) :
    (∀ callback ∈ events.statuses, HasAttempt db.deliveries callback →
      Logged (ingest draws db events).1.deliveries callback) ↔
    ∀ callback ∈ events.statuses, HasAttempt db.deliveries callback →
      Logged db.deliveries callback ∨ (MessagesPass draws db.conversations events.messages ∧
        ∃ c ∈ events.statuses.takeWhile (resolves db.deliveries),
          eventKey c = eventKey callback) := by
  simp only [ingest_logged_iff]

def lostReport : MetaStatusUpdate :=
  accepted (MetaStatusUpdate.make "wamid.lost" "phone" "549" .sent 0 none none) (by decide +kernel)

/-- A callback without an attempt is first in its batch. -/
theorem ingest_blocks_existing :
    HasAttempt Callbacks.acceptedTables Callbacks.sentReport ∧
      ¬ Logged (ingest (fun _ => ⟨0, 0, 0, 0⟩) ⟨.empty, Callbacks.acceptedTables⟩
        ⟨[], [lostReport, Callbacks.sentReport]⟩).1.deliveries Callbacks.sentReport := by
  refine ⟨⟨_, List.mem_cons_self, rfl⟩, ?_⟩
  rintro ⟨e, he, hk⟩
  have hevents : (ingest (fun _ => ⟨0, 0, 0, 0⟩) ⟨.empty, Callbacks.acceptedTables⟩
      ⟨[], [lostReport, Callbacks.sentReport]⟩).1.deliveries.events =
        Callbacks.acceptedTables.events := by decide
  rw [hevents] at he
  rw [List.mem_singleton.mp he] at hk
  cases hk

end Piki.CallbackBatches
