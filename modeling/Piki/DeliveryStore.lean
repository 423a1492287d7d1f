import Piki.Webhook

/-! `PostgresDeliveryStore` of `delivery/service.py`: one row per idempotency key,
one event per provider id and status. -/
namespace Piki
open Table

structure DeliveryAttemptSnapshot where
  id : Uuid
  state : DeliveryAttemptState
  providerMessageId : Option String
  errorCode : Option String
  errorMessage : Option String
  traceId : String
  deriving DecidableEq, Repr

structure DeliveryClaim where
  created : Bool
  attempt : DeliveryAttemptSnapshot
  deriving DecidableEq, Repr

inductive CallbackApplyStatus
  | applied
  | duplicate
  | ignoredRegression
  | missingAttempt
  deriving DecidableEq, Repr

namespace DeliveryStore

def snapshot (a : DeliveryAttemptRecord) : DeliveryAttemptSnapshot :=
  ⟨a.id, a.status, a.providerMessageId, a.errorCode, a.errorMessage, a.traceId⟩

def pendingRow (attemptId conversationId : Uuid) (request : DeliveryRequest) :
    DeliveryAttemptRecord where
  id := attemptId
  conversationId := conversationId
  idempotencyKey := request.idempotencyKey
  providerMessageId := none
  status := .pending
  errorCode := none
  errorMessage := none
  traceId := request.traceId

/-- Only the transaction that inserts the row is told that it created it. -/
def claim (db : DeliveryTables) (attemptId conversationId : Uuid) (request : DeliveryRequest) :
    Except Failure (DeliveryClaim × DeliveryTables) := do
  let row := pendingRow attemptId conversationId request
  match conflict (fun a : DeliveryAttemptRecord => some a.idempotencyKey) db.attempts row with
  | some existing => .ok (⟨false, snapshot existing⟩, db)
  | none =>
    requireFresh "delivery_attempts_pkey" (fun a : DeliveryAttemptRecord => some a.id)
      db.attempts row
    .ok (⟨true, snapshot row⟩, { db with attempts := db.attempts ++ [row] })

def finalizeRow (result : DeliveryResult) (a : DeliveryAttemptRecord) : DeliveryAttemptRecord :=
  { a with
    providerMessageId := result.providerMessageId
    status := result.status.toState
    errorCode := result.errorCode
    errorMessage := result.errorMessage }

def resultEvent (attemptId : Uuid) (now : Time) (result : DeliveryResult) :
    DeliveryStatusEventRecord :=
  ⟨attemptId, result.providerMessageId, result.status.toState, result.errorCode,
    result.errorMessage, result.traceId, now⟩

def pendingAttempt (attemptId : Uuid) (a : DeliveryAttemptRecord) : Bool :=
  decide (a.id = attemptId ∧ a.status = .pending)

def finalize (db : DeliveryTables) (now : Time) (attemptId : Uuid) (result : DeliveryResult) :
    Except Failure (Unit × DeliveryTables) := do
  if db.attempts.any (pendingAttempt attemptId) then
    let event := resultEvent attemptId now result
    requireFresh "uq_delivery_status_provider_state" DeliveryStatusEventRecord.providerState
      db.events event
    .ok ((), ⟨updateWhere (pendingAttempt attemptId) (finalizeRow result) db.attempts,
      db.events ++ [event]⟩)
  else .error (.runtime "delivery attempt is no longer pending")

/-- All that a committed `claim` can do. -/
theorem claim_ok {db db' : DeliveryTables} {attemptId conversationId : Uuid}
    {request : DeliveryRequest} {created : Bool} {attempt : DeliveryAttemptSnapshot}
    (h : claim db attemptId conversationId request = .ok (⟨created, attempt⟩, db')) :
    (created = false ∧ db' = db ∧ ∃ a ∈ db.attempts, a.idempotencyKey = request.idempotencyKey ∧
      attempt = snapshot a) ∨
    (created = true ∧ attempt = snapshot (pendingRow attemptId conversationId request) ∧
      (∀ a ∈ db.attempts, a.idempotencyKey ≠ request.idempotencyKey) ∧
      (∀ a ∈ db.attempts, a.id ≠ attemptId) ∧
      db' = { db with attempts := db.attempts ++ [pendingRow attemptId conversationId request] }) := by
  unfold claim at h
  dsimp only at h
  cases hc : conflict (fun a : DeliveryAttemptRecord => some a.idempotencyKey) db.attempts
      (pendingRow attemptId conversationId request) with
  | some existing =>
    simp only [hc] at h
    cases h
    obtain ⟨hm, k, hk, he⟩ := conflict_eq_some hc
    exact .inl ⟨rfl, rfl, existing, hm, Option.some.inj (he.trans hk.symm), rfl⟩
  | none =>
    simp only [hc] at h
    obtain ⟨_, hf, hret⟩ := bind_ok h
    cases hret
    refine .inr ⟨rfl, rfl, ?_, ?_, rfl⟩
    · intro a ha he
      exact conflict_eq_none.mp hc _ rfl a ha (congrArg some he)
    · intro a ha he
      exact conflict_eq_none.mp (requireFresh_ok hf) _ rfl a ha (congrArg some he)

/-- All that a committed `finalize` can do. -/
theorem finalize_ok {db db' : DeliveryTables} {now : Time} {attemptId : Uuid}
    {result : DeliveryResult} (h : finalize db now attemptId result = .ok ((), db')) :
    (∃ a ∈ db.attempts, a.id = attemptId ∧ a.status = .pending) ∧
    conflict DeliveryStatusEventRecord.providerState db.events (resultEvent attemptId now result) =
      none ∧
    db' = ⟨updateWhere (pendingAttempt attemptId) (finalizeRow result) db.attempts,
      db.events ++ [resultEvent attemptId now result]⟩ := by
  unfold finalize at h
  split_ifs at h with ha
  obtain ⟨_, hf, hret⟩ := bind_ok h
  cases hret
  obtain ⟨a, hm, hp⟩ := List.any_eq_true.mp ha
  exact ⟨⟨a, hm, by simpa [pendingAttempt] using hp⟩, requireFresh_ok hf, rfl⟩

/-- `_can_transition`. -/
def canTransition (current target : DeliveryAttemptState) : Bool :=
  match current with
  | .accepted => target ∈ [.sent, .delivered, .read, .failed]
  | .sent => target ∈ [.delivered, .read, .failed]
  | .delivered => target ∈ [.read]
  | _ => false

/-- `one_or_none()` raises when several attempts carry the provider id. -/
def selectAttempt (db : DeliveryTables) (providerMessageId : String) :
    Except Failure (Option DeliveryAttemptRecord) :=
  match db.attempts.filter fun a => a.providerMessageId = some providerMessageId with
  | [] => .ok none
  | [a] => .ok (some a)
  | _ => .error (.database .multipleResults)

def callbackEvent (callback : MetaStatusUpdate) (attempt : DeliveryAttemptRecord) :
    DeliveryStatusEventRecord :=
  ⟨attempt.id, some callback.providerMessageId, callback.status.toState, callback.errorCode,
    callback.errorMessage, attempt.traceId, callback.occurredAt⟩

/-- The unit of work writes a column only when the assigned value differs from the
loaded one. -/
def flushed {α : Type} [DecidableEq α] (loaded assigned stored : α) : α :=
  if assigned = loaded then stored else assigned

@[simp] theorem flushed_loaded {α : Type} [DecidableEq α] (loaded assigned : α) :
    flushed loaded assigned loaded = assigned := by
  unfold flushed
  split_ifs with h
  · exact h.symm
  · rfl

/-- The columns that an applied callback writes over the stored row, having loaded
`attempt`. -/
def callbackRow (callback : MetaStatusUpdate) (attempt a : DeliveryAttemptRecord) :
    DeliveryAttemptRecord :=
  { a with
    status := callback.status.toState
    errorCode := flushed attempt.errorCode callback.errorCode a.errorCode
    errorMessage := flushed attempt.errorMessage callback.errorMessage a.errorMessage }

/-- The rows after the commit of a callback that read `attempt`: the event is new,
and the status is written on the strength of the status that was read. -/
def commitCallback (db : DeliveryTables) (callback : MetaStatusUpdate)
    (attempt : DeliveryAttemptRecord) : CallbackApplyStatus × DeliveryTables :=
  let events := db.events ++ [callbackEvent callback attempt]
  if canTransition attempt.status callback.status.toState then
    (.applied, ⟨updateWhere (fun a => decide (a.id = attempt.id)) (callbackRow callback attempt)
      db.attempts, events⟩)
  else (.ignoredRegression, ⟨db.attempts, events⟩)

/-- `_apply_callback` when no other transaction runs in between. -/
def applyCallback (db : DeliveryTables) (callback : MetaStatusUpdate) :
    Except Failure (CallbackApplyStatus × DeliveryTables) := do
  match ← selectAttempt db callback.providerMessageId with
  | none => .ok (.missingAttempt, db)
  | some attempt =>
    match conflict DeliveryStatusEventRecord.providerState db.events
        (callbackEvent callback attempt) with
    | some _ => .ok (.duplicate, db)
    | none => .ok (commitCallback db callback attempt)

/-- All that a committed callback can do. -/
theorem applyCallback_ok {db db' : DeliveryTables} {callback : MetaStatusUpdate}
    {status : CallbackApplyStatus} (h : applyCallback db callback = .ok (status, db')) :
    (db' = db ∧ selectAttempt db callback.providerMessageId = .ok none ∧
      status = .missingAttempt) ∨
    ∃ attempt, selectAttempt db callback.providerMessageId = .ok (some attempt) ∧
      ((db' = db ∧ status = .duplicate ∧ ∃ e ∈ db.events,
        e.providerState = some (callback.providerMessageId, callback.status.toState)) ∨
      ((∀ e ∈ db.events,
        e.providerState ≠ some (callback.providerMessageId, callback.status.toState)) ∧
        commitCallback db callback attempt = (status, db'))) := by
  obtain ⟨found, hsel, h⟩ := bind_ok h
  cases found with
  | none =>
    cases h
    exact .inl ⟨rfl, hsel, rfl⟩
  | some attempt =>
    refine .inr ⟨attempt, hsel, ?_⟩
    cases hc : conflict DeliveryStatusEventRecord.providerState db.events
        (callbackEvent callback attempt) with
    | some e =>
      simp only [hc] at h
      cases h
      obtain ⟨he, k, hk, hek⟩ := conflict_eq_some hc
      cases hk
      exact .inl ⟨rfl, rfl, e, he, hek⟩
    | none =>
      simp only [hc] at h
      exact .inr ⟨conflict_eq_none.mp hc _ rfl, Except.ok.inj h⟩

/-- A status that is stored already changes nothing. -/
theorem applyCallback_duplicate {db : DeliveryTables} {callback : MetaStatusUpdate}
    {attempt : DeliveryAttemptRecord}
    (hsel : selectAttempt db callback.providerMessageId = .ok (some attempt))
    (h : ∃ e ∈ db.events,
      e.providerState = some (callback.providerMessageId, callback.status.toState)) :
    applyCallback db callback = .ok (.duplicate, db) := by
  obtain ⟨e, he, hk⟩ := h
  have hconflict : (conflict DeliveryStatusEventRecord.providerState db.events
      (callbackEvent callback attempt)).isSome = true := by
    rw [Option.isSome_iff_ne_none]
    intro hnone
    exact conflict_eq_none.mp hnone _ rfl e he hk
  obtain ⟨r, hr⟩ := Option.isSome_iff_exists.mp hconflict
  simp only [applyCallback, hsel, ok_bind, hr]

theorem applyCallback_commits {db : DeliveryTables} {callback : MetaStatusUpdate}
    {attempt : DeliveryAttemptRecord}
    (hsel : selectAttempt db callback.providerMessageId = .ok (some attempt))
    (h : ¬ ∃ e ∈ db.events,
      e.providerState = some (callback.providerMessageId, callback.status.toState)) :
    applyCallback db callback = .ok (commitCallback db callback attempt) := by
  have hconflict : conflict DeliveryStatusEventRecord.providerState db.events
      (callbackEvent callback attempt) = none := by
    rw [conflict_eq_none]
    intro k hk e he hke
    exact h ⟨e, he, hke.trans hk.symm⟩
  simp only [applyCallback, hsel, ok_bind, hconflict]

end DeliveryStore
end Piki
