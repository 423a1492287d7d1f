import Piki.DeliveryCallbacks
import Piki.DeliveryService
import Piki.Ingress

/-! The status half of a batch that is delivered more than once: a callback that was
applied is a duplicate from then on, and `finalize` commutes with the callbacks
that were applied before it. -/
namespace Piki.IngressStatuses
open Table DeliveryStore Ingress
open Callbacks (eventKey attempt_eq selectAttempt_mem commitCallback_events
  commitCallback_attempts commitCallback_ids)

/-- The same attempts, and the same events up to the order of their inserts. -/
def Alike (d e : DeliveryTables) : Prop := d.attempts = e.attempts ∧ d.events.Perm e.events

theorem Alike.refl (d : DeliveryTables) : Alike d d := ⟨rfl, .refl _⟩

theorem Alike.symm {d e : DeliveryTables} (h : Alike d e) : Alike e d := ⟨h.1.symm, h.2.symm⟩

theorem Alike.trans {d e f : DeliveryTables} (h : Alike d e) (h' : Alike e f) : Alike d f :=
  ⟨h.1.trans h'.1, h.2.trans h'.2⟩

/-- What the transactions of the store leave in its tables: a provider id comes with
the result that accepted the message, and that result ends the pending state. -/
structure Recorded (d : DeliveryTables) : Prop where
  ids : Unique (fun a : DeliveryAttemptRecord => some a.id) d.attempts
  pending : ∀ a ∈ d.attempts, a.status = .pending → a.providerMessageId = none
  accepted : ∀ a ∈ d.attempts, ∀ p ∈ a.providerMessageId,
    ∃ e ∈ d.events, e.providerState = some (p, .accepted)

theorem recorded_empty : Recorded .empty where
  ids := unique_nil _
  pending a ha := by cases ha
  accepted a ha := by cases ha

theorem recorded_claim {d d' : DeliveryTables} {attemptId conversationId : Uuid}
    {request : DeliveryRequest} {c : DeliveryClaim} (hd : Recorded d)
    (h : claim d attemptId conversationId request = .ok (c, d')) : Recorded d' := by
  obtain ⟨created, attempt⟩ := c
  rcases claim_ok h with ⟨-, rfl, -⟩ | ⟨-, -, -, hid, rfl⟩
  · exact hd
  · have hfresh : conflict (fun a : DeliveryAttemptRecord => some a.id) d.attempts
        (pendingRow attemptId conversationId request) = none := by
      rw [conflict_eq_none]
      intro k hk a ha he
      exact hid a ha (Option.some.inj (he.trans hk.symm))
    refine ⟨unique_append hd.ids hfresh, ?_, ?_⟩
    · intro a ha hs
      rcases List.mem_append.mp ha with ha | ha
      · exact hd.pending a ha hs
      · rw [List.mem_singleton.mp ha]
        rfl
    · intro a ha p hp
      rcases List.mem_append.mp ha with ha | ha
      · exact hd.accepted a ha p hp
      · rw [List.mem_singleton.mp ha] at hp
        cases hp

theorem selectAttempt_congr {d e : DeliveryTables} (h : d.attempts = e.attempts) (p : String) :
    selectAttempt d p = selectAttempt e p := by
  unfold selectAttempt
  rw [h]

/-- The event of the callback is stored. -/
def Logged (d : DeliveryTables) (callback : MetaStatusUpdate) : Prop :=
  ∃ e ∈ d.events, e.providerState = some (eventKey callback)

/-- All that a callback of the batch can do without raising. -/
@[grind =] theorem applyStatus_ok_iff {d d' : DeliveryTables} {callback : MetaStatusUpdate}
    {status : CallbackApplyStatus} :
    applyStatus d callback = .ok (status, d') ↔
      ∃ attempt, selectAttempt d callback.providerMessageId = .ok (some attempt) ∧
        ((Logged d callback ∧ status = .duplicate ∧ d' = d) ∨
          (¬ Logged d callback ∧ commitCallback d callback attempt = (status, d'))) := by
  constructor
  · intro h
    obtain ⟨⟨s, d₁⟩, hcall, hret⟩ := bind_ok h
    rcases applyCallback_ok hcall with ⟨-, -, rfl⟩ | ⟨attempt, hsel, hdup | hnew⟩
    · cases hret
    · obtain ⟨rfl, rfl, hlog⟩ := hdup
      cases hret
      exact ⟨attempt, hsel, .inl ⟨hlog, rfl, rfl⟩⟩
    · obtain ⟨hfree, hcommit⟩ := hnew
      have hs : s = .applied ∨ s = .ignoredRegression := by
        simp only [commitCallback] at hcommit
        split_ifs at hcommit <;> cases hcommit
        · exact .inl rfl
        · exact .inr rfl
      have hlog : ¬ Logged d callback := by
        rintro ⟨e, he, hk⟩
        exact hfree e he hk
      refine ⟨attempt, hsel, .inr ⟨hlog, ?_⟩⟩
      rcases hs with rfl | rfl <;> cases hret <;> exact hcommit
  · rintro ⟨attempt, hsel, ⟨hlog, rfl, rfl⟩ | ⟨hfree, hcommit⟩⟩
    · simp only [applyStatus, applyCallback_duplicate hsel hlog, ok_bind]
    · simp only [applyStatus, applyCallback_commits hsel hfree, ok_bind, hcommit]
      simp only [commitCallback] at hcommit
      split_ifs at hcommit <;> cases hcommit <;> rfl

example : ((applyStatus Callbacks.acceptedTables Callbacks.sentReport).toOption.map Prod.fst) =
    some .applied := by decide +kernel

theorem commitCallback_alike {d e : DeliveryTables} (h : Alike d e) (callback : MetaStatusUpdate)
    (attempt : DeliveryAttemptRecord) :
    (commitCallback d callback attempt).1 = (commitCallback e callback attempt).1 ∧
      Alike (commitCallback d callback attempt).2 (commitCallback e callback attempt).2 := by
  simp only [commitCallback]
  split_ifs
  · exact ⟨rfl, by rw [h.1], h.2.append_right _⟩
  · exact ⟨rfl, h.1, h.2.append_right _⟩

theorem Alike.logged {d e : DeliveryTables} (h : Alike d e) {callback : MetaStatusUpdate} :
    Logged d callback ↔ Logged e callback := by
  simp only [Logged, h.2.mem_iff]

theorem applyStatus_alike {d e d' : DeliveryTables} (h : Alike d e) {callback : MetaStatusUpdate}
    {status : CallbackApplyStatus} (hd : applyStatus d callback = .ok (status, d')) :
    ∃ e', applyStatus e callback = .ok (status, e') ∧ Alike d' e' := by
  obtain ⟨attempt, hsel, hcase⟩ := applyStatus_ok_iff.mp hd
  rw [selectAttempt_congr h.1] at hsel
  rcases hcase with ⟨hlog, rfl, rfl⟩ | ⟨hfree, hcommit⟩
  · exact ⟨e, applyStatus_ok_iff.mpr ⟨attempt, hsel, .inl ⟨h.logged.mp hlog, rfl, rfl⟩⟩, h⟩
  · obtain ⟨hstatus, halike⟩ := commitCallback_alike h callback attempt
    rw [hcommit] at hstatus halike
    refine ⟨(commitCallback e callback attempt).2, ?_, halike⟩
    exact applyStatus_ok_iff.mpr ⟨attempt, hsel, .inr ⟨fun hl => hfree (h.logged.mpr hl),
      Prod.ext hstatus.symm rfl⟩⟩

/-- The tables after a call of `finalize`; a raised error leaves them as they were. -/
def finalized (d : DeliveryTables) (now : Time) (attemptId : Uuid) (result : DeliveryResult) :
    DeliveryTables :=
  match finalize d now attemptId result with
  | .error _ => d
  | .ok (_, d') => d'

/-- The call commits. -/
def Finalizable (d : DeliveryTables) (now : Time) (attemptId : Uuid) (result : DeliveryResult) :
    Prop :=
  d.attempts.any (pendingAttempt attemptId) = true ∧
    conflict DeliveryStatusEventRecord.providerState d.events
      (resultEvent attemptId now result) = none

theorem finalized_of_finalizable {d : DeliveryTables} {now : Time} {attemptId : Uuid}
    {result : DeliveryResult} (h : Finalizable d now attemptId result) :
    finalized d now attemptId result =
      ⟨updateWhere (pendingAttempt attemptId) (finalizeRow result) d.attempts,
        d.events ++ [resultEvent attemptId now result]⟩ := by
  simp only [finalized, finalize, h.1, if_true, requireFresh, h.2, ok_bind]

theorem finalized_of_not {d : DeliveryTables} {now : Time} {attemptId : Uuid}
    {result : DeliveryResult} (h : ¬ Finalizable d now attemptId result) :
    finalized d now attemptId result = d := by
  cases hf : finalize d now attemptId result with
  | error e => simp only [finalized, hf]
  | ok r =>
    obtain ⟨hpending, hfresh, -⟩ := finalize_ok hf
    refine absurd ⟨?_, hfresh⟩ h
    obtain ⟨a, ha, hid, hs⟩ := hpending
    exact List.any_eq_true.mpr ⟨a, ha, by simp [pendingAttempt, hid, hs]⟩

theorem Alike.finalizable {d e : DeliveryTables} (h : Alike d e) {now : Time} {attemptId : Uuid}
    {result : DeliveryResult} :
    Finalizable d now attemptId result ↔ Finalizable e now attemptId result := by
  simp only [Finalizable, h.1, conflict_perm h.2]

theorem finalized_alike {d e : DeliveryTables} (h : Alike d e) (now : Time) (attemptId : Uuid)
    (result : DeliveryResult) :
    Alike (finalized d now attemptId result) (finalized e now attemptId result) := by
  by_cases hf : Finalizable d now attemptId result
  · rw [finalized_of_finalizable hf, finalized_of_finalizable (h.finalizable.mp hf)]
    exact ⟨by rw [h.1], h.2.append_right _⟩
  · rw [finalized_of_not hf, finalized_of_not fun he => hf (h.finalizable.mpr he)]
    exact h

theorem recorded_finalized {d : DeliveryTables} (hd : Recorded d) (now : Time) (attemptId : Uuid)
    {result : DeliveryResult} (hresult : result.FromAdapter) :
    Recorded (finalized d now attemptId result) := by
  by_cases hf : Finalizable d now attemptId result
  · rw [finalized_of_finalizable hf]
    refine ⟨unique_updateWhere (fun _ _ => rfl) hd.ids, ?_, ?_⟩
    · intro a ha hs
      obtain ⟨x, hx, rfl⟩ := mem_updateWhere.mp ha
      split_ifs at hs ⊢
      · cases hst : result.status <;> simp [finalizeRow, hst, DeliveryStatus.toState] at hs
      · exact hd.pending x hx hs
    · intro a ha p hp
      obtain ⟨x, hx, rfl⟩ := mem_updateWhere.mp ha
      split_ifs at hp
      · refine ⟨_, List.mem_append_right _ List.mem_cons_self, ?_⟩
        have hpid : result.providerMessageId = some p := hp
        rcases hresult with ⟨hs, -⟩ | ⟨-, hnone⟩
        · simp [resultEvent, DeliveryStatusEventRecord.providerState, hpid, hs,
            DeliveryStatus.toState]
        · rw [hnone] at hpid
          cases hpid
      · obtain ⟨e, he, hk⟩ := hd.accepted x hx p hp
        exact ⟨e, List.mem_append_left _ he, hk⟩
  · rw [finalized_of_not hf]
    exact hd

theorem recorded_applyStatus {d d' : DeliveryTables} (hd : Recorded d)
    {callback : MetaStatusUpdate} {status : CallbackApplyStatus}
    (h : applyStatus d callback = .ok (status, d')) : Recorded d' := by
  obtain ⟨attempt, hsel, ⟨-, -, rfl⟩ | ⟨-, hcommit⟩⟩ := applyStatus_ok_iff.mp h
  · exact hd
  · have hd' : d' = (commitCallback d callback attempt).2 := by rw [hcommit]
    subst hd'
    refine ⟨commitCallback_ids callback attempt hd.ids, ?_, ?_⟩
    · intro a ha hs
      rcases commitCallback_attempts ha with ha | ⟨-, x, -, -, rfl⟩
      · exact hd.pending a ha hs
      · cases hst : callback.status <;> simp [callbackRow, hst, DeliveryStatus.toState] at hs
    · intro a ha p hp
      rw [commitCallback_events]
      have hx : ∃ x ∈ d.attempts, x.providerMessageId = some p := by
        rcases commitCallback_attempts ha with ha | ⟨-, x, hx, -, rfl⟩
        · exact ⟨a, ha, hp⟩
        · exact ⟨x, hx, hp⟩
      obtain ⟨x, hx, hxp⟩ := hx
      obtain ⟨e, he, hk⟩ := hd.accepted x hx p hxp
      exact ⟨e, List.mem_append_left _ he, hk⟩

section Commute
variable {d d' : DeliveryTables} {callback : MetaStatusUpdate} {attempt : DeliveryAttemptRecord}
  {status : CallbackApplyStatus} {now : Time} {attemptId : Uuid} {result : DeliveryResult}

/-- A result that commits brings an id that no attempt had. -/
theorem finalizable_provider_ne (hd : Recorded d) (hresult : result.FromAdapter)
    (hf : Finalizable d now attemptId result) {p : String}
    (hsel : selectAttempt d p = .ok (some attempt)) : result.providerMessageId ≠ some p := by
  intro hpid
  obtain ⟨hm, hp⟩ := selectAttempt_mem hsel
  obtain ⟨e, he, hk⟩ := hd.accepted attempt hm p hp
  rcases hresult with ⟨hs, -⟩ | ⟨-, hnone⟩
  · refine conflict_eq_none.mp hf.2 (p, .accepted) ?_ e he hk
    simp [resultEvent, DeliveryStatusEventRecord.providerState, hpid, hs, DeliveryStatus.toState]
  · rw [hnone] at hpid
    cases hpid

theorem selectAttempt_finalized (hd : Recorded d) (hf : Finalizable d now attemptId result)
    {p : String} (hne : result.providerMessageId ≠ some p) :
    selectAttempt (finalized d now attemptId result) p = selectAttempt d p := by
  rw [finalized_of_finalizable hf]
  unfold selectAttempt
  rw [filter_updateWhere]
  intro a ha hpending
  have hs : a.status = .pending := by
    simp only [pendingAttempt, decide_eq_true_eq] at hpending
    exact hpending.2
  constructor
  · simp [hd.pending a ha hs]
  · simp [finalizeRow, hne]

theorem logged_finalized (hf : Finalizable d now attemptId result)
    (hne : result.providerMessageId ≠ some callback.providerMessageId) :
    Logged (finalized d now attemptId result) callback ↔ Logged d callback := by
  rw [finalized_of_finalizable hf]
  constructor
  · rintro ⟨e, he, hk⟩
    rcases List.mem_append.mp he with he | he
    · exact ⟨e, he, hk⟩
    · rw [List.mem_singleton.mp he] at hk
      obtain ⟨p, hp, hpair⟩ := Option.map_eq_some_iff.mp hk
      have hsame : p = callback.providerMessageId := congrArg Prod.fst hpair
      exact absurd (hsame ▸ hp) hne
  · rintro ⟨e, he, hk⟩
    exact ⟨e, List.mem_append_left _ he, hk⟩

/-- The callback writes over a row that is not pending, and leaves it so. -/
theorem callbackRow_not_pending (hd : Recorded d)
    (hsel : selectAttempt d callback.providerMessageId = .ok (some attempt))
    {a : DeliveryAttemptRecord} (ha : a ∈ d.attempts) (hid : a.id = attempt.id) :
    pendingAttempt attemptId a = false ∧
      pendingAttempt attemptId (callbackRow callback attempt a) = false := by
  obtain ⟨hm, hp⟩ := selectAttempt_mem hsel
  have he : a = attempt := attempt_eq hd.ids ha hm hid
  subst he
  constructor
  · simp only [pendingAttempt, decide_eq_false_iff_not]
    rintro ⟨-, hs⟩
    rw [hd.pending a ha hs] at hp
    cases hp
  · simp only [pendingAttempt, decide_eq_false_iff_not]
    rintro ⟨-, hs⟩
    cases hst : callback.status <;> simp [callbackRow, hst, DeliveryStatus.toState] at hs

theorem commitCallback_any_pending (hd : Recorded d)
    (hsel : selectAttempt d callback.providerMessageId = .ok (some attempt)) :
    (commitCallback d callback attempt).2.attempts.any (pendingAttempt attemptId) =
      d.attempts.any (pendingAttempt attemptId) := by
  simp only [commitCallback]
  split_ifs
  · refine any_updateWhere ?_
    intro a ha hid
    obtain ⟨hold, hnew⟩ := @callbackRow_not_pending d callback attempt attemptId hd hsel a ha
      (by simpa using hid)
    rw [hold, hnew]
  · rfl

/-- A commit of a callback neither enables nor prevents the commit of a result. -/
theorem commitCallback_finalizable (hd : Recorded d) (hresult : result.FromAdapter)
    (hsel : selectAttempt d callback.providerMessageId = .ok (some attempt)) :
    Finalizable (commitCallback d callback attempt).2 now attemptId result ↔
      Finalizable d now attemptId result := by
  unfold Finalizable
  rw [commitCallback_any_pending hd hsel, commitCallback_events]
  constructor
  · rintro ⟨hpending, hfresh⟩
    refine ⟨hpending, ?_⟩
    rw [conflict_eq_none] at hfresh ⊢
    intro k hk e he
    exact hfresh k hk e (List.mem_append_left _ he)
  · rintro ⟨hpending, hfresh⟩
    refine ⟨hpending, ?_⟩
    have hne := finalizable_provider_ne hd hresult ⟨hpending, hfresh⟩ hsel
    rw [conflict_eq_none] at hfresh ⊢
    intro k hk e he hke
    rcases List.mem_append.mp he with he | he
    · exact hfresh k hk e he hke
    · rw [List.mem_singleton.mp he] at hke
      obtain ⟨q, hq, rfl⟩ := Option.map_eq_some_iff.mp hk
      have hsame : callback.providerMessageId = q := congrArg Prod.fst (Option.some.inj hke)
      exact hne (hsame ▸ hq)

/-- The two transactions write different rows and different events. -/
theorem commitCallback_finalized (hd : Recorded d)
    (hsel : selectAttempt d callback.providerMessageId = .ok (some attempt))
    (hf : Finalizable d now attemptId result)
    (hf' : Finalizable (commitCallback d callback attempt).2 now attemptId result) :
    (commitCallback (finalized d now attemptId result) callback attempt).1 =
        (commitCallback d callback attempt).1 ∧
      Alike (commitCallback (finalized d now attemptId result) callback attempt).2
        (finalized (commitCallback d callback attempt).2 now attemptId result) := by
  rw [finalized_of_finalizable hf, finalized_of_finalizable hf']
  have hevents : (d.events ++ [resultEvent attemptId now result] ++
      [callbackEvent callback attempt]).Perm
      (d.events ++ [callbackEvent callback attempt] ++ [resultEvent attemptId now result]) := by
    simp only [List.append_assoc]
    exact (List.Perm.swap _ _ _).append_left _
  simp only [commitCallback]
  split_ifs
  · refine ⟨rfl, ?_, hevents⟩
    refine updateWhere_comm ?_ ?_
    · intro a ha hid
      exact callbackRow_not_pending hd hsel ha (by simpa using hid)
    · intro a ha hpending
      refine decide_eq_false ?_
      intro hid
      rw [(callbackRow_not_pending hd hsel ha hid).1] at hpending
      cases hpending
  · exact ⟨rfl, rfl, hevents⟩

/-- A callback that could be applied before a result can be applied after it, with
the same outcome and the same rows. -/
theorem applyStatus_finalized (hd : Recorded d) (hresult : result.FromAdapter)
    (h : applyStatus d callback = .ok (status, d')) :
    ∃ e, applyStatus (finalized d now attemptId result) callback = .ok (status, e) ∧
      Alike e (finalized d' now attemptId result) := by
  obtain ⟨attempt, hsel, hcase⟩ := applyStatus_ok_iff.mp h
  by_cases hf : Finalizable d now attemptId result
  · have hne := finalizable_provider_ne hd hresult hf hsel
    have hsel' := (selectAttempt_finalized hd hf hne).trans hsel
    rcases hcase with ⟨hlog, rfl, rfl⟩ | ⟨hfree, hcommit⟩
    · exact ⟨_, applyStatus_ok_iff.mpr ⟨attempt, hsel', .inl ⟨(logged_finalized hf hne).mpr hlog,
        rfl, rfl⟩⟩, Alike.refl _⟩
    · obtain ⟨hstatus, halike⟩ := commitCallback_finalized hd hsel hf
        ((commitCallback_finalizable hd hresult hsel).mpr hf)
      rw [hcommit] at hstatus halike
      refine ⟨(commitCallback (finalized d now attemptId result) callback attempt).2, ?_, halike⟩
      refine applyStatus_ok_iff.mpr ⟨attempt, hsel', .inr ⟨?_, Prod.ext hstatus rfl⟩⟩
      exact fun hl => hfree ((logged_finalized hf hne).mp hl)
  · have hf' : ¬ Finalizable d' now attemptId result := by
      rcases hcase with ⟨-, -, rfl⟩ | ⟨-, hcommit⟩
      · exact hf
      · have he : d' = (commitCallback d callback attempt).2 := by rw [hcommit]
        rw [he, commitCallback_finalizable hd hresult hsel]
        exact hf
    rw [finalized_of_not hf, finalized_of_not hf']
    exact ⟨d', h, Alike.refl _⟩

/-- The store raises on a provider id that it does not know. -/
example : (applyStatus .empty Callbacks.sentReport).toOption.isNone = true := by decide +kernel

end Commute

/-- The callback names one attempt, and its event is stored. -/
def Settled (d : DeliveryTables) (callback : MetaStatusUpdate) : Prop :=
  (∃ attempt, selectAttempt d callback.providerMessageId = .ok (some attempt)) ∧ Logged d callback

theorem selectAttempt_found_iff {d : DeliveryTables} {p : String} :
    (∃ attempt, selectAttempt d p = .ok (some attempt)) ↔
      (d.attempts.map DeliveryAttemptRecord.providerMessageId).count (some p) = 1 := by
  have hcount : (d.attempts.map DeliveryAttemptRecord.providerMessageId).count (some p) =
      (d.attempts.filter fun a => a.providerMessageId = some p).length := by
    rw [List.count, List.countP_map, List.countP_eq_length_filter]
    refine congrArg List.length (List.filter_congr ?_)
    intro a _
    simp [Bool.beq_eq_decide_eq]
  rw [hcount]
  unfold selectAttempt
  generalize d.attempts.filter _ = rows
  match rows with
  | [] => simp
  | [a] => simp
  | a :: b :: rest => simp

theorem commitCallback_providers (d : DeliveryTables) (callback : MetaStatusUpdate)
    (attempt : DeliveryAttemptRecord) :
    (commitCallback d callback attempt).2.attempts.map DeliveryAttemptRecord.providerMessageId =
      d.attempts.map DeliveryAttemptRecord.providerMessageId := by
  simp only [commitCallback]
  split_ifs
  · exact map_updateWhere fun _ _ => rfl
  · rfl

/-- No callback gives an attempt a provider id or takes it away. -/
theorem applyStatus_providers {d d' : DeliveryTables} {callback : MetaStatusUpdate}
    {status : CallbackApplyStatus} (h : applyStatus d callback = .ok (status, d')) :
    d'.attempts.map DeliveryAttemptRecord.providerMessageId =
      d.attempts.map DeliveryAttemptRecord.providerMessageId := by
  obtain ⟨attempt, -, ⟨-, -, rfl⟩ | ⟨-, hcommit⟩⟩ := applyStatus_ok_iff.mp h
  · rfl
  · rw [← commitCallback_providers d callback attempt, hcommit]

theorem applyStatus_events {d d' : DeliveryTables} {callback : MetaStatusUpdate}
    {status : CallbackApplyStatus} (h : applyStatus d callback = .ok (status, d')) :
    d.events ⊆ d'.events := by
  obtain ⟨attempt, -, ⟨-, -, rfl⟩ | ⟨-, hcommit⟩⟩ := applyStatus_ok_iff.mp h
  · exact List.Subset.refl _
  · have he : d'.events = d.events ++ [callbackEvent callback attempt] := by
      rw [← commitCallback_events, hcommit]
    rw [he]
    exact List.subset_append_left _ _

theorem settled_applyStatus {d d' : DeliveryTables} {callback : MetaStatusUpdate}
    {status : CallbackApplyStatus} (h : applyStatus d callback = .ok (status, d')) :
    Settled d' callback := by
  obtain ⟨attempt, hsel, hcase⟩ := applyStatus_ok_iff.mp h
  constructor
  · rw [selectAttempt_found_iff, applyStatus_providers h]
    exact selectAttempt_found_iff.mp ⟨attempt, hsel⟩
  · rcases hcase with ⟨hlog, -, rfl⟩ | ⟨-, hcommit⟩
    · exact hlog
    · have he : d'.events = d.events ++ [callbackEvent callback attempt] := by
        rw [← commitCallback_events, hcommit]
      exact ⟨callbackEvent callback attempt, by simp [he], rfl⟩

theorem Settled.applyStatus {d d' : DeliveryTables} {callback other : MetaStatusUpdate}
    {status : CallbackApplyStatus} (hs : Settled d callback)
    (h : applyStatus d other = .ok (status, d')) : Settled d' callback := by
  obtain ⟨hfound, e, he, hk⟩ := hs
  refine ⟨?_, e, applyStatus_events h he, hk⟩
  rw [selectAttempt_found_iff, applyStatus_providers h]
  exact selectAttempt_found_iff.mp hfound

theorem Settled.duplicate {d : DeliveryTables} {callback : MetaStatusUpdate}
    (hs : Settled d callback) : Ingress.applyStatus d callback = .ok (.duplicate, d) := by
  obtain ⟨⟨attempt, hsel⟩, hlog⟩ := hs
  exact applyStatus_ok_iff.mpr ⟨attempt, hsel, .inl ⟨hlog, rfl, rfl⟩⟩

theorem Settled.alike {d e : DeliveryTables} {callback : MetaStatusUpdate}
    (hs : Settled d callback) (h : Alike d e) : Settled e callback := by
  obtain ⟨⟨attempt, hsel⟩, hlog⟩ := hs
  exact ⟨⟨attempt, (selectAttempt_congr h.1 _).symm.trans hsel⟩, h.logged.mp hlog⟩

@[grind =] theorem applyStatuses_cons_ok {d d' : DeliveryTables} {callback : MetaStatusUpdate}
    {callbacks : List MetaStatusUpdate} {statuses : List CallbackApplyStatus} :
    applyStatuses d (callback :: callbacks) = (d', .ok statuses) ↔
      ∃ status d₁ rest, applyStatus d callback = .ok (status, d₁) ∧
        applyStatuses d₁ callbacks = (d', .ok rest) ∧ statuses = status :: rest := by
  constructor
  · intro h
    rw [applyStatuses] at h
    cases ha : applyStatus d callback with
    | error e =>
      simp only [ha] at h
      cases h
    | ok r =>
      obtain ⟨status, d₁⟩ := r
      simp only [ha] at h
      obtain ⟨h₁, h₂⟩ := Prod.mk.inj h
      cases hr : (applyStatuses d₁ callbacks).2 with
      | error e =>
        rw [hr] at h₂
        cases h₂
      | ok rest =>
        rw [hr] at h₂
        cases h₂
        exact ⟨status, d₁, rest, rfl, Prod.ext h₁ hr, rfl⟩
  · rintro ⟨status, d₁, rest, ha, hrest, rfl⟩
    simp only [applyStatuses, ha, hrest]
    rfl

example : (applyStatuses Callbacks.acceptedTables
    [Callbacks.sentReport, Callbacks.sentReport]).2.toOption = some [.applied, .duplicate] := by
  decide +kernel

theorem applyStatuses_length {d d' : DeliveryTables} {callbacks : List MetaStatusUpdate}
    {statuses : List CallbackApplyStatus} (h : applyStatuses d callbacks = (d', .ok statuses)) :
    statuses.length = callbacks.length := by
  induction callbacks generalizing d statuses with
  | nil =>
    cases h
    rfl
  | cons callback callbacks ih =>
    obtain ⟨status, d₁, rest, -, hrest, rfl⟩ := applyStatuses_cons_ok.mp h
    simp [ih hrest]

theorem applyStatuses_snoc {d d₁ d₂ : DeliveryTables} {callbacks : List MetaStatusUpdate}
    {statuses : List CallbackApplyStatus} {callback : MetaStatusUpdate}
    {status : CallbackApplyStatus} (h : applyStatuses d callbacks = (d₁, .ok statuses))
    (ha : applyStatus d₁ callback = .ok (status, d₂)) :
    applyStatuses d (callbacks ++ [callback]) = (d₂, .ok (statuses ++ [status])) := by
  induction callbacks generalizing d statuses with
  | nil =>
    cases h
    exact applyStatuses_cons_ok.mpr ⟨status, d₂, [], ha, rfl, rfl⟩
  | cons c callbacks ih =>
    obtain ⟨s, e, rest, hc, hrest, rfl⟩ := applyStatuses_cons_ok.mp h
    exact applyStatuses_cons_ok.mpr ⟨s, e, rest ++ [status], hc, ih hrest, rfl⟩

/-- Every callback of an applied list is a duplicate from then on. -/
theorem applyStatuses_settled {d d' : DeliveryTables} {callbacks : List MetaStatusUpdate}
    {statuses : List CallbackApplyStatus} (h : applyStatuses d callbacks = (d', .ok statuses)) :
    (∀ c, Settled d c → Settled d' c) ∧ ∀ c ∈ callbacks, Settled d' c := by
  induction callbacks generalizing d statuses with
  | nil =>
    cases h
    exact ⟨fun _ hc => hc, by simp⟩
  | cons callback callbacks ih =>
    obtain ⟨status, d₁, rest, ha, hrest, -⟩ := applyStatuses_cons_ok.mp h
    obtain ⟨hkeep, hall⟩ := ih hrest
    refine ⟨fun c hc => hkeep c (hc.applyStatus ha), ?_⟩
    intro c hc
    rcases List.mem_cons.mp hc with rfl | hc
    · exact hkeep c (settled_applyStatus ha)
    · exact hall c hc

theorem applyStatuses_alike {d e d' : DeliveryTables} {callbacks : List MetaStatusUpdate}
    {statuses : List CallbackApplyStatus} (halike : Alike d e)
    (h : applyStatuses d callbacks = (d', .ok statuses)) :
    ∃ e', applyStatuses e callbacks = (e', .ok statuses) ∧ Alike d' e' := by
  induction callbacks generalizing d e statuses with
  | nil =>
    cases h
    exact ⟨e, rfl, halike⟩
  | cons callback callbacks ih =>
    obtain ⟨status, d₁, rest, ha, hrest, rfl⟩ := applyStatuses_cons_ok.mp h
    obtain ⟨e₁, he₁, halike₁⟩ := applyStatus_alike halike ha
    obtain ⟨e', he', halike'⟩ := ih halike₁ hrest
    exact ⟨e', applyStatuses_cons_ok.mpr ⟨status, e₁, rest, he₁, he', rfl⟩, halike'⟩

/-- The result of an attempt may as well have arrived before the callbacks that were
applied. -/
theorem applyStatuses_finalized {d d' : DeliveryTables} {callbacks : List MetaStatusUpdate}
    {statuses : List CallbackApplyStatus} (hd : Recorded d) (now : Time) (attemptId : Uuid)
    {result : DeliveryResult} (hresult : result.FromAdapter)
    (h : applyStatuses d callbacks = (d', .ok statuses)) :
    ∃ e, applyStatuses (finalized d now attemptId result) callbacks = (e, .ok statuses) ∧
      Alike e (finalized d' now attemptId result) := by
  induction callbacks generalizing d statuses with
  | nil =>
    cases h
    exact ⟨_, rfl, Alike.refl _⟩
  | cons callback callbacks ih =>
    obtain ⟨status, d₁, rest, ha, hrest, rfl⟩ := applyStatuses_cons_ok.mp h
    obtain ⟨e₁, he₁, halike₁⟩ := applyStatus_finalized hd hresult ha
    obtain ⟨f, hf, halike⟩ := ih (recorded_applyStatus hd ha) hrest
    obtain ⟨e, he, halike'⟩ := applyStatuses_alike halike₁.symm hf
    exact ⟨e, applyStatuses_cons_ok.mpr ⟨status, e₁, rest, he₁, he, rfl⟩,
      halike'.symm.trans halike⟩

/-- Every callback of a run that did not raise was counted once. -/
theorem applyStatus_counted {d d' : DeliveryTables} {callback : MetaStatusUpdate}
    {status : CallbackApplyStatus} (h : applyStatus d callback = .ok (status, d')) :
    status ≠ .missingAttempt := by
  obtain ⟨attempt, -, ⟨-, rfl, -⟩ | ⟨-, hcommit⟩⟩ := applyStatus_ok_iff.mp h
  · simp
  · simp only [commitCallback] at hcommit
    split_ifs at hcommit <;> cases hcommit <;> simp

end Piki.IngressStatuses
