import Piki.DeliveryAttempts

/-! Status callbacks of one message, applied one after the other. The status that an
attempt ends in does not depend on the order in which they arrive. -/
namespace Piki.CallbackOrder
open Table Transition DeliveryStore DeliveryAttempts
open Callbacks (eventKey attempt_eq selectAttempt_mem commitCallback_events commitCallback_ids sentReport
  readReport)

/-- Serial application, one transaction each. -/
def applyAll (d : DeliveryTables) : List MetaStatusUpdate → Except Failure DeliveryTables
  | [] => .ok d
  | callback :: callbacks => do
    let (_, d) ← applyCallback d callback
    applyAll d callbacks

/-- `accepted < sent < delivered < read`. -/
def rank : DeliveryAttemptState → ℕ
  | .sent => 1
  | .delivered => 2
  | .read => 3
  | _ => 0

/-- Statuses of a message that has not failed. -/
def Ladder (status : DeliveryAttemptState) : Prop :=
  status ∈ [DeliveryAttemptState.accepted, .sent, .delivered, .read]

instance (status : DeliveryAttemptState) : Decidable (Ladder status) :=
  inferInstanceAs (Decidable (_ ∈ _))

def higher (a b : DeliveryAttemptState) : DeliveryAttemptState := if rank a < rank b then b else a

def greatest (a : DeliveryAttemptState) (statuses : List DeliveryAttemptState) :
    DeliveryAttemptState :=
  statuses.foldl higher a

theorem rank_injective {a b : DeliveryAttemptState} (ha : Ladder a) (hb : Ladder b)
    (h : rank a = rank b) : a = b := by
  cases a <;> cases b <;> first | rfl | (cases h; done) | simp [Ladder] at ha hb

theorem higher_ladder {a b : DeliveryAttemptState} (ha : Ladder a) (hb : Ladder b) :
    Ladder (higher a b) := by
  unfold higher
  split_ifs
  · exact hb
  · exact ha

theorem rank_higher (a b : DeliveryAttemptState) : rank (higher a b) = max (rank a) (rank b) := by
  unfold higher
  split_ifs <;> omega

/-- On the ladder a callback is applied exactly when it climbs. -/
theorem canTransition_ladder {a b : DeliveryAttemptState} (ha : Ladder a) (hb : Ladder b) :
    canTransition a b = decide (rank a < rank b) := by
  cases a <;> cases b <;> first | rfl | simp [Ladder] at ha hb

theorem greatest_spec {a : DeliveryAttemptState} {statuses : List DeliveryAttemptState}
    (ha : Ladder a) (hs : ∀ s ∈ statuses, Ladder s) :
    Ladder (greatest a statuses) ∧ greatest a statuses ∈ a :: statuses ∧
      ∀ s ∈ a :: statuses, rank s ≤ rank (greatest a statuses) := by
  induction statuses generalizing a with
  | nil => simp [greatest, ha]
  | cons s statuses ih =>
    obtain ⟨hsl, hrest⟩ := List.forall_mem_cons.mp hs
    obtain ⟨hl, hm, hle⟩ := ih (higher_ladder ha hsl) hrest
    have htop := hle _ List.mem_cons_self
    rw [rank_higher] at htop
    refine ⟨hl, ?_, ?_⟩
    · rcases List.mem_cons.mp hm with he | hm
      · change greatest (higher a s) statuses ∈ _
        rw [he]
        unfold higher
        split_ifs <;> simp
      · exact List.mem_cons_of_mem _ (List.mem_cons_of_mem _ hm)
    · intro x hx
      rcases List.mem_cons.mp hx with rfl | hx
      · exact le_trans (le_max_left _ _) htop
      · rcases List.mem_cons.mp hx with rfl | hx
        · exact le_trans (le_max_right _ _) htop
        · exact hle x (List.mem_cons_of_mem _ hx)

/-- The greatest status is that of the set of statuses. -/
theorem greatest_congr {a : DeliveryAttemptState} {xs ys : List DeliveryAttemptState}
    (ha : Ladder a) (hx : ∀ s ∈ xs, Ladder s) (h : ∀ s, s ∈ xs ↔ s ∈ ys) :
    greatest a xs = greatest a ys := by
  have hy : ∀ s ∈ ys, Ladder s := fun s hs => hx s ((h s).mpr hs)
  obtain ⟨hlx, hmx, hlex⟩ := greatest_spec ha hx
  obtain ⟨hly, hmy, hley⟩ := greatest_spec ha hy
  have hmem : ∀ s, s ∈ a :: xs ↔ s ∈ a :: ys := fun s => by simp [h s]
  refine rank_injective hlx hly (le_antisymm ?_ ?_)
  · exact hley _ ((hmem _).mp hmx)
  · exact hlex _ ((hmem _).mpr hmy)

example : greatest .accepted [.delivered, .sent] = .delivered := by decide +kernel

/-- The event of this status is stored. -/
def Logged (d : DeliveryTables) (p : String) (status : DeliveryAttemptState) : Prop :=
  ∃ e ∈ d.events, e.providerState = some (p, status)

def eventCount (d : DeliveryTables) (p : String) (status : DeliveryAttemptState) : ℕ :=
  d.events.countP fun e => e.providerState = some (p, status)

theorem logged_iff {d : DeliveryTables} {p : String} {status : DeliveryAttemptState} :
    Logged d p status ↔ 0 < eventCount d p status := by
  simp [Logged, eventCount, List.countP_pos_iff]

/-- The one attempt with the provider id. -/
structure Row (d : DeliveryTables) (p : String) (a : DeliveryAttemptRecord) : Prop where
  ids : Unique (fun a : DeliveryAttemptRecord => some a.id) d.attempts
  selected : selectAttempt d p = .ok (some a)

theorem Row.mem {d : DeliveryTables} {p : String} {a : DeliveryAttemptRecord} (h : Row d p a) :
    a ∈ d.attempts ∧ a.providerMessageId = some p := selectAttempt_mem h.selected

theorem Row.filter {d : DeliveryTables} {p : String} {a : DeliveryAttemptRecord} (h : Row d p a) :
    (d.attempts.filter fun x => x.providerMessageId = some p) = [a] := by
  have hsel := h.selected
  unfold selectAttempt at hsel
  generalize d.attempts.filter _ = rows at hsel ⊢
  match rows, hsel with
  | [x], hsel =>
    cases hsel
    rfl

theorem Row.update {d : DeliveryTables} {p : String} {a : DeliveryAttemptRecord} (h : Row d p a)
    (callback : MetaStatusUpdate) (events : List DeliveryStatusEventRecord) :
    Row ⟨updateWhere (fun x => decide (x.id = a.id)) (callbackRow callback a) d.attempts, events⟩ p
      (callbackRow callback a a) := by
  refine ⟨unique_updateWhere (fun _ _ => rfl) h.ids, ?_⟩
  have hfilter : ((updateWhere (fun x => decide (x.id = a.id)) (callbackRow callback a)
      d.attempts).filter fun x => x.providerMessageId = some p) = [callbackRow callback a a] := by
    have hkeep : ∀ x : DeliveryAttemptRecord, decide (x.id = a.id) = true →
        decide ((callbackRow callback a x).providerMessageId = some p) =
          decide (x.providerMessageId = some p) := fun _ _ => rfl
    rw [filter_updateWhere_keep hkeep, h.filter]
    simp [updateWhere]
  rw [selectAttempt, hfilter]

/-- All that a callback for the message can do to its attempt. -/
theorem applyCallback_row {d : DeliveryTables} {p : String} {a : DeliveryAttemptRecord}
    (h : Row d p a) {callback : MetaStatusUpdate} (hp : callback.providerMessageId = p) :
    ∃ status d', applyCallback d callback = .ok (status, d') ∧
      ((Logged d p callback.status.toState ∧ d' = d) ∨
        (¬ Logged d p callback.status.toState ∧
          d'.events = d.events ++ [callbackEvent callback a] ∧
          Row d' p (if canTransition a.status callback.status.toState then callbackRow callback a a
            else a))) := by
  subst hp
  by_cases hlog : Logged d callback.providerMessageId callback.status.toState
  · exact ⟨.duplicate, d, applyCallback_duplicate h.selected hlog, .inl ⟨hlog, rfl⟩⟩
  · refine ⟨(commitCallback d callback a).1, (commitCallback d callback a).2,
      applyCallback_commits h.selected hlog, .inr ⟨hlog, commitCallback_events d callback a, ?_⟩⟩
    simp only [commitCallback]
    split_ifs
    · exact h.update callback _
    · exact ⟨h.ids, h.selected⟩

/-- Callbacks of one message, with statuses from a list. -/
def Reports (p : String) (statuses : List DeliveryStatus) (callbacks : List MetaStatusUpdate) : Prop :=
  ∀ c ∈ callbacks, c.providerMessageId = p ∧ c.status ∈ statuses

def states (callbacks : List MetaStatusUpdate) : List DeliveryAttemptState :=
  callbacks.map fun c => c.status.toState

theorem applyAll_cons_ok {d d₁ : DeliveryTables} {callback : MetaStatusUpdate}
    {callbacks : List MetaStatusUpdate} {status : CallbackApplyStatus}
    (h : applyCallback d callback = .ok (status, d₁)) :
    applyAll d (callback :: callbacks) = applyAll d₁ callbacks := by
  rw [applyAll, h, ok_bind]

theorem Row.id_eq {callback : MetaStatusUpdate} (a : DeliveryAttemptRecord) :
    (if canTransition a.status callback.status.toState then callbackRow callback a a else a).id =
      a.id := by
  split_ifs <;> rfl

/-- Callbacks for the message are applied to the same attempt, and once it is read or
failed its status is final. -/
theorem applyAll_row {d : DeliveryTables} {p : String} {a : DeliveryAttemptRecord}
    (h : Row d p a) {callbacks : List MetaStatusUpdate}
    (hc : ∀ c ∈ callbacks, c.providerMessageId = p) :
    ∃ d' a', applyAll d callbacks = .ok d' ∧ Row d' p a' ∧ a'.id = a.id ∧
      (a.status = .read ∨ a.status = .failed → a'.status = a.status) := by
  induction callbacks generalizing d a with
  | nil => exact ⟨d, a, rfl, h, rfl, fun _ => rfl⟩
  | cons callback callbacks ih =>
    obtain ⟨hp, hrest⟩ := List.forall_mem_cons.mp hc
    obtain ⟨status, d₁, happly, hcase⟩ := applyCallback_row h hp
    rw [applyAll_cons_ok happly]
    rcases hcase with ⟨-, rfl⟩ | ⟨-, -, hrow⟩
    · exact ih h hrest
    · obtain ⟨d', a', hall, hrow', hid, hfinal⟩ := ih hrow hrest
      refine ⟨d', a', hall, hrow', hid.trans (Row.id_eq a), ?_⟩
      intro hs
      have hstay : canTransition a.status callback.status.toState = false := by
        rcases hs with hs | hs <;> rw [hs] <;> rfl
      rw [hstay] at hfinal
      exact hfinal hs

/-- The attempt has climbed to the greatest status of the callbacks so far, and each of
their statuses has one event. -/
structure Standing (d : DeliveryTables) (i : Uuid) (p : String) (accepted : ℕ)
    (seen : List DeliveryAttemptState) : Prop where
  row : ∃ a, Row d p a ∧ a.id = i ∧ a.status = greatest .accepted seen ∧ a.errorCode = none
  events : ∀ s, s ≠ .accepted → eventCount d p s = if s ∈ seen then 1 else 0
  accepted : eventCount d p .accepted = accepted

theorem greatest_snoc (a s : DeliveryAttemptState) (statuses : List DeliveryAttemptState) :
    greatest a (statuses ++ [s]) = higher (greatest a statuses) s := by
  simp [greatest]

theorem eventCount_append {d d' : DeliveryTables} {callback : MetaStatusUpdate}
    {a : DeliveryAttemptRecord} (h : d'.events = d.events ++ [callbackEvent callback a])
    (s : DeliveryAttemptState) :
    eventCount d' callback.providerMessageId s = eventCount d callback.providerMessageId s +
      if callback.status.toState = s then 1 else 0 := by
  simp only [eventCount, h, List.countP_append, List.countP_cons, List.countP_nil, Nat.zero_add,
    callbackEvent, DeliveryStatusEventRecord.providerState, Option.map_some]
  simp

theorem climbing {status : DeliveryStatus}
    (h : status ∈ [DeliveryStatus.sent, .delivered, .read]) :
    Ladder status.toState ∧ status.toState ≠ .accepted ∧ status ≠ .failed := by
  simp only [List.mem_cons, List.not_mem_nil, or_false] at h
  rcases h with rfl | rfl | rfl <;> decide

theorem standing_step {d : DeliveryTables} {i : Uuid} {p : String} {n : ℕ}
    {seen : List DeliveryAttemptState} (h : Standing d i p n seen) (hseen : ∀ s ∈ seen, Ladder s)
    {callback : MetaStatusUpdate} (hp : callback.providerMessageId = p)
    (hs : callback.status ∈ [DeliveryStatus.sent, .delivered, .read]) :
    ∃ status d', applyCallback d callback = .ok (status, d') ∧
      Standing d' i p n (seen ++ [callback.status.toState]) := by
  obtain ⟨a, hrow, hid, hstatus, hcode⟩ := h.row
  obtain ⟨hladder, hne, hnotfailed⟩ := climbing hs
  have hnocode : callback.errorCode = none := by
    by_contra hcode
    exact hnotfailed (callback.error_shape.mpr hcode)
  obtain ⟨hgreat, -, hle⟩ := greatest_spec (by decide : Ladder .accepted) hseen
  have hlogged : Logged d p callback.status.toState ↔ callback.status.toState ∈ seen := by
    rw [logged_iff, h.events _ hne]
    split_ifs <;> simp_all
  obtain ⟨status, d', happly, hcase⟩ := applyCallback_row hrow hp
  refine ⟨status, d', happly, ?_⟩
  rcases hcase with ⟨hlog, rfl⟩ | ⟨hfree, hevents, hrow'⟩
  · have hin := hlogged.mp hlog
    refine ⟨⟨a, hrow, hid, ?_, hcode⟩, ?_, h.accepted⟩
    · rw [greatest_snoc, hstatus, higher, if_neg]
      exact Nat.not_lt.mpr (hle _ (List.mem_cons_of_mem _ hin))
    · intro s hsne
      rw [h.events s hsne]
      refine if_congr ?_ rfl rfl
      rw [List.mem_append, List.mem_singleton]
      exact ⟨.inl, fun hx => hx.elim id fun he => he ▸ hin⟩
  · refine ⟨⟨_, hrow', (Row.id_eq a).trans hid, ?_, ?_⟩, ?_, ?_⟩
    · rw [greatest_snoc, ← hstatus, canTransition_ladder (hstatus ▸ hgreat) hladder, higher]
      by_cases hlt : rank a.status < rank callback.status.toState
      · simp [hlt, callbackRow]
      · simp [hlt]
    · split_ifs
      · simp [callbackRow, hnocode]
      · exact hcode
    · intro s hsne
      subst hp
      rw [eventCount_append hevents, h.events s hsne]
      have hnew : callback.status.toState ∉ seen := fun hin => hfree (hlogged.mpr hin)
      by_cases hsame : callback.status.toState = s
      · subst hsame
        simp [hnew]
      · have hsym : ¬ s = callback.status.toState := fun he => hsame he.symm
        simp [hsame, hsym]
    · subst hp
      rw [eventCount_append hevents, if_neg hne, Nat.add_zero]
      exact h.accepted

theorem standing_run {d : DeliveryTables} {i : Uuid} {p : String} {n : ℕ}
    {seen : List DeliveryAttemptState} (h : Standing d i p n seen) (hseen : ∀ s ∈ seen, Ladder s)
    {callbacks : List MetaStatusUpdate} (hc : Reports p [.sent, .delivered, .read] callbacks) :
    ∃ d', applyAll d callbacks = .ok d' ∧ Standing d' i p n (seen ++ states callbacks) := by
  induction callbacks generalizing d seen with
  | nil => exact ⟨d, rfl, by simpa [states] using h⟩
  | cons callback callbacks ih =>
    obtain ⟨⟨hp, hs⟩, hrest⟩ := List.forall_mem_cons.mp hc
    obtain ⟨status, d₁, happly, hnext⟩ := standing_step h hseen hp hs
    have hseen' : ∀ s ∈ seen ++ [callback.status.toState], Ladder s := by
      intro s hin
      rcases List.mem_append.mp hin with hin | hin
      · exact hseen s hin
      · rw [List.mem_singleton.mp hin]
        exact (climbing hs).1
    obtain ⟨d', hall, hstanding⟩ := ih hnext hseen' hrest
    refine ⟨d', (applyAll_cons_ok happly).trans hall, ?_⟩
    rw [List.append_assoc] at hstanding
    exact hstanding

/-- No two attempts share a provider id, and an attempt that is still accepted has no
other event. -/
structure Distinct (d : DeliveryTables) : Prop where
  providers : ∀ a ∈ d.attempts, ∀ b ∈ d.attempts, ∀ p ∈ a.providerMessageId,
    p ∈ b.providerMessageId → a = b
  accepted : ∀ a ∈ d.attempts, a.status = .accepted → ∀ p ∈ a.providerMessageId,
    ∀ e ∈ d.events, ∀ s, e.providerState = some (p, s) → s = .accepted

theorem distinct_claim {d d' : DeliveryTables} {attemptId conversationId : Uuid}
    {request : DeliveryRequest} {c : DeliveryClaim} (h : Distinct d)
    (hc : claim d attemptId conversationId request = .ok (c, d')) : Distinct d' := by
  obtain ⟨created, attempt⟩ := c
  rcases claim_ok hc with ⟨-, rfl, -⟩ | ⟨-, -, -, -, rfl⟩
  · exact h
  · have hold : ∀ a ∈ d.attempts ++ [pendingRow attemptId conversationId request],
        ∀ p ∈ a.providerMessageId, a ∈ d.attempts := by
      intro a ha p hp
      rcases List.mem_append.mp ha with ha | ha
      · exact ha
      · rw [List.mem_singleton.mp ha] at hp
        cases hp
    constructor
    · intro a ha b hb p hpa hpb
      exact h.providers a (hold a ha p hpa) b (hold b hb p hpb) p hpa hpb
    · intro a ha hs p hp
      exact h.accepted a (hold a ha p hp) hs p hp

theorem distinct_finalize {s : State} {now : Time} {attemptId : Uuid} {result : DeliveryResult}
    {db : DeliveryTables} (hi : Inv s) (h : Distinct s.tables) (hresult : result.FromAdapter)
    (hnew : Unissued s result)
    (hf : finalize s.tables now attemptId result = .ok ((), db)) : Distinct db := by
  obtain ⟨⟨a, ha, hid, hpending⟩, -, rfl⟩ := finalize_ok hf
  -- a row that carries an id is an old one, or the finalised one with an id that is new
  have hcases : ∀ y ∈ updateWhere (pendingAttempt attemptId) (finalizeRow result)
      s.tables.attempts, ∀ p ∈ y.providerMessageId,
      (y ∈ s.tables.attempts ∧ p ∈ s.issued) ∨
        (y = finalizeRow result a ∧ result.providerMessageId = some p ∧ p ∉ s.issued) := by
    intro y hy p hp
    obtain ⟨x, hx, rfl⟩ := mem_updateWhere.mp hy
    split_ifs at hp ⊢ with hpend
    · simp only [pendingAttempt, decide_eq_true_eq] at hpend
      have hxa : x = a := attempt_eq hi.ids hx ha (hpend.1.trans hid.symm)
      exact .inr ⟨by rw [hxa], hp, hnew p hp⟩
    · exact .inl ⟨hx, hi.attemptIds x hx p hp⟩
  constructor
  · intro x hx y hy p hpx hpy
    rcases hcases x hx p hpx with ⟨hxm, hin⟩ | ⟨hxa, -, hout⟩ <;>
      rcases hcases y hy p hpy with ⟨hym, hin'⟩ | ⟨hya, -, hout'⟩
    · exact h.providers x hxm y hym p hpx hpy
    · exact absurd hin hout'
    · exact absurd hin' hout
    · rw [hxa, hya]
  · intro x hx hs p hp e he st hk
    obtain ⟨q, hq, hpair⟩ := Option.map_eq_some_iff.mp hk
    have hqp : q = p := congrArg Prod.fst hpair
    subst hqp
    rcases hcases x hx q hp with ⟨hxm, hin⟩ | ⟨-, -, hout⟩ <;>
      rcases List.mem_append.mp he with he | he
    · exact h.accepted x hxm hs q hp e he st hk
    · rw [List.mem_singleton.mp he] at hq
      exact absurd hin (hnew q hq)
    · exact absurd (hi.eventIds e he q hq) hout
    · rw [List.mem_singleton.mp he] at hpair hq
      rcases hresult with ⟨haccepted, -⟩ | ⟨-, hnone⟩
      · have hst : result.status.toState = st := congrArg Prod.snd hpair
        rw [← hst, haccepted]
        rfl
      · have hq' : result.providerMessageId = some q := hq
        rw [hnone] at hq'
        cases hq'

/-- Every status that the webhook reports climbs from `accepted`. -/
theorem canTransition_accepted {callback : MetaStatusUpdate} (h : Callbacks.Reported callback) :
    canTransition .accepted callback.status.toState = true := by
  obtain ⟨name, hname⟩ := h
  rw [hname]
  cases name <;> rfl

theorem distinct_callback {d d' : DeliveryTables} {callback : MetaStatusUpdate}
    {status : CallbackApplyStatus} (h : Distinct d) (hn : Callbacks.Reported callback)
    (hc : applyCallback d callback = .ok (status, d')) : Distinct d' := by
  rcases applyCallback_ok hc with ⟨rfl, -⟩ | ⟨attempt, hsel, ⟨rfl, -⟩ | ⟨-, hcommit⟩⟩
  · exact h
  · exact h
  · obtain ⟨hm, hpid⟩ := selectAttempt_mem hsel
    -- the new event belongs to the attempt that was read, and to no other
    have hother : ∀ a ∈ d.attempts, a ≠ attempt → a.status = .accepted →
        ∀ p ∈ a.providerMessageId, ∀ e ∈ d.events ++ [callbackEvent callback attempt],
        ∀ s, e.providerState = some (p, s) → s = .accepted := by
      intro a ha hne hs p hp e he st hk
      rcases List.mem_append.mp he with he | he
      · exact h.accepted a ha hs p hp e he st hk
      · rw [List.mem_singleton.mp he] at hk
        have hp' : callback.providerMessageId = p := congrArg Prod.fst (Option.some.inj hk)
        exact absurd (h.providers a ha attempt hm p hp (hp' ▸ hpid)) hne
    simp only [commitCallback] at hcommit
    split_ifs at hcommit with hcan <;> cases hcommit
    · constructor
      · intro y hy z hz p hpy hpz
        obtain ⟨a, ha, rfl⟩ := mem_updateWhere.mp hy
        obtain ⟨b, hb, rfl⟩ := mem_updateWhere.mp hz
        have hkeep : ∀ x : DeliveryAttemptRecord, (if decide (x.id = attempt.id) = true then
            callbackRow callback attempt x else x).providerMessageId = x.providerMessageId := by
          intro x
          split_ifs <;> rfl
        rw [hkeep] at hpy hpz
        rw [h.providers a ha b hb p hpy hpz]
      · intro y hy hs p hp
        obtain ⟨a, ha, rfl⟩ := mem_updateWhere.mp hy
        split_ifs at hs hp with hid
        · exact absurd hs (DeliveryTruth.reported_state hn).2.1
        · refine hother a ha ?_ hs p hp
          rintro rfl
          simp at hid
    · refine ⟨h.providers, ?_⟩
      intro a ha hs p hp
      refine hother a ha ?_ hs p hp
      rintro rfl
      rw [hs] at hcan
      exact hcan (canTransition_accepted hn)

theorem distinct_step {s t : State} {l : Label} (hi : Inv s) (h : Distinct s.tables)
    (hs : step s l = some t) : Distinct t.tables := by
  rcases step_cases hi hs with rfl | ⟨_, rfl⟩ | ⟨_, _, _, _, _, _, hc, rfl⟩ |
    ⟨_, _, _, _, hresult, hnew, hf, rfl⟩ | ⟨_, _, _, hn, hc, rfl⟩
  · exact h
  · exact h
  · exact distinct_claim h hc
  · exact distinct_finalize hi h hresult hnew hf
  · exact distinct_callback h hn.reported hc

theorem distinct_reachable {schedule : List Label} {t : State}
    (hrun : exec step start schedule = some t) : Inv t ∧ Distinct t.tables := by
  have hstart : Inv start ∧ Distinct start.tables := by
    refine ⟨inv_start, ⟨?_, ?_⟩⟩ <;> intro a ha <;> cases ha
  exact exec_invariant (I := fun s => Inv s ∧ Distinct s.tables)
    (fun _ _ _ h hs => ⟨inv_step h.1 hs, distinct_step h.1 h.2 hs⟩) hstart hrun

theorem Distinct.row {d : DeliveryTables} (h : Distinct d)
    (hids : Unique (fun a : DeliveryAttemptRecord => some a.id) d.attempts)
    {a : DeliveryAttemptRecord} (ha : a ∈ d.attempts) {p : String}
    (hp : a.providerMessageId = some p) : Row d p a := by
  refine ⟨hids, ?_⟩
  have hsame : (d.attempts.filter fun x => x.providerMessageId = some p) =
      d.attempts.filter fun x => decide (x.id = a.id) := by
    refine List.filter_congr ?_
    intro x hx
    rw [decide_eq_decide]
    constructor
    · intro hxp
      rw [h.providers x hx a ha p hxp hp]
    · intro hxi
      rw [attempt_eq hids hx ha hxi]
      exact hp
  have hone : (d.attempts.filter fun x => decide (x.id = a.id)) = [a] :=
    unique_filter hids (fun x => by simp) ha rfl
  rw [selectAttempt, hsame, hone]

/-- What a sequence of callbacks left: the status is the greatest of the sequence, no
error is stored, and each reported status has one event. -/
structure Settled (d : DeliveryTables) (i : Uuid) (p : String) (callbacks : List MetaStatusUpdate)
    (status : DeliveryAttemptState) : Prop where
  row : ∀ x ∈ d.attempts, x.id = i → x.status = status ∧ x.errorCode = none
  stored : ∃ x ∈ d.attempts, x.id = i
  reached : status ∈ .accepted :: states callbacks
  greatest : ∀ s ∈ .accepted :: states callbacks, rank s ≤ rank status
  events : ∀ s ∈ [DeliveryAttemptState.sent, .delivered, .read],
    eventCount d p s = if s ∈ states callbacks then 1 else 0

theorem states_ladder {p : String} {callbacks : List MetaStatusUpdate}
    (hc : Reports p [.sent, .delivered, .read] callbacks) : ∀ s ∈ states callbacks, Ladder s := by
  intro s hs
  obtain ⟨c, hcm, rfl⟩ := List.mem_map.mp hs
  exact (climbing (hc c hcm).2).1

theorem Standing.settled {d : DeliveryTables} {i : Uuid} {p : String} {n : ℕ}
    {callbacks : List MetaStatusUpdate} (h : Standing d i p n (states callbacks))
    (hc : Reports p [.sent, .delivered, .read] callbacks) :
    Settled d i p callbacks (CallbackOrder.greatest .accepted (states callbacks)) := by
  obtain ⟨a, hrow, hid, hstatus, hcode⟩ := h.row
  obtain ⟨ham, -⟩ := hrow.mem
  obtain ⟨-, hmem, hle⟩ := greatest_spec (by decide : Ladder .accepted) (states_ladder hc)
  refine ⟨?_, ⟨a, ham, hid⟩, hmem, hle, ?_⟩
  · intro x hx hxi
    rw [attempt_eq hrow.ids hx ham (hxi.trans hid.symm)]
    exact ⟨hstatus, hcode⟩
  · intro s hs
    exact h.events s (by rintro rfl; simp at hs)

/-- Callbacks with the same statuses leave the same status and log the same ones. -/
theorem Standing.congr {d d' : DeliveryTables} {i : Uuid} {p : String} {n : ℕ}
    {xs ys : List DeliveryAttemptState} (h : Standing d i p n xs) (h' : Standing d' i p n ys)
    (hmem : ∀ s, s ∈ xs ↔ s ∈ ys) (s : DeliveryAttemptState) :
    Logged d p s ↔ Logged d' p s := by
  rw [logged_iff, logged_iff]
  by_cases hs : s = .accepted
  · rw [hs, h.accepted, h'.accepted]
  · rw [h.events s hs, h'.events s hs]
    simp only [hmem s]

/-- Before its first callback an accepted attempt has no event of another status. -/
theorem standing_start {s : State} (hi : Inv s) (h : Distinct s.tables)
    {a : DeliveryAttemptRecord} (ha : a ∈ s.tables.attempts) (hs : a.status = .accepted)
    {p : String} (hp : a.providerMessageId = some p) :
    Standing s.tables a.id p (eventCount s.tables p .accepted) [] := by
  refine ⟨⟨a, h.row hi.ids ha hp, rfl, hs, ?_⟩, ?_, rfl⟩
  · exact ((hi.rows a ha).1.taken (by rw [hs]; rfl)).2
  · intro st hst
    rw [if_neg List.not_mem_nil, eventCount, List.countP_eq_zero]
    intro e he hk
    exact hst (h.accepted a ha hs p hp e he st (of_decide_eq_true hk))

/-- The statuses of an accepted attempt do not depend on the order of its callbacks,
and nothing follows `read` or `failed`. -/
theorem callback_order_irrelevant {schedule : List Label} {t : State}
    (hrun : exec step start schedule = some t) {a : DeliveryAttemptRecord}
    (ha : a ∈ t.tables.attempts) (hs : a.status = .accepted) {p : String}
    (hp : a.providerMessageId = some p) :
    (∀ callbacks, Reports p [.sent, .delivered, .read] callbacks →
      ∃ d status, applyAll t.tables callbacks = .ok d ∧ Settled d a.id p callbacks status ∧
        ∀ others, callbacks.Perm others →
          ∃ d', applyAll t.tables others = .ok d' ∧ Settled d' a.id p others status ∧
            ∀ s, Logged d p s ↔ Logged d' p s) ∧
    ∀ first rest, Reports p [.sent, .delivered, .read, .failed] (first ++ rest) →
      ∃ d, applyAll t.tables first = .ok d ∧ ∀ x ∈ d.attempts, x.id = a.id →
        x.status = .read ∨ x.status = .failed →
        ∃ d', applyAll d rest = .ok d' ∧ (∃ y ∈ d'.attempts, y.id = a.id) ∧
          ∀ y ∈ d'.attempts, y.id = a.id → y.status = x.status := by
  obtain ⟨hinv, hdistinct⟩ := distinct_reachable hrun
  have hrow := hdistinct.row hinv.ids ha hp
  constructor
  · intro callbacks hc
    have hstart := standing_start hinv hdistinct ha hs hp
    obtain ⟨d, hall, hstanding⟩ := standing_run hstart (by simp) hc
    rw [List.nil_append] at hstanding
    refine ⟨d, _, hall, hstanding.settled hc, ?_⟩
    intro others hperm
    have hothers : Reports p [.sent, .delivered, .read] others := fun c hcm =>
      hc c (hperm.mem_iff.mpr hcm)
    obtain ⟨d', hall', hstanding'⟩ := standing_run hstart (by simp) hothers
    rw [List.nil_append] at hstanding'
    have hmem : ∀ s, s ∈ states callbacks ↔ s ∈ states others := fun s => (hperm.map _).mem_iff
    refine ⟨d', hall', ?_, hstanding.congr hstanding' hmem⟩
    rw [greatest_congr (by decide) (states_ladder hc) hmem]
    exact hstanding'.settled hothers
  · intro first rest hc
    obtain ⟨hfirst, hrest⟩ := List.forall_mem_append.mp hc
    obtain ⟨d, b, hall, hrowb, hid, -⟩ := applyAll_row hrow fun c hcm => (hfirst c hcm).1
    refine ⟨d, hall, ?_⟩
    intro x hx hxi hfinal
    obtain ⟨hbm, -⟩ := hrowb.mem
    have hxb : x = b := attempt_eq hrowb.ids hx hbm (hxi.trans hid.symm)
    subst hxb
    obtain ⟨d', y, hall', hrowy, hidy, hsame⟩ := applyAll_row hrowb fun c hcm => (hrest c hcm).1
    obtain ⟨hym, -⟩ := hrowy.mem
    refine ⟨d', hall', ⟨y, hym, hidy.trans hxi⟩, ?_⟩
    intro z hz hzi
    rw [attempt_eq hrowy.ids hz hym (hzi.trans (hidy.trans hxi).symm)]
    exact hsame hfinal

/-- A message that was accepted, and no callback yet. -/
def acceptedSchedule : List Label :=
  [.claim 1 1 replyRequest,
    .finalize 0 1 replyRequest fun _ => .response 200 none (some ["wamid.out"])]

/-- `read` overtakes `sent`, which arrives twice. -/
theorem overtaken_sent_settled : ∃ t, exec step start acceptedSchedule = some t ∧
    ∃ a ∈ t.tables.attempts, a.status = .accepted ∧ a.providerMessageId = some "wamid.out" ∧
      ∃ d status, applyAll t.tables [readReport, sentReport, sentReport] = .ok d ∧
        Settled d a.id "wamid.out" [readReport, sentReport, sentReport] status := by
  have haccepted : (exec step start acceptedSchedule).map (fun t => t.tables.attempts.any
      fun a => a.status = .accepted ∧ a.providerMessageId = some "wamid.out") = some true := by
    decide
  obtain ⟨t, ht, hany⟩ := Option.map_eq_some_iff.mp haccepted
  obtain ⟨a, ha, hst⟩ := List.any_eq_true.mp hany
  obtain ⟨hstatus, hp⟩ := of_decide_eq_true hst
  obtain ⟨horder, -⟩ := callback_order_irrelevant ht ha hstatus hp
  obtain ⟨d, status, hall, hsettled, -⟩ := horder [readReport, sentReport, sentReport] (by
    intro c hc
    simp only [List.mem_cons, List.not_mem_nil, or_false] at hc
    rcases hc with rfl | rfl | rfl <;> decide)
  exact ⟨t, ht, a, ha, hstatus, hp, d, status, hall, hsettled⟩

end Piki.CallbackOrder
