import Piki.DeliveryCallbacks
import Piki.DeliveryService

/-! What the columns of an attempt and its status events say about each other. The
first part holds under every interleaving of statements, the second for atomic
transactions. -/
namespace Piki.DeliveryTruth
open Table Transition DeliveryStore

/-- Statuses of a message that the provider took. -/
def taken : DeliveryAttemptState → Bool
  | .accepted | .sent | .delivered | .read => true
  | _ => false

theorem taken_iff {status : DeliveryAttemptState} :
    taken status = true ↔ status ∈ [.accepted, .sent, .delivered, .read] := by
  cases status <;> simp [taken]

theorem taken_toState {status : DeliveryStatus} : taken status.toState = !status.isError := by
  cases status <;> rfl

/-- Only a taken attempt is moved by a callback. -/
theorem canTransition_taken {current target : DeliveryAttemptState}
    (h : canTransition current target = true) : taken current = true := by
  cases current <;> first | rfl | cases h

/-- A status event of the attempt under this provider id. -/
def HasEvent (d : DeliveryTables) (id : Uuid) (p : String) (status : DeliveryAttemptState) : Prop :=
  ∃ e ∈ d.events, e.deliveryAttemptId = id ∧ e.providerMessageId = some p ∧ e.status = status

/-- The provider took the message; a failure was reported by a callback later. -/
def Taken (d : DeliveryTables) (a : DeliveryAttemptRecord) : Prop :=
  ∃ p, a.providerMessageId = some p ∧ p ≠ "" ∧ HasEvent d a.id p .accepted ∧
    (taken a.status = true ∨ (a.status = .failed ∧ HasEvent d a.id p .failed))

/-- An attempt has a provider id exactly when the provider took the message. -/
def Sound (d : DeliveryTables) : Prop :=
  ∀ a ∈ d.attempts, (a.providerMessageId = none ∧ taken a.status = false) ∨
    (a.status ≠ .pending ∧ Taken d a)

theorem HasEvent.append {d d' : DeliveryTables} {id : Uuid} {p : String}
    {status : DeliveryAttemptState} {events : List DeliveryStatusEventRecord}
    (hd : d'.events = d.events ++ events) (h : HasEvent d id p status) : HasEvent d' id p status := by
  obtain ⟨e, he, hrest⟩ := h
  exact ⟨e, by rw [hd]; exact List.mem_append_left _ he, hrest⟩

theorem Taken.append {d d' : DeliveryTables} {a : DeliveryAttemptRecord}
    {events : List DeliveryStatusEventRecord} (hd : d'.events = d.events ++ events)
    (h : Taken d a) : Taken d' a := by
  obtain ⟨p, hp, hne, haccepted, hstatus⟩ := h
  exact ⟨p, hp, hne, haccepted.append hd, hstatus.imp_right fun h => ⟨h.1, h.2.append hd⟩⟩

theorem sound_claim {d d' : DeliveryTables} {attemptId conversationId : Uuid}
    {request : DeliveryRequest} {created : Bool} {attempt : DeliveryAttemptSnapshot} (h : Sound d)
    (hc : claim d attemptId conversationId request = .ok (⟨created, attempt⟩, d')) : Sound d' := by
  rcases claim_ok hc with ⟨-, rfl, -⟩ | ⟨-, -, -, -, rfl⟩
  · exact h
  · intro a ha
    rcases List.mem_append.mp ha with ha | ha
    · exact h a ha
    · rw [List.mem_singleton.mp ha]
      exact .inl ⟨rfl, rfl⟩

theorem truthy_some {s : Option String} (h : truthy s = true) : ∃ t, s = some t ∧ t ≠ "" := by
  cases s with
  | none => cases h
  | some t => exact ⟨t, rfl, by simpa [truthy] using h⟩

example : truthy (some "") = false ∧ truthy (some "wamid.out") = true := by decide +kernel

/-- What `finalize` makes of the pending row. -/
theorem finalizeRow_truth {d : DeliveryTables} {now : Time} {result : DeliveryResult}
    (hresult : result.FromAdapter) (a : DeliveryAttemptRecord)
    (hevent : resultEvent a.id now result ∈ d.events) :
    ((finalizeRow result a).providerMessageId = none ∧ taken (finalizeRow result a).status = false) ∨
      ((finalizeRow result a).status ≠ .pending ∧ Taken d (finalizeRow result a)) := by
  rcases hresult with ⟨hstatus, hpid⟩ | ⟨herror, hpid⟩
  · obtain ⟨p, hp, hne⟩ := truthy_some hpid
    have hst : result.status.toState = .accepted := by rw [hstatus]; rfl
    refine .inr ⟨by simp [finalizeRow, hst], p, hp, hne, ⟨_, hevent, rfl, hp, hst⟩, .inl ?_⟩
    rw [finalizeRow, hst]
    rfl
  · refine .inl ⟨hpid, ?_⟩
    rw [finalizeRow, taken_toState, herror]
    rfl

theorem sound_finalize {d d' : DeliveryTables} {now : Time} {attemptId : Uuid}
    {result : DeliveryResult} (h : Sound d) (hresult : result.FromAdapter)
    (hf : finalize d now attemptId result = .ok ((), d')) : Sound d' := by
  obtain ⟨-, -, rfl⟩ := finalize_ok hf
  intro y hy
  obtain ⟨x, hx, rfl⟩ := mem_updateWhere.mp hy
  split_ifs with hp
  · have hid : x.id = attemptId := (of_decide_eq_true hp).1
    have hevent : resultEvent x.id now result ∈ d.events ++ [resultEvent attemptId now result] := by
      rw [hid]
      exact List.mem_append_right _ (List.mem_singleton_self _)
    exact finalizeRow_truth hresult x hevent
  · exact (h x hx).imp_right fun hx => ⟨hx.1, hx.2.append rfl⟩

theorem reported_state {callback : MetaStatusUpdate} (h : Callbacks.Reported callback) :
    callback.status.toState ≠ .pending ∧ callback.status.toState ≠ .accepted ∧
      (taken callback.status.toState = true ∨ callback.status.toState = .failed) := by
  obtain ⟨name, hname⟩ := h
  rw [hname]
  cases name <;> exact ⟨by decide, by decide, by decide⟩

/-- A callback writes over a row that the provider took. -/
theorem sound_commit {d : DeliveryTables} {callback : MetaStatusUpdate}
    {attempt : DeliveryAttemptRecord} (h : Sound d) (hr : Callbacks.Reported callback)
    (hpid : ∀ x ∈ d.attempts, x.id = attempt.id →
      x.providerMessageId = some callback.providerMessageId) :
    Sound (commitCallback d callback attempt).2 := by
  have hevents := Callbacks.commitCallback_events d callback attempt
  intro y hy
  rcases Callbacks.commitCallback_attempts hy with hy | ⟨-, x, hx, hid, rfl⟩
  · exact (h y hy).imp_right fun hy => ⟨hy.1, hy.2.append hevents⟩
  · have hxp := hpid x hx hid
    rcases h x hx with ⟨hnone, -⟩ | ⟨-, p, hp, hne, haccepted, -⟩
    · rw [hnone] at hxp
      cases hxp
    · obtain ⟨hpending, -, hstatus⟩ := reported_state hr
      refine .inr ⟨hpending, p, hp, hne, haccepted.append hevents, hstatus.imp_right ?_⟩
      intro hfailed
      refine ⟨hfailed, callbackEvent callback attempt, ?_, hid.symm, ?_, hfailed⟩
      · rw [hevents]
        exact List.mem_append_right _ (List.mem_singleton_self _)
      · exact hxp.symm.trans hp

/-- Identified attempts keep their id, key and provider id. -/
def Grows (d d' : DeliveryTables) : Prop :=
  ∀ a ∈ d.attempts, ∀ p, a.providerMessageId = some p → ∃ a' ∈ d'.attempts,
    a'.id = a.id ∧ a'.idempotencyKey = a.idempotencyKey ∧ a'.providerMessageId = some p

theorem Grows.refl (d : DeliveryTables) : Grows d d := fun a ha _ hp => ⟨a, ha, rfl, rfl, hp⟩

theorem grows_claim {d d' : DeliveryTables} {attemptId conversationId : Uuid}
    {request : DeliveryRequest} {created : Bool} {attempt : DeliveryAttemptSnapshot}
    (hc : claim d attemptId conversationId request = .ok (⟨created, attempt⟩, d')) : Grows d d' := by
  rcases claim_ok hc with ⟨-, rfl, -⟩ | ⟨-, -, -, -, rfl⟩
  · exact .refl _
  · intro a ha p hp
    exact ⟨a, List.mem_append_left _ ha, rfl, rfl, hp⟩

/-- Only pending attempts are finalised, and they have no provider id. -/
theorem grows_finalize {d d' : DeliveryTables} {now : Time} {attemptId : Uuid}
    {result : DeliveryResult} (h : Sound d)
    (hf : finalize d now attemptId result = .ok ((), d')) : Grows d d' := by
  obtain ⟨-, -, rfl⟩ := finalize_ok hf
  intro a ha p hp
  refine ⟨a, mem_updateWhere.mpr ⟨a, ha, ?_⟩, rfl, rfl, hp⟩
  have hpending : a.status ≠ .pending := by
    rcases h a ha with ⟨hnone, -⟩ | ⟨hne, -⟩
    · rw [hnone] at hp
      cases hp
    · exact hne
  rw [if_neg]
  simp [pendingAttempt, hpending]

theorem grows_commit (d : DeliveryTables) (callback : MetaStatusUpdate)
    (attempt : DeliveryAttemptRecord) : Grows d (commitCallback d callback attempt).2 := by
  intro a ha p hp
  simp only [commitCallback]
  split_ifs
  · refine ⟨_, mem_updateWhere.mpr ⟨a, ha, rfl⟩, ?_⟩
    split_ifs <;> exact ⟨rfl, rfl, hp⟩
  · exact ⟨a, ha, rfl, rfl, hp⟩

/-- Every open transaction read a row that carries its provider id. -/
def Reads (c : Callbacks.State) : Prop :=
  ∀ n callback attempt, Callbacks.OpenOn c n callback attempt → Callbacks.Reported callback ∧
    ∃ x ∈ c.tables.attempts, x.id = attempt.id ∧
      x.providerMessageId = some callback.providerMessageId

theorem Reads.withTables {c : Callbacks.State} {d : DeliveryTables} (h : Reads c)
    (hg : Grows c.tables d) : Reads (c.withTables d) := by
  intro n callback attempt ho
  obtain ⟨hr, x, hx, hid, hp⟩ := h n callback attempt ho
  obtain ⟨x', hx', hid', -, hp'⟩ := hg x hx _ hp
  exact ⟨hr, x', hx', hid'.trans hid, hp'⟩

/-- An open transaction was open before, or has just read its row. -/
theorem callback_open {c c' : Callbacks.State} {l : Callbacks.Label}
    (h : Callbacks.step c l = some c') {n : ℕ} {callback : MetaStatusUpdate}
    {attempt : DeliveryAttemptRecord} (ho : Callbacks.OpenOn c' n callback attempt) :
    Callbacks.OpenOn c n callback attempt ∨ (Callbacks.Reported callback ∧
      selectAttempt c.tables callback.providerMessageId = .ok (some attempt)) := by
  have hclose : ∀ {e : Callbacks.State} {m : ℕ}, e.txns = c.txns →
      Callbacks.OpenOn (e.close m) n callback attempt → Callbacks.OpenOn c n callback attempt := by
    intro e m he hopen
    by_cases hn : n = m
    · subst hn
      simp [Callbacks.OpenOn, Callbacks.State.close] at hopen
    · simpa [Callbacks.OpenOn, Callbacks.State.close, hn, he] using hopen
  rcases Callbacks.step_cases h with ⟨_, _, -, rfl⟩ | ⟨m, callback', a, -, hrep, hr, rfl⟩ |
    ⟨_, -, rfl⟩ | ⟨m, callback', a, -, hm, -, -, rfl⟩ | ⟨_, _, _, -, -, rfl⟩
  · exact .inl ho
  · by_cases hn : n = m
    · subst hn
      simp only [Callbacks.OpenOn, Callbacks.State.setTxn, Function.update_self,
        Callbacks.Txn.selected.injEq, reduceCtorEq, or_false] at ho
      obtain ⟨rfl, rfl⟩ := ho
      exact .inr ⟨hrep, hr⟩
    · left
      simpa [Callbacks.OpenOn, Callbacks.State.setTxn, hn] using ho
  · exact .inl (hclose rfl ho)
  · left
    by_cases hn : n = m
    · subst hn
      simp only [Callbacks.OpenOn, Callbacks.State.setTxn, Function.update_self,
        Callbacks.Txn.inserted.injEq, reduceCtorEq, false_or] at ho
      obtain ⟨rfl, rfl⟩ := ho
      exact .inl hm
    · simpa [Callbacks.OpenOn, Callbacks.State.setTxn, hn] using ho
  · exact .inl (hclose rfl ho)

/-- A callback statement changes no row, or commits what an open transaction decided. -/
theorem callback_tables {c c' : Callbacks.State} {l : Callbacks.Label}
    (h : Callbacks.step c l = some c') : c'.tables = c.tables ∨
      ∃ n callback attempt, c.txns n = .inserted callback attempt ∧
        c'.tables = (commitCallback c.tables callback attempt).2 := by
  by_cases hl : ∀ n callback attempt, l = .commit n → c.txns n ≠ .inserted callback attempt
  · exact .inl (Callbacks.step_attempts h hl)
  · push Not at hl
    obtain ⟨n, callback, attempt, rfl, hn⟩ := hl
    rw [Callbacks.step_commit hn] at h
    cases h
    exact .inr ⟨n, callback, attempt, hn, rfl⟩

/-- Status callbacks keep the truth of the rows, whatever they overtake. -/
theorem sound_callback {c c' : Callbacks.State} {l : Callbacks.Label}
    (hids : Unique (fun a : DeliveryAttemptRecord => some a.id) c.tables.attempts)
    (hs : Sound c.tables) (hr : Reads c) (h : Callbacks.step c l = some c') :
    Sound c'.tables ∧ Reads c' ∧ Grows c.tables c'.tables := by
  have hgrows : Sound c'.tables ∧ Grows c.tables c'.tables := by
    rcases callback_tables h with he | ⟨n, callback, attempt, hn, he⟩
    · rw [he]
      exact ⟨hs, .refl _⟩
    · obtain ⟨hrep, x, hx, hid, hp⟩ := hr n callback attempt (.inr hn)
      rw [he]
      refine ⟨sound_commit hs hrep ?_, grows_commit _ _ _⟩
      intro y hy hyi
      rw [Callbacks.attempt_eq hids hy hx (hyi.trans hid.symm)]
      exact hp
  refine ⟨hgrows.1, ?_, hgrows.2⟩
  intro n callback attempt ho
  rcases callback_open h ho with ho | ⟨hrep, hsel⟩
  · obtain ⟨hrep, x, hx, hid, hp⟩ := hr n callback attempt ho
    obtain ⟨x', hx', hid', -, hp'⟩ := hgrows.2 x hx _ hp
    exact ⟨hrep, x', hx', hid'.trans hid, hp'⟩
  · obtain ⟨hm, hp⟩ := Callbacks.selectAttempt_mem hsel
    obtain ⟨x', hx', hid', -, hp'⟩ := hgrows.2 attempt hm _ hp
    exact ⟨hrep, x', hx', hid', hp'⟩

end Piki.DeliveryTruth
