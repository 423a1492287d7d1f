import Piki.PendingActions
import Piki.Evidence

/-! The two stores of one conversation, `RedisActivePickStore` and
`RedisPendingActionStore`, with `ActivePickService.resolve`, command by command. Each
clean-up is a read, perhaps an upstream call, and then a delete of whatever the key
holds by then. -/
namespace Piki

inductive ActivePickSource
  | explicitReference
  | unambiguousResult
  deriving DecidableEq, Repr

structure ActivePickReference where
  schemaVersion : String
  pickId : String
  commerceId : String
  selectedAt : Time
  source : ActivePickSource
  pickId_bounded : Bounded 1 255 pickId
  commerceId_bounded : Bounded 1 255 commerceId
  deriving Repr

instance : DecidableEq ActivePickReference := fun a b =>
  decidable_of_iff (a.schemaVersion = b.schemaVersion ∧ a.pickId = b.pickId ∧
    a.commerceId = b.commerceId ∧ a.selectedAt = b.selectedAt ∧ a.source = b.source) (by
      cases a
      cases b
      simp)

/-- The ids of an `AvailablePick`. -/
structure AvailablePick where
  id : String
  commerceId : String
  deriving DecidableEq, Repr

/-- The reference that `remember` builds. -/
def ActivePickReference.make (pick : AvailablePick) (selectedAt : Time)
    (source : ActivePickSource) : Except Failure ActivePickReference :=
  if h : Bounded 1 255 pick.id ∧ Bounded 1 255 pick.commerceId then
    .ok ⟨"1.0", pick.id, pick.commerceId, selectedAt, source, h.1, h.2⟩
  else .error (.validation "ActivePickReference")

namespace CleanUps
open Expiring Transition
open PendingActionStore (Reply)

/-- The keys of the conversation. -/
inductive Kind
  | activePick
  | pendingAction
  deriving DecidableEq, Repr

/-- The JSON of the two models, and the times to live. -/
structure Params where
  dumpReference : ActivePickReference → String
  validateReference : String → Option ActivePickReference
  dumpAction : PendingAction → String
  validateAction : String → Option PendingAction
  activePickTtl : ℕ
  pendingActionTtl : ℕ

/-- The payload is a valid value of its key. -/
def Params.valid (c : Params) : Kind → String → Bool
  | .activePick, payload => (c.validateReference payload).isSome
  | .pendingAction, payload => (c.validateAction payload).isSome

/-- Where a call is between two of its commands. `readAt` is the number of the command
that read the key. -/
inductive Phase
  | idle
  | inherited (reference : ActivePickReference) (readAt : ℕ)
  | explicit (pickId : String)
  | remembering (reference : ActivePickReference)
  | cleaning (kind : Kind) (readAt : ℕ)
  deriving DecidableEq

/-- A value that a clean-up removed, with the commands that wrote it and that decided
the clean-up. -/
structure Removal where
  kind : Kind
  payload : String
  writtenAt : ℕ
  readAt : ℕ
  deriving DecidableEq, Repr

/-- Commands are numbered; each value carries the number of its `SET`, and `lastWrite`
has the last one that wrote a valid value. -/
structure State where
  redis : Store Kind (String × ℕ)
  commands : ℕ
  lastWrite : Kind → ℕ
  calls : ℕ → Phase
  removed : List Removal

/-- One command each, or an answer of upstream. `remember` is the `SET` of a `resolve`,
`setActivePick` any other one, and `foreign` a write that no store made. -/
inductive Label
  | getActivePick (n : ℕ) (reply : Reply)
  | resolve (n : ℕ) (explicitPickId : Option String) (reply : Reply)
  | upstream (n : ℕ) (now : Time) (answer : Except BuenPickClientError AvailablePick)
  | remember (n : ℕ) (reply : Reply)
  | setActivePick (reference : ActivePickReference) (reply : Reply)
  | getPendingAction (n : ℕ) (reply : Reply)
  | consumePendingAction (reply : Reply)
  | setPendingAction (action : PendingAction) (reply : Reply)
  | clear (kind : Kind) (reply : Reply)
  | cleanUp (n : ℕ) (reply : Reply)
  | foreign (kind : Kind) (payload : String) (ttl : ℕ)
  | advance (seconds : ℕ)

def State.setCall (s : State) (n : ℕ) (phase : Phase) : State :=
  { s with calls := Function.update s.calls n phase }

def State.set (c : Params) (s : State) (kind : Kind) (payload : String) (ttl : ℕ)
    (reply : Reply) : State :=
  if reply = .refused then { s with commands := s.commands + 1 }
  else { s with
    redis := s.redis.set kind (payload, s.commands + 1) ttl
    commands := s.commands + 1
    lastWrite := if c.valid kind payload then
      Function.update s.lastWrite kind (s.commands + 1) else s.lastWrite }

def State.delete (s : State) (kind : Kind) (reply : Reply) : State :=
  if reply = .refused then { s with commands := s.commands + 1 }
  else { s with redis := s.redis.delete kind, commands := s.commands + 1 }

/-- `GET`, with the number of the command. -/
def State.read (s : State) (kind : Kind) : Option String × ℕ × State :=
  ((s.redis.get kind).map Prod.fst, s.commands + 1, { s with commands := s.commands + 1 })

def setActivePick (c : Params) (s : State) (reference : ActivePickReference) (reply : Reply) :
    State :=
  s.set c .activePick (c.dumpReference reference) c.activePickTtl reply

/-- `RedisActivePickStore.get` up to its clean-up; `found` says what the caller does with
a reference. -/
def getActivePick (c : Params) (s : State) (n : ℕ) (reply : Reply)
    (found : ActivePickReference → ℕ → Phase) : State :=
  let (payload, readAt, t) := s.read .activePick
  if reply ≠ .served then t
  else match payload with
    | none => t
    | some payload =>
      match c.validateReference payload with
      | none => t.setCall n (.cleaning .activePick readAt)
      | some reference => t.setCall n (found reference readAt)

/-- `resolve` after the answer of `get_available_pick`. -/
def afterUpstream (s : State) (n : ℕ) (now : Time)
    (answer : Except BuenPickClientError AvailablePick) : Option State :=
  match s.calls n with
  | .inherited _ readAt =>
    match answer with
    | .error e =>
      if e.code = .notFound then some (s.setCall n (.cleaning .activePick readAt))
      else some (s.setCall n .idle)
    | .ok _ => some (s.setCall n .idle)
  | .explicit _ =>
    match answer with
    | .error _ => some (s.setCall n .idle)
    | .ok pick =>
      match ActivePickReference.make pick now .explicitReference with
      | .error _ => some (s.setCall n .idle)
      | .ok reference => some (s.setCall n (.remembering reference))
  | _ => none

/-- The delete of a clean-up, with a note of the value that it removes. -/
def cleanUp (s : State) (n : ℕ) (kind : Kind) (readAt : ℕ) (reply : Reply) : State :=
  let t := (s.delete kind reply).setCall n .idle
  match if reply = .refused then none else s.redis.get kind with
  | some (payload, writtenAt) =>
    { t with removed := s.removed ++ [⟨kind, payload, writtenAt, readAt⟩] }
  | none => t

def step (c : Params) (s : State) : Label → Option State
  | .getActivePick n reply =>
    if s.calls n = .idle then some (getActivePick c s n reply fun _ _ => .idle) else none
  | .resolve n explicitPickId reply =>
    if s.calls n = .idle then
      match explicitPickId with
      | none => some (getActivePick c s n reply .inherited)
      | some pickId =>
        if Text.strip pickId.toList = [] then some s
        else some (s.setCall n (.explicit (String.ofList (Text.strip pickId.toList))))
    else none
  | .upstream n now answer => afterUpstream s n now answer
  | .remember n reply =>
    match s.calls n with
    | .remembering reference => some ((setActivePick c s reference reply).setCall n .idle)
    | _ => none
  | .setActivePick reference reply => some (setActivePick c s reference reply)
  | .getPendingAction n reply =>
    if s.calls n = .idle then
      let (payload, readAt, t) := s.read .pendingAction
      if reply ≠ .served then some t
      else match payload with
        | none => some t
        | some payload =>
          if c.valid .pendingAction payload then some t
          else some (t.setCall n (.cleaning .pendingAction readAt))
    else none
  | .consumePendingAction reply => some (s.delete .pendingAction reply)
  | .setPendingAction action reply =>
    some (s.set c .pendingAction (c.dumpAction action) c.pendingActionTtl reply)
  | .clear kind reply => some (s.delete kind reply)
  | .cleanUp n reply =>
    match s.calls n with
    | .cleaning kind readAt => some (cleanUp s n kind readAt reply)
    | _ => none
  | .foreign kind payload ttl => some (s.set c kind payload ttl .served)
  | .advance seconds => some { s with redis := s.redis.advance seconds }

def start (now : ℕ) : State := ⟨⟨now, fun _ => none⟩, 0, fun _ => 0, fun _ => .idle, []⟩

/-- No clean-up removed a valid value that was written after its read. -/
def OnlyOlder (c : Params) (s : State) : Prop :=
  ∀ r ∈ s.removed, c.valid r.kind r.payload = true → r.writtenAt ≤ r.readAt

/-- When the delete of a clean-up is served, no valid value has been written to the key
since the read. -/
def Undisturbed (s : State) : Label → Prop
  | .cleanUp n reply => reply ≠ .refused → ∀ kind readAt, s.calls n = .cleaning kind readAt →
      s.lastWrite kind ≤ readAt
  | _ => True

instance (s : State) : (l : Label) → Decidable (Undisturbed s l)
  | .cleanUp n reply =>
    match h : s.calls n with
    | .cleaning kind readAt =>
      decidable_of_iff (reply ≠ .refused → s.lastWrite kind ≤ readAt) (by
        simp only [Undisturbed, h, Phase.cleaning.injEq]
        constructor
        · rintro hu hr _ _ ⟨rfl, rfl⟩
          exact hu hr
        · intro hu hr
          exact hu hr kind readAt ⟨rfl, rfl⟩)
    | .idle | .inherited _ _ | .explicit _ | .remembering _ =>
      isTrue (by intro _ kind readAt hc; rw [h] at hc; cases hc)
  | .getActivePick _ _ | .resolve _ _ _ | .upstream _ _ _ | .remember _ _ | .setActivePick _ _
  | .getPendingAction _ _ | .consumePendingAction _ | .setPendingAction _ _ | .clear _ _
  | .foreign _ _ _ | .advance _ => isTrue trivial

/-- The step stores nothing and removes nothing for a clean-up. -/
structure Quiet (s u : State) : Prop where
  entries : ∀ kind e, u.redis.entries kind = some e → s.redis.entries kind = some e
  lastWrite : u.lastWrite = s.lastWrite
  removed : u.removed = s.removed

/-- The step is a `SET`. -/
def Sets (c : Params) (s u : State) : Prop :=
  ∃ kind payload ttl reply, u.redis = (s.set c kind payload ttl reply).redis ∧
    u.lastWrite = (s.set c kind payload ttl reply).lastWrite ∧ u.removed = s.removed

theorem set_removed (c : Params) (s : State) (kind : Kind) (payload : String) (ttl : ℕ)
    (reply : Reply) : (s.set c kind payload ttl reply).removed = s.removed := by
  unfold State.set
  split_ifs <;> rfl

theorem sets_set (c : Params) (s : State) (kind : Kind) (payload : String) (ttl : ℕ)
    (reply : Reply) : Sets c s (s.set c kind payload ttl reply) :=
  ⟨kind, payload, ttl, reply, rfl, rfl, set_removed c s kind payload ttl reply⟩

theorem quiet_setCall {s u : State} (h : Quiet s u) (n : ℕ) (phase : Phase) :
    Quiet s (u.setCall n phase) := ⟨h.entries, h.lastWrite, h.removed⟩

theorem quiet_refl (s : State) : Quiet s s := ⟨fun _ _ he => he, rfl, rfl⟩

theorem quiet_delete (s : State) (kind : Kind) (reply : Reply) : Quiet s (s.delete kind reply) := by
  unfold State.delete
  split_ifs
  · exact ⟨fun _ _ he => he, rfl, rfl⟩
  · exact ⟨fun _ _ he => (Store.entries_delete.mp he).2, rfl, rfl⟩

theorem quiet_read (s : State) (kind : Kind) : Quiet s (s.read kind).2.2 :=
  ⟨fun _ _ he => he, rfl, rfl⟩

theorem quiet_getActivePick (c : Params) (s : State) (n : ℕ) (reply : Reply)
    (found : ActivePickReference → ℕ → Phase) : Quiet s (getActivePick c s n reply found) := by
  have hread := quiet_read s .activePick
  unfold getActivePick
  split
  rename_i payload readAt t heq
  rw [heq] at hread
  split_ifs
  · exact hread
  · cases payload with
    | none => exact hread
    | some payload =>
      dsimp only
      cases c.validateReference payload <;> exact quiet_setCall hread n _

theorem quiet_afterUpstream {s u : State} {n : ℕ} {now : Time}
    {answer : Except BuenPickClientError AvailablePick}
    (h : afterUpstream s n now answer = some u) : Quiet s u := by
  have hcall : ∀ phase, Quiet s (s.setCall n phase) := quiet_setCall (quiet_refl s) n
  unfold afterUpstream at h
  split at h
  · split at h
    · split_ifs at h <;> cases h <;> exact hcall _
    · cases h
      exact hcall _
  · split at h
    · cases h
      exact hcall _
    · split at h <;> cases h <;> exact hcall _
  · cases h

/-- All that a step can do to the stored values. -/
theorem step_cases {c : Params} {s u : State} {l : Label} (hs : step c s l = some u) :
    Quiet s u ∨ Sets c s u ∨ ∃ n kind readAt reply, l = .cleanUp n reply ∧
      s.calls n = .cleaning kind readAt ∧ u = cleanUp s n kind readAt reply := by
  cases l with
  | getActivePick n reply =>
    simp only [step] at hs
    split_ifs at hs
    cases hs
    exact .inl (quiet_getActivePick c s n reply _)
  | resolve n explicitPickId reply =>
    simp only [step] at hs
    split_ifs at hs
    cases explicitPickId with
    | none =>
      cases hs
      exact .inl (quiet_getActivePick c s n reply _)
    | some pickId =>
      dsimp only at hs
      split_ifs at hs <;> cases hs
      · exact .inl (quiet_refl s)
      · exact .inl (quiet_setCall (quiet_refl s) n _)
  | upstream n now answer => exact .inl (quiet_afterUpstream hs)
  | remember n reply =>
    simp only [step] at hs
    split at hs
    · cases hs
      obtain ⟨kind, payload, ttl, reply', hredis, hlast, hremoved⟩ :=
        sets_set c s .activePick (c.dumpReference _) c.activePickTtl reply
      exact .inr (.inl ⟨kind, payload, ttl, reply', hredis, hlast, hremoved⟩)
    · cases hs
  | setActivePick reference reply =>
    cases hs
    exact .inr (.inl (sets_set c s .activePick _ _ reply))
  | getPendingAction n reply =>
    have hread := quiet_read s .pendingAction
    simp only [step] at hs
    split_ifs at hs
    · cases hs
      exact .inl hread
    · cases hp : (s.read .pendingAction).1 with
      | none =>
        simp only [hp] at hs
        cases hs
        exact .inl hread
      | some payload =>
        simp only [hp] at hs
        split_ifs at hs <;> cases hs
        · exact .inl hread
        · exact .inl (quiet_setCall hread n _)
  | consumePendingAction reply =>
    cases hs
    exact .inl (quiet_delete s .pendingAction reply)
  | setPendingAction action reply =>
    cases hs
    exact .inr (.inl (sets_set c s .pendingAction _ _ reply))
  | clear kind reply =>
    cases hs
    exact .inl (quiet_delete s kind reply)
  | cleanUp n reply =>
    cases hc : s.calls n with
    | cleaning kind readAt =>
      simp only [step, hc] at hs
      cases hs
      exact .inr (.inr ⟨n, kind, readAt, reply, rfl, hc, rfl⟩)
    | idle | inherited | explicit | remembering => simp [step, hc] at hs
  | foreign kind payload ttl =>
    cases hs
    exact .inr (.inl (sets_set c s kind payload ttl .served))
  | advance seconds =>
    cases hs
    exact .inl ⟨fun _ _ he => he, rfl, rfl⟩

/-- A stored valid value was written by the last `SET` of its key or before. -/
structure Inv (c : Params) (s : State) : Prop where
  stamped : ∀ kind payload writtenAt expiry,
    s.redis.entries kind = some ((payload, writtenAt), expiry) → c.valid kind payload = true →
      writtenAt ≤ s.lastWrite kind
  older : OnlyOlder c s

theorem inv_start (c : Params) (now : ℕ) : Inv c (start now) := by
  constructor
  · intro kind payload writtenAt expiry he
    cases he
  · intro r hr
    cases hr

theorem inv_quiet {c : Params} {s u : State} (h : Inv c s) (hq : Quiet s u) : Inv c u := by
  constructor
  · intro kind payload writtenAt expiry he hv
    rw [hq.lastWrite]
    exact h.stamped kind payload writtenAt expiry (hq.entries kind _ he) hv
  · intro r hr
    rw [hq.removed] at hr
    exact h.older r hr

theorem inv_sets {c : Params} {s u : State} (h : Inv c s) (hset : Sets c s u) : Inv c u := by
  obtain ⟨kind, payload, ttl, reply, hredis, hlast, hremoved⟩ := hset
  refine ⟨?_, fun r hr => h.older r (hremoved ▸ hr)⟩
  intro kind' payload' writtenAt expiry he hv
  rw [hredis] at he
  rw [hlast]
  unfold State.set at he ⊢
  split_ifs at he ⊢ with hr hvalid
  · exact h.stamped kind' payload' writtenAt expiry he hv
  · rcases Store.entries_set.mp he with ⟨rfl, hw, -⟩ | ⟨hne, he⟩
    · cases hw
      simp
    · simpa [hne] using h.stamped kind' payload' writtenAt expiry he hv
  · rcases Store.entries_set.mp he with ⟨rfl, hw, -⟩ | ⟨-, he⟩
    · cases hw
      exact absurd hv hvalid
    · exact h.stamped kind' payload' writtenAt expiry he hv

theorem inv_cleanUp {c : Params} {s : State} {n : ℕ} {kind : Kind} {readAt : ℕ} {reply : Reply}
    (h : Inv c s) (hwindow : reply ≠ .refused → s.lastWrite kind ≤ readAt) :
    Inv c (cleanUp s n kind readAt reply) := by
  have hquiet : Inv c ((s.delete kind reply).setCall n .idle) :=
    inv_quiet h (quiet_setCall (quiet_delete s kind reply) n .idle)
  unfold cleanUp
  split
  · rename_i payload writtenAt hg
    split_ifs at hg with hr
    obtain ⟨expiry, hlive⟩ := Store.get_eq_some.mp hg
    obtain ⟨he, -⟩ := Store.live_eq_some.mp hlive
    refine ⟨hquiet.stamped, ?_⟩
    intro r hmem hv
    rcases List.mem_append.mp hmem with hmem | hmem
    · exact h.older r hmem hv
    · rw [List.mem_singleton.mp hmem] at hv ⊢
      exact (h.stamped kind payload writtenAt expiry he hv).trans (hwindow hr)
  · exact hquiet

/-- In every interleaving in which no valid value is written between the read of a
clean-up and its delete, no clean-up removes a newer valid value. -/
theorem clean_ups_spare_newer {c : Params} {now : ℕ} {schedule : List Label} {s : State}
    (hwindows : Along (step c) Undisturbed (start now) schedule)
    (hrun : exec (step c) (start now) schedule = some s) : OnlyOlder c s := by
  have hinv : Inv c s := by
    refine exec_invariant_along ?_ (inv_start c now) hwindows hrun
    intro s l u hi hu hs
    rcases step_cases hs with hq | hset | ⟨n, kind, readAt, reply, rfl, hc, rfl⟩
    · exact inv_quiet hi hq
    · exact inv_sets hi hset
    · exact inv_cleanUp hi fun hr => hu hr kind readAt hc
  exact hinv.older

section Samples

def oldPick : ActivePickReference :=
  ⟨"1.0", "pick-1", "commerce-1", 0, .unambiguousResult, by decide +kernel, by decide⟩

def newPick : ActivePickReference :=
  ⟨"1.0", "pick-2", "commerce-1", 0, .explicitReference, by decide +kernel, by decide⟩

def oldPickJson : String :=
  "\x7b\"schema_version\":\"1.0\",\"pick_id\":\"pick-1\",\"commerce_id\":\"commerce-1\"," ++
  "\"selected_at\":\"1970-01-01T00:00:00Z\",\"source\":\"unambiguous_result\"\x7d"

def newPickJson : String :=
  "\x7b\"schema_version\":\"1.0\",\"pick_id\":\"pick-2\",\"commerce_id\":\"commerce-1\"," ++
  "\"selected_at\":\"1970-01-01T00:00:00Z\",\"source\":\"explicit_reference\"\x7d"

/-- Agrees with the JSON of the models on the two references. -/
def sampleParams : Params where
  dumpReference r := if r = oldPick then oldPickJson else if r = newPick then newPickJson else ""
  validateReference payload := if payload = oldPickJson then some oldPick
    else if payload = newPickJson then some newPick else none
  dumpAction _ := ""
  validateAction _ := none
  activePickTtl := 3600
  pendingActionTtl := 900

/-- While a message waits for the answer that the old pick is gone, the person chooses a
new one. -/
def overtakenCleanUp : List Label :=
  [.setActivePick oldPick .served, .resolve 1 none .served,
    .resolve 2 (some "pick-2") .served, .upstream 2 0 (.ok ⟨"pick-2", "commerce-1"⟩),
    .remember 2 .served, .upstream 1 0 (.error (.httpStatus 404)), .cleanUp 1 .served]

set_option maxRecDepth 10000 in
/-- The clean-up of the old pick removes the new one. -/
theorem new_selection_removed :
    ∃ s, exec (step sampleParams) (start 0) overtakenCleanUp = some s ∧
      ¬ OnlyOlder sampleParams s := by
  have hrun : (exec (step sampleParams) (start 0) overtakenCleanUp).map (·.removed) =
      some [⟨.activePick, newPickJson, 3, 2⟩] := by
    decide
  obtain ⟨s, hs, hremoved⟩ := Option.map_eq_some_iff.mp hrun
  refine ⟨s, hs, ?_⟩
  intro holder
  have hle := holder ⟨.activePick, newPickJson, 3, 2⟩ (by rw [hremoved]; simp) (by decide)
  exact absurd hle (by decide)

/-- The person chooses after the delete. -/
def orderlyCleanUp : List Label :=
  [.setActivePick oldPick .served, .resolve 1 none .served,
    .resolve 2 (some "pick-2") .served, .upstream 2 0 (.ok ⟨"pick-2", "commerce-1"⟩),
    .upstream 1 0 (.error (.httpStatus 404)), .cleanUp 1 .served, .remember 2 .served]

set_option maxRecDepth 10000 in
theorem orderly_clean_up_spares_newer :
    ∃ s, exec (step sampleParams) (start 0) orderlyCleanUp = some s ∧
      s.removed = [⟨.activePick, oldPickJson, 1, 2⟩] ∧ OnlyOlder sampleParams s := by
  have hrun : (exec (step sampleParams) (start 0) orderlyCleanUp).map (·.removed) =
      some [⟨.activePick, oldPickJson, 1, 2⟩] := by
    decide
  obtain ⟨s, hs, hremoved⟩ := Option.map_eq_some_iff.mp hrun
  exact ⟨s, hs, hremoved, clean_ups_spare_newer (by decide) hs⟩

end Samples

end CleanUps
end Piki
