import Piki.CleanUps
import Piki.Sha256

/-! `RedisActivePickStore` and `ActivePickService` of `state/active_pick.py`, one call at a
time: what `resolve` returns, what it asks upstream, and what it leaves in Redis. -/
namespace Piki

inductive ActivePickResolutionStatus
  | confirmed
  | missing
  | stale
  | stateUnavailable
  | upstreamUnavailable
  deriving DecidableEq, Repr

/-- Exactly the confirmed resolutions have a pick and its source, and they have no error. -/
structure ActivePickResolution where
  status : ActivePickResolutionStatus
  pick : Option AvailablePick
  source : Option ActivePickSource
  contextPersisted : Bool
  errorCode : Option ToolErrorCode
  shape : status = .confirmed ↔ pick ≠ none ∧ source ≠ none
  no_error : status = .confirmed → errorCode = none

def ActivePickResolution.failure (status : ActivePickResolutionStatus)
    (errorCode : Option ToolErrorCode) (h : status ≠ .confirmed) : ActivePickResolution where
  status := status
  pick := none
  source := none
  contextPersisted := false
  errorCode := errorCode
  shape := iff_of_false h fun hn => hn.1 rfl
  no_error hs := absurd hs h

def ActivePickResolution.confirm (pick : AvailablePick) (source : ActivePickSource)
    (contextPersisted : Bool) : ActivePickResolution where
  status := .confirmed
  pick := some pick
  source := some source
  contextPersisted := contextPersisted
  errorCode := none
  shape := iff_of_true rfl ⟨Option.some_ne_none _, Option.some_ne_none _⟩
  no_error _ := rfl

/-- `ActivePickRead`: only a found read has a reference. -/
inductive ActivePickRead
  | found (reference : ActivePickReference)
  | missing
  | unavailable
  deriving DecidableEq

namespace ActivePicks
open Expiring
open PendingActionStore (Reply)

/-- The parameters of the store: `hashlib.sha256`, the JSON of the model, and the time
to live, which the constructor refuses if it is not positive. -/
structure Params where
  sha256Hex : ByteArray → String
  modelDumpJson : ActivePickReference → String
  modelValidateJson : String → Option ActivePickReference
  ttlSeconds : ℕ
  ttl_positive : 1 ≤ ttlSeconds

def Params.keyFor (c : Params) (scope : ConversationScope) : String :=
  RedisKeys.activePickKeyFor c.sha256Hex scope

abbrev Redis := Store String String

/-- What becomes of the commands of one call, which has at most one of each. -/
structure Replies where
  get : Reply
  set : Reply
  delete : Reply
  deriving DecidableEq, Repr

def clear (c : Params) (scope : ConversationScope) (reply : Reply) (redis : Redis) : Redis :=
  if reply = .refused then redis else redis.delete (c.keyFor scope)

/-- Whether the write was acknowledged, and the store after it. -/
def set (c : Params) (scope : ConversationScope) (reference : ActivePickReference) (reply : Reply)
    (redis : Redis) : Bool × Redis :=
  let stored := redis.set (c.keyFor scope) (c.modelDumpJson reference) c.ttlSeconds
  match reply with
  | .served => (true, stored)
  | .lost => (false, stored)
  | .refused => (false, redis)

def get (c : Params) (scope : ConversationScope) (replies : Replies) (redis : Redis) :
    ActivePickRead × Redis :=
  if replies.get ≠ .served then (.unavailable, redis)
  else match redis.get (c.keyFor scope) with
    | none => (.missing, redis)
    | some payload =>
      match c.modelValidateJson payload with
      | none => (.unavailable, clear c scope replies.delete redis)
      | some reference => (.found reference, redis)

/-- `get_available_pick` of the client. -/
abbrev PickReader := String → Except BuenPickClientError AvailablePick

/-- What a call returned or raised, the store that it leaves, and the picks that it asked
upstream for. -/
structure Ran (α : Type) where
  result : Except Failure α
  redis : Redis
  fetched : List String

/-- What is left of `resolve` when the pick is known. -/
def confirmPick (c : Params) (upstream : PickReader) (now : Time) (replies : Replies)
    (scope : ConversationScope) (inherited : Option ActivePickReference) (pickId : String)
    (redis : Redis) : Ran ActivePickResolution :=
  match upstream pickId with
  | .error e =>
    if e.code = .notFound then
      ⟨.ok (.failure .stale (some e.code) (by decide)),
        if inherited.isSome then clear c scope replies.delete redis else redis, [pickId]⟩
    else ⟨.ok (.failure .upstreamUnavailable (some e.code) (by decide)), redis, [pickId]⟩
  | .ok pick =>
    match inherited with
    | some reference => ⟨.ok (.confirm pick reference.source true), redis, [pickId]⟩
    | none =>
      match ActivePickReference.make pick now .explicitReference with
      | .error e => ⟨.error e, redis, [pickId]⟩
      | .ok reference =>
        let write := set c scope reference replies.set redis
        ⟨.ok (.confirm pick .explicitReference write.1), write.2, [pickId]⟩

def resolve (c : Params) (upstream : PickReader) (now : Time) (replies : Replies)
    (scope : ConversationScope) (explicitPickId : Option String) (redis : Redis) :
    Ran ActivePickResolution :=
  match explicitPickId with
  | none =>
    match get c scope replies redis with
    | (.unavailable, redis) => ⟨.ok (.failure .stateUnavailable none (by decide)), redis, []⟩
    | (.missing, redis) => ⟨.ok (.failure .missing none (by decide)), redis, []⟩
    | (.found reference, redis) =>
      confirmPick c upstream now replies scope (some reference) reference.pickId redis
  | some explicitPickId =>
    let pickId := Text.strip explicitPickId.toList
    if pickId = [] then ⟨.ok (.failure .missing none (by decide)), redis, []⟩
    else confirmPick c upstream now replies scope none (String.ofList pickId) redis

/-- The payload under the key is not a reference. -/
def Corrupt (c : Params) (scope : ConversationScope) (redis : Redis) : Prop :=
  ∃ payload, redis.get (c.keyFor scope) = some payload ∧ c.modelValidateJson payload = none

/-- The key holds a reference, and upstream has no such pick. -/
def InheritedGone (c : Params) (upstream : PickReader) (scope : ConversationScope)
    (redis : Redis) : Prop :=
  ∃ payload reference e, redis.get (c.keyFor scope) = some payload ∧
    c.modelValidateJson payload = some reference ∧ upstream reference.pickId = .error e ∧
    e.code = .notFound

/-- The key holds a reference to the pick. -/
def Refers (c : Params) (scope : ConversationScope) (redis : Redis) (pick : AvailablePick) : Prop :=
  ∃ payload reference, redis.get (c.keyFor scope) = some payload ∧
    c.modelValidateJson payload = some reference ∧ reference.pickId = pick.id

/-- What a call of `resolve` that returned did. -/
structure Frame (c : Params) (upstream : PickReader) (scope : ConversationScope)
    (explicitPickId : Option String) (before after : Redis) (fetched : List String)
    (resolution : ActivePickResolution) : Prop where
  one_call : fetched.length ≤ 1
  no_call : resolution.status = .missing ∨ resolution.status = .stateUnavailable → fetched = []
  confirmed : resolution.status = .confirmed → ∃ pickId pick, fetched = [pickId] ∧
    upstream pickId = .ok pick ∧ resolution.pick = some pick
  others : ∀ k, k ≠ c.keyFor scope → after.get k = before.get k
  key : after = before ∨
    (explicitPickId ≠ none ∧ ∃ pick reference, resolution.pick = some pick ∧
      reference.pickId = pick.id ∧
      after = before.set (c.keyFor scope) (c.modelDumpJson reference) c.ttlSeconds) ∨
    (explicitPickId = none ∧ (Corrupt c scope before ∨ InheritedGone c upstream scope before) ∧
      after = before.delete (c.keyFor scope))
  failed_explicit : explicitPickId ≠ none → resolution.status ≠ .confirmed → after = before
  persisted : resolution.contextPersisted = true →
    ∃ pick, resolution.pick = some pick ∧ Refers c scope after pick

section Frame
variable {c : Params} {upstream : PickReader} {now : Time} {replies : Replies}
  {scope : ConversationScope} {explicitPickId : Option String} {redis after : Redis}

/-- A delete touches its own key only. -/
theorem clear_cases (c : Params) (scope : ConversationScope) (reply : Reply) (redis : Redis) :
    clear c scope reply redis = redis ∨
      clear c scope reply redis = redis.delete (c.keyFor scope) := by
  unfold clear
  split_ifs
  · exact .inl rfl
  · exact .inr rfl

/-- A call that ended without a pick and left the store as it was, or without the key. -/
theorem frame_failure {fetched : List String} {status : ActivePickResolutionStatus}
    {errorCode : Option ToolErrorCode} (hs : status ≠ .confirmed) (hone : fetched.length ≤ 1)
    (hno : status = .missing ∨ status = .stateUnavailable → fetched = [])
    (hafter : after = redis ∨ (explicitPickId = none ∧
      (Corrupt c scope redis ∨ InheritedGone c upstream scope redis) ∧
      after = redis.delete (c.keyFor scope))) :
    Frame c upstream scope explicitPickId redis after fetched (.failure status errorCode hs) where
  one_call := hone
  no_call := hno
  confirmed h := absurd h hs
  others k hk := by
    rcases hafter with rfl | ⟨-, -, rfl⟩
    · rfl
    · exact Store.get_delete_of_ne redis hk
  key := by
    rcases hafter with h | h
    · exact .inl h
    · exact .inr (.inr h)
  failed_explicit hexplicit _ := by
    rcases hafter with h | ⟨h, -⟩
    · exact h
    · exact absurd h hexplicit
  persisted h := by cases h

/-- A call that confirmed a pick and left the key as it was, or set it. -/
theorem frame_confirm {pickId : String} {pick : AvailablePick} {source : ActivePickSource}
    {persisted : Bool} (hu : upstream pickId = .ok pick)
    (hafter : after = redis ∨ (explicitPickId ≠ none ∧ ∃ reference, reference.pickId = pick.id ∧
      after = redis.set (c.keyFor scope) (c.modelDumpJson reference) c.ttlSeconds))
    (hrefers : persisted = true → Refers c scope after pick) :
    Frame c upstream scope explicitPickId redis after [pickId] (.confirm pick source persisted) where
  one_call := by simp
  no_call h := by rcases h with h | h <;> cases h
  confirmed _ := ⟨pickId, pick, rfl, hu, rfl⟩
  others k hk := by
    rcases hafter with rfl | ⟨-, reference, -, rfl⟩
    · rfl
    · exact Store.get_set_of_ne redis _ _ hk
  key := by
    rcases hafter with h | ⟨hexplicit, reference, hid, h⟩
    · exact .inl h
    · exact .inr (.inl ⟨hexplicit, pick, reference, rfl, hid, h⟩)
  failed_explicit _ h := absurd rfl h
  persisted h := ⟨pick, rfl, hrefers h⟩

theorem frame_inherited {payload : String} {reference : ActivePickReference}
    (hbuenpick : ∀ pickId pick, upstream pickId = .ok pick → pick.id = pickId)
    (hget : redis.get (c.keyFor scope) = some payload)
    (hvalid : c.modelValidateJson payload = some reference) {ran : Ran ActivePickResolution}
    (hran : confirmPick c upstream now replies scope (some reference) reference.pickId redis = ran)
    {resolution : ActivePickResolution} (h : ran.result = .ok resolution) :
    Frame c upstream scope none redis ran.redis ran.fetched resolution := by
  unfold confirmPick at hran
  cases hu : upstream reference.pickId with
  | error e =>
    simp only [hu] at hran
    by_cases hcode : e.code = .notFound
    · rw [if_pos hcode] at hran
      subst hran
      cases h
      refine frame_failure _ (by simp) (by simp) ?_
      rcases clear_cases c scope replies.delete redis with hc | hc
      · exact .inl hc
      · exact .inr ⟨rfl, .inr ⟨payload, reference, e, hget, hvalid, hu, hcode⟩, hc⟩
    · rw [if_neg hcode] at hran
      subst hran
      cases h
      exact frame_failure _ (by simp) (by simp) (.inl rfl)
  | ok pick =>
    simp only [hu] at hran
    subst hran
    cases h
    refine frame_confirm hu (.inl rfl) fun _ => ?_
    exact ⟨payload, reference, hget, hvalid, (hbuenpick _ pick hu).symm⟩

theorem make_pickId {pick : AvailablePick} {source : ActivePickSource}
    {reference : ActivePickReference}
    (h : ActivePickReference.make pick now source = .ok reference) :
    reference.pickId = pick.id := by
  unfold ActivePickReference.make at h
  split_ifs at h
  cases h
  rfl

theorem frame_explicit {pickId : String} (hexplicit : explicitPickId ≠ none)
    (hjson : ∀ pick reference, upstream pickId = .ok pick →
      ActivePickReference.make pick now .explicitReference = .ok reference →
      c.modelValidateJson (c.modelDumpJson reference) = some reference)
    {ran : Ran ActivePickResolution}
    (hran : confirmPick c upstream now replies scope none pickId redis = ran)
    {resolution : ActivePickResolution} (h : ran.result = .ok resolution) :
    Frame c upstream scope explicitPickId redis ran.redis ran.fetched resolution := by
  unfold confirmPick at hran
  cases hu : upstream pickId with
  | error e =>
    simp only [hu] at hran
    by_cases hcode : e.code = .notFound
    · rw [if_pos hcode] at hran
      subst hran
      cases h
      exact frame_failure _ (by simp) (by simp) (.inl rfl)
    · rw [if_neg hcode] at hran
      subst hran
      cases h
      exact frame_failure _ (by simp) (by simp) (.inl rfl)
  | ok pick =>
    simp only [hu] at hran
    cases hm : ActivePickReference.make pick now .explicitReference with
    | error e =>
      simp only [hm] at hran
      subst hran
      cases h
    | ok reference =>
      simp only [hm] at hran
      subst hran
      cases h
      have hid : reference.pickId = pick.id := make_pickId hm
      have hstored : Refers c scope
          (redis.set (c.keyFor scope) (c.modelDumpJson reference) c.ttlSeconds) pick :=
        ⟨_, reference, Store.get_set_self redis _ _ c.ttl_positive, hjson pick reference hu hm, hid⟩
      cases hreply : replies.set with
      | served =>
        exact frame_confirm hu (.inr ⟨hexplicit, reference, hid, rfl⟩) fun _ => hstored
      | lost => exact frame_confirm hu (.inr ⟨hexplicit, reference, hid, rfl⟩) nofun
      | refused => exact frame_confirm hu (.inl rfl) nofun

/-- Whatever becomes of its commands and whatever upstream answers, a call of `resolve`
changes only what its answer says. -/
theorem resolve_frame (c : Params) (upstream : PickReader) (now : Time) (replies : Replies)
    (scope : ConversationScope) (explicitPickId : Option String) (redis : Redis)
    (hbuenpick : ∀ pickId pick, upstream pickId = .ok pick → pick.id = pickId)
    (hjson : ∀ pickId pick reference, upstream pickId = .ok pick →
      ActivePickReference.make pick now .explicitReference = .ok reference →
      c.modelValidateJson (c.modelDumpJson reference) = some reference)
    {resolution : ActivePickResolution}
    (h : (resolve c upstream now replies scope explicitPickId redis).result = .ok resolution) :
    Frame c upstream scope explicitPickId redis
      (resolve c upstream now replies scope explicitPickId redis).redis
      (resolve c upstream now replies scope explicitPickId redis).fetched resolution := by
  generalize hran : resolve c upstream now replies scope explicitPickId redis = ran at h ⊢
  cases explicitPickId with
  | some pickId =>
    simp only [resolve] at hran
    split_ifs at hran
    · subst hran
      cases h
      exact frame_failure _ (by simp) (by simp) (.inl rfl)
    · exact frame_explicit (Option.some_ne_none _) (hjson _) hran h
  | none =>
    simp only [resolve, get] at hran
    by_cases hreply : replies.get = .served
    · rw [if_neg (not_not.mpr hreply)] at hran
      cases hget : redis.get (c.keyFor scope) with
      | none =>
        simp only [hget] at hran
        subst hran
        cases h
        exact frame_failure _ (by simp) (by simp) (.inl rfl)
      | some payload =>
        simp only [hget] at hran
        cases hvalid : c.modelValidateJson payload with
        | none =>
          simp only [hvalid] at hran
          subst hran
          cases h
          refine frame_failure _ (by simp) (by simp) ?_
          rcases clear_cases c scope replies.delete redis with hc | hc
          · exact .inl hc
          · exact .inr ⟨rfl, .inl ⟨payload, hget, hvalid⟩, hc⟩
        | some reference =>
          simp only [hvalid] at hran
          exact frame_inherited hbuenpick hget hvalid hran h
    · rw [if_pos hreply] at hran
      subst hran
      cases h
      exact frame_failure _ (by simp) (by simp) (.inl rfl)

end Frame

section Samples

/-- The real digest, and the JSON of the two references of the samples. -/
def sampleParams : Params where
  sha256Hex bytes := String.ofList (Sha256.hex (Sha256.digest bytes.data.toList))
  modelDumpJson := CleanUps.sampleParams.dumpReference
  modelValidateJson := CleanUps.sampleParams.validateReference
  ttlSeconds := 3600
  ttl_positive := by decide +kernel

def sampleScope : ConversationScope :=
  accepted (ConversationScope.make .whatsapp "phone" "549") (by decide +kernel)

def sampleReader : PickReader := fun pickId =>
  if pickId = "pick-2" then .ok ⟨"pick-2", "commerce-1"⟩ else .error (.httpStatus 404)

/-- Redis holds the old pick of the conversation. -/
def sampleRedis : Redis :=
  (⟨0, fun _ => none⟩ : Redis).set (sampleParams.keyFor sampleScope) CleanUps.oldPickJson 3600

theorem resolve_frame_explicit : ∃ resolution,
    (resolve sampleParams sampleReader 0 ⟨.served, .served, .served⟩ sampleScope (some " pick-2 ")
      sampleRedis).result = .ok resolution ∧ resolution.contextPersisted = true ∧
    Frame sampleParams sampleReader sampleScope (some " pick-2 ") sampleRedis
      (resolve sampleParams sampleReader 0 ⟨.served, .served, .served⟩ sampleScope
        (some " pick-2 ") sampleRedis).redis
      (resolve sampleParams sampleReader 0 ⟨.served, .served, .served⟩ sampleScope
        (some " pick-2 ") sampleRedis).fetched resolution := by
  have hpick : ∀ pickId pick, sampleReader pickId = .ok pick →
      pickId = "pick-2" ∧ pick = ⟨"pick-2", "commerce-1"⟩ := by
    intro pickId pick h
    unfold sampleReader at h
    split_ifs at h with hid
    cases h
    exact ⟨hid, rfl⟩
  refine ⟨_, rfl, rfl, resolve_frame sampleParams sampleReader 0 ⟨.served, .served, .served⟩
    sampleScope (some " pick-2 ") sampleRedis ?_ ?_ rfl⟩
  · intro pickId pick h
    obtain ⟨rfl, rfl⟩ := hpick pickId pick h
    rfl
  · intro pickId pick reference h hm
    obtain ⟨-, rfl⟩ := hpick pickId pick h
    have hr : reference = CleanUps.newPick := by
      cases hm
      rfl
    subst hr
    decide

end Samples
end ActivePicks
end Piki
