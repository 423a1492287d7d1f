import Piki.ActivePicks

/-! `BuenPickTools.get_pick_image` and `PickImagePreparer` of `use_cases/pick_image.py`. The
active pick is fetched twice: by `resolve`, which owns the stored reference, and by the
image tool, which does not. -/
namespace Piki
open ActivePicks

/-- The fields of an `AvailablePick` that the photo needs. -/
structure PickPage extends AvailablePick where
  title : String
  images : List String
  imageUrl : Option String
  deriving DecidableEq, Repr

structure PickImageEvidence where
  pickId : String
  title : String
  imageUrl : String
  deriving DecidableEq, Repr

/-- What the client raises, or the tool itself for a pick without an image. -/
inductive PickImageError
  | client (e : BuenPickClientError)
  | noImage
  deriving DecidableEq, Repr

namespace PickImageError

def code : PickImageError → ToolErrorCode
  | client e => e.code
  | noImage => .notFound

def userSafeMessage : PickImageError → String
  | client e => e.userSafeMessage
  | noImage => "BuenPick no tiene una imagen disponible para este pick."

theorem userSafeMessage_bounded (e : PickImageError) : Bounded 1 500 e.userSafeMessage := by
  cases e with
  | client e => exact e.userSafeMessage_bounded
  | noImage => exact bounded_ofList (by decide)

end PickImageError

/-- The client at each fetch of a call: the pick may change or disappear in between. -/
abbrev PickFetches := ℕ → String → Except BuenPickClientError PickPage

def ToolResult.make {α : Type} (success : Bool) (data : Option α)
    (errorCode : Option ToolErrorCode) (userSafeMessage : Option String) (latencyMs : ℕ)
    (traceId : String) : Except Failure (ToolResult α) :=
  if h : AtMost 500 userSafeMessage ∧ Bounded 1 128 traceId ∧
      (success = true → errorCode = none) ∧ (success = false → errorCode ≠ none) ∧
      (success = false → truthy userSafeMessage = true) then
    .ok ⟨success, data, errorCode, userSafeMessage, latencyMs, traceId, h.1, h.2.1, h.2.2.1,
      h.2.2.2.1, h.2.2.2.2⟩
  else .error (.validation "ToolResult")

def PerformedAction.make (name : String) (outcome : ActionOutcome) (reference : Option String) :
    Except Failure PerformedAction :=
  if h : Bounded 1 100 name ∧ AtMost 255 reference then .ok ⟨name, outcome, reference, h.1, h.2⟩
  else .error (.validation "PerformedAction")

namespace BuenPickTools

/-- `collect`: the first of the images, else the image of the summary. -/
def collectImage (pick : PickPage) : Except PickImageError PickImageEvidence :=
  match pick.images.head?.or pick.imageUrl with
  | none => .error .noImage
  | some imageUrl => .ok ⟨pick.id, pick.title, imageUrl⟩

/-- `_run` of the image tool from the answer of its fetch on. -/
def imageResult (fetched : Except BuenPickClientError PickPage) (latencyMs : ℕ)
    (traceId : String) : Except Failure (ToolResult PickImageEvidence) := do
  emit traceId "get_pick_image"
  match (fetched.mapError PickImageError.client).bind collectImage with
  | .ok data => ToolResult.make true (some data) none none latencyMs traceId
  | .error e =>
    ToolResult.make false none (some e.code) (some e.userSafeMessage) latencyMs traceId

end BuenPickTools

/-- A prepared image has all of its evidence, a failure has a code and a message. -/
structure PickImagePreparation where
  success : Bool
  activePickId : Option String
  mediaUrl : Option String
  confirmedData : List EvidenceItem
  actionsPerformed : List PerformedAction
  errorCode : Option ToolErrorCode
  userSafeMessage : Option String
  traceId : String
  success_shape : success = true → activePickId ≠ none ∧ mediaUrl ≠ none ∧ confirmedData ≠ [] ∧
    errorCode = none ∧ userSafeMessage = none
  failure_shape : success = false → errorCode ≠ none ∧ truthy userSafeMessage = true

def PickImagePreparation.make (success : Bool) (activePickId mediaUrl : Option String)
    (confirmedData : List EvidenceItem) (actionsPerformed : List PerformedAction)
    (errorCode : Option ToolErrorCode) (userSafeMessage : Option String) (traceId : String) :
    Except Failure PickImagePreparation :=
  if h : (success = true → activePickId ≠ none ∧ mediaUrl ≠ none ∧ confirmedData ≠ [] ∧
      errorCode = none ∧ userSafeMessage = none) ∧
      (success = false → errorCode ≠ none ∧ truthy userSafeMessage = true) then
    .ok ⟨success, activePickId, mediaUrl, confirmedData, actionsPerformed, errorCode,
      userSafeMessage, traceId, h.1, h.2⟩
  else .error (.validation "PickImagePreparation")

namespace PickImagePreparer

/-- The code and the text of each resolution that is not confirmed. -/
def resolutionText (resolution : ActivePickResolution) : ToolErrorCode × String :=
  match resolution.status with
  | .missing => (.badRequest, "Elegí un pick disponible antes de pedirme la foto.")
  | .stale =>
    (.notFound, "Ese pick ya no está disponible. Busquemos otra opción para rescatar.")
  | .stateUnavailable => (.upstreamUnavailable,
      "No pude recuperar el pick de esta conversación. Decime cuál querías ver.")
  | _ => (resolution.errorCode.getD .upstreamUnavailable,
      "No pude confirmar la disponibilidad ni la imagen en este momento.")

/-- `_resolution_failure`. -/
def resolutionFailure (resolution : ActivePickResolution) (traceId : String) :
    Except Failure PickImagePreparation := do
  let failed ← PerformedAction.make "get_available_pick" .failed none
  PickImagePreparation.make false none none [] [failed] (some (resolutionText resolution).1)
    (some (resolutionText resolution).2) traceId

/-- What `prepare` makes of the answer of the image tool. -/
def imagePreparation (result : ToolResult PickImageEvidence) (traceId : String) :
    Except Failure PickImagePreparation :=
  match result.success, result.data with
  | true, some image => do
    let title ← EvidenceItem.make "pick_title" image.title .buenpickInternalApi (some image.pickId)
    let url ← EvidenceItem.make "pick_image_url" image.imageUrl .buenpickInternalApi
      (some image.pickId)
    let found ← PerformedAction.make "get_available_pick" .succeeded none
    let collected ← PerformedAction.make "get_pick_image" .succeeded none
    PickImagePreparation.make true (some image.pickId) (some image.imageUrl) [title, url]
      [found, collected] none none traceId
  | _, _ => do
    let failed ← PerformedAction.make "get_pick_image" .failed none
    PickImagePreparation.make false none none [] [failed]
      (some (result.errorCode.getD .internalError))
      (some (if truthy result.userSafeMessage then result.userSafeMessage.getD ""
        else "No pude confirmar una imagen para ese pick.")) traceId

/-- The second half of `prepare`. The tool emits its first event before it fetches. -/
def prepareImage (upstream : PickFetches) (latencyMs : ℕ) (traceId : String)
    (pick : AvailablePick) (resolved : Ran ActivePickResolution) : Ran PickImagePreparation :=
  match emit traceId "get_pick_image" with
  | .error e => ⟨.error e, resolved.redis, resolved.fetched⟩
  | .ok _ => ⟨BuenPickTools.imageResult (upstream 1 pick.id) latencyMs traceId >>=
      (imagePreparation · traceId), resolved.redis, resolved.fetched ++ [pick.id]⟩

def prepare (c : Params) (upstream : PickFetches) (now : Time) (replies : Replies)
    (scope : ConversationScope) (latencyMs : ℕ) (traceId : String) (redis : Redis) :
    Ran PickImagePreparation :=
  let resolved := resolve c (fun pickId => (upstream 0 pickId).map PickPage.toAvailablePick) now
    replies scope none redis
  match resolved.result with
  | .error e => ⟨.error e, resolved.redis, resolved.fetched⟩
  | .ok resolution =>
    if resolution.status ≠ .confirmed then
      ⟨resolutionFailure resolution traceId, resolved.redis, resolved.fetched⟩
    else match resolution.pick with
      | none => ⟨.error (.runtime "confirmed active pick requires pick evidence"), resolved.redis,
          resolved.fetched⟩
      | some pick => prepareImage upstream latencyMs traceId pick resolved

/-- Redis serves every command of the call. -/
def served : Replies := ⟨.served, .served, .served⟩

/-- The scope has an active pick. -/
def Stored (c : Params) (scope : ConversationScope) (redis : Redis)
    (reference : ActivePickReference) : Prop :=
  ∃ payload, redis.get (c.keyFor scope) = some payload ∧
    c.modelValidateJson payload = some reference

/-- A fetch is answered with a 404. -/
def Gone (fetch : Except BuenPickClientError PickPage) : Prop :=
  ∃ e, fetch = .error e ∧ e.code = .notFound

section Prepare
variable {c : Params} {upstream : PickFetches} {now : Time} {scope : ConversationScope}
  {latencyMs : ℕ} {traceId : String} {redis : Redis} {reference : ActivePickReference}

theorem resolve_stored (h : Stored c scope redis reference) (reader : PickReader) :
    resolve c reader now served scope none redis =
      confirmPick c reader now served scope (some reference) reference.pickId redis := by
  obtain ⟨payload, hget, hvalid⟩ := h
  simp [resolve, ActivePicks.get, served, hget, hvalid]

theorem make_failed (actions : List PerformedAction) (errorCode : ToolErrorCode)
    {message : String} (h : truthy (some message) = true) : ∃ preparation,
      PickImagePreparation.make false none none [] actions (some errorCode) (some message) traceId =
        .ok preparation ∧ preparation.success = false :=
  ⟨_, dif_pos ⟨nofun, fun _ => ⟨nofun, h⟩⟩, rfl⟩

theorem resolutionFailure_fails (resolution : ActivePickResolution) (traceId : String) :
    ∃ preparation, resolutionFailure resolution traceId = .ok preparation ∧
      preparation.success = false := by
  have htext : truthy (some (resolutionText resolution).2) = true := by
    unfold resolutionText
    cases resolution.status <;> rfl
  obtain ⟨failed, hfailed⟩ : ∃ a, PerformedAction.make "get_available_pick" .failed none = .ok a :=
    ⟨_, dif_pos (by decide)⟩
  simp only [resolutionFailure, hfailed, ok_bind]
  exact make_failed [failed] (resolutionText resolution).1 htext

/-- An error of the first fetch: the preparation fails, and a 404 deletes the reference. -/
theorem prepare_of_error (hstored : Stored c scope redis reference) {e : BuenPickClientError}
    (hu : upstream 0 reference.pickId = .error e) {ran : Ran PickImagePreparation}
    (hran : prepare c upstream now served scope latencyMs traceId redis = ran) :
    ran.fetched = [reference.pickId] ∧
      (∃ preparation, ran.result = .ok preparation ∧ preparation.success = false) ∧
      ran.redis = if e.code = .notFound then redis.delete (c.keyFor scope) else redis := by
  simp only [prepare, resolve_stored hstored, confirmPick, hu, Except.map] at hran
  by_cases hcode : e.code = .notFound
  · simp only [if_pos hcode] at hran ⊢
    subst hran
    exact ⟨rfl, resolutionFailure_fails _ traceId, rfl⟩
  · simp only [if_neg hcode] at hran ⊢
    subst hran
    exact ⟨rfl, resolutionFailure_fails _ traceId, rfl⟩

/-- A pick in the first fetch: whatever the second one answers, Redis stays as it is. -/
theorem prepare_of_ok (hstored : Stored c scope redis reference) {page : PickPage}
    (hu : upstream 0 reference.pickId = .ok page) {ran : Ran PickImagePreparation}
    (hran : prepare c upstream now served scope latencyMs traceId redis = ran) :
    ran.redis = redis ∧ ran.fetched = if Bounded 1 128 traceId then [reference.pickId, page.id]
      else [reference.pickId] := by
  have hname : Bounded 1 100 "get_pick_image" := by decide
  simp only [prepare, resolve_stored hstored, confirmPick, hu, Except.map] at hran
  subst hran
  by_cases ht : Bounded 1 128 traceId
  · simp [ActivePickResolution.confirm, prepareImage, emit, ht, hname]
  · simp [ActivePickResolution.confirm, prepareImage, emit, ht]

/-- A 404 to any fetch of the active pick makes the preparation fail and leaves no active
pick, exactly when it is not the image tool that sees the 404 first. -/
theorem prepare_invalidates_iff (hstored : Stored c scope redis reference)
    {ran : Ran PickImagePreparation}
    (hran : prepare c upstream now served scope latencyMs traceId redis = ran) :
    ((∃ i, ran.fetched[i]? = some reference.pickId ∧ Gone (upstream i reference.pickId)) →
      (∃ preparation, ran.result = .ok preparation ∧ preparation.success = false) ∧
        ran.redis.get (c.keyFor scope) = none) ↔
    ¬ (Bounded 1 128 traceId ∧ ∃ page, upstream 0 reference.pickId = .ok page ∧
      page.id = reference.pickId ∧ Gone (upstream 1 reference.pickId)) := by
  cases hu : upstream 0 reference.pickId with
  | error e =>
    obtain ⟨hfetched, hfails, hredis⟩ := prepare_of_error hstored hu hran
    have hright : ¬ (Bounded 1 128 traceId ∧ ∃ page,
        (Except.error e : Except BuenPickClientError PickPage) = .ok page ∧
          page.id = reference.pickId ∧ Gone (upstream 1 reference.pickId)) := by
      rintro ⟨-, page, hp, -⟩
      cases hp
    refine iff_of_true ?_ hright
    rintro ⟨i, hi, e', he', hcode⟩
    rw [hfetched] at hi
    have hzero : i = 0 := by
      have hlt := (List.getElem?_eq_some_iff.mp hi).1
      simpa using hlt
    subst hzero
    have hee : e = e' := Except.error.inj (hu.symm.trans he')
    subst hee
    rw [if_pos hcode] at hredis
    exact ⟨hfails, by rw [hredis, Expiring.Store.get_delete_self]⟩
  | ok page =>
    obtain ⟨hredis, hfetched⟩ := prepare_of_ok hstored hu hran
    obtain ⟨payload, hget, -⟩ := hstored
    simp only [Except.ok.injEq, exists_eq_left']
    constructor
    · rintro hclaim ⟨ht, hid, hgone⟩
      rw [if_pos ht, hid] at hfetched
      have hnone := (hclaim ⟨1, by rw [hfetched]; rfl, hgone⟩).2
      rw [hredis, hget] at hnone
      cases hnone
    · rintro hcond ⟨i, hi, hgone⟩
      have hone : Bounded 1 128 traceId ∧ i = 1 ∧ page.id = reference.pickId := by
        rw [hfetched] at hi
        split_ifs at hi with ht
        · match i, hi with
          | 0, _ =>
            obtain ⟨e, he, -⟩ := hgone
            rw [hu] at he
            cases he
          | 1, hi => exact ⟨ht, rfl, by simpa using hi⟩
        · match i, hi with
          | 0, _ =>
            obtain ⟨e, he, -⟩ := hgone
            rw [hu] at he
            cases he
      obtain ⟨ht, rfl, hid⟩ := hone
      exact absurd ⟨ht, hid, hgone⟩ hcond

end Prepare

section Samples

theorem sampleRedis_stored :
    Stored sampleParams sampleScope sampleRedis CleanUps.oldPick := by
  refine ⟨CleanUps.oldPickJson, ?_, by decide⟩
  exact Expiring.Store.get_set_self _ _ _ (by decide)

def samplePage : PickPage := ⟨⟨"pick-1", "commerce-1"⟩, "Rescate", [], none⟩

/-- The pick is gone from fetch `n` on. -/
def goneFrom (n : ℕ) : PickFetches := fun i _ =>
  if i < n then .ok samplePage else .error (.httpStatus 404)

theorem prepare_invalidates_stale :
    (prepare sampleParams (goneFrom 0) 0 served sampleScope 5 "t" sampleRedis).redis.get
      (sampleParams.keyFor sampleScope) = none := by
  have hu : goneFrom 0 0 CleanUps.oldPick.pickId = .error (.httpStatus 404) := rfl
  obtain ⟨hfetched, -, -⟩ := @prepare_of_error sampleParams (goneFrom 0) 0 sampleScope 5 "t"
    sampleRedis _ sampleRedis_stored _ hu _ rfl
  have hcond : ¬ (Bounded 1 128 "t" ∧ ∃ page, goneFrom 0 0 CleanUps.oldPick.pickId = .ok page ∧
      page.id = CleanUps.oldPick.pickId ∧ Gone (goneFrom 0 1 CleanUps.oldPick.pickId)) := by
    rintro ⟨-, page, hp, -⟩
    rw [hu] at hp
    cases hp
  refine ((prepare_invalidates_iff sampleRedis_stored rfl).mpr hcond ⟨0, ?_, _, hu, rfl⟩).2
  rw [hfetched]
  rfl

/-- The pick disappears between the two fetches: the preparation fails, and the reference
to the pick is still stored. -/
theorem prepare_keeps_gone_pick :
    (prepare sampleParams (goneFrom 1) 0 served sampleScope 5 "t" sampleRedis).fetched =
        ["pick-1", "pick-1"] ∧
      Gone (goneFrom 1 1 "pick-1") ∧
      (prepare sampleParams (goneFrom 1) 0 served sampleScope 5 "t" sampleRedis).redis.get
        (sampleParams.keyFor sampleScope) = some CleanUps.oldPickJson := by
  have hu : goneFrom 1 0 CleanUps.oldPick.pickId = .ok samplePage := rfl
  obtain ⟨hredis, hfetched⟩ := @prepare_of_ok sampleParams (goneFrom 1) 0 sampleScope 5 "t"
    sampleRedis _ sampleRedis_stored _ hu _ rfl
  refine ⟨?_, ⟨.httpStatus 404, rfl, rfl⟩, ?_⟩
  · rw [hfetched, if_pos (by decide)]
    rfl
  · rw [hredis]
    exact Expiring.Store.get_set_self _ _ _ (by decide)

end Samples
end PickImagePreparer
end Piki
