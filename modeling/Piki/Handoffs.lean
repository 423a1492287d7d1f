import Piki.Orchestrator

/-! `HandoffRepository.request` of `db/handoffs.py` with the handoff that it returns:
when the insert is swallowed by a unique index, the oldest row that has the key or is
open is returned. -/
namespace Piki
open Table

structure PersistedHandoff where
  id : Uuid
  conversationId : Uuid
  status : HandoffStatus
  reason : String
  traceId : String
  createdAt : Time
  created : Bool
  deriving DecidableEq, Repr

namespace HandoffRepository

def persisted (created : Bool) (h : HandoffRecord) : PersistedHandoff :=
  ⟨h.id, h.conversationId, h.status, h.reason, h.traceId, h.createdAt, created⟩

/-- `ORDER BY created_at, id`. -/
def earlier (a b : HandoffRecord) : Bool :=
  a.createdAt < b.createdAt || (a.createdAt == b.createdAt && a.id ≤ b.id)

/-- `LIMIT 1` of the ordered rows. -/
def oldest : List HandoffRecord → Option HandoffRecord
  | [] => none
  | h :: rows =>
    match oldest rows with
    | none => some h
    | some best => if earlier h best then some h else some best

def requestPersisted (db : ConversationTables) (id : Uuid) (now : Time)
    (request : HandoffRequest) : Except Failure (PersistedHandoff × ConversationTables) :=
  let row := requestRow id now request
  let conflicts := (conflict (fun h : HandoffRecord => some h.id) db.handoffs row).isSome ||
    (conflict requestKey db.handoffs row).isSome || (conflict openKey db.handoffs row).isSome
  if conflicts then
    match oldest (db.handoffs.filter (sameRequest request)) with
    | some h => .ok (persisted false h, needsHuman request.conversationId db)
    | none => .error (.database .noResult)
  else do
    requireReferenced "conversation_id" (db.conversations.any fun c => c.id = request.conversationId)
    .ok (persisted true row,
      needsHuman request.conversationId { db with handoffs := db.handoffs ++ [row] })

theorem earlier_iff {a b : HandoffRecord} : earlier a b = true ↔
    a.createdAt < b.createdAt ∨ (a.createdAt = b.createdAt ∧ a.id ≤ b.id) := by
  simp [earlier]

theorem earlier_total (a b : HandoffRecord) : earlier a b = true ∨ earlier b a = true := by
  simp only [earlier_iff]
  rcases lt_trichotomy a.createdAt b.createdAt with h | h | h
  · exact .inl (.inl h)
  · rcases Nat.le_total a.id b.id with hid | hid
    · exact .inl (.inr ⟨h, hid⟩)
    · exact .inr (.inr ⟨h.symm, hid⟩)
  · exact .inr (.inl h)

theorem earlier_trans {a b c : HandoffRecord} (hab : earlier a b = true)
    (hbc : earlier b c = true) : earlier a c = true := by
  simp only [earlier_iff] at hab hbc ⊢
  rcases hab with h | ⟨h, hid⟩ <;> rcases hbc with h' | ⟨h', hid'⟩
  · exact .inl (h.trans h')
  · exact .inl (h' ▸ h)
  · exact .inl (h ▸ h')
  · exact .inr ⟨h.trans h', Nat.le_trans hid hid'⟩

theorem earlier_antisymm {a b : HandoffRecord} (hab : earlier a b = true)
    (hba : earlier b a = true) : a.id = b.id := by
  simp only [earlier_iff] at hab hba
  rcases hab with h | ⟨h, hid⟩ <;> rcases hba with h' | ⟨h', hid'⟩
  · exact absurd (h.trans h') (lt_irrefl _)
  · exact absurd (h' ▸ h) (lt_irrefl _)
  · exact absurd (h ▸ h') (lt_irrefl _)
  · exact Nat.le_antisymm hid hid'

theorem oldest_eq_none {rows : List HandoffRecord} : oldest rows = none ↔ rows = [] := by
  cases rows with
  | nil => simp [oldest]
  | cons r rows =>
    simp only [oldest, reduceCtorEq, iff_false]
    cases oldest rows with
    | none => simp
    | some best =>
      dsimp only
      split_ifs <;> simp

theorem oldest_spec {rows : List HandoffRecord} {h : HandoffRecord} (ho : oldest rows = some h) :
    h ∈ rows ∧ ∀ x ∈ rows, earlier h x = true := by
  induction rows generalizing h with
  | nil => cases ho
  | cons r rows ih =>
    have hself : ∀ x : HandoffRecord, earlier x x = true := fun x => (earlier_total x x).elim id id
    cases hb : oldest rows with
    | none =>
      simp only [oldest, hb, Option.some.injEq] at ho
      subst ho
      refine ⟨List.mem_cons_self, ?_⟩
      simp [oldest_eq_none.mp hb, hself]
    | some best =>
      obtain ⟨hm, hall⟩ := ih hb
      simp only [oldest, hb] at ho
      split_ifs at ho with hlt
      · cases ho
        refine ⟨List.mem_cons_self, ?_⟩
        intro x hx
        rcases List.mem_cons.mp hx with rfl | hx
        · exact hself x
        · exact earlier_trans hlt (hall x hx)
      · cases ho
        refine ⟨List.mem_cons_of_mem _ hm, ?_⟩
        intro x hx
        rcases List.mem_cons.mp hx with rfl | hx
        · exact (earlier_total h x).resolve_right hlt
        · exact hall x hx

example : (oldest [⟨2, 1, "a", .requested, "r", "t", 5⟩, ⟨3, 1, "b", .claimed, "r", "t", 4⟩]).map
    HandoffRecord.id = some 3 := by decide +kernel

/-- The tables and the answer that the orchestrator sees are those of `request`. -/
theorem request_eq (db : ConversationTables) (id : Uuid) (now : Time) (r : HandoffRequest) :
    request db id now r =
      (requestPersisted db id now r).map fun p => (p.1.created, p.2) := by
  unfold request requestPersisted
  dsimp only
  split_ifs with hc hany
  · cases ho : oldest (db.handoffs.filter (sameRequest r)) with
    | none =>
      rw [oldest_eq_none, List.filter_eq_nil_iff] at ho
      obtain ⟨h, hm, hs⟩ := List.any_eq_true.mp hany
      exact absurd hs (ho h hm)
    | some h => rfl
  · have hnil : db.handoffs.filter (sameRequest r) = [] := by
      rw [List.filter_eq_nil_iff]
      intro h hm hs
      exact hany (List.any_eq_true.mpr ⟨h, hm, hs⟩)
    rw [hnil]
    rfl
  · cases requireReferenced "conversation_id"
      (db.conversations.any fun c => c.id = r.conversationId) <;> rfl

/-- The primary keys, unique indexes and foreign keys behind a request. -/
structure Constraints (db : ConversationTables) : Prop where
  id : Unique (fun h : HandoffRecord => some h.id) db.handoffs
  key : Unique requestKey db.handoffs
  one_open : Unique openKey db.handoffs
  referenced : ∀ h ∈ db.handoffs, ∃ c ∈ db.conversations, c.id = h.conversationId

/-- An open handoff of the conversation. -/
def openIn (conversationId : Uuid) (h : HandoffRecord) : Bool :=
  decide (h.conversationId = conversationId) && isOpen h

/-- One handoff of the conversation is open, it is the one that was returned, and the
conversation waits for a person. -/
structure Converged (request : HandoffRequest) (p : PersistedHandoff) (db : ConversationTables) :
    Prop where
  returned : ∃ h, db.handoffs.filter (openIn request.conversationId) = [h] ∧
    p = persisted p.created h
  waiting : (∃ c ∈ db.conversations, c.id = request.conversationId) ∧
    ∀ c ∈ db.conversations, c.id = request.conversationId → c.status = .needsHuman

/-- A resolved handoff with the key of the request is younger than an open one. -/
def Unresolved (db : ConversationTables) (request : HandoffRequest) : Prop :=
  ∀ h ∈ db.handoffs, h.conversationId = request.conversationId →
    h.idempotencyKey = request.idempotencyKey → h.status = .resolved →
    ∃ o ∈ db.handoffs, openIn request.conversationId o = true ∧ earlier o h = true

theorem openKey_eq_some {h : HandoffRecord} {conversationId : Uuid} :
    openIn conversationId h = true ↔ openKey h = some conversationId := by
  simp only [openIn, openKey, Bool.and_eq_true, decide_eq_true_eq]
  split_ifs with ho <;> simp [ho]

theorem isOpen_eq_false {h : HandoffRecord} : isOpen h = false ↔ h.status = .resolved := by
  cases hs : h.status <;> simp [isOpen, hs]

@[grind =] theorem sameRequest_iff {request : HandoffRequest} {h : HandoffRecord} :
    sameRequest request h = true ↔ h.conversationId = request.conversationId ∧
      (h.idempotencyKey = request.idempotencyKey ∨ isOpen h = true) := by
  simp [sameRequest]

theorem needsHuman_waiting {db : ConversationTables} {conversationId : Uuid}
    (h : ∃ c ∈ db.conversations, c.id = conversationId) :
    (∃ c ∈ (needsHuman conversationId db).conversations, c.id = conversationId) ∧
      ∀ c ∈ (needsHuman conversationId db).conversations, c.id = conversationId →
        c.status = .needsHuman := by
  constructor
  · obtain ⟨c, hc, hid⟩ := h
    refine ⟨_, mem_updateWhere.mpr ⟨c, hc, rfl⟩, ?_⟩
    split_ifs <;> exact hid
  · intro c hc hid
    obtain ⟨x, -, rfl⟩ := mem_updateWhere.mp hc
    by_cases hx : x.id = conversationId
    · simp [hx]
    · simp [hx] at hid

section Request
variable {db db' : ConversationTables} {id : Uuid} {now : Time} {request : HandoffRequest}
  {p : PersistedHandoff}

/-- All that a committed request can do, when the generated id is new. -/
theorem requestPersisted_ok (hid : ∀ h ∈ db.handoffs, h.id ≠ id)
    (h : requestPersisted db id now request = .ok (p, db')) :
    (∃ x, oldest (db.handoffs.filter (sameRequest request)) = some x ∧ p = persisted false x ∧
      db' = needsHuman request.conversationId db) ∨
    ((∀ x ∈ db.handoffs, sameRequest request x = false) ∧
      (∃ c ∈ db.conversations, c.id = request.conversationId) ∧
      p = persisted true (requestRow id now request) ∧
      db' = needsHuman request.conversationId
        { db with handoffs := db.handoffs ++ [requestRow id now request] }) := by
  have hfresh : conflict (fun h : HandoffRecord => some h.id) db.handoffs
      (requestRow id now request) = none := by
    rw [conflict_eq_none]
    intro k hk x hx he
    exact hid x hx (Option.some.inj (he.trans hk.symm))
  unfold requestPersisted at h
  simp only [hfresh, Option.isSome_none, Bool.false_or] at h
  split_ifs at h with hc
  · cases ho : oldest (db.handoffs.filter (sameRequest request)) with
    | none =>
      rw [ho] at h
      cases h
    | some x =>
      rw [ho] at h
      cases h
      exact .inl ⟨x, rfl, rfl, rfl⟩
  · obtain ⟨_, href, hret⟩ := bind_ok h
    cases hret
    simp only [Bool.or_eq_true, not_or, Option.not_isSome_iff_eq_none, conflict_eq_none] at hc
    obtain ⟨hkey, hopen⟩ := hc
    refine .inr ⟨?_, ?_, rfl, rfl⟩
    · intro x hx
      by_contra hs
      obtain ⟨hconv, hk | ho⟩ := sameRequest_iff.mp (Bool.eq_true_of_not_eq_false hs)
      · exact hkey _ rfl x hx (by simp [requestKey, requestRow, hconv, hk])
      · refine hopen request.conversationId rfl x hx ?_
        rw [← openKey_eq_some]
        simp [openIn, hconv, ho]
    · unfold requireReferenced at href
      split_ifs at href with hany
      obtain ⟨c, hcm, hcid⟩ := List.any_eq_true.mp hany
      exact ⟨c, hcm, by simpa using hcid⟩

theorem oldest_open_iff (hu : Constraints db) {x : HandoffRecord}
    (ho : oldest (db.handoffs.filter (sameRequest request)) = some x) :
    isOpen x = true ↔ Unresolved db request := by
  obtain ⟨hx, hall⟩ := oldest_spec ho
  obtain ⟨hxm, hxs⟩ := List.mem_filter.mp hx
  obtain ⟨hconv, hcase⟩ := sameRequest_iff.mp hxs
  constructor
  · intro hopen h hm hc hk hr
    refine ⟨x, hxm, by simp [openIn, hconv, hopen], ?_⟩
    exact hall h (List.mem_filter.mpr ⟨hm, sameRequest_iff.mpr ⟨hc, .inl hk⟩⟩)
  · intro hun
    by_contra hno
    have hresolved := isOpen_eq_false.mp (Bool.eq_false_of_not_eq_true hno)
    obtain ⟨o, hom, hopen, hlt⟩ := hun x hxm hconv (hcase.resolve_right hno) hresolved
    simp only [openIn, Bool.and_eq_true, decide_eq_true_eq] at hopen
    have hback := hall o (List.mem_filter.mpr ⟨hom, sameRequest_iff.mpr ⟨hopen.1, .inr hopen.2⟩⟩)
    have hsame : o = x := unique_eq hu.id hom hxm rfl (by rw [earlier_antisymm hlt hback])
    exact hno (hsame ▸ hopen.2)

/-- After a committed request the conversation has one open handoff, which is the one
returned, if and only if the key of the request is not that of a resolved handoff, or
an older one is open. -/
theorem request_converges_iff (hu : Constraints db) (hid : ∀ h ∈ db.handoffs, h.id ≠ id)
    (h : requestPersisted db id now request = .ok (p, db')) :
    Converged request p db' ↔ Unresolved db request := by
  rcases requestPersisted_ok hid h with ⟨x, ho, rfl, rfl⟩ | ⟨hnone, hconv, rfl, rfl⟩
  · obtain ⟨hx, -⟩ := oldest_spec ho
    obtain ⟨hxm, hxs⟩ := List.mem_filter.mp hx
    obtain ⟨hxc, -⟩ := sameRequest_iff.mp hxs
    rw [← oldest_open_iff hu ho]
    constructor
    · rintro ⟨⟨y, hfilter, hp⟩, -⟩
      have hy : y ∈ db.handoffs.filter (openIn request.conversationId) := by
        have hsame : (needsHuman request.conversationId db).handoffs = db.handoffs := rfl
        rw [← hsame, hfilter]
        exact List.mem_singleton_self y
      obtain ⟨hym, hyo⟩ := List.mem_filter.mp hy
      have hids : x.id = y.id := congrArg PersistedHandoff.id hp
      have hsame : x = y := unique_eq hu.id hxm hym rfl (by rw [hids])
      simp only [openIn, Bool.and_eq_true] at hyo
      exact hsame ▸ hyo.2
    · intro hopen
      refine ⟨⟨x, ?_, rfl⟩, needsHuman_waiting ?_⟩
      · have hkey : openKey x = some request.conversationId := by
          rw [← openKey_eq_some]
          simp [openIn, hxc, hopen]
        exact unique_filter hu.one_open (fun _ => openKey_eq_some) hxm hkey
      · obtain ⟨c, hc, hcid⟩ := hu.referenced x hxm
        exact ⟨c, hc, hcid.trans hxc⟩
  · refine iff_of_true ⟨⟨requestRow id now request, ?_, rfl⟩, needsHuman_waiting hconv⟩ ?_
    · have hold : db.handoffs.filter (openIn request.conversationId) = [] := by
        rw [List.filter_eq_nil_iff]
        intro x hx ho
        simp only [openIn, Bool.and_eq_true, decide_eq_true_eq] at ho
        have hs := sameRequest_iff.mpr ⟨ho.1, .inr ho.2⟩
        rw [hnone x hx] at hs
        cases hs
      have hnew : openIn request.conversationId (requestRow id now request) = true := by
        simp [openIn, requestRow, isOpen]
      change (db.handoffs ++ [requestRow id now request]).filter _ = _
      rw [List.filter_append, hold, List.filter_cons_of_pos hnew]
      rfl
    · intro x hx hc hk
      have hs := sameRequest_iff.mpr ⟨hc, .inl hk⟩
      rw [hnone x hx] at hs
      cases hs

end Request

section Examples

def humanRequest : HandoffRequest where
  conversationId := 1
  idempotencyKey := "handoff:wamid.1"
  reason := "La persona solicitó atención humana."
  traceId := "conversation:wamid.1"
  key_bounded := by decide +kernel
  reason_bounded := by decide
  traceId_bounded := by decide

/-- One conversation with the handoffs given. -/
def tablesWith (handoffs : List HandoffRecord) : ConversationTables :=
  ⟨[⟨1, .whatsapp, "phone", "549", .pikiActive⟩], [], handoffs⟩

def handoffRow (id : Uuid) (key : String) (status : HandoffStatus) : HandoffRecord :=
  ⟨id, 1, key, status, "La persona solicitó atención humana.", "t", id⟩

/-- The handoff of the request was resolved. -/
def resolvedTables : ConversationTables := tablesWith [handoffRow 1 "handoff:wamid.1" .resolved]

/-- An operator has claimed the handoff of another message. -/
def claimedTables : ConversationTables := tablesWith [handoffRow 1 "handoff:wamid.0" .claimed]

theorem tablesWith_one_constraints (key : String) (status : HandoffStatus) :
    Constraints (tablesWith [handoffRow 1 key status]) := by
  refine ⟨by simp [Table.Unique, tablesWith], by simp [Table.Unique, tablesWith, requestKey], ?_, ?_⟩
  · cases status <;> simp [Table.Unique, tablesWith, openKey, isOpen, handoffRow]
  · simp [tablesWith, handoffRow]

/-- A replayed key whose handoff is resolved leaves the conversation waiting with no
open handoff. -/
theorem resolved_key_not_converged : ∃ p db',
    Constraints resolvedTables ∧ (∀ h ∈ resolvedTables.handoffs, h.id ≠ 2) ∧
    requestPersisted resolvedTables 2 5 humanRequest = .ok (p, db') ∧
    p.status = .resolved ∧ db'.handoffs.filter (openIn 1) = [] ∧
    ¬ Converged humanRequest p db' := by
  refine ⟨persisted false (handoffRow 1 "handoff:wamid.1" .resolved),
    needsHuman 1 resolvedTables, tablesWith_one_constraints _ _, by decide, by decide, rfl,
    by decide, ?_⟩
  rintro ⟨⟨h, hfilter, -⟩, -⟩
  have hnone : (needsHuman 1 resolvedTables).handoffs.filter (openIn 1) = [] := by decide
  have hcontra := hnone.symm.trans hfilter
  cases hcontra

/-- A competing key is answered with the open handoff. -/
theorem competing_key_converges : ∃ p db',
    requestPersisted claimedTables 2 5 humanRequest = .ok (p, db') ∧ p.created = false ∧
    Converged humanRequest p db' := by
  have h : requestPersisted claimedTables 2 5 humanRequest =
      .ok (persisted false (handoffRow 1 "handoff:wamid.0" .claimed), needsHuman 1 claimedTables) := by
    decide
  refine ⟨_, _, h, rfl, ?_⟩
  refine (request_converges_iff (tablesWith_one_constraints _ _) (by decide) h).mpr ?_
  intro x hx _ hk
  simp only [tablesWith, List.mem_singleton] at hx
  subst hx
  exact absurd hk (by decide)

end Examples

end HandoffRepository
end Piki
