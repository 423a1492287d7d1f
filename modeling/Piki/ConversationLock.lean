import Piki.Expiring
import Piki.RedisKeys
import Piki.Transition
import Piki.Turns

/-! `RedisConversationLock` of `state/coordination.py`, used by any number of calls of
`respond` and `respond_persisted` and by any other client. Every command of a client
may fail before or after Redis executes it. -/
namespace Piki.ConversationLock
open RedisKeys Turns Transition

/-- `secrets.token_urlsafe(32)`. -/
structure Token where
  value : String
  value_bounded : Bounded 32 128 value
  deriving DecidableEq

inductive LockStatus
  | acquired
  | busy
  | unavailable
  deriving DecidableEq, Repr

/-- Only acquired locks contain an owner token. -/
structure LockLease where
  status : LockStatus
  ownerToken : Option Token
  shape : status = .acquired ↔ ownerToken.isSome = true

inductive LockReleaseStatus
  | released
  | notOwner
  | unavailable
  deriving DecidableEq, Repr

/-- What became of a command. All but the first raise `RedisError`. -/
inductive Link
  | answered
  | lost
  | unreached
  deriving DecidableEq

structure Config where
  ttlSeconds : ℕ
  ttl_positive : 0 < ttlSeconds
  sha256Hex : ByteArray → String
  unicode : Text.Unicode

def Config.keyFor (cfg : Config) (scope : ConversationScope) : String :=
  lockKeyFor cfg.sha256Hex scope

/-- The clock of Redis counts milliseconds. -/
def Config.ttl (cfg : Config) : ℕ := 1000 * cfg.ttlSeconds

theorem Config.ttl_pos (cfg : Config) : 0 < cfg.ttl := Nat.mul_pos (by decide) cfg.ttl_positive

abbrev Redis := Expiring.Store String Token

def acquire (cfg : Config) (r : Redis) (scope : ConversationScope) (ownerToken : Token) :
    Link → LockLease × Redis
  | .unreached => (⟨.unavailable, none, by decide⟩, r)
  | .lost => (⟨.unavailable, none, by decide⟩, (r.setNx (cfg.keyFor scope) ownerToken cfg.ttl).2)
  | .answered =>
    let (acquired, r) := r.setNx (cfg.keyFor scope) ownerToken cfg.ttl
    if acquired then (⟨.acquired, some ownerToken, by simp⟩, r)
    else (⟨.busy, none, by decide⟩, r)

/-- `RELEASE_LOCK_SCRIPT` deletes the key if it holds the token. -/
def release (cfg : Config) (r : Redis) (scope : ConversationScope) (ownerToken : Token) :
    Link → LockReleaseStatus × Redis
  | .unreached => (.unavailable, r)
  | .lost => (.unavailable, (r.deleteIf (cfg.keyFor scope) ownerToken).2)
  | .answered =>
    let (released, r) := r.deleteIf (cfg.keyFor scope) ownerToken
    if released then (.released, r) else (.notOwner, r)

/-- A lease that `acquire` granted, until it is released. -/
structure Lease where
  scope : ConversationScope
  token : Token
  expiresAt : ℕ

/-- A call of `respond` or `respond_persisted`. Once it has left, it is known which
token it drew, and whether Redis answered all its commands. -/
inductive Call
  | idle
  | running (i : Invocation) (scope : ConversationScope) (token : Token) (progress : Progress)
  | exited (i : Invocation) (token : Option Token) (available : Bool)
      (outcome : Except Failure ConversationReply)

/-- `drawn` lists the tokens that were drawn so far, with their scopes; `leases` lists
the granted leases that were not released. -/
structure State where
  redis : Redis
  tables : ConversationTables
  drawn : List (ConversationScope × Token)
  leases : List Lease
  calls : ℕ → Call

inductive Label
  | tick (milliseconds : ℕ)
  | acquire (scope : ConversationScope) (token : Token) (link : Link)
  | release (scope : ConversationScope) (token : Token) (link : Link)
  | call (n : ℕ) (i : Invocation) (token : Token) (link : Link)
  | session (n : ℕ) (session : Session)
  | leave (n : ℕ) (link : Link)
  | crash (n : ℕ)

def State.setCall (s : State) (n : ℕ) (c : Call) : State :=
  { s with calls := Function.update s.calls n c }

def State.acquire (cfg : Config) (s : State) (scope : ConversationScope) (token : Token)
    (link : Link) : LockLease × State :=
  let (lease, r) := ConversationLock.acquire cfg s.redis scope token link
  let granted := if lease.status = .acquired then [⟨scope, token, s.redis.now + cfg.ttl⟩] else []
  (lease, { s with redis := r, drawn := (scope, token) :: s.drawn, leases := granted ++ s.leases })

def State.release (cfg : Config) (s : State) (scope : ConversationScope) (token : Token)
    (link : Link) : LockReleaseStatus × State :=
  let (status, r) := ConversationLock.release cfg s.redis scope token link
  let kept := if link = .unreached then s.leases
    else s.leases.filter fun g => ¬ (cfg.keyFor g.scope = cfg.keyFor scope ∧ g.token = token)
  (status, { s with redis := r, leases := kept })

/-- `respond` reports a release that failed; `respond_persisted` does not look. -/
def afterRelease (i : Invocation) (status : LockReleaseStatus)
    (outcome : Except Failure ConversationReply) : Except Failure ConversationReply :=
  match i, status with
  | .respond message _, .unavailable =>
    emit (ConversationOrchestrator.traceOf message.messageId) "conversation_lock" >>=
      fun _ => outcome
  | _, _ => outcome

def busy : Failure := .busy "conversation is already being processed"

/-- One step of any client. A token is drawn once. -/
def step (cfg : Config) (s : State) : Label → Option State
  | .tick d => some { s with redis := s.redis.advance d }
  | .acquire scope token link =>
    if token ∈ s.drawn.map Prod.snd then none else some (s.acquire cfg scope token link).2
  | .release scope token link => some (s.release cfg scope token link).2
  | .call n i token link =>
    match s.calls n with
    | .running _ _ _ _ => none
    | _ =>
      match i.scope with
      | .error e => some (s.setCall n (.exited i none true (.error e)))
      | .ok scope =>
        if token ∈ s.drawn.map Prod.snd then none
        else
          let (lease, s) := s.acquire cfg scope token link
          match lease.status, lease.ownerToken with
          | .acquired, some token => some (s.setCall n (.running i scope token .begun))
          | _, _ => some (s.setCall n (.exited i (some token) (decide (link = .answered))
              (.error busy)))
  | .session n session =>
    match s.calls n with
    | .running i scope token p =>
      match advance cfg.unicode i s.tables p session with
      | none => none
      | some (db, p) => some ({ s with tables := db }.setCall n (.running i scope token p))
    | _ => none
  | .leave n link =>
    match s.calls n with
    | .running i scope token (.ended outcome) =>
      let (status, s) := s.release cfg scope token link
      some (s.setCall n (.exited i (some token) (decide (link = .answered))
        (afterRelease i status outcome)))
    | _ => none
  | .crash n => some (s.setCall n .idle)

/-- Nothing is locked and no call has begun. -/
def start (now : ℕ) (tables : ConversationTables) : State :=
  ⟨⟨now, fun _ => none⟩, tables, [], [], fun _ => .idle⟩

/-- The step runs the release script for this scope and token. -/
def Releases (s : State) (scope : ConversationScope) (token : Token) : Label → Prop
  | .release scope' token' _ => scope' = scope ∧ token' = token
  | .leave n _ => ∃ i outcome, s.calls n = .running i scope token (.ended outcome)
  | _ => False

/-- A token is stored only under the key of the scope it was drawn for; a lease that
was not released is stored until it expires; and a call that left while Redis answered
has left no token behind. -/
structure Inv (cfg : Config) (s : State) : Prop where
  stored : ∀ k v t, s.redis.live k = some (v, t) →
    ∃ scope, (scope, v) ∈ s.drawn ∧ k = cfg.keyFor scope
  unique : ∀ a b v, (a, v) ∈ s.drawn → (b, v) ∈ s.drawn → a = b
  leases : ∀ g ∈ s.leases, (g.scope, g.token) ∈ s.drawn ∧ (s.redis.now < g.expiresAt →
    s.redis.live (cfg.keyFor g.scope) = some (g.token, g.expiresAt))
  running : ∀ n i scope token p, s.calls n = .running i scope token p → (scope, token) ∈ s.drawn
  exited : ∀ n i token outcome, s.calls n = .exited i (some token) true outcome →
    token ∈ s.drawn.map Prod.snd ∧ ∀ k, s.redis.get k ≠ some token

section Redis
variable {cfg : Config} {r : Redis} {scope : ConversationScope} {token : Token} {link : Link}

@[simp] theorem acquire_now : (acquire cfg r scope token link).2.now = r.now := by
  cases link <;> simp only [acquire]
  · split_ifs <;> simp
  · simp

/-- Every entry is kept, and the only new one is the token of the client. -/
theorem acquire_live (cfg : Config) (r : Redis) (scope : ConversationScope) (token : Token)
    (link : Link) (k : String) :
    (acquire cfg r scope token link).2.live k = r.live k ∨
      r.live k = none ∧ k = cfg.keyFor scope ∧
        (acquire cfg r scope token link).2.live k = some (token, r.now + cfg.ttl) := by
  have hcase : (acquire cfg r scope token link).2 = r ∨
      (acquire cfg r scope token link).2 = (r.setNx (cfg.keyFor scope) token cfg.ttl).2 := by
    cases link with
    | answered =>
      right
      simp only [acquire]
      split_ifs <;> rfl
    | lost => exact .inr rfl
    | unreached => exact .inl rfl
  rcases hcase with h | h <;> rw [h]
  · exact .inl rfl
  · rw [Expiring.Store.live_setNx cfg.ttl_pos]
    split_ifs with hk
    · exact .inr ⟨hk.1 ▸ hk.2, hk.1, rfl⟩
    · exact .inl rfl

/-- A lock is granted only by an answer of Redis, when the key is free. -/
theorem acquire_acquired (h : (acquire cfg r scope token link).1.status = .acquired) :
    link = .answered ∧ (acquire cfg r scope token link).1.ownerToken = some token ∧
      (acquire cfg r scope token link).2.live (cfg.keyFor scope) =
        some (token, r.now + cfg.ttl) := by
  cases link with
  | lost => cases h
  | unreached => cases h
  | answered =>
    unfold acquire at h ⊢
    dsimp only at h ⊢
    split_ifs at h ⊢ with hfree
    refine ⟨rfl, rfl, ?_⟩
    rw [Expiring.Store.live_setNx cfg.ttl_pos, if_pos ⟨rfl, Expiring.Store.setNx_fst.mp hfree⟩]

/-- An answer that refuses the lock stores nothing. -/
theorem acquire_refused (h : (acquire cfg r scope token .answered).1.status ≠ .acquired) :
    (acquire cfg r scope token .answered).2 = r := by
  unfold acquire at h ⊢
  unfold Expiring.Store.setNx at h ⊢
  cases hl : r.live (cfg.keyFor scope) with
  | some e => simp
  | none => simp [hl] at h

@[simp] theorem release_now : (release cfg r scope token link).2.now = r.now := by
  cases link <;> simp only [release]
  · split_ifs <;> simp
  · simp

theorem release_snd (h : link ≠ .unreached) :
    (release cfg r scope token link).2 = (r.deleteIf (cfg.keyFor scope) token).2 := by
  cases link with
  | unreached => exact absurd rfl h
  | lost => rfl
  | answered =>
    simp only [release]
    split_ifs <;> rfl

/-- The only entry that a release takes away is its own token. -/
theorem release_live (cfg : Config) (r : Redis) (scope : ConversationScope) (token : Token)
    (link : Link) (k : String) :
    (release cfg r scope token link).2.live k = r.live k ∨
      link ≠ .unreached ∧ k = cfg.keyFor scope ∧ r.get k = some token ∧
        (release cfg r scope token link).2.live k = none := by
  by_cases hl : link = .unreached
  · subst hl
    exact .inl rfl
  · rw [release_snd hl, Expiring.Store.live_deleteIf]
    split_ifs with hk
    · exact .inr ⟨hl, hk.1, hk.1 ▸ hk.2, rfl⟩
    · exact .inl rfl

theorem release_gone (h : link ≠ .unreached) :
    (release cfg r scope token link).2.get (cfg.keyFor scope) ≠ some token := by
  rw [release_snd h]
  exact Expiring.Store.get_deleteIf_ne _ _ _

end Redis

section Preserved
variable {cfg : Config} {s : State} {scope : ConversationScope} {token : Token}

theorem fresh_not_stored (h : Inv cfg s) (hfresh : token ∉ s.drawn.map Prod.snd) (k : String) :
    s.redis.get k ≠ some token := by
  intro hk
  obtain ⟨t, ht⟩ := Expiring.Store.get_eq_some.mp hk
  obtain ⟨a, ha, -⟩ := h.stored k token t ht
  exact hfresh (List.mem_map_of_mem ha)

theorem inv_acquire (h : Inv cfg s) (hfresh : token ∉ s.drawn.map Prod.snd) (link : Link) :
    Inv cfg (s.acquire cfg scope token link).2 := by
  have hother : ∀ a v, (a, v) ∈ s.drawn → v ≠ token := by
    rintro a v ha rfl
    exact hfresh (List.mem_map_of_mem ha)
  refine ⟨?_, ?_, ?_, ?_, ?_⟩
  · intro k v t hk
    rcases acquire_live cfg s.redis scope token link k with hsame | ⟨-, hkey, hnew⟩
    · obtain ⟨a, ha, hka⟩ := h.stored k v t (hsame.symm.trans hk)
      exact ⟨a, List.mem_cons_of_mem _ ha, hka⟩
    · obtain ⟨rfl, -⟩ := Prod.mk.inj (Option.some.inj (hnew.symm.trans hk))
      exact ⟨scope, List.mem_cons_self, hkey⟩
  · intro a b v ha hb
    rcases List.mem_cons.mp ha with ha | ha <;> rcases List.mem_cons.mp hb with hb | hb
    · exact (Prod.mk.inj ha).1.trans (Prod.mk.inj hb).1.symm
    · exact absurd (Prod.mk.inj ha).2 (hother b v hb)
    · exact absurd (Prod.mk.inj hb).2 (hother a v ha)
    · exact h.unique a b v ha hb
  · intro g hg
    rcases List.mem_append.mp hg with hg | hg
    · split_ifs at hg with hs
      · obtain rfl := List.mem_singleton.mp hg
        exact ⟨List.mem_cons_self, fun _ => (acquire_acquired hs).2.2⟩
      · cases hg
    · obtain ⟨hdrawn, hlive⟩ := h.leases g hg
      refine ⟨List.mem_cons_of_mem _ hdrawn, fun hlt => ?_⟩
      have hl := hlive (acquire_now.symm.trans_lt hlt)
      rcases acquire_live cfg s.redis scope token link (cfg.keyFor g.scope) with hsame | ⟨hno, -⟩
      · exact hsame.trans hl
      · rw [hl] at hno
        cases hno
  · intro n i a v p hn
    exact List.mem_cons_of_mem _ (h.running n i a v p hn)
  · intro n i v outcome hn
    obtain ⟨hv, hno⟩ := h.exited n i v outcome hn
    refine ⟨List.mem_cons_of_mem _ hv, fun k hk => ?_⟩
    obtain ⟨t, ht⟩ := Expiring.Store.get_eq_some.mp hk
    rcases acquire_live cfg s.redis scope token link k with hsame | ⟨-, -, hnew⟩
    · exact hno k (Expiring.Store.get_eq_some.mpr ⟨t, hsame.symm.trans ht⟩)
    · obtain ⟨rfl, -⟩ := Prod.mk.inj (Option.some.inj (hnew.symm.trans ht))
      exact hfresh hv

theorem inv_release (h : Inv cfg s) (link : Link) : Inv cfg (s.release cfg scope token link).2 := by
  have hback : ∀ k e, (release cfg s.redis scope token link).2.live k = some e →
      s.redis.live k = some e := by
    intro k e hk
    rcases release_live cfg s.redis scope token link k with hsame | ⟨-, -, -, hnone⟩
    · exact hsame.symm.trans hk
    · rw [hnone] at hk
      cases hk
  refine ⟨?_, h.unique, ?_, h.running, ?_⟩
  · intro k v t hk
    exact h.stored k v t (hback k _ hk)
  · intro g hg
    have hmem : g ∈ s.leases ∧ (link ≠ .unreached →
        ¬ (cfg.keyFor g.scope = cfg.keyFor scope ∧ g.token = token)) := by
      simp only [State.release] at hg
      split_ifs at hg with hl
      · exact ⟨hg, fun hne => absurd hl hne⟩
      · obtain ⟨hg, hne⟩ := List.mem_filter.mp hg
        exact ⟨hg, fun _ => of_decide_eq_true hne⟩
    obtain ⟨hdrawn, hlive⟩ := h.leases g hmem.1
    refine ⟨hdrawn, fun hlt => ?_⟩
    have hl := hlive (release_now.symm.trans_lt hlt)
    rcases release_live cfg s.redis scope token link (cfg.keyFor g.scope) with
      hsame | ⟨hreached, hkey, hget, -⟩
    · exact hsame.trans hl
    · obtain ⟨t, ht⟩ := Expiring.Store.get_eq_some.mp hget
      obtain ⟨he, -⟩ := Prod.mk.inj (Option.some.inj (hl.symm.trans ht))
      exact absurd ⟨hkey, he⟩ (hmem.2 hreached)
  · intro n i v outcome hn
    obtain ⟨hv, hno⟩ := h.exited n i v outcome hn
    refine ⟨hv, fun k hk => ?_⟩
    obtain ⟨t, ht⟩ := Expiring.Store.get_eq_some.mp hk
    exact hno k (Expiring.Store.get_eq_some.mpr ⟨t, hback k _ ht⟩)

theorem inv_tick (h : Inv cfg s) (d : ℕ) : Inv cfg { s with redis := s.redis.advance d } := by
  refine ⟨?_, h.unique, ?_, h.running, ?_⟩
  · intro k v t hk
    exact h.stored k v t (Expiring.Store.live_advance.mp hk).1
  · intro g hg
    obtain ⟨hdrawn, hlive⟩ := h.leases g hg
    refine ⟨hdrawn, fun hlt => ?_⟩
    exact Expiring.Store.live_advance.mpr
      ⟨hlive ((Nat.le_add_right _ d).trans_lt hlt), hlt⟩
  · intro n i v outcome hn
    obtain ⟨hv, hno⟩ := h.exited n i v outcome hn
    refine ⟨hv, fun k hk => ?_⟩
    obtain ⟨t, ht⟩ := Expiring.Store.get_eq_some.mp hk
    exact hno k (Expiring.Store.get_eq_some.mpr ⟨t, (Expiring.Store.live_advance.mp ht).1⟩)

theorem inv_setCall (h : Inv cfg s) (n : ℕ) (c : Call)
    (hrunning : ∀ i a v p, c = .running i a v p → (a, v) ∈ s.drawn)
    (hexited : ∀ i v outcome, c = .exited i (some v) true outcome →
      v ∈ s.drawn.map Prod.snd ∧ ∀ k, s.redis.get k ≠ some v) : Inv cfg (s.setCall n c) := by
  refine ⟨h.stored, h.unique, h.leases, ?_, ?_⟩
  · intro m i a v p hm
    by_cases he : m = n
    · subst he
      exact hrunning i a v p (by simpa [State.setCall] using hm)
    · exact h.running m i a v p (by simpa [State.setCall, he] using hm)
  · intro m i v outcome hm
    by_cases he : m = n
    · subst he
      exact hexited i v outcome (by simpa [State.setCall] using hm)
    · exact h.exited m i v outcome (by simpa [State.setCall, he] using hm)

theorem inv_tables (h : Inv cfg s) (db : ConversationTables) : Inv cfg { s with tables := db } :=
  ⟨h.stored, h.unique, h.leases, h.running, h.exited⟩

/-- A call that is refused has drawn a token that Redis does not hold. -/
theorem inv_refused (h : Inv cfg s) (hfresh : token ∉ s.drawn.map Prod.snd) {link : Link}
    (hrefused : (acquire cfg s.redis scope token link).1.status ≠ .acquired) (n : ℕ)
    (i : Invocation) (outcome : Except Failure ConversationReply) :
    Inv cfg ((s.acquire cfg scope token link).2.setCall n
      (.exited i (some token) (decide (link = .answered)) outcome)) := by
  refine inv_setCall (inv_acquire h hfresh link) n _ (by simp) ?_
  intro i v outcome hc
  simp only [Call.exited.injEq, Option.some.injEq, decide_eq_true_eq] at hc
  obtain ⟨-, rfl, rfl, -⟩ := hc
  refine ⟨List.mem_cons_self, fun k hk => ?_⟩
  refine fresh_not_stored h hfresh k ?_
  rw [← acquire_refused hrefused]
  exact hk

/-- A call that leaves while Redis answers takes its token with it. -/
theorem inv_leave (h : Inv cfg s) (hdrawn : (scope, token) ∈ s.drawn) (link : Link) (n : ℕ)
    (i : Invocation) (outcome : Except Failure ConversationReply) :
    Inv cfg ((s.release cfg scope token link).2.setCall n
      (.exited i (some token) (decide (link = .answered)) outcome)) := by
  have hinv : Inv cfg (s.release cfg scope token link).2 := inv_release h link
  refine inv_setCall hinv n _ (by simp) ?_
  intro i v outcome hc
  simp only [Call.exited.injEq, Option.some.injEq, decide_eq_true_eq] at hc
  obtain ⟨-, rfl, rfl, -⟩ := hc
  refine ⟨List.mem_map_of_mem hdrawn, fun k hk => ?_⟩
  obtain ⟨t, ht⟩ := Expiring.Store.get_eq_some.mp hk
  obtain ⟨a, ha, rfl⟩ := hinv.stored k token t ht
  obtain rfl := h.unique a scope token ha hdrawn
  have hgone : (release cfg s.redis a token .answered).2.get (cfg.keyFor a) ≠ some token :=
    release_gone (by decide)
  exact hgone hk

theorem inv_step {a : Label} {s' : State} (h : Inv cfg s) (hs : step cfg s a = some s') :
    Inv cfg s' := by
  cases a with
  | tick d =>
    cases hs
    exact inv_tick h d
  | acquire scope token link =>
    simp only [step] at hs
    split_ifs at hs with hfresh
    cases hs
    exact inv_acquire h hfresh link
  | release scope token link =>
    cases hs
    exact inv_release h link
  | call n i token link =>
    simp only [step] at hs
    split at hs
    · cases hs
    · cases hscope : i.scope with
      | error e =>
        simp only [hscope, Option.some.injEq] at hs
        subst hs
        exact inv_setCall h n _ (by simp) (by simp)
      | ok scope =>
        simp only [hscope] at hs
        split_ifs at hs with hfresh
        split at hs
        · rename_i t hstatus htoken
          cases hs
          obtain ⟨-, hown, -⟩ := acquire_acquired hstatus
          obtain rfl : token = t := Option.some.inj (hown.symm.trans htoken)
          refine inv_setCall (inv_acquire h hfresh link) n _ ?_ (by simp)
          intro i' a v p hc
          cases hc
          exact List.mem_cons_self
        · rename_i hno
          cases hs
          refine inv_refused h hfresh ?_ n i _
          intro hstatus
          exact hno token hstatus (acquire_acquired hstatus).2.1
  | session n session =>
    simp only [step] at hs
    split at hs
    · rename_i i scope token p hn
      split at hs
      · cases hs
      · rename_i db p' hadv
        cases hs
        refine inv_setCall (inv_tables h db) n _ ?_ (by simp)
        intro i' a v p'' hc
        cases hc
        exact h.running n i scope token p hn
    · cases hs
  | leave n link =>
    simp only [step] at hs
    split at hs
    · rename_i i scope token outcome hn
      cases hs
      exact inv_leave h (h.running n i scope token _ hn) link n i _
    · cases hs
  | crash n =>
    cases hs
    exact inv_setCall h n _ (by simp) (by simp)

end Preserved

theorem inv_start (cfg : Config) (now : ℕ) (tables : ConversationTables) :
    Inv cfg (start now tables) := by
  refine ⟨?_, ?_, ?_, ?_, ?_⟩ <;> simp [start, Expiring.Store.live]

/-- A stored token disappears only when time passes, or when the release script runs
for this token under this key. -/
theorem removed_by_owner {cfg : Config} {s s' : State} {a : Label} (h : step cfg s a = some s')
    {k : String} {v : Token} (hk : s.redis.get k = some v) (hgone : s'.redis.get k ≠ some v) :
    (∃ d, a = .tick d) ∨ ∃ scope, Releases s scope v a ∧ cfg.keyFor scope = k := by
  obtain ⟨t, ht⟩ := Expiring.Store.get_eq_some.mp hk
  have hacquire : ∀ scope token link,
      (s.acquire cfg scope token link).2.redis.get k = some v := by
    intro scope token link
    refine Expiring.Store.get_eq_some.mpr ⟨t, ?_⟩
    rcases acquire_live cfg s.redis scope token link k with hsame | ⟨hnone, -⟩
    · exact hsame.trans ht
    · rw [ht] at hnone
      cases hnone
  have hrelease : ∀ scope token link, (s.release cfg scope token link).2.redis.get k ≠ some v →
      token = v ∧ cfg.keyFor scope = k := by
    intro scope token link hne
    rcases release_live cfg s.redis scope token link k with hsame | ⟨-, hkey, hget, -⟩
    · exact absurd (Expiring.Store.get_eq_some.mpr ⟨t, hsame.trans ht⟩) hne
    · exact ⟨Option.some.inj (hget.symm.trans hk), hkey.symm⟩
  cases a with
  | tick d => exact .inl ⟨d, rfl⟩
  | acquire scope token link =>
    simp only [step] at h
    split_ifs at h
    cases h
    exact absurd (hacquire scope token link) hgone
  | release scope token link =>
    cases h
    obtain ⟨rfl, hkey⟩ := hrelease scope token link hgone
    exact .inr ⟨scope, ⟨rfl, rfl⟩, hkey⟩
  | call n i token link =>
    simp only [step] at h
    split at h
    · cases h
    · cases hscope : i.scope with
      | error e =>
        simp only [hscope, Option.some.injEq] at h
        subst h
        exact absurd hk hgone
      | ok scope =>
        simp only [hscope] at h
        split_ifs at h
        split at h <;> cases h <;> exact absurd (hacquire scope token link) hgone
  | session n session =>
    simp only [step] at h
    split at h
    · split at h
      · cases h
      · cases h
        exact absurd hk hgone
    · cases h
  | leave n link =>
    simp only [step] at h
    split at h
    · rename_i i scope token outcome hn
      cases h
      obtain ⟨rfl, hkey⟩ := hrelease scope token link hgone
      exact .inr ⟨scope, ⟨i, outcome, hn⟩, hkey⟩
    · cases h
  | crash n =>
    cases h
    exact absurd hk hgone

/-- What the lock promises in one state. -/
structure Safe (cfg : Config) (s : State) : Prop where
  /-- At most one token of a scope is stored and unexpired, under whatever key. -/
  one_stored : ∀ scope v v' k k', (scope, v) ∈ s.drawn → (scope, v') ∈ s.drawn →
    s.redis.get k = some v → s.redis.get k' = some v' → v = v'
  /-- A lease counts until it expires or its owner releases it, and then no other
  lease of the scope counts. -/
  exclusive : ∀ g ∈ s.leases, s.redis.now < g.expiresAt →
    s.redis.get (cfg.keyFor g.scope) = some g.token ∧
      ∀ g' ∈ s.leases, g'.scope = g.scope → s.redis.now < g'.expiresAt → g' = g
  /-- Only the owner removes a lock. -/
  removed : ∀ a s' k v, step cfg s a = some s' → s.redis.get k = some v →
    s'.redis.get k ≠ some v →
      (∃ d, a = .tick d) ∨ ∃ scope, Releases s scope v a ∧ cfg.keyFor scope = k
  /-- A Redis error grants nothing. -/
  error : ∀ scope token link, link ≠ .answered →
    (acquire cfg s.redis scope token link).1.status ≠ .acquired
  /-- A call that has left, while Redis answered, left no token behind. -/
  left : ∀ n i token outcome, s.calls n = .exited i (some token) true outcome →
    ∀ k, s.redis.get k ≠ some token

/-- The lock is safe in every state that any interleaving of clients, calls, failures
and the clock can reach. -/
theorem lease_safety (cfg : Config) (now : ℕ) (tables : ConversationTables) {labels : List Label}
    {s : State} (h : exec (step cfg) (start now tables) labels = some s) : Safe cfg s := by
  have hinv : Inv cfg s :=
    exec_invariant (fun _ _ _ hi hs => inv_step hi hs) (inv_start cfg now tables) h
  refine ⟨?_, ?_, ?_, ?_, ?_⟩
  · intro scope v v' k k' hv hv' hk hk'
    obtain ⟨t, ht⟩ := Expiring.Store.get_eq_some.mp hk
    obtain ⟨t', ht'⟩ := Expiring.Store.get_eq_some.mp hk'
    obtain ⟨a, ha, rfl⟩ := hinv.stored k v t ht
    obtain ⟨b, hb, rfl⟩ := hinv.stored k' v' t' ht'
    obtain rfl := hinv.unique a scope v ha hv
    obtain rfl := hinv.unique b a v' hb hv'
    exact Option.some.inj (hk.symm.trans hk')
  · intro g hg hlt
    have hl := (hinv.leases g hg).2 hlt
    refine ⟨Expiring.Store.get_eq_some.mpr ⟨_, hl⟩, fun g' hg' hscope hlt' => ?_⟩
    have hl' := (hinv.leases g' hg').2 hlt'
    rw [hscope, hl] at hl'
    obtain ⟨htoken, hexp⟩ := Prod.mk.inj (Option.some.inj hl')
    cases g
    cases g'
    simp_all
  · intro a s' k v hs hk hgone
    exact removed_by_owner hs hk hgone
  · intro scope token link hne hstatus
    exact hne (acquire_acquired hstatus).1
  · intro n i token outcome hn
    exact (hinv.exited n i token outcome hn).2

section Samples

def sampleConfig : Config := ⟨30, by decide +kernel, sampleSha256, .latin1⟩

def sampleToken (c : Char) : Token :=
  ⟨String.ofList (List.replicate 43 c), by simp [Bounded]⟩

def greeting (messageId : String) (h : Bounded 1 255 messageId) : InboundMessage :=
  accepted (InboundMessage.make messageId .web "a" "a" .text (some "hola") 0 []) (by
    rw [InboundMessage.make, dif_pos ⟨h, by decide +kernel, by decide, by decide, by decide⟩]
    rfl)

/-- The first lease expires, a second call takes the lock, and then the first one
leaves with an error. -/
def lateRelease : List Label :=
  [.call 0 (.respond (greeting "m1" (by decide +kernel)) "piki-local-console") (sampleToken 'A') .answered,
    .tick 30000,
    .call 1 (.respond (greeting "m2" (by decide)) "piki-local-console") (sampleToken 'B') .answered,
    .session 0 (.raise (.database .unavailable)),
    .leave 0 .answered]

/-- The late release leaves the lock of the second call alone. -/
theorem successor_keeps_lock :
    ∃ s, exec (step sampleConfig) (start 0 .empty) lateRelease = some s ∧ Safe sampleConfig s ∧
      s.redis.get (sampleConfig.keyFor (consoleScope "a" (by decide))) = some (sampleToken 'B') ∧
      ∀ k, s.redis.get k ≠ some (sampleToken 'A') := by
  have hget : (exec (step sampleConfig) (start 0 .empty) lateRelease).map (fun s =>
      s.redis.get (sampleConfig.keyFor (consoleScope "a" (by decide)))) =
        some (some (sampleToken 'B')) := by
    decide
  obtain ⟨s, hs, hb⟩ := Option.map_eq_some_iff.mp hget
  have hsafe := lease_safety sampleConfig 0 .empty hs
  refine ⟨s, hs, hsafe, hb, ?_⟩
  have hleft : ∃ outcome, s.calls 0 = .exited (.respond (greeting "m1" (by decide))
      "piki-local-console") (some (sampleToken 'A')) true outcome := by
    cases hs
    exact ⟨_, rfl⟩
  obtain ⟨outcome, hcall⟩ := hleft
  exact hsafe.left 0 _ _ outcome hcall

end Samples

end Piki.ConversationLock
