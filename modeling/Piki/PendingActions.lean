import Piki.Expiring
import Piki.RedisKeys
import Piki.Transition

/-! `RedisPendingActionStore` of `state/pending_actions.py`, command by command. Hash and
JSON are parameters. -/
namespace Piki
open Text

inductive PendingActionKind
  | selectPick
  | provideOrderOwnership
  deriving DecidableEq, Repr

structure PendingAction where
  schemaVersion : String
  actionId : String
  kind : PendingActionKind
  createdAt : Time
  subjectId : Option String
  candidatePickIds : List String
  actionId_bounded : Bounded 36 36 actionId
  subjectId_bounded : ∀ s ∈ subjectId, Bounded 1 255 s
  candidates_bounded : candidatePickIds.length ≤ 20
  select_shape : kind = .selectPick → 2 ≤ candidatePickIds.length ∧ subjectId = none
  ownership_shape : kind = .provideOrderOwnership → subjectId ≠ none ∧ candidatePickIds = []
  candidates_given : ∀ p ∈ candidatePickIds, strip p.toList ≠ []
  candidates_distinct : candidatePickIds.Nodup
  deriving DecidableEq

/-- `PendingActionRead`: only a found read has an action. -/
inductive PendingActionRead
  | found (action : PendingAction)
  | missing
  | unavailable
  deriving DecidableEq

namespace PendingActionStore
open Expiring Transition

/-- The parameters of the store: `hashlib.sha256`, the JSON of the model, and the time
to live, which the constructor refuses if it is not positive. -/
structure Params where
  sha256Hex : ByteArray → String
  modelDumpJson : PendingAction → String
  modelValidateJson : String → Option PendingAction
  ttlSeconds : ℕ
  ttl_positive : 1 ≤ ttlSeconds

def Params.keyFor (c : Params) (scope : ConversationScope) : String :=
  RedisKeys.pendingActionKeyFor c.sha256Hex scope

/-- What `_parse` makes of a payload. -/
def Params.parse (c : Params) : Option String → PendingActionRead
  | none => .missing
  | some payload =>
    match c.modelValidateJson payload with
    | some action => .found action
    | none => .unavailable

/-- What becomes of a command: it is served, it takes effect but its reply is lost, or
it is not served. The last two raise `RedisError`. -/
inductive Reply
  | served
  | lost
  | refused
  deriving DecidableEq, Repr

/-- A `SET` that took effect, with the time its value expires, or the answer of a `get`
or `consume`, at the time of the command that decides it. -/
inductive Entry
  | wrote (scope : ConversationScope) (action : PendingAction) (expiry : ℕ)
  | read (consumed : Bool) (scope : ConversationScope) (result : PendingActionRead) (time : ℕ)
  deriving DecidableEq

/-- `cleaning` holds the calls of `get` that have read a corrupt payload and have not
deleted the key. -/
structure State where
  redis : Store String String
  cleaning : ℕ → Option ConversationScope
  log : List Entry

/-- `corrupt` is a payload that came from elsewhere and is no action. -/
inductive Label
  | set (scope : ConversationScope) (action : PendingAction) (reply : Reply)
  | get (call : ℕ) (scope : ConversationScope) (reply : Reply)
  | cleanUp (call : ℕ) (reply : Reply)
  | consume (scope : ConversationScope) (reply : Reply)
  | clear (scope : ConversationScope) (reply : Reply)
  | corrupt (scope : ConversationScope) (payload : String) (ttl : ℕ)
  | advance (seconds : ℕ)

def State.delete (c : Params) (s : State) (scope : ConversationScope) (reply : Reply) : State :=
  if reply = .refused then s else { s with redis := s.redis.delete (c.keyFor scope) }

def State.answer (s : State) (consumed : Bool) (scope : ConversationScope)
    (result : PendingActionRead) : State :=
  { s with log := s.log ++ [.read consumed scope result s.redis.now] }

def step (c : Params) (s : State) : Label → Option State
  | .set scope action reply =>
    if reply = .refused then some s
    else some { s with
      redis := s.redis.set (c.keyFor scope) (c.modelDumpJson action) c.ttlSeconds
      log := s.log ++ [.wrote scope action (s.redis.now + c.ttlSeconds)] }
  | .get call scope reply =>
    if s.cleaning call ≠ none then none
    else if reply ≠ .served then some (s.answer false scope .unavailable)
    else
      let payload := s.redis.get (c.keyFor scope)
      let t := s.answer false scope (c.parse payload)
      if payload ≠ none ∧ c.parse payload = .unavailable then
        some { t with cleaning := Function.update t.cleaning call (some scope) }
      else some t
  | .cleanUp call reply =>
    match s.cleaning call with
    | some scope =>
      some { s.delete c scope reply with cleaning := Function.update s.cleaning call none }
    | none => none
  | .consume scope reply =>
    let payload := s.redis.get (c.keyFor scope)
    let t := s.delete c scope reply
    if reply = .served then some (t.answer true scope (c.parse payload))
    else some (t.answer true scope .unavailable)
  | .clear scope reply => some (s.delete c scope reply)
  | .corrupt scope payload ttl =>
    if c.modelValidateJson payload = none then
      some { s with redis := s.redis.set (c.keyFor scope) payload ttl }
    else none
  | .advance seconds => some { s with redis := s.redis.advance seconds }

def start (now : ℕ) : State := ⟨⟨now, fun _ => none⟩, fun _ => none, []⟩

def Entry.scope : Entry → ConversationScope
  | .wrote scope _ _ => scope
  | .read _ scope _ _ => scope

/-- A `set` that wrote an action with this id. -/
def wroteWith (id : String) : Entry → Bool
  | .wrote _ action _ => decide (action.actionId = id)
  | .read _ _ _ _ => false

/-- A `consume` that returned an action with this id. -/
def consumedWith (id : String) : Entry → Bool
  | .read true _ (.found action) _ => decide (action.actionId = id)
  | _ => false

/-- The entry replaces or takes away what is stored under the key. -/
def Entry.settles (c : Params) (key : String) : Entry → Bool
  | .wrote scope _ _ => decide (c.keyFor scope = key)
  | .read true scope (.found _) _ => decide (c.keyFor scope = key)
  | _ => false

/-- What was set under a key, with its expiry. -/
abbrev Pending := String × PendingAction × ℕ

def settle (c : Params) (pending : List Pending) (e : Entry) : List Pending :=
  let rest := pending.filter fun x => !e.settles c x.1
  match e with
  | .wrote scope action expiry => (c.keyFor scope, action, expiry) :: rest
  | .read _ _ _ _ => rest

/-- The writes that no later write or consume has settled. -/
def outstanding (c : Params) (log : List Entry) : List Pending := log.foldl (settle c) []

theorem outstanding_snoc (c : Params) (log : List Entry) (e : Entry) :
    outstanding c (log ++ [e]) = settle c (outstanding c log) e := by
  simp [outstanding]

theorem mem_settle {c : Params} {pending : List Pending} {e : Entry} {x : Pending} :
    x ∈ settle c pending e ↔ (x ∈ pending ∧ e.settles c x.1 = false) ∨
      ∃ scope action expiry, e = .wrote scope action expiry ∧ x = (c.keyFor scope, action, expiry) := by
  cases e with
  | wrote scope action expiry => simp [settle, or_comm]
  | read consumed scope result time => simp [settle]

/-- An outstanding action was written under its key, and nothing has settled it since. -/
theorem mem_outstanding {c : Params} {log : List Entry} {k : String} {action : PendingAction}
    {expiry : ℕ} (h : (k, action, expiry) ∈ outstanding c log) :
    ∃ (j : ℕ) (scope : ConversationScope), log[j]? = some (.wrote scope action expiry) ∧
      c.keyFor scope = k ∧ ∀ (i : ℕ) (e : Entry), j < i → log[i]? = some e →
        e.settles c k = false := by
  induction log using List.reverseRecOn with
  | nil => cases h
  | append_singleton log e ih =>
    rw [outstanding_snoc, mem_settle] at h
    rcases h with ⟨hold, hfree⟩ | ⟨scope, action', expiry', rfl, hx⟩
    · obtain ⟨j, scope, hj, hk, hlater⟩ := ih hold
      have hjlt : j < log.length := (List.getElem?_eq_some_iff.mp hj).1
      refine ⟨j, scope, by rw [List.getElem?_append_left hjlt]; exact hj, hk, ?_⟩
      intro i e' hji hi
      by_cases hlt : i < log.length
      · rw [List.getElem?_append_left hlt] at hi
        exact hlater i e' hji hi
      · rw [List.getElem?_append_right (by omega)] at hi
        rw [List.mem_singleton.mp (List.mem_of_getElem? hi)]
        exact hfree
    · cases hx
      refine ⟨log.length, scope, by simp, rfl, ?_⟩
      intro i e' hji hi
      rw [List.getElem?_append_right (by omega), List.getElem?_eq_none (by simp; omega)] at hi
      cases hi

/-- Valid payloads were stored before. -/
def Shrinks (c : Params) (s u : State) : Prop :=
  ∀ k payload expiry, u.redis.entries k = some (payload, expiry) →
    c.modelValidateJson payload ≠ none → s.redis.entries k = some (payload, expiry)

theorem shrinks_delete (c : Params) (s : State) (scope : ConversationScope) (reply : Reply) :
    Shrinks c s (s.delete c scope reply) := by
  intro k payload expiry he _
  unfold State.delete at he
  split_ifs at he
  · exact he
  · exact (Store.entries_delete.mp he).2

/-- The answer of a read comes from what is stored, and a consume leaves nothing. -/
structure Answers (c : Params) (s u : State) (consumed : Bool) (scope : ConversationScope)
    (result : PendingActionRead) : Prop where
  log : u.log = s.log ++ [.read consumed scope result s.redis.now]
  shrinks : Shrinks c s u
  stored : ∀ action, result = .found action → ∃ payload expiry,
    s.redis.live (c.keyFor scope) = some (payload, expiry) ∧
      c.modelValidateJson payload = some action
  taken : ∀ action, result = .found action → consumed = true →
    u.redis.entries (c.keyFor scope) = none

theorem parse_found {c : Params} {r : Store String String} {k : String} {action : PendingAction}
    (h : c.parse (r.get k) = .found action) :
    ∃ payload expiry, r.live k = some (payload, expiry) ∧
      c.modelValidateJson payload = some action := by
  cases hg : r.get k with
  | none => simp [hg, Params.parse] at h
  | some payload =>
    obtain ⟨expiry, hlive⟩ := Store.get_eq_some.mp hg
    refine ⟨payload, expiry, hlive, ?_⟩
    rw [hg] at h
    simp only [Params.parse] at h
    cases hv : c.modelValidateJson payload with
    | none => simp [hv] at h
    | some a =>
      simp only [hv, PendingActionRead.found.injEq] at h
      rw [h]

/-- All that a command can do to the store and the log. -/
theorem step_cases {c : Params} {s u : State} {l : Label} (hs : step c s l = some u) :
    (Shrinks c s u ∧ u.log = s.log) ∨
    (∃ scope action reply, l = .set scope action reply ∧
      u.redis = s.redis.set (c.keyFor scope) (c.modelDumpJson action) c.ttlSeconds ∧
      u.log = s.log ++ [.wrote scope action (s.redis.now + c.ttlSeconds)]) ∨
    ∃ consumed scope result, ((∃ call reply, l = .get call scope reply) ∨
      ∃ reply, l = .consume scope reply) ∧ Answers c s u consumed scope result := by
  have hsame : Shrinks c s s := fun _ _ _ he _ => he
  cases l with
  | set scope action reply =>
    simp only [step] at hs
    split_ifs at hs
    · cases hs
      exact .inl ⟨hsame, rfl⟩
    · cases hs
      exact .inr (.inl ⟨scope, action, reply, rfl, rfl, rfl⟩)
  | get call scope reply =>
    simp only [step] at hs
    refine .inr (.inr ⟨false, scope, ?_⟩)
    split_ifs at hs
    · cases hs
      refine ⟨.unavailable, .inl ⟨call, reply, rfl⟩, rfl, hsame, ?_, ?_⟩ <;> simp
    · cases hs
      refine ⟨_, .inl ⟨call, reply, rfl⟩, rfl, hsame, fun _ h => parse_found h, ?_⟩
      simp
    · cases hs
      refine ⟨_, .inl ⟨call, reply, rfl⟩, rfl, hsame, fun _ h => parse_found h, ?_⟩
      simp
  | cleanUp call reply =>
    cases hc : s.cleaning call with
    | none => simp [step, hc] at hs
    | some scope =>
      simp only [step, hc] at hs
      cases hs
      refine .inl ⟨shrinks_delete c s scope reply, ?_⟩
      unfold State.delete
      split_ifs <;> rfl
  | consume scope reply =>
    simp only [step] at hs
    refine .inr (.inr ⟨true, scope, ?_⟩)
    split_ifs at hs with hr
    · cases hs
      refine ⟨_, .inr ⟨reply, rfl⟩, ?_, shrinks_delete c s scope reply,
        fun _ h => parse_found h, ?_⟩
      · subst hr
        rfl
      · intro action _ _
        subst hr
        simp [State.answer, State.delete, Store.delete]
    · cases hs
      refine ⟨.unavailable, .inr ⟨reply, rfl⟩, ?_, shrinks_delete c s scope reply, ?_, ?_⟩
      · unfold State.delete
        split_ifs <;> rfl
      · simp
      · simp
  | clear scope reply =>
    cases hs
    refine .inl ⟨shrinks_delete c s scope reply, ?_⟩
    unfold State.delete
    split_ifs <;> rfl
  | corrupt scope payload ttl =>
    simp only [step] at hs
    split_ifs at hs with hv
    cases hs
    refine .inl ⟨?_, rfl⟩
    intro k payload' expiry he hvalid
    rcases Store.entries_set.mp he with ⟨-, rfl, -⟩ | ⟨-, he⟩
    · exact absurd hv hvalid
    · exact he
  | advance seconds =>
    cases hs
    exact .inl ⟨hsame, rfl⟩

/-- Every valid payload is an outstanding write; a consume uses one up; and what a read
found was written under its key and was not settled in between. -/
structure Inv (c : Params) (scopes : ConversationScope → Prop) (s : State) : Prop where
  stored : ∀ k payload expiry action, s.redis.entries k = some (payload, expiry) →
    c.modelValidateJson payload = some action → (k, action, expiry) ∈ outstanding c s.log
  budget : ∀ id, s.log.countP (consumedWith id) +
    (outstanding c s.log).countP (fun x => decide (x.2.1.actionId = id)) ≤
      s.log.countP (wroteWith id)
  found : ∀ (i : ℕ) consumed scope action time,
    s.log[i]? = some (Entry.read consumed scope (.found action) time) →
    ∃ (j : ℕ) (scope' : ConversationScope) (expiry : ℕ), j < i ∧
      s.log[j]? = some (.wrote scope' action expiry) ∧ c.keyFor scope' = c.keyFor scope ∧
      time < expiry ∧ ∀ (n : ℕ) (e : Entry), j < n → n < i → s.log[n]? = some e →
        e.settles c (c.keyFor scope) = false
  scopes : ∀ e ∈ s.log, scopes e.scope

theorem inv_start (c : Params) (scopes : ConversationScope → Prop) (now : ℕ) :
    Inv c scopes (start now) where
  stored k payload expiry action h := by cases h
  budget id := by simp [start, outstanding]
  found i consumed scope action time h := by cases h
  scopes e h := by cases h

/-- What a read of the old log found is unchanged in the longer one. -/
theorem found_append {c : Params} {scopes : ConversationScope → Prop} {s : State} (h : Inv c scopes s)
    (e : Entry) {i : ℕ} {consumed : Bool} {scope : ConversationScope} {action : PendingAction}
    {time : ℕ} (hi : i < s.log.length)
    (hlog : (s.log ++ [e])[i]? = some (.read consumed scope (.found action) time)) :
    ∃ (j : ℕ) (scope' : ConversationScope) (expiry : ℕ), j < i ∧
      (s.log ++ [e])[j]? = some (.wrote scope' action expiry) ∧
      c.keyFor scope' = c.keyFor scope ∧ time < expiry ∧
      ∀ (n : ℕ) (e' : Entry), j < n → n < i → (s.log ++ [e])[n]? = some e' →
        e'.settles c (c.keyFor scope) = false := by
  rw [List.getElem?_append_left hi] at hlog
  obtain ⟨j, scope', expiry, hj, hw, hk, ht, hbetween⟩ := h.found i consumed scope action time hlog
  refine ⟨j, scope', expiry, hj, ?_, hk, ht, ?_⟩
  · rw [List.getElem?_append_left (hj.trans hi)]
    exact hw
  · intro n e' hjn hni hn
    rw [List.getElem?_append_left (hni.trans hi)] at hn
    exact hbetween n e' hjn hni hn

theorem inv_set {c : Params} {scopes : ConversationScope → Prop} {s u : State}
    {scope : ConversationScope} {action : PendingAction} (h : Inv c scopes s)
    (hjson : c.modelValidateJson (c.modelDumpJson action) = some action) (hscope : scopes scope)
    (hredis : u.redis = s.redis.set (c.keyFor scope) (c.modelDumpJson action) c.ttlSeconds)
    (hlog : u.log = s.log ++ [.wrote scope action (s.redis.now + c.ttlSeconds)]) :
    Inv c scopes u := by
  constructor
  · intro k payload expiry a he hv
    rw [hlog, outstanding_snoc, mem_settle]
    rw [hredis, Store.entries_set] at he
    rcases he with ⟨rfl, rfl, rfl⟩ | ⟨hne, he⟩
    · rw [hjson] at hv
      cases hv
      exact .inr ⟨_, _, _, rfl, rfl⟩
    · exact .inl ⟨h.stored k payload expiry a he hv, decide_eq_false (Ne.symm hne)⟩
  · intro id
    have hb := h.budget id
    have hfilter := (List.filter_sublist (p := fun x => !Entry.settles c x.1
      (.wrote scope action (s.redis.now + c.ttlSeconds)))
      (l := outstanding c s.log)).countP_le (p := fun x => decide (x.2.1.actionId = id))
    rw [hlog, outstanding_snoc]
    simp only [settle, List.countP_append, List.countP_cons, List.countP_nil, consumedWith,
      wroteWith, Bool.false_eq_true, if_false, Nat.zero_add, Nat.add_zero, decide_eq_true_eq]
    omega
  · intro i consumed scope' a time hi
    rw [hlog] at hi ⊢
    by_cases hlt : i < s.log.length
    · exact found_append h _ hlt hi
    · rw [List.getElem?_append_right (by omega)] at hi
      cases List.mem_singleton.mp (List.mem_of_getElem? hi)
  · intro e he
    rw [hlog] at he
    rcases List.mem_append.mp he with he | he
    · exact h.scopes e he
    · rw [List.mem_singleton.mp he]
      exact hscope

/-- A consume takes an outstanding write away. -/
theorem budget_consume {c : Params} {pending : List Pending} {scope : ConversationScope}
    {action : PendingAction} {expiry : ℕ} (h : (c.keyFor scope, action, expiry) ∈ pending)
    (id : String) (time : ℕ) :
    (if action.actionId = id then 1 else 0) +
      (settle c pending (.read true scope (.found action) time)).countP
        (fun x => decide (x.2.1.actionId = id)) ≤
      pending.countP (fun x => decide (x.2.1.actionId = id)) := by
  simp only [settle, Entry.settles]
  have hsplit := List.countP_eq_countP_filter_add pending
    (fun x => decide (x.2.1.actionId = id)) (fun x => !decide (c.keyFor scope = x.1))
  rw [hsplit]
  split_ifs with hid
  · have hpos : 0 < (pending.filter fun x => !!decide (c.keyFor scope = x.1)).countP
        fun x => decide (x.2.1.actionId = id) := by
      refine List.countP_pos_iff.mpr ⟨_, List.mem_filter.mpr ⟨h, ?_⟩, decide_eq_true hid⟩
      simp
    simp only [Bool.not_not] at hpos ⊢
    omega
  · omega

theorem inv_read {c : Params} {scopes : ConversationScope → Prop} {s u : State} {consumed : Bool}
    {scope : ConversationScope} {result : PendingActionRead} (h : Inv c scopes s)
    (hscope : scopes scope) (ha : Answers c s u consumed scope result) : Inv c scopes u := by
  have hout : ∀ action, result = .found action → ∃ expiry, s.redis.now < expiry ∧
      (c.keyFor scope, action, expiry) ∈ outstanding c s.log := by
    intro action hr
    obtain ⟨payload, expiry, hlive, hv⟩ := ha.stored action hr
    obtain ⟨he, hlt⟩ := Store.live_eq_some.mp hlive
    exact ⟨expiry, hlt, h.stored _ payload expiry action he hv⟩
  constructor
  · intro k payload expiry action he hv
    have hold := ha.shrinks k payload expiry he (by simp [hv])
    rw [ha.log, outstanding_snoc, mem_settle]
    refine .inl ⟨h.stored k payload expiry action hold hv, ?_⟩
    cases result with
    | missing | unavailable => cases consumed <;> rfl
    | found a =>
      cases consumed with
      | false => rfl
      | true =>
        refine decide_eq_false ?_
        intro hk
        have hk' : c.keyFor scope = k := hk
        rw [← hk', ha.taken a rfl rfl] at he
        cases he
  · intro id
    have hb := h.budget id
    rw [ha.log]
    simp only [List.countP_append, List.countP_cons, List.countP_nil, Nat.zero_add, wroteWith,
      Bool.false_eq_true, if_false, Nat.add_zero, outstanding_snoc]
    by_cases hc : ∃ action, consumed = true ∧ result = .found action
    · obtain ⟨action, rfl, rfl⟩ := hc
      obtain ⟨expiry, -, hmem⟩ := hout action rfl
      have hle := budget_consume hmem id s.redis.now
      simp only [consumedWith, decide_eq_true_eq]
      omega
    · have hquiet : consumedWith id (.read consumed scope result s.redis.now) = false ∧
          ∀ k, Entry.settles c k (.read consumed scope result s.redis.now) = false := by
        cases consumed <;> cases result <;> simp_all [consumedWith, Entry.settles]
      simpa [settle, hquiet.1, hquiet.2] using hb
  · intro i consumed' scope' a time hi
    rw [ha.log] at hi ⊢
    by_cases hlt : i < s.log.length
    · exact found_append h _ hlt hi
    · have hlen : i = s.log.length := by
        have := (List.getElem?_eq_some_iff.mp hi).1
        rw [List.length_append, List.length_singleton] at this
        omega
      rw [hlen, List.getElem?_concat_length] at hi
      cases hi
      obtain ⟨expiry, htime, hmem⟩ := hout a rfl
      obtain ⟨j, scope'', hj, hk, hlater⟩ := mem_outstanding hmem
      have hjlt : j < s.log.length := (List.getElem?_eq_some_iff.mp hj).1
      refine ⟨j, scope'', expiry, by omega, ?_, hk, htime, ?_⟩
      · rw [List.getElem?_append_left hjlt]
        exact hj
      · intro n e hjn hni hn
        rw [List.getElem?_append_left (by omega)] at hn
        exact hlater n e hjn hn
  · intro e he
    rw [ha.log] at he
    rcases List.mem_append.mp he with he | he
    · exact h.scopes e he
    · rw [List.mem_singleton.mp he]
      exact hscope

def Label.scope : Label → Option ConversationScope
  | .set scope _ _ => some scope
  | .get _ scope _ => some scope
  | .consume scope _ => some scope
  | .clear scope _ => some scope
  | .corrupt scope _ _ => some scope
  | .cleanUp _ _ => none
  | .advance _ => none

theorem inv_step {c : Params} {scopes : ConversationScope → Prop} {s u : State} {l : Label}
    (h : Inv c scopes s) (hscope : ∀ scope ∈ l.scope, scopes scope)
    (hjson : ∀ scope action reply, l = .set scope action reply →
      c.modelValidateJson (c.modelDumpJson action) = some action)
    (hs : step c s l = some u) : Inv c scopes u := by
  rcases step_cases hs with ⟨hshrinks, hlog⟩ | ⟨scope, action, reply, rfl, hredis, hlog⟩ |
    ⟨consumed, scope, result, hl, ha⟩
  · obtain ⟨hstored, hbudget, hfound, hscopes⟩ := h
    refine ⟨?_, by rwa [hlog], by rwa [hlog], by rwa [hlog]⟩
    intro k payload expiry action he hv
    rw [hlog]
    exact hstored k payload expiry action (hshrinks k payload expiry he (by simp [hv])) hv
  · exact inv_set h (hjson scope action reply rfl) (hscope scope rfl) hredis hlog
  · refine inv_read h (hscope scope ?_) ha
    rcases hl with ⟨call, reply, rfl⟩ | ⟨reply, rfl⟩ <;> rfl

/-- Over every interleaving: an action is consumed no more often than it was set; what a
`get` or `consume` finds was set on the same scope, is the last action set there and not
consumed, and has not expired. -/
theorem pending_action_single_use {c : Params} {now : ℕ} {schedule : List Label} {s : State}
    (hkeys : ∀ l ∈ schedule, ∀ l' ∈ schedule, ∀ scope ∈ l.scope, ∀ scope' ∈ l'.scope,
      c.keyFor scope = c.keyFor scope' → scope = scope')
    (hjson : ∀ scope action reply, .set scope action reply ∈ schedule →
      c.modelValidateJson (c.modelDumpJson action) = some action)
    (hrun : exec (step c) (start now) schedule = some s) :
    (∀ id, s.log.countP (consumedWith id) ≤ s.log.countP (wroteWith id)) ∧
    ∀ (i : ℕ) consumed scope action time,
      s.log[i]? = some (Entry.read consumed scope (.found action) time) →
      ∃ (j : ℕ) (expiry : ℕ), j < i ∧ s.log[j]? = some (.wrote scope action expiry) ∧
        time < expiry ∧ ∀ (n : ℕ) (e : Entry), j < n → n < i → s.log[n]? = some e →
          e.settles c (c.keyFor scope) = false := by
  have hinv : Inv c (fun scope => ∃ l ∈ schedule, scope ∈ l.scope) s := by
    refine exec_invariant_along (P := fun _ l => l ∈ schedule) ?_ (inv_start c _ now)
      (along_of_forall fun _ hl => hl) hrun
    intro s l u hi hl hs
    refine inv_step hi (fun scope hscope => ⟨l, hl, hscope⟩) ?_ hs
    rintro scope action reply rfl
    exact hjson scope action reply hl
  refine ⟨fun id => (Nat.le_add_right _ _).trans (hinv.budget id), ?_⟩
  intro i consumed scope action time hi
  obtain ⟨j, scope', expiry, hj, hw, hk, ht, hbetween⟩ :=
    hinv.found i consumed scope action time hi
  obtain ⟨l, hl, hls⟩ := hinv.scopes _ (List.mem_of_getElem? hi)
  obtain ⟨l', hl', hls'⟩ := hinv.scopes _ (List.mem_of_getElem? hw)
  have hsame : scope' = scope := hkeys l' hl' l hl scope' hls' scope hls hk
  subst hsame
  exact ⟨j, expiry, hj, hw, ht, hbetween⟩

section Samples
open RedisKeys

/-- A choice between two picks. -/
def choiceAction : PendingAction where
  schemaVersion := "1.0"
  actionId := "00000000-0000-4000-8000-000000000001"
  kind := .selectPick
  createdAt := 0
  subjectId := none
  candidatePickIds := ["pick-1", "pick-2"]
  actionId_bounded := by decide +kernel
  subjectId_bounded := by simp
  candidates_bounded := by decide
  select_shape := by decide
  ownership_shape := by decide
  candidates_given := by decide
  candidates_distinct := by decide

def choiceJson : String :=
  "\x7b\"schema_version\":\"1.0\",\"action_id\":\"00000000-0000-4000-8000-000000000001\"," ++
  "\"kind\":\"select_pick\",\"created_at\":\"1970-01-01T00:00:00Z\",\"subject_id\":null," ++
  "\"candidate_pick_ids\":[\"pick-1\",\"pick-2\"]\x7d"

/-- Agrees with SHA-256 and with the JSON of the model on what the run below uses. -/
def sampleParams : Params where
  sha256Hex := sampleSha256
  modelDumpJson action := if action = choiceAction then choiceJson else ""
  modelValidateJson payload := if payload = choiceJson then some choiceAction else none
  ttlSeconds := 900
  ttl_positive := by decide +kernel

/-- Two consumers race for the choice of conversation `a`; `b` has none. -/
def racingConsumers : List Label :=
  let a := consoleScope "a" (by decide +kernel)
  let b := consoleScope "b" (by decide)
  [.set a choiceAction .served, .corrupt b "x" 900, .get 1 b .served, .cleanUp 1 .lost,
    .advance 899, .consume a .served, .consume a .served, .consume b .served]

set_option maxRecDepth 10000 in
/-- One of the two finds it. -/
theorem racing_consumers_single_use :
    ∃ s, exec (step sampleParams) (start 0) racingConsumers = some s ∧
      s.log.countP (consumedWith choiceAction.actionId) = 1 := by
  have hrun : (exec (step sampleParams) (start 0) racingConsumers).map (fun s => decide
      (1 ≤ s.log.countP (consumedWith choiceAction.actionId) ∧
        s.log.countP (wroteWith choiceAction.actionId) = 1)) = some true := by
    decide
  obtain ⟨s, hs, hcounts⟩ := Option.map_eq_some_iff.mp hrun
  obtain ⟨hconsumed, hwrote⟩ := of_decide_eq_true hcounts
  refine ⟨s, hs, Nat.le_antisymm ?_ hconsumed⟩
  rw [← hwrote]
  refine (pending_action_single_use (by decide) ?_ hs).1 choiceAction.actionId
  intro scope action reply hmem
  simp only [racingConsumers, List.mem_cons, Label.set.injEq, reduceCtorEq, List.not_mem_nil,
    or_false] at hmem
  obtain ⟨-, rfl, -⟩ := hmem
  decide

end Samples

end PendingActionStore
end Piki
