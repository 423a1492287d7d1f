import Piki.Leases
import Piki.SystemVoices

/-! One turn at a time. As long as no lease runs out under a turn that still needs it, a
conversation has one open turn, and nobody else adds a reply to it. -/
namespace Piki.System
open Table Transition ConversationRepository ConversationOrchestrator MessageProcessingStore Worker
open Turns Leases
variable {cfg : Config}

section Locks
variable {s s' t : Worker.State} {w : ℕ}

/-- The lease that a worker acts under. -/
def leaseOf : Phase → Option Lease
  | .locked _ lease | .opened _ lease _ | .composed _ lease _ _ | .releasing _ lease _ => some lease
  | _ => none

/-- The worker gives its lease up, or goes on with its job under it. -/
def Phase.Drops (p q : Phase) : Prop :=
  leaseOf q = none ∨ (leaseOf q = leaseOf p ∧ q.job = p.job)

/-- What an action does to the locks, and where it leaves the worker. -/
inductive LockMove (s : Worker.State) (w : ℕ) : (ConversationScope → Option ℕ) → Phase → Prop
  | keep {q : Phase} (hq : Phase.Drops (s.workers w) q) : LockMove s w s.locks q
  | grant {job : ClaimedInbound} {scope : ConversationScope} {token : ℕ}
      (hp : s.workers w = .claimed job) (hscope : scopeOf job = .ok scope)
      (hfree : s.locks scope = none) :
    LockMove s w (Function.update s.locks scope (some token)) (.locked job ⟨scope, token⟩)
  | free {job : ClaimedInbound} {lease : Lease} {outcome : Except Failure ConversationReply}
      {q : Phase} (hp : s.workers w = .releasing job lease outcome) (hq : leaseOf q = none) :
    LockMove s w (Function.update s.locks lease.scope none) q

theorem raised_drops (cfg : Config) (e : Failure) (p : Phase) :
    Phase.Drops p (p.raised cfg e) := by
  cases p with
  | locked | opened | composed => exact .inr ⟨rfl, rfl⟩
  | _ => exact .inl rfl

theorem lock_put {p : Phase} (hl : s'.locks = s.locks) (hp : Phase.Drops (s.workers w) p) :
    LockMove s w (s'.put w p).locks ((s'.put w p).workers w) := by
  simp only [State.put, Function.update_self, hl]
  exact .keep hp

theorem lock_raise (e : Failure) (hl : s'.locks = s.locks) (hw : s'.workers = s.workers) :
    LockMove s w (s'.raise cfg w e).locks ((s'.raise cfg w e).workers w) := by
  refine lock_put hl ?_
  rw [hw]
  exact raised_drops cfg e _

theorem lock_answer {p : Phase} (acked : Bool) (hl : s'.locks = s.locks)
    (hw : s'.workers = s.workers) (hp : Phase.Drops (s.workers w) p) :
    LockMove s w (s'.answer cfg w acked p).locks ((s'.answer cfg w acked p).workers w) := by
  cases acked with
  | true => exact lock_put hl hp
  | false => exact lock_raise _ hl hw

theorem deliver_locks (attemptId : Uuid) (acked : Bool) (job : ClaimedInbound)
    (request : DeliveryRequest) : LockMove s w (deliver cfg s w attemptId acked job request).locks
      ((deliver cfg s w attemptId acked job request).workers w) := by
  unfold deliver
  split
  · exact lock_raise _ rfl rfl
  · dsimp only
    split_ifs
    · exact lock_answer acked rfl rfl (.inl rfl)
    · split
      · exact lock_raise _ rfl rfl
      · exact lock_answer acked rfl rfl (.inl rfl)

/-- Only `acquire` and `release` touch the locks. -/
theorem act_locks {a : Action} (h : act cfg s w a = some t) :
    LockMove s w t.locks (t.workers w) := by
  cases a with
  | claim now locked acked =>
    simp only [act] at h
    split at h
    · rename_i hp
      split at h <;> cases h
      · exact lock_raise _ rfl rfl
      · exact .keep (.inl (by rw [hp]; rfl))
      · exact lock_answer acked rfl rfl (.inl rfl)
    · cases h
  | acquire token reachable =>
    simp only [act] at h
    split at h
    · rename_i job hp
      split at h
      · cases h
        exact lock_raise _ rfl rfl
      · rename_i scope hscope
        split_ifs at h with hfree <;> cases h
        · simp only [State.put, Function.update_self]
          exact .grant hp hscope hfree.2
        · exact lock_raise _ rfl rfl
    · cases h
  | lookup =>
    simp only [act] at h
    split at h
    · rename_i job lease hp
      split at h <;> cases h
      · exact lock_raise _ rfl rfl
      · exact lock_put rfl (.inr (by rw [hp]; exact ⟨rfl, rfl⟩))
      · exact lock_put rfl (.inr (by rw [hp]; exact ⟨rfl, rfl⟩))
    · cases h
  | compose ports handoffId now acked =>
    simp only [act] at h
    split at h
    · rename_i job lease history hp
      split at h <;> cases h
      · exact lock_raise _ rfl rfl
      · exact lock_answer acked rfl rfl (.inr (by rw [hp]; exact ⟨rfl, rfl⟩))
    · cases h
  | record id now acked =>
    simp only [act] at h
    split at h
    · rename_i job lease text fb hp
      split at h <;> cases h
      · exact lock_raise _ rfl rfl
      · exact lock_answer acked rfl rfl (.inr (by rw [hp]; exact ⟨rfl, rfl⟩))
    · cases h
  | release reachable =>
    simp only [act] at h
    split at h
    · rename_i job lease outcome hp
      split_ifs at h with hheld
      · cases outcome <;> cases h <;> simp only [State.put, Function.update_self] <;>
          exact .free hp rfl
      · cases outcome <;> cases h <;> exact lock_put rfl (.inl rfl)
    · cases h
  | deliver attemptId now acked =>
    simp only [act] at h
    split at h
    · split at h <;> cases h
      · exact lock_raise _ rfl rfl
      · exact deliver_locks attemptId acked _ _
    · cases h
  | invoke =>
    simp only [act] at h
    split at h <;> cases h
    exact lock_put rfl (.inl rfl)
  | receive provider =>
    simp only [act] at h
    split at h
    · split at h <;> cases h
      · exact lock_raise _ rfl rfl
      · exact lock_put rfl (.inl rfl)
    · cases h
  | finalize now acked =>
    simp only [act] at h
    split at h
    · split at h <;> cases h
      · exact lock_raise _ rfl rfl
      · exact lock_answer acked rfl rfl (.inl rfl)
    · cases h
  | settle now acked =>
    simp only [act] at h
    split at h
    · split at h <;> cases h
      · exact lock_raise _ rfl rfl
      · exact lock_answer acked rfl rfl (.inl rfl)
    · cases h
  | fail now acked =>
    simp only [act] at h
    split at h
    · split at h <;> cases h
      · exact lock_raise _ rfl rfl
      · exact lock_answer acked rfl rfl (.inl rfl)
    · cases h
  | disturb =>
    simp only [act] at h
    split at h <;> cases h
    exact lock_raise _ rfl rfl
  | crash =>
    cases h
    exact lock_put rfl (.inl rfl)

end Locks

section Leases
variable {s t : HandoffPause.State} {l : HandoffPause.Label}

/-- A worker or a call of `respond`. -/
abbrev Process := ℕ ⊕ ℕ

def seatOf : HandoffPause.WebCall → Option (ConversationScope × ℕ)
  | .running _ _ scope token _ => some (scope, token)
  | .idle => none

def phaseSeat (p : Phase) : Option (ConversationScope × ℕ) :=
  (leaseOf p).map fun lease => (lease.scope, lease.token)

def holding (s : HandoffPause.State) : Process → Option (ConversationScope × ℕ)
  | .inl w => phaseSeat (s.base.workers w)
  | .inr n => seatOf (s.web n)

def lockView (s : HandoffPause.State) : View Process ConversationScope ℕ :=
  ⟨s.base.locks, holding s⟩

/-- No lock runs out under a process that works under it. -/
def LeasesLast (s : HandoffPause.State) : HandoffPause.Label → Prop
  | .base (.expire scope) => (lockView s).Unheld scope
  | _ => True

theorem lockView_worker {w : ℕ} {q : Phase} {locks : ConversationScope → Option ℕ}
    (hweb : t.web = s.web) (hw : t.base.workers = Function.update s.base.workers w q)
    (hl : t.base.locks = locks) :
    lockView t = ({ locks := locks, holds := holding s } : View _ _ _).give (.inl w)
      (phaseSeat q) := by
  unfold lockView View.give
  rw [hl]
  congr 1
  funext i
  cases i with
  | inl w' =>
    by_cases he : w' = w
    · subst he
      simp [holding, hw]
    · simp [holding, hw, he]
  | inr n => simp [holding, hweb]

theorem lockView_call {n : ℕ} {c : HandoffPause.WebCall} (b : Worker.State)
    (hw : b.workers = s.base.workers) : lockView ((s.withBase b).setWeb n c) =
      ({ locks := b.locks, holds := holding s } : View _ _ _).give (.inr n) (seatOf c) := by
  unfold lockView View.give
  congr 1
  funext i
  cases i with
  | inl w => simp [holding, HandoffPause.State.setWeb, HandoffPause.State.withBase, hw]
  | inr n' =>
    by_cases he : n' = n
    · subst he
      simp [holding, HandoffPause.State.setWeb]
    · simp [holding, HandoffPause.State.setWeb, HandoffPause.State.withBase, he]

/-- Giving a process what it holds changes nothing. -/
theorem lockView_give {i : Process} {h : Option (ConversationScope × ℕ)} (he : holding s i = h) :
    (lockView s).give i h = lockView s := by
  subst he
  simp [View.give, lockView]

theorem lockMove_change {w : ℕ} {q : Phase} {locks : ConversationScope → Option ℕ}
    (hmove : LockMove s.base w locks q) : Change (lockView s)
      (({ locks := locks, holds := holding s } : View _ _ _).give (.inl w) (phaseSeat q)) := by
  cases hmove with
  | keep hq =>
    rcases hq with hnone | ⟨hsame, -⟩
    · rw [phaseSeat, hnone]
      exact .leave (Sum.inl w)
    · have he : holding s (.inl w) = phaseSeat q := by
        rw [holding, phaseSeat, phaseSeat, hsame]
      exact (lockView_give he).symm ▸ Change.stay
  | @grant job scope token hp hscope hfree =>
    exact .acquire (Sum.inl w) scope token hfree
  | @free job lease outcome q hp hq =>
    rw [phaseSeat, hq]
    have hholds : (lockView s).holds (.inl w) = some (lease.scope, lease.token) := by
      simp [lockView, holding, phaseSeat, hp, leaseOf]
    exact .release (Sum.inl w) lease.scope lease.token hholds

/-- Every step takes, frees or leaves locks as their clients may. -/
theorem lock_step (hs : HandoffPause.step cfg s l = some t) (hlast : LeasesLast s l) :
    Change (lockView s) (lockView t) := by
  cases l with
  | base l =>
    obtain ⟨b, hb, rfl⟩ := Option.map_eq_some_iff.mp hs
    cases step_stepped hb with
    | refused | recorded | callback => exact .stay
    | expire => exact .expire _ hlast
    | @worker w a q db d sent locks hact hmove =>
      have hl := act_locks hact
      simp only [State.moved, Function.update_self] at hl
      exact lockView_worker (s := s) (t := { s with base := s.base.moved w q db d locks sent })
        rfl rfl rfl ▸ lockMove_change hl
  | call n message account token reachable =>
    simp only [HandoffPause.step] at hs
    split at hs
    · cases hs
    · split at hs
      · cases hs
        exact .stay
      · rename_i scope hscope
        split_ifs at hs with hfree <;> cases hs
        · rw [lockView_call (s.base.setLock scope (some token)) rfl]
          exact .acquire (Sum.inr n) scope token hfree.2
        · exact .stay
  | session n session =>
    simp only [HandoffPause.step] at hs
    split at hs
    · cases hs
    · rename_i message account scope token p hweb
      split at hs <;> cases hs
      have hview : ∀ db p' late, lockView { (s.withBase (s.base.withConversations db)).setWeb n
          (.running message account scope token p') with lateCalls := late } = lockView s := by
        intro db p' late
        have hcall := lockView_call (s := s) (n := n) (c := .running message account scope token p')
          (s.base.withConversations db) rfl
        refine hcall.trans (lockView_give ?_)
        rw [holding, hweb]
        rfl
      rw [hview]
      exact .stay
  | leave n reachable =>
    simp only [HandoffPause.step] at hs
    split at hs
    · rename_i message account scope token outcome hweb
      cases hs
      split_ifs with hheld
      · rw [lockView_call (s.base.setLock scope none) rfl]
        exact .release (Sum.inr n) scope token (by simp [lockView, holding, hweb, seatOf])
      · rw [lockView_call s.base rfl]
        exact .leave (Sum.inr n)
    · cases hs
  | crash n =>
    cases hs
    exact lockView_call (s := s) (n := n) (c := .idle) s.base rfl ▸ Change.leave (Sum.inr n)

end Leases

section Seats
variable {s t : HandoffPause.State} {l : HandoffPause.Label}

def phaseTurn : Phase → Option Uuid
  | .opened job _ _ | .composed job _ _ _ => some job.conversationRecordId
  | _ => none

def progressTurn : Progress → Option Uuid
  | .opened cid _ | .composed cid _ _ => some cid
  | _ => none

def callTurn : HandoffPause.WebCall → Option Uuid
  | .running _ _ _ _ p => progressTurn p
  | .idle => none

/-- The conversation in which a process has a turn open: it has read the history, and has
not recorded its reply yet. -/
def turnOf (s : HandoffPause.State) : Process → Option Uuid
  | .inl w => phaseTurn (s.base.workers w)
  | .inr n => callTurn (s.web n)

/-- What a process that is about to compose has read of which conversation. -/
def historyOf (s : HandoffPause.State) : Process → Option (Uuid × List MessageRecord)
  | .inl w =>
    match s.base.workers w with
    | .opened job _ history => some (job.conversationRecordId, history)
    | _ => none
  | .inr n =>
    match s.web n with
    | .running _ _ _ _ (.opened cid history) => some (cid, history)
    | _ => none

theorem historyOf_turn {i : Process} {cid : Uuid} {history : List MessageRecord}
    (h : historyOf s i = some (cid, history)) : turnOf s i = some cid := by
  cases i with
  | inl w =>
    simp only [historyOf] at h
    split at h
    · rename_i hp
      cases h
      simp [turnOf, hp, phaseTurn]
    · cases h
  | inr n =>
    simp only [historyOf] at h
    split at h
    · rename_i hp
      cases h
      simp [turnOf, hp, callTurn, progressTurn]
    · cases h

/-- The person whose conversation a lock guards. -/
def guarded (scope : ConversationScope) : Person :=
  (scope.channel, scope.channelAccountId, scope.conversationId)

theorem guarded_injective {a b : ConversationScope} (h : guarded a = guarded b) : a = b := by
  cases a
  cases b
  cases h
  rfl

theorem scope_make_guarded {channel : Channel} {account conversationId : String}
    {scope : ConversationScope} (h : ConversationScope.make channel account conversationId =
      .ok scope) : guarded scope = (channel, account, conversationId) := by
  unfold ConversationScope.make at h
  split_ifs at h
  cases h
  rfl

def Home (db : ConversationTables) (person : Person) (cid : Uuid) : Prop :=
  ∃ c ∈ db.conversations, c.id = cid ∧ c.identity = person

theorem Home.extends {db db' : Ingress.Tables} {person : Person} {cid : Uuid}
    (h : Home db.conversations person cid) (he : Extends db db') :
    Home db'.conversations person cid := by
  obtain ⟨c, hc, hid, hident⟩ := h
  obtain ⟨c', hc', hid', hident'⟩ := he.conversation hc
  exact ⟨c', hc', hid'.trans hid, hident'.trans hident⟩

/-- Leases guard the conversations of the turns that run under them. -/
structure Seated (s : HandoffPause.State) : Prop where
  workers : ∀ w job lease, (s.base.workers w).job = some job →
    leaseOf (s.base.workers w) = some lease → guarded lease.scope =
      (job.message.channel, job.channelAccountId, job.message.conversationId)
  calls : ∀ n message account scope token p, s.web n = .running message account scope token p →
    guarded scope = sender (message, account) ∧
      ∀ cid, progressTurn p = some cid → Home s.base.conversations (sender (message, account)) cid

theorem Progress.acknowledged_turn {p : Progress} {acked : Bool} {cid : Uuid}
    (h : progressTurn (p.acknowledged acked) = some cid) : progressTurn p = some cid := by
  cases acked with
  | true => exact h
  | false => cases h

/-- A call opens its turn in the conversation of its person, and stays there. -/
theorem advance_home {u : Text.Unicode} {db db' : ConversationTables} {message : InboundMessage}
    {account : String} {p p' : Progress} {session : Session} {cid : Uuid}
    (h : advance u (.respond message account) db p session = some (db', p'))
    (hp : ∀ cid, progressTurn p = some cid → Home db' (sender (message, account)) cid)
    (ht : progressTurn p' = some cid) : Home db' (sender (message, account)) cid := by
  cases p with
  | begun =>
    cases session with
    | first draw acked =>
      simp only [advance, firstSession] at h
      cases hopen : openCall u db draw account message with
      | error e =>
        rw [hopen, error_bind] at h
        cases h
        cases ht
      | ok r =>
        obtain ⟨o, db₁⟩ := r
        cases o with
        | answered reply =>
          rw [hopen, ok_bind] at h
          cases h
          cases Progress.acknowledged_turn ht
        | opened cid' history =>
          rw [hopen, ok_bind] at h
          cases h
          cases Progress.acknowledged_turn ht
          exact (openCall_opened hopen).2
    | raise e =>
      cases h
      cases ht
    | compose | last => cases h
  | opened cid' history =>
    cases session with
    | compose ports handoffId now acked =>
      simp only [advance, Invocation.message] at h
      split at h <;> cases h
      · cases ht
      · have hcid := Progress.acknowledged_turn ht
        exact hp cid hcid
    | raise e =>
      cases h
      cases ht
    | first | last => cases h
  | composed cid' text fb =>
    cases session with
    | last id now acked =>
      simp only [advance, Invocation.message] at h
      split at h <;> cases h
      · cases ht
      · cases Progress.acknowledged_turn ht
    | raise e =>
      cases h
      cases ht
    | first | compose => cases h
  | ended outcome => cases session <;> cases h

theorem Seated.setWeb {b : Worker.State} {n : ℕ} {c : HandoffPause.WebCall} (h : Seated s)
    (hdb : b.conversations = s.base.conversations) (hworkers : b.workers = s.base.workers)
    (hc : ∀ message account scope token p, c = .running message account scope token p →
      guarded scope = sender (message, account) ∧ progressTurn p = none) :
    Seated ((s.withBase b).setWeb n c) := by
  refine ⟨?_, ?_⟩
  · simp only [HandoffPause.State.setWeb, HandoffPause.State.withBase, hworkers]
    exact h.workers
  · intro m message account scope token p hp
    simp only [HandoffPause.State.setWeb, HandoffPause.State.withBase, hdb] at hp ⊢
    by_cases he : m = n
    · obtain ⟨hscope, hnone⟩ := hc message account scope token p (by simpa [he] using hp)
      exact ⟨hscope, fun cid hcid => by simp [hnone] at hcid⟩
    · exact h.calls m message account scope token p (by simpa [he] using hp)

theorem seated_step (hknown : SystemKnown s) (h : Seated s)
    (hs : HandoffPause.step cfg s l = some t) : Seated t := by
  have he := (system_step hknown hs).1.extends
  have hcalls : ∀ n message account scope token p,
      s.web n = .running message account scope token p →
        guarded scope = sender (message, account) ∧ ∀ cid, progressTurn p = some cid →
          Home t.base.conversations (sender (message, account)) cid := by
    intro n message account scope token p hp
    obtain ⟨hscope, hhome⟩ := h.calls n message account scope token p hp
    exact ⟨hscope, fun cid hcid => (hhome cid hcid).extends he⟩
  cases l with
  | base l =>
    obtain ⟨b, hb, rfl⟩ := Option.map_eq_some_iff.mp hs
    cases step_stepped hb with
    | refused | recorded | callback | expire => exact ⟨h.workers, hcalls⟩
    | @worker w a q db d sent locks hact hmove =>
      refine ⟨?_, hcalls⟩
      intro w' job lease hjob hlease
      by_cases hsame : w' = w
      · subst hsame
        have hlock := act_locks hact
        simp only [State.moved, Function.update_self] at hlock hjob hlease
        generalize hl : locks = locks' at hlock
        cases hlock with
        | keep hq =>
          rcases hq with hnone | ⟨hle, hj⟩
          · rw [hnone] at hlease
            cases hlease
          · exact h.workers w' job lease (hj ▸ hjob) (hle ▸ hlease)
        | grant hp hscope hfree =>
          cases hjob
          cases hlease
          unfold scopeOf at hscope
          obtain ⟨_, -, hmake⟩ := bind_ok hscope
          exact scope_make_guarded hmake
        | free hp hq =>
          rw [hq] at hlease
          cases hlease
      · simp only [State.moved, Function.update_of_ne hsame] at hjob hlease
        exact h.workers w' job lease hjob hlease
  | call n message account token reachable =>
    simp only [HandoffPause.step] at hs
    split at hs
    · cases hs
    · split at hs
      · cases hs
        exact h
      · rename_i scope hscope
        split_ifs at hs <;> cases hs
        · refine h.setWeb (b := s.base.setLock scope (some token)) rfl rfl ?_
          rintro message' account' scope' token' p hc
          cases hc
          unfold Invocation.scope at hscope
          obtain ⟨_, -, hmake⟩ := bind_ok hscope
          exact ⟨scope_make_guarded hmake, rfl⟩
        · exact h
  | session n session =>
    simp only [HandoffPause.step] at hs
    split at hs
    · cases hs
    · rename_i message account scope token p hweb
      split at hs
      · cases hs
      · rename_i db p' hadv
        cases hs
        refine ⟨h.workers, ?_⟩
        intro m message' account' scope' token' q hq
        by_cases hsame : m = n
        · have hrun : HandoffPause.WebCall.running message account scope token p' =
              .running message' account' scope' token' q := by
            simpa [HandoffPause.State.setWeb, hsame] using hq
          cases hrun
          obtain ⟨hscope, hhome⟩ := hcalls n message account scope token p hweb
          exact ⟨hscope, fun cid hcid => advance_home hadv hhome hcid⟩
        · refine hcalls m message' account' scope' token' q ?_
          simpa [HandoffPause.State.setWeb, HandoffPause.State.withBase, hsame] using hq
  | leave n reachable =>
    simp only [HandoffPause.step] at hs
    split at hs
    · cases hs
      refine h.setWeb ?_ ?_ fun _ _ _ _ _ hidle => by cases hidle
      · split_ifs <;> rfl
      · split_ifs <;> rfl
    · cases hs
  | crash n =>
    cases hs
    exact h.setWeb (b := s.base) rfl rfl fun _ _ _ _ _ hidle => by cases hidle

/-- Who has a turn open holds the lock of its conversation. -/
theorem turn_held (hknown : SystemKnown s) (h : Seated s) {i : Process} {cid : Uuid}
    (hi : turnOf s i = some cid) : ∃ scope token, holding s i = some (scope, token) ∧
      Home s.base.conversations (guarded scope) cid := by
  cases i with
  | inl w =>
    have hworker : ∀ job lease, (s.base.workers w).job = some job →
        leaseOf (s.base.workers w) = some lease → job.conversationRecordId = cid →
        ∃ scope token, holding s (.inl w) = some (scope, token) ∧
          Home s.base.conversations (guarded scope) cid := by
      intro job lease hjob hlease hcid
      refine ⟨lease.scope, lease.token, by simp [holding, phaseSeat, hlease], ?_⟩
      rw [h.workers w job lease hjob hlease, ← hcid]
      exact (hknown.base.jobs w job hjob).conversation
    simp only [turnOf] at hi
    cases hp : s.base.workers w with
    | opened job lease history | composed job lease text fb =>
      rw [hp] at hi
      exact hworker job lease (by rw [hp]; rfl) (by rw [hp]; rfl) (Option.some.inj hi)
    | _ =>
      rw [hp] at hi
      cases hi
  | inr n =>
    simp only [turnOf] at hi
    cases hp : s.web n with
    | idle =>
      rw [hp] at hi
      cases hi
    | running message account scope token p =>
      rw [hp] at hi
      obtain ⟨hscope, hhome⟩ := h.calls n message account scope token p hp
      refine ⟨scope, token, by simp [holding, seatOf, hp], ?_⟩
      rw [hscope]
      exact hhome cid hi

end Seats

section Turns
variable {s t : HandoffPause.State} {l : HandoffPause.Label} {schedule : List HandoffPause.Label}

/-- What a run keeps while leases last. -/
structure Ordered (s : HandoffPause.State) : Prop where
  known : SystemKnown s
  seated : Seated s
  exclusive : (lockView s).Exclusive

theorem ordered_start : Ordered systemStart where
  known := system_start
  seated := {
    workers := fun _ _ _ hj => by cases hj
    calls := fun _ _ _ _ _ _ hp => by cases hp }
  exclusive := by
    refine ⟨?_, ?_⟩
    · rintro (w | n) k token hi <;> cases hi
    · rintro (w | n) j k token token' hi <;> cases hi

theorem ordered_step (h : Ordered s) (hlast : LeasesLast s l)
    (hs : HandoffPause.step cfg s l = some t) : Ordered t :=
  ⟨(system_step h.known hs).2, seated_step h.known h.seated hs,
    (lock_step hs hlast).exclusive h.exclusive⟩

theorem ordered_run (h : Ordered s) (hlast : Along (HandoffPause.step cfg) LeasesLast s schedule)
    (hrun : exec (HandoffPause.step cfg) s schedule = some t) : Ordered t :=
  exec_invariant_along (fun _ _ _ hi hl hs => ordered_step hi hl hs) h hlast hrun

/-- Two turns of one conversation are one turn. -/
theorem Ordered.alone (h : Ordered s) {i j : Process} {cid : Uuid} (hi : turnOf s i = some cid)
    (hj : turnOf s j = some cid) : i = j := by
  obtain ⟨scope, token, hheld, c, hc, hid, hident⟩ := turn_held h.known h.seated hi
  obtain ⟨scope', token', hheld', c', hc', hid', hident'⟩ := turn_held h.known h.seated hj
  have hsame := unique_eq h.known.base.tables.constraints.conversation_id hc hc'
    (congrArg some rfl) (congrArg some (hid'.trans hid.symm))
  have hscope : scope = scope' := guarded_injective (hident.symm.trans (hsame ▸ hident'))
  exact h.exclusive.alone i j scope token token' hheld (hscope ▸ hheld')

end Turns

section Samples

def expires : HandoffPause.Label → Bool
  | .base (.expire _) => true
  | _ => false

/-- In a run without expiry all leases last. -/
theorem leasesLast_along {s : HandoffPause.State} {schedule : List HandoffPause.Label}
    (h : ∀ l ∈ schedule, expires l = false) :
    Along (HandoffPause.step cfg) LeasesLast s schedule := by
  induction schedule generalizing s with
  | nil => trivial
  | cons l schedule ih =>
    obtain ⟨hl, hrest⟩ := List.forall_mem_cons.mp h
    refine ⟨?_, fun t _ => ih hrest⟩
    unfold LeasesLast
    split
    · cases hl
    · trivial

/-- While the visitor's second turn is open, a webhook delivers a message, and another call
for the same visitor finds the conversation busy. -/
def crowdSchedule : List HandoffPause.Label :=
  [.base (.ingest (fun _ => ⟨7, 8, 2, 2⟩) [pickMessage]), .call 1 hello "local" 10 true]

set_option maxRecDepth 10000 in
theorem exec_crowd :
    (exec (HandoffPause.step sampleConfig) systemStart helloSchedule).bind (fun s =>
      (exec (HandoffPause.step sampleConfig) s crowdSchedule).map fun t =>
        (turnOf s (.inr 0), turnOf t (.inr 0), (historyOf t (.inr 0)).map fun h => h.2.length,
          decide (Along (HandoffPause.step sampleConfig)
            (fun u _ => turnOf u (.inr 0) = some 11) s crowdSchedule))) =
      some (some 11, some 11, some 3, true) := by
  decide

/-- The second turn before and after the crowd. -/
theorem crowd_runs : ∃ s t history,
    exec (HandoffPause.step sampleConfig) systemStart helloSchedule = some s ∧
      exec (HandoffPause.step sampleConfig) s crowdSchedule = some t ∧
      turnOf t (.inr 0) = some 11 ∧ historyOf t (.inr 0) = some (11, history) ∧
      history.length = 3 ∧
      Along (HandoffPause.step sampleConfig) (fun u _ => turnOf u (.inr 0) = some 11) s
        crowdSchedule := by
  obtain ⟨s, hs, hrest⟩ := Option.bind_eq_some_iff.mp exec_crowd
  obtain ⟨t, ht, he⟩ := Option.map_eq_some_iff.mp hrest
  simp only [Prod.mk.injEq] at he
  obtain ⟨-, hturn, hhistory, hopen⟩ := he
  obtain ⟨⟨cid, history⟩, hh, hlength⟩ := Option.map_eq_some_iff.mp hhistory
  have hcid : cid = 11 := Option.some.inj ((historyOf_turn hh).symm.trans hturn)
  exact ⟨s, t, history, hs, ht, hturn, hcid ▸ hh, hlength, of_decide_eq_true hopen⟩

variable {s t : HandoffPause.State} {schedule : List HandoffPause.Label}

/-- Turns of a conversation exclude each other: whatever workers and calls of `respond` run
at the same time, as long as no lock runs out under its holder, a conversation has at most
one open turn, and Redis stores the token of its process. -/
theorem turns_exclusive (cfg : Config)
    (hrun : exec (HandoffPause.step cfg) systemStart schedule = some t)
    (hlast : Along (HandoffPause.step cfg) LeasesLast systemStart schedule) {i : Process}
    {cid : Uuid} (hi : turnOf t i = some cid) :
    (∀ j, turnOf t j = some cid → j = i) ∧
      ∃ scope token, holding t i = some (scope, token) ∧ t.base.locks scope = some token ∧
        Home t.base.conversations (guarded scope) cid := by
  have h := ordered_run ordered_start hlast hrun
  obtain ⟨scope, token, hheld, hhome⟩ := turn_held h.known h.seated hi
  have hlock := h.exclusive.held i scope token hheld
  exact ⟨fun j hj => h.alone hj hi, scope, token, hheld, hlock, hhome⟩

theorem sample_exclusive : ∃ t,
    exec (HandoffPause.step sampleConfig) systemStart (helloSchedule ++ crowdSchedule) = some t ∧
      turnOf t (.inr 0) = some 11 ∧ (∀ j, turnOf t j = some 11 → j = .inr 0) ∧
      ∃ scope token, holding t (.inr 0) = some (scope, token) ∧
        t.base.locks scope = some token ∧ Home t.base.conversations (guarded scope) 11 := by
  obtain ⟨s, t, -, hs, ht, hturn, -⟩ := crowd_runs
  have hrun := exec_append.mpr ⟨s, hs, ht⟩
  exact ⟨t, hrun, hturn, turns_exclusive sampleConfig hrun (leasesLast_along (by decide)) hturn⟩

end Samples

end Piki.System
