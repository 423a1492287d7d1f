import Piki.SystemOnce

/-! What a provider message id names. Under every interleaving of workers and status
callbacks, a state of a message is stored once, and a provider id belongs to one attempt,
so that no callback meets two of them. -/
namespace Piki.System
open Table Transition DeliveryStore Worker DeliveryTruth
open Callbacks (eventKey Held Reported)
variable {cfg : Config} {s t : Worker.State}

/-- Each state of a message is stored once, and open callbacks hold what they insert. -/
structure EventKeys (c : Callbacks.State) : Prop where
  states : Unique DeliveryStatusEventRecord.providerState c.tables.events
  held : Held c

/-- A callback commits an event that no committed one conflicts with. -/
theorem eventKeys_callback {c c' : Callbacks.State} {l : Callbacks.Label} (h : EventKeys c)
    (hs : Callbacks.step c l = some c') : EventKeys c' := by
  refine ⟨?_, Callbacks.held_step h.held hs⟩
  rcases callback_tables hs with he | ⟨n, callback, attempt, hn, he⟩
  · rw [he]
    exact h.states
  · rw [he, Callbacks.commitCallback_events]
    obtain ⟨-, hfresh⟩ := h.held.fresh n callback attempt hn
    refine unique_append h.states (conflict_eq_none.mpr ?_)
    intro k hk e hmem hek
    exact hfresh e hmem (hek.trans hk.symm)

/-- What the adapter reports at once is never what a callback reports later. -/
theorem result_not_reported {aid : Uuid} {now : Time} {result : DeliveryResult}
    {callback : MetaStatusUpdate} (hresult : result.FromAdapter) (hr : Reported callback) :
    (resultEvent aid now result).providerState ≠ some (eventKey callback) := by
  rcases hresult with ⟨hstatus, hpid⟩ | ⟨-, hpid⟩
  · obtain ⟨p, hp, -⟩ := truthy_some hpid
    intro he
    simp only [resultEvent, DeliveryStatusEventRecord.providerState, hp, Option.map_some, hstatus,
      Option.some.injEq] at he
    exact (reported_state hr).2.1 (congrArg Prod.snd he).symm
  · simp [resultEvent, DeliveryStatusEventRecord.providerState, hpid]

theorem eventKeys_finalize {c : Callbacks.State} {d : DeliveryTables} {now : Time} {aid : Uuid}
    {result : DeliveryResult} (h : EventKeys c) (hreads : Reads c) (hresult : result.FromAdapter)
    (hf : finalize c.tables now aid result = .ok ((), d)) : EventKeys (c.withTables d) := by
  obtain ⟨-, hconflict, rfl⟩ := finalize_ok hf
  refine ⟨unique_append h.states hconflict, Callbacks.held_withTables h.held rfl ?_⟩
  intro n callback attempt hn
  exact result_not_reported hresult (hreads n callback attempt (.inr hn)).1

/-- Tables with the same events keep the keys. -/
theorem EventKeys.withTables {c : Callbacks.State} {d : DeliveryTables} (h : EventKeys c)
    (he : d.events = c.tables.events) : EventKeys (c.withTables d) := by
  refine ⟨?_, ?_, h.held.exclusive⟩
  · simp only [Callbacks.State.withTables, he]
    exact h.states
  · intro n callback attempt hn
    obtain ⟨hk, hfresh⟩ := h.held.fresh n callback attempt hn
    refine ⟨hk, fun e hmem => hfresh e ?_⟩
    simpa only [Callbacks.State.withTables, he] using hmem

theorem move_eventKeys {a : Action} {p q : Phase} {db : ConversationTables} {d : DeliveryTables}
    {sent : List DeliveryRequest} (h : Move cfg s a p q db d sent) (hk : EventKeys s.deliveries)
    (hreads : Reads s.deliveries) (hp : p.Honest s.deliveries.tables) :
    EventKeys (s.deliveries.withTables d) := by
  cases h with
  | lapse | claim | acquire | stored | fresh | compose | record | release | invoke | receive
  | settle | fail => exact hk.withTables rfl
  | created hrequest hc hq | replayed hrequest hc hq =>
    refine hk.withTables ?_
    rcases claim_ok hc with ⟨-, rfl, -⟩ | ⟨-, -, -, -, rfl⟩ <;> rfl
  | finalize hc hq => exact eventKeys_finalize hk hreads (hp.result _ _ _ rfl) hc

theorem eventKeys_step {l : Worker.Label} (h : OnceInv s) (hk : EventKeys s.deliveries)
    (hs : Worker.step cfg s l = some t) : EventKeys t.deliveries := by
  cases step_stepped hs with
  | refused | recorded | expire => exact hk
  | callback hc => exact eventKeys_callback hk hc
  | @worker w _ _ _ _ _ _ _ hmove =>
    exact move_eventKeys hmove hk h.honest.reads (h.honest.phases w)

/-- Calls of `respond` do not touch the deliveries. -/
theorem call_deliveries {s t : HandoffPause.State} {l : HandoffPause.Label}
    (hs : HandoffPause.step cfg s l = some t) (hl : ∀ b, l ≠ .base b) :
    t.base.deliveries = s.base.deliveries := by
  cases l with
  | base l => exact absurd rfl (hl l)
  | call n message account token reachable =>
    simp only [HandoffPause.step] at hs
    split at hs
    · cases hs
    · split at hs
      · cases hs
        rfl
      · split_ifs at hs <;> cases hs <;> rfl
  | session n session =>
    simp only [HandoffPause.step] at hs
    split at hs
    · cases hs
    · split at hs <;> cases hs
      rfl
  | leave n reachable =>
    simp only [HandoffPause.step] at hs
    split at hs
    · cases hs
      split_ifs <;> rfl
    · cases hs
  | crash n =>
    cases hs
    rfl

/-- What the deliveries of a reachable state keep. -/
structure Delivering (s : HandoffPause.State) : Prop where
  once : OnceInv s.base
  keys : EventKeys s.base.deliveries

theorem delivering_step {s t : HandoffPause.State} {l : HandoffPause.Label} (h : Delivering s)
    (hs : HandoffPause.step cfg s l = some t) : Delivering t := by
  refine ⟨system_once_step h.once hs, ?_⟩
  by_cases hl : ∃ b, l = .base b
  · obtain ⟨l, rfl⟩ := hl
    obtain ⟨b, hb, rfl⟩ := Option.map_eq_some_iff.mp hs
    exact eventKeys_step h.once h.keys hb
  · rw [call_deliveries hs fun b he => hl ⟨b, he⟩]
    exact h.keys

theorem delivering_start : Delivering systemStart where
  once := once_start
  keys := ⟨unique_nil _, fun _ _ _ hn => (by cases hn), fun _ _ _ hk => (by cases hk)⟩

theorem delivering_run {s t : HandoffPause.State} {schedule : List HandoffPause.Label}
    (h : Delivering s) (hrun : exec (HandoffPause.step cfg) s schedule = some t) : Delivering t :=
  exec_invariant (fun _ _ _ hi hs => delivering_step hi hs) h hrun

/-- Two attempts under one provider id would have stored their acceptance twice. -/
theorem provider_attempt {d : DeliveryTables} (hu : UniqueAttempts d) (hs : Sound d)
    (hk : Unique DeliveryStatusEventRecord.providerState d.events) {a b : DeliveryAttemptRecord}
    (ha : a ∈ d.attempts) (hb : b ∈ d.attempts) {p : String}
    (hap : a.providerMessageId = some p) (hbp : b.providerMessageId = some p) : a = b := by
  have haccepted : ∀ x ∈ d.attempts, x.providerMessageId = some p →
      HasEvent d x.id p .accepted := by
    intro x hx hxp
    rcases hs x hx with ⟨hnone, -⟩ | ⟨-, q, hq, -, hevent, -⟩
    · rw [hnone] at hxp
      cases hxp
    · cases hq.symm.trans hxp
      exact hevent
  obtain ⟨e, he, hea, hep, hes⟩ := haccepted a ha hap
  obtain ⟨f, hf, hfb, hfp, hfs⟩ := haccepted b hb hbp
  have hstate : ∀ x : DeliveryStatusEventRecord, x.providerMessageId = some p →
      x.status = .accepted → x.providerState = some (p, .accepted) := by
    intro x hx hst
    simp [DeliveryStatusEventRecord.providerState, hx, hst]
  have hsame := unique_eq hk he hf (hstate e hep hes) (hstate f hfp hfs)
  have hid : a.id = b.id := by rw [← hea, hsame, hfb]
  exact Callbacks.attempt_eq hu.id ha hb hid

/-- Where a key tells the rows apart, so does every column without two rows of one value. -/
theorem unique_of_key {ρ κ ι : Type*} {key : ρ → Option κ} {column : ρ → Option ι} {rows : List ρ}
    (hu : Unique key rows) (hkey : ∀ a ∈ rows, (key a).isSome = true)
    (h : ∀ a ∈ rows, ∀ b ∈ rows, ∀ k, column a = some k → column b = some k → a = b) :
    Unique column rows := by
  induction rows with
  | nil => exact unique_nil _
  | cons r rows ih =>
    have htail : Unique column rows := ih (unique_tail hu)
      (fun a ha => hkey a (List.mem_cons_of_mem _ ha))
      fun a ha b hb => h a (List.mem_cons_of_mem _ ha) b (List.mem_cons_of_mem _ hb)
    cases hr : column r with
    | none => simpa [Table.Unique, hr] using htail
    | some k =>
      simp only [Table.Unique, List.filterMap_cons, hr, List.nodup_cons]
      refine ⟨?_, htail⟩
      intro hmem
      obtain ⟨x, hx, hxk⟩ := List.mem_filterMap.mp hmem
      obtain ⟨i, hi⟩ := Option.isSome_iff_exists.mp (hkey r List.mem_cons_self)
      refine unique_head hu hi hx ?_
      rw [← h r List.mem_cons_self x (List.mem_cons_of_mem _ hx) k hr hxk]
      exact hi

/-- A select by a unique column finds the row, if there is one. -/
theorem selectAttempt_unique {d : DeliveryTables}
    (hu : Unique DeliveryAttemptRecord.providerMessageId d.attempts) (p : String) :
    selectAttempt d p = .ok (d.attempts.find? fun a => a.providerMessageId = some p) := by
  have hcount := unique_count hu (q := fun a => a.providerMessageId = some p)
    (fun a ha => of_decide_eq_true ha)
  rw [List.countP_eq_length_filter] at hcount
  rw [← List.head?_filter, selectAttempt]
  generalize d.attempts.filter (fun a => a.providerMessageId = some p) = rows at hcount
  match rows with
  | [] => rfl
  | [a] => rfl
  | a :: b :: rest => simp at hcount

theorem Delivering.providers {s : HandoffPause.State} (h : Delivering s) :
    Unique DeliveryAttemptRecord.providerMessageId s.base.deliveries.tables.attempts :=
  unique_of_key h.once.honest.once.attempts.id (fun _ _ => rfl) fun _ ha _ hb _ hap hbp =>
    provider_attempt h.once.honest.once.attempts h.once.honest.sound h.keys.states ha hb hap hbp

/-- In every reachable state of the whole system a status of a provider message is stored
once, a provider message id belongs to one attempt, and the select of a status callback
returns that attempt instead of raising. -/
theorem callbacks_unambiguous (cfg : Config) {schedule : List HandoffPause.Label}
    {t : HandoffPause.State}
    (hrun : exec (HandoffPause.step cfg) systemStart schedule = some t) :
    Unique DeliveryStatusEventRecord.providerState t.base.deliveries.tables.events ∧
      Unique DeliveryAttemptRecord.providerMessageId t.base.deliveries.tables.attempts ∧
      ∀ p, selectAttempt t.base.deliveries.tables p =
        .ok (t.base.deliveries.tables.attempts.find? fun a => a.providerMessageId = some p) := by
  have h := delivering_run delivering_start hrun
  exact ⟨h.keys.states, h.providers, selectAttempt_unique h.providers⟩

theorem sample_unambiguous : ∃ t,
    exec (HandoffPause.step sampleConfig) systemStart (personSchedule ++ visitSchedule) = some t ∧
      (summary t).sent = ["reply:wamid.1"] ∧
      Unique DeliveryStatusEventRecord.providerState t.base.deliveries.tables.events ∧
      Unique DeliveryAttemptRecord.providerMessageId t.base.deliveries.tables.attempts ∧
      ∀ p, selectAttempt t.base.deliveries.tables p =
        .ok (t.base.deliveries.tables.attempts.find? fun a => a.providerMessageId = some p) := by
  obtain ⟨t, ht, hsummary⟩ := Option.map_eq_some_iff.mp exec_visitSchedule
  exact ⟨t, ht, by rw [hsummary]; rfl, callbacks_unambiguous sampleConfig ht⟩

end Piki.System
