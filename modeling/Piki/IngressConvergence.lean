import Piki.IngressMessages
import Piki.IngressStatuses
import Piki.Transition

/-! Repeated deliveries of one batch. A run of `ingest` is its transactions, one by one,
and may stop between any two of them; results of attempts and claims of the worker are
committed in between. -/
namespace Piki.IngressConvergence
open Table Transition Ingress IngressMessages IngressStatuses

/-- What the run in progress has counted. -/
structure Progress where
  persisted : List PersistStatus
  statuses : List CallbackApplyStatus
  deriving DecidableEq, Repr

structure State where
  tables : Tables
  run : Option Progress
  deriving DecidableEq, Repr

/-- A run starts with its message transaction. It ends when a transaction raises, when
the process dies, or when every callback of the batch is applied. -/
inductive Label
  | messages (draws : ℕ → Draw)
  | callback
  | abort
  | finalize (now : Time) (attemptId : Uuid) (result : DeliveryResult)
  | claimNext (now : Time) (claimTimeoutSeconds : ℕ) (locked : List Uuid)

/-- Steps that belong to no run. -/
def Label.external : Label → Bool
  | .finalize .. | .claimNext .. => true
  | _ => false

instance (r : DeliveryResult) : Decidable r.FromAdapter :=
  inferInstanceAs (Decidable (_ ∨ _))

def claimed (db : ConversationTables) (now : Time) (claimTimeoutSeconds : ℕ) (locked : List Uuid) :
    ConversationTables :=
  match MessageProcessingStore.claimNext db now claimTimeoutSeconds locked with
  | .error _ => db
  | .ok (_, db) => db

/-- The message transaction and the calls to the deduplicator after its commit. -/
def recordBatch (draws : ℕ → Draw) (db : Tables) (messages : List InboundMessage) : State :=
  match recordMessages draws db.conversations messages with
  | .error _ => ⟨db, none⟩
  | .ok (persisted, conversations) =>
    match messages.mapM claimDedup with
    | .error _ => ⟨⟨conversations, db.deliveries⟩, none⟩
    | .ok _ => ⟨⟨conversations, db.deliveries⟩, some ⟨persisted, []⟩⟩

/-- The transaction of one callback. -/
def applyNext (db : Tables) (run : Progress) (callback : MetaStatusUpdate) : State :=
  match applyStatus db.deliveries callback with
  | .error _ => ⟨db, none⟩
  | .ok (status, deliveries) =>
    ⟨⟨db.conversations, deliveries⟩, some ⟨run.persisted, run.statuses ++ [status]⟩⟩

def step (events : MetaWebhookEvents) (s : State) : Label → Option State
  | .messages draws =>
    match s.run with
    | none => some (recordBatch draws s.tables events.messages)
    | some _ => none
  | .callback =>
    match s.run with
    | none => none
    | some run => (events.statuses[run.statuses.length]?).map (applyNext s.tables run)
  | .abort => some ⟨s.tables, none⟩
  | .finalize now attemptId result =>
    if result.FromAdapter then
      some { s with tables :=
        ⟨s.tables.conversations, finalized s.tables.deliveries now attemptId result⟩ }
    else none
  | .claimNext now claimTimeoutSeconds locked =>
    some { s with tables :=
      ⟨claimed s.tables.conversations now claimTimeoutSeconds locked, s.tables.deliveries⟩ }

/-- What the run returns once every callback is applied. -/
def State.returned (events : MetaWebhookEvents) (s : State) : Option WebhookIngestResult :=
  s.run.bind fun run =>
    if run.statuses.length = events.statuses.length then
      some (tally run.persisted run.statuses)
    else none

/-- What the schema and the transactions of the repository guarantee of the tables. -/
structure Valid (db : Tables) : Prop where
  conversations : IngressMessages.Valid db.conversations
  deliveries : Recorded db.deliveries

theorem claimed_valid {db : ConversationTables} (hv : IngressMessages.Valid db) (now : Time)
    (timeout : ℕ) (locked : List Uuid) :
    IngressMessages.Valid (claimed db now timeout locked) ∧
      contents (claimed db now timeout locked) = contents db := by
  unfold claimed
  cases hc : MessageProcessingStore.claimNext db now timeout locked with
  | error e => exact ⟨hv, rfl⟩
  | ok r => exact claimNext_contents hv hc

theorem count_persisted (statuses : List PersistStatus) :
    statuses.count .created + statuses.count .duplicate = statuses.length := by
  induction statuses with
  | nil => rfl
  | cons status statuses ih =>
    cases status <;> simp <;> omega

theorem count_statuses {statuses : List CallbackApplyStatus}
    (h : ∀ status ∈ statuses, status ≠ .missingAttempt) :
    statuses.count .applied + statuses.count .duplicate + statuses.count .ignoredRegression =
      statuses.length := by
  induction statuses with
  | nil => rfl
  | cons status statuses ih =>
    obtain ⟨hs, hrest⟩ := List.forall_mem_cons.mp h
    have := ih hrest
    cases status with
    | applied | duplicate | ignoredRegression => simp; omega
    | missingAttempt => exact absurd rfl hs

section Batch
variable {events : MetaWebhookEvents} {base : Tables} {s t : State}

/-- The run got past its message transaction, so any other run of the batch would. -/
structure Running (events : MetaWebhookEvents) (base : Tables) (s : State) (run : Progress) :
    Prop where
  stored : contents s.tables.conversations = absorb (contents base.conversations) events.messages
  recordable : ∀ m ∈ events.messages, Recordable m
  claimable : ∃ units, events.messages.mapM claimDedup = .ok units
  persisted : run.persisted.length = events.messages.length
  counted : ∀ status ∈ run.statuses, status ≠ .missingAttempt

/-- `base` is what the external steps alone would have left. The messages of the batch
are stored all or not at all, and its callbacks are applied up to some position that
the run in progress has not passed. -/
structure Tracks (events : MetaWebhookEvents) (base : Tables) (s : State) : Prop where
  valid : Valid base
  conversations : IngressMessages.Valid s.tables.conversations
  stored : contents s.tables.conversations = contents base.conversations ∨
    contents s.tables.conversations = absorb (contents base.conversations) events.messages
  applied : ∃ k d statuses, k ≤ events.statuses.length ∧
    applyStatuses base.deliveries (events.statuses.take k) = (d, .ok statuses) ∧
    Alike s.tables.deliveries d ∧ ∀ run, s.run = some run → run.statuses.length ≤ k
  running : ∀ run, s.run = some run → Running events base s run

theorem tracks_start {db : Tables} (hv : Valid db) : Tracks events db ⟨db, none⟩ where
  valid := hv
  conversations := hv.conversations
  stored := .inl rfl
  applied := ⟨0, db.deliveries, [], Nat.zero_le _, rfl, Alike.refl _, by simp⟩
  running := by simp

theorem tracks_abort (h : Tracks events base s) : Tracks events base ⟨s.tables, none⟩ := by
  obtain ⟨k, d, statuses, hk, happlied, halike, -⟩ := h.applied
  exact ⟨h.valid, h.conversations, h.stored, ⟨k, d, statuses, hk, happlied, halike, by simp⟩,
    by simp⟩

theorem tracks_messages (h : Tracks events base s) (draws : ℕ → Draw) :
    Tracks events base (recordBatch draws s.tables events.messages) := by
  unfold recordBatch
  cases hrec : recordMessages draws s.tables.conversations events.messages with
  | error e => exact tracks_abort h
  | ok r =>
    obtain ⟨persisted, conversations⟩ := r
    obtain ⟨hvalid, hcontents, hlength⟩ := recordMessages_contents h.conversations hrec
    have hstored : contents conversations = absorb (contents base.conversations) events.messages := by
      rw [hcontents]
      rcases h.stored with hs | hs
      · rw [hs]
      · rw [hs, absorb_absorb]
    obtain ⟨k, d, statuses, hk, happlied, halike, -⟩ := h.applied
    cases hdedup : events.messages.mapM claimDedup with
    | error e =>
      exact ⟨h.valid, hvalid, .inr hstored, ⟨k, d, statuses, hk, happlied, halike, by simp⟩,
        by simp⟩
    | ok units =>
      refine ⟨h.valid, hvalid, .inr hstored, ⟨k, d, statuses, hk, happlied, halike, ?_⟩, ?_⟩
      · rintro run hrun
        cases hrun
        exact Nat.zero_le k
      · rintro run hrun
        cases hrun
        exact ⟨hstored, recordMessages_fits hrec, ⟨units, hdedup⟩, hlength, by simp⟩

/-- A callback that an earlier run applied is a duplicate; the first one that no run
applied extends the applied prefix. -/
theorem tracks_callback (h : Tracks events base s) {run : Progress} (hrun : s.run = some run)
    {callback : MetaStatusUpdate} (hget : events.statuses[run.statuses.length]? = some callback) :
    Tracks events base (applyNext s.tables run callback) := by
  obtain ⟨hlt, hcallback⟩ := List.getElem?_eq_some_iff.mp hget
  obtain ⟨k, d, statuses, hk, happlied, halike, hpos⟩ := h.applied
  have hpos := hpos run hrun
  have hrunning := h.running run hrun
  unfold applyNext
  cases ha : applyStatus s.tables.deliveries callback with
  | error e => exact tracks_abort h
  | ok r =>
    obtain ⟨status, deliveries⟩ := r
    have hnext : Running events base ⟨⟨s.tables.conversations, deliveries⟩,
        some ⟨run.persisted, run.statuses ++ [status]⟩⟩ ⟨run.persisted, run.statuses ++ [status]⟩ := by
      refine ⟨hrunning.stored, hrunning.recordable, hrunning.claimable, hrunning.persisted, ?_⟩
      intro x hx
      rcases List.mem_append.mp hx with hx | hx
      · exact hrunning.counted x hx
      · rw [List.mem_singleton.mp hx]
        exact applyStatus_counted ha
    refine ⟨h.valid, h.conversations, h.stored, ?_, ?_⟩
    · by_cases hlast : run.statuses.length < k
      · have hmem : callback ∈ events.statuses.take k := by
          rw [List.mem_take_iff_getElem]
          exact ⟨run.statuses.length, by omega, hcallback⟩
        have hdup := (((applyStatuses_settled happlied).2 callback hmem).alike halike.symm).duplicate
        rw [hdup] at ha
        cases ha
        refine ⟨k, d, statuses, hk, happlied, halike, ?_⟩
        rintro run' hrun'
        cases hrun'
        simpa using hlast
      · have hlength : run.statuses.length = k := by omega
        subst hlength
        obtain ⟨d', hd', halike'⟩ := applyStatus_alike halike ha
        refine ⟨run.statuses.length + 1, d', statuses ++ [status], hlt, ?_, halike', ?_⟩
        · rw [List.take_add_one, hget]
          exact applyStatuses_snoc happlied hd'
        · rintro run' hrun'
          cases hrun'
          simp
    · rintro run' hrun'
      cases hrun'
      exact hnext

theorem tracks_finalize (h : Tracks events base s) (now : Time) (attemptId : Uuid)
    {result : DeliveryResult} (hresult : result.FromAdapter) :
    Tracks events ⟨base.conversations, finalized base.deliveries now attemptId result⟩
      { s with tables :=
        ⟨s.tables.conversations, finalized s.tables.deliveries now attemptId result⟩ } := by
  obtain ⟨k, d, statuses, hk, happlied, halike, hpos⟩ := h.applied
  obtain ⟨e, he, halike'⟩ := applyStatuses_finalized h.valid.deliveries now attemptId hresult happlied
  refine ⟨⟨h.valid.conversations, recorded_finalized h.valid.deliveries now attemptId hresult⟩,
    h.conversations, h.stored, ⟨k, e, statuses, hk, he, ?_, hpos⟩, ?_⟩
  · exact (finalized_alike halike now attemptId result).trans halike'.symm
  · intro run hrun
    obtain ⟨hstored, hrecordable, hclaimable, hpersisted, hcounted⟩ := h.running run hrun
    exact ⟨hstored, hrecordable, hclaimable, hpersisted, hcounted⟩

theorem tracks_claimNext (h : Tracks events base s) (now : Time) (timeout : ℕ)
    (locked : List Uuid) :
    Tracks events ⟨claimed base.conversations now timeout locked, base.deliveries⟩
      { s with tables :=
        ⟨claimed s.tables.conversations now timeout locked, s.tables.deliveries⟩ } := by
  obtain ⟨hbase, hcbase⟩ := claimed_valid h.valid.conversations now timeout locked
  obtain ⟨hs, hcs⟩ := claimed_valid h.conversations now timeout locked
  refine ⟨⟨hbase, h.valid.deliveries⟩, hs, ?_, h.applied, ?_⟩
  · rw [hcbase, hcs]
    exact h.stored
  · intro run hrun
    obtain ⟨hstored, hrecordable, hclaimable, hpersisted, hcounted⟩ := h.running run hrun
    exact ⟨by rw [hcbase, hcs]; exact hstored, hrecordable, hclaimable, hpersisted, hcounted⟩

/-- External steps move both tables; the steps of a run move only those of the history. -/
theorem tracks_step {l : Label} (h : Tracks events base s) (hs : step events s l = some t) :
    (l.external = false ∧ Tracks events base t) ∨
      (l.external = true ∧ ∃ base', step events ⟨base, none⟩ l = some ⟨base', none⟩ ∧
        Tracks events base' t) := by
  cases l with
  | messages draws =>
    cases hrun : s.run with
    | some run => simp [step, hrun] at hs
    | none =>
      simp only [step, hrun, Option.some.injEq] at hs
      exact .inl ⟨rfl, hs ▸ tracks_messages h draws⟩
  | callback =>
    cases hrun : s.run with
    | none => simp [step, hrun] at hs
    | some run =>
      simp only [step, hrun, Option.map_eq_some_iff] at hs
      obtain ⟨callback, hget, rfl⟩ := hs
      exact .inl ⟨rfl, tracks_callback h hrun hget⟩
  | abort =>
    cases hs
    exact .inl ⟨rfl, tracks_abort h⟩
  | finalize now attemptId result =>
    simp only [step] at hs
    split_ifs at hs with hresult
    cases hs
    refine .inr ⟨rfl, _, ?_, tracks_finalize h now attemptId hresult⟩
    simp only [step, hresult, if_true]
  | claimNext now timeout locked =>
    cases hs
    exact .inr ⟨rfl, _, rfl, tracks_claimNext h now timeout locked⟩

theorem tracks_run {schedule : List Label} (h : Tracks events base s)
    (hs : exec (step events) s schedule = some t) :
    ∃ base', exec (step events) ⟨base, none⟩ (schedule.filter Label.external) =
      some ⟨base', none⟩ ∧ Tracks events base' t := by
  induction schedule generalizing base s with
  | nil =>
    cases hs
    exact ⟨base, rfl, h⟩
  | cons l schedule ih =>
    obtain ⟨u, hu, hrest⟩ := exec_cons_some.mp hs
    rcases tracks_step h hu with ⟨hl, hnext⟩ | ⟨hl, base₁, hstep, hnext⟩
    · obtain ⟨base', hbase, htracks⟩ := ih hnext hrest
      exact ⟨base', by rw [List.filter_cons_of_neg (by simp [hl])]; exact hbase, htracks⟩
    · obtain ⟨base', hbase, htracks⟩ := ih hnext hrest
      refine ⟨base', ?_, htracks⟩
      rw [List.filter_cons_of_pos hl]
      exact exec_cons_some.mpr ⟨_, hstep, hbase⟩

/-- The callbacks of an uninterrupted run, from any position on. -/
theorem applyStatuses_exec {tables : Tables} {run : Progress} {d : DeliveryTables}
    {statuses : List CallbackApplyStatus} {callbacks : List MetaStatusUpdate}
    (hrest : events.statuses.drop run.statuses.length = callbacks)
    (h : applyStatuses tables.deliveries callbacks = (d, .ok statuses)) :
    exec (step events) ⟨tables, some run⟩ (List.replicate callbacks.length .callback) =
      some ⟨⟨tables.conversations, d⟩, some ⟨run.persisted, run.statuses ++ statuses⟩⟩ := by
  induction callbacks generalizing tables run statuses with
  | nil =>
    cases h
    simp
  | cons callback callbacks ih =>
    obtain ⟨status, d₁, rest, ha, htail, rfl⟩ := applyStatuses_cons_ok.mp h
    have hget : events.statuses[run.statuses.length]? = some callback := by
      rw [← List.head?_drop, hrest]
      rfl
    have hdrop : events.statuses.drop (run.statuses ++ [status]).length = callbacks := by
      rw [List.length_append, List.length_singleton, ← List.drop_drop, hrest]
      rfl
    rw [List.length_cons, List.replicate_succ, exec_cons_some]
    refine ⟨⟨⟨tables.conversations, d₁⟩, some ⟨run.persisted, run.statuses ++ [status]⟩⟩, ?_, ?_⟩
    · simp only [step, hget, Option.map_some, applyNext, ha]
    · have hexec := @ih ⟨tables.conversations, d₁⟩ ⟨run.persisted, run.statuses ++ [status]⟩ rest
        hdrop htail
      simpa using hexec

/-- `ingest` is the run that nothing interrupts. -/
theorem ingest_exec {draws : ℕ → Draw} {db after : Tables} {r : WebhookIngestResult}
    (h : ingest draws db events = (after, .ok r)) :
    ∃ t, exec (step events) ⟨db, none⟩
        (.messages draws :: List.replicate events.statuses.length .callback) = some t ∧
      t.tables = after ∧ t.returned events = some r := by
  unfold ingest at h
  cases hrec : recordMessages draws db.conversations events.messages with
  | error e => simp [hrec] at h
  | ok p =>
    obtain ⟨persisted, conversations⟩ := p
    simp only [hrec] at h
    cases hdedup : events.messages.mapM claimDedup with
    | error e => simp [hdedup] at h
    | ok units =>
      simp only [hdedup] at h
      generalize happ : applyStatuses db.deliveries events.statuses = applied at h
      obtain ⟨d, result⟩ := applied
      cases result with
      | error e => cases (Prod.mk.inj h).2
      | ok statuses =>
        cases h
        have hexec := @applyStatuses_exec events ⟨conversations, db.deliveries⟩ ⟨persisted, []⟩ _ _ _
          rfl happ
        refine ⟨_, exec_cons_some.mpr ⟨_, ?_, hexec⟩, rfl, ?_⟩
        · simp only [step, recordBatch, hrec, hdedup]
        · have hlength := applyStatuses_length happ
          simp [State.returned, hlength]

theorem step_keeps_rows {l : Label} (hl : l.external = false) (hs : step events s l = some t) :
    s.tables.conversations.messages <+: t.tables.conversations.messages := by
  cases l with
  | messages draws =>
    cases hrun : s.run with
    | some run => simp [step, hrun] at hs
    | none =>
      simp only [step, hrun, Option.some.injEq] at hs
      subst hs
      unfold recordBatch
      cases hrec : recordMessages draws s.tables.conversations events.messages with
      | error e => exact List.prefix_refl _
      | ok r =>
        obtain ⟨rows, hrows, -⟩ := recordMessages_rows hrec
        cases events.messages.mapM claimDedup <;> exact ⟨rows, hrows.symm⟩
  | callback =>
    cases hrun : s.run with
    | none => simp [step, hrun] at hs
    | some run =>
      simp only [step, hrun, Option.map_eq_some_iff] at hs
      obtain ⟨callback, -, rfl⟩ := hs
      unfold applyNext
      cases applyStatus s.tables.deliveries callback <;> exact List.prefix_refl _
  | abort =>
    cases hs
    exact List.prefix_refl _
  | finalize | claimNext => cases hl

/-- A run that returned had every message and every callback of the batch counted. -/
theorem Tracks.counts (h : Tracks events base s) {r : WebhookIngestResult}
    (hr : s.returned events = some r) :
    r.acceptedMessages + r.duplicateMessages = events.messages.length ∧
      r.acceptedStatuses + r.duplicateStatuses + r.ignoredStatuses = events.statuses.length := by
  obtain ⟨run, hrun, hr⟩ := Option.bind_eq_some_iff.mp hr
  split_ifs at hr with hlength
  cases hr
  obtain ⟨-, -, -, hpersisted, hcounted⟩ := h.running run hrun
  constructor
  · rw [← hpersisted]
    exact count_persisted run.persisted
  · rw [← hlength]
    exact count_statuses hcounted

/-- A run that returned left what one run over the tables of the external steps leaves. -/
theorem Tracks.converged (h : Tracks events base s) {r : WebhookIngestResult}
    (hr : s.returned events = some r) {draws : ℕ → Draw} (hfresh : Fresh draws base.conversations) :
    ∃ after r', ingest draws base events = (after, .ok r') ∧
      contents s.tables.conversations = contents after.conversations ∧
      Alike s.tables.deliveries after.deliveries := by
  obtain ⟨run, hrun, hr⟩ := Option.bind_eq_some_iff.mp hr
  split_ifs at hr with hlength
  obtain ⟨hstored, hrecordable, ⟨units, hdedup⟩, -, -⟩ := h.running run hrun
  obtain ⟨k, d, statuses, hk, happlied, halike, hpos⟩ := h.applied
  have hall : k = events.statuses.length := by
    have := hpos run hrun
    omega
  subst hall
  rw [List.take_length] at happlied
  obtain ⟨⟨persisted, conversations⟩, hrec⟩ := recordMessages_returns hfresh hrecordable
  obtain ⟨-, hcontents, -⟩ := recordMessages_contents h.valid.conversations hrec
  refine ⟨⟨conversations, d⟩, tally persisted statuses, ?_, hstored.trans hcontents.symm, halike⟩
  simp only [ingest, hrec, hdedup, happlied]
  rfl

end Batch

/-- Any number of runs of one batch, stopped anywhere, with results and claims in
between. A run that returns leaves the messages, attempts and events that a single run
leaves on the tables of the results and claims alone, and it counts the whole batch. A
message transaction that raises stores nothing, and no step of a run touches a stored
message. -/
theorem ingest_converges {events : MetaWebhookEvents} {db : Tables} (hv : Valid db)
    {schedule : List Label} {s : State} (h : exec (step events) ⟨db, none⟩ schedule = some s) :
    (∃ base, exec (step events) ⟨db, none⟩ (schedule.filter Label.external) = some ⟨base, none⟩ ∧
      ∀ r, s.returned events = some r →
        (∀ draws, Fresh draws base.conversations →
          ∃ after r', ingest draws base events = (after, .ok r') ∧
            contents s.tables.conversations = contents after.conversations ∧
            s.tables.deliveries.attempts = after.deliveries.attempts ∧
            s.tables.deliveries.events.Perm after.deliveries.events) ∧
        r.acceptedMessages + r.duplicateMessages = events.messages.length ∧
        r.acceptedStatuses + r.duplicateStatuses + r.ignoredStatuses = events.statuses.length) ∧
    (∀ draws e, recordMessages draws s.tables.conversations events.messages = .error e →
      ∀ t, step events s (.messages draws) = some t → t = ⟨s.tables, none⟩) ∧
    ∀ l t, l.external = false → step events s l = some t →
      s.tables.conversations.messages <+: t.tables.conversations.messages := by
  obtain ⟨base, hbase, htracks⟩ := tracks_run (tracks_start hv) h
  refine ⟨⟨base, hbase, ?_⟩, ?_, fun l t hl ht => step_keeps_rows hl ht⟩
  · intro r hr
    obtain ⟨hmessages, hstatuses⟩ := htracks.counts hr
    refine ⟨fun draws hfresh => ?_, hmessages, hstatuses⟩
    exact htracks.converged hr hfresh
  · intro draws e he t ht
    simp only [step] at ht
    split at ht
    · simpa [recordBatch, he] using ht.symm
    · cases ht

section Witness

def greeting : InboundMessage :=
  accepted (InboundMessage.make "wamid.in" .whatsapp "549" "549" .text (some "hola") 0
    [("phone_number_id", "phone")]) (by decide +kernel)

/-- A message and the statuses of two replies. -/
def batch : MetaWebhookEvents :=
  let report (providerMessageId : String) :=
    MetaStatusUpdate.make providerMessageId "phone" "549" .sent 0 none none
  ⟨[greeting], [accepted (report "wamid.1") (by decide +kernel), accepted (report "wamid.2") (by decide)]⟩

/-- The first reply was accepted, the result of the second is not stored yet. -/
def unfinished : Tables where
  conversations := .empty
  deliveries :=
    ⟨[⟨1, 1, "reply:1", some "wamid.1", .accepted, none, none, "t"⟩,
      ⟨2, 1, "reply:2", none, .pending, none, none, "t"⟩],
    [⟨1, some "wamid.1", .accepted, none, none, "t", 0⟩]⟩

def acceptedResult : DeliveryResult :=
  accepted (DeliveryResult.make .accepted (some "wamid.2") none none "t") (by decide +kernel)

def draw (n i : ℕ) : Draw := ⟨n + i, n + i, 0, 0⟩

/-- The first run meets a callback without an attempt; then the worker claims the
message, the result arrives, and the second run returns. -/
def retried : List Label :=
  [.messages (draw 10), .callback, .callback, .claimNext 5 60 [],
    .finalize 5 2 acceptedResult, .messages (draw 20), .callback, .callback]

theorem unfinished_valid : Valid unfinished where
  conversations := valid_empty
  deliveries := by
    refine ⟨?_, ?_, ?_⟩ <;> simp [unfinished, Table.Unique, DeliveryStatusEventRecord.providerState]

theorem draw_fresh (n : ℕ) : Fresh (draw n) .empty where
  conversation i c hc := by cases hc
  message i m hm := by cases hm
  conversations_ne i j hij he := hij (Nat.add_left_cancel he)
  messages_ne i j hij he := hij (Nat.add_left_cancel he)

/-- The second run reports the message and the first callback as duplicates, and leaves
what it would have left without the first. -/
theorem retried_run_converges : ∃ s base,
    exec (step batch) ⟨unfinished, none⟩ retried = some s ∧
    exec (step batch) ⟨unfinished, none⟩ (retried.filter Label.external) = some ⟨base, none⟩ ∧
    s.returned batch = some ⟨0, 1, 1, 1, 0⟩ ∧
    ∃ after r', ingest (draw 30) base batch = (after, .ok r') ∧
      contents s.tables.conversations = contents after.conversations ∧
      s.tables.deliveries.attempts = after.deliveries.attempts ∧
      s.tables.deliveries.events.Perm after.deliveries.events := by
  have hrun : (exec (step batch) ⟨unfinished, none⟩ retried).bind (State.returned batch) =
      some ⟨0, 1, 1, 1, 0⟩ := by decide
  have hempty : (exec (step batch) ⟨unfinished, none⟩ (retried.filter Label.external)).map
      (fun t => t.tables.conversations) = some .empty := by decide
  obtain ⟨s, hs, hr⟩ := Option.bind_eq_some_iff.mp hrun
  obtain ⟨⟨base, hbase, hall⟩, -, -⟩ := ingest_converges unfinished_valid hs
  have hconversations : base.conversations = .empty := by
    rw [hbase] at hempty
    exact Option.some.inj hempty
  obtain ⟨hconverged, -, -⟩ := hall _ hr
  exact ⟨s, base, hs, hbase, hr, hconverged (draw 30) (hconversations ▸ draw_fresh 30)⟩

end Witness

end Piki.IngressConvergence
