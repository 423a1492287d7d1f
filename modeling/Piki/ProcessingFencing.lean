import Piki.Conversations
import Piki.Processing
import Piki.Transition

/-! The outbox shared by any number of workers. A worker keeps the ticket of its
claim for as long as it likes, so late completions meet rows that were claimed
again after the claim timeout. -/
namespace Piki.Outbox
open Table Transition MessageProcessingStore ConversationRepository

structure State where
  tables : ConversationTables
  tickets : List ClaimedInbound
  deriving DecidableEq, Repr

/-- How the holder of a ticket ends its claim. -/
inductive Settlement
  | complete
  | fail (now : Time) (errorCode : ErrorCode) (retry : Bool)
  deriving DecidableEq, Repr

def Settlement.run (q : Settlement) (db : ConversationTables) (messageRecordId : Uuid) :
    Except Failure (Unit × ConversationTables) :=
  match q with
  | .complete => MessageProcessingStore.complete db messageRecordId
  | .fail now errorCode retry => MessageProcessingStore.fail db now messageRecordId errorCode retry

inductive Label
  | enqueue (draw : Draw) (account : String) (message : InboundMessage) (traceId : String)
  | claim (now : Time) (timeout : ℕ) (locked : List Uuid)
  | settle (ticket : ClaimedInbound) (q : Settlement)
  deriving DecidableEq, Repr

/-- One committed or rolled-back transaction of one worker. -/
def step (s : State) : Label → Option State
  | .enqueue draw account message traceId =>
    match recordInbound s.tables draw account message traceId true with
    | .ok (_, db) => some { s with tables := db }
    | .error _ => some s
  | .claim now timeout locked =>
    match claimNext s.tables now timeout locked with
    | .ok (some job, db) => some ⟨db, job :: s.tickets⟩
    | .ok (none, db) => some { s with tables := db }
    | .error _ => some s
  | .settle ticket q =>
    if ticket ∈ s.tickets then
      match q.run s.tables ticket.messageRecordId with
      | .ok (_, db) => some { s with tables := db }
      | .error _ => some s
    else none

/-- The ticket's claim is the one in progress. -/
def Current (s : State) (ticket : ClaimedInbound) : Prop :=
  ∃ m ∈ s.tables.messages, m.id = ticket.messageRecordId ∧
    m.processingStatus = some .processing ∧ m.processingAttempts = ticket.attempts

/-- Ending a claim that is not in progress raises and leaves every row alone. -/
def Fenced (s : State) : Label → Prop
  | .settle ticket q => ticket ∈ s.tickets → ¬ Current s ticket →
      (∃ e, q.run s.tables ticket.messageRecordId = .error e) ∧
        step s (.settle ticket q) = some s
  | _ => True

/-- The row is not being processed under a later claim. -/
def NoLaterClaim (s : State) : Label → Prop
  | .settle ticket _ => ticket ∈ s.tickets → ∀ m ∈ s.tables.messages,
      m.id = ticket.messageRecordId → m.processingStatus = some .processing →
        ¬ ticket.attempts < m.processingAttempts
  | _ => True

instance (s : State) : (l : Label) → Decidable (NoLaterClaim s l)
  | .enqueue _ _ _ _ | .claim _ _ _ => isTrue trivial
  | .settle ticket _ => inferInstanceAs (Decidable (ticket ∈ s.tickets → ∀ m ∈ s.tables.messages,
      m.id = ticket.messageRecordId → m.processingStatus = some .processing →
        ¬ ticket.attempts < m.processingAttempts))

/-- Every ticket names a stored row that was claimed at least that often. -/
structure Inv (s : State) : Prop where
  constraints : s.tables.Constraints
  tickets : ∀ j ∈ s.tickets, ∃ m ∈ s.tables.messages,
    m.id = j.messageRecordId ∧ j.attempts ≤ m.processingAttempts

def start (db : ConversationTables) : State := ⟨db, []⟩

theorem inv_start {db : ConversationTables} (h : db.Constraints) : Inv (start db) :=
  ⟨h, by simp [start]⟩

theorem Settlement.run_eq (q : Settlement) : ∃ status errorCode availableAt, ∀ db id,
    q.run db id = transition db id status errorCode availableAt := by
  cases q with
  | complete => exact ⟨.completed, none, none, fun _ _ => rfl⟩
  | fail now errorCode retry =>
    cases retry with
    | true => exact ⟨.pending, some errorCode, some (now + 1000000), fun _ _ => rfl⟩
    | false => exact ⟨.failed, some errorCode, none, fun _ _ => rfl⟩

/-- Ending a claim raises exactly when no claim of the row is in progress. -/
theorem Settlement.raises_iff (q : Settlement) (db : ConversationTables) (id : Uuid) :
    (∃ e, q.run db id = .error e) ↔
      ∀ m ∈ db.messages, m.id = id → m.processingStatus ≠ some .processing := by
  obtain ⟨status, errorCode, availableAt, hq⟩ := q.run_eq
  rw [hq]
  exact transition_raises_iff

/-- Rewriting rows in place without touching ids or lowering the claim counter. -/
theorem inv_update {s : State} {p : MessageRecord → Bool} {f : MessageRecord → MessageRecord}
    (hf : ∀ m, (f m).id = m.id ∧ (f m).externalMessageId = m.externalMessageId ∧
      m.processingAttempts ≤ (f m).processingAttempts) (h : Inv s) :
    Inv { s with tables := { s.tables with messages := updateWhere p f s.tables.messages } } := by
  refine ⟨⟨h.constraints.conversation_id, h.constraints.conversation_identity,
    unique_updateWhere (fun m _ => by simp [(hf m).1]) h.constraints.message_id,
    unique_updateWhere (fun m _ => (hf m).2.1) h.constraints.message_external⟩, ?_⟩
  intro j hj
  obtain ⟨m, hm, hid, hle⟩ := h.tickets j hj
  refine ⟨if p m then f m else m, mem_updateWhere.mpr ⟨m, hm, rfl⟩, ?_⟩
  split_ifs
  · exact ⟨(hf m).1.trans hid, hle.trans (hf m).2.2⟩
  · exact ⟨hid, hle⟩

theorem inv_enqueue {s : State} {db : ConversationTables} {draw : Draw} {account traceId : String}
    {message : InboundMessage} {p : PersistedInbound} (h : Inv s)
    (hr : recordInbound s.tables draw account message traceId true = .ok (p, db)) :
    Inv { s with tables := db } := by
  refine ⟨recordInbound_constraints h.constraints hr, ?_⟩
  intro j hj
  obtain ⟨m, hm, hjm⟩ := h.tickets j hj
  refine ⟨m, ?_, hjm⟩
  obtain ⟨db₁, hup, hins⟩ := recordInbound_ok hr
  rcases hins with ⟨-, rfl, -⟩ | ⟨-, -, -, rfl⟩
  · rcases upsertConversation_ok hup with ⟨rfl, -⟩ | ⟨-, -, -, rfl⟩ <;> exact hm
  · exact List.mem_append_left _ hm

theorem inv_claim {s : State} {db : ConversationTables} {now : Time} {timeout : ℕ}
    {locked : List Uuid} {job : ClaimedInbound} (h : Inv s)
    (hc : claimNext s.tables now timeout locked = .ok (some job, db)) :
    Inv ⟨db, job :: s.tickets⟩ := by
  rcases claimNext_ok hc with ⟨hn, -⟩ | ⟨j, m, c, hj, hm, -, -, -, hd, rfl⟩
  · cases hn
  · cases hj
    have hu := inv_update (p := fun x => decide (x.id = m.id)) (f := markProcessing now)
      (fun x => ⟨rfl, rfl, Nat.le_succ _⟩) h
    refine ⟨hu.constraints, ?_⟩
    intro j hj
    rcases List.mem_cons.mp hj with rfl | hj
    · refine ⟨markProcessing now m, mem_updateWhere.mpr ⟨m, hm, by simp⟩, ?_⟩
      exact ⟨hd.record_id.symm, hd.attempts.le⟩
    · exact hu.tickets j hj

/-- No transaction of any worker breaks the invariant. -/
theorem inv_step {s t : State} {l : Label} (h : Inv s) (hs : step s l = some t) : Inv t := by
  cases l with
  | enqueue draw account message traceId =>
    simp only [step] at hs
    cases hr : recordInbound s.tables draw account message traceId true with
    | error e => simp only [hr] at hs; cases hs; exact h
    | ok r => simp only [hr] at hs; cases hs; exact inv_enqueue h hr
  | claim now timeout locked =>
    simp only [step] at hs
    cases hc : claimNext s.tables now timeout locked with
    | error e => simp only [hc] at hs; cases hs; exact h
    | ok r =>
      obtain ⟨job, db⟩ := r
      cases job with
      | none =>
        simp only [hc] at hs
        cases hs
        rcases claimNext_ok hc with ⟨-, rfl⟩ | ⟨j, m, c, hj, -⟩
        · exact h
        · cases hj
      | some job => simp only [hc] at hs; cases hs; exact inv_claim h hc
  | settle ticket q =>
    simp only [step] at hs
    split_ifs at hs
    obtain ⟨status, errorCode, availableAt, hq⟩ := q.run_eq
    cases hr : q.run s.tables ticket.messageRecordId with
    | error e => simp only [hr] at hs; cases hs; exact h
    | ok r =>
      simp only [hr] at hs
      cases hs
      rw [hq] at hr
      obtain ⟨-, he⟩ := transition_ok hr
      rw [he]
      exact inv_update (fun m => ⟨rfl, rfl, le_rfl⟩) h

/-- In one state, ending a claim is fenced exactly when the row is not being
processed under a later claim. -/
theorem fenced_iff_noLaterClaim {s : State} (h : Inv s) (l : Label) :
    Fenced s l ↔ NoLaterClaim s l := by
  cases l with
  | enqueue | claim => simp [Fenced, NoLaterClaim]
  | settle ticket q =>
    constructor
    · intro hf hj m hm hid hst hlt
      have hnc : ¬ Current s ticket := by
        rintro ⟨m', hm', hid', -, ha⟩
        have he := h.constraints.message_eq hm hm' (hid.trans hid'.symm)
        rw [he] at hlt
        omega
      exact (q.raises_iff _ _).mp (hf hj hnc).1 m hm hid hst
    · intro hn hj hnc
      have hraise : ∃ e, q.run s.tables ticket.messageRecordId = .error e := by
        rw [q.raises_iff]
        intro m hm hid hst
        obtain ⟨m', hm', hid', hle⟩ := h.tickets ticket hj
        have he := h.constraints.message_eq hm hm' (hid.trans hid'.symm)
        have hlt := hn hj m hm hid hst
        rw [← he] at hle
        exact hnc ⟨m, hm, hid, hst, by omega⟩
      refine ⟨hraise, ?_⟩
      obtain ⟨e, he⟩ := hraise
      simp [step, hj, he]

/-- Over every interleaving of enqueues, claims and late completions, all claims
that end are fenced if and only if each one ends while its row is not being
processed under a later claim. -/
theorem settlements_fenced_iff {db : ConversationTables} (hdb : db.Constraints)
    (schedule : List Label) :
    Along step Fenced (start db) schedule ↔ Along step NoLaterClaim (start db) schedule :=
  along_iff (I := Inv) (fun _ _ _ hi _ ht => inv_step hi ht)
    (fun _ l hi => fenced_iff_noLaterClaim hi l) (inv_start hdb)

/-- A webhook message as the counterexamples of the outbox use it. -/
def sampleMessage : InboundMessage where
  messageId := "wamid.1"
  channel := .whatsapp
  conversationId := "549"
  senderId := "549"
  kind := .text
  text := some "hola"
  receivedAt := 0
  metadata := []
  messageId_bounded := by decide +kernel
  conversationId_bounded := by decide
  senderId_bounded := by decide
  text_bounded := by decide
  text_required := by decide

def firstTicket : ClaimedInbound where
  messageRecordId := 2
  conversationRecordId := 1
  channelAccountId := "phone"
  message := sampleMessage
  attempts := 1
  channelAccountId_bounded := by decide +kernel
  attempts_positive := by decide

/-- Enqueued at time zero and claimed by two workers, 120 seconds apart. -/
def reclaimSchedule : List Label :=
  [.enqueue ⟨1, 2, 0, 0⟩ "phone" sampleMessage "meta:wamid.1", .claim 0 120 [],
    .claim 120000000 120 []]

/-- The row is processed under claim 2 while the holder of claim 1 is still there. -/
def reclaimed : State where
  tables := {
    conversations := [⟨1, .whatsapp, "phone", "549", .pikiActive⟩]
    messages := [{
      id := 2, conversationId := 1, externalMessageId := some "wamid.1", direction := .inbound
      kind := .text, contentText := some "hola", traceId := "meta:wamid.1"
      processingStatus := some .processing, processingAttempts := 2
      processingAvailableAt := some 0, processingClaimedAt := some 120000000, createdAt := 0 }]
    handoffs := [] }
  tickets := [{ firstTicket with attempts := 2, attempts_positive := by decide +kernel }, firstTicket]

theorem exec_reclaimSchedule : exec step (start .empty) reclaimSchedule = some reclaimed := by
  decide

/-- The holder of claim 1 completes the row that claim 2 is processing. -/
theorem stale_complete_not_fenced :
    ¬ Along step Fenced (start .empty) (reclaimSchedule ++ [.settle firstTicket .complete]) := by
  intro h
  have hf := along_last h exec_reclaimSchedule
  have hcur : ¬ Current reclaimed firstTicket := by
    unfold Current
    decide
  have hstep := (hf (by decide) hcur).2
  exact absurd hstep (by decide)

/-- A worker that ends the only claim of a row meets the condition. -/
theorem single_claim_fenced :
    ConversationTables.empty.Constraints ∧
    Along step Fenced (start .empty)
      (reclaimSchedule.take 2 ++ [.settle firstTicket .complete]) :=
  ⟨ConversationTables.empty_constraints,
    (settlements_fenced_iff ConversationTables.empty_constraints _).mpr (by decide)⟩

end Piki.Outbox
