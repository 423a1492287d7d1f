import Piki.Newest
import Piki.Ingress

/-! The order in which `recent_messages` gives the messages of a conversation. Rows are
stored in the order of their ingestion, with the time of their transaction and a random id. -/
namespace Piki.HistoryOrder
open Ingress ConversationRepository

/-- One ingested batch; `now()` is the same throughout its transaction. -/
structure Batch where
  now : Time
  draws : ℕ → Draw
  events : MetaWebhookEvents
  clock : ∀ i, (draws i).databaseNow = now

def ingestAll (db : Tables) (batches : List Batch) : Tables :=
  batches.foldl (fun db b => (ingest b.draws db b.events).1) db

/-- The stored messages of a conversation in the order in which they were ingested. -/
def stored (db : Tables) (conversationId : Uuid) : List MessageRecord :=
  db.conversations.messages.filter fun m => m.conversationId = conversationId

/-- What a batch leaves: the messages that were there, followed by its own. -/
theorem ingest_messages (b : Batch) (db : Tables) (hu : db.conversations.Constraints) :
    (ingest b.draws db b.events).1.conversations.Constraints ∧
      ∃ rows, (ingest b.draws db b.events).1.conversations.messages =
        db.conversations.messages ++ rows ∧ ∀ m ∈ rows, m.createdAt = b.now := by
  unfold ingest
  cases hrec : recordMessages b.draws db.conversations b.events.messages with
  | error e => exact ⟨hu, [], by simp, by simp⟩
  | ok r =>
    obtain ⟨statuses, db'⟩ := r
    have hu' := recordMessages_constraints hu hrec
    obtain ⟨rows, hrows, hall⟩ := recordMessages_rows hrec
    have hnow : ∀ m ∈ rows, m.createdAt = b.now := by
      intro m hm
      obtain ⟨i, cid, message, -, rfl⟩ := hall m hm
      exact b.clock i
    cases b.events.messages.mapM claimDedup with
    | error e => exact ⟨hu', rows, hrows, hnow⟩
    | ok u => exact ⟨hu', rows, hrows, hnow⟩

/-- Ids are distinct, and later rows are not older. -/
structure Chronological (db : ConversationTables) : Prop where
  constraints : db.Constraints
  ordered : db.messages.Pairwise fun a b => a.createdAt ≤ b.createdAt

theorem chronological_ingestAll {db : Tables} {batches : List Batch}
    (hdb : Chronological db.conversations)
    (hold : ∀ m ∈ db.conversations.messages, ∀ b ∈ batches, m.createdAt ≤ b.now)
    (hclock : batches.Pairwise fun a b => a.now < b.now) :
    Chronological (ingestAll db batches).conversations := by
  induction batches generalizing db with
  | nil => exact hdb
  | cons b batches ih =>
    obtain ⟨hlater, hclock⟩ := List.pairwise_cons.mp hclock
    obtain ⟨hu, rows, hrows, hnow⟩ := ingest_messages b db hdb.constraints
    refine ih ⟨hu, ?_⟩ ?_ hclock
    · rw [hrows, List.pairwise_append]
      refine ⟨hdb.ordered, ?_, ?_⟩
      · exact List.pairwise_of_forall_mem_list fun x hx y hy => by rw [hnow x hx, hnow y hy]
      · intro m hm x hx
        rw [hnow x hx]
        exact hold m hm b List.mem_cons_self
    · intro m hm c hc
      rw [hrows] at hm
      rcases List.mem_append.mp hm with hm | hm
      · exact hold m hm c (List.mem_cons_of_mem _ hc)
      · rw [hnow m hm]
        exact (hlater c hc).le

@[grind =] theorem newer_iff {a b : MessageRecord} :
    newer a b = true ↔ b.createdAt < a.createdAt ∨ a.createdAt = b.createdAt ∧ b.id ≤ a.id := by
  simp [newer]

instance : Std.Total fun a b : MessageRecord => newer a b = true where
  total a b := by
    rw [newer_iff, newer_iff]
    rcases lt_trichotomy a.createdAt b.createdAt with h | h | h
    · exact .inr (.inl h)
    · rcases le_total b.id a.id with hid | hid
      · exact .inl (.inr ⟨h, hid⟩)
      · exact .inr (.inr ⟨h.symm, hid⟩)
    · exact .inl (.inl h)

instance : IsTrans MessageRecord fun a b => newer a b = true where
  trans a b c hab hbc := by
    rw [newer_iff] at hab hbc ⊢
    rcases hab with hab | ⟨hab, hid⟩ <;> rcases hbc with hbc | ⟨hbc, hid'⟩
    · exact .inl (hbc.trans hab)
    · exact .inl (hbc ▸ hab)
    · exact .inl (hab ▸ hbc)
    · exact .inr ⟨hab.trans hbc, hid'.trans hid⟩

/-- Of the last `limit` messages, each has a larger id than those that were stored before
it in the same transaction. -/
def Ascending (limit : ℕ) (rows : List MessageRecord) : Prop :=
  ∀ i j (hij : i < j) (hj : j < rows.length), rows.length ≤ j + limit →
    rows[i].createdAt = rows[j].createdAt → rows[i].id < rows[j].id

theorem ascending_of_ids {rows : List MessageRecord}
    (h : (rows.map MessageRecord.id).Pairwise (· < ·)) (limit : ℕ) : Ascending limit rows := by
  have hids := List.pairwise_iff_getElem.mp (List.pairwise_map.mp h)
  intro i j hij hj _ _
  exact hids i j (hij.trans hj) hj hij

theorem lastNewest_iff_ascending {rows : List MessageRecord} {limit : ℕ}
    (hids : rows.Pairwise fun a b => a.id ≠ b.id)
    (htimes : rows.Pairwise fun a b => a.createdAt ≤ b.createdAt) :
    Newest.LastNewest (fun a b => newer a b = true) limit rows ↔ Ascending limit rows := by
  have hid := List.pairwise_iff_getElem.mp hids
  have htime := List.pairwise_iff_getElem.mp htimes
  constructor
  · intro h i j hij hj hlimit hsame
    have hnewer := newer_iff.mp (h i j hij hj hlimit)
    rcases hnewer with hlt | ⟨-, hle⟩
    · exact absurd hsame hlt.ne
    · exact lt_of_le_of_ne hle (hid i j (hij.trans hj) hj hij)
  · intro h i j hij hj hlimit
    refine newer_iff.mpr ?_
    rcases (htime i j (hij.trans hj) hj hij).lt_or_eq with hlt | hsame
    · exact .inl hlt
    · exact .inr ⟨hsame.symm, (h i j hij hj hlimit hsame).le⟩

theorem unique_pairwise {rows : List MessageRecord}
    (h : Table.Unique (fun m : MessageRecord => some m.id) rows) :
    rows.Pairwise fun a b => a.id ≠ b.id := by
  unfold Table.Unique at h
  rw [List.filterMap_eq_map'] at h
  exact List.pairwise_map.mp h

/-- The last `limit` messages come back in the order of their ingestion exactly when the
random ids of a transaction happen to be drawn in increasing order. -/
theorem recentMessages_arrival_iff {deliveries : DeliveryTables} {batches : List Batch}
    (hclock : batches.Pairwise fun a b => a.now < b.now) (conversationId : Uuid) {limit : ℕ}
    (hlow : 1 ≤ limit) (hhigh : limit ≤ 100) :
    recentMessages (ingestAll ⟨.empty, deliveries⟩ batches).conversations conversationId limit =
        .ok ((stored (ingestAll ⟨.empty, deliveries⟩ batches) conversationId).rtake limit) ↔
      Ascending limit (stored (ingestAll ⟨.empty, deliveries⟩ batches) conversationId) := by
  have hdb : Chronological (ingestAll ⟨.empty, deliveries⟩ batches).conversations :=
    chronological_ingestAll ⟨ConversationTables.empty_constraints, .nil⟩
      (by simp [ConversationTables.empty]) hclock
  generalize ingestAll ⟨.empty, deliveries⟩ batches = db at hdb
  have hids : (stored db conversationId).Pairwise fun a b => a.id ≠ b.id :=
    (unique_pairwise hdb.constraints.message_id).filter _
  have htimes : (stored db conversationId).Pairwise fun a b => a.createdAt ≤ b.createdAt :=
    hdb.ordered.filter _
  have hequal : ∀ a ∈ stored db conversationId, ∀ b ∈ stored db conversationId,
      newer a b = true → newer b a = true → a = b := by
    intro a ha b hb hab hba
    rw [newer_iff] at hab hba
    have hid : a.id = b.id := by
      rcases hab with hab | ⟨hab, hle⟩ <;> rcases hba with hba | ⟨hba, hle'⟩
      · exact absurd hab hba.asymm
      · exact absurd hba hab.ne
      · exact absurd hab hba.ne
      · exact le_antisymm hle' hle
    exact Table.unique_eq hdb.constraints.message_id (List.mem_of_mem_filter ha)
      (List.mem_of_mem_filter hb) rfl (congrArg some hid.symm)
  rw [← lastNewest_iff_ascending hids htimes, ← Newest.rtake_of_insertionSort hequal]
  have hlimits : ¬ (limit < 1 ∨ 100 < limit) := by omega
  simp only [recentMessages, if_neg hlimits, Except.ok.injEq, stored]

section Samples

def said (messageId text : String) : Except Failure InboundMessage :=
  InboundMessage.make messageId .whatsapp "549" "549" .text (some text) 0
    [("phone_number_id", "phone")]

/-- Two messages of one conversation in one batch, with the ids that are drawn for them. -/
def pairBatch (first second : Uuid) : Batch where
  now := 5
  draws i := ⟨10 + i, if i = 0 then first else second, 0, 5⟩
  events := ⟨[accepted (said "wamid.a" "quiero") (by decide +kernel),
    accepted (said "wamid.b" "dos picks") (by decide)], []⟩
  clock _ := rfl

theorem recentMessages_arrival_pair :
    (recentMessages (ingestAll ⟨.empty, .empty⟩ [pairBatch 1 2]).conversations 10 20).map
      (·.map MessageRecord.externalMessageId) = .ok [some "wamid.a", some "wamid.b"] := by
  have hids : (stored (ingestAll ⟨.empty, .empty⟩ [pairBatch 1 2]) 10).map MessageRecord.id =
      [1, 2] := by decide
  have hiff := @recentMessages_arrival_iff .empty [pairBatch 1 2] (List.pairwise_singleton _ _) 10
    20 (by decide) (by decide)
  have hascending : Ascending 20 (stored (ingestAll ⟨.empty, .empty⟩ [pairBatch 1 2]) 10) :=
    ascending_of_ids (by rw [hids]; decide) 20
  rw [hiff.mpr hascending]
  decide

/-- The larger id was drawn first: the history is turned round, and a history of one
message is the wrong message. -/
theorem recentMessages_turned_round :
    (stored (ingestAll ⟨.empty, .empty⟩ [pairBatch 2 1]) 10).map MessageRecord.externalMessageId =
        [some "wamid.a", some "wamid.b"] ∧
      (recentMessages (ingestAll ⟨.empty, .empty⟩ [pairBatch 2 1]).conversations 10 20).map
        (·.map MessageRecord.externalMessageId) = .ok [some "wamid.b", some "wamid.a"] ∧
      (recentMessages (ingestAll ⟨.empty, .empty⟩ [pairBatch 2 1]).conversations 10 1).map
        (·.map MessageRecord.externalMessageId) = .ok [some "wamid.a"] := by
  refine ⟨?_, ?_, ?_⟩ <;> decide

end Samples
end Piki.HistoryOrder
