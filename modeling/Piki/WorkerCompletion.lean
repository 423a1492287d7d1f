import Piki.WorkerJobs
import Piki.WorkerOnce

/-! A message is completed only when its reply was taken by the provider. -/
namespace Piki.Worker
open Table Transition ConversationRepository MessageProcessingStore DeliveryTruth
variable {cfg : Config} {s t : State}

/-- The attempt of this key has a provider id. -/
def Identified (d : DeliveryTables) (key : String) : Prop :=
  ∃ a ∈ d.attempts, a.idempotencyKey = key ∧ ∃ p, a.providerMessageId = some p

theorem Identified.grows {d d' : DeliveryTables} {key : String} (h : Identified d key)
    (hg : Grows d d') : Identified d' key := by
  obtain ⟨a, ha, hk, p, hp⟩ := h
  obtain ⟨a', ha', -, hk', hp'⟩ := hg a ha p hp
  exact ⟨a', ha', hk'.trans hk, p, hp'⟩

/-- Among sound attempts, one with a provider id was taken. -/
theorem Identified.taken {d : DeliveryTables} {key : String} (h : Identified d key) (hs : Sound d) :
    ∃ a ∈ d.attempts, a.idempotencyKey = key ∧ Taken d a := by
  obtain ⟨a, ha, hk, p, hp⟩ := h
  rcases hs a ha with ⟨hnone, -⟩ | ⟨-, ht⟩
  · rw [hnone] at hp
    cases hp
  · exact ⟨a, ha, hk, ht⟩

/-- The job and the attempt of a worker that claimed a delivery. -/
def Phase.attempt : Phase → Option (ClaimedInbound × Uuid)
  | .posting job aid _ | .awaiting job aid _ | .posted job aid _ => some (job, aid)
  | _ => none

def replyKeyOf (job : ClaimedInbound) : String := replyKey job.message.messageId

/-- What a phase promises about the delivery tables. -/
structure Phase.Honest (d : DeliveryTables) (p : Phase) : Prop where
  attempt : ∀ job aid, p.attempt = some (job, aid) →
    ∃ a ∈ d.attempts, a.id = aid ∧ a.idempotencyKey = replyKeyOf job
  result : ∀ job aid result, p = .posted job aid result → result.FromAdapter
  settling : ∀ job result, p = .settling job result → result.status.isError = false →
    Identified d (replyKeyOf job)

/-- From the delivery claim on, a phase makes promises. -/
def Phase.delivering : Phase → Bool
  | .posting _ _ _ | .awaiting _ _ _ | .posted _ _ _ | .settling _ _ => true
  | _ => false

theorem Phase.honest_of_quiet {q : Phase} (h : q.delivering = false) (d : DeliveryTables) :
    q.Honest d := by
  refine ⟨?_, ?_, ?_⟩
  · intro job aid he
    cases q with
    | posting | awaiting | posted | settling => cases h
    | _ => cases he
  · rintro job aid result rfl
    cases h
  · rintro job result rfl
    cases h

theorem Phase.Lapses.honest {p q : Phase} (h : p.Lapses q) (d : DeliveryTables) : q.Honest d := by
  refine honest_of_quiet ?_ d
  cases q with
  | posting | awaiting | posted | settling => cases h.1
  | _ => rfl

theorem Phase.Honest.update {d d' : DeliveryTables} {p : Phase} (h : p.Honest d)
    (hkeys : ∀ k ∈ d.attempts.map attemptKey, k ∈ d'.attempts.map attemptKey) (hg : Grows d d') :
    p.Honest d' := by
  refine ⟨?_, h.result, fun job result he hs => (h.settling job result he hs).grows hg⟩
  intro job aid he
  obtain ⟨a, ha, hid, hk⟩ := h.attempt job aid he
  obtain ⟨a', ha', he'⟩ := List.mem_map.mp (hkeys _ (List.mem_map.mpr ⟨a, ha, rfl⟩))
  exact ⟨a', ha', (congrArg Prod.fst he').trans hid, (congrArg Prod.snd he').trans hk⟩

/-- Every completed message has an identified attempt. -/
def CompletedDelivered (db : ConversationTables) (d : DeliveryTables) : Prop :=
  ∀ m ∈ db.messages, m.processingStatus = some .completed →
    ∃ ext, m.externalMessageId = some ext ∧ Identified d (replyKey ext)

theorem CompletedDelivered.append {db db' : ConversationTables} {d : DeliveryTables}
    {rows : List MessageRecord} (h : CompletedDelivered db d)
    (hdb : db'.messages = db.messages ++ rows)
    (hrows : ∀ m ∈ rows, m.processingStatus ≠ some .completed) : CompletedDelivered db' d := by
  intro m hm hc
  rw [hdb] at hm
  rcases List.mem_append.mp hm with hm | hm
  · exact h m hm hc
  · exact absurd hc (hrows m hm)

structure HonestInv (s : State) : Prop where
  once : Inv s
  jobs : Jobs s
  sound : Sound s.deliveries.tables
  reads : Reads s.deliveries
  phases : ∀ w, (s.workers w).Honest s.deliveries.tables
  completed : CompletedDelivered s.conversations s.deliveries.tables

/-- What a move does to the delivery tables. -/
theorem Move.deliveries {a : Action} {p q : Phase} {db : ConversationTables} {d : DeliveryTables}
    {sent : List DeliveryRequest} (h : Move cfg s a p q db d sent)
    (hs : Sound s.deliveries.tables) (hp : p.Honest s.deliveries.tables) :
    Sound d ∧ Grows s.deliveries.tables d := by
  cases h with
  | lapse | claim | acquire | stored | fresh | compose | record | release | invoke | receive
  | settle | fail => exact ⟨hs, .refl _⟩
  | created hrequest hc hq | replayed hrequest hc hq => exact ⟨sound_claim hs hc, grows_claim hc⟩
  | finalize hc hq =>
    exact ⟨sound_finalize hs (hp.result _ _ _ rfl) hc, grows_finalize hs hc⟩

theorem Move.keys {a : Action} {p q : Phase} {db : ConversationTables} {d : DeliveryTables}
    {sent : List DeliveryRequest} (h : Move cfg s a p q db d sent) :
    ∀ k ∈ s.deliveries.tables.attempts.map attemptKey, k ∈ d.attempts.map attemptKey := by
  intro k hk
  rcases h.attempts with he | ⟨row, he, -, -⟩
  · rw [he]
    exact hk
  · rw [he, List.map_append]
    exact List.mem_append_left _ hk

/-- A finalised attempt that was accepted is identified. -/
theorem identified_finalize {d d' : DeliveryTables} {now : Time} {aid : Uuid}
    {result : DeliveryResult} {key : String} {a : DeliveryAttemptRecord}
    (hu : UniqueAttempts d) (hf : DeliveryStore.finalize d now aid result = .ok ((), d'))
    (ha : a ∈ d.attempts) (hid : a.id = aid) (hk : a.idempotencyKey = key)
    (hs : result.status.isError = false) : Identified d' key := by
  obtain ⟨⟨x, hx, hxi, hpending⟩, -, rfl⟩ := DeliveryStore.finalize_ok hf
  have he := Callbacks.attempt_eq hu.id ha hx (hid.trans hxi.symm)
  obtain ⟨p, hp, -⟩ := truthy_some (result.provider_shape hs)
  refine ⟨DeliveryStore.finalizeRow result a, mem_updateWhere.mpr ⟨a, ha, ?_⟩, hk, p, hp⟩
  rw [if_pos]
  simp [DeliveryStore.pendingAttempt, he, hxi, hpending]

/-- The phase after a move keeps its promises. -/
theorem Move.honest {a : Action} {p q : Phase} {db : ConversationTables} {d : DeliveryTables}
    {sent : List DeliveryRequest} (h : Move cfg s a p q db d sent)
    (hu : UniqueAttempts s.deliveries.tables) (hp : p.Honest s.deliveries.tables) :
    q.Honest d := by
  cases h with
  | lapse hq | settle hc hq | fail hc hq => exact hq.honest _
  | acquire | stored | fresh | release => exact Phase.honest_of_quiet rfl _
  | claim hq hc =>
    rcases hq with rfl | hq
    · exact Phase.honest_of_quiet rfl _
    · exact hq.honest _
  | compose ports handoffId now hq =>
    rcases hq with ⟨text, fb, rfl⟩ | hq
    · exact Phase.honest_of_quiet rfl _
    · exact hq.honest _
  | record id now hq =>
    rcases hq with ⟨reply, -, rfl⟩ | hq
    · exact Phase.honest_of_quiet rfl _
    · exact hq.honest _
  | created hrequest hc hq =>
    rcases hq with rfl | hq
    · rcases DeliveryStore.claim_ok hc with ⟨hfalse, -⟩ | ⟨-, rfl, -, -, rfl⟩
      · cases hfalse
      · refine ⟨?_, fun _ _ _ he => (by cases he), fun _ _ he => (by cases he)⟩
        intro job' aid' he
        cases he
        exact ⟨_, List.mem_append_right _ (List.mem_singleton_self _), rfl,
          (replyRequest_content hrequest).1⟩
    · exact hq.honest _
  | replayed hrequest hc hq =>
    rcases hq with ⟨result, hresult, rfl⟩ | hq
    · rcases DeliveryStore.claim_ok hc with ⟨-, rfl, a, ha, hk, rfl⟩ | ⟨hfalse, -⟩
      · refine ⟨fun _ _ he => (by cases he), fun _ _ _ he => (by cases he), ?_⟩
        intro job' result' he hs
        cases he
        obtain ⟨p, hp, -⟩ := truthy_some
          (IdempotentDeliveryService.existingResult_success hresult hs)
        exact ⟨a, ha, hk.trans (replyRequest_content hrequest).1, p, hp⟩
      · cases hfalse
    · exact hq.honest _
  | invoke => exact ⟨hp.attempt, fun _ _ _ he => (by cases he), fun _ _ he => (by cases he)⟩
  | receive hsend =>
    refine ⟨hp.attempt, ?_, fun _ _ he => (by cases he)⟩
    intro job' aid' result' he
    cases he
    exact MetaDeliveryAdapter.send_ok hsend
  | finalize hc hq =>
    rcases hq with rfl | hq
    · refine ⟨fun _ _ he => (by cases he), fun _ _ _ he => (by cases he), ?_⟩
      intro job' result' he hs
      cases he
      obtain ⟨a, ha, hid, hk⟩ := hp.attempt _ _ rfl
      exact identified_finalize hu hc ha hid hk hs
    · exact hq.honest _

/-- Only a result without an error completes a message. -/
theorem Phase.settling_of_outcome {p : Phase} {job : ClaimedInbound}
    (h : p.outcome = some (job, .completed)) :
    ∃ result, p = .settling job result ∧ result.status.isError = false := by
  cases p with
  | settling job' result =>
    simp only [Phase.outcome, Option.some.injEq, Prod.mk.injEq] at h
    obtain ⟨rfl, hstatus⟩ := h
    split_ifs at hstatus with herror
    exact ⟨result, rfl, by simpa using herror⟩
  | failing job' code retry =>
    simp only [Phase.outcome, Option.some.injEq, Prod.mk.injEq] at h
    cases retry <;> cases h.2
  | _ => cases h

/-- Only a job whose reply was taken completes its message. -/
theorem Move.completed {a : Action} {w : ℕ} {q : Phase} {db : ConversationTables} {d : DeliveryTables}
    {sent : List DeliveryRequest} (hmove : Move cfg s a (s.workers w) q db d sent)
    (h : HonestInv s) : CompletedDelivered db s.deliveries.tables := by
  intro m hm hcompleted
  cases hmove.row hm with
  | kept hm => exact h.completed m hm hcompleted
  | reply hs _ =>
    rw [hs] at hcompleted
    cases hcompleted
  | claimed => cases hcompleted
  | @left x job status _ _ _ hp hx hid _ =>
    cases Option.some.inj hcompleted
    obtain ⟨result, hw, hok⟩ := Phase.settling_of_outcome hp
    obtain ⟨y, hy, hyid, hext⟩ := h.jobs w job (by rw [hw]; rfl)
    have he := h.once.constraints.message_eq hx hy (hid.trans hyid.symm)
    exact ⟨job.message.messageId, he ▸ hext, (h.phases w).settling job result hw hok⟩

theorem honest_step {l : Label} (h : HonestInv s) (hs : step cfg s l = some t) : HonestInv t := by
  have honce := inv_step h.once hs
  have hjobs := jobs_step h.jobs hs
  cases step_stepped hs with
  | refused => exact h
  | recorded hr =>
    obtain ⟨rows, hrows, hall⟩ := Ingress.recordMessages_rows hr
    refine ⟨honce, hjobs, h.sound, h.reads, h.phases, h.completed.append hrows ?_⟩
    intro m hm
    obtain ⟨i, cid, message, -, rfl⟩ := hall m hm
    simp [inboundRow]
  | callback hc =>
    obtain ⟨hsound, hreads, hgrows⟩ := sound_callback h.once.attempts.id h.sound h.reads hc
    refine ⟨honce, hjobs, hsound, hreads, ?_, ?_⟩
    · intro w
      refine (h.phases w).update ?_ hgrows
      intro k hk
      rw [callback_keys hc]
      exact hk
    · intro m hm hcompleted
      obtain ⟨ext, hext, hid⟩ := h.completed m hm hcompleted
      exact ⟨ext, hext, hid.grows hgrows⟩
  | expire => exact ⟨honce, hjobs, h.sound, h.reads, h.phases, h.completed⟩
  | @worker w _ _ _ _ _ locks hact hmove =>
    obtain ⟨hsound, hgrows⟩ := hmove.deliveries h.sound (h.phases w)
    refine ⟨honce, hjobs, hsound, h.reads.withTables hgrows, ?_, ?_⟩
    · intro w'
      by_cases he : w' = w
      · subst he
        simp only [State.moved, Function.update_self]
        exact hmove.honest h.once.attempts (h.phases w')
      · simp only [State.moved, Function.update_of_ne he]
        exact (h.phases w').update hmove.keys hgrows
    · intro m hm hcompleted
      obtain ⟨ext, hext, hid⟩ := hmove.completed h m hm hcompleted
      exact ⟨ext, hext, hid.grows hgrows⟩

theorem honest_start : HonestInv (start .empty .empty) where
  once := inv_start ConversationTables.empty_constraints DeliveryTables.empty_constraints
  jobs := jobs_start _ _
  sound a ha := by cases ha
  reads n callback attempt ho := by rcases ho with ho | ho <;> cases ho
  phases w := Phase.honest_of_quiet rfl _
  completed m hm := by cases hm

theorem honest_reachable {schedule : List Label}
    (hrun : exec (step cfg) (start .empty .empty) schedule = some t) : HonestInv t :=
  exec_invariant (fun _ _ _ hi hs => honest_step hi hs) honest_start hrun

/-- In every reachable state, a completed message has an attempt that the provider
took: it has an id and a status after acceptance, and a failure of it was reported by
a callback. -/
theorem completed_was_taken (cfg : Config) {schedule : List Label}
    (hrun : exec (step cfg) (start .empty .empty) schedule = some t) {m : MessageRecord}
    (hm : m ∈ t.conversations.messages) (hc : m.processingStatus = some .completed) :
    ∃ messageId, m.externalMessageId = some messageId ∧
      ∃ a ∈ t.deliveries.tables.attempts, a.idempotencyKey = replyKey messageId ∧
        Taken t.deliveries.tables a := by
  have hinv := honest_reachable hrun
  obtain ⟨ext, hext, hid⟩ := hinv.completed m hm hc
  exact ⟨ext, hext, hid.taken hinv.sound⟩

set_option maxRecDepth 10000 in
/-- The run of one answered message ends with the message completed. -/
theorem answered_was_taken : ∃ t, exec (step sampleConfig) (start .empty .empty) answeredSchedule =
      some t ∧ ∃ m ∈ t.conversations.messages, m.processingStatus = some .completed ∧
    ∃ messageId, m.externalMessageId = some messageId ∧
      ∃ a ∈ t.deliveries.tables.attempts, a.idempotencyKey = replyKey messageId ∧
        Taken t.deliveries.tables a := by
  have hcompleted : (exec (step sampleConfig) (start .empty .empty) answeredSchedule).map
      (fun t => t.conversations.messages.any fun m => m.processingStatus = some .completed) =
      some true := by
    decide
  obtain ⟨t, ht, hany⟩ := Option.map_eq_some_iff.mp hcompleted
  obtain ⟨m, hm, hc⟩ := List.any_eq_true.mp hany
  have hstatus : m.processingStatus = some .completed := by simpa using hc
  exact ⟨t, ht, m, hm, hstatus, completed_was_taken sampleConfig ht hm hstatus⟩

end Piki.Worker
