import Piki.WorkerRows

/-! Every job that a worker holds names the stored row it was claimed from. -/
namespace Piki.Worker
open Table ConversationRepository MessageProcessingStore
variable {cfg : Config} {s t : State}

/-- The row of the job is stored under the message id of the job. -/
def Linked (db : ConversationTables) (job : ClaimedInbound) : Prop :=
  ∃ m ∈ db.messages, m.id = job.messageRecordId ∧
    m.externalMessageId = some job.message.messageId

theorem Linked.keeps {db db' : ConversationTables} {job : ClaimedInbound} (h : Linked db job)
    (hk : Keeps db db') : Linked db' job := by
  obtain ⟨m, hm, hid, hext⟩ := h
  obtain ⟨m', hm', hc⟩ := hk.mem hm
  exact ⟨m', hm', (content_id hc).trans hid, (content_external hc).trans hext⟩

theorem claimNext_linked {db db' : ConversationTables} {now : Time} {timeout : ℕ}
    {locked : List Uuid} {job : ClaimedInbound}
    (h : claimNext db now timeout locked = .ok (some job, db')) : Linked db job := by
  rcases claimNext_ok h with ⟨hn, -⟩ | ⟨j, m, c, hj, hm, -, -, -, hd, -⟩
  · cases hn
  · cases hj
    exact ⟨m, hm, hd.record_id.symm, hd.external_id⟩

def Jobs (s : State) : Prop :=
  ∀ w job, (s.workers w).job = some job → Linked s.conversations job

/-- A worker keeps its job, drops it, or holds the one it has just claimed. -/
theorem Move.job {a : Action} {p q : Phase} {db : ConversationTables} {d : DeliveryTables}
    {sent : List DeliveryRequest} (h : Move cfg s a p q db d sent) {job : ClaimedInbound}
    (hq : q.job = some job) :
    p.job = some job ∨ p = .idle ∧ ∃ now locked,
      claimNext s.conversations now cfg.claimTimeoutSeconds locked = .ok (some job, db) := by
  have hlapse : p.Lapses q → p.job = some job := by
    rintro ⟨-, hnone | hsame⟩
    · rw [hnone] at hq
      cases hq
    · exact hsame.symm.trans hq
  cases h with
  | lapse hl | settle hc hl | fail hc hl => exact .inl (hlapse hl)
  | acquire | stored | fresh | release | invoke | receive => exact .inl hq
  | @claim now _ _ _ locked _ hl hc =>
    rcases hl with rfl | hl
    · cases hq
      exact .inr ⟨rfl, now, locked, hc⟩
    · exact .inl (hlapse hl)
  | compose ports handoffId now hl =>
    rcases hl with ⟨text, fb, rfl⟩ | hl
    · exact .inl hq
    · exact .inl (hlapse hl)
  | record id now hl =>
    rcases hl with ⟨reply, -, rfl⟩ | hl
    · exact .inl hq
    · exact .inl (hlapse hl)
  | created hrequest hc hl | finalize hc hl =>
    rcases hl with rfl | hl
    · exact .inl hq
    · exact .inl (hlapse hl)
  | replayed hrequest hc hl =>
    rcases hl with ⟨result, -, rfl⟩ | hl
    · exact .inl hq
    · exact .inl (hlapse hl)

/-- What holds of a job when it is claimed, and survives every change of the tables,
holds of every job that a worker has. -/
theorem held_step {R : ConversationTables → ClaimedInbound → Prop}
    (hkept : ∀ {db db' job}, R db job → Keeps db db' → R db' job)
    (hclaimed : ∀ {db db' now timeout locked job},
      claimNext db now timeout locked = .ok (some job, db') → R db job) {l : Label}
    (h : ∀ w job, (s.workers w).job = some job → R s.conversations job)
    (hs : step cfg s l = some t) :
    ∀ w job, (t.workers w).job = some job → R t.conversations job := by
  have hkeeps := (step_messages hs).1
  have hsame : t.workers = s.workers →
      ∀ w job, (t.workers w).job = some job → R t.conversations job := by
    intro he w job hw
    rw [he] at hw
    exact hkept (h w job hw) hkeeps
  cases step_stepped hs with
  | refused | recorded | callback | expire => exact hsame rfl
  | @worker w _ _ _ _ _ locks hact hmove =>
    intro w' job hw'
    by_cases he : w' = w
    · subst he
      simp only [State.moved, Function.update_self] at hw'
      rcases hmove.job hw' with hp | ⟨-, now, locked, hc⟩
      · exact hkept (h w' job hp) hkeeps
      · exact hkept (hclaimed hc) hkeeps
    · simp only [State.moved, Function.update_of_ne he] at hw'
      exact hkept (h w' job hw') hkeeps

theorem jobs_step {l : Label} (h : Jobs s) (hs : step cfg s l = some t) : Jobs t :=
  held_step Linked.keeps claimNext_linked h hs

theorem jobs_start (db : ConversationTables) (d : DeliveryTables) : Jobs (start db d) := by
  intro w job hw
  cases hw

end Piki.Worker
