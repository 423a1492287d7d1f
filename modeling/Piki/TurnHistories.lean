import Piki.TurnExclusion

/-! Nobody talks past a turn. While a turn is open, nobody else adds a reply to its
conversation, so that the history it composes from lacks no reply. -/
namespace Piki.System
open Table Transition ConversationRepository ConversationOrchestrator MessageProcessingStore Worker
open Turns
variable {cfg : Config}

section Replies
variable {s t : HandoffPause.State} {l : HandoffPause.Label} {schedule : List HandoffPause.Label}

/-- The replies stored in a conversation, in the order of the table. -/
def replies (db : ConversationTables) (cid : Uuid) : List MessageRecord :=
  (db.messages.map MessageRecord.content).filter fun m =>
    m.direction = .outbound ∧ m.conversationId = cid

theorem replies_of_eq {db db' : ConversationTables} (h : db'.messages = db.messages) (cid : Uuid) :
    replies db' cid = replies db cid := by
  rw [replies, replies, h]

theorem replies_append {db db' : ConversationTables} {rows : List MessageRecord} {cid : Uuid}
    (h : db'.messages = db.messages ++ rows)
    (hrows : ∀ m ∈ rows, m.direction = .inbound ∨ m.conversationId ≠ cid) :
    replies db' cid = replies db cid := by
  have hnone : (rows.map MessageRecord.content).filter
      (fun m => m.direction = .outbound ∧ m.conversationId = cid) = [] := by
    rw [List.filter_eq_nil_iff]
    intro c hc
    obtain ⟨m, hm, rfl⟩ := List.mem_map.mp hc
    rcases hrows m hm with hdir | hcid
    · simp [MessageRecord.content, hdir]
    · simp [MessageRecord.content, hcid]
  rw [replies, replies, h, List.map_append, List.filter_append, hnone, List.append_nil]

theorem replies_update {db : ConversationTables} {p : MessageRecord → Bool}
    {f : MessageRecord → MessageRecord} (hf : ∀ m, (f m).content = m.content) (cid : Uuid) :
    replies { db with messages := updateWhere p f db.messages } cid = replies db cid := by
  rw [replies, replies, map_updateWhere fun m _ => hf m]

theorem recordReply_replies (u : Text.Unicode) (db : ConversationTables) (id : Uuid) (now : Time)
    (message : InboundMessage) {cid cid' : Uuid} (text : String) (fb : Bool) (hne : cid' ≠ cid) :
    replies (recordReply u db id now message cid' text fb).1 cid = replies db cid := by
  obtain ⟨rows, hrows, hall⟩ := recordReply_rows u db id now message cid' text fb
  refine replies_append hrows fun m hm => .inr ?_
  rw [hall m hm]
  exact hne

/-- A move of a worker adds a reply only where its turn is, and ends that turn. -/
theorem move_replies {base : Worker.State} {a : Action} {p q : Phase} {db : ConversationTables}
    {d : DeliveryTables} {sent : List DeliveryRequest} (h : Move cfg base a p q db d sent)
    (cid : Uuid) : replies db cid = replies base.conversations cid ∨
      (phaseTurn p = some cid ∧ phaseTurn q = none) := by
  cases h with
  | lapse | acquire | stored | fresh | created | replayed | invoke | receive | finalize | release =>
    exact .inl rfl
  | claim hq hc =>
    obtain ⟨row, -, -, rfl⟩ := claimNext_first hc
    refine .inl (replies_update ?_ cid)
    exact fun _ => rfl
  | @compose acked job _ _ history ports handoffId now hq =>
    obtain ⟨hrows, -⟩ := composeFor_spec cfg.unicode ports base.conversations handoffId now
      job.message job.conversationRecordId history
    exact .inl (replies_of_eq hrows.messages cid)
  | @record acked job lease q text fb id now hq =>
    by_cases he : job.conversationRecordId = cid
    · refine .inr ⟨congrArg some he, ?_⟩
      rcases hq with ⟨reply, -, rfl⟩ | hq
      · rfl
      · obtain ⟨hspent, -⟩ := hq
        cases q <;> first | rfl | cases hspent
    · exact .inl (recordReply_replies _ _ id now _ text fb he)
  | settle hc hq =>
    obtain ⟨status, errorCode, availableAt, ht⟩ := settle_updates hc
    obtain ⟨-, rfl⟩ := transition_ok ht
    refine .inl (replies_update ?_ cid)
    exact fun _ => rfl
  | fail hc hq =>
    obtain ⟨status, errorCode, availableAt, ht⟩ := fail_updates hc
    obtain ⟨-, rfl⟩ := transition_ok ht
    refine .inl (replies_update ?_ cid)
    exact fun _ => rfl

theorem advance_replies {u : Text.Unicode} {db db' : ConversationTables} {message : InboundMessage}
    {account : String} {p p' : Progress} {session : Session}
    (h : advance u (.respond message account) db p session = some (db', p')) (cid : Uuid) :
    replies db' cid = replies db cid ∨ (progressTurn p = some cid ∧ progressTurn p' = none) := by
  cases p with
  | begun =>
    cases session with
    | first draw acked =>
      simp only [advance, firstSession] at h
      cases hopen : openCall u db draw account message with
      | error e =>
        rw [hopen, error_bind] at h
        cases h
        exact .inl rfl
      | ok r =>
        obtain ⟨o, db₁⟩ := r
        obtain ⟨persisted, henroll⟩ := Isolation.openCall_admitted hopen
        have hreplies : replies db₁ cid = replies db cid := by
          obtain ⟨db₂, hup, ⟨-, rfl, -⟩ | ⟨-, -, -, rfl⟩⟩ :=
            recordInbound_ok (Isolation.enroll_recorded henroll)
          · exact replies_of_eq (upsertConversation_messages hup) cid
          · refine replies_append rfl fun m hm => .inl ?_
            rw [List.mem_singleton.mp hm]
            rfl
        cases o <;> rw [hopen, ok_bind] at h <;> cases h <;> exact .inl hreplies
    | raise e =>
      cases h
      exact .inl rfl
    | compose | last => cases h
  | opened cid' history =>
    cases session with
    | compose ports handoffId now acked =>
      obtain ⟨hrows, -⟩ := composeFor_spec u ports db handoffId now message cid' history
      simp only [advance, Invocation.message] at h
      split at h <;> cases h <;> exact .inl (replies_of_eq hrows.messages cid)
    | raise e =>
      cases h
      exact .inl rfl
    | first | last => cases h
  | composed cid' text fb =>
    cases session with
    | last id now acked =>
      by_cases he : cid' = cid
      · refine .inr ⟨congrArg some he, ?_⟩
        simp only [advance, Invocation.message] at h
        split at h <;> cases h
        · rfl
        · cases acked <;> rfl
      · have hsame := recordReply_replies u db id now message text fb he
        simp only [advance, Invocation.message] at h
        split at h <;> cases h <;> exact .inl hsame
    | raise e =>
      cases h
      exact .inl rfl
    | first | compose => cases h
  | ended outcome => cases session <;> cases h

/-- A step adds a reply only by ending a turn of that conversation. -/
theorem step_replies (hs : HandoffPause.step cfg s l = some t) (cid : Uuid) :
    replies t.base.conversations cid = replies s.base.conversations cid ∨
      ∃ i, turnOf s i = some cid ∧ turnOf t i = none := by
  cases l with
  | base l =>
    obtain ⟨b, hb, rfl⟩ := Option.map_eq_some_iff.mp hs
    cases step_stepped hb with
    | refused | callback | expire => exact .inl rfl
    | recorded hr =>
      obtain ⟨rows, hrows, hall⟩ := Ingress.recordMessages_rows hr
      refine .inl (replies_append hrows fun m hm => .inl ?_)
      obtain ⟨i, cid', message, -, rfl⟩ := hall m hm
      rfl
    | @worker w a q db d sent locks hact hmove =>
      rcases move_replies hmove cid with hsame | ⟨hp, hq⟩
      · exact .inl hsame
      · refine .inr ⟨.inl w, hp, ?_⟩
        simp only [turnOf, State.moved, Function.update_self]
        exact hq
  | call n message account token reachable =>
    simp only [HandoffPause.step] at hs
    split at hs
    · cases hs
    · split at hs
      · cases hs
        exact .inl rfl
      · split_ifs at hs <;> cases hs <;> exact .inl rfl
  | session n session =>
    simp only [HandoffPause.step] at hs
    split at hs
    · cases hs
    · rename_i message account scope token p hweb
      split at hs
      · cases hs
      · rename_i db p' hadv
        cases hs
        rcases advance_replies hadv cid with hsame | ⟨hp, hp'⟩
        · exact .inl hsame
        · refine .inr ⟨.inr n, ?_, ?_⟩
          · simp only [turnOf, hweb]
            exact hp
          · simp only [turnOf, HandoffPause.State.setWeb, Function.update_self]
            exact hp'
  | leave n reachable =>
    simp only [HandoffPause.step] at hs
    split at hs
    · cases hs
      left
      split_ifs <;> rfl
    · cases hs
  | crash n =>
    cases hs
    exact .inl rfl

theorem Ordered.replies_stay {i : Process} {cid : Uuid} (h : Ordered s)
    (hlast : Along (HandoffPause.step cfg) LeasesLast s schedule)
    (hopen : Along (HandoffPause.step cfg) (fun u _ => turnOf u i = some cid) s schedule)
    (hrun : exec (HandoffPause.step cfg) s schedule = some t) (hend : turnOf t i = some cid) :
    replies t.base.conversations cid = replies s.base.conversations cid := by
  induction schedule generalizing s with
  | nil =>
    cases hrun
    rfl
  | cons l schedule ih =>
    obtain ⟨v, hv, hrest⟩ := exec_cons_some.mp hrun
    have hstill : turnOf v i = some cid := by
      cases schedule with
      | nil =>
        cases hrest
        exact hend
      | cons l' schedule => exact (hopen.2 v hv).1
    rw [ih (ordered_step h hlast.1 hv) (hlast.2 v hv) (hopen.2 v hv) hrest]
    rcases step_replies hv cid with hsame | ⟨j, hj, hended⟩
    · exact hsame
    · rw [h.alone hj hopen.1, hstill] at hended
      cases hended

/-- The history is that of an earlier moment, since when nobody replied. -/
def Current (db : ConversationTables) (cid : Uuid) (history : List MessageRecord) : Prop :=
  ∃ past, recentMessages past cid 20 = .ok history ∧ Keeps past db ∧
    replies past cid = replies db cid

/-- Only the first session of a turn leaves a worker with a history. -/
theorem move_opened {base : Worker.State} {a : Action} {p : Phase} {db : ConversationTables}
    {d : DeliveryTables} {sent : List DeliveryRequest} {job : ClaimedInbound} {lease : Lease}
    {history : List MessageRecord} (h : Move cfg base a p (.opened job lease history) db d sent) :
    a = .lookup := by
  cases h with
  | lapse hq | settle hc hq | fail hc hq => cases hq.1
  | fresh => rfl
  | claim hq | created _ _ hq | finalize _ hq =>
    rcases hq with hq | hq
    · cases hq
    · cases hq.1
  | compose ports handoffId now hq =>
    rcases hq with ⟨text, fb, hq⟩ | hq
    · cases hq
    · cases hq.1
  | record id now hq | replayed _ _ hq =>
    rcases hq with ⟨reply, -, hq⟩ | hq
    · cases hq
    · cases hq.1

theorem advance_opened {u : Text.Unicode} {db db' : ConversationTables} {message : InboundMessage}
    {account : String} {p : Progress} {session : Session} {cid : Uuid}
    {history : List MessageRecord}
    (h : advance u (.respond message account) db p session = some (db', .opened cid history)) :
    recentMessages db' cid 20 = .ok history := by
  cases p with
  | begun =>
    cases session with
    | first draw acked =>
      simp only [advance, firstSession] at h
      cases hopen : openCall u db draw account message with
      | error e =>
        rw [hopen, error_bind] at h
        cases h
      | ok r =>
        obtain ⟨o, db₁⟩ := r
        cases o <;> rw [hopen, ok_bind] at h <;> cases acked <;> cases h
        exact (openCall_opened hopen).1
    | compose | last | raise => cases h
  | opened cid' history' =>
    cases session with
    | compose ports handoffId now acked =>
      simp only [advance] at h
      split at h <;> cases acked <;> cases h
    | first | last | raise => cases h
  | composed cid' text fb =>
    cases session with
    | last id now acked =>
      simp only [advance] at h
      split at h <;> cases acked <;> cases h
    | first | compose | raise => cases h
  | ended outcome => cases session <;> cases h

/-- A process that comes to hold a history has just read it. -/
theorem history_step (hs : HandoffPause.step cfg s l = some t) {i : Process} {cid : Uuid}
    {history : List MessageRecord} (h : historyOf t i = some (cid, history)) :
    historyOf s i = some (cid, history) ∨
      recentMessages t.base.conversations cid 20 = .ok history := by
  cases l with
  | base l =>
    obtain ⟨b, hb, rfl⟩ := Option.map_eq_some_iff.mp hs
    cases step_stepped hb with
    | refused | callback | expire | recorded =>
      left
      cases i <;> exact h
    | @worker w a q db d sent locks hact hmove =>
      cases i with
      | inr n => exact .inl h
      | inl w' =>
        by_cases hsame : w' = w
        · subst hsame
          simp only [historyOf] at h
          split at h
          · rename_i job lease history' hq
            cases h
            have hlookup : a = .lookup := by
              simp only [State.moved, Function.update_self] at hq
              exact move_opened (hq ▸ hmove)
            subst hlookup
            obtain ⟨hdb, hrecent⟩ := lookup_opened hact hq
            exact .inr (hdb ▸ hrecent)
          · cases h
        · left
          simpa [historyOf, State.moved, Function.update_of_ne hsame] using h
  | call n message account token reachable =>
    simp only [HandoffPause.step] at hs
    split at hs
    · cases hs
    · split at hs
      · cases hs
        exact .inl h
      · split_ifs at hs <;> cases hs
        · cases i with
          | inl w => exact .inl h
          | inr m =>
            by_cases hsame : m = n
            · simp [historyOf, HandoffPause.State.setWeb, hsame] at h
            · left
              simpa [historyOf, HandoffPause.State.setWeb, HandoffPause.State.withBase,
                hsame] using h
        · exact .inl h
  | session n session =>
    simp only [HandoffPause.step] at hs
    split at hs
    · cases hs
    · rename_i message account scope token p hweb
      split at hs
      · cases hs
      · rename_i db p' hadv
        cases hs
        cases i with
        | inl w => exact .inl h
        | inr m =>
          by_cases hsame : m = n
          · subst hsame
            simp only [historyOf, HandoffPause.State.setWeb, Function.update_self] at h
            split at h
            · rename_i hrun
              cases hrun
              cases h
              exact .inr (advance_opened hadv)
            · cases h
          · left
            simpa [historyOf, HandoffPause.State.setWeb, HandoffPause.State.withBase, hsame] using h
  | leave n reachable =>
    simp only [HandoffPause.step] at hs
    split at hs
    · cases hs
      cases i with
      | inl w =>
        left
        split_ifs at h <;> exact h
      | inr m =>
        by_cases hsame : m = n
        · simp [historyOf, HandoffPause.State.setWeb, hsame] at h
        · left
          simpa [historyOf, HandoffPause.State.setWeb, HandoffPause.State.withBase, hsame] using h
    · cases hs
  | crash n =>
    cases hs
    cases i with
    | inl w => exact .inl h
    | inr m =>
      by_cases hsame : m = n
      · simp [historyOf, HandoffPause.State.setWeb, hsame] at h
      · left
        simpa [historyOf, HandoffPause.State.setWeb, hsame] using h

/-- Every history that a process holds is current. -/
def Histories (s : HandoffPause.State) : Prop :=
  ∀ i cid history, historyOf s i = some (cid, history) →
    Current s.base.conversations cid history

theorem histories_step (h : Ordered s) (hc : Histories s)
    (hs : HandoffPause.step cfg s l = some t) : Histories t := by
  intro i cid history hi
  rcases history_step hs hi with hold | hread
  · obtain ⟨past, hrecent, hkeep, hreplies⟩ := hc i cid history hold
    refine ⟨past, hrecent, hkeep.trans (system_step h.known hs).1.extends.messages, ?_⟩
    rcases step_replies hs cid with hsame | ⟨j, hj, hended⟩
    · exact hreplies.trans hsame.symm
    · rw [h.alone hj (historyOf_turn hold), historyOf_turn hi] at hended
      cases hended
  · exact ⟨_, hread, .refl _, rfl⟩

end Replies

section Results
variable {s t : HandoffPause.State} {schedule : List HandoffPause.Label}

/-- A turn is undisturbed: from its first look at the history to the moment it records its
reply, nobody else adds a reply to the conversation. -/
theorem turn_undisturbed (cfg : Config) {before during : List HandoffPause.Label}
    (hbefore : exec (HandoffPause.step cfg) systemStart before = some s)
    (hduring : exec (HandoffPause.step cfg) s during = some t)
    (hlast : Along (HandoffPause.step cfg) LeasesLast systemStart before)
    (hlast' : Along (HandoffPause.step cfg) LeasesLast s during) {i : Process} {cid : Uuid}
    (hopen : Along (HandoffPause.step cfg) (fun u _ => turnOf u i = some cid) s during)
    (hend : turnOf t i = some cid) :
    replies t.base.conversations cid = replies s.base.conversations cid :=
  (ordered_run ordered_start hlast hbefore).replies_stay hlast' hopen hduring hend

theorem sample_undisturbed : ∃ s t,
    exec (HandoffPause.step sampleConfig) systemStart helloSchedule = some s ∧
      exec (HandoffPause.step sampleConfig) s crowdSchedule = some t ∧
      replies t.base.conversations 11 = replies s.base.conversations 11 := by
  obtain ⟨s, t, -, hs, ht, hturn, -, -, hopen⟩ := crowd_runs
  exact ⟨s, t, hs, ht, turn_undisturbed sampleConfig hs ht (leasesLast_along (by decide))
    (leasesLast_along (by decide)) hopen hturn⟩

/-- No turn composes from a stale history: what it has read are the last twenty messages of
the conversation at an earlier moment, and no reply was added to the conversation since. -/
theorem histories_current (cfg : Config)
    (hrun : exec (HandoffPause.step cfg) systemStart schedule = some t)
    (hlast : Along (HandoffPause.step cfg) LeasesLast systemStart schedule) {i : Process}
    {cid : Uuid} {history : List MessageRecord} (hi : historyOf t i = some (cid, history)) :
    Current t.base.conversations cid history := by
  have hstart : Histories systemStart := by
    rintro (w | n) cid history hi <;> cases hi
  exact (exec_invariant_along (I := fun s => Ordered s ∧ Histories s)
    (fun _ _ _ hi hl hs => ⟨ordered_step hi.1 hl hs, histories_step hi.1 hi.2 hs⟩)
    ⟨ordered_start, hstart⟩ hlast hrun).2 i cid history hi

theorem sample_current : ∃ t history,
    exec (HandoffPause.step sampleConfig) systemStart (helloSchedule ++ crowdSchedule) = some t ∧
      historyOf t (.inr 0) = some (11, history) ∧ history.length = 3 ∧
      Current t.base.conversations 11 history := by
  obtain ⟨s, t, history, hs, ht, -, hhistory, hlength, -⟩ := crowd_runs
  have hrun := exec_append.mpr ⟨s, hs, ht⟩
  exact ⟨t, history, hrun, hhistory, hlength,
    histories_current sampleConfig hrun (leasesLast_along (by decide)) hhistory⟩

end Results

end Piki.System
