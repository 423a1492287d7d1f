import Piki.SystemRuns

/-! What holds of the database in every reachable state of the whole system, whatever
workers, webhooks, callbacks and calls of `respond` do, and in whatever order. -/
namespace Piki.System
open Table Transition ConversationRepository ConversationOrchestrator MessageProcessingStore Worker
variable {cfg : Config} {s t : HandoffPause.State}

/-- The system begins with an empty database. -/
def systemStart : HandoffPause.State := HandoffPause.start .empty .empty

section Samples

/-- A webhook delivers a message that asks for a person, and a worker answers it. -/
def personSchedule : List HandoffPause.Label :=
  .base (.ingest (fun _ => ⟨1, 2, 0, 0⟩) [HandoffPause.askPerson]) ::
    (recordActions ++ deliverActions).map fun a => .base (.worker 1 a)

/-- A visitor of the web page then asks for picks. -/
def visitSchedule : List HandoffPause.Label :=
  [.call 0 Isolation.ana "local" 8 true, .session 0 (.first ⟨11, 12, 1, 1⟩ true),
    .session 0 (.compose offlinePorts 19 1 true), .session 0 (.last 13 1 true), .leave 0 true]

/-- The traces of the stored rows, the statuses of conversations and messages, and what
was sent. -/
structure Summary where
  traces : List String
  conversations : List ConversationWorkflowStatus
  messages : List (Option ProcessingStatus)
  sent : List String
  deriving DecidableEq

def summary (s : HandoffPause.State) : Summary where
  traces := s.base.conversations.messages.map MessageRecord.traceId ++
    s.base.conversations.handoffs.map HandoffRecord.traceId ++
    s.base.deliveries.tables.attempts.map DeliveryAttemptRecord.traceId ++
    s.base.deliveries.tables.events.map DeliveryStatusEventRecord.traceId
  conversations := s.base.conversations.conversations.map ConversationRecord.status
  messages := s.base.conversations.messages.map MessageRecord.processingStatus
  sent := s.base.sentKeys

def sampleSummary : Summary where
  traces := ["meta:wamid.1", "conversation:wamid.1", "conversation:1", "conversation:1",
    "conversation:wamid.1", "conversation:wamid.1", "conversation:wamid.1"]
  conversations := [.needsHuman, .pikiActive]
  messages := [some .completed, none, none, none]
  sent := ["reply:wamid.1"]

set_option maxRecDepth 10000 in
theorem exec_samples :
    ((exec (HandoffPause.step sampleConfig) systemStart personSchedule).bind fun s =>
      (exec (HandoffPause.step sampleConfig) s visitSchedule).map fun t =>
        ((summary s).conversations, summary t)) = some ([.needsHuman], sampleSummary) := by
  decide

/-- The two halves of the sample run, with a conversation that waits in between. -/
theorem exec_halves : ∃ s t, exec (HandoffPause.step sampleConfig) systemStart personSchedule = some s ∧
    exec (HandoffPause.step sampleConfig) s visitSchedule = some t ∧
    s.base.conversations.conversations.map ConversationRecord.status = [.needsHuman] := by
  obtain ⟨s, hs, hrest⟩ := Option.bind_eq_some_iff.mp exec_samples
  obtain ⟨t, ht, hsummary⟩ := Option.map_eq_some_iff.mp hrest
  exact ⟨s, t, hs, ht, congrArg Prod.fst hsummary⟩

theorem exec_visitSchedule :
    (exec (HandoffPause.step sampleConfig) systemStart (personSchedule ++ visitSchedule)).map summary =
      some sampleSummary := by
  obtain ⟨s, hs, hrest⟩ := Option.bind_eq_some_iff.mp exec_samples
  obtain ⟨t, ht, hsummary⟩ := Option.map_eq_some_iff.mp hrest
  rw [exec_append.mpr ⟨s, hs, ht⟩, Option.map_some]
  exact congrArg some (congrArg Prod.snd hsummary)

end Samples

/-- The unique keys of the schema hold and no foreign key dangles. -/
theorem references_resolve (cfg : Config) {schedule : List HandoffPause.Label}
    (hrun : exec (HandoffPause.step cfg) systemStart schedule = some t) :
    t.base.conversations.Constraints ∧ UniqueAttempts t.base.deliveries.tables ∧
      Referenced (tablesOf t.base) := by
  have hknown := (system_reachable hrun).base.tables
  exact ⟨hknown.constraints, hknown.attempts, hknown.references⟩

theorem sample_references : ∃ t,
    exec (HandoffPause.step sampleConfig) systemStart (personSchedule ++ visitSchedule) = some t ∧
      summary t = sampleSummary ∧ t.base.conversations.Constraints ∧
      UniqueAttempts t.base.deliveries.tables ∧ Referenced (tablesOf t.base) := by
  obtain ⟨t, ht, hsummary⟩ := Option.map_eq_some_iff.mp exec_visitSchedule
  exact ⟨t, ht, hsummary, references_resolve sampleConfig ht⟩

/-- Whatever was sent went to the person who wrote the message that it answers. -/
theorem sent_addressed (cfg : Config) {schedule : List HandoffPause.Label}
    (hrun : exec (HandoffPause.step cfg) systemStart schedule = some t) :
    ∀ request ∈ t.base.sent, Addressed (tablesOf t.base) request :=
  (system_reachable hrun).base.sent

theorem sample_addressed : ∃ t,
    exec (HandoffPause.step sampleConfig) systemStart (personSchedule ++ visitSchedule) = some t ∧
      t.base.sentKeys = ["reply:wamid.1"] ∧
      ∀ request ∈ t.base.sent, Addressed (tablesOf t.base) request := by
  obtain ⟨t, ht, hsummary⟩ := Option.map_eq_some_iff.mp exec_visitSchedule
  exact ⟨t, ht, congrArg Summary.sent hsummary, sent_addressed sampleConfig ht⟩

/-- The database is append-only up to statuses: from any reachable state on, every row
stays in its place with its identifying columns, contents and trace. -/
theorem history_append_only (cfg : Config) {before after : List HandoffPause.Label}
    (hbefore : exec (HandoffPause.step cfg) systemStart before = some s)
    (hafter : exec (HandoffPause.step cfg) s after = some t) :
    Extends (tablesOf s.base) (tablesOf t.base) :=
  (system_writes (system_reachable hbefore) hafter).extends

theorem sample_appends : ∃ s t,
    exec (HandoffPause.step sampleConfig) systemStart personSchedule = some s ∧
      exec (HandoffPause.step sampleConfig) s visitSchedule = some t ∧
      Extends (tablesOf s.base) (tablesOf t.base) := by
  obtain ⟨s, t, hs, ht, -⟩ := exec_halves
  exact ⟨s, t, hs, ht, history_append_only sampleConfig hs ht⟩

/-- A conversation waits for a person exactly if a handoff of it is stored, there is
never a second one, and once it waits it waits in every later state. -/
theorem handoff_flag_final (cfg : Config) {before after : List HandoffPause.Label}
    (hbefore : exec (HandoffPause.step cfg) systemStart before = some s)
    (hafter : exec (HandoffPause.step cfg) s after = some t) :
    Flagged s.base.conversations ∧ ∀ c ∈ s.base.conversations.conversations,
      c.status = .needsHuman →
        ∃ c' ∈ t.base.conversations.conversations, c'.id = c.id ∧ c'.status = .needsHuman := by
  have hs := system_reachable hbefore
  have hwrites := system_writes hs hafter
  have hflags := (hwrites.consistent hs.base.tables).flags
  refine ⟨hs.base.tables.flags, ?_⟩
  intro c hc hstatus
  obtain ⟨c', hc', hid, -⟩ := hwrites.extends.conversation hc
  refine ⟨c', hc', hid, ?_⟩
  rcases hs.base.tables.flags.status c hc with ⟨-, x, hx, hxc⟩ | ⟨hactive, -⟩
  · have hx' : x ∈ t.base.conversations.handoffs := hwrites.extends.handoffs.subset hx
    rcases hflags.status c' hc' with ⟨hs', -⟩ | ⟨-, hno⟩
    · exact hs'
    · exact absurd (hxc.trans hid.symm) (hno x hx')
  · rw [hactive] at hstatus
    cases hstatus

/-- The person who was asked for in the first half is still waited for after the second. -/
theorem sample_waits : ∃ s t,
    exec (HandoffPause.step sampleConfig) systemStart personSchedule = some s ∧
      exec (HandoffPause.step sampleConfig) s visitSchedule = some t ∧
      Flagged s.base.conversations ∧ (∃ c ∈ s.base.conversations.conversations,
        c.status = .needsHuman) ∧ ∀ c ∈ s.base.conversations.conversations, c.status = .needsHuman →
        ∃ c' ∈ t.base.conversations.conversations, c'.id = c.id ∧ c'.status = .needsHuman := by
  obtain ⟨s, t, hs, ht, hstatus⟩ := exec_halves
  obtain ⟨hflags, hwaits⟩ := handoff_flag_final sampleConfig hs ht
  obtain ⟨c, hc, hneeds⟩ := List.mem_map.mp (hstatus ▸ List.mem_singleton_self _)
  exact ⟨s, t, hs, ht, hflags, ⟨c, hc, hneeds⟩, hwaits⟩

section Acknowledged

/-- The row of a message as the webhook delivered it, in its conversation and enqueued. -/
structure StoredAs (db : ConversationTables) (m : MessageRecord) (message : InboundMessage) :
    Prop where
  inbound : m.direction = .inbound
  kind : m.kind = message.kind
  text : m.contentText = message.text
  enqueued : m.traceId = "meta:" ++ message.messageId
  conversation : ∃ account, Ingress.phoneNumberId message = .ok account ∧
    ∃ c ∈ db.conversations, c.id = m.conversationId ∧
      c.identity = (message.channel, account, message.conversationId)

theorem StoredAs.extends {d db' : Ingress.Tables} {m m' : MessageRecord} {message : InboundMessage}
    (h : StoredAs d.conversations m message) (he : Extends d db') (hc : m'.content = m.content) :
    StoredAs db'.conversations m' message := by
  obtain ⟨account, haccount, c, hcm, hid, hident⟩ := h.conversation
  obtain ⟨c', hc', hid', hident'⟩ := he.conversation hcm
  have hcid := content_field MessageRecord.conversationId (fun _ => rfl) hc
  exact ⟨(content_field MessageRecord.direction (fun _ => rfl) hc).trans h.inbound,
    (content_field MessageRecord.kind (fun _ => rfl) hc).trans h.kind,
    (content_field MessageRecord.contentText (fun _ => rfl) hc).trans h.text,
    (content_field MessageRecord.traceId (fun _ => rfl) hc).trans h.enqueued, account, haccount, c',
    hc', hid'.trans (hid.trans hcid.symm), hident'.trans hident⟩

end Acknowledged

end Piki.System
