import Piki.WebhookAnswers

/-! A request that is delivered again after it was answered. Every part of it is a duplicate,
whatever runs in between. -/
namespace Piki.WebhookHandlers
open Table Transition Webhook Ingress DeliveryStore Piki.System ConversationRepository
variable {api : Endpoint} {cfg : Worker.Config} {s t : State}

section Rows

/-- A stored row with the same key is met. -/
theorem conflict_met {ρ κ : Type*} [DecidableEq κ] (key : ρ → Option κ) {rows : List ρ} (row : ρ)
    {r : ρ} {k : κ} (hrow : key row = some k) (hr : r ∈ rows) (hk : key r = some k) :
    ∃ x, conflict key rows row = some x := by
  refine Option.ne_none_iff_exists'.mp ?_
  intro hnone
  exact conflict_eq_none.mp hnone k hrow r hr hk

/-- A message that is filed is a duplicate, and nothing is written for it. -/
theorem Filed.recordInbound {db : ConversationTables} {message : InboundMessage} {account : String}
    (h : Filed db message) (haccount : phoneNumberId message = .ok account) (draw : Draw) :
    ∃ p, ConversationRepository.recordInbound db draw account message
      ("meta:" ++ message.messageId) true = .ok (p, db) ∧ p.status = .duplicate := by
  obtain ⟨account', haccount', hlen, htrace⟩ := h.fits
  cases haccount.symm.trans haccount'
  obtain ⟨c, hc, hident⟩ := h.sender account haccount
  obtain ⟨m, hm, hext⟩ := h.row
  obtain ⟨c', hc'⟩ := conflict_met (fun c : ConversationRecord => some c.identity)
    ⟨draw.conversationUuid, message.channel, account, message.conversationId, .pikiActive⟩
    rfl hc (congrArg some hident)
  have hup : upsertConversation db draw.conversationUuid message.channel account
      message.conversationId = .ok (c'.id, db) := by
    unfold upsertConversation
    rw [column, if_pos hlen, ok_bind, column, if_pos message.conversationId_bounded.2, ok_bind]
    simp only [hc']
  generalize hrow : inboundRow draw c'.id message ("meta:" ++ message.messageId) true = row
  have hexternal : row.externalMessageId = some message.messageId := by
    rw [← hrow]
    rfl
  have hlength : (row.externalMessageId.getD "").length ≤ 255 := by
    rw [hexternal]
    exact message.messageId_bounded.2
  have htraced : row.traceId.length ≤ 128 := by
    rw [← hrow]
    exact htrace
  obtain ⟨m', hm'⟩ := conflict_met MessageRecord.externalMessageId row hexternal hm hext
  have hins : insertMessage db row = .ok (none, db) := by
    unfold insertMessage
    rw [column, if_pos hlength, ok_bind, column, if_pos htraced, ok_bind]
    simp only [hm']
  refine ⟨⟨.duplicate, c'.id, none⟩, ?_, rfl⟩
  rw [ConversationRepository.recordInbound, hup, ok_bind]
  dsimp only
  rw [hrow, hins, ok_bind]

/-- A callback that is noted meets its event, and its select finds the attempt. -/
theorem Noted.select {d : DeliveryTables} {callback : MetaStatusUpdate} (h : Noted d callback)
    (hu : Unique DeliveryAttemptRecord.providerMessageId d.attempts) :
    ∃ attempt, selectAttempt d callback.providerMessageId = .ok (some attempt) := by
  obtain ⟨a, ha, hp⟩ := h.attempt
  rw [selectAttempt_unique hu]
  cases hf : d.attempts.find? fun a => a.providerMessageId = some callback.providerMessageId with
  | none => simpa using List.find?_eq_none.mp hf a ha (decide_eq_true hp)
  | some x => exact ⟨x, rfl⟩

end Rows

section Redelivery

end Redelivery

end Piki.WebhookHandlers
