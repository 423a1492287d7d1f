import Piki.WorkerCompletion

/-! Results of the delivery service agree. However often the reply to a message is sent
again, every result that names a provider message names the one that the attempt stores,
and the stored id never changes. -/
namespace Piki.Worker
open Table Transition ConversationRepository MessageProcessingStore DeliveryTruth
variable {cfg : Config} {s t : State} {d d' : DeliveryTables} {key p q : String}

/-- The attempt of this key stores this provider id. -/
def DeliveredAs (d : DeliveryTables) (key p : String) : Prop :=
  ∃ a ∈ d.attempts, a.idempotencyKey = key ∧ a.providerMessageId = some p

theorem DeliveredAs.grows (h : DeliveredAs d key p) (hg : Grows d d') : DeliveredAs d' key p := by
  obtain ⟨a, ha, hk, hp⟩ := h
  obtain ⟨a', ha', -, hk', hp'⟩ := hg a ha p hp
  exact ⟨a', ha', hk'.trans hk, hp'⟩

/-- A key has one attempt, so one provider id. -/
theorem DeliveredAs.unique (hu : UniqueAttempts d) (hp : DeliveredAs d key p)
    (hq : DeliveredAs d key q) : p = q := by
  obtain ⟨a, ha, hk, hap⟩ := hp
  obtain ⟨b, hb, hk', hbq⟩ := hq
  have hsame := unique_eq hu.key ha hb (congrArg some hk) (congrArg some hk')
  rw [hsame, hbq] at hap
  exact (Option.some.inj hap).symm

theorem grows_trans {d₁ d₂ d₃ : DeliveryTables} (h : Grows d₁ d₂) (h' : Grows d₂ d₃) :
    Grows d₁ d₃ := by
  intro a ha p hp
  obtain ⟨b, hb, hid, hk, hbp⟩ := h a ha p hp
  obtain ⟨c, hc, hid', hk', hcp⟩ := h' b hb p hbp
  exact ⟨c, hc, hid'.trans hid, hk'.trans hk, hcp⟩

/-- A result that a worker is about to act on repeats the stored attempt. -/
def Phase.Repeats (d : DeliveryTables) (ph : Phase) : Prop :=
  ∀ job result, ph = .settling job result → ∀ p, result.providerMessageId = some p →
    DeliveredAs d (replyKeyOf job) p

theorem Phase.Repeats.grows {ph : Phase} (h : ph.Repeats d) (hg : Grows d d') : ph.Repeats d' :=
  fun job result he p hp => (h job result he p hp).grows hg

/-- Every step keeps the stored provider ids. -/
theorem grows_step {l : Label} (h : HonestInv s) (hs : step cfg s l = some t) :
    Grows s.deliveries.tables t.deliveries.tables := by
  cases step_stepped hs with
  | refused | recorded | expire => exact .refl _
  | callback hc => exact (sound_callback h.once.attempts.id h.sound h.reads hc).2.2
  | @worker w _ _ _ _ _ locks hact hmove => exact (hmove.deliveries h.sound (h.phases w)).2

section Samples

end Samples

end Piki.Worker
