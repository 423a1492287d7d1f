import Piki.Encoding
import Piki.Orchestrator

/-! The Redis keys of `state/coordination.py`, `state/active_pick.py` and
`state/pending_actions.py`. The hash is a parameter. -/
namespace Piki.RedisKeys
open Encoding

def channelValue : Channel → String
  | .whatsapp => "whatsapp"
  | .web => "web"

def separator : Char := '\x1f'

/-- `"\x1f".join(parts)`. -/
def joined (parts : List String) : String := (String.singleton separator).intercalate parts

section
variable (sha256Hex : ByteArray → String)

/-- `hashlib.sha256(identity.encode()).hexdigest()`. -/
def digest (identity : String) : String := sha256Hex identity.toByteArray

def scopeIdentity (scope : ConversationScope) : String :=
  joined [channelValue scope.channel, scope.channelAccountId, scope.conversationId]

def conversationScopeDigest (scope : ConversationScope) : String :=
  digest sha256Hex (scopeIdentity scope)

def conversationPrefix : String := "piki:v1:conversation"

/-- A key of one conversation ends with the kind of state it holds. -/
def conversationKey (kind : String) (scope : ConversationScope) : String :=
  conversationPrefix ++ ":" ++ conversationScopeDigest sha256Hex scope ++ ":" ++ kind

def lockKeyFor (scope : ConversationScope) : String := conversationKey sha256Hex "lock" scope
def activePickKeyFor (scope : ConversationScope) : String :=
  conversationKey sha256Hex "active-pick" scope
def pendingActionKeyFor (scope : ConversationScope) : String :=
  conversationKey sha256Hex "pending-action" scope

/-- What `RedisMessageDeduplicator.claim` accepts: neither part is blank. -/
structure DedupIdentity where
  channelAccountId : String
  messageId : String
  account_given : Text.strip channelAccountId.toList ≠ []
  message_given : Text.strip messageId.toList ≠ []

def inboundMessagePrefix : String := "piki:v1:inbound-message"

def dedupKeyFor (identity : DedupIdentity) : String :=
  inboundMessagePrefix ++ ":" ++
    digest sha256Hex (joined [identity.channelAccountId, identity.messageId])

/-- What a key is made for. -/
inductive Subject
  | lock (scope : ConversationScope)
  | activePick (scope : ConversationScope)
  | pendingAction (scope : ConversationScope)
  | dedup (identity : DedupIdentity)

def keyFor : Subject → String
  | .lock scope => lockKeyFor sha256Hex scope
  | .activePick scope => activePickKeyFor sha256Hex scope
  | .pendingAction scope => pendingActionKeyFor sha256Hex scope
  | .dedup identity => dedupKeyFor sha256Hex identity

end

/-- The family of a key, with the channel of a conversation. -/
inductive Family
  | lock (channel : Channel)
  | activePick (channel : Channel)
  | pendingAction (channel : Channel)
  | dedup
  deriving DecidableEq

def Subject.family : Subject → Family
  | .lock scope => .lock scope.channel
  | .activePick scope => .activePick scope.channel
  | .pendingAction scope => .pendingAction scope.channel
  | .dedup _ => .dedup

/-- The two parts of an identity that come from outside. -/
def Subject.parts : Subject → List Char × List Char
  | .lock scope | .activePick scope | .pendingAction scope =>
    (scope.channelAccountId.toList, scope.conversationId.toList)
  | .dedup identity => (identity.channelAccountId.toList, identity.messageId.toList)

/-- One account id is the other one, a separator and a text with which the other
conversation or message id starts, up to a separator. -/
def Ambiguous (x y : Subject) : Prop :=
  x.family = y.family ∧
    (Overruns separator x.parts y.parts ∨ Overruns separator y.parts x.parts)

theorem scope_eq {s t : ConversationScope} (hc : s.channel = t.channel)
    (hp : (s.channelAccountId.toList, s.conversationId.toList) =
      (t.channelAccountId.toList, t.conversationId.toList)) : s = t := by
  obtain ⟨ha, hm⟩ := Prod.mk.inj hp
  cases s
  cases t
  simp_all [String.toList_inj]

theorem subject_eq_iff (x y : Subject) : x = y ↔ x.family = y.family ∧ x.parts = y.parts := by
  constructor
  · rintro rfl
    exact ⟨rfl, rfl⟩
  · rintro ⟨hf, hp⟩
    cases x <;> cases y <;> simp only [Subject.family, reduceCtorEq, Family.lock.injEq,
      Family.activePick.injEq, Family.pendingAction.injEq] at hf
    · exact congrArg Subject.lock (scope_eq hf hp)
    · exact congrArg Subject.activePick (scope_eq hf hp)
    · exact congrArg Subject.pendingAction (scope_eq hf hp)
    · rename_i i j
      obtain ⟨ha, hm⟩ := Prod.mk.inj hp
      cases i
      cases j
      simp_all [String.toList_inj]

theorem joined_pair (a b : String) : (joined [a, b]).toList = a.toList ++ separator :: b.toList := by
  simp [joined]

example : joined ["web", "a", "b"] = "web\x1fa\x1fb" := by decide +kernel

theorem scopeIdentity_toList (scope : ConversationScope) :
    (scopeIdentity scope).toList = (channelValue scope.channel).toList ++ separator ::
      (scope.channelAccountId.toList ++ separator :: scope.conversationId.toList) := by
  simp [scopeIdentity, joined]

/-- The name of a channel holds no separator, so it can be read off. -/
theorem scopeIdentity_eq_iff (s t : ConversationScope) :
    scopeIdentity s = scopeIdentity t ↔ s.channel = t.channel ∧
      s.channelAccountId.toList ++ separator :: s.conversationId.toList =
        t.channelAccountId.toList ++ separator :: t.conversationId.toList := by
  rw [← String.toList_inj, scopeIdentity_toList, scopeIdentity_toList]
  constructor
  · intro h
    have hchannel : s.channel = t.channel := by
      cases hs : s.channel <;> cases ht : t.channel <;> simp [hs, ht, channelValue] at h ⊢
    rw [hchannel] at h
    exact ⟨hchannel, (List.cons.inj (List.append_cancel_left h)).2⟩
  · rintro ⟨hc, h⟩
    rw [hc, h]

section
variable {sha256Hex : ByteArray → String}

theorem digest_eq_iff (hsha : Function.Injective sha256Hex) (a b : String) :
    digest sha256Hex a = digest sha256Hex b ↔ a = b := by
  rw [digest, digest, hsha.eq_iff, String.toByteArray_inj]

theorem conversationKey_eq_iff (kind : String) (s t : ConversationScope) :
    conversationKey sha256Hex kind s = conversationKey sha256Hex kind t ↔
      conversationScopeDigest sha256Hex s = conversationScopeDigest sha256Hex t := by
  simp only [conversationKey, String.append_left_inj, String.append_right_inj]

theorem conversationKey_suffix (sha256Hex : ByteArray → String) (kind : String)
    (scope : ConversationScope) :
    (":" ++ kind).toList <:+ (conversationKey sha256Hex kind scope).toList := by
  refine ⟨(conversationPrefix ++ ":" ++ conversationScopeDigest sha256Hex scope).toList, ?_⟩
  simp [conversationKey]

/-- Keys that are equal end alike, whatever the digests are. -/
theorem conversationKey_kind {kind kind' : String} {s t : ConversationScope}
    (h : conversationKey sha256Hex kind s = conversationKey sha256Hex kind' t) :
    (":" ++ kind).toList <:+ (":" ++ kind').toList ∨
      (":" ++ kind').toList <:+ (":" ++ kind).toList := by
  have hs := conversationKey_suffix sha256Hex kind s
  rw [h] at hs
  exact List.suffix_or_suffix_of_suffix hs (conversationKey_suffix sha256Hex kind' t)

theorem conversationKey_ne_dedup (kind : String) (s : ConversationScope) (i : DedupIdentity) :
    conversationKey sha256Hex kind s ≠ dedupKeyFor sha256Hex i := by
  intro h
  have hlist := congrArg String.toList h
  simp [conversationKey, dedupKeyFor, conversationPrefix, inboundMessagePrefix] at hlist

theorem lockKeyFor_ne_activePick (s t : ConversationScope) :
    lockKeyFor sha256Hex s ≠ activePickKeyFor sha256Hex t :=
  fun h => absurd (conversationKey_kind h) (by decide)

theorem lockKeyFor_ne_pendingAction (s t : ConversationScope) :
    lockKeyFor sha256Hex s ≠ pendingActionKeyFor sha256Hex t :=
  fun h => absurd (conversationKey_kind h) (by decide)

theorem activePickKeyFor_ne_pendingAction (s t : ConversationScope) :
    activePickKeyFor sha256Hex s ≠ pendingActionKeyFor sha256Hex t :=
  fun h => absurd (conversationKey_kind h) (by decide)

theorem conversationKey_eq_iff_parts (hsha : Function.Injective sha256Hex) (kind : String)
    (s t : ConversationScope) :
    conversationKey sha256Hex kind s = conversationKey sha256Hex kind t ↔
      s.channel = t.channel ∧ s.channelAccountId.toList ++ separator :: s.conversationId.toList =
        t.channelAccountId.toList ++ separator :: t.conversationId.toList := by
  rw [conversationKey_eq_iff, conversationScopeDigest, conversationScopeDigest,
    digest_eq_iff hsha, scopeIdentity_eq_iff]

theorem dedupKeyFor_eq_iff (hsha : Function.Injective sha256Hex) (i j : DedupIdentity) :
    dedupKeyFor sha256Hex i = dedupKeyFor sha256Hex j ↔
      i.channelAccountId.toList ++ separator :: i.messageId.toList =
        j.channelAccountId.toList ++ separator :: j.messageId.toList := by
  rw [dedupKeyFor, dedupKeyFor, String.append_right_inj, digest_eq_iff hsha, ← String.toList_inj,
    joined_pair, joined_pair]

/-- A part that contains the separator is not told from two parts. -/
example : joined ["a\x1fb", "c"] = joined ["a", "b\x1fc"] := by decide +kernel

/-- A key determines its family and the joined parts of the identity. -/
theorem keyFor_eq_iff (hsha : Function.Injective sha256Hex) (x y : Subject) :
    keyFor sha256Hex x = keyFor sha256Hex y ↔ x.family = y.family ∧
      x.parts.1 ++ separator :: x.parts.2 = y.parts.1 ++ separator :: y.parts.2 := by
  cases x with
  | lock s =>
    cases y with
    | lock t =>
      simpa [Subject.family, Subject.parts, keyFor, lockKeyFor] using
        conversationKey_eq_iff_parts hsha "lock" s t
    | activePick t => exact iff_of_false (lockKeyFor_ne_activePick s t) (by simp [Subject.family])
    | pendingAction t =>
      exact iff_of_false (lockKeyFor_ne_pendingAction s t) (by simp [Subject.family])
    | dedup i => exact iff_of_false (conversationKey_ne_dedup _ s i) (by simp [Subject.family])
  | activePick s =>
    cases y with
    | lock t =>
      exact iff_of_false (fun h => lockKeyFor_ne_activePick t s h.symm) (by simp [Subject.family])
    | activePick t =>
      simpa [Subject.family, Subject.parts, keyFor, activePickKeyFor] using
        conversationKey_eq_iff_parts hsha "active-pick" s t
    | pendingAction t =>
      exact iff_of_false (activePickKeyFor_ne_pendingAction s t) (by simp [Subject.family])
    | dedup i => exact iff_of_false (conversationKey_ne_dedup _ s i) (by simp [Subject.family])
  | pendingAction s =>
    cases y with
    | lock t =>
      exact iff_of_false (fun h => lockKeyFor_ne_pendingAction t s h.symm)
        (by simp [Subject.family])
    | activePick t =>
      exact iff_of_false (fun h => activePickKeyFor_ne_pendingAction t s h.symm)
        (by simp [Subject.family])
    | pendingAction t =>
      simpa [Subject.family, Subject.parts, keyFor, pendingActionKeyFor] using
        conversationKey_eq_iff_parts hsha "pending-action" s t
    | dedup i => exact iff_of_false (conversationKey_ne_dedup _ s i) (by simp [Subject.family])
  | dedup i =>
    cases y with
    | lock t | activePick t | pendingAction t =>
      exact iff_of_false (fun h => conversationKey_ne_dedup _ t i h.symm) (by simp [Subject.family])
    | dedup j =>
      simpa [Subject.family, Subject.parts, keyFor] using dedupKeyFor_eq_iff hsha i j

/-- Under an injective hash, two keys are equal only for the same subject, unless one
account id runs over the separator that ends the other one. -/
theorem keys_distinct_iff (hsha : Function.Injective sha256Hex) (x y : Subject) :
    (keyFor sha256Hex x = keyFor sha256Hex y → x = y) ↔ ¬ Ambiguous x y := by
  rw [keyFor_eq_iff hsha, join_eq_iff, subject_eq_iff]
  constructor
  · rintro h ⟨hf, hover⟩
    have hparts := (h ⟨hf, .inr hover⟩).2
    rcases hover with hover | hover
    · exact hover.ne hparts
    · exact hover.ne hparts.symm
  · rintro hno ⟨hf, hparts | hover⟩
    · exact ⟨hf, hparts⟩
    · exact absurd ⟨hf, hover⟩ hno

end

section Samples

def webScope (account conversation : String) (ha : Bounded 1 255 account)
    (hc : Bounded 1 255 conversation) : ConversationScope := ⟨.web, account, conversation, ha, hc⟩

/-- The same lock guards two conversations of two accounts, whatever the hash is. -/
theorem separator_in_account_shares_lock :
    Subject.lock (webScope "a\x1fb" "c" (by decide) (by decide)) ≠
        .lock (webScope "a" "b\x1fc" (by decide) (by decide)) ∧
      ∀ sha256Hex, keyFor sha256Hex (.lock (webScope "a\x1fb" "c" (by decide) (by decide))) =
        keyFor sha256Hex (.lock (webScope "a" "b\x1fc" (by decide) (by decide))) := by
  refine ⟨?_, ?_⟩
  · intro h
    have hparts := ((subject_eq_iff _ _).mp h).2
    exact absurd (congrArg Prod.fst hparts) (by decide)
  · intro sha256Hex
    have hid : scopeIdentity (webScope "a\x1fb" "c" (by decide) (by decide)) =
        scopeIdentity (webScope "a" "b\x1fc" (by decide) (by decide)) := by
      decide
    simp only [keyFor, lockKeyFor, conversationKey, conversationScopeDigest, hid]

def consoleScope (conversation : String) (hc : Bounded 1 255 conversation) : ConversationScope :=
  webScope "piki-local-console" conversation (by decide +kernel) hc

/-- Agrees with SHA-256 on two identities and keeps every other one apart. -/
def sampleSha256 (bytes : ByteArray) : String :=
  if bytes = "web\x1fpiki-local-console\x1fa".toByteArray then
    "6b348c802f70ed2375a333619129105d05917c03866ef3f1555b6997e2e7551d"
  else if bytes = "web\x1fpiki-local-console\x1fb".toByteArray then
    "ec15995bc0729758da8b2f2775444ac2b0cf10ff7cb64c79996c612759101cdf"
  else String.ofList ('-' :: bytes.data.toList.map fun b => Char.ofNat b.toNat)

theorem byteChar_injective : Function.Injective fun b : UInt8 => Char.ofNat b.toNat := by
  intro a b h
  have hvalid : ∀ c : UInt8, (Char.ofNat c.toNat).toNat = c.toNat := by
    intro c
    have hc := c.toNat_lt
    rw [Char.toNat_ofNat, if_pos (.inl (by omega))]
  have hnat := congrArg Char.toNat h
  simp only [hvalid] at hnat
  exact UInt8.toNat_inj.mp hnat

theorem sampleSha256_injective : Function.Injective sampleSha256 := by
  intro a b h
  have hd : ∀ (digest : String) (l : List Char), digest.toList.head? ≠ some '-' →
      digest ≠ String.ofList ('-' :: l) := by
    rintro digest l hne rfl
    simp at hne
  unfold sampleSha256 at h
  split_ifs at h with ha hb hb' ha' hb hb' hb hb'
  · exact ha.trans hb.symm
  · exact absurd h (by decide)
  · exact absurd h (hd _ _ (by decide))
  · exact absurd h (by decide)
  · exact ha'.trans hb'.symm
  · exact absurd h (hd _ _ (by decide))
  · exact absurd h.symm (hd _ _ (by decide))
  · exact absurd h.symm (hd _ _ (by decide))
  · have hmap := (List.cons.inj (String.ofList_injective h)).2
    exact ByteArray.ext (Array.toList_inj.mp (byteChar_injective.list_map hmap))

/-- Two conversations of one account have different locks. -/
theorem console_locks_distinct :
    keyFor sampleSha256 (.lock (consoleScope "a" (by decide))) ≠
      keyFor sampleSha256 (.lock (consoleScope "b" (by decide))) := by
  intro h
  have hsame := (keys_distinct_iff sampleSha256_injective _ _).mpr ?_ h
  · exact absurd (congrArg (fun x => x.parts.2) hsame) (by decide)
  · rintro ⟨-, ⟨w, hw, -⟩ | ⟨w, hw, -⟩⟩
    · simpa [Subject.parts, consoleScope, webScope] using congrArg List.length hw
    · simpa [Subject.parts, consoleScope, webScope] using congrArg List.length hw

end Samples
end Piki.RedisKeys
