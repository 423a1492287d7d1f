import Mathlib

/-! A key-value store whose entries expire. -/
namespace Piki.Expiring
variable {κ ν : Type*}

/-- Each entry carries the time from which it no longer counts. -/
structure Store (κ ν : Type*) where
  now : ℕ
  entries : κ → Option (ν × ℕ)

namespace Store

/-- The entry under a key, unless it has expired. -/
def live (r : Store κ ν) (k : κ) : Option (ν × ℕ) := (r.entries k).filter fun e => r.now < e.2

def get (r : Store κ ν) (k : κ) : Option ν := (r.live k).map Prod.fst

def advance (r : Store κ ν) (d : ℕ) : Store κ ν := { r with now := r.now + d }

section
variable [DecidableEq κ]

/-- `SET key value NX`, with a time to live. -/
def setNx (r : Store κ ν) (k : κ) (v : ν) (ttl : ℕ) : Bool × Store κ ν :=
  match r.live k with
  | some _ => (false, r)
  | none => (true, { r with entries := Function.update r.entries k (some (v, r.now + ttl)) })

/-- `SET key value`, with a time to live. -/
def set (r : Store κ ν) (k : κ) (v : ν) (ttl : ℕ) : Store κ ν :=
  { r with entries := Function.update r.entries k (some (v, r.now + ttl)) }

def delete (r : Store κ ν) (k : κ) : Store κ ν :=
  { r with entries := Function.update r.entries k none }

/-- Delete the key if it holds the value. -/
def deleteIf [DecidableEq ν] (r : Store κ ν) (k : κ) (v : ν) : Bool × Store κ ν :=
  if r.get k = some v then (true, { r with entries := Function.update r.entries k none })
  else (false, r)

end

@[grind =] theorem get_eq_some {r : Store κ ν} {k : κ} {v : ν} :
    r.get k = some v ↔ ∃ t, r.live k = some (v, t) := by
  simp [get]

theorem live_eq_some {r : Store κ ν} {k : κ} {v : ν} {t : ℕ} :
    r.live k = some (v, t) ↔ r.entries k = some (v, t) ∧ r.now < t := by
  simp [live, Option.filter_eq_some_iff]

theorem live_advance {r : Store κ ν} {d : ℕ} {k : κ} {v : ν} {t : ℕ} :
    (r.advance d).live k = some (v, t) ↔ r.live k = some (v, t) ∧ r.now + d < t := by
  rw [live_eq_some, live_eq_some]
  constructor
  · rintro ⟨he, hlt⟩
    exact ⟨⟨he, (Nat.le_add_right _ d).trans_lt hlt⟩, hlt⟩
  · rintro ⟨⟨he, -⟩, hlt⟩
    exact ⟨he, hlt⟩

section
variable [DecidableEq κ]

theorem entries_set {r : Store κ ν} {k k' : κ} {v v' : ν} {ttl t : ℕ} :
    (r.set k v ttl).entries k' = some (v', t) ↔
      (k' = k ∧ v' = v ∧ t = r.now + ttl) ∨ (k' ≠ k ∧ r.entries k' = some (v', t)) := by
  by_cases he : k' = k
  · subst he
    simp [set, eq_comm]
  · simp [set, he]

theorem entries_delete {r : Store κ ν} {k k' : κ} {e : ν × ℕ} :
    (r.delete k).entries k' = some e ↔ k' ≠ k ∧ r.entries k' = some e := by
  by_cases he : k' = k
  · subst he
    simp [delete]
  · simp [delete, he]

theorem get_set_of_ne (r : Store κ ν) {k k' : κ} (v : ν) (ttl : ℕ) (h : k' ≠ k) :
    (r.set k v ttl).get k' = r.get k' := by
  have he : (r.set k v ttl).entries k' = r.entries k' := Function.update_of_ne h _ _
  rw [get, live, he]
  rfl

theorem get_set_self (r : Store κ ν) (k : κ) (v : ν) {ttl : ℕ} (h : 1 ≤ ttl) :
    (r.set k v ttl).get k = some v := by
  have hlt : r.now < r.now + ttl := by omega
  simp [get, live, set, hlt]

theorem get_delete_of_ne (r : Store κ ν) {k k' : κ} (h : k' ≠ k) :
    (r.delete k).get k' = r.get k' := by
  have he : (r.delete k).entries k' = r.entries k' := Function.update_of_ne h _ _
  rw [get, live, he]
  rfl

theorem get_delete_self (r : Store κ ν) (k : κ) : (r.delete k).get k = none := by
  simp [get, live, delete]

theorem setNx_fst {r : Store κ ν} {k : κ} {v : ν} {ttl : ℕ} :
    (r.setNx k v ttl).1 = true ↔ r.live k = none := by
  unfold setNx
  cases r.live k <;> simp

@[simp] theorem setNx_now (r : Store κ ν) (k : κ) (v : ν) (ttl : ℕ) :
    (r.setNx k v ttl).2.now = r.now := by
  unfold setNx
  cases r.live k <;> rfl

theorem live_setNx {r : Store κ ν} {k k' : κ} {v : ν} {ttl : ℕ} (httl : 0 < ttl) :
    (r.setNx k v ttl).2.live k' =
      if k' = k ∧ r.live k = none then some (v, r.now + ttl) else r.live k' := by
  unfold setNx
  cases hk : r.live k with
  | some e => simp
  | none =>
    by_cases he : k' = k
    · subst he
      simp [live, httl]
    · simp [live, he]

variable [DecidableEq ν]

@[simp] theorem deleteIf_now (r : Store κ ν) (k : κ) (v : ν) : (r.deleteIf k v).2.now = r.now := by
  unfold deleteIf
  split_ifs <;> rfl

theorem live_deleteIf {r : Store κ ν} {k k' : κ} {v : ν} :
    (r.deleteIf k v).2.live k' = if k' = k ∧ r.get k = some v then none else r.live k' := by
  unfold deleteIf
  by_cases hg : r.get k = some v
  · by_cases he : k' = k
    · subst he
      simp [live, hg]
    · simp [live, he, hg]
  · simp [hg]

/-- Afterwards the value is not stored under the key, whoever deleted it. -/
theorem get_deleteIf_ne (r : Store κ ν) (k : κ) (v : ν) : (r.deleteIf k v).2.get k ≠ some v := by
  intro h
  obtain ⟨t, ht⟩ := get_eq_some.mp h
  rw [live_deleteIf] at ht
  split_ifs at ht with hc
  exact hc ⟨rfl, get_eq_some.mpr ⟨t, ht⟩⟩

end
end Store
end Piki.Expiring
