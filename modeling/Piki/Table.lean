import Mathlib

/-! Relational tables as lists of rows. A unique constraint is a partial key:
rows whose key is null never conflict. -/
namespace Piki.Table
variable {ρ κ : Type*}

/-- The declared unique constraint holds of the stored rows. -/
def Unique (key : ρ → Option κ) (rows : List ρ) : Prop := (rows.filterMap key).Nodup

/-- Rows that satisfy the condition are rewritten in place. -/
def updateWhere (p : ρ → Bool) (f : ρ → ρ) (rows : List ρ) : List ρ :=
  rows.map fun r => if p r then f r else r

variable [DecidableEq κ]

/-- The row a non-null key value conflicts with, if there is one. -/
def conflict (key : ρ → Option κ) (rows : List ρ) (row : ρ) : Option ρ :=
  rows.find? fun r => (key row).isSome && decide (key r = key row)

theorem conflict_eq_none {key : ρ → Option κ} {rows : List ρ} {row : ρ} :
    conflict key rows row = none ↔ ∀ k, key row = some k → ∀ r ∈ rows, key r ≠ some k := by
  simp only [conflict, List.find?_eq_none, Bool.and_eq_true, decide_eq_true_eq, not_and]
  constructor
  · intro h k hk r hr he
    exact h r hr (by simp [hk]) (he.trans hk.symm)
  · intro h r hr hs he
    obtain ⟨k, hk⟩ := Option.isSome_iff_exists.mp hs
    exact h k hk r hr (he.trans hk)

theorem conflict_eq_some {key : ρ → Option κ} {rows : List ρ} {row r : ρ}
    (h : conflict key rows row = some r) :
    r ∈ rows ∧ ∃ k, key row = some k ∧ key r = some k := by
  have hp := List.find?_some h
  simp only [Bool.and_eq_true, decide_eq_true_eq] at hp
  obtain ⟨k, hk⟩ := Option.isSome_iff_exists.mp hp.1
  exact ⟨List.mem_of_find?_eq_some h, k, hk, hp.2.trans hk⟩

omit [DecidableEq κ] in
theorem unique_nil (key : ρ → Option κ) : Unique key [] := by simp [Unique]

/-- An insert that met no conflict keeps the constraint. -/
theorem unique_append {key : ρ → Option κ} {rows : List ρ} {row : ρ}
    (hu : Unique key rows) (hc : conflict key rows row = none) :
    Unique key (rows ++ [row]) := by
  rw [conflict_eq_none] at hc
  cases hk : key row with
  | none => simpa [Unique, List.filterMap_append, hk] using hu
  | some k =>
    simp only [Unique, List.filterMap_append, List.filterMap_cons, hk, List.filterMap_nil]
    refine List.nodup_append.mpr ⟨hu, List.nodup_singleton k, ?_⟩
    intro a ha b hb hab
    obtain ⟨r, hr, hra⟩ := List.mem_filterMap.mp ha
    rw [List.mem_singleton] at hb
    exact hc k hk r hr (by rw [hra, hab, hb])

omit [DecidableEq κ] in
/-- Rewriting rows without touching the key keeps the constraint. -/
theorem unique_updateWhere {key : ρ → Option κ} {rows : List ρ} {p : ρ → Bool} {f : ρ → ρ}
    (hf : ∀ r, p r = true → key (f r) = key r) (hu : Unique key rows) :
    Unique key (updateWhere p f rows) := by
  have he : (updateWhere p f rows).filterMap key = rows.filterMap key := by
    rw [updateWhere, List.filterMap_map]
    congr 1
    funext r
    by_cases hp : p r = true
    · simp [hp, hf r hp]
    · simp [hp]
  rwa [Unique, he]

omit [DecidableEq κ] in
theorem unique_tail {key : ρ → Option κ} {r : ρ} {rows : List ρ} (hu : Unique key (r :: rows)) :
    Unique key rows := by
  cases hk : key r with
  | none => simpa [Unique, hk] using hu
  | some k =>
    simp only [Unique, List.filterMap_cons, hk, List.nodup_cons] at hu
    exact hu.2

omit [DecidableEq κ] in
theorem unique_head {key : ρ → Option κ} {r x : ρ} {rows : List ρ} {k : κ}
    (hu : Unique key (r :: rows)) (hr : key r = some k) (hx : x ∈ rows) : key x ≠ some k := by
  intro he
  simp only [Unique, List.filterMap_cons, hr, List.nodup_cons] at hu
  exact hu.1 (List.mem_filterMap.mpr ⟨x, hx, he⟩)

omit [DecidableEq κ] in
theorem unique_eq {key : ρ → Option κ} {rows : List ρ} (hu : Unique key rows)
    {a b : ρ} {k : κ} (ha : a ∈ rows) (hb : b ∈ rows) (hka : key a = some k)
    (hkb : key b = some k) : a = b := by
  induction rows with
  | nil => simp at ha
  | cons r rows ih =>
    rcases List.mem_cons.mp ha with rfl | ha'
    · rcases List.mem_cons.mp hb with rfl | hb'
      · rfl
      · exact absurd hkb (unique_head hu hka hb')
    · rcases List.mem_cons.mp hb with rfl | hb'
      · exact absurd hka (unique_head hu hkb ha')
      · exact ih (unique_tail hu) ha' hb'

omit [DecidableEq κ] in
/-- At most one stored row carries a given key. -/
theorem unique_count {key : ρ → Option κ} {rows : List ρ} (hu : Unique key rows) {k : κ}
    {q : ρ → Bool} (hq : ∀ r, q r = true → key r = some k) : rows.countP q ≤ 1 := by
  induction rows with
  | nil => simp
  | cons r rows ih =>
    by_cases hr : q r = true
    · have hz : rows.countP q = 0 := by
        rw [List.countP_eq_zero]
        intro x hx hqx
        exact unique_head hu (hq r hr) hx (hq x hqx)
      simp [hr, hz]
    · simpa [List.countP_cons, hr] using ih (unique_tail hu)

omit [DecidableEq κ] in
@[grind =] theorem mem_updateWhere {rows : List ρ} {p : ρ → Bool} {f : ρ → ρ} {r : ρ} :
    r ∈ updateWhere p f rows ↔ ∃ x ∈ rows, r = if p x then f x else x := by
  simp only [updateWhere, List.mem_map]
  constructor
  · rintro ⟨x, hx, rfl⟩
    exact ⟨x, hx, rfl⟩
  · rintro ⟨x, hx, rfl⟩
    exact ⟨x, hx, rfl⟩

example : updateWhere (fun n => decide (n < 3)) (· + 10) [1, 5, 2] = [11, 5, 12] := by decide +kernel

omit [DecidableEq κ] in
/-- What a rewrite leaves alone, it leaves alone in every row. -/
theorem map_updateWhere {α : Type*} {rows : List ρ} {p : ρ → Bool} {f : ρ → ρ} {g : ρ → α}
    (hg : ∀ r, p r = true → g (f r) = g r) : (updateWhere p f rows).map g = rows.map g := by
  rw [updateWhere, List.map_map]
  refine List.map_congr_left ?_
  intro r _
  by_cases hp : p r = true
  · simp [hp, hg r hp]
  · simp [hp]

omit [DecidableEq κ] in
/-- A key that is a function of what two tables share is unique in both. -/
theorem unique_of_map {α : Type*} {rows rows' : List ρ} {g : ρ → α} (key : α → Option κ)
    (hmap : rows'.map g = rows.map g) (hu : Unique (fun r => key (g r)) rows) :
    Unique (fun r => key (g r)) rows' := by
  have hkey : ∀ rs : List ρ, rs.filterMap (fun r => key (g r)) = (rs.map g).filterMap key := by
    intro rs
    rw [List.filterMap_map]
    rfl
  rw [Unique, hkey] at hu ⊢
  rwa [hmap]

omit [DecidableEq κ] in
/-- A stored row is the only one that its key selects. -/
theorem unique_filter {key : ρ → Option κ} {rows : List ρ} (hu : Unique key rows) {k : κ}
    {q : ρ → Bool} (hq : ∀ r, q r = true ↔ key r = some k) {x : ρ} (hx : x ∈ rows)
    (hk : key x = some k) : rows.filter q = [x] := by
  induction rows with
  | nil => cases hx
  | cons r rows ih =>
    rcases List.mem_cons.mp hx with rfl | hx
    · have hrest : rows.filter q = [] := by
        rw [List.filter_eq_nil_iff]
        intro y hy hqy
        exact unique_head hu hk hy ((hq y).mp hqy)
      rw [List.filter_cons_of_pos ((hq x).mpr hk), hrest]
    · have hr : ¬ q r = true := fun hqr => unique_head hu ((hq r).mp hqr) hx hk
      rw [List.filter_cons_of_neg hr]
      exact ih (unique_tail hu) hx

omit [DecidableEq κ] in
/-- A selection that neither the old nor the new version of a rewritten row meets
is not disturbed by the rewrite. -/
theorem filter_updateWhere {rows : List ρ} {p q : ρ → Bool} {f : ρ → ρ}
    (h : ∀ r ∈ rows, p r = true → q r = false ∧ q (f r) = false) :
    (updateWhere p f rows).filter q = rows.filter q := by
  induction rows with
  | nil => rfl
  | cons r rows ih =>
    obtain ⟨hr, hrows⟩ := List.forall_mem_cons.mp h
    have htail : (rows.map fun r => if p r then f r else r).filter q = rows.filter q := ih hrows
    by_cases hp : p r = true
    · simp [updateWhere, hp, (hr hp).1, (hr hp).2, htail]
    · simp only [updateWhere, List.map_cons, hp, Bool.false_eq_true, if_false, List.filter_cons,
        htail]

omit [DecidableEq κ] in
/-- A rewrite that keeps what a selection tests commutes with it. -/
theorem filter_updateWhere_keep {rows : List ρ} {p q : ρ → Bool} {f : ρ → ρ}
    (h : ∀ r, p r = true → q (f r) = q r) :
    (updateWhere p f rows).filter q = updateWhere p f (rows.filter q) := by
  rw [updateWhere, List.filter_map, updateWhere]
  refine congrArg _ (List.filter_congr ?_)
  intro r _
  by_cases hp : p r = true
  · simp [hp, h r hp]
  · simp [hp]

omit [DecidableEq κ] in
theorem any_updateWhere {rows : List ρ} {p q : ρ → Bool} {f : ρ → ρ}
    (h : ∀ r ∈ rows, p r = true → q (f r) = q r) : (updateWhere p f rows).any q = rows.any q := by
  induction rows with
  | nil => rfl
  | cons r rows ih =>
    obtain ⟨hr, hrows⟩ := List.forall_mem_cons.mp h
    have htail : (rows.map fun r => if p r then f r else r).any q = rows.any q := ih hrows
    by_cases hp : p r = true
    · simp only [updateWhere, List.map_cons, hp, if_true, List.any_cons, hr hp, htail]
    · simp only [updateWhere, List.map_cons, hp, Bool.false_eq_true, if_false, List.any_cons,
        htail]

omit [DecidableEq κ] in
/-- Rewrites of different rows commute. -/
theorem updateWhere_comm {rows : List ρ} {p q : ρ → Bool} {f g : ρ → ρ}
    (hp : ∀ r ∈ rows, p r = true → q r = false ∧ q (f r) = false)
    (hq : ∀ r ∈ rows, q r = true → p (g r) = false) :
    updateWhere p f (updateWhere q g rows) = updateWhere q g (updateWhere p f rows) := by
  simp only [updateWhere, List.map_map]
  refine List.map_congr_left ?_
  intro r hr
  by_cases hpr : p r = true
  · simp [hpr, hp r hr hpr]
  · by_cases hqr : q r = true
    · simp [hpr, hqr, hq r hr hqr]
    · simp [hpr, hqr]

/-- Whether a row conflicts does not depend on the order of the stored rows. -/
theorem conflict_perm {key : ρ → Option κ} {rows rows' : List ρ} (h : rows.Perm rows') (row : ρ) :
    conflict key rows row = none ↔ conflict key rows' row = none := by
  simp only [conflict_eq_none, h.mem_iff]

omit [DecidableEq κ] in
/-- A row that a table keeps in place up to some columns is found in the later table. -/
theorem mem_of_map_prefix {α : Type*} {rows rows' : List ρ} {g : ρ → α}
    (h : rows.map g <+: rows'.map g) {r : ρ} (hr : r ∈ rows) : ∃ r' ∈ rows', g r' = g r :=
  List.mem_map.mp (h.subset (List.mem_map.mpr ⟨r, hr, rfl⟩))

/-- Every foreign key names a row of the other table. -/
def Refers {σ : Type*} (fk : ρ → κ) (rows : List ρ) (pk : σ → κ) (targets : List σ) : Prop :=
  ∀ r ∈ rows, ∃ t ∈ targets, pk t = fk r

section Refers
variable {σ : Type*} {fk : ρ → κ} {rows : List ρ} {pk : σ → κ} {targets targets' : List σ}

omit [DecidableEq κ] in
theorem refers_nil (fk : ρ → κ) (pk : σ → κ) (targets : List σ) : Refers fk [] pk targets := by
  intro r hr
  cases hr

omit [DecidableEq κ] in
/-- References survive whatever keeps the keys of the target table. -/
theorem Refers.mono (h : Refers fk rows pk targets)
    (hkeys : ∀ t ∈ targets, ∃ t' ∈ targets', pk t' = pk t) : Refers fk rows pk targets' := by
  intro r hr
  obtain ⟨t, ht, he⟩ := h r hr
  obtain ⟨t', ht', he'⟩ := hkeys t ht
  exact ⟨t', ht', he'.trans he⟩

omit [DecidableEq κ] in
theorem Refers.append (h : Refers fk rows pk targets) {row : ρ}
    (hrow : ∃ t ∈ targets, pk t = fk row) : Refers fk (rows ++ [row]) pk targets := by
  intro r hr
  rcases List.mem_append.mp hr with hr | hr
  · exact h r hr
  · rw [List.mem_singleton.mp hr]
    exact hrow

omit [DecidableEq κ] in
theorem Refers.updateWhere {p : ρ → Bool} {f : ρ → ρ} (h : Refers fk rows pk targets)
    (hf : ∀ r, fk (f r) = fk r) : Refers fk (updateWhere p f rows) pk targets := by
  intro r hr
  obtain ⟨x, hx, rfl⟩ := mem_updateWhere.mp hr
  obtain ⟨t, ht, he⟩ := h x hx
  refine ⟨t, ht, he.trans ?_⟩
  split_ifs
  · exact (hf x).symm
  · rfl

end Refers

end Piki.Table
