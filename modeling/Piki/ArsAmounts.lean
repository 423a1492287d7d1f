import Piki.Evidence
import Piki.TextWords
import Mathlib.Data.Nat.Digits.Lemmas

/-! `format_ars_cents` of any integer: the written amount has groups of three digits and
can be read back. -/
namespace Piki.Money

section Chunks
variable {α : Type} {n : ℕ}

/-- Chunks of `n` items, the last of at least one. -/
theorem toChunks_go_shape (hn : 0 < n) (xs : List α) (acc : Array α) (done : Array (List α))
    (hacc : 1 ≤ acc.size ∧ acc.size ≤ n) :
    ∃ init last, List.toChunks.go n xs acc done = done.toList ++ (init ++ [last]) ∧
      (init ++ [last]).flatten = acc.toList ++ xs ∧ (∀ c ∈ init, c.length = n) ∧
      1 ≤ last.length ∧ last.length ≤ n := by
  induction xs generalizing acc done with
  | nil =>
    refine ⟨[], acc.toList, ?_, ?_, ?_, ?_⟩
    · simp [List.toChunks.go]
    · simp
    · simp
    · simpa using hacc
  | cons x xs ih =>
    by_cases hfull : acc.size = n
    · obtain ⟨init, last, hgo, hflat, hinit, hlast⟩ :=
        ih ((Array.mkEmpty n).push x) (done.push acc.toList) (by simp; omega)
      refine ⟨acc.toList :: init, last, ?_, ?_, ?_, hlast⟩
      · rw [List.toChunks.go, if_pos (by simpa using hfull), hgo]
        simp
      · rw [List.cons_append, List.flatten_cons, hflat]
        simp
      · intro c hc
        rcases List.mem_cons.mp hc with rfl | hc
        · simpa using hfull
        · exact hinit c hc
    · obtain ⟨init, last, hgo, hflat, hrest⟩ := ih (acc.push x) done (by simp; omega)
      refine ⟨init, last, ?_, ?_, hrest⟩
      · simp [List.toChunks.go, hfull, hgo]
      · rw [hflat]
        simp

theorem toChunks_shape (hn : 0 < n) {xs : List α} (hne : xs ≠ []) :
    ∃ init last, xs.toChunks n = init ++ [last] ∧ (init ++ [last]).flatten = xs ∧
      (∀ c ∈ init, c.length = n) ∧ 1 ≤ last.length ∧ last.length ≤ n := by
  obtain ⟨k, rfl⟩ : ∃ k, n = k + 1 := ⟨n - 1, by omega⟩
  cases xs with
  | nil => exact absurd rfl hne
  | cons x xs =>
    obtain ⟨init, last, hgo, hflat, hrest⟩ :=
      toChunks_go_shape hn xs #[x] #[] (by simp)
    exact ⟨init, last, by simpa [List.toChunks] using hgo, by simpa using hflat, hrest⟩

end Chunks

section Digits

/-- Only zero is written with a leading zero. -/
theorem toDigits_head (n : ℕ) (h : (Nat.toDigits 10 n).head? = some '0') : n = 0 := by
  induction n using Nat.strong_induction_on with
  | _ n ih =>
    by_cases hn : n < 10
    · rw [Nat.toDigits_of_lt_base hn] at h
      clear ih
      interval_cases n <;> first | rfl | exact absurd h (by decide)
    · have hquotient : n / 10 < n := by omega
      rw [Nat.toDigits_of_base_le (by decide) (by omega),
        List.head?_append_of_ne_nil _ Nat.toDigits_ne_nil] at h
      have hzero := ih (n / 10) hquotient h
      omega

theorem roundSignificant_of_lt {n : ℕ} (h : n < 10 ^ 28) : roundSignificant n = n := by
  have hlen : (Nat.digits 10 n).length ≤ 28 := (Nat.digits_length_le_iff (by decide) n).mpr h
  have hk : (Nat.digits 10 n).length - 28 = 0 := by omega
  simp [roundSignificant, hk, Nat.mod_one]

end Digits

/-- `format_ars_cents`: past its guard the amount is a natural number. -/
def formatArsCents (cents : ℤ) : Except Failure String :=
  if cents < 0 then .error (.value "ARS cents cannot be negative")
  else .ok (Piki.formatArsCents cents.toNat)

/-- An amount as it is written: groups of three digits after a first one of one to three,
which has no leading zero unless it is the only digit, and two decimals. -/
structure Written (text first : List Char) (rest : List (List Char)) (decimals : List Char) :
    Prop where
  text_eq : text = ['$'] ++ first ++ rest.flatMap (fun group => '.' :: group) ++ [','] ++ decimals
  digits : ∀ c ∈ first ++ rest.flatten ++ decimals, c.isDigit = true
  first_length : 1 ≤ first.length ∧ first.length ≤ 3
  first_zero : first.head? = some '0' → first = ['0'] ∧ rest = []
  rest_length : ∀ group ∈ rest, group.length = 3
  decimals_length : decimals.length = 2

theorem groupThousands_shape {digits : List Char} (hne : digits ≠ []) :
    ∃ (first : List Char) (rest : List (List Char)),
      groupThousands digits = first ++ rest.flatMap (fun group => '.' :: group) ∧
      first ++ rest.flatten = digits ∧ (1 ≤ first.length ∧ first.length ≤ 3) ∧
      ∀ group ∈ rest, group.length = 3 := by
  have hrev : digits.reverse ≠ [] := by simpa using hne
  obtain ⟨init, last, hchunks, hflat, hinit, hlast⟩ := toChunks_shape (n := 3) (by decide) hrev
  refine ⟨last.reverse, (init.map List.reverse).reverse, ?_, ?_, by simpa using hlast, ?_⟩
  · have hlist : ((init ++ [last]).map List.reverse).reverse =
        last.reverse :: (init.map List.reverse).reverse := by simp
    rw [groupThousands, hchunks, hlist, Text.intercalate_flatMap]
    rfl
  · have hback : ((init ++ [last]).flatten).reverse = digits := by
      rw [hflat, List.reverse_reverse]
    rw [← hback, List.reverse_flatten]
    simp
  · intro group hgroup
    obtain ⟨chunk, hchunk, rfl⟩ := List.mem_map.mp (List.mem_reverse.mp hgroup)
    rw [List.length_reverse]
    exact hinit chunk hchunk

/-- The last two digits, padded with zeros. -/
def paddedCents (cents : ℕ) : List Char :=
  List.replicate (2 - (Nat.toDigits 10 cents).length) '0' ++ Nat.toDigits 10 cents

theorem paddedCents_spec {cents : ℕ} (h : cents < 100) :
    (paddedCents cents).length = 2 ∧ (∀ c ∈ paddedCents cents, c.isDigit = true) ∧
      ∀ n, Nat.ofDigitChars 10 (paddedCents cents) n = 100 * n + cents := by
  have hlen : (Nat.toDigits 10 cents).length ≤ 2 :=
    (Nat.length_toDigits_le_iff (by decide) (by decide)).mpr (by omega)
  have hpadded : (paddedCents cents).length = 2 := by
    simp only [paddedCents, List.length_append, List.length_replicate]
    omega
  refine ⟨hpadded, ?_, ?_⟩
  · intro c hc
    rcases List.mem_append.mp hc with hin | hin
    · rw [List.eq_of_mem_replicate hin]
      decide
    · exact Nat.isDigit_of_mem_toDigits (by decide) (by decide) hin
  · intro n
    have hread : Nat.ofDigitChars 10 (paddedCents cents) 0 = cents := by
      rw [paddedCents, Nat.ofDigitChars_append, Nat.ofDigitChars_replicate_zero, Nat.mul_zero,
        Nat.ofDigitChars_ten_toDigits]
    rw [Nat.ofDigitChars_eq_ofDigitChars_zero, hpadded, hread]

theorem formatArsCents_eq {cents : ℕ} (h : cents < 10 ^ 28) :
    (Piki.formatArsCents cents).toList =
      ['$'] ++ groupThousands (Nat.toDigits 10 (cents / 100)) ++ [','] ++
        paddedCents (cents % 100) := by
  simp only [Piki.formatArsCents, roundSignificant_of_lt h, String.toList_ofList,
    Nat.toString_eq_repr, Nat.toList_repr, paddedCents, List.append_assoc]

/-- What is left of a written amount without the dollar sign, the points and the comma. -/
def bareDigits (text : List Char) : List Char :=
  text.filter fun c => decide (c ∉ ['$', '.', ','])

theorem bareDigits_digits {ds : List Char} (h : ∀ c ∈ ds, c.isDigit = true) :
    bareDigits ds = ds := by
  refine List.filter_eq_self.mpr ?_
  intro c hc
  rw [decide_eq_true_iff]
  intro hmem
  have hdigit := h c hc
  simp only [List.mem_cons, List.not_mem_nil, or_false] at hmem
  rcases hmem with rfl | rfl | rfl <;> exact absurd hdigit (by decide)

example : bareDigits "$1.250,00".toList = "125000".toList := by decide +kernel

theorem bareDigits_groups {rest : List (List Char)}
    (h : ∀ c ∈ rest.flatten, c.isDigit = true) :
    bareDigits (rest.flatMap fun group => '.' :: group) = rest.flatten := by
  induction rest with
  | nil => rfl
  | cons group rest ih =>
    simp only [List.flatten_cons, List.mem_append] at h
    have hgroup : bareDigits ('.' :: group) = group :=
      bareDigits_digits fun c hc => h c (.inl hc)
    rw [List.flatMap_cons, bareDigits, List.filter_append]
    exact congrArg₂ (· ++ ·) hgroup (ih fun c hc => h c (.inr hc))

theorem Written.bareDigits_eq {text first : List Char} {rest : List (List Char)}
    {decimals : List Char} (h : Written text first rest decimals) :
    bareDigits text = first ++ rest.flatten ++ decimals := by
  have hdigits := h.digits
  simp only [List.mem_append] at hdigits
  have hfirst : bareDigits first = first := bareDigits_digits fun c hc => hdigits c (.inl (.inl hc))
  have hrest := bareDigits_groups fun c hc => hdigits c (.inl (.inr hc))
  have hdecimals : bareDigits decimals = decimals := bareDigits_digits fun c hc => hdigits c (.inr hc)
  have hdollar : bareDigits ['$'] = [] := rfl
  have hcomma : bareDigits [','] = [] := rfl
  simp only [bareDigits] at hfirst hrest hdecimals hdollar hcomma ⊢
  rw [h.text_eq]
  simp only [List.filter_append, hfirst, hrest, hdecimals, hdollar, hcomma, List.nil_append,
    List.append_nil]

theorem formatArsCents_written {cents : ℕ} (h : cents < 10 ^ 28) :
    ∃ first rest decimals, Written (Piki.formatArsCents cents).toList first rest decimals ∧
      Nat.ofDigitChars 10 (bareDigits (Piki.formatArsCents cents).toList) 0 = cents := by
  obtain ⟨first, rest, hgroups, hflat, hlength, hthree⟩ :=
    groupThousands_shape (Nat.toDigits_ne_nil (b := 10) (n := cents / 100))
  obtain ⟨hpadded, hpaddedDigits, hread⟩ := paddedCents_spec (Nat.mod_lt cents (by decide : 0 < 100))
  have hwritten : Written (Piki.formatArsCents cents).toList first rest
      (paddedCents (cents % 100)) := by
    refine ⟨?_, ?_, hlength, ?_, hthree, hpadded⟩
    · rw [formatArsCents_eq h, hgroups]
      simp only [List.append_assoc]
    · intro c hc
      rw [hflat] at hc
      rcases List.mem_append.mp hc with hin | hin
      · exact Nat.isDigit_of_mem_toDigits (by decide) (by decide) hin
      · exact hpaddedDigits c hin
    · intro hzero
      have hne : first ≠ [] := List.length_pos_iff.mp hlength.1
      have hhead : (Nat.toDigits 10 (cents / 100)).head? = some '0' := by
        rw [← hflat, List.head?_append_of_ne_nil _ hne, hzero]
      rw [toDigits_head _ hhead, Nat.toDigits_zero] at hflat
      rcases List.append_eq_singleton_iff.mp hflat with ⟨hnil, -⟩ | ⟨hfirst, hrest⟩
      · exact absurd hnil hne
      · refine ⟨hfirst, List.eq_nil_iff_forall_not_mem.mpr ?_⟩
        intro group hgroup
        have hthree := hthree group hgroup
        have hnone : group = [] := List.flatten_eq_nil_iff.mp hrest group hgroup
        rw [hnone] at hthree
        cases hthree
  refine ⟨first, rest, paddedCents (cents % 100), hwritten, ?_⟩
  rw [hwritten.bareDigits_eq, hflat, Nat.ofDigitChars_append, Nat.ofDigitChars_ten_toDigits, hread]
  omega

/-- A negative amount is refused. Any other below `10 ^ 28` is written in groups of three
digits with two decimals, and the digits alone give it back. -/
theorem formatArsCents_round_trip (cents : ℤ) :
    (cents < 0 → formatArsCents cents = .error (.value "ARS cents cannot be negative")) ∧
    (0 ≤ cents ∧ cents < 10 ^ 28 → ∃ text, formatArsCents cents = .ok text ∧
      (∃ first rest decimals, Written text.toList first rest decimals) ∧
      (Nat.ofDigitChars 10 (bareDigits text.toList) 0 : ℤ) = cents ∧
      ∀ other, 0 ≤ other ∧ other < 10 ^ 28 → formatArsCents other = .ok text → other = cents) := by
  have hread : ∀ c : ℤ, 0 ≤ c ∧ c < 10 ^ 28 → formatArsCents c = .ok (Piki.formatArsCents c.toNat) ∧
      ∃ first rest decimals,
        Written (Piki.formatArsCents c.toNat).toList first rest decimals ∧
        (Nat.ofDigitChars 10 (bareDigits (Piki.formatArsCents c.toNat).toList) 0 : ℤ) = c := by
    intro c hc
    have hnat : c.toNat < 10 ^ 28 := by omega
    obtain ⟨first, rest, decimals, hwritten, hdigits⟩ := formatArsCents_written hnat
    refine ⟨if_neg (by omega), first, rest, decimals, hwritten, ?_⟩
    rw [hdigits]
    exact Int.toNat_of_nonneg hc.1
  constructor
  · intro hneg
    exact if_pos hneg
  · intro hc
    obtain ⟨hok, first, rest, decimals, hwritten, hdigits⟩ := hread cents hc
    refine ⟨_, hok, ⟨first, rest, decimals, hwritten⟩, hdigits, ?_⟩
    intro other hother hsame
    obtain ⟨hotherOk, -, -, -, -, hotherDigits⟩ := hread other hother
    have htext : Piki.formatArsCents other.toNat = Piki.formatArsCents cents.toNat :=
      Except.ok.inj (hotherOk.symm.trans hsame)
    rw [← hotherDigits, htext, hdigits]

example : formatArsCents 123456789 = .ok "$1.234.567,89" := by decide +kernel
example : formatArsCents (-1) = .error (.value "ARS cents cannot be negative") := by decide +kernel

end Piki.Money
