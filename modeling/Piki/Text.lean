import Mathlib

/-! Python `str` operations on lists of code points. Whitespace is the exact set
of `str.isspace`; the rest of the character database is a parameter constrained
by the documented facts the program relies on. -/
namespace Piki.Text

/-- The separators of `str.split` and `str.strip`, and the class `\s` of `re`. -/
def isSpace (c : Char) : Bool :=
  let n := c.toNat
  (9 ≤ n && n ≤ 13) || (28 ≤ n && n ≤ 32) || n == 0x85 || n == 0xA0 || n == 0x1680 ||
    (0x2000 ≤ n && n ≤ 0x200A) || n == 0x2028 || n == 0x2029 || n == 0x202F ||
    n == 0x205F || n == 0x3000

def rstripBy (p : Char → Bool) (s : List Char) : List Char :=
  (s.reverse.dropWhile p).reverse

def strip (s : List Char) : List Char := rstripBy isSpace (s.dropWhile isSpace)

/-- `str.split()` without a separator: maximal runs of non-whitespace. -/
def split (s : List Char) : List (List Char) := (s.splitOnP isSpace).filter (· ≠ [])

/-- `" ".join(s.split())`. -/
def collapse (s : List Char) : List Char := [' '].intercalate (split s)

/-- `needle in haystack`. -/
def contains (haystack needle : List Char) : Bool := needle <:+: haystack

theorem contains_iff {haystack needle : List Char} :
    contains haystack needle = true ↔ needle <:+: haystack := by simp [contains]

/-- Character data outside the ASCII range is taken from the interpreter's
Unicode version. The laws are the ones its documentation fixes. -/
structure Unicode where
  isDecimal : Char → Bool
  isAlnum : Char → Bool
  casefold : Char → List Char
  upper : Char → List Char
  /-- Representative of the class of characters equal under `re.IGNORECASE`. -/
  reFold : Char → Char
  /-- Compatibility decomposition without its combining characters. -/
  plain : Char → List Char
  decimal_alnum : ∀ c, isDecimal c = true → isAlnum c = true
  alnum_not_space : ∀ c, isAlnum c = true → isSpace c = false
  decimal_casefold : ∀ c, isDecimal c = true → casefold c = [c]
  decimal_upper : ∀ c, isDecimal c = true → upper c = [c]
  decimal_reFold : ∀ c, isDecimal c = true → reFold c = c
  ascii_decimal : ∀ c, c.toNat < 128 → isDecimal c = c.isDigit
  ascii_alnum : ∀ c, c.toNat < 128 → isAlnum c = c.isAlphanum
  ascii_casefold : ∀ c, c.toNat < 128 → casefold c = [c.toLower]
  ascii_upper : ∀ c, c.toNat < 128 → upper c = [c.toUpper]
  ascii_reFold : ∀ c, c.toNat < 128 → reFold c = c.toLower
  ascii_plain : ∀ c, c.toNat < 128 → plain c = [c]

namespace Unicode
variable (u : Unicode)

/-- The class `\w`. -/
def isWord (c : Char) : Bool := u.isAlnum c || c == '_'

def casefoldText (s : List Char) : List Char := s.flatMap u.casefold
def upperText (s : List Char) : List Char := s.flatMap u.upper

theorem decimal_word {c : Char} (h : u.isDecimal c = true) : u.isWord c = true := by
  simp [isWord, u.decimal_alnum c h]

theorem decimal_not_space {c : Char} (h : u.isDecimal c = true) : isSpace c = false :=
  u.alnum_not_space c (u.decimal_alnum c h)

theorem space_not_word {c : Char} (h : isSpace c = true) : u.isWord c = false := by
  have ha : u.isAlnum c = false := by
    cases he : u.isAlnum c with
    | false => rfl
    | true => rw [u.alnum_not_space c he] at h; cases h
  have hu : (c == '_') = false := by
    cases he : c == '_' with
    | false => rfl
    | true => rw [beq_iff_eq.mp he] at h; exact absurd h (by decide)
  simp [isWord, ha, hu]

end Unicode

theorem rstripBy_self {p : Char → Bool} {s : List Char}
    (h : ∀ c, s.getLast? = some c → p c = false) : rstripBy p s = s := by
  induction s using List.reverseRecOn with
  | nil => rfl
  | append_singleton s c _ =>
    have hc := h c (by simp)
    simp [rstripBy, hc]

theorem rstripBy_isPrefix (p : Char → Bool) (s : List Char) : rstripBy p s <+: s := by
  have h := List.dropWhile_suffix p (l := s.reverse)
  simpa [rstripBy] using List.reverse_prefix.mpr h

theorem rstripBy_last (p : Char → Bool) (s : List Char) :
    ∀ c, (rstripBy p s).getLast? = some c → p c = false := by
  intro c hc
  rw [rstripBy, List.getLast?_reverse] at hc
  have hn := List.head?_dropWhile_not p s.reverse
  rw [hc] at hn
  simpa using hn

theorem strip_isInfix (s : List Char) : strip s <:+: s :=
  (rstripBy_isPrefix _ _).isInfix.trans (List.dropWhile_suffix _).isInfix

/-- Neither end of a stripped text is whitespace. -/
theorem strip_head (s : List Char) : ∀ c, (strip s).head? = some c → isSpace c = false := by
  intro c hc
  have hp := rstripBy_isPrefix isSpace (s.dropWhile isSpace)
  obtain ⟨t, ht⟩ := hp
  have hd : (s.dropWhile isSpace).head? = some c := by
    rw [← ht]
    simp only [strip] at hc
    cases hr : rstripBy isSpace (s.dropWhile isSpace) with
    | nil => simp [hr] at hc
    | cons a as => simpa [hr] using hc
  have hn := List.head?_dropWhile_not isSpace s
  rw [hd] at hn
  simpa using hn

theorem strip_last (s : List Char) : ∀ c, (strip s).getLast? = some c → isSpace c = false :=
  rstripBy_last _ _

theorem strip_self {s : List Char} (hh : ∀ c, s.head? = some c → isSpace c = false)
    (hl : ∀ c, s.getLast? = some c → isSpace c = false) : strip s = s := by
  have hd : s.dropWhile isSpace = s := by
    cases s with
    | nil => rfl
    | cons c cs => simp [hh c rfl]
  rw [strip, hd, rstripBy_self hl]

theorem strip_append_space (s : List Char) {c : Char} (hc : isSpace c = true) :
    strip (s ++ [c]) = strip s := by
  unfold strip
  rw [List.dropWhile_append]
  split_ifs with h
  · rw [List.isEmpty_iff.mp h]
    simp [rstripBy, hc]
  · simp [rstripBy, hc]

@[simp] theorem strip_strip (s : List Char) : strip (strip s) = strip s :=
  strip_self (strip_head s) (strip_last s)

example : strip " a b\n".toList = "a b".toList := by decide +kernel

theorem strip_decompose (s : List Char) : ∃ pre post, s = pre ++ strip s ++ post ∧
    (∀ c ∈ pre, isSpace c = true) ∧ ∀ c ∈ post, isSpace c = true := by
  refine ⟨s.takeWhile isSpace, ((s.dropWhile isSpace).reverse.takeWhile isSpace).reverse, ?_, ?_, ?_⟩
  · have hback := List.takeWhile_append_dropWhile (p := isSpace) (l := (s.dropWhile isSpace).reverse)
    have hfront : s.dropWhile isSpace =
        strip s ++ ((s.dropWhile isSpace).reverse.takeWhile isSpace).reverse := by
      rw [strip, rstripBy, ← List.reverse_append, hback, List.reverse_reverse]
    rw [List.append_assoc, ← hfront, List.takeWhile_append_dropWhile]
  · intro c hc
    exact List.mem_takeWhile_imp hc
  · intro c hc
    exact List.mem_takeWhile_imp (List.mem_reverse.mp hc)

theorem strip_length_le (s : List Char) : (strip s).length ≤ s.length := (strip_isInfix s).length_le

/-- A word on its own is its own collapsed form. -/
theorem collapse_of_no_space {s : List Char} (h : ∀ c ∈ s, isSpace c = false) :
    collapse s = s := by
  cases s with
  | nil => rfl
  | cons c cs =>
    have hs : (c :: cs).splitOnP isSpace = [c :: cs] :=
      List.splitOnP_eq_singleton (fun x hx => by simp [h x hx])
    simp [collapse, split, hs, List.intercalate]

section Latin

def latinCapital (c : Char) : Bool := 0xC0 ≤ c.toNat && c.toNat ≤ 0xDE && c.toNat != 0xD7
def latinSmall (c : Char) : Bool := 0xE0 ≤ c.toNat && c.toNat ≤ 0xFE && c.toNat != 0xF7

def latinAlnum (c : Char) : Bool :=
  c.isAlphanum || latinCapital c || latinSmall c ||
    decide (c.toNat ∈ [0xAA, 0xB2, 0xB3, 0xB5, 0xB9, 0xBA, 0xBC, 0xBD, 0xBE, 0xDF, 0xFF])

def latinCasefold (c : Char) : List Char :=
  if c = 'ß' then ['s', 's'] else if c = 'µ' then ['μ']
  else if latinCapital c then [Char.ofNat (c.toNat + 32)] else [c.toLower]

def latinUpper (c : Char) : List Char :=
  if c = 'ß' then ['S', 'S'] else if c = 'µ' then ['Μ'] else if c = 'ÿ' then ['Ÿ']
  else if latinSmall c then [Char.ofNat (c.toNat - 32)] else [c.toUpper]

def latinFold (c : Char) : Char :=
  if c = 'µ' then 'μ' else if latinCapital c then Char.ofNat (c.toNat + 32) else c.toLower

/-- The base letters of Latin-1, from `À` to `ß` and again from `à` to `ÿ`. -/
def latinBase : List (List Char) :=
  [['A'], ['A'], ['A'], ['A'], ['A'], ['A'], ['Æ'], ['C'], ['E'], ['E'], ['E'], ['E'], ['I'], ['I'],
    ['I'], ['I'], ['Ð'], ['N'], ['O'], ['O'], ['O'], ['O'], ['O'], ['×'], ['Ø'], ['U'], ['U'], ['U'],
    ['U'], ['Y'], ['Þ'], ['ß'], ['a'], ['a'], ['a'], ['a'], ['a'], ['a'], ['æ'], ['c'], ['e'], ['e'],
    ['e'], ['e'], ['i'], ['i'], ['i'], ['i'], ['ð'], ['n'], ['o'], ['o'], ['o'], ['o'], ['o'], ['÷'],
    ['ø'], ['u'], ['u'], ['u'], ['u'], ['y'], ['þ'], ['y']]

def latinPlain (c : Char) : List Char :=
  if 0xC0 ≤ c.toNat then latinBase.getD (c.toNat - 0xC0) [c]
  else if c.toNat ∈ [0xA0, 0xA8, 0xAF, 0xB4, 0xB8] then [' ']
  else if c = 'ª' then ['a'] else if c = 'º' then ['o'] else if c = 'µ' then ['μ']
  else if c = '¹' then ['1'] else if c = '²' then ['2'] else if c = '³' then ['3']
  else if c = '¼' then ['1', '⁄', '4'] else if c = '½' then ['1', '⁄', '2']
  else if c = '¾' then ['3', '⁄', '4'] else [c]

/-- The characters below a bound can be checked one by one. -/
theorem char_below {n : ℕ} {c : Char} (h : c.toNat < n) : ∃ k < n, Char.ofNat k = c :=
  ⟨c.toNat, h, Char.ofNat_toNat c⟩

theorem alphanum_lt {c : Char} (h : c.isAlphanum = true) : c.toNat < 128 := by
  simp only [Char.isAlphanum, Char.isAlpha, Char.isUpper, Char.isLower, Char.isDigit,
    Bool.or_eq_true, Bool.and_eq_true, decide_eq_true_eq, UInt32.le_iff_toNat_le, ge_iff_le,
    Char.toNat_val] at h
  simp only [show 'Z'.toNat = 90 from rfl, show 'z'.toNat = 122 from rfl,
    show '9'.toNat = 57 from rfl] at h
  omega

theorem digit_lt {c : Char} (h : c.isDigit = true) : c.toNat < 128 :=
  alphanum_lt (by simp [Char.isAlphanum, h])

theorem latinAlnum_lt {c : Char} (h : latinAlnum c = true) : c.toNat < 256 := by
  simp only [latinAlnum, latinCapital, latinSmall, Bool.or_eq_true, Bool.and_eq_true,
    decide_eq_true_eq, List.mem_cons, List.not_mem_nil, or_false] at h
  rcases h with ((h | h) | h) | h
  · exact (alphanum_lt h).trans (by decide)
  · omega
  · omega
  · omega

theorem ascii_latin {c : Char} (h : c.toNat < 128) : latinAlnum c = c.isAlphanum ∧
    latinCasefold c = [c.toLower] ∧ latinUpper c = [c.toUpper] ∧ latinFold c = c.toLower ∧
    latinPlain c = [c] ∧ (c.isDigit = true → c.toLower = c ∧ c.toUpper = c) := by
  obtain ⟨k, hk, rfl⟩ := char_below h
  clear h
  revert k
  decide

set_option maxRecDepth 10000 in
theorem latin_not_space {c : Char} (h : c.toNat < 256) :
    latinAlnum c = true → isSpace c = false := by
  obtain ⟨k, hk, rfl⟩ := char_below h
  clear h
  revert k
  decide

/-- The character database on Latin-1; characters beyond it are caseless and no
letters. -/
def Unicode.latin1 : Unicode where
  isDecimal := Char.isDigit
  isAlnum := latinAlnum
  casefold := latinCasefold
  upper := latinUpper
  reFold := latinFold
  plain := latinPlain
  decimal_alnum c h := by simp [latinAlnum, Char.isAlphanum, h]
  alnum_not_space c h := latin_not_space (latinAlnum_lt h) h
  decimal_casefold c h := by
    obtain ⟨-, hf, -, -, -, hd⟩ := ascii_latin (digit_lt h)
    rw [hf, (hd h).1]
  decimal_upper c h := by
    obtain ⟨-, -, hu, -, -, hd⟩ := ascii_latin (digit_lt h)
    rw [hu, (hd h).2]
  decimal_reFold c h := by
    obtain ⟨-, -, -, hr, -, hd⟩ := ascii_latin (digit_lt h)
    rw [hr, (hd h).1]
  ascii_decimal _ _ := rfl
  ascii_alnum _ h := (ascii_latin h).1
  ascii_casefold _ h := (ascii_latin h).2.1
  ascii_upper _ h := (ascii_latin h).2.2.1
  ascii_reFold _ h := (ascii_latin h).2.2.2.1
  ascii_plain _ h := (ascii_latin h).2.2.2.2.1

end Latin

end Piki.Text
