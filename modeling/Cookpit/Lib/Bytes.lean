import Mathlib.Data.List.TakeWhile
import Mathlib.Data.List.Infix

/-!
# Byte strings

`std::string` as a list of bytes, with the members of it, and of `<string>`, that
text protocols are built from: `find`, `substr`, `to_string`, `stoi` and the
cut at the first NUL that `c_str` implies. The laws say where a pattern is
found behind a prefix that does not contain it, that printing a number
and reading it back are inverse, and that text in front of a byte it does not
have can be told from what follows (`append_delimiter_inj`).
-/

namespace ByteString

abbrev Bytes := List UInt8

-- The order of `memcmp`, in which keys are kept.
instance : IsTrans Bytes (· < ·) := inferInstance
instance : Std.Trichotomous (α := Bytes) (· < ·) := inferInstance
instance : Std.Asymm (α := Bytes) (· < ·) := inferInstance

def lit (s : String) : Bytes := s.toList.map fun c => c.toNat.toUInt8

def chr (c : Char) : UInt8 := c.toNat.toUInt8

inductive Thrown
  | invalidArgument
  | outOfRange
  deriving DecidableEq, Repr

/-- `s.find(pattern)`: the first position at which `pattern` occurs; `none`
is `npos`. -/
def find (pattern : Bytes) : Bytes → Option Nat
  | [] => if pattern = [] then some 0 else none
  | c :: rest => if pattern <+: c :: rest then some 0 else (find pattern rest).map (· + 1)

/-- `s.substr(pos, count)`. -/
def substr (s : Bytes) (pos count : Nat) : Except Thrown Bytes :=
  if pos ≤ s.length then .ok ((s.drop pos).take count) else .error .outOfRange

/-- What is left of a string that is handed on as `s.c_str()`. -/
def cStr (s : Bytes) : Bytes := s.takeWhile (· ≠ 0)

-- ---------------------------------------------------------------------------
-- Numbers
-- ---------------------------------------------------------------------------

def natToString (n : Nat) : Bytes := (Nat.toDigits 10 n).map chr

def intToString : Int → Bytes
  | .ofNat n => natToString n
  | .negSucc n => chr '-' :: natToString (n + 1)

def isSpace (c : UInt8) : Bool := c = 32 ∨ (9 ≤ c ∧ c ≤ 13)

def isDigit (c : UInt8) : Bool := 48 ≤ c ∧ c ≤ 57

def digitsValue (digits : Bytes) : Nat :=
  digits.foldl (fun acc c => acc * 10 + (c.toNat - 48)) 0

def takeSign : Bytes → Bool × Bytes
  | [] => (false, [])
  | c :: rest =>
    if c = chr '-' then (true, rest) else if c = chr '+' then (false, rest) else (false, c :: rest)

/-- `stoi(s)`: blanks, a sign and the longest run of digits, read as an `int`;
what follows is ignored. -/
def stoi (s : Bytes) : Except Thrown Int :=
  let (negative, s) := takeSign (s.dropWhile isSpace)
  let digits := s.takeWhile isDigit
  if digits = [] then .error .invalidArgument
  else
    let value : Int := if negative then -(digitsValue digits) else digitsValue digits
    if Int32.minValue.toInt ≤ value ∧ value ≤ Int32.maxValue.toInt then .ok value
    else .error .outOfRange

-- ---------------------------------------------------------------------------
-- Finding a pattern
-- ---------------------------------------------------------------------------

theorem prefix_append_left_iff {pattern s rest : Bytes} (h : pattern.length ≤ s.length) :
    pattern <+: s ++ rest ↔ pattern <+: s := by
  constructor
  · intro hp
    exact List.prefix_of_prefix_length_le hp (List.prefix_append s rest) h
  · intro hp
    exact hp.trans (List.prefix_append s rest)

theorem find_le (h : find pattern s = some i) : i + pattern.length ≤ s.length := by
  induction s generalizing i with
  | nil =>
    simp only [find] at h
    split at h
    · rename_i hp
      cases h
      simp [hp]
    · cases h
  | cons c s ih =>
    simp only [find] at h
    split at h
    · rename_i hc
      cases h
      simpa using hc.length_le
    · obtain ⟨j, hj, rfl⟩ := Option.map_eq_some_iff.mp h
      have := ih hj
      simp only [List.length_cons]
      omega

theorem find_append (rest : Bytes) (h : find pattern s = some i) :
    find pattern (s ++ rest) = some i := by
  induction s generalizing i with
  | nil =>
    simp only [find] at h
    split at h
    · rename_i hp
      cases h
      cases rest <;> simp [find, hp]
    · cases h
  | cons c s ih =>
    by_cases hc : pattern <+: c :: s
    · have hc' : pattern <+: c :: (s ++ rest) := hc.trans (List.prefix_append (c :: s) rest)
      simp only [find, if_pos hc] at h
      simpa only [List.cons_append, find, if_pos hc'] using h
    · simp only [find, if_neg hc, Option.map_eq_some_iff] at h
      obtain ⟨j, hj, rfl⟩ := h
      have hlen : pattern.length ≤ (c :: s).length := by
        have := find_le hj
        simp only [List.length_cons]
        omega
      have hc' : ¬ pattern <+: c :: (s ++ rest) := by
        rw [← List.cons_append, prefix_append_left_iff hlen]
        exact hc
      simp only [List.cons_append, find, if_neg hc', ih hj, Option.map_some]

theorem substr_append (s rest : Bytes) (count : Nat) :
    substr (s ++ rest) s.length count = .ok (rest.take count) := by
  simp [substr]

-- ---------------------------------------------------------------------------
-- Printing and reading numbers
-- ---------------------------------------------------------------------------

theorem toNat_chr {c : Char} (h : c.isDigit) : (chr c).toNat = c.toNat := by
  simp only [Char.isDigit, Bool.and_eq_true, decide_eq_true_eq] at h
  have hle : c.toNat ≤ 57 := h.2
  simp only [chr, Nat.toUInt8_eq, UInt8.toNat_ofNat']
  omega

theorem isDigit_of_mem_natToString (h : b ∈ natToString n) : isDigit b = true := by
  obtain ⟨c, hc, rfl⟩ := List.mem_map.mp h
  have hd : c.isDigit := Nat.isDigit_of_mem_toDigits (by decide) (by decide) hc
  simp only [isDigit, UInt8.le_iff_toNat_le, toNat_chr hd, decide_eq_true_eq]
  simp only [Char.isDigit, Bool.and_eq_true, decide_eq_true_eq] at hd
  exact hd

theorem mem_intToString {n : Int} (h : b ∈ intToString n) : b = chr '-' ∨ isDigit b = true := by
  cases n with
  | ofNat n => exact .inr (isDigit_of_mem_natToString h)
  | negSucc n =>
    obtain rfl | h := List.mem_cons.mp h
    · exact .inl rfl
    · exact .inr (isDigit_of_mem_natToString h)

theorem digitsValue_natToString (n : Nat) : digitsValue (natToString n) = n := by
  have go (digits : List Char) (h : ∀ c ∈ digits, c.isDigit) (acc : Nat) :
      (digits.map chr).foldl (fun acc c => acc * 10 + (c.toNat - 48)) acc =
        Nat.ofDigitChars 10 digits acc := by
    induction digits generalizing acc with
    | nil => rfl
    | cons c digits ih =>
      rw [List.map_cons, List.foldl_cons, Nat.ofDigitChars_cons, toNat_chr (h c List.mem_cons_self),
        ih fun c hc => h c (List.mem_cons_of_mem _ hc), Nat.mul_comm]
      rfl
  have hdigit : ∀ c ∈ Nat.toDigits 10 n, c.isDigit := fun c hc =>
    Nat.isDigit_of_mem_toDigits (by decide) (by decide) hc
  rw [digitsValue, natToString, go _ hdigit, Nat.ofDigitChars_ten_toDigits]

theorem digitsValue_lt (h : ∀ c ∈ s, isDigit c = true) :
    digitsValue s < Nat.pow 10 s.length := by
  induction s using List.reverseRecOn with
  | nil => exact Nat.zero_lt_one
  | append_singleton s c ih =>
    have hs := ih fun d hd => h d (List.mem_append_left _ hd)
    have hc : isDigit c = true := h c (by simp)
    rw [isDigit, decide_eq_true_eq] at hc
    have hle : c.toNat ≤ 57 := hc.2
    have hpow : Nat.pow 10 (s ++ [c]).length = Nat.pow 10 s.length * 10 := by
      rw [List.length_append, List.length_singleton]
      rfl
    have hvalue : digitsValue (s ++ [c]) = digitsValue s * 10 + (c.toNat - 48) := by
      rw [digitsValue, List.foldl_append]
      rfl
    omega

theorem natToString_inj (h : natToString m = natToString n) : m = n := by
  rw [← digitsValue_natToString m, h, digitsValue_natToString]

/-- A number is known from its text: the sign is no digit. -/
theorem intToString_inj {m n : Int} (h : intToString m = intToString n) : m = n := by
  have hsign (k l : Nat) : natToString k ≠ chr '-' :: natToString l := by
    intro he
    have : isDigit (chr '-') = true :=
      isDigit_of_mem_natToString (n := k) (he ▸ List.mem_cons_self)
    exact absurd this (by decide)
  cases m with
  | ofNat m =>
    cases n with
    | ofNat n => rw [natToString_inj h]
    | negSucc n => exact absurd h (hsign m (n + 1))
  | negSucc m =>
    cases n with
    | ofNat n => exact absurd h.symm (hsign n (m + 1))
    | negSucc n =>
      have := natToString_inj (List.cons.inj h).2
      rw [show m = n by omega]

-- ---------------------------------------------------------------------------
-- Delimiters
-- ---------------------------------------------------------------------------

/-- Text up to a byte it does not have, and what follows the byte. -/
theorem append_delimiter_inj {first first' rest rest' : Bytes} (h : c ∉ first) (h' : c ∉ first')
    (he : first ++ c :: rest = first' ++ c :: rest') : first = first' ∧ rest = rest' := by
  induction first generalizing first' with
  | nil =>
    cases first' with
    | nil => exact ⟨rfl, (List.cons.inj he).2⟩
    | cons d first' =>
      obtain ⟨rfl, -⟩ := List.cons.inj he
      exact absurd List.mem_cons_self h'
  | cons d first ih =>
    cases first' with
    | nil =>
      obtain ⟨rfl, -⟩ := List.cons.inj he
      exact absurd List.mem_cons_self h
    | cons d' first' =>
      obtain ⟨rfl, htail⟩ := List.cons.inj he
      obtain ⟨rfl, hrest⟩ :=
        ih (List.not_mem_of_not_mem_cons h) (List.not_mem_of_not_mem_cons h') htail
      exact ⟨rfl, hrest⟩

theorem intToString_delimiter_inj {m n : Int} (hc : ¬ (c = chr '-' ∨ isDigit c = true))
    (he : intToString m ++ c :: rest = intToString n ++ c :: rest') : m = n ∧ rest = rest' := by
  have hno (k : Int) : c ∉ intToString k := fun hk => hc (mem_intToString hk)
  obtain ⟨hnum, hrest⟩ := append_delimiter_inj (hno m) (hno n) he
  exact ⟨intToString_inj hnum, hrest⟩

theorem cStr_eq_self (h : (0 : UInt8) ∉ s) : cStr s = s := by
  rw [cStr, List.takeWhile_eq_self_iff]
  intro c hc
  have : c ≠ 0 := fun h0 => h (h0 ▸ hc)
  simpa using this

end ByteString
