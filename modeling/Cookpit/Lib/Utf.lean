import Cookpit.Lib.Bytes

/-!
# UTF-8 and UTF-16

Code points up to `0x10FFFF` in bytes and in 16-bit units. Both forms are
defined for surrogates as well, which texts cut in the middle of a pair have;
a text without any is made of scalar values.
-/

namespace Utf

open ByteString

abbrev Units := List UInt16

def High (u : Nat) : Prop := 0xD800 ≤ u ∧ u ≤ 0xDBFF

def Low (u : Nat) : Prop := 0xDC00 ≤ u ∧ u ≤ 0xDFFF

instance (u : Nat) : Decidable (High u) := inferInstanceAs (Decidable (_ ∧ _))

instance (u : Nat) : Decidable (Low u) := inferInstanceAs (Decidable (_ ∧ _))

/-- The code point of a surrogate pair. -/
def combine (high low : Nat) : Nat := (high - 0xD800) * 0x400 + (low - 0xDC00) + 0x10000

def encode8 (pt : Nat) : Bytes :=
  if pt < 0x80 then [pt.toUInt8]
  else if pt < 0x800 then [(pt / 0x40 + 0xC0).toUInt8, (pt % 0x40 + 0x80).toUInt8]
  else if pt < 0x10000 then
    [(pt / 0x1000 + 0xE0).toUInt8, (pt / 0x40 % 0x40 + 0x80).toUInt8, (pt % 0x40 + 0x80).toUInt8]
  else
    [(pt / 0x40000 + 0xF0).toUInt8, (pt / 0x1000 % 0x40 + 0x80).toUInt8,
      (pt / 0x40 % 0x40 + 0x80).toUInt8, (pt % 0x40 + 0x80).toUInt8]

def encode16 (pt : Nat) : Units :=
  if pt < 0x10000 then [pt.toUInt16]
  else [((pt - 0x10000) / 0x400 + 0xD800).toUInt16, (pt % 0x400 + 0xDC00).toUInt16]

def text8 (pts : List Nat) : Bytes := pts.flatMap encode8

def text16 (pts : List Nat) : Units := pts.flatMap encode16

/-- A code point, surrogate or not. -/
def Point (pt : Nat) : Prop := pt < 0x110000

/-- A code point that is no surrogate. -/
def Scalar (pt : Nat) : Prop := Point pt ∧ ¬ High pt ∧ ¬ Low pt

theorem encode8_ne_nil (pt : Nat) : encode8 pt ≠ [] := by
  rw [encode8]
  repeat' split
  all_goals exact List.cons_ne_nil _ _

theorem encode16_ne_nil (pt : Nat) : encode16 pt ≠ [] := by
  rw [encode16]
  split
  all_goals exact List.cons_ne_nil _ _

-- ---------------------------------------------------------------------------
-- Texts that end at a NUL
-- ---------------------------------------------------------------------------

theorem toUInt8_ne_zero (h0 : 0 < n) (h : n < 256) : n.toUInt8 ≠ 0 := by
  intro he
  have hn : n.toUInt8.toNat = 0 := congrArg UInt8.toNat he
  rw [Nat.toUInt8_eq, UInt8.toNat_ofNat'] at hn
  omega

theorem toUInt16_ne_zero (h0 : 0 < n) (h : n < 65536) : n.toUInt16 ≠ 0 := by
  intro he
  have hn : n.toUInt16.toNat = 0 := congrArg UInt16.toNat he
  rw [Nat.toUInt16_eq, UInt16.toNat_ofNat'] at hn
  omega

theorem encode8_ne_zero (h : Point pt) (h0 : pt ≠ 0) : ∀ b ∈ encode8 pt, b ≠ 0 := by
  have hpt : pt < 0x110000 := h
  rw [encode8]
  split
  · simp only [List.forall_mem_singleton]
    exact toUInt8_ne_zero (by omega) (by omega)
  split
  · simp only [List.forall_mem_cons]
    exact ⟨toUInt8_ne_zero (by omega) (by omega), toUInt8_ne_zero (by omega) (by omega), by simp⟩
  split
  · simp only [List.forall_mem_cons]
    exact ⟨toUInt8_ne_zero (by omega) (by omega), toUInt8_ne_zero (by omega) (by omega),
      toUInt8_ne_zero (by omega) (by omega), by simp⟩
  · simp only [List.forall_mem_cons]
    exact ⟨toUInt8_ne_zero (by omega) (by omega), toUInt8_ne_zero (by omega) (by omega),
      toUInt8_ne_zero (by omega) (by omega), toUInt8_ne_zero (by omega) (by omega), by simp⟩

theorem encode16_ne_zero (h : Point pt) (h0 : pt ≠ 0) : ∀ u ∈ encode16 pt, u ≠ 0 := by
  have hpt : pt < 0x110000 := h
  rw [encode16]
  split
  · simp only [List.forall_mem_singleton]
    exact toUInt16_ne_zero (Nat.pos_of_ne_zero h0) (by omega)
  · simp only [List.forall_mem_cons]
    exact ⟨toUInt16_ne_zero (by omega) (by omega), toUInt16_ne_zero (by omega) (by omega), by simp⟩

/-- A text ends at a unit that is zero where it ends at the code point zero. -/
theorem takeWhile_flatMap {α : Type} [DecidableEq α] {zero : α} {encode : Nat → List α}
    (hzero : encode 0 = [zero]) {pts : List Nat}
    (h : ∀ pt ∈ pts, pt ≠ 0 → ∀ u ∈ encode pt, u ≠ zero) :
    (pts.flatMap encode).takeWhile (· ≠ zero) = (pts.takeWhile (· ≠ 0)).flatMap encode := by
  induction pts with
  | nil => rfl
  | cons pt pts ih =>
    obtain ⟨hpt, hpts⟩ := List.forall_mem_cons.mp h
    rw [List.flatMap_cons]
    by_cases h0 : pt = 0
    · simp [h0, hzero]
    · have hkept : (pt :: pts).takeWhile (· ≠ 0) = pt :: pts.takeWhile (· ≠ 0) :=
        List.takeWhile_cons_of_pos (decide_eq_true h0)
      rw [List.takeWhile_append_of_pos fun u hu => decide_eq_true (hpt h0 u hu), ih hpts, hkept,
        List.flatMap_cons]

theorem takeWhile_text8 (h : ∀ pt ∈ pts, Point pt) :
    (text8 pts).takeWhile (· ≠ 0) = text8 (pts.takeWhile (· ≠ 0)) :=
  takeWhile_flatMap rfl fun pt hpt h0 => encode8_ne_zero (h pt hpt) h0

theorem takeWhile_text16 (h : ∀ pt ∈ pts, Point pt) :
    (text16 pts).takeWhile (· ≠ 0) = text16 (pts.takeWhile (· ≠ 0)) :=
  takeWhile_flatMap rfl fun pt hpt h0 => encode16_ne_zero (h pt hpt) h0

theorem nonzero_of_mem_takeWhile {pts : List Nat} (h : pt ∈ pts.takeWhile (· ≠ 0)) :
    pt ≠ 0 := by
  simpa using List.mem_takeWhile_imp h

theorem takeWhile_nonzero {pts : List Nat} (h : ∀ pt ∈ pts, pt ≠ 0) :
    pts.takeWhile (· ≠ 0) = pts :=
  List.takeWhile_eq_self_iff.mpr fun pt hpt => decide_eq_true (h pt hpt)

end Utf
