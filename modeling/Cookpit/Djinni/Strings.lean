import Cookpit.Lib.Utf

/-!
# Strings between C++ and Java

`jniStringFromUTF8` and `jniUTF8FromString` of djinni's support library, which
every string passes on its way to and from the Android app. The index into the
text is the text from there on; reading one past its end gives zero. Bit masks
and shifts are written as the arithmetic they are on bytes.

Both replace what they cannot decode by U+FFFD, unit by unit. Surrogates are
read from UTF-8 as any other code point, but not from UTF-16 without their
other half, so the way to Java keeps more than the way back
(`jniStringFromUTF8_text8`, `jniUTF8FromString_text16`). A string on the way to
Java is also cut at its first NUL (`toCpp_fromCpp_iff`, `fromCpp_toCpp_iff`).
-/

namespace Djinni

open ByteString Utf

def replacement : Nat := 0xFFFD

-- ---------------------------------------------------------------------------
-- UTF-8 to UTF-16
-- ---------------------------------------------------------------------------

def byteAt (str : Bytes) (i : Nat) : Nat := (str.getD i 0).toNat

/-- `(b & 0xC0) == 0x80`. -/
def Continues (b : Nat) : Prop := b / 0x40 = 2

instance (b : Nat) : Decidable (Continues b) := inferInstanceAs (Decidable (_ = _))

/-- The bytes consumed and the code point; `none` is `invalid_pt`. -/
def utf8DecodeCheck (str : Bytes) : Option (Nat × Nat) :=
  let b0 := byteAt str 0
  if b0 < 0x80 then some (1, b0)
  else if b0 < 0xC0 then none
  else if b0 < 0xE0 then
    let b1 := byteAt str 1
    if ¬ Continues b1 then none
    else
      let pt := b0 % 0x20 * 0x40 + b1 % 0x40
      if pt < 0x80 then none else some (2, pt)
  else if b0 < 0xF0 then
    let b1 := byteAt str 1
    let b2 := byteAt str 2
    if ¬ Continues b1 then none
    else if ¬ Continues b2 then none
    else
      let pt := b0 % 0x10 * 0x1000 + b1 % 0x40 * 0x40 + b2 % 0x40
      if pt < 0x800 then none else some (3, pt)
  else if b0 < 0xF8 then
    let b1 := byteAt str 1
    let b2 := byteAt str 2
    let b3 := byteAt str 3
    if ¬ Continues b1 then none
    else if ¬ Continues b2 then none
    else if ¬ Continues b3 then none
    else
      let pt := b0 % 0x10 * 0x40000 + b1 % 0x40 * 0x1000 + b2 % 0x40 * 0x40 + b3 % 0x40
      if pt < 0x10000 ∨ 0x110000 ≤ pt then none else some (4, pt)
  else none

def utf8Decode (str : Bytes) : Nat × Bytes :=
  match utf8DecodeCheck str with
  | none => (replacement, str.drop 1)
  | some (offset, pt) => (pt, str.drop offset)

def utf16Encode (pt : Nat) : Units :=
  if pt < 0x10000 then [pt.toUInt16]
  else if pt < 0x110000 then
    [((pt - 0x10000) / 0x400 + 0xD800).toUInt16, (pt % 0x400 + 0xDC00).toUInt16]
  else [replacement.toUInt16]

theorem offset_pos (h : utf8DecodeCheck str = some (offset, pt)) : 0 < offset := by
  simp only [utf8DecodeCheck] at h
  repeat' split at h
  all_goals
    cases h
    try decide

theorem length_utf8Decode (c : UInt8) (rest : Bytes) :
    (utf8Decode (c :: rest)).2.length < (c :: rest).length := by
  rw [utf8Decode]
  split
  · simp
  · rename_i offset pt hcheck
    have hpos := offset_pos hcheck
    rw [List.length_drop, List.length_cons]
    omega

def jniStringFromUTF8 : Bytes → Units
  | [] => []
  | c :: rest =>
    utf16Encode (utf8Decode (c :: rest)).1 ++ jniStringFromUTF8 (utf8Decode (c :: rest)).2
termination_by str => str.length
decreasing_by exact length_utf8Decode c rest

theorem byteAt_cons_zero (c : UInt8) (s : Bytes) : byteAt (c :: s) 0 = c.toNat := rfl

theorem byteAt_cons_succ (c : UInt8) (s : Bytes) (i : Nat) :
    byteAt (c :: s) (i + 1) = byteAt s i := rfl

theorem toNat_toUInt8 (h : n < 256) : n.toUInt8.toNat = n := by
  rw [Nat.toUInt8_eq, UInt8.toNat_ofNat']
  omega

/-- What is written for a code point is read as one, surrogate or not. -/
theorem utf8DecodeCheck_encode8 (h : Point pt) (rest : Bytes) :
    utf8DecodeCheck (encode8 pt ++ rest) = some ((encode8 pt).length, pt) := by
  have hpt : pt < 0x110000 := h
  rw [encode8]
  split
  · have hb : byteAt ([pt.toUInt8] ++ rest) 0 = pt := toNat_toUInt8 (by omega)
    rw [utf8DecodeCheck, hb]
    exact if_pos (by omega)
  split
  · have hb0 := toNat_toUInt8 (n := pt / 0x40 + 0xC0) (by omega)
    have hb1 := toNat_toUInt8 (n := pt % 0x40 + 0x80) (by omega)
    simp only [utf8DecodeCheck, List.cons_append, List.nil_append, byteAt_cons_zero,
      byteAt_cons_succ, hb0, hb1, Continues, List.length_cons, List.length_nil]
    rw [if_neg (by omega), if_neg (by omega), if_pos (by omega), if_neg (by omega),
      if_neg (by omega)]
    simp only [Option.some.injEq, Prod.mk.injEq, true_and]
    omega
  split
  · have hb0 := toNat_toUInt8 (n := pt / 0x1000 + 0xE0) (by omega)
    have hb1 := toNat_toUInt8 (n := pt / 0x40 % 0x40 + 0x80) (by omega)
    have hb2 := toNat_toUInt8 (n := pt % 0x40 + 0x80) (by omega)
    simp only [utf8DecodeCheck, List.cons_append, List.nil_append, byteAt_cons_zero,
      byteAt_cons_succ, hb0, hb1, hb2, Continues, List.length_cons, List.length_nil]
    rw [if_neg (by omega), if_neg (by omega), if_neg (by omega), if_pos (by omega),
      if_neg (by omega), if_neg (by omega), if_neg (by omega)]
    simp only [Option.some.injEq, Prod.mk.injEq, true_and]
    omega
  · have hb0 := toNat_toUInt8 (n := pt / 0x40000 + 0xF0) (by omega)
    have hb1 := toNat_toUInt8 (n := pt / 0x1000 % 0x40 + 0x80) (by omega)
    have hb2 := toNat_toUInt8 (n := pt / 0x40 % 0x40 + 0x80) (by omega)
    have hb3 := toNat_toUInt8 (n := pt % 0x40 + 0x80) (by omega)
    simp only [utf8DecodeCheck, List.cons_append, List.nil_append, byteAt_cons_zero,
      byteAt_cons_succ, hb0, hb1, hb2, hb3, Continues, List.length_cons, List.length_nil]
    rw [if_neg (by omega), if_neg (by omega), if_neg (by omega), if_neg (by omega),
      if_pos (by omega), if_neg (by omega), if_neg (by omega), if_neg (by omega),
      if_neg (by omega)]
    simp only [Option.some.injEq, Prod.mk.injEq, true_and]
    omega

theorem utf16Encode_eq (h : Point pt) : utf16Encode pt = encode16 pt := by
  have hpt : pt < 0x110000 := h
  rw [utf16Encode, encode16]
  split
  · rfl
  · rfl

theorem jniStringFromUTF8_cons (h : Point pt) (rest : Bytes) :
    jniStringFromUTF8 (encode8 pt ++ rest) = encode16 pt ++ jniStringFromUTF8 rest := by
  have hdecode : utf8Decode (encode8 pt ++ rest) = (pt, rest) := by
    rw [utf8Decode, utf8DecodeCheck_encode8 h]
    simp only [List.drop_left]
  obtain ⟨c, bytes, hc⟩ := List.exists_cons_of_ne_nil (encode8_ne_nil pt)
  rw [hc, List.cons_append] at hdecode ⊢
  rw [jniStringFromUTF8, hdecode, utf16Encode_eq h]

/-- A text of code points, surrogates among them or not, is the same text in
Java. -/
theorem jniStringFromUTF8_text8 (pts : List Nat) (h : ∀ pt ∈ pts, Point pt) :
    jniStringFromUTF8 (text8 pts) = text16 pts := by
  induction pts with
  | nil => rw [text8, text16, List.flatMap_nil, List.flatMap_nil, jniStringFromUTF8]
  | cons pt pts ih =>
    obtain ⟨hpt, hpts⟩ := List.forall_mem_cons.mp h
    rw [text8, text16, List.flatMap_cons, List.flatMap_cons, jniStringFromUTF8_cons hpt]
    exact congrArg (encode16 pt ++ ·) (ih hpts)

-- ---------------------------------------------------------------------------
-- UTF-16 to UTF-8
-- ---------------------------------------------------------------------------

def unitAt (str : Units) (i : Nat) : Nat := (str.getD i 0).toNat

def isHighSurrogate (c : Nat) : Prop := 0xD800 ≤ c ∧ c < 0xDC00

def isLowSurrogate (c : Nat) : Prop := 0xDC00 ≤ c ∧ c < 0xE000

instance (c : Nat) : Decidable (isHighSurrogate c) := inferInstanceAs (Decidable (_ ∧ _))

instance (c : Nat) : Decidable (isLowSurrogate c) := inferInstanceAs (Decidable (_ ∧ _))

def utf16DecodeCheck (str : Units) : Option (Nat × Nat) :=
  let u0 := unitAt str 0
  let u1 := unitAt str 1
  if isHighSurrogate u0 ∧ isLowSurrogate u1 then
    some (2, (u0 - 0xD800) * 0x400 + (u1 - 0xDC00) + 0x10000)
  else if isHighSurrogate u0 ∨ isLowSurrogate u0 then none
  else some (1, u0)

def utf16Decode (str : Units) : Nat × Units :=
  match utf16DecodeCheck str with
  | none => (replacement, str.drop 1)
  | some (offset, pt) => (pt, str.drop offset)

def utf8Encode (pt : Nat) : Bytes :=
  if pt < 0x80 then [pt.toUInt8]
  else if pt < 0x800 then [(pt / 0x40 + 0xC0).toUInt8, (pt % 0x40 + 0x80).toUInt8]
  else if pt < 0x10000 then
    [(pt / 0x1000 + 0xE0).toUInt8, (pt / 0x40 % 0x40 + 0x80).toUInt8, (pt % 0x40 + 0x80).toUInt8]
  else if pt < 0x110000 then
    [(pt / 0x40000 + 0xF0).toUInt8, (pt / 0x1000 % 0x40 + 0x80).toUInt8,
      (pt / 0x40 % 0x40 + 0x80).toUInt8, (pt % 0x40 + 0x80).toUInt8]
  else [0xEF, 0xBF, 0xBD]

/-- What the check makes of the first unit and the next. -/
theorem utf16DecodeCheck_cases (h : utf16DecodeCheck str = some (offset, pt)) :
    0 < offset ∧ Scalar pt := by
  have hlt (i : Nat) : unitAt str i < 65536 := UInt16.toNat_lt _
  have h0 := hlt 0
  have h1 := hlt 1
  simp only [utf16DecodeCheck] at h
  split at h
  · rename_i hpair
    cases h
    obtain ⟨⟨hhigh, hhigh'⟩, hlow, hlow'⟩ := hpair
    refine ⟨by decide, ?_, ?_, ?_⟩
    all_goals
      simp only [Point, High, Low]
      omega
  split at h
  · cases h
  · rename_i hlone
    cases h
    simp only [isHighSurrogate, isLowSurrogate] at hlone
    refine ⟨by decide, ?_, ?_, ?_⟩
    all_goals
      simp only [Point, High, Low]
      omega

theorem length_utf16Decode (c : UInt16) (rest : Units) :
    (utf16Decode (c :: rest)).2.length < (c :: rest).length := by
  rw [utf16Decode]
  split
  · simp
  · rename_i offset pt hcheck
    have hpos := (utf16DecodeCheck_cases hcheck).1
    rw [List.length_drop, List.length_cons]
    omega

def jniUTF8FromString : Units → Bytes
  | [] => []
  | c :: rest =>
    utf8Encode (utf16Decode (c :: rest)).1 ++ jniUTF8FromString (utf16Decode (c :: rest)).2
termination_by str => str.length
decreasing_by exact length_utf16Decode c rest

theorem utf8Encode_eq (h : Point pt) : utf8Encode pt = encode8 pt := by
  have hpt : pt < 0x110000 := h
  rw [utf8Encode, encode8]
  split
  · rfl
  split
  · rfl
  split
  · rfl
  · rfl

theorem scalar_replacement : Scalar replacement := by
  refine ⟨?_, ?_, ?_⟩
  all_goals
    simp only [Point, High, Low, replacement]
    omega

theorem scalar_utf16Decode (str : Units) : Scalar (utf16Decode str).1 := by
  rw [utf16Decode]
  split
  · exact scalar_replacement
  · rename_i hcheck
    exact (utf16DecodeCheck_cases hcheck).2

/-- Whatever Java hands over, the core gets the UTF-8 of characters. -/
theorem exists_jniUTF8FromString (str : Units) :
    ∃ pts : List Nat, (∀ pt ∈ pts, Scalar pt) ∧ jniUTF8FromString str = text8 pts := by
  fun_induction jniUTF8FromString str with
  | case1 => exact ⟨[], by simp, rfl⟩
  | case2 c rest ih =>
    obtain ⟨pts, hpts, hrest⟩ := ih
    have hpt := scalar_utf16Decode (c :: rest)
    refine ⟨(utf16Decode (c :: rest)).1 :: pts, List.forall_mem_cons.mpr ⟨hpt, hpts⟩, ?_⟩
    rw [hrest, utf8Encode_eq hpt.1]
    rfl

theorem toNat_toUInt16 (h : n < 65536) : n.toUInt16.toNat = n := by
  rw [Nat.toUInt16_eq, UInt16.toNat_ofNat']
  omega

theorem utf16DecodeCheck_encode16 (h : Scalar pt) (rest : Units) :
    utf16DecodeCheck (encode16 pt ++ rest) = some ((encode16 pt).length, pt) := by
  obtain ⟨hpt, hhigh, hlow⟩ := h
  simp only [Point, High, Low] at hpt hhigh hlow
  rw [encode16]
  split
  · have hu : unitAt ([pt.toUInt16] ++ rest) 0 = pt := toNat_toUInt16 (by omega)
    simp only [utf16DecodeCheck, hu, isHighSurrogate, isLowSurrogate]
    rw [if_neg (by omega), if_neg (by omega)]
    rfl
  · have hu0 := toNat_toUInt16 (n := (pt - 0x10000) / 0x400 + 0xD800) (by omega)
    have hu1 := toNat_toUInt16 (n := pt % 0x400 + 0xDC00) (by omega)
    have hu0' : unitAt ([((pt - 0x10000) / 0x400 + 0xD800).toUInt16,
        (pt % 0x400 + 0xDC00).toUInt16] ++ rest) 0 = (pt - 0x10000) / 0x400 + 0xD800 := hu0
    have hu1' : unitAt ([((pt - 0x10000) / 0x400 + 0xD800).toUInt16,
        (pt % 0x400 + 0xDC00).toUInt16] ++ rest) 1 = pt % 0x400 + 0xDC00 := hu1
    simp only [utf16DecodeCheck, hu0', hu1', isHighSurrogate, isLowSurrogate]
    rw [if_pos (by omega)]
    simp only [List.length_cons, List.length_nil, Option.some.injEq, Prod.mk.injEq, true_and]
    omega

theorem jniUTF8FromString_cons (h : Scalar pt) (rest : Units) :
    jniUTF8FromString (encode16 pt ++ rest) = encode8 pt ++ jniUTF8FromString rest := by
  have hdecode : utf16Decode (encode16 pt ++ rest) = (pt, rest) := by
    rw [utf16Decode, utf16DecodeCheck_encode16 h]
    simp only [List.drop_left]
  obtain ⟨c, units, hc⟩ := List.exists_cons_of_ne_nil (encode16_ne_nil pt)
  rw [hc, List.cons_append] at hdecode ⊢
  rw [jniUTF8FromString, hdecode, utf8Encode_eq h.1]

theorem jniUTF8FromString_text16 (pts : List Nat) (h : ∀ pt ∈ pts, Scalar pt) :
    jniUTF8FromString (text16 pts) = text8 pts := by
  induction pts with
  | nil => rw [text8, text16, List.flatMap_nil, List.flatMap_nil, jniUTF8FromString]
  | cons pt pts ih =>
    obtain ⟨hpt, hpts⟩ := List.forall_mem_cons.mp h
    rw [text8, text16, List.flatMap_cons, List.flatMap_cons, jniUTF8FromString_cons hpt]
    exact congrArg (encode8 pt ++ ·) (ih hpts)

-- ---------------------------------------------------------------------------
-- There and back
-- ---------------------------------------------------------------------------

/-- A string of the core as it is handed over: `c.c_str()` ends at a NUL. -/
def fromCpp (c : Bytes) : Units := jniStringFromUTF8 (c.takeWhile (· ≠ 0))

def toCpp (j : Units) : Bytes := jniUTF8FromString j

theorem fromCpp_text8 {pts : List Nat} (h : ∀ pt ∈ pts, Point pt) :
    fromCpp (text8 pts) = text16 (pts.takeWhile (· ≠ 0)) := by
  rw [fromCpp, takeWhile_text8 h]
  exact jniStringFromUTF8_text8 _ fun pt hpt => h pt (List.takeWhile_subset _ hpt)

/-- The core gets its own string back from Java exactly if it is UTF-8 without a
NUL. -/
theorem toCpp_fromCpp_iff (c : Bytes) :
    toCpp (fromCpp c) = c ↔ ∃ pts : List Nat, (∀ pt ∈ pts, Scalar pt ∧ pt ≠ 0) ∧ c = text8 pts := by
  constructor
  · intro h
    obtain ⟨pts, hpts, hc⟩ := exists_jniUTF8FromString (fromCpp c)
    obtain rfl : c = text8 pts := h.symm.trans hc
    have hpoints : ∀ pt ∈ pts, Point pt := fun pt hpt => (hpts pt hpt).1
    have hkept : ∀ pt ∈ pts.takeWhile (· ≠ 0), Scalar pt :=
      fun pt hpt => hpts pt (List.takeWhile_subset _ hpt)
    rw [toCpp, fromCpp_text8 hpoints, jniUTF8FromString_text16 _ hkept] at h
    exact ⟨_, fun pt hpt => ⟨hkept pt hpt, nonzero_of_mem_takeWhile hpt⟩, h.symm⟩
  · rintro ⟨pts, hpts, rfl⟩
    rw [fromCpp_text8 fun pt hpt => (hpts pt hpt).1.1,
      takeWhile_nonzero fun pt hpt => (hpts pt hpt).2]
    exact jniUTF8FromString_text16 _ fun pt hpt => (hpts pt hpt).1

/-- Java gets its own string back from the core exactly if it has no NUL and no
surrogate without its other half. -/
theorem fromCpp_toCpp_iff (j : Units) :
    fromCpp (toCpp j) = j ↔
      ∃ pts : List Nat, (∀ pt ∈ pts, Scalar pt ∧ pt ≠ 0) ∧ j = text16 pts := by
  constructor
  · intro h
    obtain ⟨pts, hpts, hj⟩ := exists_jniUTF8FromString j
    rw [toCpp, hj, fromCpp_text8 fun pt hpt => (hpts pt hpt).1] at h
    exact ⟨_, fun pt hpt =>
      ⟨hpts pt (List.takeWhile_subset _ hpt), nonzero_of_mem_takeWhile hpt⟩, h.symm⟩
  · rintro ⟨pts, hpts, rfl⟩
    rw [toCpp, jniUTF8FromString_text16 _ fun pt hpt => (hpts pt hpt).1,
      fromCpp_text8 fun pt hpt => (hpts pt hpt).1.1,
      takeWhile_nonzero fun pt hpt => (hpts pt hpt).2]

end Djinni
