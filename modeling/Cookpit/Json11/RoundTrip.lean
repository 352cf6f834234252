import Cookpit.Json11.Dump

/-!
# What json11 writes it reads

`parse` reads a value equal to the one `dump` wrote exactly if that nests no
deeper than the parser goes and all its numbers are finite (`parse_dump_iff`).
The numbers that come back are equal but not always of the same kind: a double
written without fraction and exponent is read as an integer, and an integer of
more than nine characters as a double.
-/

namespace Json11

open ByteString JsonText

theorem assign_new (h : key ∉ data.map (·.1)) (value : Json) :
    assign data key value = data ++ [(key, value)] := by
  rw [assign, List.filter_eq_self.mpr]
  intro m hm
  have hne : m.1 ≠ key := fun he => h (List.mem_map.mpr ⟨m, hm, he⟩)
  simpa using hne

section
variable [Doubles]

-- ---------------------------------------------------------------------------
-- Numbers read back
-- ---------------------------------------------------------------------------

/-- A number that is read back is the double it was written for. -/
theorem ofNumber_equals {s : Bytes} (h : Number s) (hd : Doubles.eq (Floats.strtod s) d = true) :
    (ofNumber s).isNumber = true ∧ Doubles.eq (ofNumber s).numberValue d = true := by
  rw [ofNumber]
  split
  · rename_i hshort
    obtain ⟨sign, i, hsign, hi, rfl⟩ := integer_of_unmarked h hshort.1
    have hexact := Doubles.strtod_integer hsign hi (fits_atoi hsign hi hshort.2)
    exact ⟨rfl, Doubles.eq_trans (Doubles.eq_symm hexact) hd⟩
  · exact ⟨rfl, hd⟩

theorem strtod_intToString {n : Int} (h : Fits n) :
    Doubles.eq (Floats.strtod (intToString n)) (Doubles.ofInt n) = true := by
  obtain ⟨sign, i, hsign, hi, heq⟩ := integer_intToString n
  have hvalue : atoi (sign ++ i) = n := by rw [← heq, atoi_intToString]
  have hexact := Doubles.strtod_integer hsign hi (hvalue ▸ h)
  rwa [← heq, atoi_intToString] at hexact

-- ---------------------------------------------------------------------------
-- Reading back
-- ---------------------------------------------------------------------------

/-- What is read back. -/
def reread (j : Json) : Json := ofValue (spelled j)

theorem reread_array (values : List Json) :
    reread (.array values) = .array (values.map reread) := by
  rw [reread, spelled, ofValue]
  congr 1
  induction values with
  | nil => rfl
  | cons value values ih => rw [spelledElements, ofElements, ih, List.map_cons, reread]

/-- Members come back in the order they were written in. -/
theorem reread_object (h : values.Pairwise (·.1 < ·.1)) :
    reread (.object values) = .object (values.map fun m => (m.1, reread m.2)) := by
  have go (data : List (Bytes × Json)) (hkeys : ((data ++ values).map (·.1)).Nodup) :
      ofMembers data (spelledMembers values) =
        data ++ values.map fun m => (m.1, reread m.2) := by
    clear h
    induction values generalizing data with
    | nil => simp [spelledMembers, ofMembers]
    | cons m values ih =>
      obtain ⟨key, value⟩ := m
      have hnew : key ∉ data.map (·.1) := by
        rw [List.map_append, List.map_cons, List.nodup_append] at hkeys
        exact fun hmem => hkeys.2.2 key hmem key List.mem_cons_self rfl
      have hkeys' : ((data ++ [(key, reread value)] ++ values).map (·.1)).Nodup := by
        simpa using hkeys
      rw [spelledMembers, ofMembers, assign_new hnew, ← reread, ih _ hkeys']
      simp
  rw [reread, spelled, ofValue, go [] (nodup_keys h), List.nil_append]

theorem equalsValue_numbers {j k : Json} (hj : j.isNumber = true) (hk : k.isNumber = true) :
    equalsValue j k = Doubles.eq j.numberValue k.numberValue := by
  cases j with
  | int | double =>
    cases k with
    | int | double => simp [equalsValue, hj, hk]
    | null | bool | string | array | object => cases hk
  | null | bool | string | array | object => cases hj

/-- A double that is finite comes back as a number, any other as null. -/
theorem reread_double (literal : Bytes) :
    match Doubles.printf (Floats.strtod literal) with
    | some buf => reread (.double literal) = ofNumber buf.text
    | none => reread (.double literal) = .null := by
  rw [reread, spelled]
  cases Doubles.printf (Floats.strtod literal) <;> rfl

theorem reread_double_flat (literal : Bytes) :
    (reread (.double literal)).Ordered ∧ (reread (.double literal)).depth = 1 := by
  have hread := reread_double literal
  split at hread
  · rw [hread]
    exact ⟨ordered_of_isNumber (isNumber_ofNumber _), depth_of_isNumber (isNumber_ofNumber _)⟩
  · rw [hread]
    exact ⟨.null, rfl⟩

theorem ordered_reread (h : Json.Ordered j) : (reread j).Ordered := by
  induction h with
  | null => exact .null
  | int => exact ordered_of_isNumber (isNumber_ofNumber _)
  | @double literal => exact (reread_double_flat literal).1
  | bool => exact .bool
  | string => exact .string
  | array h ih =>
    rw [reread_array]
    exact .array (List.forall_mem_map.mpr ih)
  | object hkeys h ih =>
    rw [reread_object hkeys]
    exact .object (List.pairwise_map.mpr hkeys) (List.forall_mem_map.mpr ih)

theorem depth_reread_le (h : Json.Ordered j) (n : Nat) : (reread j).depth ≤ n ↔ j.depth ≤ n := by
  induction h generalizing n with
  | null | bool | string => rfl
  | int =>
    rw [reread, spelled, ofValue, depth_of_isNumber (isNumber_ofNumber _)]
    rfl
  | @double literal =>
    rw [(reread_double_flat literal).2]
    rfl
  | array h ih =>
    rw [reread_array]
    cases n with
    | zero => simp [Json.depth]
    | succ n =>
      rw [depth_array_le, depth_array_le, List.forall_mem_map]
      exact forall₂_congr fun v hv => ih v hv n
  | object hkeys h ih =>
    rw [reread_object hkeys]
    cases n with
    | zero => simp [Json.depth]
    | succ n =>
      rw [depth_object_le, depth_object_le, List.forall_mem_map]
      exact forall₂_congr fun m hm => ih m hm n

theorem equalsElements_map (values : List Json) (f : Json → Json) :
    equalsElements (values.map f) values = true ↔ ∀ v ∈ values, equalsValue (f v) v = true := by
  induction values with
  | nil => simp [equalsElements]
  | cons value values ih =>
    rw [List.map_cons, equalsElements, Bool.and_eq_true, ih, List.forall_mem_cons]

theorem equalsMembers_map (values : List (Bytes × Json)) (f : Json → Json) :
    equalsMembers (values.map fun m => (m.1, f m.2)) values = true ↔
      ∀ m ∈ values, equalsValue (f m.2) m.2 = true := by
  induction values with
  | nil => simp [equalsMembers]
  | cons m values ih =>
    rw [List.map_cons, equalsMembers, Bool.and_eq_true, Bool.and_eq_true, ih, List.forall_mem_cons,
      beq_self_eq_true, eq_self, true_and]

theorem equals_reread (h : Json.Ordered j) (hvalid : j.Valid) :
    equalsValue (reread j) j = true ↔ j.finite = true := by
  induction h with
  | null => exact iff_of_true rfl rfl
  | @int n =>
    cases hvalid with
    | int hfits =>
      have hnumber := ofNumber_equals (number_intToString n) (strtod_intToString hfits)
      rw [reread, spelled, ofValue, equalsValue_numbers hnumber.1 rfl]
      exact iff_of_true hnumber.2 rfl
  | @double literal =>
    have hread := reread_double literal
    split at hread
    · rename_i buf hbuf
      have hnumber := ofNumber_equals buf.number (Doubles.strtod_printf hbuf)
      rw [hread, equalsValue_numbers hnumber.1 rfl, Json.finite, hbuf]
      exact iff_of_true hnumber.2 rfl
    · rename_i hnone
      rw [hread, Json.finite, hnone]
      exact iff_of_false Bool.false_ne_true Bool.false_ne_true
  | bool => exact iff_of_true (beq_self_eq_true _) rfl
  | string => exact iff_of_true (beq_self_eq_true _) rfl
  | array h ih =>
    rw [reread_array, equalsValue, equalsElements_map, finite_array]
    cases hvalid with
    | array hvalid => exact forall₂_congr fun v hv => ih v hv (hvalid v hv)
  | object hkeys h ih =>
    rw [reread_object hkeys, equalsValue, equalsMembers_map, finite_object]
    cases hvalid with
    | object hkeys hvalid => exact forall₂_congr fun m hm => ih m hm (hvalid m hm)

-- ---------------------------------------------------------------------------
-- The round trip
-- ---------------------------------------------------------------------------

theorem parse_dumpValue_iff (h : Json.Ordered k) :
    parse (dumpValue k) = some j ↔ k.depth ≤ maxDepth + 1 ∧ j = reread k := by
  constructor
  · intro hparse
    obtain ⟨v, hdoc, rfl⟩ := (parse_iff _ j).mp hparse
    have hsame : ofValue v = reread k :=
      ofValue_unique hdoc (derives_dump k k.depth (Nat.le_refl _)).bare
    have hdepth := (within_of_parse hparse).depth
    rw [hsame, depth_reread_le h] at hdepth
    exact ⟨hdepth, hsame⟩
  · rintro ⟨hdepth, rfl⟩
    exact (parse_iff _ _).mpr ⟨spelled k, (derives_dump k _ hdepth).bare, rfl⟩

/-- A value is written and read back as an equal one exactly if the parser goes
deep enough for it and it has no infinities and no NaN. -/
theorem parse_dump_iff (h : Json.Valid j) :
    (∃ j', parse j.dump = some j' ∧ j'.equals j = true) ↔
      j.depth ≤ maxDepth + 1 ∧ j.finite = true := by
  have hordered := ordered_ordered h
  have hequals : (reread j.ordered).equals j = true ↔ j.finite = true := by
    rw [Json.equals, ordered_eq (ordered_reread hordered), ← finite_ordered h]
    exact equals_reread hordered (valid_ordered h)
  simp only [Json.dump, parse_dumpValue_iff hordered, depth_ordered_le h]
  constructor
  · rintro ⟨j', ⟨hdepth, rfl⟩, heq⟩
    exact ⟨hdepth, hequals.mp heq⟩
  · rintro ⟨hdepth, hfinite⟩
    exact ⟨_, ⟨hdepth, rfl⟩, hequals.mpr hfinite⟩

/-- What has been parsed is as the library keeps it and nests no deeper than it can
be parsed again, so it is written and read back as an equal value unless a
number in it overflowed. -/
theorem parse_dump_parse_iff (h : parse input = some j) :
    j.Within (maxDepth + 1) ∧
      ((∃ j', parse j.dump = some j' ∧ j'.equals j = true) ↔ j.finite = true) := by
  have hwithin := within_of_parse h
  rw [parse_dump_iff hwithin.valid]
  exact ⟨hwithin, and_iff_right hwithin.depth⟩

end

-- ---------------------------------------------------------------------------
-- Doubles cut to their integer part
-- ---------------------------------------------------------------------------

theorem stoi_integer (hsign : sign = [] ∨ sign = [chr '-']) (hi : Integer i)
    (h : Fits (atoi (sign ++ i))) : stoi (sign ++ i) = .ok (atoi (sign ++ i)) := by
  obtain ⟨hne, hdigits⟩ := hi.all_digits
  have htake : i.takeWhile isDigit = i := List.takeWhile_eq_self_iff.mpr hdigits
  obtain rfl | rfl := hsign
  · obtain ⟨c, ds, rfl⟩ := List.exists_cons_of_ne_nil hne
    have hc : isDigit c = true := hdigits c List.mem_cons_self
    have hspace : isSpace c = false := by
      rw [isDigit, decide_eq_true_eq] at hc
      have hle : 48 ≤ c.toNat := hc.1
      rw [isSpace, decide_eq_false_iff_not, not_or]
      constructor
      · rintro rfl
        exact absurd hle (by decide)
      · rintro ⟨-, h13⟩
        have h13 : c.toNat ≤ 13 := h13
        omega
    have hvalue : atoi ([] ++ c :: ds) = digitsValue (c :: ds) :=
      if_neg (isDigit_ne hc rfl)
    have hminus : c ≠ chr '-' := isDigit_ne hc rfl
    have hplus : c ≠ chr '+' := isDigit_ne hc rfl
    rw [hvalue] at h ⊢
    rw [List.nil_append, stoi, List.dropWhile_cons_of_neg (by simp [hspace]), takeSign,
      if_neg hminus, if_neg hplus]
    simp only [htake, if_neg hne]
    exact if_pos h
  · have hvalue : atoi ([chr '-'] ++ i) = -(digitsValue i) := rfl
    have hsign : takeSign (([chr '-'] ++ i).dropWhile isSpace) = (true, i) := rfl
    rw [hvalue] at h ⊢
    rw [stoi, hsign]
    simp only [htake, if_neg hne]
    exact if_pos h

@[reducible] def integerDoubles : Doubles where
  toFloats := integerFloats
  ofInt n := n
  eq (a b : Int) := decide (a = b)
  printf d := if Fits d then some ⟨intToString d, number_intToString d⟩ else none
  eq_symm := by
    intro a b h
    exact decide_eq_true (of_decide_eq_true h).symm
  eq_trans := by
    intro a b c h h'
    exact decide_eq_true ((of_decide_eq_true h).trans (of_decide_eq_true h'))
  strtod_printf := by
    intro d s h
    split at h
    · rename_i hfits
      cases h
      have hread : (stoi (intToString d)).toOption.getD 0 = d := by
        obtain ⟨sign, i, hsign, hi, heq⟩ := integer_intToString d
        have hvalue : atoi (sign ++ i) = d := by rw [← heq, atoi_intToString]
        rw [heq, stoi_integer hsign hi (hvalue ▸ hfits), hvalue]
        rfl
      exact decide_eq_true hread
    · cases h
  strtod_integer := by
    intro sign i hsign hi h
    have hread : (stoi (sign ++ i)).toOption.getD 0 = atoi (sign ++ i) := by
      rw [stoi_integer hsign hi h]
      rfl
    exact decide_eq_true hread

section
attribute [local instance] integerDoubles

/-- A number too long for json11's integers, a separator and a byte that is no
UTF-8, and keys out of order. -/
def mixed : Json :=
  .object [(lit "b", .array [.int 1234567890, .string [0xe2, 0x80, 0xa8, 10, 0xff]]),
    (lit "a", .double (lit "7.0"))]

theorem mixed_valid : mixed.Valid := by
  refine .object (by decide) (List.forall_mem_cons.mpr ⟨?_, List.forall_mem_singleton.mpr .double⟩)
  exact .array (List.forall_mem_cons.mpr ⟨.int (by decide), List.forall_mem_singleton.mpr .string⟩)

theorem parse_dump_iff_mixed : ∃ j', parse mixed.dump = some j' ∧ j'.equals mixed = true :=
  (parse_dump_iff mixed_valid).mpr ⟨by decide, by decide +kernel⟩

theorem parse_dump_parse_iff_numbers :
    ∃ j', parse (Json.array [.int 12, .double (lit "7.0")]).dump = some j' ∧
      j'.equals (.array [.int 12, .double (lit "7.0")]) = true := by
  have hparse : parse (lit "[12, 7.0]") = some (.array [.int 12, .double (lit "7.0")]) := by rfl
  exact (parse_dump_parse_iff hparse).2.mpr (by decide +kernel)

end

end Json11
