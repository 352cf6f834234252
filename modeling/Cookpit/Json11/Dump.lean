import Cookpit.Json11.Values

/-!
# What json11 writes

`dump` writes a value with the entries of every map in key order. The text is
always one of the JSON grammar (`derives_dump`), with null for infinities and
NaN; strings are written so that they spell what they hold byte by byte, be it
UTF-8 or not (`text_dumpString`).
-/

namespace Json11

open ByteString JsonText

-- ---------------------------------------------------------------------------
-- Doubles
-- ---------------------------------------------------------------------------

structure Numeral where
  text : Bytes
  number : Number text

/-- Doubles as they are written, in the C locale, and compared: seventeen digits
tell every double from all others, and an `int` is exact in a `double`. -/
class Doubles extends Floats where
  ofInt : Int → Double
  /-- `==`. -/
  eq : Double → Double → Bool
  /-- `%.17g`; there is none for infinities and NaN. -/
  printf : Double → Option Numeral
  eq_symm : eq a b = true → eq b a = true
  eq_trans : eq a b = true → eq b c = true → eq a c = true
  strtod_printf : printf d = some s → eq (strtod s.text) d = true
  strtod_integer : sign = [] ∨ sign = [chr '-'] → Integer i → Fits (atoi (sign ++ i)) →
    eq (strtod (sign ++ i)) (ofInt (atoi (sign ++ i))) = true

-- ---------------------------------------------------------------------------
-- Strings
-- ---------------------------------------------------------------------------

/-- What is written for a byte that does not stand for itself. -/
def escapeOf (ch : UInt8) : Option Bytes :=
  if ch = chr '\\' then some (lit "\\\\")
  else if ch = chr '"' then some (lit "\\\"")
  else if ch = 8 then some (lit "\\b")
  else if ch = 12 then some (lit "\\f")
  else if ch = 10 then some (lit "\\n")
  else if ch = 13 then some (lit "\\r")
  else if ch = 9 then some (lit "\\t")
  else if ch ≤ 0x1f then
    some (lit "\\u00" ++ [hexChar (ch.toNat / 16), hexChar (ch.toNat % 16)])
  else none

/-- The separators U+2028 and U+2029, which end a line of JavaScript, are escaped
as well. -/
def dumpChars : Bytes → Bytes
  | [] => []
  | ch :: rest =>
    match escapeOf ch with
    | some text => text ++ dumpChars rest
    | none =>
      match rest with
      | a :: b :: after =>
        if ch = 0xe2 ∧ a = 0x80 ∧ b = 0xa8 then lit "\\u2028" ++ dumpChars after
        else if ch = 0xe2 ∧ a = 0x80 ∧ b = 0xa9 then lit "\\u2029" ++ dumpChars after
        else ch :: dumpChars (a :: b :: after)
      | rest => ch :: dumpChars rest

def dumpString (value : Bytes) : Bytes := chr '"' :: (dumpChars value ++ [chr '"'])

theorem piece_of_escapeOf (h : escapeOf ch = some text) :
    ∃ p : Piece, p.spell = text ∧ ∀ ps, meaning (p :: ps) = [ch] ++ meaning ps := by
  have escape (e : Escape) (hch : ch = e.value) (htext : lit "\\" ++ [e.letter] = text) :
      ∃ p : Piece, p.spell = text ∧ ∀ ps, meaning (p :: ps) = [ch] ++ meaning ps :=
    ⟨.escape e, htext, fun ps => by rw [meaning, hch, List.singleton_append]⟩
  rw [escapeOf] at h
  split at h
  · cases h
    exact escape .backslash ‹_› rfl
  split at h
  · cases h
    exact escape .quote ‹_› rfl
  split at h
  · cases h
    exact escape .backspace ‹_› rfl
  split at h
  · cases h
    exact escape .formFeed ‹_› rfl
  split at h
  · cases h
    exact escape .newline ‹_› rfl
  split at h
  · cases h
    exact escape .carriageReturn ‹_› rfl
  split at h
  · cases h
    exact escape .tab ‹_› rfl
  split at h
  · rename_i hch
    cases h
    have hle : ch.toNat ≤ 31 := hch
    refine ⟨.unit (control ⟨ch.toNat, Nat.lt_succ_of_le hle⟩), rfl, fun ps => ?_⟩
    have hcode : (control ⟨ch.toNat, Nat.lt_succ_of_le hle⟩).code = ch.toNat := rfl
    rw [meaning_unit, hcode, Utf.encode8, if_pos (Nat.lt_of_le_of_lt hle (by decide))]
    · simp
    · rintro ⟨hhigh, -⟩
      exact absurd (Nat.le_trans hhigh hle) (by decide)
  · cases h

theorem plain_of_escapeOf (h : escapeOf ch = none) : Plain ch := by
  simp only [escapeOf] at h
  refine ⟨?_, ?_, ?_⟩
  · rintro rfl
    exact absurd h (by decide)
  · rintro rfl
    exact absurd h (by decide)
  · intro hle
    simp only [hle, if_true] at h
    repeat' split at h
    all_goals cases h

/-- `\u2028` or `\u2029`. -/
def separator (last : Fin 2) : Hex where
  digits := [chr '2', chr '0', chr '2', hexChar (8 + last)]
  code := 0x2028 + last
  reads := by
    revert last
    decide

theorem meaning_separator (last : Fin 2) (ps : List Piece) :
    meaning (.unit (separator last) :: ps) =
      [0xe2, 0x80, 0xa8 + last.val.toUInt8] ++ meaning ps := by
  have hcode : ¬ Utf.High (separator last).code ∧
      Utf.encode8 (separator last).code = [0xe2, 0x80, 0xa8 + last.val.toUInt8] := by
    revert last
    decide
  rw [meaning_unit hcode.1, hcode.2]

/-- The text is made of pieces that stand for the bytes of `v`. -/
def Spells (text v : Bytes) : Prop :=
  ∃ ps : List Piece, text = ps.flatMap Piece.spell ∧ meaning ps = v

theorem Spells.cons (p : Piece) (hmeaning : ∀ ps, meaning (p :: ps) = w ++ meaning ps)
    (h : Spells text v) : Spells (p.spell ++ text) (w ++ v) := by
  obtain ⟨ps, rfl, rfl⟩ := h
  exact ⟨p :: ps, List.flatMap_cons.symm, hmeaning ps⟩

theorem Spells.raw (hc : escapeOf c = none) (h : Spells text v) : Spells (c :: text) (c :: v) := by
  have hmeaning (ps : List Piece) :
      meaning (.raw c (plain_of_escapeOf hc) :: ps) = [c] ++ meaning ps := by
    rw [meaning, List.singleton_append]
  exact h.cons _ hmeaning

theorem spells_dumpChars (v : Bytes) : Spells (dumpChars v) v := by
  fun_induction dumpChars v with
  | case1 => exact ⟨[], rfl, rfl⟩
  | case2 ch rest text htext ih =>
    obtain ⟨p, rfl, hmeaning⟩ := piece_of_escapeOf htext
    exact ih.cons p hmeaning
  | case3 ch hnone a b after hsep ih =>
    obtain ⟨rfl, rfl, rfl⟩ := hsep
    exact ih.cons (.unit (separator 0)) (meaning_separator 0)
  | case4 ch hnone a b after hno hsep ih =>
    obtain ⟨rfl, rfl, rfl⟩ := hsep
    exact ih.cons (.unit (separator 1)) (meaning_separator 1)
  | case5 ch hnone a b after hno hno' ih => exact ih.raw hnone
  | case6 ch hnone rest hshort ih => exact ih.raw hnone

theorem text_dumpString (v : Bytes) : Text v (dumpString v) := by
  obtain ⟨ps, hps, hv⟩ := spells_dumpChars v
  have h := Text.quoted ps
  rwa [quoted, ← hps, hv] at h

-- ---------------------------------------------------------------------------
-- Values
-- ---------------------------------------------------------------------------

section
variable [Doubles]

def dumpDouble (value : Floats.Double) : Bytes :=
  match Doubles.printf value with
  | some buf => buf.text
  | none => lit "null"

mutual

/-- `dump` of a value that has its maps in key order. -/
def dumpValue : Json → Bytes
  | .null => lit "null"
  | .int value => intToString value
  | .double literal => dumpDouble (Floats.strtod literal)
  | .bool value => if value then lit "true" else lit "false"
  | .string value => dumpString value
  | .array values => chr '[' :: (dumpElements true values ++ [chr ']'])
  | .object values => chr '{' :: (dumpMembers true values ++ [chr '}'])

def dumpElements (first : Bool) : List Json → Bytes
  | [] => []
  | value :: values =>
    (if first then [] else lit ", ") ++ (dumpValue value ++ dumpElements false values)

def dumpMembers (first : Bool) : List (Bytes × Json) → Bytes
  | [] => []
  | (key, value) :: values =>
    (if first then [] else lit ", ") ++
      (dumpString key ++ (lit ": " ++ (dumpValue value ++ dumpMembers false values)))

end

def Json.dump (json : Json) : Bytes := dumpValue json.ordered

def Json.numberValue : Json → Floats.Double
  | .int value => Doubles.ofInt value
  | .double literal => Floats.strtod literal
  | _ => Doubles.ofInt 0

mutual

/-- `==` of values that have their maps in key order. -/
def equalsValue : Json → Json → Bool
  | .null, .null => true
  | .bool value, .bool value' => value == value'
  | .string value, .string value' => value == value'
  | .array values, .array values' => equalsElements values values'
  | .object values, .object values' => equalsMembers values values'
  | json, other =>
    json.isNumber && other.isNumber && Doubles.eq json.numberValue other.numberValue

def equalsElements : List Json → List Json → Bool
  | [], [] => true
  | value :: values, value' :: values' =>
    equalsValue value value' && equalsElements values values'
  | _, _ => false

def equalsMembers : List (Bytes × Json) → List (Bytes × Json) → Bool
  | [], [] => true
  | (key, value) :: values, (key', value') :: values' =>
    key == key' && equalsValue value value' && equalsMembers values values'
  | _, _ => false

end

/-- `==` of two values that share nothing. -/
def Json.equals (json other : Json) : Bool := equalsValue json.ordered other.ordered

mutual

/-- No number in it is infinite or NaN. -/
def Json.finite : Json → Bool
  | .double literal => (Doubles.printf (Floats.strtod literal)).isSome
  | .array values => finiteElements values
  | .object values => finiteMembers values
  | .null | .int _ | .bool _ | .string _ => true

def finiteElements : List Json → Bool
  | [] => true
  | value :: values => value.finite && finiteElements values

def finiteMembers : List (Bytes × Json) → Bool
  | [] => true
  | (_, value) :: values => value.finite && finiteMembers values

end

theorem finite_array : (Json.array values).finite ↔ ∀ v ∈ values, v.finite := by
  rw [Json.finite]
  induction values with
  | nil => simp [finiteElements]
  | cons value values ih => rw [finiteElements, Bool.and_eq_true, ih, List.forall_mem_cons]

theorem finite_object : (Json.object values).finite ↔ ∀ m ∈ values, m.2.finite := by
  rw [Json.finite]
  induction values with
  | nil => simp [finiteMembers]
  | cons m values ih => rw [finiteMembers, Bool.and_eq_true, ih, List.forall_mem_cons]

theorem finite_ordered (h : Json.Valid j) : j.ordered.finite ↔ j.finite := by
  induction h with
  | null | int | double | bool | string => rfl
  | array h ih =>
    rw [Json.ordered, finite_array, finite_array, orderedElements_eq, List.forall_mem_map]
    exact forall₂_congr ih
  | object hkeys h ih =>
    rw [Json.ordered, finite_object, finite_object, forall_ordered hkeys (·.finite)]
    exact forall₂_congr ih

-- ---------------------------------------------------------------------------
-- What is written is a JSON text
-- ---------------------------------------------------------------------------

mutual

/-- The value that is spelled when one is written. -/
def spelled : Json → Value
  | .null => .null
  | .int value => .number (intToString value) (number_intToString value)
  | .double literal =>
    match Doubles.printf (Floats.strtod literal) with
    | some buf => .number buf.text buf.number
    | none => .null
  | .bool value => .bool value
  | .string value => .string value
  | .array values => .array (spelledElements values)
  | .object values => .object (spelledMembers values)

def spelledElements : List Json → List Value
  | [] => []
  | value :: values => spelled value :: spelledElements values

def spelledMembers : List (Bytes × Json) → List (Bytes × Value)
  | [] => []
  | (key, value) :: values => (key, spelled value) :: spelledMembers values

end

theorem derives_dumpElements (hw : Blank w)
    (h : ∀ v ∈ value :: values, Derives n (.value (spelled v)) (dumpValue v)) :
    Derives n (.elements (spelledElements (value :: values)))
      (w ++ (dumpValue value ++ dumpElements false values)) := by
  induction values generalizing value w with
  | nil => exact .lastElement (.element hw blank_nil (h value List.mem_cons_self))
  | cons value' values ih =>
    obtain ⟨hvalue, hvalues⟩ := List.forall_mem_cons.mp h
    have hfirst : Derives n (.element (spelled value)) (w ++ (dumpValue value ++ [])) :=
      .element hw blank_nil hvalue
    have hcomma : lit ", " = chr ',' :: [32] := rfl
    rw [spelledElements]
    simpa [dumpElements, hcomma] using Derives.elements hfirst (ih blank_space hvalues)

theorem derives_dumpMembers (hw : Blank w)
    (h : ∀ m ∈ (key, value) :: values, Derives n (.value (spelled m.2)) (dumpValue m.2)) :
    Derives n (.members (spelledMembers ((key, value) :: values)))
      (w ++ (dumpString key ++ (lit ": " ++ (dumpValue value ++ dumpMembers false values)))) := by
  have hcolon : lit ": " = chr ':' :: [32] := rfl
  have hcomma : lit ", " = chr ',' :: [32] := rfl
  have hmember {w key value} (hw : Blank w)
      (hvalue : Derives n (.value (spelled value)) (dumpValue value)) :
      Derives n (.member (key, spelled value))
        (w ++ (dumpString key ++ ([] ++ chr ':' :: ([32] ++ (dumpValue value ++ []))))) :=
    .member hw blank_nil (text_dumpString key) (.element blank_space blank_nil hvalue)
  induction values generalizing key value w with
  | nil => exact .lastMember (hmember hw (h _ List.mem_cons_self))
  | cons m values ih =>
    obtain ⟨hvalue, hvalues⟩ := List.forall_mem_cons.mp h
    rw [spelledMembers]
    simpa [dumpMembers, hcolon, hcomma] using
      Derives.members (hmember hw hvalue) (ih blank_space hvalues)

theorem derives_dump (j : Json) (n : Nat) (h : j.depth ≤ n) :
    Derives n (.value (spelled j)) (dumpValue j) := by
  induction j using Json.induct generalizing n with
  | null =>
    obtain ⟨n, rfl⟩ := Nat.exists_eq_add_one.mpr (h : 1 ≤ n)
    exact .null
  | int value =>
    obtain ⟨n, rfl⟩ := Nat.exists_eq_add_one.mpr (h : 1 ≤ n)
    exact .number _
  | double literal =>
    obtain ⟨n, rfl⟩ := Nat.exists_eq_add_one.mpr (h : 1 ≤ n)
    rw [spelled, dumpValue, dumpDouble]
    split
    · exact .number _
    · exact .null
  | bool value =>
    obtain ⟨n, rfl⟩ := Nat.exists_eq_add_one.mpr (h : 1 ≤ n)
    cases value with
    | true => exact .true
    | false => exact .false
  | string value =>
    obtain ⟨n, rfl⟩ := Nat.exists_eq_add_one.mpr (h : 1 ≤ n)
    exact .string (text_dumpString value)
  | array values ih =>
    obtain ⟨n, rfl⟩ := Nat.exists_eq_add_one.mpr (Nat.lt_of_lt_of_le (depth_pos _) h)
    have hvalues := depth_array_le.mp h
    cases values with
    | nil => exact .emptyArray blank_nil
    | cons value values =>
      exact .array (derives_dumpElements blank_nil fun v hv => ih v hv n (hvalues v hv))
  | object values ih =>
    obtain ⟨n, rfl⟩ := Nat.exists_eq_add_one.mpr (Nat.lt_of_lt_of_le (depth_pos _) h)
    have hvalues := depth_object_le.mp h
    cases values with
    | nil => exact .emptyObject blank_nil
    | cons m values =>
      exact .object (derives_dumpMembers blank_nil fun m hm => ih m hm n (hvalues m hm))

end

end Json11
