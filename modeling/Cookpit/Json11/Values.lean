import Cookpit.Json11.Grammar

/-!
# Values as json11 keeps them

A `Json` is a tree: integers are `int`, and a `std::map` has every key once and
is walked through in key order, whatever order its entries came in (`ordered`).
All that is parsed is such a value, of no more levels than the parser goes
(`within_of_parse`).
-/

namespace Json11

open ByteString JsonText

-- ---------------------------------------------------------------------------
-- Values
-- ---------------------------------------------------------------------------

theorem Json.induct {motive : Json → Prop} (null : motive .null) (int : ∀ n, motive (.int n))
    (double : ∀ literal, motive (.double literal)) (bool : ∀ value, motive (.bool value))
    (string : ∀ value, motive (.string value))
    (array : ∀ values, (∀ v ∈ values, motive v) → motive (.array values))
    (object : ∀ values, (∀ m ∈ values, motive m.2) → motive (.object values)) (j : Json) :
    motive j :=
  @Json.rec motive (fun values => ∀ v ∈ values, motive v) (fun values => ∀ m ∈ values, motive m.2)
    (fun m => motive m.2) null int double bool string (fun values => array values)
    (fun values => object values) (fun _ h => nomatch h)
    (fun _ _ hv hvs => List.forall_mem_cons.mpr ⟨hv, hvs⟩) (fun _ h => nomatch h)
    (fun _ _ hm hms => List.forall_mem_cons.mpr ⟨hm, hms⟩) (fun _ _ h => h) j

/-- What fits an `int`. -/
def Fits (n : Int) : Prop := Int32.minValue.toInt ≤ n ∧ n ≤ Int32.maxValue.toInt

instance (n : Int) : Decidable (Fits n) := inferInstanceAs (Decidable (_ ∧ _))

/-- A value as the library keeps it: integers are `int`, and no map has a key
twice. -/
inductive Json.Valid : Json → Prop
  | null : Valid .null
  | int (h : Fits value) : Valid (.int value)
  | double : Valid (.double literal)
  | bool : Valid (.bool value)
  | string : Valid (.string value)
  | array (h : ∀ v ∈ values, Valid v) : Valid (.array values)
  | object (hkeys : (values.map (·.1)).Nodup) (h : ∀ m ∈ values, Valid m.2) :
      Valid (.object values)

mutual

/-- The number of levels of a value. -/
def Json.depth : Json → Nat
  | .array values => depthOfElements values + 1
  | .object values => depthOfMembers values + 1
  | .null | .int _ | .double _ | .bool _ | .string _ => 1

def depthOfElements : List Json → Nat
  | [] => 0
  | value :: values => max value.depth (depthOfElements values)

def depthOfMembers : List (Bytes × Json) → Nat
  | [] => 0
  | (_, value) :: values => max value.depth (depthOfMembers values)

end

theorem depth_array_le : (Json.array values).depth ≤ n + 1 ↔ ∀ v ∈ values, v.depth ≤ n := by
  rw [Json.depth, Nat.add_le_add_iff_right]
  induction values with
  | nil => simp [depthOfElements]
  | cons value values ih => rw [depthOfElements, Nat.max_le, ih, List.forall_mem_cons]

theorem depth_object_le : (Json.object values).depth ≤ n + 1 ↔ ∀ m ∈ values, m.2.depth ≤ n := by
  rw [Json.depth, Nat.add_le_add_iff_right]
  induction values with
  | nil => simp [depthOfMembers]
  | cons m values ih => rw [depthOfMembers, Nat.max_le, ih, List.forall_mem_cons]

theorem depth_pos (j : Json) : 0 < j.depth := by
  cases j <;> simp [Json.depth]

def Json.isNumber : Json → Bool
  | .int _ | .double _ => true
  | _ => false

theorem isNumber_ofNumber (s : Bytes) : (ofNumber s).isNumber = true := by
  rw [ofNumber]
  split <;> rfl

theorem depth_of_isNumber {j : Json} (h : j.isNumber = true) : j.depth = 1 := by
  cases j with
  | int | double => rfl
  | null | bool | string | array | object => cases h

-- ---------------------------------------------------------------------------
-- Key order
-- ---------------------------------------------------------------------------

/-- The entries of a `std::map`, in the order it is walked through. -/
def inKeyOrder (data : List (Bytes × Json)) : List (Bytes × Json) :=
  (KeyStore.Store.empty.putAll data).entries

mutual

/-- The value with the entries of its maps in key order. -/
def Json.ordered : Json → Json
  | .array values => .array (orderedElements values)
  | .object values => .object (inKeyOrder (orderedMembers values))
  | .null => .null
  | .int value => .int value
  | .double literal => .double literal
  | .bool value => .bool value
  | .string value => .string value

def orderedElements : List Json → List Json
  | [] => []
  | value :: values => value.ordered :: orderedElements values

def orderedMembers : List (Bytes × Json) → List (Bytes × Json)
  | [] => []
  | (key, value) :: values => (key, value.ordered) :: orderedMembers values

end

/-- The keys of every map increase. -/
inductive Json.Ordered : Json → Prop
  | null : Ordered .null
  | int : Ordered (.int value)
  | double : Ordered (.double literal)
  | bool : Ordered (.bool value)
  | string : Ordered (.string value)
  | array (h : ∀ v ∈ values, Ordered v) : Ordered (.array values)
  | object (hkeys : values.Pairwise (·.1 < ·.1)) (h : ∀ m ∈ values, Ordered m.2) :
      Ordered (.object values)

theorem orderedElements_eq (values : List Json) :
    orderedElements values = values.map Json.ordered := by
  induction values with
  | nil => rfl
  | cons value values ih => rw [orderedElements, ih, List.map_cons]

theorem orderedMembers_eq (values : List (Bytes × Json)) :
    orderedMembers values = values.map fun m => (m.1, m.2.ordered) := by
  induction values with
  | nil => rfl
  | cons m values ih => rw [orderedMembers, ih, List.map_cons]

theorem keys_orderedMembers (values : List (Bytes × Json)) :
    (orderedMembers values).map (·.1) = values.map (·.1) := by
  rw [orderedMembers_eq, List.map_map]
  rfl

theorem mem_inKeyOrder (h : (data.map (·.1)).Nodup) {m : Bytes × Json} :
    m ∈ inKeyOrder data ↔ m ∈ data := by
  rw [inKeyOrder, KeyStore.Store.mem_putAll h fun _ _ => List.not_mem_nil]
  exact or_iff_left List.not_mem_nil

theorem inKeyOrder_pairwise (data : List (Bytes × Json)) :
    (inKeyOrder data).Pairwise (·.1 < ·.1) :=
  (KeyStore.Store.empty.putAll data).sorted

theorem inKeyOrder_eq (h : data.Pairwise (·.1 < ·.1)) : inKeyOrder data = data :=
  KeyStore.Store.putAll_sorted h

theorem nodup_keys {data : List (Bytes × Json)} (h : data.Pairwise (·.1 < ·.1)) :
    (data.map (·.1)).Nodup := by
  rw [List.Nodup, List.pairwise_map]
  refine h.imp ?_
  intro m m' hlt he
  rw [he] at hlt
  exact Std.Asymm.asymm _ _ hlt hlt

/-- What holds of every member does so in key order. -/
theorem forall_ordered (h : (values.map (·.1)).Nodup) (p : Json → Prop) :
    (∀ m ∈ inKeyOrder (orderedMembers values), p m.2) ↔ ∀ m ∈ values, p m.2.ordered := by
  have hkeys : ((orderedMembers values).map (·.1)).Nodup := by rwa [keys_orderedMembers]
  have hmem (m : Bytes × Json) : m ∈ inKeyOrder (orderedMembers values) ↔
      m ∈ values.map fun m => (m.1, m.2.ordered) := by
    rw [mem_inKeyOrder hkeys, orderedMembers_eq]
  simp only [hmem, List.forall_mem_map]

theorem ordered_ordered (h : Json.Valid j) : j.ordered.Ordered := by
  induction h with
  | null => exact .null
  | int => exact .int
  | double => exact .double
  | bool => exact .bool
  | string => exact .string
  | array h ih =>
    rw [Json.ordered, orderedElements_eq]
    exact .array (List.forall_mem_map.mpr ih)
  | object hkeys h ih =>
    rw [Json.ordered]
    exact .object (inKeyOrder_pairwise _) ((forall_ordered hkeys _).mpr ih)

theorem valid_ordered (h : Json.Valid j) : j.ordered.Valid := by
  induction h with
  | null => exact .null
  | int h => exact .int h
  | double => exact .double
  | bool => exact .bool
  | string => exact .string
  | array h ih =>
    rw [Json.ordered, orderedElements_eq]
    exact .array (List.forall_mem_map.mpr ih)
  | object hkeys h ih =>
    rw [Json.ordered]
    exact .object (nodup_keys (inKeyOrder_pairwise _)) ((forall_ordered hkeys _).mpr ih)

theorem depth_ordered_le (h : Json.Valid j) (n : Nat) : j.ordered.depth ≤ n ↔ j.depth ≤ n := by
  induction h generalizing n with
  | null | int | double | bool | string => rfl
  | array h ih =>
    cases n with
    | zero => simp [Json.depth, Json.ordered]
    | succ n =>
      rw [Json.ordered, depth_array_le, depth_array_le, orderedElements_eq, List.forall_mem_map]
      exact forall₂_congr fun v hv => ih v hv n
  | object hkeys h ih =>
    cases n with
    | zero => simp [Json.depth, Json.ordered]
    | succ n =>
      rw [Json.ordered, depth_object_le, depth_object_le, forall_ordered hkeys (·.depth ≤ n)]
      exact forall₂_congr fun m hm => ih m hm n

theorem ordered_eq (h : Json.Ordered j) : j.ordered = j := by
  induction h with
  | null | int | double | bool | string => rfl
  | array h ih =>
    rw [Json.ordered, orderedElements_eq, List.map_congr_left ih, List.map_id']
  | @object values hkeys h ih =>
    have hmembers : orderedMembers values = values := by
      rw [orderedMembers_eq, List.map_congr_left fun m hm => by rw [ih m hm], List.map_id']
    rw [Json.ordered, hmembers, inKeyOrder_eq hkeys]

theorem ordered_of_isNumber {j : Json} (h : j.isNumber = true) : j.Ordered := by
  cases j with
  | int => exact .int
  | double => exact .double
  | null | bool | string | array | object => cases h

-- ---------------------------------------------------------------------------
-- What is parsed
-- ---------------------------------------------------------------------------

/-- Nine characters, sign included, always fit an `int`. -/
theorem fits_atoi (hsign : sign = [] ∨ sign = [chr '-']) (hi : Integer i)
    (h : (sign ++ i).length ≤ 9) : Fits (atoi (sign ++ i)) := by
  have hlength : i.length ≤ 9 := by
    rw [List.length_append] at h
    omega
  have hbound : digitsValue i < 1000000000 :=
    Nat.lt_of_lt_of_le (digitsValue_lt hi.all_digits.2)
      (Nat.pow_le_pow_right (by decide : 10 > 0) hlength)
  have hvalue : atoi (sign ++ i) = digitsValue i ∨ atoi (sign ++ i) = -(digitsValue i) := by
    obtain rfl | rfl := hsign
    · have hpeek : peek i ≠ chr '-' := by
        cases hi with
        | zero => decide
        | digits h0 hds => exact isDigit_ne (hds.2 _ List.mem_cons_self) rfl
      exact .inl (if_neg hpeek)
    · exact .inr rfl
  have hmin : Int32.minValue.toInt = -2147483648 := rfl
  have hmax : Int32.maxValue.toInt = 2147483647 := rfl
  rw [Fits, hmin, hmax]
  omega

/-- A value the parser yields for a text of up to `n` levels. -/
structure Json.Within (n : Nat) (j : Json) : Prop where
  valid : j.Valid
  depth : j.depth ≤ n

def AllWithin (n : Nat) : Phrase → Prop
  | .value v | .element v => (ofValue v).Within n
  | .elements vs => ∀ j ∈ ofElements vs, j.Within n
  | .member m => (ofValue m.2).Within n
  | .members ms => ∀ data, (data.map (·.1)).Nodup → (∀ m ∈ data, m.2.Within n) →
    ((ofMembers data ms).map (·.1)).Nodup ∧ ∀ m ∈ ofMembers data ms, m.2.Within n

theorem ofNumber_valid (h : Number s) : (ofNumber s).Valid := by
  rw [ofNumber]
  split
  · rename_i hshort
    obtain ⟨sign, i, hsign, hi, rfl⟩ := integer_of_unmarked h hshort.1
    exact .int (fits_atoi hsign hi hshort.2)
  · exact .double

theorem nodup_assign (h : (data.map (·.1)).Nodup) (key : Bytes) (value : Json) :
    ((assign data key value).map (·.1)).Nodup := by
  have hkept : ((data.filter (·.1 ≠ key)).map (·.1)).Nodup :=
    h.sublist (List.filter_sublist.map _)
  rw [assign, List.map_append, List.nodup_append]
  refine ⟨hkept, List.pairwise_singleton _ key, ?_⟩
  rintro k hk key' hkey' rfl
  obtain rfl := List.mem_singleton.mp hkey'
  obtain ⟨m, hm, rfl⟩ := List.mem_map.mp hk
  simpa using (List.mem_filter.mp hm).2

theorem within_assign {data : List (Bytes × Json)} (h : ∀ m ∈ data, m.2.Within n)
    (hvalue : Json.Within n value) (key : Bytes) : ∀ m ∈ assign data key value, m.2.Within n := by
  intro m hm
  obtain hm | hm := List.mem_append.mp hm
  · exact h m (List.mem_filter.mp hm).1
  · obtain rfl := List.mem_singleton.mp hm
    exact hvalue

theorem derives_within (h : Derives n p s) : AllWithin n p := by
  induction h with
  | null => exact ⟨.null, Nat.succ_pos _⟩
  | true | false => exact ⟨.bool, Nat.succ_pos _⟩
  | number h =>
    refine ⟨ofNumber_valid h, ?_⟩
    show (ofNumber _).depth ≤ _
    rw [depth_of_isNumber (isNumber_ofNumber _)]
    exact Nat.succ_pos _
  | string => exact ⟨.string, Nat.succ_pos _⟩
  | emptyArray => exact ⟨.array (fun _ h => nomatch h), Nat.succ_pos _⟩
  | emptyObject => exact ⟨.object .nil (fun _ h => nomatch h), Nat.succ_pos _⟩
  | array h ih =>
    exact ⟨.array fun j hj => (ih j hj).valid, depth_array_le.mpr fun j hj => (ih j hj).depth⟩
  | object h ih =>
    obtain ⟨hkeys, hmembers⟩ := ih [] .nil fun _ h => nomatch h
    exact ⟨.object hkeys fun m hm => (hmembers m hm).valid,
      depth_object_le.mpr fun m hm => (hmembers m hm).depth⟩
  | element hw hw' h ih => exact ih
  | lastElement h ih => exact List.forall_mem_singleton.mpr ih
  | elements h hs ih ihs => exact List.forall_mem_cons.mpr ⟨ih, ihs⟩
  | member hw hw' hk h ih => exact ih
  | lastMember h ih =>
    intro data hkeys hdata
    exact ⟨nodup_assign hkeys _ _, within_assign hdata ih _⟩
  | members h hs ih ihs =>
    intro data hkeys hdata
    exact ihs _ (nodup_assign hkeys _ _) (within_assign hdata ih _)

theorem within_of_parse (h : parse input = some j) : j.Within (maxDepth + 1) := by
  obtain ⟨v, hdoc, rfl⟩ := (parse_iff input j).mp h
  exact derives_within hdoc

end Json11
