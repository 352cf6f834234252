import Cookpit.Lib.Bytes

/-!
# Form-encoded queries

How a server reads the query of an address: what follows a `#` is dropped, the
rest is cut at every `&` and each piece at its first `=`, and a `+` and an
escape `%XX` become a space and a byte. `serialize` writes names and values as
they are, so that only text without those characters is read back
(`decode_serialize`); the cuts alone give back all text without the separators
(`fields_serialize`).
-/

namespace QueryString

open ByteString

variable {s piece query : Bytes} {p : Bytes × Bytes} {params : List (Bytes × Bytes)}

-- ---------------------------------------------------------------------------
-- Reading
-- ---------------------------------------------------------------------------

def hexValue (c : UInt8) : Option Nat :=
  if 48 ≤ c ∧ c ≤ 57 then some (c.toNat - 48)
  else if 65 ≤ c ∧ c ≤ 70 then some (c.toNat - 55)
  else if 97 ≤ c ∧ c ≤ 102 then some (c.toNat - 87)
  else none

/-- The byte three bytes are the escape of. -/
def escape (c a b : UInt8) : Option UInt8 :=
  if c = chr '%' then do
    let high ← hexValue a
    let low ← hexValue b
    some (high * 16 + low).toUInt8
  else none

def plusToSpace (c : UInt8) : UInt8 := if c = chr '+' then chr ' ' else c

def unescape : Bytes → Bytes
  | c :: a :: b :: rest =>
    match escape c a b with
    | some x => x :: unescape rest
    | none => plusToSpace c :: unescape (a :: b :: rest)
  | s => s.map plusToSpace

/-- The pieces between the `&`, without an empty one at the end. -/
def pieces (query : Bytes) : List Bytes :=
  let all := query.splitOn (chr '&')
  if all.getLast? = some [] then all.dropLast else all

def nameValue (piece : Bytes) : Bytes × Bytes :=
  (piece.takeWhile (· ≠ chr '='), (piece.dropWhile (· ≠ chr '=')).drop 1)

def unescapePair (p : Bytes × Bytes) : Bytes × Bytes := (unescape p.1, unescape p.2)

/-- What stands between the first `?` of an address and its fragment. -/
def queryPart (url : Bytes) : Bytes :=
  ((url.takeWhile (· ≠ chr '#')).dropWhile (· ≠ chr '?')).drop 1

def decode (query : Bytes) : List (Bytes × Bytes) :=
  (pieces query).map fun piece => unescapePair (nameValue piece)

/-- Names and values as they stand in the query. -/
def fields (query : Bytes) : List (Bytes × Bytes) := (pieces query).map nameValue

theorem decode_eq (query : Bytes) : decode query = (fields query).map unescapePair := by
  simp [decode, fields]

-- ---------------------------------------------------------------------------
-- Writing
-- ---------------------------------------------------------------------------

def pair (p : Bytes × Bytes) : Bytes := p.1 ++ chr '=' :: p.2

def serialize (params : List (Bytes × Bytes)) : Bytes := params.flatMap fun p => pair p ++ [chr '&']

def spaceToPlus (c : UInt8) : UInt8 := if c = chr ' ' then chr '+' else c

-- ---------------------------------------------------------------------------
-- Escapes
-- ---------------------------------------------------------------------------

/-- No `%` is followed by two hexadecimal digits. -/
def Unescaped (s : Bytes) : Prop := ∀ c a b, [c, a, b] <:+: s → escape c a b = none

theorem Unescaped.tail (h : Unescaped (c :: s)) : Unescaped s :=
  fun x a b hs => h x a b (hs.trans (List.suffix_cons c s).isInfix)

theorem length_unescape_le (s : Bytes) : (unescape s).length ≤ s.length := by
  induction s using unescape.induct with
  | case1 c a b rest x hx ih =>
    rw [unescape, hx]
    simp only [List.length_cons]
    omega
  | case2 c a b rest hx ih =>
    rw [unescape, hx]
    simpa using ih
  | case3 s hs =>
    rw [unescape]
    · simp
    · exact hs

/-- Text of the same length has lost no escape. -/
theorem unescaped_of_length (h : (unescape s).length = s.length) : Unescaped s := by
  induction s using unescape.induct with
  | case1 c a b rest x hx ih =>
    rw [unescape, hx] at h
    have hle := length_unescape_le rest
    simp only [List.length_cons] at h
    omega
  | case2 c a b rest hx ih =>
    rw [unescape, hx] at h
    intro x y z hs
    rcases List.infix_cons_iff.mp hs with hs | hs
    · obtain ⟨t, ht⟩ := hs
      simp only [List.cons_append, List.nil_append, List.cons.injEq] at ht
      obtain ⟨rfl, rfl, rfl, -⟩ := ht
      exact hx
    · exact ih (by simpa using h) x y z hs
  | case3 s hs =>
    intro x y z hxyz
    have hlen := hxyz.length_le
    obtain _ | ⟨c, _ | ⟨a, _ | ⟨b, rest⟩⟩⟩ := s
    · simp at hlen
    · simp at hlen
    · simp at hlen
    · exact absurd rfl (hs c a b rest)

theorem unescape_of_unescaped (h : Unescaped s) : unescape s = s.map plusToSpace := by
  induction s using unescape.induct with
  | case1 c a b rest x hx ih =>
    have hnone := h c a b (List.prefix_append [c, a, b] rest).isInfix
    rw [hx] at hnone
    cases hnone
  | case2 c a b rest hx ih =>
    rw [unescape, hx, List.map_cons, ih h.tail]
  | case3 s hs =>
    rw [unescape]
    exact hs

-- ---------------------------------------------------------------------------
-- Spaces
-- ---------------------------------------------------------------------------

theorem plusToSpace_spaceToPlus (c : UInt8) :
    plusToSpace (spaceToPlus c) = if c = chr '+' then chr ' ' else c := by
  unfold spaceToPlus plusToSpace
  split
  · rename_i hc
    rw [if_pos rfl, hc, if_neg (by decide)]
  · rfl

theorem map_plusToSpace_spaceToPlus :
    (s.map spaceToPlus).map plusToSpace = s ↔ chr '+' ∉ s := by
  induction s with
  | nil => simp
  | cons c s ih =>
    rw [List.map_cons, List.map_cons, List.cons.injEq, ih, plusToSpace_spaceToPlus, List.mem_cons,
      not_or]
    refine and_congr_left fun _ => ?_
    split
    · rename_i hc
      rw [hc]
      decide
    · rename_i hc
      exact iff_of_true rfl (Ne.symm hc)

theorem mem_map_spaceToPlus {c : UInt8} (hc : c ≠ chr ' ') (hc' : c ≠ chr '+') {key : Bytes} :
    c ∈ key.map spaceToPlus ↔ c ∈ key := by
  rw [List.mem_map]
  constructor
  · rintro ⟨d, hd, rfl⟩
    unfold spaceToPlus at hc' ⊢
    split
    · rename_i hs
      exact absurd (if_pos hs) hc'
    · exact hd
  · intro h
    exact ⟨c, h, if_neg hc⟩

theorem hexValue_spaceToPlus (c : UInt8) : hexValue (spaceToPlus c) = hexValue c := by
  unfold spaceToPlus
  split
  · rename_i hc
    rw [hc]
    decide
  · rfl

theorem escape_spaceToPlus (c a b : UInt8) :
    escape (spaceToPlus c) (spaceToPlus a) (spaceToPlus b) = escape c a b := by
  have hc : spaceToPlus c = chr '%' ↔ c = chr '%' := by
    unfold spaceToPlus
    split
    · rename_i hc
      rw [hc]
      decide
    · exact Iff.rfl
  simp only [escape, hc, hexValue_spaceToPlus]

theorem unescaped_map_spaceToPlus : Unescaped (s.map spaceToPlus) ↔ Unescaped s := by
  constructor
  · intro h c a b hs
    rw [← escape_spaceToPlus]
    exact h _ _ _ (hs.map spaceToPlus)
  · intro h c a b hs
    obtain ⟨t, ht, hmap⟩ := List.infix_map_iff.mp hs
    obtain _ | ⟨c', _ | ⟨a', _ | ⟨b', _ | ⟨d, t⟩⟩⟩⟩ := t
    all_goals
      simp only [List.map_cons, List.map_nil, List.cons.injEq, reduceCtorEq, and_false] at hmap
    obtain ⟨rfl, rfl, rfl, -⟩ := hmap
    rw [escape_spaceToPlus]
    exact h c' a' b' ht

/-- Text written with `+` for a space is read back exactly if it has no `+` of
its own and no escape. -/
theorem unescape_map_spaceToPlus_iff :
    unescape (s.map spaceToPlus) = s ↔ chr '+' ∉ s ∧ Unescaped s := by
  constructor
  · intro h
    have hun : Unescaped (s.map spaceToPlus) := unescaped_of_length (by rw [h, List.length_map])
    rw [unescape_of_unescaped hun, map_plusToSpace_spaceToPlus] at h
    exact ⟨h, unescaped_map_spaceToPlus.mp hun⟩
  · rintro ⟨hplus, hun⟩
    rw [unescape_of_unescaped (unescaped_map_spaceToPlus.mpr hun)]
    exact map_plusToSpace_spaceToPlus.mpr hplus

-- ---------------------------------------------------------------------------
-- Pieces
-- ---------------------------------------------------------------------------

/-- A name and a value that a cut at `&` and at the first `=` leaves whole. -/
structure Separate (p : Bytes × Bytes) : Prop where
  name_amp : chr '&' ∉ p.1
  name_eq : chr '=' ∉ p.1
  value_amp : chr '&' ∉ p.2

instance (p : Bytes × Bytes) : Decidable (Separate p) :=
  decidable_of_iff (chr '&' ∉ p.1 ∧ chr '=' ∉ p.1 ∧ chr '&' ∉ p.2)
    ⟨fun h => ⟨h.1, h.2.1, h.2.2⟩, fun h => ⟨h.name_amp, h.name_eq, h.value_amp⟩⟩

theorem Separate.amp_not_mem (h : Separate p) : chr '&' ∉ pair p := by
  rw [pair, List.mem_append, List.mem_cons]
  rintro (hm | hm | hm)
  · exact h.name_amp hm
  · exact absurd hm (by decide)
  · exact h.value_amp hm

theorem nameValue_pair (h : chr '=' ∉ p.1) : nameValue (pair p) = p := by
  have hname : ∀ c ∈ p.1, (c ≠ chr '=') = true := fun c hc => by
    simpa using fun he : c = chr '=' => h (he ▸ hc)
  rw [nameValue, pair, List.takeWhile_append_of_pos (by simpa using hname),
    List.dropWhile_append_of_pos (by simpa using hname)]
  simp

theorem splitOn_serialize_append (params : List (Bytes × Bytes)) (rest : Bytes) :
    (serialize params ++ rest).splitOn (chr '&') =
      params.flatMap (fun p => (pair p).splitOn (chr '&')) ++ rest.splitOn (chr '&') := by
  induction params with
  | nil => rfl
  | cons p params ih =>
    rw [serialize, List.flatMap_cons, List.append_assoc, List.append_assoc, List.singleton_append,
      List.splitOn_append_cons_self, List.flatMap_cons, List.append_assoc, ← ih]
    rfl

theorem pieces_serialize (params : List (Bytes × Bytes)) :
    pieces (serialize params) = params.flatMap fun p => (pair p).splitOn (chr '&') := by
  have h := splitOn_serialize_append params []
  rw [List.append_nil, List.splitOn_nil] at h
  simp [pieces, h]

theorem fields_serialize (h : ∀ p ∈ params, Separate p) : fields (serialize params) = params := by
  rw [fields, pieces_serialize]
  induction params with
  | nil => rfl
  | cons p params ih =>
    have hp := h p List.mem_cons_self
    rw [List.flatMap_cons, List.map_append, ih fun q hq => h q (List.mem_cons_of_mem _ hq),
      List.splitOn_eq_singleton hp.amp_not_mem, List.map_singleton, nameValue_pair hp.name_eq]
    rfl

theorem decode_serialize (h : ∀ p ∈ params, Separate p) :
    decode (serialize params) = params.map unescapePair := by
  rw [decode_eq, fields_serialize h]

theorem mem_splitOn_of_mem_pieces (h : piece ∈ pieces query) : piece ∈ query.splitOn (chr '&') := by
  rw [pieces] at h
  split at h
  · exact List.mem_of_mem_dropLast h
  · exact h

theorem length_le_of_mem_splitOn {a : UInt8} (h : piece ∈ s.splitOn a) :
    piece.length ≤ s.length := by
  induction s generalizing piece with
  | nil => simp_all
  | cons c s ih =>
    rw [List.splitOn_cons_eq_if_modifyHead] at h
    split at h
    · rcases List.mem_cons.mp h with rfl | h
      · simp
      · exact Nat.le_succ_of_le (ih h)
    · obtain ⟨head, tail, hs⟩ := List.exists_cons_of_ne_nil (List.splitOn_ne_nil a s)
      rw [hs, List.modifyHead_cons] at h
      rw [hs] at ih
      rcases List.mem_cons.mp h with rfl | h
      · exact Nat.succ_le_succ (ih List.mem_cons_self)
      · exact Nat.le_succ_of_le (ih (List.mem_cons_of_mem _ h))

theorem length_nameValue_le (piece : Bytes) : (nameValue piece).2.length ≤ piece.length := by
  have h := (List.dropWhile_suffix (· ≠ chr '=') (l := piece)).length_le
  rw [nameValue, List.length_drop]
  omega

/-- No value that a cut of `name=value` gives is longer than `value`, and if it
has an `&` all are shorter. -/
theorem length_value_le {name value : Bytes} (hname : chr '=' ∉ name) (hamp : chr '&' ∉ name)
    (h : piece ∈ (pair (name, value)).splitOn (chr '&')) :
    (nameValue piece).2.length ≤ value.length ∧
      (chr '&' ∈ value → (nameValue piece).2.length < value.length) := by
  have hpair {v : Bytes} (hv : chr '&' ∉ v) : chr '&' ∉ pair (name, v) :=
    Separate.amp_not_mem ⟨hamp, hname, hv⟩
  by_cases hv : chr '&' ∈ value
  · obtain ⟨first, rest, rfl, hfirst⟩ := List.eq_append_cons_of_mem hv
    have hsplit : pair (name, first ++ chr '&' :: rest) =
        pair (name, first) ++ chr '&' :: rest := by simp [pair]
    rw [hsplit, List.splitOn_append_cons_self_of_not_mem (hpair hfirst)] at h
    have hlt : (nameValue piece).2.length < (first ++ chr '&' :: rest).length := by
      rw [List.length_append, List.length_cons]
      rcases List.mem_cons.mp h with rfl | h
      · rw [nameValue_pair hname]
        simp only
        omega
      · have hpiece := length_nameValue_le piece
        have hrest := length_le_of_mem_splitOn h
        omega
    exact ⟨Nat.le_of_lt hlt, fun _ => hlt⟩
  · rw [List.splitOn_eq_singleton (hpair hv)] at h
    rw [List.mem_singleton.mp h, nameValue_pair hname]
    exact ⟨Nat.le_refl _, fun h => absurd h hv⟩

theorem mem_decode (h : p ∈ decode query) :
    ∃ piece ∈ query.splitOn (chr '&'), unescapePair (nameValue piece) = p := by
  obtain ⟨piece, hpiece, rfl⟩ := List.mem_map.mp h
  exact ⟨piece, mem_splitOn_of_mem_pieces hpiece, rfl⟩

-- ---------------------------------------------------------------------------
-- Plain text
-- ---------------------------------------------------------------------------

def reserved : Bytes := lit "&=#+%"

/-- Text every step of a reader leaves alone. -/
def Plain (s : Bytes) : Prop := ∀ c ∈ s, c ∉ reserved

instance (s : Bytes) : Decidable (Plain s) := List.decidableBAll _ s

theorem Plain.not_mem (h : Plain s) (hc : c ∈ reserved) : c ∉ s := fun hs => h c hs hc

theorem Plain.unescape (h : Plain s) : unescape s = s := by
  have hpercent : chr '%' ∉ s := h.not_mem (by decide)
  have hun : Unescaped s := fun c a b hs => by
    have hc : c ≠ chr '%' := fun he => hpercent (he ▸ hs.subset List.mem_cons_self)
    rw [escape, if_neg hc]
  have hplus : ∀ c ∈ s, plusToSpace c = c := fun c hc => by
    have hne : c ≠ chr '+' := fun he => h.not_mem (by decide) (he ▸ hc)
    rw [plusToSpace, if_neg hne]
  rw [unescape_of_unescaped hun, List.map_congr_left hplus, List.map_id']

theorem Plain.separate (hname : Plain p.1) (hvalue : Plain p.2) : Separate p where
  name_amp := hname.not_mem (by decide)
  name_eq := hname.not_mem (by decide)
  value_amp := hvalue.not_mem (by decide)

-- ---------------------------------------------------------------------------
-- Fragments
-- ---------------------------------------------------------------------------

theorem takeWhile_ne_append {a : UInt8} {xs : Bytes} (h : a ∉ xs) (ys : Bytes) :
    (xs ++ ys).takeWhile (· ≠ a) = xs ++ ys.takeWhile (· ≠ a) :=
  List.takeWhile_append_of_pos fun c hc => by simpa using fun he : c = a => h (he ▸ hc)

theorem takeWhile_ne_eq_self {a : UInt8} {xs : Bytes} (h : a ∉ xs) :
    xs.takeWhile (· ≠ a) = xs := by
  simpa using takeWhile_ne_append h []

theorem takeWhile_ne_of_mem {a : UInt8} {xs : Bytes} (h : a ∈ xs) (ys : Bytes) :
    (xs ++ ys).takeWhile (· ≠ a) = xs.takeWhile (· ≠ a) ∧
      (xs.takeWhile (· ≠ a)).length < xs.length := by
  obtain ⟨first, rest, rfl, hfirst⟩ := List.eq_append_cons_of_mem h
  rw [List.append_assoc, takeWhile_ne_append hfirst, takeWhile_ne_append hfirst]
  simp

theorem queryPart_append {base : Bytes} (hash : chr '#' ∉ base) (hmark : chr '?' ∉ base)
    (query : Bytes) :
    queryPart (base ++ chr '?' :: query) = query.takeWhile (· ≠ chr '#') := by
  have hmark' : ∀ c ∈ base, (c ≠ chr '?') = true := fun c hc => by
    simpa using fun he : c = chr '?' => hmark (he ▸ hc)
  have hcut : (chr '?' :: query).takeWhile (· ≠ chr '#') =
      chr '?' :: query.takeWhile (· ≠ chr '#') := List.takeWhile_cons_of_pos (by decide)
  rw [queryPart, takeWhile_ne_append hash, hcut,
    List.dropWhile_append_of_pos (by simpa using hmark')]
  simp

theorem hash_not_mem_serialize (h : ∀ p ∈ params, Plain p.1 ∧ Plain p.2) :
    chr '#' ∉ serialize params := by
  intro hm
  obtain ⟨p, hp, hm⟩ := List.mem_flatMap.mp hm
  obtain ⟨hname, hvalue⟩ := h p hp
  rw [pair, List.mem_append, List.mem_append, List.mem_cons, List.mem_singleton] at hm
  rcases hm with (hm | hm | hm) | hm
  · exact hname.not_mem (by decide) hm
  · exact absurd hm (by decide)
  · exact hvalue.not_mem (by decide) hm
  · exact absurd hm (by decide)

section
variable {before after : List (Bytes × Bytes)} {name value : Bytes}

theorem serialize_append_cons (before after : List (Bytes × Bytes)) (name value : Bytes) :
    serialize (before ++ (name, value) :: after) =
      serialize before ++ (name ++ [chr '=']) ++ (value ++ chr '&' :: serialize after) := by
  simp [serialize, pair]

/-- A `#` in a value ends the query there, -/
theorem takeWhile_serialize_of_mem (hbefore : ∀ q ∈ before, Plain q.1 ∧ Plain q.2)
    (hname : Plain name) (hv : chr '#' ∈ value) (after : List (Bytes × Bytes)) :
    (serialize (before ++ (name, value) :: after)).takeWhile (· ≠ chr '#') =
      serialize before ++ pair (name, value.takeWhile (· ≠ chr '#')) := by
  have hhead : chr '#' ∉ serialize before ++ (name ++ [chr '=']) := by
    rw [List.mem_append, List.mem_append, List.mem_singleton]
    rintro (hm | hm | hm)
    · exact hash_not_mem_serialize hbefore hm
    · exact hname.not_mem (by decide) hm
    · exact absurd hm (by decide)
  rw [serialize_append_cons, takeWhile_ne_append hhead, (takeWhile_ne_of_mem hv _).1]
  simp [pair]

/-- and one without leaves it whole. -/
theorem takeWhile_serialize (hplain : ∀ q ∈ before ++ after, Plain q.1 ∧ Plain q.2)
    (hname : Plain name) (hv : chr '#' ∉ value) :
    (serialize (before ++ (name, value) :: after)).takeWhile (· ≠ chr '#') =
      serialize (before ++ (name, value) :: after) := by
  refine takeWhile_ne_eq_self ?_
  rw [serialize_append_cons]
  simp only [List.mem_append, List.mem_cons, List.not_mem_nil, or_false]
  rintro ((hm | hm | hm) | hm | hm | hm)
  · exact hash_not_mem_serialize (fun q hq => hplain q (List.mem_append_left _ hq)) hm
  · exact hname.not_mem (by decide) hm
  · exact absurd hm (by decide)
  · exact hv hm
  · exact absurd hm (by decide)
  · exact hash_not_mem_serialize (fun q hq => hplain q (List.mem_append_right _ hq)) hm

theorem mem_flatMap_splitOn {params : List (Bytes × Bytes)}
    (hplain : ∀ q ∈ params, Plain q.1 ∧ Plain q.2)
    (h : piece ∈ params.flatMap fun q => (pair q).splitOn (chr '&')) :
    ∃ q ∈ params, piece = pair q := by
  obtain ⟨q, hq, hp⟩ := List.mem_flatMap.mp h
  have hsep : Separate q := (hplain q hq).1.separate (hplain q hq).2
  rw [List.splitOn_eq_singleton hsep.amp_not_mem] at hp
  exact ⟨q, hq, List.mem_singleton.mp hp⟩

/-- The pieces of a pair among plain ones, up to a `#` in its value. -/
theorem mem_splitOn_serialize (hplain : ∀ q ∈ before ++ after, Plain q.1 ∧ Plain q.2)
    (hname : Plain name)
    (h : piece ∈ ((serialize (before ++ (name, value) :: after)).takeWhile (· ≠ chr '#')).splitOn
      (chr '&')) :
    (∃ q ∈ before ++ after, piece = pair q) ∨ piece = [] ∨
      piece ∈ (pair (name, value.takeWhile (· ≠ chr '#'))).splitOn (chr '&') := by
  have hbefore : ∀ q ∈ before, Plain q.1 ∧ Plain q.2 := fun q hq =>
    hplain q (List.mem_append_left _ hq)
  have hafter : ∀ q ∈ after, Plain q.1 ∧ Plain q.2 := fun q hq =>
    hplain q (List.mem_append_right _ hq)
  by_cases hv : chr '#' ∈ value
  · rw [takeWhile_serialize_of_mem hbefore hname hv, splitOn_serialize_append,
      List.mem_append] at h
    rcases h with h | h
    · obtain ⟨q, hq, hp⟩ := mem_flatMap_splitOn hbefore h
      exact .inl ⟨q, List.mem_append_left _ hq, hp⟩
    · exact .inr (.inr h)
  · have hwhole := splitOn_serialize_append (before ++ (name, value) :: after) []
    rw [List.append_nil] at hwhole
    rw [takeWhile_serialize hplain hname hv, hwhole, List.flatMap_append, List.flatMap_cons,
      List.mem_append, List.mem_append, List.mem_append] at h
    rw [takeWhile_ne_eq_self hv]
    rcases h with (h | h | h) | h
    · obtain ⟨q, hq, hp⟩ := mem_flatMap_splitOn hbefore h
      exact .inl ⟨q, List.mem_append_left _ hq, hp⟩
    · exact .inr (.inr h)
    · obtain ⟨q, hq, hp⟩ := mem_flatMap_splitOn hafter h
      exact .inl ⟨q, List.mem_append_right _ hq, hp⟩
    · exact .inr (.inl (by simpa using h))

/-- A value with an `&` or a `#` is read back under its name neither whole nor
from any of its pieces. -/
theorem not_mem_decode {text : Bytes}
    (hplain : ∀ q ∈ before ++ after, Plain q.1 ∧ Plain q.2 ∧ q.1 ≠ name) (hname : Plain name)
    (hv : chr '&' ∈ value ∨ chr '#' ∈ value) (htext : value.length ≤ text.length) :
    (name, text) ∉ decode
      ((serialize (before ++ (name, value) :: after)).takeWhile (· ≠ chr '#')) := by
  intro hm
  obtain ⟨piece, hpiece, heq⟩ := mem_decode hm
  obtain ⟨hn, ht⟩ := Prod.mk.inj heq
  have hlen : text.length ≤ (nameValue piece).2.length := ht ▸ length_unescape_le _
  have hpos : 0 < value.length := by
    rcases hv with hv | hv <;> exact List.length_pos_of_mem hv
  rcases mem_splitOn_serialize (fun q hq => ⟨(hplain q hq).1, (hplain q hq).2.1⟩) hname hpiece with
    ⟨q, hq, rfl⟩ | rfl | hp
  · obtain ⟨hq1, hq2, hne⟩ := hplain q hq
    rw [nameValue_pair (hq1.separate hq2).name_eq, hq1.unescape] at hn
    exact hne hn
  · simp only [nameValue, List.dropWhile_nil, List.drop_nil, List.length_nil] at hlen
    omega
  · obtain ⟨hle, hlt⟩ := length_value_le (hname.not_mem (by decide)) (hname.not_mem (by decide)) hp
    by_cases hhash : chr '#' ∈ value
    · have hshort := (takeWhile_ne_of_mem hhash []).2
      omega
    · rw [takeWhile_ne_eq_self hhash] at hle hlt
      have hshort := hlt (hv.resolve_right hhash)
      omega

end

end QueryString
