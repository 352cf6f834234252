import Cookpit.Queries
import Cookpit.Search
import Mathlib.Data.List.Nodup

/-!
# The text in the address of a search

`search` writes the key into the address with a `+` for each space and nothing
else escaped. A reader of the address gets the seven parameters back with the
text as it was typed exactly if the text has none of the characters the reader
treats apart (`address_carried_iff`), and two texts share an address exactly if
they differ in spaces and `+` only.
-/

namespace Cookpit.Search

open ByteString QueryString

-- ---------------------------------------------------------------------------
-- The parameters
-- ---------------------------------------------------------------------------

/-- The parameters of a search for `text`, as they are meant. -/
def meant (text : Bytes) (page : Int8) : List (Bytes × Bytes) :=
  [(methodKey, photosSearch), (apiKey, apiKeyValue), (textKey, text), (formatKey, jsonFormat),
    (noJsonCallback, lit "1"), (perPage, lit "25"), (pageKey, intToString page.toInt)]

theorem params_eq (key : Bytes) (page : Int8) :
    params key page = meant (key.map spaceToPlus) page := rfl

/-- Those that do not depend on the text. -/
def others (page : Int8) : List (Bytes × Bytes) :=
  [(methodKey, photosSearch), (apiKey, apiKeyValue), (formatKey, jsonFormat),
    (noJsonCallback, lit "1"), (perPage, lit "25"), (pageKey, intToString page.toInt)]

theorem meant_perm (text : Bytes) (page : Int8) :
    (meant text page).Perm ((textKey, text) :: others page) := by
  have hmiddle : ([(methodKey, photosSearch), (apiKey, apiKeyValue)] ++
      (textKey, text) :: (others page).drop 2).Perm
        ((textKey, text) :: ([(methodKey, photosSearch), (apiKey, apiKeyValue)] ++
          (others page).drop 2)) := List.perm_middle
  exact hmiddle

theorem plain_others (page : Int8) :
    ∀ q ∈ others page, (Plain q.1 ∧ Plain q.2 ∧ q.1 ≠ textKey) ∧ (0 : UInt8) ∉ pair q := by
  have hpage := plain_intToString page.toInt
  intro q hq
  simp only [others, List.mem_cons, List.not_mem_nil, or_false] at hq
  rcases hq with rfl | rfl | rfl | rfl | rfl | rfl
  · decide +kernel
  · decide +kernel
  · decide +kernel
  · decide +kernel
  · decide +kernel
  · have hname : (Plain pageKey ∧ pageKey ≠ textKey) ∧ (0 : UInt8) ∉ pageKey := by decide +kernel
    refine ⟨⟨hname.1.1, hpage.1, hname.1.2⟩, ?_⟩
    rw [pair, List.mem_append, List.mem_cons]
    rintro (hm | hm | hm)
    · exact hname.2 hm
    · exact absurd hm (by decide)
    · exact hpage.2 hm

theorem others_eq_of_names {page : Int8} {l l' : List (Bytes × Bytes)}
    (hl : ∀ q ∈ l, q ∈ others page) (hl' : ∀ q ∈ l', q ∈ others page)
    (h : l.map (·.1) = l'.map (·.1)) : l = l' := by
  have hnames : ((others page).map (·.1)).Nodup := by
    have hclosed : ([methodKey, apiKey, formatKey, noJsonCallback, perPage, pageKey]).Nodup := by
      decide +kernel
    exact hclosed
  induction l generalizing l' with
  | nil => exact (List.map_eq_nil_iff.mp h.symm).symm
  | cons q l ih =>
    cases l' with
    | nil => cases h
    | cons q' l' =>
      obtain ⟨hname, hrest⟩ := List.cons.inj h
      rw [List.inj_on_of_nodup_map hnames (hl q List.mem_cons_self) (hl' q' List.mem_cons_self)
          hname,
        ih (fun q hq => hl q (List.mem_cons_of_mem _ hq))
          (fun q hq => hl' q (List.mem_cons_of_mem _ hq)) hrest]

-- ---------------------------------------------------------------------------
-- The address
-- ---------------------------------------------------------------------------

section
variable [Hashing]

/-- The address `curl` is given. -/
def address (key : Bytes) (page : Int8) : Bytes := cStr (queryUrl (params key page))

/-- A reader of the address finds the parameters as they are meant, in some
order. -/
def Carried (key : Bytes) (page : Int8) : Prop :=
  (decode (queryPart (address key page))).Perm (meant key page)

theorem iterate_perm (key : Bytes) (page : Int8) :
    (Hashing.iterate (params key page)).Perm ((textKey, key.map spaceToPlus) :: others page) :=
  (Hashing.perm (params key page)).trans (meant_perm (key.map spaceToPlus) page)

/-- Where the hash table puts the text among the other parameters. -/
theorem iterate_params (key : Bytes) (page : Int8) :
    ∃ before after, Hashing.iterate (params key page) =
        before ++ (textKey, key.map spaceToPlus) :: after ∧
      (before ++ after).Perm (others page) := by
  have hperm := iterate_perm key page
  obtain ⟨before, after, hsplit⟩ := List.append_of_mem (hperm.mem_iff.mpr List.mem_cons_self)
  refine ⟨before, after, hsplit, ?_⟩
  rw [hsplit] at hperm
  exact (List.perm_middle.symm.trans hperm).cons_inv

theorem address_eq (h : (0 : UInt8) ∉ key) (page : Int8) :
    address key page =
      baseUrl ++ lit "?" ++ serialize (Hashing.iterate (params key page)) := by
  rw [address, queryUrl, convertToQueryParamString_eq]
  refine cStr_eq_self ?_
  rw [List.mem_append]
  rintro (hm | hm)
  · exact absurd hm (by decide +kernel)
  · obtain ⟨q, hq, hm⟩ := List.mem_flatMap.mp hm
    have hpair : (0 : UInt8) ∉ pair q := by
      rcases List.mem_cons.mp ((iterate_perm key page).mem_iff.mp hq) with rfl | hq
      · rw [pair, List.mem_append, List.mem_cons, mem_map_spaceToPlus (by decide) (by decide)]
        rintro (hm | hm | hm)
        · exact absurd hm (show (0 : UInt8) ∉ textKey by decide +kernel)
        · exact absurd hm (by decide)
        · exact h hm
      · exact (plain_others page q hq).2
    rw [List.mem_append, List.mem_singleton] at hm
    exact hm.elim hpair (by decide)

theorem queryPart_address (h : (0 : UInt8) ∉ key) (page : Int8) :
    queryPart (address key page) =
      (serialize (Hashing.iterate (params key page))).takeWhile (· ≠ chr '#') := by
  rw [address_eq h]
  have hbase : lit "?" = [chr '?'] := by decide
  rw [hbase, List.append_assoc, List.singleton_append]
  exact queryPart_append (by decide +kernel) (by decide +kernel) _

-- ---------------------------------------------------------------------------
-- What a reader finds
-- ---------------------------------------------------------------------------

/-- The text has none of the characters that end it or change it. -/
structure Readable (key : Bytes) : Prop where
  amp : chr '&' ∉ key
  hash : chr '#' ∉ key
  plus : chr '+' ∉ key
  unescaped : Unescaped key

/-- A text without `&` and `#` stays one piece. -/
theorem decode_address (h : (0 : UInt8) ∉ key) (ha : chr '&' ∉ key) (hh : chr '#' ∉ key)
    (page : Int8) :
    decode (queryPart (address key page)) =
      (Hashing.iterate (params key page)).map unescapePair := by
  have htext : Plain textKey := by decide +kernel
  obtain ⟨before, after, hsplit, hothers⟩ := iterate_params key page
  have hplain : ∀ q ∈ before ++ after, Plain q.1 ∧ Plain q.2 := fun q hq =>
    have hq' := (plain_others page q (hothers.mem_iff.mp hq)).1
    ⟨hq'.1, hq'.2.1⟩
  have hwhole : (serialize (Hashing.iterate (params key page))).takeWhile (· ≠ chr '#') =
      serialize (Hashing.iterate (params key page)) := by
    rw [hsplit]
    exact takeWhile_serialize hplain htext
      (mt (mem_map_spaceToPlus (by decide) (by decide)).mp hh)
  rw [queryPart_address h, hwhole]
  refine decode_serialize fun q hq => ?_
  rcases List.mem_cons.mp ((iterate_perm key page).mem_iff.mp hq) with rfl | hq
  · exact ⟨htext.not_mem (by decide), htext.not_mem (by decide),
      mt (mem_map_spaceToPlus (by decide) (by decide)).mp ha⟩
  · have hq' := (plain_others page q hq).1
    exact hq'.1.separate hq'.2.1

theorem readable_of_carried (h : (0 : UInt8) ∉ key) (hc : Carried key page) : Readable key := by
  have htext : Plain textKey := by decide +kernel
  have hmem : (textKey, key) ∈ decode (queryPart (address key page)) :=
    hc.mem_iff.mpr ((meant_perm key page).mem_iff.mpr List.mem_cons_self)
  have hnot (hv : chr '&' ∈ key ∨ chr '#' ∈ key) : False := by
    obtain ⟨before, after, hsplit, hothers⟩ := iterate_params key page
    rw [queryPart_address h, hsplit] at hmem
    refine not_mem_decode (fun q hq => (plain_others page q (hothers.mem_iff.mp hq)).1) htext ?_
      (by simp) hmem
    rwa [mem_map_spaceToPlus (by decide) (by decide), mem_map_spaceToPlus (by decide) (by decide)]
  have ha : chr '&' ∉ key := fun ha => hnot (.inl ha)
  have hh : chr '#' ∉ key := fun hh => hnot (.inr hh)
  rw [decode_address h ha hh] at hmem
  obtain ⟨q, hq, heq⟩ := List.mem_map.mp hmem
  obtain ⟨hname, hvalue⟩ := Prod.mk.inj heq
  have hown : unescape (key.map spaceToPlus) = key := by
    rcases List.mem_cons.mp ((iterate_perm key page).mem_iff.mp hq) with rfl | hq
    · exact hvalue
    · have hq' := (plain_others page q hq).1
      rw [hq'.1.unescape] at hname
      exact absurd hname hq'.2.2
  obtain ⟨hplus, hun⟩ := unescape_map_spaceToPlus_iff.mp hown
  exact ⟨ha, hh, hplus, hun⟩

theorem carried_of_readable (h : (0 : UInt8) ∉ key) (hr : Readable key) (page : Int8) :
    Carried key page := by
  have htext : unescapePair (textKey, key.map spaceToPlus) = (textKey, key) := by
    rw [unescapePair, Plain.unescape (show Plain textKey by decide +kernel),
      unescape_map_spaceToPlus_iff.mpr ⟨hr.plus, hr.unescaped⟩]
  have hothers : (others page).map unescapePair = others page := by
    have hid : ∀ q ∈ others page, unescapePair q = id q := fun q hq => by
      have hq' := (plain_others page q hq).1
      rw [unescapePair, hq'.1.unescape, hq'.2.1.unescape, id]
    rw [List.map_congr_left hid, List.map_id]
  have hmap := (iterate_perm key page).map unescapePair
  rw [List.map_cons, htext, hothers] at hmap
  rw [Carried, decode_address h hr.amp hr.hash]
  exact hmap.trans (meant_perm key page).symm

-- ---------------------------------------------------------------------------
-- Two texts
-- ---------------------------------------------------------------------------

/-- The hash table iterates over the names in one order for both texts. -/
def SameOrder (key key' : Bytes) (page : Int8) : Prop :=
  (Hashing.iterate (params key page)).map (·.1) = (Hashing.iterate (params key' page)).map (·.1)

theorem address_eq_iff (h : (0 : UInt8) ∉ key) (h' : (0 : UInt8) ∉ key')
    (hsame : SameOrder key key' page) :
    address key page = address key' page ↔ key.map spaceToPlus = key'.map spaceToPlus := by
  constructor
  · intro he
    rw [address_eq h, address_eq h'] at he
    have he := List.append_cancel_left he
    obtain ⟨before, after, hsplit, hothers⟩ := iterate_params key page
    obtain ⟨before', after', hsplit', hothers'⟩ := iterate_params key' page
    have hmem : ∀ q ∈ before ++ after, q ∈ others page := fun q hq => hothers.mem_iff.mp hq
    have hmem' : ∀ q ∈ before' ++ after', q ∈ others page := fun q hq => hothers'.mem_iff.mp hq
    -- The text stands at the same place in both, so everything around it is equal.
    have hno {l : List (Bytes × Bytes)} (hl : ∀ q ∈ l, q ∈ others page) :
        textKey ∉ l.map (·.1) := by
      intro hm
      obtain ⟨q, hq, hname⟩ := List.mem_map.mp hm
      exact (plain_others page q (hl q hq)).1.2.2 hname
    rw [SameOrder, hsplit, hsplit', List.map_append, List.map_append, List.map_cons,
      List.map_cons] at hsame
    obtain ⟨hbefore, -, hafter⟩ := (List.append_cons_inj_of_notMem
      (hno fun q hq => hmem q (List.mem_append_left _ hq))
      (hno fun q hq => hmem q (List.mem_append_right _ hq))).mp hsame
    obtain rfl := others_eq_of_names (fun q hq => hmem q (List.mem_append_left _ hq))
      (fun q hq => hmem' q (List.mem_append_left _ hq)) hbefore
    obtain rfl := others_eq_of_names (fun q hq => hmem q (List.mem_append_right _ hq))
      (fun q hq => hmem' q (List.mem_append_right _ hq)) hafter
    rw [hsplit, hsplit', serialize_append_cons, serialize_append_cons] at he
    exact List.append_cancel_right (List.append_cancel_left he)
  · intro he
    rw [address, address, params_eq, params_eq, he]

/-- The address carries the text as typed exactly if it is readable. Two
readable texts never share an address; of all texts those do that differ in
spaces and `+` only. -/
theorem address_carried_iff (key key' : Bytes) (page : Int8) (h : (0 : UInt8) ∉ key)
    (h' : (0 : UInt8) ∉ key') :
    (Carried key page ↔ Readable key) ∧
      (Readable key → Readable key' → address key page = address key' page → key = key') ∧
      (SameOrder key key' page →
        (address key page = address key' page ↔ key.map spaceToPlus = key'.map spaceToPlus)) := by
  refine ⟨⟨readable_of_carried h, fun hr => carried_of_readable h hr page⟩, ?_,
    address_eq_iff h h'⟩
  intro hr hr' he
  have hc := carried_of_readable h hr page
  rw [Carried, he] at hc
  have hmem : (textKey, key) ∈ (textKey, key') :: others page :=
    (hc.symm.trans ((carried_of_readable h' hr' page).trans (meant_perm key' page))).mem_iff.mp
      ((meant_perm key page).mem_iff.mpr List.mem_cons_self)
  rcases List.mem_cons.mp hmem with heq | hmem
  · exact (Prod.mk.inj heq).2
  · exact absurd rfl (plain_others page _ hmem).1.2.2

end

section
attribute [local instance] listed

theorem address_carried_iff_plus :
    ¬ Carried (lit "c++") 1 ∧ address (lit "c++") 1 = address (lit "c  ") 1 := by
  obtain ⟨hcarried, -, hshared⟩ := address_carried_iff (lit "c++") (lit "c  ") 1 (by decide)
    (by decide)
  refine ⟨fun hc => ?_, (hshared rfl).mpr (by decide)⟩
  exact absurd (hcarried.mp hc).plus (by decide)

/-- The `+` of one text and the space of another are written alike. -/
theorem address_not_carried : ¬ ∀ (key key' : Bytes) (page : Int8), (0 : UInt8) ∉ key →
    (0 : UInt8) ∉ key' → 0 < page.toInt →
    Carried key page ∧ (key ≠ key' → address key page ≠ address key' page) := by
  intro h
  have h := (h (lit "c++") (lit "c  ") 1 (by decide) (by decide) (by decide)).2 (by decide)
  revert h
  decide +kernel

end

end Cookpit.Search
