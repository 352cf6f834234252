import Cookpit.Explore.Controller
import Cookpit.Lib.QueryString
import Cookpit.Map

/-!
# The query of a request

`convert_to_query_param_string` writes names and values as they are. A list
whose names have neither separator and whose values have no `&` is read back as
it was written, and a hash table as the same pairs in some order
(`fields_convertToQueryParamString`). The lists that explore and map requests
build are such.
-/

namespace Cookpit

open ByteString QueryString

theorem convertToQueryParamString_eq (queries : List (Bytes × Bytes)) :
    convertToQueryParamString queries = serialize queries := by
  simp only [convertToQueryParamString, serialize, pair]
  congr 1
  funext p
  simp [lit, chr]

theorem plain_intToString (n : Int) : Plain (intToString n) ∧ (0 : UInt8) ∉ intToString n := by
  have hall : ∀ c ∈ (0 : UInt8) :: reserved, c ∉ intToString n := by
    intro c hc hn
    have hno : ∀ c ∈ (0 : UInt8) :: reserved, ¬ (c = chr '-' ∨ isDigit c = true) := by
      decide +kernel
    exact hno c hc (mem_intToString hn)
  exact ⟨fun c hn hr => hall c (List.mem_cons_of_mem _ hr) hn, hall 0 List.mem_cons_self⟩

-- ---------------------------------------------------------------------------
-- What the requests build
-- ---------------------------------------------------------------------------

/-- The parameters of `construct_url`. -/
def Explore.params (page : Int8) : List (Bytes × Bytes) :=
  [(methodKey, interestingnessGetList), (apiKey, apiKeyValue), (formatKey, jsonFormat),
    (noJsonCallback, lit "1"), (pageKey, intToString page.toInt),
    (perPage, intToString Explore.itemPerPage)]

theorem Explore.constructUrl_params (url : Bytes) (page : Int8) :
    Explore.constructUrl url page =
      url ++ lit "?" ++ convertToQueryParamString (Explore.params page) := rfl

theorem Explore.separate_params (page : Int8) : ∀ p ∈ Explore.params page, Separate p := by
  have hconstants : ∀ c ∈ [methodKey, interestingnessGetList, apiKey, apiKeyValue, formatKey,
      jsonFormat, noJsonCallback, lit "1", pageKey, perPage], Plain c := by decide +kernel
  intro p hp
  simp only [Explore.params, List.mem_cons, List.not_mem_nil, or_false] at hp
  obtain rfl | rfl | rfl | rfl | rfl | rfl := hp
  · exact Plain.separate (hconstants _ (by simp)) (hconstants _ (by simp))
  · exact Plain.separate (hconstants _ (by simp)) (hconstants _ (by simp))
  · exact Plain.separate (hconstants _ (by simp)) (hconstants _ (by simp))
  · exact Plain.separate (hconstants _ (by simp)) (hconstants _ (by simp))
  · exact Plain.separate (hconstants _ (by simp)) (plain_intToString page.toInt).1
  · exact Plain.separate (hconstants _ (by simp)) (plain_intToString Explore.itemPerPage).1

theorem Map.separate_params : ∀ p ∈ Map.params, Separate p := by decide +kernel

-- ---------------------------------------------------------------------------
-- Reading a query back
-- ---------------------------------------------------------------------------

/-- Cut at every `&` and each piece at its first `=`, a query gives back the
list it was made of, and a query made of a hash table the table's pairs. -/
theorem fields_convertToQueryParamString [Hashing] (params : List (Bytes × Bytes))
    (h : ∀ p ∈ params, Separate p) :
    fields (convertToQueryParamString params) = params ∧
      (fields (convertToQueryParamString (Hashing.iterate params))).Perm params := by
  have hperm := Hashing.perm params
  have hiterate : ∀ p ∈ Hashing.iterate params, Separate p := fun p hp =>
    h p (hperm.mem_iff.mp hp)
  rw [convertToQueryParamString_eq, convertToQueryParamString_eq, fields_serialize h,
    fields_serialize hiterate]
  exact ⟨rfl, hperm⟩

section
attribute [local instance] listed

theorem fields_convertToQueryParamString_page :
    fields (convertToQueryParamString [(pageKey, lit "3"), (textKey, [])]) =
        [(pageKey, lit "3"), (textKey, [])] ∧
      (fields (convertToQueryParamString
        (Hashing.iterate [(pageKey, lit "3"), (textKey, [])]))).Perm
          [(pageKey, lit "3"), (textKey, [])] :=
  fields_convertToQueryParamString _ (by decide +kernel)

end

end Cookpit
