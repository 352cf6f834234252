import Cookpit.Map.Markers

/-!
# Rows and markers of one list

The Android app looks rows up by the place of a marker, and markers by the
place of a row: each finds the first at its place. The lookups are those of the
item itself exactly if no place is there twice (`markers_correspond_iff`). The
iOS app looks the tapped object itself up, and always finds it.
-/

namespace Cookpit.Map

open ByteString FirstMatch Json11 Runs

section
variable [Floats] {items : List DetailViewData}

/-- The fragment when one list has arrived on a map without markers. -/
def shown (items : List DetailViewData) : MapFragment :=
  run MapFragment.onEvent {} [.mapReady, .viewModel { items }]

/-- The markers of a list, in its order. -/
def markers (items : List DetailViewData) : List Marker :=
  (options { items }).zipIdx.map fun (options, id) => { options with id }

theorem shown_eq (items : List DetailViewData) :
    shown items = { mapboxMap := some { markers := markers items }, viewModel := { items } } := rfl

theorem getElem?_markers (items : List DetailViewData) (i : Nat) :
    (markers items)[i]? = items[i]?.map fun data => { data.createMarkerOptions with id := i } := by
  simp only [markers, options, List.getElem?_map, List.getElem?_zipIdx, Option.map_map,
    Nat.zero_add]
  rfl

theorem map_position_markers (items : List DetailViewData) :
    (markers items).map (·.position) = items.map (·.location) := by
  refine List.ext_getElem? fun i => ?_
  rw [List.getElem?_map, getElem?_markers, Option.map_map, List.getElem?_map]
  rfl

-- ---------------------------------------------------------------------------
-- iOS
-- ---------------------------------------------------------------------------

/-- An object of the class: equal to itself only. -/
structure CPMapDetailViewData where
  address : Nat
  viewData : DetailViewData

/-- The row of an annotation, which is an item of the list itself. -/
def selectedIndex (items : List CPMapDetailViewData) (tapped : CPMapDetailViewData) :
    Option Nat :=
  items.findIdx? (·.address == tapped.address)

theorem selectedIndex_eq {objects : List CPMapDetailViewData}
    (h : Distinct (objects.map (·.address))) (hi : objects[i]? = some tapped) :
    selectedIndex objects tapped = some i := by
  refine findIdx?_key_of_distinct h ?_
  rw [List.getElem?_map, hi]
  rfl

-- ---------------------------------------------------------------------------
-- Android
-- ---------------------------------------------------------------------------

section
variable [BEq Coordinate]

/-- Each of the three lookups leads to the item or marker it starts from, and
rows and markers are inverse to each other. -/
structure Corresponds (items : List DetailViewData) : Prop where
  scrolls : ∀ (i : Nat) marker, (markers items)[i]? = some marker →
    ((shown items).markerClick marker).1 = i
  opens : ∀ (i : Nat) data marker, items[i]? = some data → (markers items)[i]? = some marker →
    (shown items).infoWindowClick marker = navigateToPhotoViewActivity (some data)
  selects : ∀ (i : Nat) marker, (markers items)[i]? = some marker →
    (shown items).rowClick i = .selected marker
  row : ∀ i < items.length, ∃ marker, (shown items).rowClick i = .selected marker ∧
    ((shown items).markerClick marker).1 = i
  marker : ∀ marker ∈ markers items, ∃ i : Nat, ((shown items).markerClick marker).1 = i ∧
    (shown items).rowClick i = .selected marker

theorem markerClick_fst (items : List DetailViewData) (marker : Marker) (i : Nat) :
    ((shown items).markerClick marker).1 = i ↔
      items.findIdx? (·.location == marker.position) = some i := by
  rw [shown_eq, MapFragment.markerClick, indexOfFirst]
  cases items.findIdx? (·.location == marker.position) with
  | none => simp
  | some j => simp only [Option.some.injEq, Int.natCast_inj]

variable [ReflBEq Coordinate]

theorem distinct_of_scrolls (h : ∀ (i : Nat) marker, (markers items)[i]? = some marker →
    ((shown items).markerClick marker).1 = i) : Distinct (items.map (·.location)) := by
  rw [distinct_iff]
  intro i place hi
  rw [← map_position_markers, List.getElem?_map] at hi
  obtain ⟨marker, hmarker, rfl⟩ := Option.map_eq_some_iff.mp hi
  rw [← findIdx?_key, ← markerClick_fst]
  exact h i marker hmarker

theorem rowClick_of_distinct (h : Distinct (items.map (·.location)))
    (hi : (markers items)[i]? = some marker) : (shown items).rowClick i = .selected marker := by
  obtain ⟨data, hdata, hoptions⟩ := Option.map_eq_some_iff.mp (getElem?_markers items i ▸ hi)
  have hplace : marker.position = data.location := by
    rw [← hoptions]
    rfl
  have hdistinct : Distinct ((markers items).map (·.position)) := by
    rwa [map_position_markers]
  have hposition : ((markers items).map (·.position))[i]? = some marker.position := by
    rw [List.getElem?_map, hi]
    rfl
  have hfirst := find?_key_of_distinct hdistinct hposition
  rw [← List.head?_filter, hi, hplace] at hfirst
  rw [shown_eq, MapFragment.rowClick, hdata]
  simp only
  cases hfilter : (markers items).filter (·.position == data.location) with
  | nil =>
    rw [hfilter] at hfirst
    cases hfirst
  | cons first rest =>
    rw [hfilter] at hfirst
    cases hfirst
    rfl

theorem corresponds_of_distinct (h : Distinct (items.map (·.location))) : Corresponds items := by
  have hlocation {i : Nat} {marker : Marker} (hi : (markers items)[i]? = some marker) :
      (items.map (·.location))[i]? = some marker.position := by
    rw [← map_position_markers, List.getElem?_map, hi]
    rfl
  have scrolls {i : Nat} {marker : Marker} (hi : (markers items)[i]? = some marker) :
      ((shown items).markerClick marker).1 = i := by
    rw [markerClick_fst]
    exact findIdx?_key_of_distinct h (hlocation hi)
  constructor
  · intro i marker hi
    exact scrolls hi
  · intro i data marker hdata hi
    rw [shown_eq, MapFragment.infoWindowClick, find?_key_of_distinct h (hlocation hi), hdata]
  · intro i marker hi
    exact rowClick_of_distinct h hi
  · intro i hi
    have hmarker := getElem?_markers items i
    rw [List.getElem?_eq_getElem hi] at hmarker
    exact ⟨_, rowClick_of_distinct h hmarker, scrolls hmarker⟩
  · intro marker hmarker
    obtain ⟨i, hi⟩ := List.mem_iff_getElem?.mp hmarker
    exact ⟨i, scrolls hi, rowClick_of_distinct h hi⟩

/-- Rows and markers correspond exactly if no two items are at one place;
objects find themselves wherever they are. -/
theorem markers_correspond_iff (items : List DetailViewData) :
    (Corresponds items ↔ Distinct (items.map (·.location))) ∧
      ∀ objects : List CPMapDetailViewData, Distinct (objects.map (·.address)) →
        ∀ i tapped, objects[i]? = some tapped →
          selectedIndex objects tapped = some i := by
  refine ⟨⟨fun h => distinct_of_scrolls h.scrolls, corresponds_of_distinct⟩, ?_⟩
  intro objects hdistinct i tapped hi
  exact selectedIndex_eq hdistinct hi

end

end

section
attribute [local instance] integerFloats wholeDegrees

theorem markers_correspond_apart : Corresponds [equator (lit "1") 0, equator (lit "2") 1] :=
  have := wholeDegrees_refl
  (markers_correspond_iff [equator (lit "1") 0, equator (lit "2") 1]).1.mpr (by decide)

/-- A tap on the second of two markers at one place scrolls to the first row. -/
theorem markers_not_correspond : ¬ ∀ items : List DetailViewData, Corresponds items := by
  intro h
  have hsecond := (h [equator (lit "1") 0, equator (lit "2") 0]).scrolls 1 _ rfl
  exact absurd hsecond (by decide)

end

end Cookpit.Map
