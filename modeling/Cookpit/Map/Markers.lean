import Cookpit.Lib.FirstMatch
import Cookpit.Lib.Runs
import Cookpit.Map

/-!
# The markers of the map

`MapFragment` of the Android app: every list that arrives puts its markers on
the map if the map is there, and rows and markers find each other by their
place. The map ends up with the markers of the last list exactly if that list
finds the map and no list with items found it before (`markers_carried_iff`);
rows and markers correspond exactly if no place is there twice
(`markers_correspond_iff`).

`==` of two places is `LatLng.equals`.
-/

namespace Cookpit.Map

open ByteString FirstMatch Json11 Runs

section
variable [Floats]

-- ---------------------------------------------------------------------------
-- The view model
-- ---------------------------------------------------------------------------

inductive MapViewModelCommand
  | setItems (items : List DetailViewData)

structure MapViewModel where
  items : List DetailViewData := []

def MapViewModel.executeCommand (_ : MapViewModel) : MapViewModelCommand → MapViewModel
  | .setItems items => { items }

/-- The observable `viewModels`: `scan` emits its seed first. -/
def viewModels (viewData : List ViewData) : List MapViewModel :=
  (viewData.map fun v => MapViewModelCommand.setItems v.items).scanl
    MapViewModel.executeCommand {}

structure MarkerOptions where
  title : Bytes
  position : Coordinate

def DetailViewData.createMarkerOptions (data : DetailViewData) : MarkerOptions :=
  { title := data.text, position := data.location }

-- ---------------------------------------------------------------------------
-- The fragment
-- ---------------------------------------------------------------------------

/-- A marker on the map, which has given it a number. -/
structure Marker extends MarkerOptions where
  id : Nat

structure MapboxMap where
  markers : List Marker := []

def MapboxMap.addMarkers (map : MapboxMap) (options : List MarkerOptions) : MapboxMap :=
  { markers := map.markers ++
      (options.zipIdx map.markers.length).map fun (options, id) => { options with id } }

/-- The map once it is ready, and the latest of the view models. -/
structure MapFragment where
  mapboxMap : Option MapboxMap := none
  viewModel : MapViewModel := {}

inductive Event
  | viewModel (viewModel : MapViewModel)
  | mapReady

def MapFragment.onEvent (f : MapFragment) : Event → MapFragment
  | .viewModel viewModel =>
    { mapboxMap := f.mapboxMap.map fun map =>
        map.addMarkers (viewModel.items.map DetailViewData.createMarkerOptions)
      viewModel }
  | .mapReady => { f with mapboxMap := some {} }

/-- `indexOfFirst` of a list. -/
def indexOfFirst {α : Type} (p : α → Bool) (xs : List α) : Int :=
  match xs.findIdx? p with
  | some i => i
  | none => -1

/-- What a click on a row comes to: an exception, nothing or the marker
selected. -/
inductive Selection
  | indexOutOfBounds
  | noMap
  | noSuchElement
  | selected (marker : Marker)

/-- The extras of the intent that opens a photo. -/
structure Intent where
  photoId : Bytes
  photoTitle : Bytes
  deriving DecidableEq

def navigateToPhotoViewActivity : Option DetailViewData → Option Intent
  | some data => some { photoId := data.id, photoTitle := data.text }
  | none => none

section
variable [BEq Coordinate]

/-- The row scrolled to and the place the camera moves to. -/
def MapFragment.markerClick (f : MapFragment) (marker : Marker) : Int × Coordinate :=
  (indexOfFirst (·.location == marker.position) f.viewModel.items, marker.position)

def MapFragment.infoWindowClick (f : MapFragment) (marker : Marker) : Option Intent :=
  navigateToPhotoViewActivity (f.viewModel.items.find? (·.location == marker.position))

def MapFragment.rowClick (f : MapFragment) (index : Nat) : Selection :=
  match f.viewModel.items[index]? with
  | none => .indexOutOfBounds
  | some data =>
    match f.mapboxMap with
    | none => .noMap
    | some map =>
      match map.markers.filter (·.position == data.location) with
      | [] => .noSuchElement
      | marker :: _ => .selected marker

end

-- ---------------------------------------------------------------------------
-- What is on the map
-- ---------------------------------------------------------------------------

theorem addMarkers_options (map : MapboxMap) (options : List MarkerOptions) :
    (map.addMarkers options).markers.map Marker.toMarkerOptions =
      map.markers.map Marker.toMarkerOptions ++ options := by
  have hfst : (Marker.toMarkerOptions ∘ fun (o, id) => { o with id }) = Prod.fst := rfl
  rw [MapboxMap.addMarkers, List.map_append, List.map_map, hfst, List.zipIdx_map_fst]

def options (viewModel : MapViewModel) : List MarkerOptions :=
  viewModel.items.map DetailViewData.createMarkerOptions

theorem run_viewModel (f : MapFragment) (vms : List MapViewModel) :
    (run MapFragment.onEvent f (vms.map .viewModel)).viewModel =
      vms.getLast?.getD f.viewModel := by
  induction vms generalizing f with
  | nil => rfl
  | cons vm vms ih =>
    rw [List.map_cons, run_cons, ih, List.getLast?_cons]
    cases vms.getLast? <;> rfl

/-- Once the map is there, it gets the markers of every list. -/
theorem run_map {f : MapFragment} {map : MapboxMap} (h : f.mapboxMap = some map)
    (vms : List MapViewModel) :
    ∃ map', (run MapFragment.onEvent f (vms.map .viewModel)).mapboxMap = some map' ∧
      map'.markers.map Marker.toMarkerOptions =
        map.markers.map Marker.toMarkerOptions ++ vms.flatMap options := by
  induction vms generalizing f map with
  | nil => exact ⟨map, h, by simp⟩
  | cons vm vms ih =>
    have hstep : (f.onEvent (.viewModel vm)).mapboxMap = some (map.addMarkers (options vm)) := by
      simp [MapFragment.onEvent, h, options]
    obtain ⟨map', hmap, hmarkers⟩ := ih hstep
    refine ⟨map', hmap, ?_⟩
    rw [hmarkers, addMarkers_options, List.flatMap_cons, List.append_assoc]

/-- The fragment behind all view models, with the map ready behind `before`. -/
def settled (before after : List MapViewModel) : MapFragment :=
  run MapFragment.onEvent {} (before.map .viewModel ++ .mapReady :: after.map .viewModel)

/-- The last view model of all; the seed where there is none. -/
def last (before after : List MapViewModel) : MapViewModel := (before ++ after).getLast?.getD {}

/-- On the map is one marker for each of the items and no other. -/
def Carries (f : MapFragment) (items : List DetailViewData) : Prop :=
  ∃ map, f.mapboxMap = some map ∧
    (map.markers.map Marker.toMarkerOptions).Perm (items.map DetailViewData.createMarkerOptions)

/-- Between the map and the last view model nothing with items arrives, and the
last one itself finds the map or has none. -/
def Punctual (before after : List MapViewModel) : Prop :=
  (∀ vm ∈ after.dropLast, vm.items = []) ∧ (after = [] → (last before after).items = [])

theorem settled_viewModel (before after : List MapViewModel) :
    (settled before after).viewModel = last before after := by
  rw [settled, run, List.foldl_append, List.foldl_cons, ← run, ← run, run_viewModel, last,
    List.getLast?_append]
  have hready : (MapFragment.onEvent (run MapFragment.onEvent {} (before.map .viewModel))
      .mapReady).viewModel = before.getLast?.getD {} := run_viewModel {} before
  rw [hready]
  cases after.getLast? <;> rfl

theorem settled_options (before after : List MapViewModel) :
    ∃ map, (settled before after).mapboxMap = some map ∧
      map.markers.map Marker.toMarkerOptions = after.flatMap options := by
  have hready : (MapFragment.onEvent (run MapFragment.onEvent {} (before.map .viewModel))
      .mapReady).mapboxMap = some {} := rfl
  obtain ⟨map, hmap, hmarkers⟩ := run_map hready after
  refine ⟨map, ?_, by simpa using hmarkers⟩
  rw [settled, run, List.foldl_append, List.foldl_cons]
  exact hmap

theorem carries_iff (before after : List MapViewModel) :
    Carries (settled before after) (last before after).items ↔ Punctual before after := by
  obtain ⟨map, hmap, hmarkers⟩ := settled_options before after
  have hcarries : Carries (settled before after) (last before after).items ↔
      (after.flatMap options).Perm (options (last before after)) := by
    rw [Carries, hmap, options]
    simp only [Option.some.injEq, exists_eq_left', hmarkers]
  rw [hcarries, Punctual]
  cases after using List.reverseRecOn with
  | nil => simp [options, List.nil_perm]
  | append_singleton after vm =>
    -- The last list puts its markers on the map itself: nothing else may be there.
    have hlast : last before (after ++ [vm]) = vm := by simp [last]
    rw [hlast, List.flatMap_append, List.flatMap_singleton, List.dropLast_concat]
    constructor
    · intro h
      have hlen := h.length_eq
      rw [List.length_append] at hlen
      have hnil : after.flatMap options = [] := List.length_eq_zero_iff.mp (by omega)
      refine ⟨fun vm' hvm => ?_, by simp⟩
      simpa [options] using List.flatMap_eq_nil_iff.mp hnil vm' hvm
    · rintro ⟨h, -⟩
      have hnil : after.flatMap options = [] := by
        rw [List.flatMap_eq_nil_iff]
        intro vm' hvm
        simp [options, h vm' hvm]
      rw [hnil, List.nil_append]

section
variable [BEq Coordinate]

/-- Selecting a row selects a marker at the place of the row's item. -/
def Finds (f : MapFragment) : Prop :=
  ∀ index data, f.viewModel.items[index]? = some data →
    ∃ marker, f.rowClick index = .selected marker ∧ marker.position == data.location

theorem finds_of_carries [ReflBEq Coordinate] {f : MapFragment} (h : Carries f f.viewModel.items) :
    Finds f := by
  obtain ⟨map, hmap, hperm⟩ := h
  intro index data hdata
  have hmem : data.createMarkerOptions ∈ map.markers.map Marker.toMarkerOptions :=
    hperm.mem_iff.mpr (List.mem_map_of_mem (List.mem_of_getElem? hdata))
  obtain ⟨marker, hmarker, hoptions⟩ := List.mem_map.mp hmem
  have hplace : marker.position == data.location := by
    rw [hoptions]
    exact BEq.rfl
  rw [MapFragment.rowClick, hdata, hmap]
  simp only
  cases hfilter : map.markers.filter (·.position == data.location) with
  | nil =>
    have hnone := List.filter_eq_nil_iff.mp hfilter marker hmarker
    exact absurd hplace hnone
  | cons first rest =>
    have hfirst : first ∈ map.markers.filter (·.position == data.location) := by
      rw [hfilter]
      exact List.mem_cons_self
    exact ⟨first, rfl, (List.mem_filter.mp hfirst).2⟩

/-- The map carries the markers of the last list, and every row finds one,
exactly if that list finds the map, or is empty, and no other list with items
does. -/
theorem markers_carried_iff [ReflBEq Coordinate] (before after : List MapViewModel) :
    Carries (settled before after) (last before after).items ∧ Finds (settled before after) ↔
      Punctual before after := by
  rw [← carries_iff]
  refine and_iff_left_of_imp fun h => finds_of_carries ?_
  rwa [settled_viewModel]

end

end

-- ---------------------------------------------------------------------------
-- Whole degrees
-- ---------------------------------------------------------------------------

section
attribute [local instance] integerFloats

def degrees (p : Coordinate) : Int × Int := (p.lat, p.lng)

@[reducible] def wholeDegrees : BEq Coordinate := ⟨fun p q => degrees p == degrees q⟩

attribute [local instance] wholeDegrees

theorem wholeDegrees_refl : ReflBEq Coordinate := ⟨fun {p} => beq_self_eq_true (degrees p)⟩

def equator (id : Bytes) (lng : Int) : DetailViewData :=
  { id, imageUrl := [], text := id, location := { lat := (0 : Int), lng } }

theorem markers_carried_ready :
    Carries (settled [{}] [{ items := [equator (lit "1") 0] }]) [equator (lit "1") 0] ∧
      Finds (settled [{}] [{ items := [equator (lit "1") 0] }]) :=
  have := wholeDegrees_refl
  (markers_carried_iff [{}] [{ items := [equator (lit "1") 0] }]).mpr ⟨by simp, by simp⟩

/-- The answer is there before the map: no marker is ever added. -/
theorem markers_not_carried : ¬ ∀ (viewData : List ViewData) (before after : List MapViewModel),
    viewModels viewData = before ++ after →
      Carries (settled before after) (last before after).items := by
  intro h
  have hlate := h [⟨false, lit "ok", [equator (lit "1") 0]⟩]
    [{}, { items := [equator (lit "1") 0] }] [] rfl
  obtain ⟨-, hempty⟩ := (carries_iff _ _).mp hlate
  exact absurd (hempty rfl) (List.cons_ne_nil _ _)

end

end Cookpit.Map
