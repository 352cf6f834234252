import Cookpit.Request

/-!
# The map controller

`map_controller_impl`: photos with their place. Its `on_failure` does nothing,
and a photo whose latitude or longitude is no number ends the request with an
exception.
-/

namespace Cookpit.Map

open ByteString Json11 Observed

variable [Floats]

structure Coordinate where
  lat : Floats.Double
  lng : Floats.Double

structure DetailViewData where
  id : Bytes
  imageUrl : Bytes
  text : Bytes
  location : Coordinate

structure ViewData where
  error : Bool
  message : Bytes
  items : List DetailViewData

abbrev State := Observed.State ViewData Unit

abbrev M := Observed.M Thrown ViewData Unit

def subscribe (observer : Observer) : M Unit := Cookpit.subscribe observer

def unsubscribe : M Unit := Cookpit.unsubscribe

def params : List (Bytes × Bytes) :=
  [(methodKey, photosSearch), (apiKey, apiKeyValue), (formatKey, jsonFormat),
    (noJsonCallback, lit "1"), (perPage, lit "30"), (bbox, lit "-180,-90,180,90"),
    (sortKey, interestingnessDesc), (extras, lit "geo")]

def detailViewData (j : Json) : Except Thrown DetailViewData := do
  let id := (j.get "id").stringValue
  let imageUrl := constructFlickrImageUrl (j.get "farm").intValue (j.get "server").stringValue id
    (j.get "secret").stringValue
  let title := (j.get "title").stringValue
  let lat ← Floats.stod (j.get "latitude").stringValue
  let lng ← Floats.stod (j.get "longitude").stringValue
  return { id, imageUrl, text := title, location := { lat, lng } }

def photos (data : Bytes) : List Json :=
  let json := parsed data
  let top := json.get "photos"
  (top.get "photo").arrayItems

def onFailure (_reason : Bytes) : M Unit := pure ()

def onSuccess (data : Bytes) : M Unit := do
  let details ← attempt (((photos data).mapM detailViewData).mapError .thrown)
  publish { error := false, message := lit "ok", items := details }

def request [Hashing] (t : Transfer) : M Unit :=
  requestUrl (queryUrl params) t onSuccess onFailure

-- ---------------------------------------------------------------------------
-- Running
-- ---------------------------------------------------------------------------

def result (t : Transfer) : Option ViewData :=
  if t.Success then
    ((photos t.body).mapM detailViewData).toOption.map fun items => ⟨false, lit "ok", items⟩
  else none

def Located (j : Json) : Prop :=
  (Floats.stod (j.get "latitude").stringValue).isOk ∧
    (Floats.stod (j.get "longitude").stringValue).isOk

theorem detailViewData_isOk (j : Json) : (detailViewData j).isOk ↔ Located j := by
  rw [detailViewData, Located]
  cases Floats.stod (j.get "latitude").stringValue with
  | error e => exact iff_of_false Bool.false_ne_true fun h => Bool.false_ne_true h.1
  | ok lat =>
    cases Floats.stod (j.get "longitude").stringValue with
    | error e => exact iff_of_false Bool.false_ne_true fun h => Bool.false_ne_true h.2
    | ok lng => exact iff_of_true rfl ⟨rfl, rfl⟩

theorem of_detailViewData {j : Json} {d : DetailViewData} (h : detailViewData j = .ok d) :
    d.id = (j.get "id").stringValue ∧
      d.imageUrl = constructFlickrImageUrl (j.get "farm").intValue (j.get "server").stringValue
        d.id (j.get "secret").stringValue := by
  rw [detailViewData] at h
  cases hlat : Floats.stod (j.get "latitude").stringValue with
  | error e =>
    rw [hlat] at h
    cases h
  | ok lat =>
    cases hlng : Floats.stod (j.get "longitude").stringValue with
    | error e =>
      rw [hlat, hlng] at h
      cases h
    | ok lng =>
      rw [hlat, hlng] at h
      cases h
      exact ⟨rfl, rfl⟩

theorem result_isSome (t : Transfer) :
    (result t).isSome ↔ t.Success ∧ ∀ j ∈ photos t.body, Located j := by
  have hall : ((photos t.body).mapM detailViewData).isOk ↔ ∀ j ∈ photos t.body, Located j := by
    rw [mapM_isOk]
    simp only [detailViewData_isOk]
  rw [result, ← hall]
  split
  · rename_i ht
    rw [and_iff_right ht]
    cases (photos t.body).mapM detailViewData <;> exact Iff.rfl
  · rename_i ht
    exact iff_of_false Bool.false_ne_true fun h => ht h.1

theorem publishes (t : Transfer) (s : State) :
    Publishes (if t.Success then onSuccess t.body else onFailure t.body) s (result t) := by
  rw [result]
  split
  · have hexec : exec (onSuccess t.body) s =
        match (photos t.body).mapM detailViewData with
        | .ok items => exec (publish ⟨false, lit "ok", items⟩) s
        | .error e => (.error (.thrown e), s) := by
      rw [onSuccess, exec_bind, exec_attempt]
      cases (photos t.body).mapM detailViewData <;> rfl
    cases hd : (photos t.body).mapM detailViewData with
    | error e =>
      rw [hd] at hexec
      exact (publishes_throw e s).of_exec hexec
    | ok items =>
      rw [hd] at hexec
      exact (publishes_publish _ s).of_exec hexec
  · exact publishes_pure s

theorem request_requests [Hashing] (t : Transfer) (s : State) :
    Requests (request t) s (result t) :=
  requests_requestUrl fun _ => publishes t _

end Cookpit.Map
