import Cookpit.Lib.KeyStore
import Cookpit.Request

/-!
# The search controller

`search_controller_impl`: pages of results behind one another, and the keys
searched for. The total of an answer is converted only where it is published,
behind the guard and in front of `on_update`.
-/

namespace Cookpit.Search

open ByteString Json11 Observed

structure DetailViewData where
  id : Bytes
  imageUrl : Bytes
  title : Bytes
  deriving DecidableEq, Repr

structure ViewData where
  error : Bool
  message : Bytes
  results : List DetailViewData
  total : Int
  deriving DecidableEq, Repr

structure Data where
  items : List DetailViewData
  recentSearchKey : KeyStore.Store Bytes Unit

abbrev State := Observed.State ViewData Data

abbrev M := Observed.M Thrown ViewData Data

def subscribe (observer : Observer) : M Unit := Cookpit.subscribe observer

def unsubscribe : M Unit := Cookpit.unsubscribe

def reset : M Unit := modifySelf fun d => { d with items := [] }

/-- The keys in their order, in front of as many empty strings: the vector is
made of the final size before they are inserted. -/
def fetchRecents (d : Data) : List Bytes :=
  d.recentSearchKey.entries.map (·.1) ++ List.replicate d.recentSearchKey.entries.length []

def params (key : Bytes) (page : Int8) : List (Bytes × Bytes) :=
  let convertedKey := key.map fun ch => if ch = chr ' ' then chr '+' else ch
  [(methodKey, photosSearch), (apiKey, apiKeyValue), (textKey, convertedKey),
    (formatKey, jsonFormat), (noJsonCallback, lit "1"), (perPage, lit "25"),
    (pageKey, intToString page.toInt)]

def onFailure (reason : Bytes) : M Unit := do
  publish
    { error := true
      message := errorMessage [] reason
      results := (← get).self.items
      total := -1 }

section
variable [Floats]

def detailViewData (j : Json) : DetailViewData :=
  let id := (j.get "id").stringValue
  { id
    imageUrl := constructFlickrImageUrl (j.get "farm").intValue (j.get "server").stringValue id
      (j.get "secret").stringValue
    title := (j.get "title").stringValue }

def onSuccess (data : Bytes) : M Unit := do
  let json := parsed data
  let topPhotos := json.get "photos"
  let total := (topPhotos.get "total").stringValue
  let photoArray := topPhotos.get "photo"
  let details := photoArray.arrayItems.map detailViewData
  modifySelf fun d => { d with items := d.items ++ details }
  ifObserved do
    notify (.onUpdate
      { error := false
        message := (json.get "stat").stringValue
        results := (← get).self.items
        total := ← attempt ((stoi total).mapError .thrown) })
    notify .onEndUpdate

def search [Hashing] (key : Bytes) (page : Int8) (t : Transfer) : M Unit := do
  modifySelf fun d => { d with recentSearchKey := d.recentSearchKey.put key () }
  requestUrl (queryUrl (params key page)) t onSuccess onFailure

inductive Action
  | reset
  | search (key : Bytes) (page : Int8) (transfer : Transfer)

def Action.run [Hashing] : Action → M Unit
  | .reset => Search.reset
  | .search key page t => Search.search key page t

-- ---------------------------------------------------------------------------
-- Running
-- ---------------------------------------------------------------------------

def details (data : Bytes) : List DetailViewData :=
  (((parsed data).get "photos").get "photo").arrayItems.map detailViewData

def total (data : Bytes) : Bytes := (((parsed data).get "photos").get "total").stringValue

def result (t : Transfer) (items : List DetailViewData) : Option ViewData :=
  if t.Success then
    (stoi (total t.body)).toOption.map fun n =>
      ⟨false, ((parsed t.body).get "stat").stringValue, items ++ details t.body, n⟩
  else some ⟨true, errorMessage [] t.body, items, -1⟩

theorem result_isSome (t : Transfer) (items : List DetailViewData) :
    (result t items).isSome ↔ (t.Success → (stoi (total t.body)).isOk) := by
  rw [result]
  split
  · rename_i ht
    rw [forall_prop_of_true ht]
    cases stoi (total t.body) <;> exact Iff.rfl
  · rename_i ht
    exact iff_of_true rfl fun h => absurd h ht

def okUpdate (data : Bytes) (items : List DetailViewData) (n : Int) : ViewData :=
  ⟨false, ((parsed data).get "stat").stringValue, items ++ details data, n⟩

def extended (data : Bytes) (s : State) : State :=
  { s with self := { s.self with items := s.self.items ++ details data } }

/-- The items are stored first, whether the total is a number or not. -/
theorem exec_onSuccess_ok (hn : stoi (total data) = .ok n) (s : State) :
    exec (onSuccess data) s =
      exec (publish (okUpdate data s.self.items n)) (extended data s) := by
  rw [onSuccess, exec_bind, exec_modifySelf]
  refine exec_ifObserved_congr ?_
  rw [total] at hn
  simp only [exec_bind, exec_get, exec_attempt, hn, Except.mapError]
  rfl

theorem exec_onSuccess_error (hn : stoi (total data) = .error e) (s : State) :
    exec (onSuccess data) s = exec (ifObserved (throw (.thrown e))) (extended data s) := by
  rw [onSuccess, exec_bind, exec_modifySelf]
  refine exec_ifObserved_congr ?_
  rw [total] at hn
  simp only [exec_bind, exec_get, exec_attempt, hn, Except.mapError]
  rfl

theorem publishes (t : Transfer) (s : State) :
    Publishes (if t.Success then onSuccess t.body else onFailure t.body) s
      (result t s.self.items) := by
  rw [result]
  split
  · cases hn : stoi (total t.body) with
    | ok n => exact (publishes_publish _ (extended t.body s)).of_exec (exec_onSuccess_ok hn s)
    | error e =>
      exact (publishes_ifObserved_throw e (extended t.body s)).of_exec (exec_onSuccess_error hn s)
  · exact (publishes_publish _ s).of_exec rfl

theorem search_requests [Hashing] (key : Bytes) (page : Int8) (t : Transfer) (s : State) :
    Requests (search key page t) s (result t s.self.items) := by
  have hexec : exec (search key page t) s =
      exec (requestUrl (queryUrl (params key page)) t onSuccess onFailure)
        { s with
          self := { s.self with recentSearchKey := s.self.recentSearchKey.put key () } } := by
    rw [search, exec_bind, exec_modifySelf]
  exact (requests_requestUrl fun _ => publishes t _).of_exec hexec

end

end Cookpit.Search
