import Cookpit.Lib.KeyStore
import Cookpit.Lib.Paging
import Cookpit.Request

/-!
# The explore controller

`explore_controller_impl`: pages of the interestingness list, shown from the
cache first and then from the service. The page of an answer is read back from
the request's own address, and decides between overwriting a slice of the list
and appending to it.

`request` runs on one thread from `on_begin_update` to `on_end_update`. It is
cut where the network is waited for, into `start` and `answer`, so that the
steps of overlapping requests can be interleaved.
-/

namespace Cookpit.Explore

open ByteString Json11 Observed

structure DetailViewData where
  id : Bytes
  imageUrl : Bytes
  title : Bytes
  deriving DecidableEq, Repr

structure ViewData where
  error : Bool
  message : Bytes
  explores : List DetailViewData
  deriving DecidableEq, Repr

/-- The environment `db("explore")`: its entries in key order. -/
abbrev Db := KeyStore.Store Bytes Bytes

structure Data where
  items : List DetailViewData
  db : Db

abbrev State := Observed.State ViewData Data

abbrev M := Observed.M Thrown ViewData Data

def itemPerPage : Nat := 10

/-- `(size_t)` on a 64-bit platform. -/
def sizeT (n : Int) : Nat := (n % UInt64.size).toNat

-- ---------------------------------------------------------------------------
-- Answers
-- ---------------------------------------------------------------------------

section
variable [Floats]

def detailViewData (j : Json) : DetailViewData :=
  let id := (j.get "id").stringValue
  { id
    imageUrl := constructFlickrImageUrl (j.get "farm").intValue (j.get "server").stringValue id
      (j.get "secret").stringValue
    title := (j.get "title").stringValue }

def constructDetailViewDataFromData (data : Bytes) : List DetailViewData :=
  let json := parsed data
  let topPhotos := json.get "photos"
  let photoArray := topPhotos.get "photo"
  photoArray.arrayItems.map detailViewData

end

def constructUrl (url : Bytes) (page : Int8) : Bytes :=
  url ++ lit "?" ++ convertToQueryParamString
    [(methodKey, interestingnessGetList), (apiKey, apiKeyValue), (formatKey, jsonFormat),
      (noJsonCallback, lit "1"), (pageKey, intToString page.toInt),
      (perPage, intToString itemPerPage)]

/-- The page `on_success` takes from the address: `-1` where there is none. -/
def pageOfUrl (url : Bytes) : Except Thrown Int :=
  match find (lit "page=") url with
  | some found => do stoi (← substr url (found + 5) 1)
  | none => .ok (-1)

-- ---------------------------------------------------------------------------
-- Merging
-- ---------------------------------------------------------------------------

/-- The merge both `request` and `on_success` make. -/
def mergePage (page : Int) (data items : List DetailViewData) :
    Except (Fault Thrown) (List DetailViewData) :=
  if items.length ≥ sizeT (page * itemPerPage) then
    match Paging.copyTo data ((page - 1) * itemPerPage) items with
    | some items => .ok items
    | none => .error .outOfBounds
  else .ok (items ++ data)

def setItems (items : List DetailViewData) : M Unit := modifySelf fun d => { d with items }

def mergeItems (page : Int) (data : List DetailViewData) : M Unit := do
  setItems (← attempt (mergePage page data (← get).self.items))

-- ---------------------------------------------------------------------------
-- The controller
-- ---------------------------------------------------------------------------

def reset : M Unit := setItems []

def subscribe (observer : Observer) : M Unit := Cookpit.subscribe observer

def unsubscribe : M Unit := Cookpit.unsubscribe

def failureMessage (reason : Bytes) : Bytes :=
  errorMessage (lit "There is something wrong, please try again later") reason

def onFailure (_url reason : Bytes) : M Unit := do
  publish { error := true, message := failureMessage reason, explores := (← get).self.items }

def fresh (observer : Observer) (db : Db) : State := subscribed observer { items := [], db }

theorem fresh_attended : (fresh o db).Attended o := subscribed_attended o _

section
variable [Floats]

/-- The loop of `request_db` over the cursor. -/
def scan (url : Bytes) : List (Bytes × Bytes) → List DetailViewData
  | [] => []
  | (key, value) :: rest =>
    if key = url then constructDetailViewDataFromData value else scan url rest

def requestDb (db : Db) (page : Int8) : List DetailViewData :=
  scan (constructUrl baseUrl page) db.entries

/-- `dbi.put` with the arguments as C strings. -/
def save (url data : Bytes) : M Unit :=
  modifySelf fun d => { d with db := d.db.put (cStr url) (cStr data) }

def onSuccess (url data : Bytes) : M Unit := do
  let details := constructDetailViewDataFromData data
  let page ← attempt ((pageOfUrl url).mapError .thrown)
  if page = -1 then return
  mergeItems page details
  publish { error := false, message := lit "ok", explores := (← get).self.items }
  save url data

def start (page : Int8) : M Unit := do
  notify .onBeginUpdate
  mergeItems page.toInt (requestDb (← get).self.db page)
  notify (.onUpdate
    { error := false, message := lit "cache", explores := (← get).self.items })

def answer (page : Int8) (transfer : Transfer) : M Unit :=
  curlGet transfer (constructUrl baseUrl page)
    (fun url _ response => onSuccess url response)
    (fun url _ response => onFailure url response)

def request (page : Int8) (transfer : Transfer) : M Unit := do
  start page
  answer page transfer

inductive Action
  | reset
  | request (page : Int8) (transfer : Transfer)

def Action.run : Action → M Unit
  | .reset => Explore.reset
  | .request page transfer => Explore.request page transfer

def Action.next (s : State) (a : Action) : State := (exec a.run s).2

end

end Cookpit.Explore
