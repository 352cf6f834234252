import Cookpit.Request

/-!
# The controllers of one photo

`photo_detail_controller_impl` and `photo_comment_controller_impl`. Neither
reads `stat` other than as a message, and the comments of an answer are
published without being stored: `items_` stays empty.
-/

namespace Cookpit

open ByteString Json11 Observed

-- ---------------------------------------------------------------------------
-- Details
-- ---------------------------------------------------------------------------

namespace PhotoDetail

structure ViewData where
  error : Bool
  message : Bytes
  id : Bytes
  title : Bytes
  imageUrl : Bytes
  ownerName : Bytes
  ownerAvatarUrl : Bytes
  numberOfView : Bytes
  numberOfComment : Bytes
  deriving DecidableEq, Repr

structure Data where
  id : Bytes

abbrev State := Observed.State ViewData Data

abbrev M := Observed.M Thrown ViewData Data

def subscribe (observer : Observer) : M Unit := Cookpit.subscribe observer

def unsubscribe : M Unit := Cookpit.unsubscribe

def params (id : Bytes) : List (Bytes × Bytes) :=
  [(methodKey, photosInfo), (apiKey, apiKeyValue), (photoId, id), (formatKey, jsonFormat),
    (noJsonCallback, lit "1")]

def failed (id reason : Bytes) : ViewData where
  error := true
  message := errorMessage [] reason
  id
  title := []
  imageUrl := []
  ownerName := []
  ownerAvatarUrl := []
  numberOfView := lit "0"
  numberOfComment := lit "0"

def onFailure (reason : Bytes) : M Unit := do
  publish (failed (← get).self.id reason)

section
variable [Floats]

def loaded (data : Bytes) : ViewData :=
  let json := parsed data
  let photo := json.get "photo"
  let owner := photo.get "owner"
  let title := photo.get "title"
  { error := false
    message := (json.get "stat").stringValue
    id := (photo.get "id").stringValue
    title := (title.get "_content").stringValue
    imageUrl := constructFlickrImageUrl (photo.get "farm").intValue
      (photo.get "server").stringValue (photo.get "id").stringValue
      (photo.get "secret").stringValue
    ownerName := (owner.get "username").stringValue
    ownerAvatarUrl := constructFlickrAvatarUrl (owner.get "iconfarm").intValue
      (owner.get "iconserver").stringValue (owner.get "nsid").stringValue
    numberOfView := (photo.get "views").stringValue
    numberOfComment := ((photo.get "comments").get "_content").stringValue }

def onSuccess (data : Bytes) : M Unit := publish (loaded data)

def requestDetail [Hashing] (t : Transfer) : M Unit := do
  requestUrl (queryUrl (params (← get).self.id)) t onSuccess onFailure

def result (t : Transfer) (id : Bytes) : ViewData :=
  if t.Success then loaded t.body else failed id t.body

theorem publishes (t : Transfer) (s : State) :
    Publishes (if t.Success then onSuccess t.body else onFailure t.body) s
      (some (result t s.self.id)) := by
  rw [result]
  split
  · exact publishes_publish _ s
  · exact (publishes_publish _ s).of_exec rfl

theorem requestDetail_requests [Hashing] (t : Transfer) (s : State) :
    Requests (requestDetail t) s (some (result t s.self.id)) := by
  have hexec : exec (requestDetail t) s =
      exec (requestUrl (queryUrl (params s.self.id)) t onSuccess onFailure) s := by
    rw [requestDetail, exec_bind, exec_get]
  exact (requests_requestUrl fun _ => publishes t _).of_exec hexec

end

end PhotoDetail

-- ---------------------------------------------------------------------------
-- Comments
-- ---------------------------------------------------------------------------

namespace PhotoComment

structure DetailViewData where
  id : Bytes
  ownerName : Bytes
  ownerAvatarUrl : Bytes
  text : Bytes
  deriving DecidableEq, Repr

structure ViewData where
  error : Bool
  message : Bytes
  comments : List DetailViewData
  deriving DecidableEq, Repr

structure Data where
  items : List DetailViewData
  id : Bytes

abbrev State := Observed.State ViewData Data

abbrev M := Observed.M Thrown ViewData Data

def subscribe (observer : Observer) : M Unit := Cookpit.subscribe observer

def unsubscribe : M Unit := Cookpit.unsubscribe

def params (id : Bytes) : List (Bytes × Bytes) :=
  [(methodKey, photosCommentsGetList), (apiKey, apiKeyValue), (photoId, id),
    (formatKey, jsonFormat), (noJsonCallback, lit "1")]

def failed (reason : Bytes) (items : List DetailViewData) : ViewData :=
  { error := true, message := errorMessage [] reason, comments := items }

def onFailure (reason : Bytes) : M Unit := do
  publish (failed reason (← get).self.items)

section
variable [Floats]

def detailViewData (j : Json) : DetailViewData where
  id := (j.get "id").stringValue
  ownerName := (j.get "authorname").stringValue
  ownerAvatarUrl := constructFlickrAvatarUrl (j.get "iconfarm").intValue
    (j.get "iconserver").stringValue (j.get "author").stringValue
  text := (j.get "_content").stringValue

def loaded (data : Bytes) : ViewData :=
  let json := parsed data
  let topComments := json.get "comments"
  let comments := (topComments.get "comment").arrayItems
  { error := false
    message := (json.get "stat").stringValue
    comments := comments.map detailViewData }

def onSuccess (data : Bytes) : M Unit := publish (loaded data)

def requestComments [Hashing] (t : Transfer) : M Unit := do
  requestUrl (queryUrl (params (← get).self.id)) t onSuccess onFailure

def result (t : Transfer) (items : List DetailViewData) : ViewData :=
  if t.Success then loaded t.body else failed t.body items

theorem publishes (t : Transfer) (s : State) :
    Publishes (if t.Success then onSuccess t.body else onFailure t.body) s
      (some (result t s.self.items)) := by
  rw [result]
  split
  · exact publishes_publish _ s
  · exact (publishes_publish _ s).of_exec rfl

theorem requestComments_requests [Hashing] (t : Transfer) (s : State) :
    Requests (requestComments t) s (some (result t s.self.items)) := by
  have hexec : exec (requestComments t) s =
      exec (requestUrl (queryUrl (params s.self.id)) t onSuccess onFailure) s := by
    rw [requestComments, exec_bind, exec_get]
  exact (requests_requestUrl fun _ => publishes t _).of_exec hexec

end

end PhotoComment

end Cookpit
