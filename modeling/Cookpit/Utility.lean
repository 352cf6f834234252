import Cookpit.Lib.Bytes
import Mathlib.Data.List.Perm.Basic

/-!
# Constants and helpers of the core

`constants.hpp` as far as a request is built from it, and `utility.cpp`: the
image addresses, the query string and `curl_get`.
-/

namespace Cookpit

open ByteString

-- ---------------------------------------------------------------------------
-- Constants
-- ---------------------------------------------------------------------------

def baseUrl : Bytes := lit "https://api.flickr.com/services/rest/"

def methodKey : Bytes := lit "method"
def apiKey : Bytes := lit "api_key"
def formatKey : Bytes := lit "format"
def noJsonCallback : Bytes := lit "nojsoncallback"
def perPage : Bytes := lit "per_page"
def pageKey : Bytes := lit "page"
def textKey : Bytes := lit "text"
def photoId : Bytes := lit "photo_id"
def bbox : Bytes := lit "bbox"
def sortKey : Bytes := lit "sort"
def extras : Bytes := lit "extras"

def apiKeyValue : Bytes := lit "21d58b359476ca14401d40590b495c0d"
def jsonFormat : Bytes := lit "json"
def interestingnessGetList : Bytes := lit "flickr.interestingness.getList"
def photosSearch : Bytes := lit "flickr.photos.search"
def photosInfo : Bytes := lit "flickr.photos.getInfo"
def photosCommentsGetList : Bytes := lit "flickr.photos.comments.getList"
def interestingnessDesc : Bytes := lit "interestingness-desc"

-- ---------------------------------------------------------------------------
-- Addresses
-- ---------------------------------------------------------------------------

def constructFlickrImageUrl (farm : Int) (server photoId secret : Bytes) : Bytes :=
  lit "https://farm" ++ intToString farm ++ lit ".static.flickr.com/" ++ server ++ lit "/" ++
    photoId ++ lit "_" ++ secret ++ lit "_z.jpg"

def constructFlickrAvatarUrl (farm : Int) (server nsId : Bytes) : Bytes :=
  lit "https://c2.staticflickr.com/" ++ intToString farm ++ lit "/" ++ server ++ lit "/" ++
    lit "buddyicons/" ++ nsId ++ lit "_l.jpg"

def convertToQueryParamString (queries : List (Bytes × Bytes)) : Bytes :=
  queries.flatMap fun p => p.1 ++ lit "=" ++ p.2 ++ lit "&"

/-- The order in which the hash table of the platform iterates over a map. -/
class Hashing where
  iterate : List (Bytes × Bytes) → List (Bytes × Bytes)
  perm : ∀ params, (iterate params).Perm params

@[reducible] def listed : Hashing := ⟨id, fun params => List.Perm.refl params⟩

-- ---------------------------------------------------------------------------
-- curl
-- ---------------------------------------------------------------------------

/-- How a transfer ends: `res == CURLE_OK`, the response code and the bytes
received. -/
structure Transfer where
  ok : Bool
  code : Int
  body : Bytes
  deriving DecidableEq, Repr

def Transfer.Success (t : Transfer) : Prop := t.ok = true ∧ 200 ≤ t.code ∧ t.code < 300

instance (t : Transfer) : Decidable t.Success := by
  unfold Transfer.Success
  infer_instance

def curlGet (transfer : Transfer) (url : Bytes)
    (successCallback failureCallback : Bytes → Int → Bytes → α) : α :=
  if transfer.Success then successCallback url transfer.code transfer.body
  else failureCallback url transfer.code transfer.body

end Cookpit
