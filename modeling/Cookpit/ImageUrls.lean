import Cookpit.Explore.Controller
import Cookpit.Map
import Cookpit.Photo
import Mathlib.Logic.Function.Basic

/-!
# The addresses of images

A photo's and an avatar's address are read back part by part: a number has no
`.` and no `/`, a server no `/` and a photo id no `_`, so each ends where the
literal behind it begins, and what is left between two fixed ends may be any
text. Different photos therefore have different addresses, and none is an
avatar's (`imageUrls_injective`).
-/

namespace Cookpit

open ByteString Json11

/-- What `construct_flickr_image_url` is given for a photo of the service. -/
structure ImageSource where
  farm : Int
  server : Bytes
  photoId : Bytes
  secret : Bytes
  slash : chr '/' ∉ server
  underscore : chr '_' ∉ photoId

/-- What `construct_flickr_avatar_url` is given for a person of the service. -/
structure AvatarSource where
  farm : Int
  server : Bytes
  nsId : Bytes
  slash : chr '/' ∉ server

def ImageSource.url (s : ImageSource) : Bytes :=
  constructFlickrImageUrl s.farm s.server s.photoId s.secret

def AvatarSource.url (s : AvatarSource) : Bytes :=
  constructFlickrAvatarUrl s.farm s.server s.nsId

-- ---------------------------------------------------------------------------
-- Reading an address
-- ---------------------------------------------------------------------------

theorem constructFlickrImageUrl_inj {farm farm' : Int} {server server' photoId photoId' : Bytes}
    (hs : chr '/' ∉ server) (hs' : chr '/' ∉ server') (hp : chr '_' ∉ photoId)
    (hp' : chr '_' ∉ photoId')
    (h : constructFlickrImageUrl farm server photoId secret =
      constructFlickrImageUrl farm' server' photoId' secret') :
    farm = farm' ∧ server = server' ∧ photoId = photoId' ∧ secret = secret' := by
  have hhost : lit ".static.flickr.com/" = chr '.' :: lit "static.flickr.com/" := by decide +kernel
  have hslash : lit "/" = [chr '/'] := by decide
  have hunder : lit "_" = [chr '_'] := by decide
  simp only [constructFlickrImageUrl, hhost, hslash, hunder, List.append_assoc,
    List.cons_append, List.nil_append] at h
  obtain ⟨rfl, hafter⟩ := intToString_delimiter_inj (by decide) (List.append_cancel_left h)
  obtain ⟨rfl, hphoto⟩ := append_delimiter_inj hs hs' (List.append_cancel_left hafter)
  obtain ⟨rfl, hsecret⟩ := append_delimiter_inj hp hp' hphoto
  exact ⟨rfl, rfl, rfl, List.append_cancel_right hsecret⟩

theorem constructFlickrAvatarUrl_inj {farm farm' : Int} {server server' : Bytes}
    (hs : chr '/' ∉ server) (hs' : chr '/' ∉ server')
    (h : constructFlickrAvatarUrl farm server nsId = constructFlickrAvatarUrl farm' server' nsId') :
    farm = farm' ∧ server = server' ∧ nsId = nsId' := by
  have hslash : lit "/" = [chr '/'] := by decide
  simp only [constructFlickrAvatarUrl, hslash, List.append_assoc, List.cons_append,
    List.nil_append] at h
  obtain ⟨rfl, hserver⟩ := intToString_delimiter_inj (by decide) (List.append_cancel_left h)
  obtain ⟨rfl, hnsId⟩ := append_delimiter_inj hs hs' hserver
  exact ⟨rfl, rfl, List.append_cancel_right (List.append_cancel_left hnsId)⟩

/-- The two kinds differ in the byte behind `https://`. -/
theorem image_ne_avatar (farm farm' : Int) (server server' photoId secret nsId : Bytes) :
    constructFlickrImageUrl farm server photoId secret ≠
      constructFlickrAvatarUrl farm' server' nsId := by
  have himage : (constructFlickrImageUrl farm server photoId secret)[8]? = some (chr 'f') := by
    simp [constructFlickrImageUrl, lit, chr]
  have havatar : (constructFlickrAvatarUrl farm' server' nsId)[8]? = some (chr 'c') := by
    simp [constructFlickrAvatarUrl, lit, chr]
  intro h
  rw [h, havatar] at himage
  exact absurd himage (by decide)

-- ---------------------------------------------------------------------------
-- Different images
-- ---------------------------------------------------------------------------

/-- Images have the same address only if they are the same in every part, and
no image has an avatar's. -/
theorem imageUrls_injective :
    Function.Injective ImageSource.url ∧ Function.Injective AvatarSource.url ∧
      ∀ farm server photoId secret farm' server' nsId,
        constructFlickrImageUrl farm server photoId secret ≠
          constructFlickrAvatarUrl farm' server' nsId := by
  refine ⟨fun s s' h => ?_, fun s s' h => ?_, ?_⟩
  · obtain ⟨hfarm, hserver, hphoto, hsecret⟩ :=
      constructFlickrImageUrl_inj s.slash s'.slash s.underscore s'.underscore h
    cases s
    cases s'
    cases hfarm
    cases hserver
    cases hphoto
    cases hsecret
    rfl
  · obtain ⟨hfarm, hserver, hns⟩ := constructFlickrAvatarUrl_inj s.slash s'.slash h
    cases s
    cases s'
    cases hfarm
    cases hserver
    cases hns
    rfl
  · intro farm server photoId secret farm' server' nsId
    exact image_ne_avatar farm farm' server server' photoId secret nsId

/-- The ids and the secrets of the two photos are the same digits. -/
theorem imageUrls_injective_sameDigits :
    (⟨-1, lit "65535", lit "12", lit "3", by decide, by decide⟩ : ImageSource).url ≠
        (⟨-1, lit "65535", lit "1", lit "23", by decide, by decide⟩ : ImageSource).url ∧
      (⟨1, lit "2", lit "3@N00", by decide⟩ : AvatarSource).url ≠
        (⟨12, [], lit "3@N00", by decide⟩ : AvatarSource).url ∧
      (⟨-1, lit "65535", lit "12", lit "3", by decide, by decide⟩ : ImageSource).url ≠
        (⟨1, lit "2", lit "3@N00", by decide⟩ : AvatarSource).url := by
  obtain ⟨himages, havatars, hapart⟩ := imageUrls_injective
  refine ⟨himages.ne fun h => ?_, havatars.ne fun h => ?_, hapart _ _ _ _ _ _ _⟩
  · have hids : lit "12" = lit "1" := congrArg ImageSource.photoId h
    exact absurd hids (by decide)
  · have hfarms : (1 : Int) = 12 := congrArg AvatarSource.farm h
    exact absurd hfarms (by decide)

-- ---------------------------------------------------------------------------
-- Photos and people of an answer
-- ---------------------------------------------------------------------------

section
variable [Floats] {j j' : Json}

/-- A photo as the service describes it. -/
def Described (j : Json) : Prop :=
  chr '/' ∉ (j.get "server").stringValue ∧ chr '_' ∉ (j.get "id").stringValue

/-- A cached image of the list is one photo's. -/
theorem Explore.id_eq_of_imageUrl (h : Described j) (h' : Described j')
    (he : (Explore.detailViewData j).imageUrl = (Explore.detailViewData j').imageUrl) :
    (Explore.detailViewData j).id = (Explore.detailViewData j').id := by
  obtain ⟨-, -, hid, -⟩ := constructFlickrImageUrl_inj h.1 h'.1 h.2 h'.2 he
  exact hid

theorem Map.id_eq_of_imageUrl {d d' : Map.DetailViewData} (h : Described j) (h' : Described j')
    (hd : Map.detailViewData j = .ok d) (hd' : Map.detailViewData j' = .ok d')
    (he : d.imageUrl = d'.imageUrl) : d.id = d'.id := by
  obtain ⟨hid, hurl⟩ := Map.of_detailViewData hd
  obtain ⟨hid', hurl'⟩ := Map.of_detailViewData hd'
  rw [hurl, hurl', hid, hid'] at he
  obtain ⟨-, -, hids, -⟩ := constructFlickrImageUrl_inj h.1 h'.1 h.2 h'.2 he
  rw [hid, hid', hids]

/-- A cached avatar of a comment is one author's. -/
theorem PhotoComment.author_eq_of_avatarUrl
    (h : chr '/' ∉ (j.get "iconserver").stringValue)
    (h' : chr '/' ∉ (j'.get "iconserver").stringValue)
    (he : (PhotoComment.detailViewData j).ownerAvatarUrl =
      (PhotoComment.detailViewData j').ownerAvatarUrl) :
    (j.get "author").stringValue = (j'.get "author").stringValue := by
  obtain ⟨-, -, hauthor⟩ := constructFlickrAvatarUrl_inj h h' he
  exact hauthor

end

end Cookpit
