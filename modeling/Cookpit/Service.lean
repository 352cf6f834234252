import Cookpit.Explore.Controller
import Cookpit.Json11.Grammar
import Cookpit.Map
import Cookpit.Photo
import Cookpit.Search.Answers

/-!
# What the service says

The answers of the service as documents about photos and comments, and what the
controllers read in them. A document may be spelled in any way, with any blanks
and escapes, its members may be in any order, and there may be others among
them: a controller publishes the records the document tells of, all of them and
in their order (`photos_read`, `places_read`, `photo_read`).
-/

namespace Cookpit

open ByteString Json11 JsonText Observed

-- ---------------------------------------------------------------------------
-- Records
-- ---------------------------------------------------------------------------

structure Photo where
  id : Bytes
  farm : Int
  server : Bytes
  secret : Bytes
  title : Bytes

/-- A photo and the place it was taken at. -/
structure Place where
  photo : Photo
  latitude : Bytes
  longitude : Bytes

structure Comment where
  id : Bytes
  author : Bytes
  authorName : Bytes
  iconFarm : Int
  iconServer : Bytes
  text : Bytes

structure Details where
  id : Bytes
  farm : Int
  server : Bytes
  secret : Bytes
  title : Bytes
  userName : Bytes
  nsId : Bytes
  iconFarm : Int
  iconServer : Bytes
  views : Bytes
  comments : Bytes

-- ---------------------------------------------------------------------------
-- Documents
-- ---------------------------------------------------------------------------

def HasText (name : String) (s : Bytes) (v : Value) : Prop :=
  v.member (lit name) = some (.string s)

/-- An integer of nine characters at most, which json11 reads as an `int`. -/
def HasNumber (name : String) (n : Int) (v : Value) : Prop :=
  (intToString n).length ≤ 9 ∧ ∃ h, v.member (lit name) = some (.number (intToString n) h)

/-- The member is a value of which `P` holds. -/
def Has (name : String) (P : Value → Prop) (v : Value) : Prop :=
  ∃ w, v.member (lit name) = some w ∧ P w

/-- The member is an array that tells of `xs`. -/
def HasList {α : Type} (name : String) (tells : α → Value → Prop) (xs : List α) (v : Value) :
    Prop :=
  ∃ vs, v.member (lit name) = some (.array vs) ∧ List.Forall₂ tells xs vs

structure Photo.In (p : Photo) (v : Value) : Prop where
  id : HasText "id" p.id v
  farm : HasNumber "farm" p.farm v
  server : HasText "server" p.server v
  secret : HasText "secret" p.secret v
  title : HasText "title" p.title v

structure Place.In (p : Place) (v : Value) : Prop where
  photo : p.photo.In v
  latitude : HasText "latitude" p.latitude v
  longitude : HasText "longitude" p.longitude v

structure Comment.In (c : Comment) (v : Value) : Prop where
  id : HasText "id" c.id v
  author : HasText "author" c.author v
  authorName : HasText "authorname" c.authorName v
  iconFarm : HasNumber "iconfarm" c.iconFarm v
  iconServer : HasText "iconserver" c.iconServer v
  text : HasText "_content" c.text v

structure Details.In (d : Details) (v : Value) : Prop where
  id : HasText "id" d.id v
  farm : HasNumber "farm" d.farm v
  server : HasText "server" d.server v
  secret : HasText "secret" d.secret v
  title : Has "title" (HasText "_content" d.title) v
  owner : Has "owner" (fun w => HasText "username" d.userName w ∧ HasText "nsid" d.nsId w ∧
    HasNumber "iconfarm" d.iconFarm w ∧ HasText "iconserver" d.iconServer w) v
  views : HasText "views" d.views v
  comments : Has "comments" (HasText "_content" d.comments) v

/-- An answer with these photos, of `total` there are. -/
structure PhotosIn (ps : List Photo) (total stat : Bytes) (v : Value) : Prop where
  photos : Has "photos" (fun w => HasList "photo" Photo.In ps w ∧ HasText "total" total w) v
  stat : HasText "stat" stat v

def PlacesIn (ps : List Place) : Value → Prop := Has "photos" (HasList "photo" Place.In ps)

structure CommentsIn (cs : List Comment) (stat : Bytes) (v : Value) : Prop where
  comments : Has "comments" (HasList "comment" Comment.In cs) v
  stat : HasText "stat" stat v

structure DetailsIn (d : Details) (stat : Bytes) (v : Value) : Prop where
  photo : Has "photo" d.In v
  stat : HasText "stat" stat v

def Photo.imageUrl (p : Photo) : Bytes := constructFlickrImageUrl p.farm p.server p.id p.secret

def Photo.explored (p : Photo) : Explore.DetailViewData := ⟨p.id, p.imageUrl, p.title⟩

def Photo.found (p : Photo) : Search.DetailViewData := ⟨p.id, p.imageUrl, p.title⟩

def Comment.viewData (c : Comment) : PhotoComment.DetailViewData where
  id := c.id
  ownerName := c.authorName
  ownerAvatarUrl := constructFlickrAvatarUrl c.iconFarm c.iconServer c.author
  text := c.text

def Details.viewData (d : Details) (stat : Bytes) : PhotoDetail.ViewData where
  error := false
  message := stat
  id := d.id
  title := d.title
  imageUrl := constructFlickrImageUrl d.farm d.server d.id d.secret
  ownerName := d.userName
  ownerAvatarUrl := constructFlickrAvatarUrl d.iconFarm d.iconServer d.nsId
  numberOfView := d.views
  numberOfComment := d.comments

-- ---------------------------------------------------------------------------
-- Reading
-- ---------------------------------------------------------------------------

theorem HasText.read (h : HasText name s v) : ((ofValue v).get name).stringValue = s := by
  rw [get_ofValue h, ofValue]
  rfl

theorem Has.read (h : Has name P v) : ∃ w, (ofValue v).get name = ofValue w ∧ P w := by
  obtain ⟨w, hw, hP⟩ := h
  exact ⟨w, get_ofValue hw, hP⟩

theorem HasList.read {α β : Type} {tells : α → Value → Prop} {xs : List α}
    (h : HasList name tells xs v) {f : Json → β} {g : α → β}
    (hf : ∀ x w, tells x w → f (ofValue w) = g x) :
    ((ofValue v).get name).arrayItems.map f = xs.map g := by
  obtain ⟨vs, hvs, htells⟩ := h
  rw [get_ofValue hvs, ofValue]
  show (ofElements vs).map f = xs.map g
  clear hvs
  induction htells with
  | nil => rfl
  | cons hx _ ih => rw [ofElements, List.map_cons, List.map_cons, hf _ _ hx, ih]

/-- Where each of them may fail to be read. -/
theorem HasList.mapM_read {α β : Type} {tells : α → Value → Prop} {xs : List α}
    (h : HasList name tells xs v) {f : Json → Except Thrown β} {g : α → Except Thrown β}
    (hf : ∀ x w, tells x w → f (ofValue w) = g x) :
    ((ofValue v).get name).arrayItems.mapM f = xs.mapM g := by
  obtain ⟨vs, hvs, htells⟩ := h
  rw [get_ofValue hvs, ofValue]
  show (ofElements vs).mapM f = xs.mapM g
  clear hvs
  induction htells with
  | nil => rfl
  | cons hx _ ih => rw [ofElements, List.mapM_cons, List.mapM_cons, hf _ _ hx, ih]

theorem success_ok (s : Bytes) : (⟨true, 200, s⟩ : Transfer).Success :=
  ⟨rfl, show (200 : Int) ≤ 200 by decide, show (200 : Int) < 300 by decide⟩

section
variable [Floats]

theorem HasNumber.read (h : HasNumber name n v) : ((ofValue v).get name).intValue = n := by
  obtain ⟨hlen, hnumber, hn⟩ := h
  rw [get_ofValue hn, ofValue, intValue_ofNumber hlen]

theorem Photo.In.explored {p : Photo} (h : p.In v) :
    Explore.detailViewData (ofValue v) = p.explored := by
  rw [Explore.detailViewData, h.id.read, h.farm.read, h.server.read, h.secret.read, h.title.read]
  rfl

theorem Photo.In.found {p : Photo} (h : p.In v) : Search.detailViewData (ofValue v) = p.found := by
  rw [Search.detailViewData, h.id.read, h.farm.read, h.server.read, h.secret.read, h.title.read]
  rfl

theorem Comment.In.viewData {c : Comment} (h : c.In v) :
    PhotoComment.detailViewData (ofValue v) = c.viewData := by
  rw [PhotoComment.detailViewData, h.id.read, h.author.read, h.authorName.read, h.iconFarm.read,
    h.iconServer.read, h.text.read]
  rfl

/-- The photos of an answer and their total, however it is spelled. -/
theorem photos_read (ps : List Photo) (total stat : Bytes) (v : Value) (s : Bytes)
    (h : Document (maxDepth + 1) v s) (hv : PhotosIn ps total stat v) :
    Explore.constructDetailViewDataFromData s = ps.map Photo.explored ∧
      ∀ n items, stoi total = .ok n →
        Search.result ⟨true, 200, s⟩ items =
          some ⟨false, stat, items ++ ps.map Photo.found, n⟩ := by
  obtain ⟨top, htop, hlist, htotal⟩ := hv.photos.read
  have hfound : Search.details s = ps.map Photo.found := by
    rw [Search.details, parsed_document h, htop]
    exact hlist.read fun _ _ => Photo.In.found
  refine ⟨?_, fun n items hn => ?_⟩
  · simp only [Explore.constructDetailViewDataFromData, parsed_document h, htop]
    exact hlist.read fun _ _ => Photo.In.explored
  · have htext : Search.total s = total := by
      rw [Search.total, parsed_document h, htop, htotal.read]
    rw [Search.result, if_pos (success_ok s)]
    simp only [htext, hn, hfound, parsed_document h, hv.stat.read]
    rfl

/-- `stod` of both coordinates, the latitude first. -/
def Place.viewData (p : Place) : Except Thrown Map.DetailViewData := do
  let lat ← Floats.stod p.latitude
  let lng ← Floats.stod p.longitude
  return ⟨p.photo.id, p.photo.imageUrl, p.photo.title, ⟨lat, lng⟩⟩

theorem Place.In.viewData {p : Place} (h : p.In v) :
    Map.detailViewData (ofValue v) = p.viewData := by
  simp only [Map.detailViewData, h.photo.id.read, h.photo.farm.read, h.photo.server.read,
    h.photo.secret.read, h.photo.title.read, h.latitude.read, h.longitude.read]
  rfl

/-- The photos on the map, or none of them where a place is no number. -/
theorem places_read (ps : List Place) (v : Value) (s : Bytes)
    (h : Document (maxDepth + 1) v s) (hv : PlacesIn ps v) :
    Map.result ⟨true, 200, s⟩ =
      (ps.mapM Place.viewData).toOption.map fun items => ⟨false, lit "ok", items⟩ := by
  obtain ⟨top, htop, hlist⟩ := hv.read
  have hphotos : (Map.photos s).mapM Map.detailViewData = ps.mapM Place.viewData := by
    simp only [Map.photos, parsed_document h, htop]
    exact hlist.mapM_read fun _ _ => Place.In.viewData
  rw [Map.result, if_pos (success_ok s), hphotos]

/-- One photo and its comments. -/
theorem photo_read (d : Details) (cs : List Comment) (stat : Bytes) (v w : Value) (s s' : Bytes)
    (h : Document (maxDepth + 1) v s) (hv : DetailsIn d stat v)
    (h' : Document (maxDepth + 1) w s') (hw : CommentsIn cs stat w) :
    PhotoDetail.loaded s = d.viewData stat ∧
      PhotoComment.loaded s' = ⟨false, stat, cs.map Comment.viewData⟩ := by
  constructor
  · obtain ⟨photo, hphoto, hd⟩ := hv.photo.read
    obtain ⟨owner, howner, huser, hns, hfarm, hserver⟩ := hd.owner.read
    obtain ⟨title, htitle, hcontent⟩ := hd.title.read
    obtain ⟨comments, hcomments, hcount⟩ := hd.comments.read
    simp only [PhotoDetail.loaded, parsed_document h, hphoto, howner, htitle, hcomments,
      hv.stat.read, hd.id.read, hd.farm.read, hd.server.read, hd.secret.read, hd.views.read,
      huser.read, hns.read, hfarm.read, hserver.read, hcontent.read, hcount.read]
    rfl
  · obtain ⟨top, htop, hlist⟩ := hw.comments.read
    simp only [PhotoComment.loaded, parsed_document h', htop, hw.stat.read,
      hlist.read fun _ _ => Comment.In.viewData]

end

section
attribute [local instance] integerFloats

def number (n : Int) : Value := .number (intToString n) (number_intToString n)

/-- Two photos between blanks; the second has a title more than it needs. -/
def twoPhotos : Value :=
  .object
    [(lit "stat", .string (lit "ok")),
      (lit "photos", .object
        [(lit "total", .string (lit "2")),
          (lit "photo", .array
            [.object [(lit "id", .string (lit "7")), (lit "farm", number 66),
                (lit "server", .string (lit "65535")), (lit "secret", .string (lit "ab")),
                (lit "title", .string (lit "a \"b\""))],
              .object [(lit "title", .null), (lit "title", .string [0xC3, 0xA9]),
                (lit "farm", number 1), (lit "server", .string (lit "2")),
                (lit "secret", .string []), (lit "id", .string (lit "8"))]])])]

theorem photos_read_twoPhotos :
    Explore.constructDetailViewDataFromData twoPhotos.render =
        [⟨lit "7", lit "https://farm66.static.flickr.com/65535/7_ab_z.jpg", lit "a \"b\""⟩,
          ⟨lit "8", lit "https://farm1.static.flickr.com/2/8__z.jpg", [0xC3, 0xA9]⟩] ∧
      Search.result ⟨true, 200, twoPhotos.render⟩ [⟨lit "6", [], lit "before"⟩] =
        some ⟨false, lit "ok",
          [⟨lit "6", [], lit "before"⟩,
            ⟨lit "7", lit "https://farm66.static.flickr.com/65535/7_ab_z.jpg", lit "a \"b\""⟩,
            ⟨lit "8", lit "https://farm1.static.flickr.com/2/8__z.jpg", [0xC3, 0xA9]⟩], 2⟩ := by
  obtain ⟨hexplored, hfound⟩ := photos_read
    [⟨lit "7", 66, lit "65535", lit "ab", lit "a \"b\""⟩, ⟨lit "8", 1, lit "2", [], [0xC3, 0xA9]⟩]
    (lit "2") (lit "ok") twoPhotos twoPhotos.render (derives_render _ (by decide)).bare
    ⟨⟨_, rfl, ⟨_, rfl, .cons ⟨rfl, ⟨by decide, _, rfl⟩, rfl, rfl, rfl⟩
      (.cons ⟨rfl, ⟨by decide, _, rfl⟩, rfl, rfl, rfl⟩ .nil)⟩, rfl⟩, rfl⟩
  rw [hexplored, hfound 2 _ (by rfl)]
  decide

def twoPlaces : Value :=
  .object
    [(lit "photos", .object
        [(lit "photo", .array
            [.object [(lit "id", .string (lit "7")), (lit "farm", number 66),
                (lit "server", .string (lit "65535")), (lit "secret", .string (lit "ab")),
                (lit "title", .string (lit "a")), (lit "latitude", .string (lit "36")),
                (lit "longitude", .string (lit "-112"))],
              .object [(lit "longitude", .string (lit "100")), (lit "latitude", .string (lit "13")),
                (lit "id", .string (lit "8")), (lit "secret", .string (lit "cd")),
                (lit "server", .string (lit "2")), (lit "farm", number 1),
                (lit "title", .string [])]])]),
      (lit "stat", .string (lit "ok"))]

theorem places_read_twoPlaces :
    Map.result ⟨true, 200, twoPlaces.render⟩ =
      some ⟨false, lit "ok",
        [⟨lit "7", lit "https://farm66.static.flickr.com/65535/7_ab_z.jpg", lit "a",
            (36 : Int), (-112 : Int)⟩,
          ⟨lit "8", lit "https://farm1.static.flickr.com/2/8_cd_z.jpg", [],
            (13 : Int), (100 : Int)⟩]⟩ := by
  rw [places_read
    [⟨⟨lit "7", 66, lit "65535", lit "ab", lit "a"⟩, lit "36", lit "-112"⟩,
      ⟨⟨lit "8", 1, lit "2", lit "cd", []⟩, lit "13", lit "100"⟩]
    twoPlaces twoPlaces.render (derives_render _ (by decide)).bare
    ⟨_, rfl, _, rfl, .cons ⟨⟨rfl, ⟨by decide, _, rfl⟩, rfl, rfl, rfl⟩, rfl, rfl⟩
      (.cons ⟨⟨rfl, ⟨by decide, _, rfl⟩, rfl, rfl, rfl⟩, rfl, rfl⟩ .nil)⟩]
  rfl

def onePhoto : Value :=
  .object
    [(lit "photo", .object
        [(lit "id", .string (lit "7")), (lit "secret", .string (lit "ab")),
          (lit "server", .string (lit "65535")), (lit "farm", number 66),
          (lit "owner", .object [(lit "nsid", .string (lit "1@N00")),
            (lit "username", .string (lit "ann")), (lit "iconserver", .string (lit "2")),
            (lit "iconfarm", number 3)]),
          (lit "title", .object [(lit "_content", .string (lit "a"))]),
          (lit "views", .string (lit "12")),
          (lit "comments", .object [(lit "_content", .string (lit "2"))])]),
      (lit "stat", .string (lit "ok"))]

def twoComments : Value :=
  .object
    [(lit "comments", .object
        [(lit "photo_id", .string (lit "7")),
          (lit "comment", .array
            [.object [(lit "id", .string (lit "9")), (lit "author", .string (lit "2@N00")),
                (lit "authorname", .string (lit "bob")), (lit "iconserver", .string (lit "4")),
                (lit "iconfarm", number 5), (lit "_content", .string (lit "nice"))],
              .object [(lit "_content", .string []), (lit "iconfarm", number 0),
                (lit "iconserver", .string (lit "0")), (lit "authorname", .string (lit "eve")),
                (lit "author", .string (lit "3@N00")), (lit "id", .string (lit "8"))]])]),
      (lit "stat", .string (lit "ok"))]

theorem photo_read_twoComments :
    PhotoDetail.loaded onePhoto.render =
        ⟨false, lit "ok", lit "7", lit "a",
          lit "https://farm66.static.flickr.com/65535/7_ab_z.jpg", lit "ann",
          lit "https://c2.staticflickr.com/3/2/buddyicons/1@N00_l.jpg", lit "12", lit "2"⟩ ∧
      PhotoComment.loaded twoComments.render =
        ⟨false, lit "ok",
          [⟨lit "9", lit "bob", lit "https://c2.staticflickr.com/5/4/buddyicons/2@N00_l.jpg",
              lit "nice"⟩,
            ⟨lit "8", lit "eve", lit "https://c2.staticflickr.com/0/0/buddyicons/3@N00_l.jpg",
              []⟩]⟩ := by
  obtain ⟨hphoto, hcomments⟩ := photo_read
    ⟨lit "7", 66, lit "65535", lit "ab", lit "a", lit "ann", lit "1@N00", 3, lit "2", lit "12",
      lit "2"⟩
    [⟨lit "9", lit "2@N00", lit "bob", 5, lit "4", lit "nice"⟩,
      ⟨lit "8", lit "3@N00", lit "eve", 0, lit "0", []⟩]
    (lit "ok") onePhoto twoComments onePhoto.render twoComments.render
    (derives_render _ (by decide)).bare
    ⟨⟨_, rfl, rfl, ⟨by decide, _, rfl⟩, rfl, rfl, ⟨_, rfl, rfl⟩,
      ⟨_, rfl, rfl, rfl, ⟨by decide, _, rfl⟩, rfl⟩, rfl, ⟨_, rfl, rfl⟩⟩, rfl⟩
    (derives_render _ (by decide)).bare
    ⟨⟨_, rfl, _, rfl, .cons ⟨rfl, rfl, rfl, ⟨by decide, _, rfl⟩, rfl, rfl⟩
      (.cons ⟨rfl, rfl, rfl, ⟨by decide, _, rfl⟩, rfl, rfl⟩ .nil)⟩, rfl⟩
  rw [hphoto, hcomments]
  decide

end

end Cookpit
