import Cookpit.Lib.Streams
import Cookpit.Photo

/-!
# The screen of a photo

`PhotoViewActivity` and `PhotoViewController` scan detail and comment updates
into one view model and bind the fields of its photo. The iOS app lets photos
without error through only, and shows the last of them as long as their
addresses are URLs; the Android app lets every photo through, so an error that
comes last blanks the screen (`showsLastValid_iff`). In which order the two kinds
of updates are merged is not to be seen on either (`merged_same`).
-/

namespace Cookpit.PhotoView

open ByteString Streams

-- ---------------------------------------------------------------------------
-- The view model
-- ---------------------------------------------------------------------------

/-- What the data controllers of a photo hand on, merged in any order. -/
inductive Update
  | detail (viewData : PhotoDetail.ViewData)
  | comment (viewData : PhotoComment.ViewData)

inductive PhotoViewModelCommand
  | setPhoto (photo : PhotoDetail.ViewData)
  | setComments (comments : List PhotoComment.DetailViewData)

structure PhotoViewModel where
  photo : Option PhotoDetail.ViewData := none
  comments : List PhotoComment.DetailViewData := []

def PhotoViewModel.executeCommand (viewModel : PhotoViewModel) :
    PhotoViewModelCommand → PhotoViewModel
  | .setPhoto photo => { photo := some photo, comments := viewModel.comments }
  | .setComments comments => { photo := viewModel.photo, comments }

def Update.command : Update → PhotoViewModelCommand
  | .detail viewData => .setPhoto viewData
  | .comment viewData => .setComments viewData.comments

def viewModels (updates : List Update) : List PhotoViewModel :=
  (updates.map Update.command).scanl PhotoViewModel.executeCommand {}

/-- The fields of a photo on screen, `none` before they are set. -/
structure Fields (ι : Type) where
  photoImage : Option ι
  ownerAvatar : Option ι
  ownerName : Option Bytes
  numberOfView : Option Bytes
  numberOfComment : Option Bytes
  deriving DecidableEq

/-- What a view bound to a field of the photos shows. -/
def bound (photos : List PhotoDetail.ViewData) (field : PhotoDetail.ViewData → Bytes) :
    Option Bytes :=
  (photos.map field).getLast?

-- ---------------------------------------------------------------------------
-- Android
-- ---------------------------------------------------------------------------

namespace Android

/-- `viewModels.filter { it.photo != null }.map { it.photo!! }`. -/
def photos (updates : List Update) : List PhotoDetail.ViewData :=
  (viewModels updates).filterMap (·.photo)

def fields (updates : List Update) : Fields Bytes where
  photoImage := bound (photos updates) (·.imageUrl)
  ownerAvatar := bound (photos updates) (·.ownerAvatarUrl)
  ownerName := bound (photos updates) (·.ownerName)
  numberOfView := bound (photos updates) (·.numberOfView)
  numberOfComment := bound (photos updates) (·.numberOfComment)

end Android

-- ---------------------------------------------------------------------------
-- iOS
-- ---------------------------------------------------------------------------

/-- `URL(string:)`. -/
class Foundation where
  Url : Type
  url : Bytes → Option Url

namespace Ios

/-- Here `scan` does not emit its seed. -/
def viewModel (updates : List Update) : List PhotoViewModel := (viewModels updates).tail

def validPhotoViewModel (updates : List Update) : List PhotoViewModel :=
  (viewModel updates).filter fun v => v.photo.isSome && v.photo.map (·.error) == some false

def photos (updates : List Update) : List PhotoDetail.ViewData :=
  (validPhotoViewModel updates).filterMap (·.photo)

/-- `none` where an address is no URL and the app ends. -/
def fields [Foundation] (updates : List Update) : Option (Fields Foundation.Url) := do
  let images ← mapForced (fun photo => Foundation.url photo.imageUrl) (photos updates)
  let avatars ← mapForced (fun photo => Foundation.url photo.ownerAvatarUrl) (photos updates)
  return {
    photoImage := images.getLast?
    ownerAvatar := avatars.getLast?
    ownerName := bound (photos updates) (·.ownerName)
    numberOfView := bound (photos updates) (·.numberOfView)
    numberOfComment := bound (photos updates) (·.numberOfComment) }

end Ios

-- ---------------------------------------------------------------------------
-- The last photo
-- ---------------------------------------------------------------------------

def details (updates : List Update) : List PhotoDetail.ViewData :=
  updates.filterMap fun
    | .detail viewData => some viewData
    | .comment _ => none

def lastDetail (updates : List Update) : Option PhotoDetail.ViewData := (details updates).getLast?

def lastValid (updates : List Update) : Option PhotoDetail.ViewData :=
  ((details updates).filter fun photo => !photo.error).getLast?

/-- The fields that show one photo, with images loaded by `load`. -/
def fieldsOf {ι : Type} (load : Bytes → Option ι) (photo : Option PhotoDetail.ViewData) :
    Fields ι where
  photoImage := photo.bind fun p => load p.imageUrl
  ownerAvatar := photo.bind fun p => load p.ownerAvatarUrl
  ownerName := photo.map (·.ownerName)
  numberOfView := photo.map (·.numberOfView)
  numberOfComment := photo.map (·.numberOfComment)

@[simp] theorem details_detail (updates : List Update) (photo : PhotoDetail.ViewData) :
    details (updates ++ [.detail photo]) = details updates ++ [photo] := by
  simp [details]

@[simp] theorem details_comment (updates : List Update) (viewData : PhotoComment.ViewData) :
    details (updates ++ [.comment viewData]) = details updates := by
  simp [details]

/-- Behind all updates the view model has the photo of the last detail update. -/
theorem photo_foldl (updates : List Update) :
    ((updates.map Update.command).foldl PhotoViewModel.executeCommand {}).photo =
      lastDetail updates := by
  induction updates using List.reverseRecOn with
  | nil => rfl
  | append_singleton updates update ih =>
    rw [List.map_append, List.foldl_append]
    cases update with
    | detail photo => simp [lastDetail, Update.command, PhotoViewModel.executeCommand]
    | comment viewData =>
      simp only [lastDetail, details_comment]
      exact ih

theorem viewModels_concat (updates : List Update) (update : Update) :
    ∃ v : PhotoViewModel, v.photo = lastDetail (updates ++ [update]) ∧
      viewModels (updates ++ [update]) = viewModels updates ++ [v] := by
  refine ⟨_, photo_foldl _, ?_⟩
  rw [viewModels, List.map_append, List.map_singleton, scanl_concat]
  rfl

-- ---------------------------------------------------------------------------
-- What the pipelines show
-- ---------------------------------------------------------------------------

theorem mem_details_of_lastDetail (h : lastDetail updates = some photo) :
    photo ∈ details updates :=
  List.mem_of_getLast? h

/-- A photo once set stays set, so the last state has the last photo. -/
theorem Android.getLast?_photos (updates : List Update) :
    (Android.photos updates).getLast? = lastDetail updates := by
  induction updates using List.reverseRecOn with
  | nil => rfl
  | append_singleton updates update ih =>
    obtain ⟨v, hphoto, hstates⟩ := viewModels_concat updates update
    have hadded : [v].filterMap (·.photo) = v.photo.toList := by cases hv : v.photo <;> simp [hv]
    rw [Android.photos, hstates, List.filterMap_append, ← Android.photos, List.getLast?_append, ih,
      hadded, hphoto]
    cases update with
    | detail photo => simp [lastDetail]
    | comment viewData =>
      simp only [lastDetail, details_comment]
      cases (details updates).getLast? <;> rfl

/-- The photos let through: the seed has none, and each update adds the photo
of the state it leads to, unless that is an error. -/
theorem Ios.photos_concat (updates : List Update) (update : Update) :
    Ios.photos (updates ++ [update]) =
      Ios.photos updates ++ ((lastDetail (updates ++ [update])).filter (!·.error)).toList := by
  obtain ⟨v, hphoto, hstates⟩ := viewModels_concat updates update
  have hne : viewModels updates ≠ [] := List.scanl_ne_nil
  rw [Ios.photos, Ios.validPhotoViewModel, Ios.viewModel, hstates, List.tail_append_of_ne_nil hne,
    List.filter_append, List.filterMap_append, ← hphoto]
  congr 1
  rw [List.filter_singleton]
  cases hv : v.photo with
  | none => rfl
  | some photo => cases he : photo.error <;> simp [hv, he, Option.filter]

theorem lastValid_eq (h : lastDetail updates = some photo) (he : photo.error = false) :
    lastValid updates = some photo := by
  obtain ⟨before, hdetails⟩ := List.getLast?_eq_some_iff.mp h
  rw [lastValid, hdetails, List.filter_append, List.filter_singleton, he]
  simp

theorem Ios.getLast?_photos (updates : List Update) :
    (Ios.photos updates).getLast? = lastValid updates := by
  induction updates using List.reverseRecOn with
  | nil => rfl
  | append_singleton updates update ih =>
    rw [Ios.photos_concat, List.getLast?_append, ih]
    cases update with
    | detail photo => cases he : photo.error <;> simp [lastDetail, lastValid, he, Option.filter]
    | comment viewData =>
      -- The state keeps its photo: a valid one is the last valid already.
      have hlast : lastDetail (updates ++ [.comment viewData]) = lastDetail updates := by
        simp [lastDetail]
      have hvalid : lastValid (updates ++ [.comment viewData]) = lastValid updates := by
        simp [lastValid]
      rw [hlast, hvalid]
      cases hd : lastDetail updates with
      | none => simp
      | some photo =>
        cases he : photo.error with
        | true => simp [Option.filter, he]
        | false => simp [Option.filter, he, lastValid_eq hd he]

theorem Ios.mem_photos (updates : List Update) :
    photo ∈ Ios.photos updates ↔ photo ∈ details updates ∧ photo.error = false := by
  induction updates using List.reverseRecOn with
  | nil => simp [Ios.photos, Ios.validPhotoViewModel, Ios.viewModel, viewModels, details]
  | append_singleton updates update ih =>
    have hnot : (!photo.error) = true ↔ photo.error = false := by simp
    rw [Ios.photos_concat, List.mem_append, ih, Option.mem_toList, Option.filter_eq_some_iff, hnot]
    cases update with
    | detail photo' =>
      rw [lastDetail, details_detail, List.getLast?_concat, Option.some.injEq, List.mem_append,
        List.mem_singleton, or_and_right, eq_comm (a := photo')]
    | comment viewData =>
      simp only [lastDetail, details_comment, or_iff_left_iff_imp]
      rintro ⟨hlast, he⟩
      exact ⟨List.mem_of_getLast? hlast, he⟩

-- ---------------------------------------------------------------------------
-- The last photo without error
-- ---------------------------------------------------------------------------

/-- Two photos that show the same. -/
structure Alike (photo photo' : PhotoDetail.ViewData) : Prop where
  imageUrl : photo.imageUrl = photo'.imageUrl
  ownerAvatarUrl : photo.ownerAvatarUrl = photo'.ownerAvatarUrl
  ownerName : photo.ownerName = photo'.ownerName
  numberOfView : photo.numberOfView = photo'.numberOfView
  numberOfComment : photo.numberOfComment = photo'.numberOfComment

theorem fieldsOf_some_inj :
    fieldsOf some (some photo) = fieldsOf some (some photo') ↔ Alike photo photo' := by
  simp only [fieldsOf, Option.bind_some, Option.map_some, Fields.mk.injEq, Option.some.injEq]
  constructor
  · rintro ⟨himage, havatar, hname, hview, hcomment⟩
    exact ⟨himage, havatar, hname, hview, hcomment⟩
  · intro h
    exact ⟨h.imageUrl, h.ownerAvatarUrl, h.ownerName, h.numberOfView, h.numberOfComment⟩

/-- No error comes last, or one that shows what the last photo showed. -/
def Unblanked (updates : List Update) : Prop :=
  ∀ photo ∈ lastDetail updates, photo.error = true → ∃ valid ∈ lastValid updates, Alike valid photo

theorem Android.fields_eq (updates : List Update) :
    Android.fields updates = fieldsOf some (lastDetail updates) := by
  have hbound (field : PhotoDetail.ViewData → Bytes) :
      bound (Android.photos updates) field = (lastDetail updates).map field := by
    rw [bound, List.getLast?_map, Android.getLast?_photos]
  simp only [Android.fields, fieldsOf, hbound]
  cases lastDetail updates <;> rfl

theorem Android.shows_iff (updates : List Update) :
    Android.fields updates = fieldsOf some (lastValid updates) ↔ Unblanked updates := by
  rw [Android.fields_eq, Unblanked]
  cases hd : lastDetail updates with
  | none =>
    have hnil : details updates = [] := List.getLast?_eq_none_iff.mp hd
    have hvalid : lastValid updates = none := by rw [lastValid, hnil]; rfl
    rw [hvalid]
    exact iff_of_true rfl (by simp)
  | some photo =>
    simp only [Option.mem_some_iff, forall_eq']
    cases he : photo.error with
    | false =>
      rw [lastValid_eq hd he]
      exact iff_of_true rfl (fun h => absurd h Bool.false_ne_true)
    | true =>
      simp only [forall_const]
      cases lastValid updates with
      | none => exact iff_of_false (fun h => by cases congrArg Fields.ownerName h) (by simp)
      | some valid =>
        rw [eq_comm, fieldsOf_some_inj]
        simp

section
variable [Foundation]

/-- The addresses of every photo without error are URLs. -/
def Loadable (updates : List Update) : Prop :=
  ∀ photo ∈ details updates, photo.error = false →
    (Foundation.url photo.imageUrl).isSome ∧ (Foundation.url photo.ownerAvatarUrl).isSome

instance (updates : List Update) : Decidable (Loadable updates) := List.decidableBAll _ _

theorem Ios.fields_eq (updates : List Update) :
    Ios.fields updates =
      if Loadable updates then some (fieldsOf Foundation.url (lastValid updates)) else none := by
  have hloadable : Loadable updates ↔
      (∀ photo ∈ Ios.photos updates, (Foundation.url photo.imageUrl).isSome) ∧
        ∀ photo ∈ Ios.photos updates, (Foundation.url photo.ownerAvatarUrl).isSome := by
    simp only [Loadable, Ios.mem_photos]
    constructor
    · intro h
      exact ⟨fun photo hp => (h photo hp.1 hp.2).1, fun photo hp => (h photo hp.1 hp.2).2⟩
    · rintro ⟨himage, havatar⟩ photo hmem he
      exact ⟨himage photo ⟨hmem, he⟩, havatar photo ⟨hmem, he⟩⟩
  have hbound (field : PhotoDetail.ViewData → Bytes) :
      bound (Ios.photos updates) field = (lastValid updates).map field := by
    rw [bound, List.getLast?_map, Ios.getLast?_photos]
  rw [Ios.fields, mapForced_eq, mapForced_eq]
  by_cases hl : Loadable updates
  · obtain ⟨himage, havatar⟩ := hloadable.mp hl
    rw [if_pos hl, if_pos himage, if_pos havatar]
    simp only [Option.bind_eq_bind, Option.bind_some, Option.pure_def,
      getLast?_filterMap_of_isSome himage, getLast?_filterMap_of_isSome havatar,
      Ios.getLast?_photos, hbound, fieldsOf]
  · rw [if_neg hl]
    rw [hloadable, not_and_or] at hl
    obtain hl | hl := hl
    · rw [if_neg hl]
      rfl
    · rw [if_neg hl]
      split <;> rfl

/-- The screens of both apps show the last photo without error. -/
def ShowsLastValid (updates : List Update) : Prop :=
  Android.fields updates = fieldsOf some (lastValid updates) ∧
    Ios.fields updates = some (fieldsOf Foundation.url (lastValid updates))

theorem Ios.shows_iff (updates : List Update) :
    Ios.fields updates = some (fieldsOf Foundation.url (lastValid updates)) ↔
      Loadable updates := by
  rw [Ios.fields_eq]
  split
  · rename_i h
    exact iff_of_true rfl h
  · rename_i h
    exact iff_of_false (by simp) h

theorem comment_fields (updates : List Update) (viewData : PhotoComment.ViewData) :
    Android.fields (updates ++ [.comment viewData]) = Android.fields updates ∧
      Ios.fields (updates ++ [.comment viewData]) = Ios.fields updates := by
  rw [Android.fields_eq, Android.fields_eq, Ios.fields_eq, Ios.fields_eq]
  simp only [lastDetail, lastValid, Loadable, details_comment, and_self]

theorem Ios.error_fields (updates : List Update) {photo : PhotoDetail.ViewData}
    (he : photo.error = true) :
    Ios.fields (updates ++ [.detail photo]) = Ios.fields updates := by
  have hvalid : lastValid (updates ++ [.detail photo]) = lastValid updates := by
    simp [lastValid, he]
  have hloadable : Loadable (updates ++ [.detail photo]) ↔ Loadable updates := by
    simp [Loadable, or_imp, forall_and, he]
  rw [Ios.fields_eq, Ios.fields_eq, hvalid]
  simp only [hloadable]

/-- Both screens show the last photo without error exactly if on Android no
error blanks it and on iOS every such photo can be loaded. Comments never
change what is shown, nor, on iOS, do errors. -/
theorem showsLastValid_iff (updates : List Update) :
    (ShowsLastValid updates ↔ Unblanked updates ∧ Loadable updates) ∧
      (∀ viewData, Android.fields (updates ++ [.comment viewData]) = Android.fields updates ∧
        Ios.fields (updates ++ [.comment viewData]) = Ios.fields updates) ∧
      ∀ photo, photo.error = true →
        Ios.fields (updates ++ [.detail photo]) = Ios.fields updates := by
  refine ⟨?_, comment_fields updates, fun photo he => Ios.error_fields updates he⟩
  rw [ShowsLastValid, Android.shows_iff, Ios.shows_iff]

end

section

/-- `URL(string:)` on text without characters that need an escape. -/
@[reducible] def plainUrls : Foundation where
  Url := Bytes
  url s := if s = [] then none else some s

attribute [local instance] plainUrls

def lake : PhotoDetail.ViewData where
  error := false
  message := lit "ok"
  id := lit "3"
  title := lit "lake"
  imageUrl := constructFlickrImageUrl 1 (lit "2") (lit "3") (lit "4")
  ownerName := lit "ann"
  ownerAvatarUrl := constructFlickrAvatarUrl 1 (lit "2") (lit "5")
  numberOfView := lit "7"
  numberOfComment := lit "1"

def offline : PhotoDetail.ViewData := PhotoDetail.failed (lit "3") []

theorem showsLastValid_lake :
    ShowsLastValid [.detail lake] ∧ Ios.fields [.detail lake, .detail offline] =
      Ios.fields [.detail lake] := by
  obtain ⟨hshows, -, herror⟩ := showsLastValid_iff [.detail lake]
  refine ⟨hshows.mpr ⟨?_, by decide +kernel⟩, herror offline rfl⟩
  rintro photo ⟨⟩ he
  exact absurd he Bool.false_ne_true

/-- The only request fails: the Android screen shows empty texts and zeros. -/
theorem not_showsLastValid : ¬ ∀ updates, ShowsLastValid updates := by
  intro h
  have hunset := (h [.detail offline]).1
  exact absurd hunset (by decide +kernel)

end

-- ---------------------------------------------------------------------------
-- Title and comments
-- ---------------------------------------------------------------------------

/-- The title of the navigation bar; the Android app shows the title it was
opened with. -/
def Ios.title (updates : List Update) : Option Bytes := bound (Ios.photos updates) (·.title)

def Android.comments (updates : List Update) : Option (List PhotoComment.DetailViewData) :=
  ((viewModels updates).map (·.comments)).getLast?

def Ios.comments (updates : List Update) : Option (List PhotoComment.DetailViewData) :=
  ((Ios.viewModel updates).map (·.comments)).getLast?

/-- The comments of the last comment update, none before the first. -/
def lastComments (updates : List Update) : List PhotoComment.DetailViewData :=
  updates.foldl (fun comments update =>
    match update with
    | .detail _ => comments
    | .comment viewData => viewData.comments) []

theorem Ios.title_eq (updates : List Update) :
    Ios.title updates = (lastValid updates).map (·.title) := by
  rw [Ios.title, bound, List.getLast?_map, Ios.getLast?_photos]

theorem comments_foldl (updates : List Update) :
    ((updates.map Update.command).foldl PhotoViewModel.executeCommand {}).comments =
      lastComments updates := by
  induction updates using List.reverseRecOn with
  | nil => rfl
  | append_singleton updates update ih =>
    rw [List.map_append, List.foldl_append, lastComments, List.foldl_append]
    cases update with
    | detail photo => exact ih
    | comment viewData => rfl

theorem Android.comments_eq (updates : List Update) :
    Android.comments updates = some (lastComments updates) := by
  rw [Android.comments, viewModels, List.getLast?_map, List.getLast?_scanl, Option.map_some,
    comments_foldl]

/-- Once something has arrived both apps show the same comments. -/
theorem Ios.comments_eq (updates : List Update) :
    Ios.comments updates = if updates = [] then none else Android.comments updates := by
  cases updates with
  | nil => rfl
  | cons update updates =>
    have hne : (updates.map Update.command).scanl PhotoViewModel.executeCommand
        (PhotoViewModel.executeCommand {} update.command) ≠ [] := List.scanl_ne_nil
    rw [if_neg (List.cons_ne_nil _ _), Ios.comments, Ios.viewModel, Android.comments, viewModels,
      List.map_cons, List.scanl_cons, List.tail_cons, List.map_cons, List.getLast?_cons]
    cases hl : ((updates.map Update.command).scanl PhotoViewModel.executeCommand
        (PhotoViewModel.executeCommand {} update.command)).map (·.comments) with
    | nil => exact absurd (List.map_eq_nil_iff.mp hl) hne
    | cons comments rest => rfl

-- ---------------------------------------------------------------------------
-- Merging
-- ---------------------------------------------------------------------------

def commentUpdates (updates : List Update) : List PhotoComment.ViewData :=
  updates.filterMap fun
    | .detail _ => none
    | .comment viewData => some viewData

theorem lastComments_eq (updates : List Update) :
    lastComments updates = ((commentUpdates updates).getLast?.map (·.comments)).getD [] := by
  induction updates using List.reverseRecOn with
  | nil => rfl
  | append_singleton updates update ih =>
    rw [lastComments, List.foldl_append]
    cases update with
    | detail photo => simpa [commentUpdates, lastComments] using ih
    | comment viewData => simp [commentUpdates]

theorem eq_nil_iff (updates : List Update) :
    updates = [] ↔ details updates = [] ∧ commentUpdates updates = [] := by
  cases updates with
  | nil => simp [details, commentUpdates]
  | cons update updates => cases update <;> simp [details, commentUpdates]

/-- However the updates of the two controllers are merged, both apps end up
showing the same. -/
theorem merged_same [Foundation] (updates updates' : List Update)
    (hdetails : details updates = details updates')
    (hcomments : commentUpdates updates = commentUpdates updates') :
    (Android.fields updates = Android.fields updates' ∧
        Android.comments updates = Android.comments updates') ∧
      Ios.fields updates = Ios.fields updates' ∧ Ios.title updates = Ios.title updates' ∧
        Ios.comments updates = Ios.comments updates' := by
  have hlast : lastDetail updates = lastDetail updates' := by rw [lastDetail, hdetails, lastDetail]
  have hvalid : lastValid updates = lastValid updates' := by rw [lastValid, hdetails, lastValid]
  have hloadable : Loadable updates ↔ Loadable updates' := by rw [Loadable, hdetails, Loadable]
  have hempty : updates = [] ↔ updates' = [] := by
    rw [eq_nil_iff, hdetails, hcomments, ← eq_nil_iff]
  have hshown : Android.comments updates = Android.comments updates' := by
    simp only [Android.comments_eq, lastComments_eq, hcomments]
  refine ⟨⟨?_, hshown⟩, ?_, ?_, ?_⟩
  · simp only [Android.fields_eq, hlast]
  · simp only [Ios.fields_eq, hloadable, hvalid]
  · simp only [Ios.title_eq, hvalid]
  · simp only [Ios.comments_eq, hempty, hshown]

section
attribute [local instance] plainUrls

/-- The comments come before the photo or behind it. -/
theorem merged_same_lake :
    Ios.fields [.detail lake, .comment ⟨false, lit "ok", []⟩] =
      Ios.fields [.comment ⟨false, lit "ok", []⟩, .detail lake] :=
  (merged_same [.detail lake, .comment ⟨false, lit "ok", []⟩]
    [.comment ⟨false, lit "ok", []⟩, .detail lake] rfl rfl).2.1

end

-- ---------------------------------------------------------------------------
-- Updates of the core
-- ---------------------------------------------------------------------------

/-- A failure shows an empty image, which no loaded photo has. -/
theorem not_alike_failed [Json11.Floats] (data id reason : Bytes) :
    ¬ Alike (PhotoDetail.loaded data) (PhotoDetail.failed id reason) := by
  intro h
  have himage := h.imageUrl
  simp [PhotoDetail.loaded, PhotoDetail.failed, constructFlickrImageUrl, lit] at himage

/-- Where every detail update is the result of a request, the Android app shows
the last photo without error exactly if the last request did not fail. -/
theorem Android.shows_results_iff [Json11.Floats] {updates : List Update}
    (h : ∀ photo ∈ details updates, ∃ t id, photo = PhotoDetail.result t id) :
    Android.fields updates = fieldsOf some (lastValid updates) ↔
      ∀ photo ∈ lastDetail updates, photo.error = false := by
  rw [Android.shows_iff]
  constructor
  · intro hkept photo hphoto
    cases he : photo.error with
    | false => rfl
    | true =>
      obtain ⟨valid, hvalid, halike⟩ := hkept photo hphoto he
      obtain ⟨hmem, hv⟩ := List.mem_filter.mp (List.mem_of_getLast? hvalid)
      obtain ⟨t, id, rfl⟩ := h photo (mem_details_of_lastDetail hphoto)
      obtain ⟨t', id', rfl⟩ := h valid hmem
      simp only [PhotoDetail.result] at he hv halike
      split at he
      · cases he
      · split at hv
        · rename_i ht ht'
          rw [if_pos ht', if_neg ht] at halike
          exact absurd halike (not_alike_failed _ _ _)
        · cases hv
  · intro hlast photo hphoto he
    rw [hlast photo hphoto] at he
    cases he

end Cookpit.PhotoView
