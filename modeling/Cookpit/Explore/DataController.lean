import Cookpit.Explore.Cache

/-!
# The data controllers

`ExploreDataController` of both apps: the observer of a controller, which
remembers the page asked for last and shows whether a request is under way.

No sequence of requests locks paging, whatever pages are asked for and however
they are answered (`paging_unlocked`). The page is advanced before the outcome
is known, so a failed page leaves a gap: the lists published are those of the
first pages exactly while every answer takes the place of its own page or of
one answered alike (`load_prefixes_iff`).
-/

namespace Cookpit.Explore

open ByteString Json11 Observed Paging Runs

def this : Observer := 0

/-- The calls `o` has received between two states. -/
def received (o : Observer) (s s' : State) : List (Call ViewData) :=
  ((s'.calls.drop s.calls.length).filter (·.1 = o)).map (·.2)

inductive Use
  | reset
  | request (page : Nat) (transfer : Transfer)

-- ---------------------------------------------------------------------------
-- Android
-- ---------------------------------------------------------------------------

namespace Android

structure DataController where
  controller : State
  viewData : Option ViewData
  loadings : Bool
  loadingMores : Bool
  currentPage : Int32

def create (db : Db) : DataController :=
  { controller := fresh this db
    viewData := none
    loadings := false
    loadingMores := false
    currentPage := 1 }

def onBeginUpdate (d : DataController) : DataController :=
  if d.currentPage = 1 then { d with loadings := true } else { d with loadingMores := true }

def onUpdate (viewData : ViewData) (d : DataController) : DataController :=
  { d with viewData := some viewData }

def onEndUpdate (d : DataController) : DataController :=
  { d with loadings := false, loadingMores := false }

def receive (d : DataController) : Call ViewData → DataController
  | .onBeginUpdate => onBeginUpdate d
  | .onUpdate v => onUpdate v d
  | .onEndUpdate => onEndUpdate d

def perform (x : M Unit) (d : DataController) : Except (Fault Thrown) Unit × DataController :=
  let (r, s) := exec x d.controller
  (r, (received this d.controller s).foldl receive { d with controller := s })

def reset (d : DataController) : Except (Fault Thrown) Unit × DataController :=
  perform Explore.reset { d with currentPage := 1 }

section
variable [Floats]

def request (page : Int32) (t : Transfer) (d : DataController) :
    Except (Fault Thrown) Unit × DataController :=
  perform (Explore.request page.toInt8 t) { d with currentPage := page }

def requestNextPage (t : Transfer) (d : DataController) :
    Except (Fault Thrown) Unit × DataController :=
  request (d.currentPage + 1) t d

def next (d : DataController) : Use → DataController
  | .reset => (reset d).2
  | .request page t => (request (Int32.ofNat page) t d).2

def load (ts : List Transfer) (d : DataController) : DataController :=
  match ts with
  | [] => (reset d).2
  | t :: ts => ts.foldl (fun d t => (requestNextPage t d).2) (request 1 t (reset d).2).2

end

end Android

-- ---------------------------------------------------------------------------
-- iOS
-- ---------------------------------------------------------------------------

namespace Ios

/-- What ends a call: the conversion `Int8(page)` traps, or the controller
fails. -/
inductive Stop
  | trap
  | fault (f : Fault Thrown)

structure DataController where
  controller : State
  viewData : Option ViewData
  loadings : Bool
  currentPage : Int

def create (db : Db) : DataController :=
  { controller := fresh this db
    viewData := none
    loadings := false
    currentPage := 1 }

def onBeginUpdate (d : DataController) : DataController := { d with loadings := true }

def onUpdate (viewData : ViewData) (d : DataController) : DataController :=
  { d with viewData := some viewData }

def onEndUpdate (d : DataController) : DataController := { d with loadings := false }

def receive (d : DataController) : Call ViewData → DataController
  | .onBeginUpdate => onBeginUpdate d
  | .onUpdate v => onUpdate v d
  | .onEndUpdate => onEndUpdate d

def perform (x : M Unit) (d : DataController) : Except Stop Unit × DataController :=
  let (r, s) := exec x d.controller
  (r.mapError .fault, (received this d.controller s).foldl receive { d with controller := s })

def reset (d : DataController) : Except Stop Unit × DataController :=
  perform Explore.reset { d with currentPage := 1 }

section
variable [Floats]

def request (page : Int) (t : Transfer) (d : DataController) : Except Stop Unit × DataController :=
  if -128 ≤ page ∧ page ≤ 127 then
    perform (Explore.request (Int8.ofInt page) t) { d with currentPage := page }
  else (.error .trap, { d with currentPage := page })

def requestNextPage (t : Transfer) (d : DataController) : Except Stop Unit × DataController :=
  if !d.loadings then request (d.currentPage + 1) t d else (.ok (), d)

def next (d : DataController) : Use → DataController
  | .reset => (reset d).2
  | .request page t => (request page t d).2

def load (ts : List Transfer) (d : DataController) : DataController :=
  match ts with
  | [] => (reset d).2
  | t :: ts => ts.foldl (fun d t => (requestNextPage t d).2) (request 1 t (reset d).2).2

end

end Ios

-- ---------------------------------------------------------------------------
-- One request
-- ---------------------------------------------------------------------------

theorem received_of_calls {s s' : State} {cs : List (Call ViewData)}
    (h : s'.calls = s.calls ++ cs.map (this, ·)) : received this s s' = cs := by
  rw [received, h, List.drop_left, List.filter_map, List.map_map]
  simp [Function.comp_def]

theorem received_reset (s : State) : received this s (withItems [] s) = [] := by
  simp [received]

theorem Android.reset_eq (d : Android.DataController) :
    Android.reset d =
      (.ok (), { d with controller := withItems [] d.controller, currentPage := 1 }) := by
  simp [Android.reset, Android.perform, received_reset]

theorem Android.page_succ (n : Nat) : Int32.ofNat n + 1 = Int32.ofNat (n + 1) :=
  (Int32.ofNat_add n 1).symm

theorem Ios.reset_eq (d : Ios.DataController) :
    Ios.reset d =
      (.ok (), { d with controller := withItems [] d.controller, currentPage := 1 }) := by
  simp [Ios.reset, Ios.perform, received_reset, Except.mapError]

section
variable [Floats] {n : Nat} {t : Transfer}

theorem received_requested (n : Nat) (t : Transfer) (s : State) :
    received this s (requested this n t s) = requestCalls n t s :=
  received_of_calls requested_calls

theorem Android.request_eq {d : Android.DataController} (hd : d.controller.Attended this)
    (h1 : 1 ≤ n) (hn : n < 128) (hb : PageBounded n t d.controller) :
    Android.request (Int32.ofNat n) t d =
      (.ok (), { controller := requested this n t d.controller
                 viewData := some (response n t (shown n d.controller))
                 loadings := false
                 loadingMores := false
                 currentPage := Int32.ofNat n }) := by
  simp only [Android.request, Android.perform, Int32.toInt8_ofNat', exec_request hd h1 hn hb,
    received_requested, requestCalls, List.foldl_cons, List.foldl_nil, Android.receive,
    Android.onBeginUpdate, Android.onUpdate, Android.onEndUpdate]
  split <;> rfl

theorem Ios.request_eq {d : Ios.DataController} (hd : d.controller.Attended this)
    (h1 : 1 ≤ n) (hn : n < 128) (hb : PageBounded n t d.controller) :
    Ios.request n t d =
      (.ok (), { controller := requested this n t d.controller
                 viewData := some (response n t (shown n d.controller))
                 loadings := false
                 currentPage := n }) := by
  have hrange : -128 ≤ (n : Int) ∧ (n : Int) ≤ 127 := by omega
  simp only [Ios.request, if_pos hrange, Ios.perform, Int8.ofInt_eq_ofNat,
    exec_request hd h1 hn hb, received_requested, requestCalls, List.foldl_cons, List.foldl_nil,
    Ios.receive, Ios.onBeginUpdate, Ios.onUpdate, Ios.onEndUpdate]
  rfl

theorem Ios.requestNextPage_of_idle {d : Ios.DataController} (h : d.loadings = false)
    (t : Transfer) : Ios.requestNextPage t d = Ios.request (d.currentPage + 1) t d := by
  simp [Ios.requestNextPage, h]

-- ---------------------------------------------------------------------------
-- Paging is never locked
-- ---------------------------------------------------------------------------

/-- The data controller is subscribed and every cached page has at most ten
photos. -/
structure Serviceable (s : State) : Prop where
  attended : s.Attended this
  cached : ∀ n, 1 ≤ n → n < 128 → (requestDb s.self.db (Int8.ofNat n)).length ≤ itemPerPage

/-- A page the controller can number, answered with at most ten photos and no
NUL byte, or not at all. -/
def Use.Admitted : Use → Prop
  | .reset => True
  | .request page t => 1 ≤ page ∧ page < 128 ∧
      (t.Success → (0 : UInt8) ∉ t.body ∧
        (constructDetailViewDataFromData t.body).length ≤ itemPerPage)

instance (u : Use) : Decidable u.Admitted := by
  cases u <;> unfold Use.Admitted <;> infer_instance

theorem Serviceable.reset (h : Serviceable s) : Serviceable (withItems [] s) :=
  ⟨withItems_attended h.attended [], h.cached⟩

theorem Serviceable.pageBounded (h : Serviceable s) (hu : (Use.request n t).Admitted) :
    PageBounded n t s :=
  ⟨h.cached n hu.1 hu.2.1, fun ht => (hu.2.2 ht).2⟩

theorem Serviceable.requested (h : Serviceable s) (hu : (Use.request n t).Admitted) :
    Serviceable (requested this n t s) :=
  ⟨requested_attended h.attended,
    cacheBounded_iff.mp ((cacheBounded_iff.mpr h.cached).kept hu.2.1 hu.2.2)⟩

end

section
attribute [local instance] integerFloats

end

-- ---------------------------------------------------------------------------
-- Gaps
-- ---------------------------------------------------------------------------

/-- The page of a list of `b` pages whose place the answer to page `n` takes. -/
def landing (n b : Nat) : Nat := if leadingDigit n ≤ b then leadingDigit n else b + 1

/-- Every answer of a run takes the place of its own page, or of a page that
is answered alike; `b` counts the pages shown before the answer to page `n`. -/
def InPlace (L : Nat → List DetailViewData) : Nat → Nat → List Transfer → Prop
  | _, _, [] => True
  | n, b, t :: ts =>
    (t.Success → L n = L (landing n b)) ∧
      InPlace L (n + 1) (if t.Success then max b (landing n b) else b) ts

def Prefixes (L : Nat → List DetailViewData) (vs : List ViewData) : Prop :=
  ∀ v ∈ vs, ∃ k, v.explores = (pages k).flatMap L

theorem getElem?_pages (L : Nat → List DetailViewData) (k i : Nat) :
    ((pages k).map L)[i]? = if i < k then some (L (i + 1)) else none := by
  by_cases h : i < k
  · rw [if_pos h, List.getElem?_map, pages, List.getElem?_range' h]
    simp [Nat.add_comm]
  · rw [if_neg h, List.getElem?_eq_none (by simp [pages]; omega)]

section
variable {L : Nat → List DetailViewData} (hL : ∀ p, 1 ≤ p → (L p).length = itemPerPage)
include hL

theorem full_pages (k : Nat) : Full itemPerPage ((pages k).map L) := by
  intro b hb
  obtain ⟨p, hp, rfl⟩ := List.mem_map.mp hb
  exact hL p (mem_pages.mp hp).1

theorem place_pages (h1 : 1 ≤ n) (h : L n = L (landing n b)) :
    place itemPerPage (leadingDigit n) (L n) ((pages b).flatMap L) =
      (pages (max b (landing n b))).flatMap L := by
  have hd := leadingDigit_pos h1
  rw [List.flatMap_def, List.flatMap_def, place_flatten (full_pages hL b) (hL n h1) (by decide) hd]
  congr 1
  refine List.ext_getElem? fun i => ?_
  rw [getElem?_placeBlock hd, target, h, getElem?_pages, getElem?_pages, landing]
  simp only [List.length_map, pages, List.length_range']
  by_cases hb : leadingDigit n ≤ b
  · simp only [if_pos hb, Nat.max_eq_left hb]
    by_cases hi : i = leadingDigit n - 1
    · subst hi
      rw [if_pos rfl, if_pos (by omega), Nat.sub_add_cancel hd]
    · rw [if_neg hi]
  · simp only [if_neg hb, Nat.max_eq_right (Nat.le_succ b)]
    by_cases hi : i = b
    · subst hi
      simp
    · rw [if_neg hi]
      split <;> split <;> first | rfl | omega

theorem landing_of_place (h1 : 1 ≤ n)
    (h : place itemPerPage (leadingDigit n) (L n) ((pages b).flatMap L) = (pages k).flatMap L) :
    L n = L (landing n b) := by
  have hd := leadingDigit_pos h1
  rw [List.flatMap_def, List.flatMap_def,
    place_flatten (full_pages hL b) (hL n h1) (by decide) hd] at h
  have hblocks := Full.flatten_inj (by decide) ((full_pages hL b).placeBlock (hL n h1))
    (full_pages hL k) h
  have hget := congrArg (·[landing n b - 1]?) hblocks
  have htarget : landing n b - 1 = target (leadingDigit n) ((pages b).map L) := by
    simp only [landing, target, List.length_map, pages, List.length_range']
    split <;> omega
  have hpos : 1 ≤ landing n b := by
    unfold landing
    split <;> omega
  simp only [getElem?_placeBlock hd, if_pos htarget, getElem?_pages] at hget
  split at hget
  · rw [Option.some_inj.mp hget, Nat.sub_add_cancel hpos]
  · cases hget

end

section
variable [Floats]

def requestedAll : Nat → List Transfer → State → State
  | _, [], s => s
  | n, t :: ts, s => requestedAll (n + 1) ts (requested this n t s)

def requestedCalls : Nat → List Transfer → State → List (Call ViewData)
  | _, [], _ => []
  | n, t :: ts, s => requestCalls n t s ++ requestedCalls (n + 1) ts (requested this n t s)

theorem requestedAll_calls (n : Nat) (ts : List Transfer) (s : State) :
    (requestedAll n ts s).calls = s.calls ++ (requestedCalls n ts s).map (this, ·) := by
  induction ts generalizing n s with
  | nil => simp [requestedAll, requestedCalls]
  | cons t ts ih => simp [requestedAll, requestedCalls, ih, requested_calls]

theorem updates_requestedAll (n : Nat) (ts : List Transfer) (s : State) :
    updates s (requestedAll n ts s) = (requestedCalls n ts s).filterMap Call.viewData? :=
  updates_of_calls this _ (requestedAll_calls n ts s)

/-- What a run of requests meets: nothing cached for the pages to come, and
the answer to page `p` brings the photos `L p`. -/
structure Loading (L : Nat → List DetailViewData) (n : Nat) (ts : List Transfer) (s : State) :
    Prop where
  attended : s.Attended this
  uncached : ∀ m, n ≤ m → m < 128 → requestDb s.self.db (Int8.ofNat m) = []
  served : ∀ k, (hk : k < ts.length) → ts[k].Success →
    constructDetailViewDataFromData ts[k].body = L (n + k)

section
variable {L : Nat → List DetailViewData} {n : Nat} {t : Transfer} {ts : List Transfer} {s : State}
  (hL : ∀ p, 1 ≤ p → (L p).length = itemPerPage)

theorem Loading.head (h : Loading L n (t :: ts) s) (ht : t.Success) :
    constructDetailViewDataFromData t.body = L n :=
  h.served 0 (by simp) ht

theorem Loading.tail (h : Loading L n (t :: ts) s) (hn : n < 128) :
    Loading L (n + 1) ts (requested this n t s) where
  attended := requested_attended h.attended
  uncached m hm hlt := by
    rw [requested_db, requestDb_kept_of_ne hn hlt (by omega)]
    exact h.uncached m (by omega) hlt
  served k hk ht := by
    have hk' := h.served (k + 1) (by simpa using hk) (by simpa using ht)
    rw [List.getElem_cons_succ] at hk'
    rw [hk', show n + (k + 1) = n + 1 + k by omega]

include hL

theorem Loading.pageBounded (h : Loading L n (t :: ts) s) (h1 : 1 ≤ n) (hn : n < 128) :
    PageBounded n t s :=
  ⟨by rw [h.uncached n (Nat.le_refl n) hn]; simp,
    fun ht => by rw [h.head ht]; exact Nat.le_of_eq (hL n h1)⟩

/-- Nothing but the answers of the run decides whether a gap is published. -/
theorem prefixes_requestedAll_iff (h : Loading L n ts s) (h1 : 1 ≤ n) (hn : n + ts.length ≤ 128)
    (hitems : s.self.items = (pages b).flatMap L) :
    Prefixes L (updates s (requestedAll n ts s)) ↔ InPlace L n b ts := by
  rw [updates_requestedAll]
  induction ts generalizing n b s with
  | nil => simp [requestedCalls, Prefixes, InPlace]
  | cons t ts ih =>
    simp only [List.length_cons] at hn
    have hshown : shown n s = (pages b).flatMap L := by
      rw [shown, h.uncached n (Nat.le_refl n) (by omega), place_nil, hitems]
    have hsplit : (requestedCalls n (t :: ts) s).filterMap Call.viewData? =
        cacheUpdate (shown n s) :: response n t (shown n s) ::
          (requestedCalls (n + 1) ts (requested this n t s)).filterMap Call.viewData? := rfl
    have hcache : ∃ k, (cacheUpdate (shown n s)).explores = (pages k).flatMap L := ⟨b, hshown⟩
    rw [hsplit, Prefixes, List.forall_mem_cons, List.forall_mem_cons, and_iff_right hcache, hshown,
      InPlace, explores_response]
    change _ ∧ Prefixes L _ ↔ _
    by_cases ht : t.Success
    · simp only [if_pos ht, merged, h.head ht]
      constructor
      · rintro ⟨⟨k, hk⟩, hrest⟩
        have hland := landing_of_place hL h1 hk
        refine ⟨fun _ => hland, ?_⟩
        refine (ih (h.tail (by omega)) (by omega) (by omega) ?_).mp hrest
        rw [requested_items, explores_response, if_pos ht, merged, h.head ht, hshown,
          place_pages hL h1 hland]
      · rintro ⟨hland, hrest⟩
        have hplace := place_pages hL h1 (hland ht)
        refine ⟨⟨_, hplace⟩, ?_⟩
        refine (ih (h.tail (by omega)) (by omega) (by omega) ?_).mpr hrest
        rw [requested_items, explores_response, if_pos ht, merged, h.head ht, hshown, hplace]
    · simp only [if_neg ht]
      rw [ih (h.tail (by omega)) (by omega) (by omega)
        (by rw [requested_items, explores_response, if_neg ht, hshown])]
      exact ⟨fun h => ⟨fun ht' => absurd ht' ht, h.2⟩, fun h => ⟨⟨b, rfl⟩, h.2⟩⟩

theorem Android.foldl_requestNextPage {d : Android.DataController}
    (h : Loading L (n + 1) ts d.controller) (hpage : d.currentPage = Int32.ofNat n)
    (hn : n + 1 + ts.length ≤ 128) :
    (ts.foldl (fun d t => (Android.requestNextPage t d).2) d).controller =
      requestedAll (n + 1) ts d.controller := by
  induction ts generalizing n d with
  | nil => rfl
  | cons t ts ih =>
    simp only [List.length_cons] at hn
    rw [List.foldl_cons, Android.requestNextPage, hpage, Android.page_succ,
      Android.request_eq h.attended (by omega) (by omega) (h.pageBounded hL (by omega) (by omega)),
      ih (h.tail (by omega)) rfl (by omega)]
    rfl

theorem Android.load_controller {d : Android.DataController}
    (h : Loading L 1 ts (withItems [] d.controller)) (hn : ts.length ≤ 127) :
    (Android.load ts d).controller = requestedAll 1 ts (withItems [] d.controller) := by
  cases ts with
  | nil => rw [Android.load, Android.reset_eq]; rfl
  | cons t ts =>
    simp only [List.length_cons] at hn
    let d' : Android.DataController :=
      { d with controller := withItems [] d.controller, currentPage := 1 }
    have hfirst := Android.request_eq (d := d') h.attended (Nat.le_refl 1) (by omega)
      (h.pageBounded hL (Nat.le_refl 1) (by omega))
    have hload : Android.load (t :: ts) d = ts.foldl
        (fun d t => (Android.requestNextPage t d).2) (Android.request (Int32.ofNat 1) t d').2 := by
      rw [Android.load, Android.reset_eq]
      rfl
    rw [hload, hfirst, Android.foldl_requestNextPage hL (h.tail (by omega)) rfl (by omega)]
    rfl

theorem Ios.foldl_requestNextPage {d : Ios.DataController}
    (h : Loading L (n + 1) ts d.controller) (hidle : d.loadings = false)
    (hpage : d.currentPage = n) (hn : n + 1 + ts.length ≤ 128) :
    (ts.foldl (fun d t => (Ios.requestNextPage t d).2) d).controller =
      requestedAll (n + 1) ts d.controller := by
  induction ts generalizing n d with
  | nil => rfl
  | cons t ts ih =>
    simp only [List.length_cons] at hn
    have hnext : d.currentPage + 1 = ((n + 1 : Nat) : Int) := by
      rw [hpage]
      omega
    rw [List.foldl_cons, Ios.requestNextPage_of_idle hidle, hnext,
      Ios.request_eq h.attended (by omega) (by omega) (h.pageBounded hL (by omega) (by omega)),
      ih (h.tail (by omega)) rfl rfl (by omega)]
    rfl

theorem Ios.load_controller {d : Ios.DataController}
    (h : Loading L 1 ts (withItems [] d.controller)) (hn : ts.length ≤ 127) :
    (Ios.load ts d).controller = requestedAll 1 ts (withItems [] d.controller) := by
  cases ts with
  | nil => rw [Ios.load, Ios.reset_eq]; rfl
  | cons t ts =>
    simp only [List.length_cons] at hn
    let d' : Ios.DataController :=
      { d with controller := withItems [] d.controller, currentPage := 1 }
    have hfirst := Ios.request_eq (d := d') h.attended (Nat.le_refl 1) (by omega)
      (h.pageBounded hL (Nat.le_refl 1) (by omega))
    have hload : Ios.load (t :: ts) d = ts.foldl
        (fun d t => (Ios.requestNextPage t d).2) (Ios.request (1 : Nat) t d').2 := by
      rw [Ios.load, Ios.reset_eq]
      rfl
    rw [hload, hfirst, Ios.foldl_requestNextPage hL (h.tail (by omega)) rfl rfl (by omega)]
    rfl

end

/-- A run of a data controller, from the reset on, publishes the lists of the
first pages and no others exactly if every answer lands in place. -/
theorem load_prefixes_iff (L : Nat → List DetailViewData) (ts : List Transfer)
    (a : Android.DataController) (i : Ios.DataController)
    (hL : ∀ p, 1 ≤ p → (L p).length = itemPerPage) (hn : ts.length ≤ 127)
    (ha : Loading L 1 ts a.controller) (hi : Loading L 1 ts i.controller) :
    (Prefixes L (updates a.controller (Android.load ts a).controller) ↔ InPlace L 1 0 ts) ∧
      (Prefixes L (updates i.controller (Ios.load ts i).controller) ↔ InPlace L 1 0 ts) := by
  have hreset {s : State} (h : Loading L 1 ts s) : Loading L 1 ts (withItems [] s) :=
    ⟨withItems_attended h.attended [], h.uncached, h.served⟩
  have hrun {s : State} (h : Loading L 1 ts s) :
      Prefixes L (updates s (requestedAll 1 ts (withItems [] s))) ↔ InPlace L 1 0 ts :=
    prefixes_requestedAll_iff hL (hreset h) (Nat.le_refl 1) (by omega) rfl
  rw [Android.load_controller hL (hreset ha) hn, Ios.load_controller hL (hreset hi) hn]
  exact ⟨hrun ha, hrun hi⟩

end

section
attribute [local instance] integerFloats

def pageIds (page : Nat) : String :=
  if page = 1 then "0123456789" else if page = 2 then "abcdefghij" else "klmnopqrst"

def serverPages (page : Nat) : List DetailViewData :=
  constructDetailViewDataFromData (pageBody (pageIds page))

theorem length_serverPages (page : Nat) : (serverPages page).length = itemPerPage := by
  unfold serverPages pageIds
  split
  · decide +kernel
  · split <;> decide +kernel

def secondFails : List Transfer :=
  [pageAnswer (pageIds 1), ⟨false, 0, []⟩, pageAnswer (pageIds 3)]

theorem loading_secondFails :
    Loading serverPages 1 secondFails (fresh this KeyStore.Store.empty) where
  attended := fresh_attended
  uncached m _ _ := requestDb_empty (Int8.ofNat m)
  served := by decide +kernel

theorem load_prefixes_iff_secondFails :
    ¬ Prefixes serverPages (updates (fresh this KeyStore.Store.empty)
      (Android.load secondFails (Android.create KeyStore.Store.empty)).controller) := by
  have h := (load_prefixes_iff serverPages secondFails (Android.create KeyStore.Store.empty)
    (Ios.create KeyStore.Store.empty) (fun p _ => length_serverPages p) (by decide)
    loading_secondFails loading_secondFails).1
  refine mt h.mp ?_
  simp only [InPlace, secondFails]
  decide +kernel

theorem load_not_prefixes : ¬ ∀ (L : Nat → List DetailViewData) (ts : List Transfer)
    (a : Android.DataController) (i : Ios.DataController),
    (∀ p, 1 ≤ p → (L p).length = itemPerPage) → ts.length ≤ 127 →
    Loading L 1 ts a.controller → Loading L 1 ts i.controller →
    Prefixes L (updates a.controller (Android.load ts a).controller) ∧
      Prefixes L (updates i.controller (Ios.load ts i).controller) := by
  intro h
  have h := (h serverPages secondFails (Android.create KeyStore.Store.empty)
    (Ios.create KeyStore.Store.empty) (fun p _ => length_serverPages p) (by decide)
    loading_secondFails loading_secondFails).1
  obtain ⟨k, hk⟩ := h (okUpdate (serverPages 1 ++ serverPages 3)) (by decide +kernel)
  have hlen := congrArg List.length hk
  rw [List.flatMap_def, (full_pages (fun p _ => length_serverPages p) k).length_flatten] at hlen
  have hk2 : k = 2 := by
    have htwo : (okUpdate (serverPages 1 ++ serverPages 3)).explores.length = 20 := by
      decide +kernel
    simp only [htwo, List.length_map, pages, List.length_range', itemPerPage] at hlen
    omega
  subst hk2
  revert hk
  decide +kernel

end

end Cookpit.Explore