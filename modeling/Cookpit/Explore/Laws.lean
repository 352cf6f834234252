import Cookpit.Explore.Controller

/-!
# What one step of the explore controller does

The page an answer is merged under is the leading decimal digit of the page
that was asked for (`pageOfUrl_constructUrl`), different pages are cached under
different keys (`constructUrl_inj`), and the merge of the source is
`Paging.place` wherever it stays inside the list (`mergePage_eq`). On these
rest the effects of `start` and `answer` with an observer that stays.
-/

namespace Cookpit.Explore

open ByteString Json11 Observed Paging

-- ---------------------------------------------------------------------------
-- The address of a page
-- ---------------------------------------------------------------------------

def urlHead : Bytes :=
  baseUrl ++ lit "?" ++ convertToQueryParamString
    [(methodKey, interestingnessGetList), (apiKey, apiKeyValue), (formatKey, jsonFormat),
      (noJsonCallback, lit "1")] ++ pageKey ++ lit "="

def urlTail : Bytes :=
  lit "&" ++ convertToQueryParamString [(perPage, intToString itemPerPage)]

theorem constructUrl_eq (page : Int8) :
    constructUrl baseUrl page = urlHead ++ (intToString page.toInt ++ urlTail) := by
  simp [constructUrl, urlHead, urlTail, convertToQueryParamString, List.append_assoc]

/-- The first `page=` of the address is the parameter's: `per_page=` follows
it. -/
theorem find_page : find (lit "page=") urlHead = some (urlHead.length - 5) := by decide +kernel

theorem constructUrl_inj (h : constructUrl baseUrl p = constructUrl baseUrl q) : p = q := by
  rw [constructUrl_eq, constructUrl_eq] at h
  have h := List.append_cancel_right (List.append_cancel_left h)
  exact Int8.toInt_inj.mp (intToString_inj h)

theorem cStr_constructUrl (page : Int8) :
    cStr (constructUrl baseUrl page) = constructUrl baseUrl page := by
  apply cStr_eq_self
  rw [constructUrl_eq]
  intro h
  obtain h | h := List.mem_append.mp h
  · exact absurd h (by decide +kernel)
  · obtain h | h := List.mem_append.mp h
    · exact absurd (mem_intToString h) (by decide)
    · exact absurd h (by decide +kernel)

/-- The leading decimal digit of a page an `int8_t` can hold. -/
def leadingDigit (page : Nat) : Nat :=
  if page < 10 then page else if page < 100 then page / 10 else page / 100

theorem stoi_leadingDigit : ∀ n < 128, 0 < n →
    stoi ((natToString n).take 1) = .ok (leadingDigit n : Int) := by
  decide +kernel

theorem leadingDigit_pos (h : 0 < n) : 1 ≤ leadingDigit n := by
  unfold leadingDigit
  split
  · exact h
  · split <;> omega

theorem leadingDigit_le (h : n < 128) : leadingDigit n ≤ 9 := by
  unfold leadingDigit
  split
  · omega
  · split <;> omega

theorem leadingDigit_le_self (n : Nat) : leadingDigit n ≤ n := by
  unfold leadingDigit
  split
  · exact Nat.le_refl n
  · split <;> exact Nat.div_le_self _ _

theorem leadingDigit_of_lt (h : n < 10) : leadingDigit n = n := if_pos h

/-- `on_success` takes one character of the address, the first the page was
written with. -/
theorem pageOfUrl_eq (page : Int8) :
    pageOfUrl (constructUrl baseUrl page) = stoi ((intToString page.toInt).take 1) := by
  have hfind : find (lit "page=") (constructUrl baseUrl page) = some (urlHead.length - 5) := by
    rw [constructUrl_eq]
    exact find_append _ find_page
  have hlen : urlHead.length - 5 + 5 = urlHead.length := by decide +kernel
  have hne : intToString page.toInt ≠ [] := by
    cases page.toInt with
    | ofNat n => simp [intToString, natToString, Nat.toDigits_ne_nil]
    | negSucc n => simp [intToString]
  have htake : (intToString page.toInt ++ urlTail).take 1 = (intToString page.toInt).take 1 :=
    List.take_append_of_le_length (List.length_pos_iff.mpr hne)
  rw [pageOfUrl, hfind]
  simp only [hlen]
  rw [constructUrl_eq, substr_append, htake]
  rfl

theorem pageOfUrl_constructUrl (n : Nat) (h0 : 0 < n) (h : n < 128) :
    pageOfUrl (constructUrl baseUrl (Int8.ofNat n)) = .ok (leadingDigit n : Int) := by
  rw [pageOfUrl_eq, Int8.toInt_ofNat_of_lt h]
  exact stoi_leadingDigit n h h0

theorem pageOfUrl_negative {page : Int8} (h : page.toInt < 0) :
    pageOfUrl (constructUrl baseUrl page) = .error .invalidArgument := by
  rw [pageOfUrl_eq]
  cases hp : page.toInt with
  | ofNat n => rw [hp] at h; exact absurd h (by simp)
  | negSucc n => rfl

-- ---------------------------------------------------------------------------
-- The merge
-- ---------------------------------------------------------------------------

/-- `count` photos for `page` do not run over the end of a list of `length`. -/
def Fits (page count length : Nat) : Prop :=
  page * itemPerPage ≤ length → (page - 1) * itemPerPage + count ≤ length

instance (page count length : Nat) : Decidable (Fits page count length) := by
  unfold Fits
  infer_instance

theorem fits_of_length_le (h1 : 1 ≤ page) (h : count ≤ itemPerPage) : Fits page count length :=
  fun hc => slot_fits h1 h hc

theorem mergePage_eq_of_size (page : Nat) (h1 : 1 ≤ page) (h : page * itemPerPage < UInt64.size)
    (data items : List DetailViewData) :
    mergePage page data items =
      if Fits page data.length items.length then .ok (place itemPerPage page data items)
      else .error .outOfBounds := by
  have hsize : sizeT ((page : Int) * (itemPerPage : Nat)) = page * itemPerPage := by
    have hlt : ((page * itemPerPage : Nat) : Int) < UInt64.size := Int.ofNat_lt.mpr h
    rw [sizeT, ← Int.natCast_mul, Int.emod_eq_of_lt (Int.natCast_nonneg _) hlt, Int.toNat_natCast]
  have hstart : ((page : Int) - 1) * (itemPerPage : Nat) =
      (((page - 1) * itemPerPage : Nat) : Int) := by
    simp only [itemPerPage]
    omega
  rw [mergePage, hsize, hstart, copyTo_eq]
  unfold place
  by_cases hc : page * itemPerPage ≤ items.length
  · rw [if_pos hc, if_pos hc]
    by_cases hf : (page - 1) * itemPerPage + data.length ≤ items.length
    · have hfit : Fits page data.length items.length := fun _ => hf
      rw [if_pos (.inr hf), if_pos hfit]
    · have hd : data ≠ [] := by
        rintro rfl
        simp only [itemPerPage, List.length_nil] at hc hf
        omega
      have hfit : ¬ Fits page data.length items.length := fun hfit => hf (hfit hc)
      rw [if_neg (by simp [hd, hf]), if_neg hfit]
  · have hfit : Fits page data.length items.length := fun h => absurd h hc
    rw [if_neg hc, if_neg hc, if_pos hfit]

theorem mergePage_eq (page : Nat) (h1 : 1 ≤ page) (h : page < 128)
    (data items : List DetailViewData) :
    mergePage page data items =
      if Fits page data.length items.length then .ok (place itemPerPage page data items)
      else .error .outOfBounds := by
  refine mergePage_eq_of_size page h1 ?_ data items
  simp only [itemPerPage, UInt64.size]
  omega

theorem mergePage_error {page : Int} (h : mergePage page data items = .error e) :
    e = .outOfBounds := by
  rw [mergePage] at h
  split at h
  · split at h
    · cases h
    · cases h
      rfl
  · cases h

theorem mergePage_of_length_le (page : Nat) (h1 : 1 ≤ page) (h : page < 128)
    (hd : data.length ≤ itemPerPage) (items : List DetailViewData) :
    mergePage page data items = .ok (place itemPerPage page data items) := by
  rw [mergePage_eq page h1 h, if_pos (fits_of_length_le h1 hd)]

-- ---------------------------------------------------------------------------
-- The cache
-- ---------------------------------------------------------------------------

section
variable [Floats]

theorem scan_eq (url : Bytes) (entries : List (Bytes × Bytes)) :
    scan url entries =
      ((KeyStore.lookup url entries).map constructDetailViewDataFromData).getD [] := by
  induction entries with
  | nil => rfl
  | cons entry rest ih =>
    obtain ⟨key, value⟩ := entry
    simp only [scan, KeyStore.lookup]
    split
    · rfl
    · exact ih

theorem requestDb_eq (db : Db) (page : Int8) :
    requestDb db page =
      ((db.get (constructUrl baseUrl page)).map constructDetailViewDataFromData).getD [] :=
  scan_eq _ _

@[simp] theorem requestDb_empty (page : Int8) : requestDb KeyStore.Store.empty page = [] := rfl

def saved (db : Db) (page : Int8) (data : Bytes) : Db :=
  db.put (constructUrl baseUrl page) (cStr data)

theorem requestDb_saved (db : Db) (page q : Int8) (data : Bytes) :
    requestDb (saved db page data) q =
      if page = q then constructDetailViewDataFromData (cStr data) else requestDb db q := by
  rw [requestDb_eq, saved, KeyStore.Store.get_put]
  by_cases h : page = q
  · subst h
    rw [if_pos rfl, if_pos rfl]
    rfl
  · rw [if_neg (fun hu => h (constructUrl_inj hu)), if_neg h, requestDb_eq]

end

-- ---------------------------------------------------------------------------
-- The steps
-- ---------------------------------------------------------------------------

theorem exists_page (h : 0 < page.toInt) : ∃ n, 0 < n ∧ n < 128 ∧ page = Int8.ofNat n := by
  have hlt : page.toInt < 2 ^ 7 := Int8.toInt_lt page
  refine ⟨page.toInt.toNat, by omega, by omega, ?_⟩
  rw [← Int8.toInt_inj, Int8.toInt_ofNat_of_lt (by omega)]
  omega

def pages (n : Nat) : List Nat := List.range' 1 n

theorem mem_pages : p ∈ pages n ↔ 1 ≤ p ∧ p ≤ n := by
  rw [pages, List.mem_range'_1]
  omega

theorem pages_succ (n : Nat) : pages (n + 1) = pages n ++ [n + 1] := by
  rw [pages, pages, List.range'_concat, Nat.one_mul, Nat.add_comm 1 n]

def withItems (items : List DetailViewData) (s : State) : State :=
  { s with self := { s.self with items } }

@[simp] theorem withItems_items (items) (s : State) : (withItems items s).self.items = items := rfl
@[simp] theorem withItems_db (items) (s : State) : (withItems items s).self.db = s.self.db := rfl
@[simp] theorem withItems_observer (items) (s : State) :
    (withItems items s).observer = s.observer := rfl
@[simp] theorem withItems_calls (items) (s : State) : (withItems items s).calls = s.calls := rfl

@[simp] theorem withItems_heard (items) (s : State) :
    withItems items (s.heard o cs) = (withItems items s).heard o cs := rfl

theorem withItems_attended {s : State} (h : s.Attended o) (items) :
    (withItems items s).Attended o :=
  ⟨h.observer, h.quiet⟩

def withDb (db : Db) (s : State) : State := { s with self := { s.self with db } }

@[simp] theorem exec_reset (s : State) : exec reset s = (.ok (), withItems [] s) := rfl

theorem exec_mergeItems (page : Int) (data : List DetailViewData) (s : State) :
    exec (mergeItems page data) s =
      match mergePage page data s.self.items with
      | .ok items => (.ok (), withItems items s)
      | .error e => (.error e, s) := by
  rw [mergeItems, exec_bind]
  simp only [exec_get, exec_bind, exec_attempt]
  cases mergePage page data s.self.items <;> rfl

def cacheUpdate (items : List DetailViewData) : ViewData := ⟨false, lit "cache", items⟩

def okUpdate (items : List DetailViewData) : ViewData := ⟨false, lit "ok", items⟩

def errorUpdate (reason : Bytes) (items : List DetailViewData) : ViewData :=
  ⟨true, failureMessage reason, items⟩

-- ---------------------------------------------------------------------------
-- Any observer
-- ---------------------------------------------------------------------------

theorem exec_publish_save (v : ViewData) (url data : Bytes) (s : State) :
    (exec (do publish v; save url data : M Unit) s).1 =
      if s.LeavesAt v then .error .nullObserver else .ok () := by
  have hres : (exec (publish v : M Unit) s).1 =
      if s.LeavesAt v then .error .nullObserver else .ok () := (exec_publish_result v s).1
  rw [exec_bind]
  cases hp : exec (publish v : M Unit) s with
  | mk r s' =>
    rw [hp] at hres
    simp only at hres
    rw [← hres]
    cases r <;> rfl

section
variable [Floats] {s : State}

theorem exec_start_none (h : s.observer = none) (page : Int8) :
    exec (start page) s = (.error .nullObserver, s) := by
  rw [start, exec_bind, exec_notify_none h]

/-- The merge of the cached page comes after `on_begin_update`, whatever the
observer did there. -/
theorem exec_start_some (h : s.observer = some o) (page : Int8) :
    exec (start page) s =
      match mergePage page.toInt (requestDb s.self.db page) s.self.items with
      | .ok items => exec (notify (.onUpdate (cacheUpdate items)))
          (withItems items (s.notified o .onBeginUpdate))
      | .error e => (.error e, s.notified o .onBeginUpdate) := by
  rw [start, exec_bind, exec_notify_some h]
  simp only [exec_bind, exec_get, State.notified_self, exec_mergeItems]
  cases mergePage page.toInt (requestDb s.self.db page) s.self.items <;> rfl

/-- The list an answer leaves: `none` where the address names no page. -/
def answered (url data : Bytes) (items : List DetailViewData) :
    Except (Fault Thrown) (Option (List DetailViewData)) :=
  match pageOfUrl url with
  | .ok p =>
    if p = -1 then .ok none
    else (mergePage p (constructDetailViewDataFromData data) items).map some
  | .error e => .error (.thrown e)

def merged (n : Nat) (data : Bytes) (items : List DetailViewData) : List DetailViewData :=
  place itemPerPage (leadingDigit n) (constructDetailViewDataFromData data) items

theorem answered_constructUrl (h1 : 1 ≤ n) (hn : n < 128) (data : Bytes) (items) :
    answered (constructUrl baseUrl (Int8.ofNat n)) data items =
      if Fits (leadingDigit n) (constructDetailViewDataFromData data).length items.length then
        .ok (some (merged n data items))
      else .error .outOfBounds := by
  have hlead := leadingDigit_le hn
  have hpos := leadingDigit_pos h1
  have hne : ((leadingDigit n : Nat) : Int) ≠ -1 := by omega
  rw [answered, pageOfUrl_constructUrl n h1 hn]
  simp only [if_neg hne, mergePage_eq _ hpos (show leadingDigit n < 128 by omega)]
  split <;> rfl

theorem exec_onSuccess (url data : Bytes) (s : State) :
    exec (onSuccess url data) s =
      match answered url data s.self.items with
      | .ok (some items) =>
        exec (do publish (okUpdate items); save url data) (withItems items s)
      | .ok none => (.ok (), s)
      | .error e => (.error e, s) := by
  rw [onSuccess, exec_bind, exec_attempt, answered]
  cases pageOfUrl url with
  | error e => rfl
  | ok p =>
    simp only [Except.mapError]
    split
    · rfl
    · rw [exec_bind, exec_mergeItems]
      cases mergePage p (constructDetailViewDataFromData data) s.self.items <;> rfl

theorem exec_answer_of_success (ht : t.Success) (page : Int8) :
    exec (answer page t) s = exec (onSuccess (constructUrl baseUrl page) t.body) s := by
  rw [answer, curlGet, if_pos ht]

theorem exec_answer_of_failure (ht : ¬ t.Success) (page : Int8) :
    exec (answer page t) s = exec (publish (errorUpdate t.body s.self.items)) s := by
  rw [answer, curlGet, if_neg ht, onFailure, exec_bind, exec_get]
  rfl

end

-- ---------------------------------------------------------------------------
-- An observer that stays
-- ---------------------------------------------------------------------------

section
variable [Floats] {s : State} {n : Nat} {t : Transfer}

def shown (n : Nat) (s : State) : List DetailViewData :=
  place itemPerPage n (requestDb s.self.db (Int8.ofNat n)) s.self.items

theorem exec_start_attended (hs : s.Attended o) (page : Int8) :
    exec (start page) s =
      match mergePage page.toInt (requestDb s.self.db page) s.self.items with
      | .ok items =>
        (.ok (), (withItems items s).heard o [.onBeginUpdate, .onUpdate (cacheUpdate items)])
      | .error e => (.error e, s.heard o [.onBeginUpdate]) := by
  rw [exec_start_some hs.observer, hs.notified]
  split
  · rw [exec_notify (withItems_attended hs.heard _), withItems_heard, State.heard_heard]
    rfl
  · rfl

theorem exec_start (hs : s.Attended o) (h1 : 1 ≤ n) (h : n < 128)
    (hd : (requestDb s.self.db (Int8.ofNat n)).length ≤ itemPerPage) :
    exec (start (Int8.ofNat n)) s =
      (.ok (), (withItems (shown n s) s).heard o
        [.onBeginUpdate, .onUpdate (cacheUpdate (shown n s))]) := by
  have hpage : (Int8.ofNat n).toInt = (n : Int) := Int8.toInt_ofNat_of_lt h
  rw [exec_start_attended hs, hpage, mergePage_of_length_le n h1 h hd]
  rfl

theorem exec_answer_failure (hs : s.Attended o) (ht : ¬ t.Success) (page : Int8) :
    exec (answer page t) s =
      (.ok (), s.heard o [.onUpdate (errorUpdate t.body s.self.items), .onEndUpdate]) := by
  rw [exec_answer_of_failure ht, exec_publish hs]

theorem exec_onSuccess_attended (hs : s.Attended o) (url data : Bytes) :
    exec (onSuccess url data) s =
      match answered url data s.self.items with
      | .ok (some items) =>
        (.ok (), withDb (s.self.db.put (cStr url) (cStr data))
          ((withItems items s).heard o [.onUpdate (okUpdate items), .onEndUpdate]))
      | .ok none => (.ok (), s)
      | .error e => (.error e, s) := by
  rw [exec_onSuccess]
  split
  · rw [exec_bind, exec_publish (withItems_attended hs _)]
    rfl
  · rfl
  · rfl

theorem exec_answer_success (hs : s.Attended o) (h1 : 1 ≤ n) (h : n < 128) (ht : t.Success)
    (hd : (constructDetailViewDataFromData t.body).length ≤ itemPerPage) :
    exec (answer (Int8.ofNat n) t) s =
      (.ok (), withDb (saved s.self.db (Int8.ofNat n) t.body)
        ((withItems (merged n t.body s.self.items) s).heard o
          [.onUpdate (okUpdate (merged n t.body s.self.items)), .onEndUpdate])) := by
  rw [exec_answer_of_success ht, exec_onSuccess_attended hs, answered_constructUrl h1 h,
    if_pos (fits_of_length_le (leadingDigit_pos h1) hd), cStr_constructUrl]
  rfl

def response (n : Nat) (t : Transfer) (items : List DetailViewData) : ViewData :=
  if t.Success then okUpdate (merged n t.body items) else errorUpdate t.body items

def kept (n : Nat) (t : Transfer) (db : Db) : Db :=
  if t.Success then saved db (Int8.ofNat n) t.body else db

def requestCalls (n : Nat) (t : Transfer) (s : State) : List (Call ViewData) :=
  [.onBeginUpdate, .onUpdate (cacheUpdate (shown n s)), .onUpdate (response n t (shown n s)),
    .onEndUpdate]

def requested (o : Observer) (n : Nat) (t : Transfer) (s : State) : State :=
  withDb (kept n t s.self.db)
    ((withItems (response n t (shown n s)).explores s).heard o (requestCalls n t s))

/-- What both the service and the cache hold for a page has at most ten photos. -/
structure PageBounded (n : Nat) (t : Transfer) (s : State) : Prop where
  cached : (requestDb s.self.db (Int8.ofNat n)).length ≤ itemPerPage
  served : t.Success → (constructDetailViewDataFromData t.body).length ≤ itemPerPage

theorem exec_request (hs : s.Attended o) (h1 : 1 ≤ n) (h : n < 128) (hb : PageBounded n t s) :
    exec (request (Int8.ofNat n) t) s = (.ok (), requested o n t s) := by
  have ha : ((withItems (shown n s) s).heard o
      [.onBeginUpdate, .onUpdate (cacheUpdate (shown n s))]).Attended o :=
    (withItems_attended hs (shown n s)).heard
  rw [request, exec_bind, exec_start hs h1 h hb.cached]
  simp only
  by_cases ht : t.Success
  · rw [exec_answer_success ha h1 h ht (hb.served ht)]
    simp only [requested, requestCalls, response, kept, if_pos ht, State.heard_self,
      withItems_items, withItems_db, withItems_heard, State.heard_heard, okUpdate]
    rfl
  · rw [exec_answer_failure ha ht]
    simp only [requested, requestCalls, response, kept, if_neg ht, State.heard_self,
      withItems_items, State.heard_heard, errorUpdate]
    rfl

theorem requested_attended (hs : s.Attended o) : (requested o n t s).Attended o :=
  ⟨hs.observer, hs.quiet⟩

@[simp] theorem requested_items :
    (requested o n t s).self.items = (response n t (shown n s)).explores := rfl

@[simp] theorem requested_db : (requested o n t s).self.db = kept n t s.self.db := rfl

theorem requested_calls :
    (requested o n t s).calls = s.calls ++ (requestCalls n t s).map (o, ·) := rfl

theorem requestDb_kept_of_ne (hn : n < 128) (hm : m < 128) (hne : n ≠ m) :
    requestDb (kept n t db) (Int8.ofNat m) = requestDb db (Int8.ofNat m) := by
  have hp : Int8.ofNat n ≠ Int8.ofNat m := by
    intro he
    have := congrArg Int8.toInt he
    rw [Int8.toInt_ofNat_of_lt hn, Int8.toInt_ofNat_of_lt hm] at this
    omega
  unfold kept
  split
  · rw [requestDb_saved, if_neg hp]
  · rfl

theorem explores_response (n : Nat) (t : Transfer) (items : List DetailViewData) :
    (response n t items).explores = if t.Success then merged n t.body items else items := by
  unfold response
  split <;> rfl

end

-- ---------------------------------------------------------------------------
-- Sample answers
-- ---------------------------------------------------------------------------

def pageBody (ids : String) : Bytes :=
  lit "\x7b\"photos\":\x7b\"photo\":[" ++
    ((ids.toList.map fun c => lit "\x7b\"id\":\"" ++ [chr c] ++ lit "\"\x7d").intersperse
      (lit ",")).flatten ++
    lit "]\x7d,\"stat\":\"ok\"\x7d"

def pageAnswer (ids : String) : Transfer := ⟨true, 200, pageBody ids⟩

end Cookpit.Explore
