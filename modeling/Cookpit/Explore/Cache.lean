import Cookpit.Explore.Sequential
import Cookpit.Lib.Runs

/-!
# The cache

A run of resets and requests writes the body of every successful answer under
its page's address and nothing else (`run_db`), so the cache of a page is the
latest of them (`requestDb_run`).

Without a network pages come from the cache alone. Up to page `n` there are at
most ten photos a page, so each is appended behind the ones before it and
nothing is ever overwritten (`requestPages_offline`).
-/

namespace Cookpit.Explore

open ByteString Json11 Observed Paging Runs

/-- The bodies of the successful answers to `request(page)`. -/
def answersTo (page : Int8) (actions : List Action) : List Bytes :=
  actions.filterMap fun
    | .reset => none
    | .request p t => if p = page ∧ t.Success then some t.body else none

def writes (actions : List Action) : List (Bytes × Bytes) :=
  actions.filterMap fun
    | .reset => none
    | .request p t => if t.Success then some (constructUrl baseUrl p, t.body) else none

/-- Pages have different addresses. -/
theorem latest_writes (page : Int8) (actions : List Action) :
    KeyStore.latest (constructUrl baseUrl page) (writes actions) =
      (answersTo page actions).getLast? := by
  rw [KeyStore.latest, writes, answersTo, List.filterMap_filterMap]
  congr 2
  funext a
  cases a with
  | reset => rfl
  | request p t =>
    by_cases ht : t.Success
    · by_cases hp : p = page
      · simp [ht, hp]
      · have hurl : constructUrl baseUrl p ≠ constructUrl baseUrl page := fun h =>
          hp (constructUrl_inj h)
        simp [ht, hp, hurl]
    · simp [ht]

section
variable [Floats] {n : Nat} {t : Transfer} {s : State} {db : Db}

/-- The photos of the body stored under the address of page `n`, none where there
is no body. -/
def cachedPage (db : Db) (n : Nat) : List DetailViewData :=
  match db.get (constructUrl baseUrl (Int8.ofNat n)) with
  | some body => constructDetailViewDataFromData body
  | none => []

/-- The loop of `request_db` finds the body stored under the address. -/
theorem requestDb_page (db : Db) (n : Nat) : requestDb db (Int8.ofNat n) = cachedPage db n := by
  rw [requestDb_eq, cachedPage]
  cases db.get (constructUrl baseUrl (Int8.ofNat n)) <;> rfl

/-- Every cached page has at most ten photos. -/
def CacheBounded (db : Db) : Prop :=
  ∀ n, 1 ≤ n → n < 128 → (cachedPage db n).length ≤ itemPerPage

theorem cacheBounded_iff : CacheBounded db ↔
    ∀ n, 1 ≤ n → n < 128 → (requestDb db (Int8.ofNat n)).length ≤ itemPerPage := by
  simp only [CacheBounded, requestDb_page]

theorem cacheBounded_empty : CacheBounded KeyStore.Store.empty := fun _ _ _ => Nat.zero_le _

/-- A failure, or at most ten photos and no NUL byte. -/
def Clean (t : Transfer) : Prop :=
  t.Success → (0 : UInt8) ∉ t.body ∧ (constructDetailViewDataFromData t.body).length ≤ itemPerPage

instance (t : Transfer) : Decidable (Clean t) := by
  unfold Clean
  infer_instance

theorem CacheBounded.kept (h : CacheBounded db) (hn : n < 128) (ht : Clean t) :
    CacheBounded (kept n t db) := by
  rw [cacheBounded_iff] at h ⊢
  intro m h1 hm
  by_cases hne : n = m
  · subst hne
    rw [Explore.kept]
    split
    · rename_i hsuccess
      rw [requestDb_saved, if_pos rfl, cStr_eq_self (ht hsuccess).1]
      exact (ht hsuccess).2
    · exact h n h1 hn
  · rw [requestDb_kept_of_ne hn hm hne]
    exact h m h1 hm

-- ---------------------------------------------------------------------------
-- What is cached
-- ---------------------------------------------------------------------------

/-- A page from 1 to 127, and a clean answer. -/
def Action.Admitted : Action → Prop
  | .reset => True
  | .request page t => 0 < page.toInt ∧ Clean t

instance (a : Action) : Decidable a.Admitted :=
  match a with
  | .reset => isTrue trivial
  | .request page t => inferInstanceAs (Decidable (0 < page.toInt ∧ Clean t))

structure Cached (o : Observer) (s : State) : Prop where
  attended : s.Attended o
  bounded : CacheBounded s.self.db

theorem next_cached {a : Action} (h : Cached o s) (ha : a.Admitted) :
    Cached o (a.next s) ∧ (a.next s).self.db = s.self.db.putAll (writes [a]) := by
  cases a with
  | reset => exact ⟨⟨withItems_attended h.attended [], h.bounded⟩, rfl⟩
  | request page t =>
    obtain ⟨hpage, ht⟩ := ha
    obtain ⟨n, h1, hn, rfl⟩ := exists_page hpage
    have hb : PageBounded n t s :=
      ⟨cacheBounded_iff.mp h.bounded n h1 hn, fun hsuccess => (ht hsuccess).2⟩
    have hexec : Action.next s (.request (Int8.ofNat n) t) = requested o n t s := by
      rw [Action.next, Action.run, exec_request h.attended h1 hn hb]
    rw [hexec]
    refine ⟨⟨requested_attended h.attended, h.bounded.kept hn ht⟩, ?_⟩
    by_cases hsuccess : t.Success
    · simp [kept, writes, hsuccess, saved, cStr_eq_self (ht hsuccess).1, KeyStore.Store.putAll]
    · simp [kept, writes, hsuccess, KeyStore.Store.putAll]

theorem run_db {actions : List Action} (h : Cached o s) (ha : ∀ a ∈ actions, a.Admitted) :
    (run Action.next s actions).self.db = s.self.db.putAll (writes actions) := by
  induction actions generalizing s with
  | nil => rfl
  | cons a actions ih =>
    obtain ⟨hcached, hdb⟩ := next_cached h (ha a List.mem_cons_self)
    rw [run_cons, ih hcached fun a' ha' => ha a' (List.mem_cons_of_mem _ ha'), hdb]
    have hsplit : writes (a :: actions) = writes [a] ++ writes actions :=
      List.filterMap_append (l := [a])
    rw [hsplit, KeyStore.Store.putAll, KeyStore.Store.putAll, KeyStore.Store.putAll,
      List.foldl_append]

/-- From an empty cache, the cache of every page is what the latest successful
answer to a request for it parses to, and no answer to another page changes
it. -/
theorem requestDb_run (s : State) (o : Observer) (actions : List Action) (page : Int8)
    (hs : s.Attended o) (hdb : s.self.db = KeyStore.Store.empty)
    (ha : ∀ a ∈ actions, a.Admitted) :
    requestDb (run Action.next s actions).self.db page =
        ((answersTo page actions).getLast?.map constructDetailViewDataFromData).getD [] ∧
      Every Action.next (fun s a => (∀ t, a ≠ .request page t) →
        requestDb (a.next s).self.db page = requestDb s.self.db page) s actions := by
  have hcached : Cached o s := ⟨hs, by rw [hdb]; exact cacheBounded_empty⟩
  constructor
  · rw [requestDb_eq, run_db hcached ha, KeyStore.Store.get_putAll, latest_writes, hdb]
    simp
  · refine every_of_invariant hcached ha fun s a hs ha => ?_
    obtain ⟨hnext, hdb⟩ := next_cached hs ha
    refine ⟨fun hother => ?_, hnext⟩
    have hnone : answersTo page [a] = [] := by
      cases a with
      | reset => rfl
      | request p t =>
        have hp : p ≠ page := fun hp => hother t (by rw [hp])
        simp [answersTo, hp]
    rw [requestDb_eq, hdb, KeyStore.Store.get_putAll, latest_writes, hnone, requestDb_eq]
    rfl

-- ---------------------------------------------------------------------------
-- Without a network
-- ---------------------------------------------------------------------------

/-- The cached pages from 1 to `n`, one behind the other. -/
def cachedUpTo (db : Db) (n : Nat) : List DetailViewData := (pages n).flatMap (cachedPage db)

theorem cachedUpTo_succ (db : Db) (n : Nat) :
    cachedUpTo db (n + 1) = cachedUpTo db n ++ cachedPage db (n + 1) := by
  simp [cachedUpTo, pages_succ]

theorem length_cachedUpTo (h : CacheBounded db) (hn : n < 128) :
    (cachedUpTo db n).length ≤ n * itemPerPage := by
  induction n with
  | zero => exact Nat.le_refl 0
  | succ n ih =>
    have hpage := h (n + 1) (by omega) hn
    have hbefore := ih (by omega)
    rw [cachedUpTo_succ, List.length_append, Nat.add_mul, Nat.one_mul]
    omega

/-- The next page is never taken for one that is already there. -/
theorem shown_succ (h : CacheBounded s.self.db) (hn : n < 128)
    (hitems : s.self.items = cachedUpTo s.self.db n) :
    shown (n + 1) s = cachedUpTo s.self.db (n + 1) := by
  have hlen := length_cachedUpTo h hn
  have hlt : s.self.items.length < (n + 1) * itemPerPage := by
    rw [hitems]
    simp only [itemPerPage] at hlen ⊢
    omega
  rw [shown, place_of_length_lt hlt, hitems, cachedUpTo_succ, requestDb_page]

def offlineUpdates (db : Db) (p : Transfer × Nat) : List ViewData :=
  [cacheUpdate (cachedUpTo db p.2), errorUpdate p.1.body (cachedUpTo db p.2)]

def offlineCalls (db : Db) (p : Transfer × Nat) : List (Call ViewData) :=
  .onBeginUpdate :: (offlineUpdates db p).map .onUpdate ++ [.onEndUpdate]

theorem exec_requestPages_offline {ts : List Transfer} (hs : s.Attended o)
    (hb : CacheBounded s.self.db) (hn : n + ts.length < 128) (hfail : ∀ t ∈ ts, ¬ t.Success)
    (hitems : s.self.items = cachedUpTo s.self.db n) :
    ∃ s', exec (requestPages (n + 1) ts) s = (.ok (), s') ∧ s'.self.db = s.self.db ∧
      s'.calls = s.calls ++ ((ts.zipIdx (n + 1)).flatMap (offlineCalls s.self.db)).map (o, ·) := by
  induction ts generalizing n s with
  | nil => exact ⟨s, rfl, rfl, by simp⟩
  | cons t ts ih =>
    simp only [List.length_cons] at hn
    have ht : ¬ t.Success := hfail t List.mem_cons_self
    have hpage : PageBounded (n + 1) t s :=
      ⟨cacheBounded_iff.mp hb (n + 1) (by omega) (by omega), fun hsuccess => absurd hsuccess ht⟩
    have hshown := shown_succ hb (show n < 128 by omega) hitems
    have hdb : (requested o (n + 1) t s).self.db = s.self.db := by
      rw [requested_db, kept, if_neg ht]
    have hresponse : response (n + 1) t (shown (n + 1) s) =
        errorUpdate t.body (cachedUpTo s.self.db (n + 1)) := by
      rw [response, if_neg ht, hshown]
    obtain ⟨s', he, hd, hc⟩ := ih (s := requested o (n + 1) t s) (n := n + 1)
      (requested_attended hs) (by rwa [hdb]) (by omega)
      (fun u hu => hfail u (List.mem_cons_of_mem _ hu))
      (by rw [requested_items, hresponse, hdb]; rfl)
    refine ⟨s', ?_, hd.trans hdb, ?_⟩
    · rw [requestPages, exec_bind, exec_request hs (by omega) (by omega) hpage]
      exact he
    · rw [hc, hdb, requested_calls, requestCalls, hresponse, hshown]
      simp [offlineCalls, offlineUpdates]

/-- With every page failing, request `k` shows the cached pages 1 to `k` twice,
without and with an error, and the cache stays as it is. -/
theorem requestPages_offline (s : State) (o : Observer) (ts : List Transfer) (hs : s.Attended o)
    (hitems : s.self.items = []) (hb : CacheBounded s.self.db) (hlen : ts.length ≤ 127)
    (hfail : ∀ t ∈ ts, ¬ t.Success) :
    (exec (requestPages 1 ts) s).1 = .ok () ∧
      updates s (exec (requestPages 1 ts) s).2 =
        (ts.zipIdx 1).flatMap (offlineUpdates s.self.db) ∧
      (exec (requestPages 1 ts) s).2.self.db = s.self.db := by
  obtain ⟨s', he, hd, hc⟩ := exec_requestPages_offline (n := 0) hs hb (by omega) hfail hitems
  rw [he]
  refine ⟨rfl, ?_, hd⟩
  rw [updates_of_calls o _ hc, List.filterMap_flatMap]
  rfl

end

section
attribute [local instance] integerFloats

/-- Page 2 is answered twice, page 3 once before it fails. -/
def answeredTwice : List Action :=
  [.request 2 (pageAnswer "ab"), .request 3 (pageAnswer "cde"), .reset,
    .request 2 (pageAnswer "0123456789"), .request 3 ⟨true, 500, lit "x"⟩]

theorem requestDb_run_answeredTwice :
    requestDb (run Action.next (fresh 0 KeyStore.Store.empty) answeredTwice).self.db 2 =
      constructDetailViewDataFromData (pageBody "0123456789") := by
  have h := (requestDb_run (fresh 0 KeyStore.Store.empty) 0 answeredTwice 2 fresh_attended rfl
    (by decide +kernel)).1
  have hanswers : answersTo 2 answeredTwice = [pageBody "ab", pageBody "0123456789"] := by
    decide +kernel
  rw [h, hanswers, List.getLast?_cons_cons, List.getLast?_singleton, Option.map_some,
    Option.getD_some]

/-- Three photos under page 1 and two under page 2. -/
def cachedTwice : Db := kept 2 (pageAnswer "de") (kept 1 (pageAnswer "abc") KeyStore.Store.empty)

theorem cacheBounded_cachedTwice : CacheBounded cachedTwice := by
  refine CacheBounded.kept (CacheBounded.kept cacheBounded_empty ?_ ?_) ?_ ?_
  all_goals decide +kernel

/-- A photo of `pageBody`. -/
def pictured (id : String) : DetailViewData :=
  ⟨lit id, lit "https://farm0.static.flickr.com//" ++ lit id ++ lit "__z.jpg", []⟩

/-- No network, and a service that says it is down. -/
def noneServed : List Transfer :=
  [⟨false, 0, []⟩, ⟨true, 503, lit "\x7b\"message\":\"down\"\x7d"⟩]

theorem requestPages_offline_cachedTwice :
    updates (fresh 0 cachedTwice) (exec (requestPages 1 noneServed) (fresh 0 cachedTwice)).2 =
      [⟨false, lit "cache", ["a", "b", "c"].map pictured⟩,
        ⟨true, lit "There is something wrong, please try again later",
          ["a", "b", "c"].map pictured⟩,
        ⟨false, lit "cache", ["a", "b", "c", "d", "e"].map pictured⟩,
        ⟨true, lit "down", ["a", "b", "c", "d", "e"].map pictured⟩] := by
  have h := (requestPages_offline (fresh 0 cachedTwice) 0 noneServed fresh_attended rfl
    cacheBounded_cachedTwice (by decide) (by decide)).2.1
  rw [h]
  decide +kernel

end

end Cookpit.Explore
