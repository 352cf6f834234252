import Cookpit.Explore.Laws
import Cookpit.Json11.Grammar
import Cookpit.Lib.SharedPages

/-!
# Explore controllers with one cache

Every explore controller opens the environment `db("explore")` of the core's
directory, so all of them read and write the same pages, while each keeps a
list of its own. Between the start of a request and its answer the others may
do anything.

Where every answer that succeeds brings a full page, the controllers are the
clients of `SharedPages` (`run_represents`): no interleaving tears a page apart
or mixes two (`published_pages`), and the cache of a page is the latest answer to
it, whichever controller asked (`requestDb_run_shared`).
-/

namespace Cookpit.Explore

open ByteString Json11 Observed Paging Runs

abbrev Page := List DetailViewData

/-- A controller and the pages it waits for. Its own `db` is the store as it
was when it ran last. -/
structure Client where
  state : State
  pending : List Int8

structure Shared where
  db : Db
  clients : List Client

/-- What one of the controllers does; answers come in any order. -/
inductive SharedEvent
  | reset (i : Nat)
  | start (i : Nat) (page : Int8)
  | answer (i k : Nat) (transfer : Transfer)

def SharedEvent.client : SharedEvent → Nat
  | .reset i | .start i _ | .answer i _ _ => i

section
variable [Floats]

def Client.reset (db : Db) (c : Client) : Client :=
  { c with state := (exec Explore.reset (withDb db c.state)).2 }

def Client.start (page : Int8) (db : Db) (c : Client) : Client :=
  let (r, s) := exec (Explore.start page) (withDb db c.state)
  { state := s
    pending := match r with
      | .ok () => c.pending ++ [page]
      | .error _ => c.pending }

def Client.answer (k : Nat) (t : Transfer) (db : Db) (c : Client) : Client :=
  match c.pending[k]? with
  | none => { c with state := withDb db c.state }
  | some page =>
    { state := (exec (Explore.answer page t) (withDb db c.state)).2
      pending := c.pending.eraseIdx k }

def Client.next (db : Db) (c : Client) : SharedEvent → Client
  | .reset _ => c.reset db
  | .start _ page => c.start page db
  | .answer _ k t => c.answer k t db

def Shared.next (y : Shared) (e : SharedEvent) : Shared :=
  match y.clients[e.client]? with
  | none => y
  | some c =>
    { db := (c.next y.db e).state.self.db
      clients := y.clients.set e.client (c.next y.db e) }

/-- What the controller publishes at an event. -/
def Shared.published (y : Shared) (e : SharedEvent) : List ViewData :=
  match y.clients[e.client]? with
  | none => []
  | some c => updates c.state (c.next y.db e).state

def served (t : Transfer) : Option Page :=
  if t.Success then some (constructDetailViewDataFromData t.body) else none

def SharedEvent.pages : SharedEvent → SharedPages.Event Int8 Page
  | .reset i => .reset i
  | .start i page => .start i page
  | .answer i k t => .answer i k (served t)

/-- A page from 1 to 127, and no answer but a failure or a full page. -/
def SharedEvent.Admitted : SharedEvent → Prop
  | .reset _ => True
  | .start _ page => 0 < page.toInt
  | .answer _ _ t => ∀ b ∈ served t, b.length = itemPerPage

instance SharedEvent.decidableAdmitted (e : SharedEvent) : Decidable e.Admitted := by
  cases e <;> unfold SharedEvent.Admitted <;> infer_instance

end

-- ---------------------------------------------------------------------------
-- The store
-- ---------------------------------------------------------------------------

def slotOf (page : Int8) : Nat := page.toInt.toNat

def answerSlot (page : Int8) : Nat := leadingDigit (slotOf page)

theorem slotOf_ofNat (hn : n < 128) : slotOf (Int8.ofNat n) = n := by
  rw [slotOf, Int8.toInt_ofNat_of_lt hn, Int.toNat_natCast]

theorem ne_nil_of_full {b : Page} (h : b.length = itemPerPage) : b ≠ [] := by
  rintro rfl
  cases h

theorem withDb_attended {s : State} (h : s.Attended o) (db : Db) : (withDb db s).Attended o :=
  ⟨h.observer, h.quiet⟩

/-- A page placed in a list of pages is a page placed in the list of photos. -/
theorem place_placed {block : Option Page} {blocks : List Page} (h : Full itemPerPage blocks)
    (hb : ∀ b ∈ block, b.length = itemPerPage) (hs : 1 ≤ slot) :
    place itemPerPage slot (block.getD []) blocks.flatten =
        (SharedPages.placed slot block blocks).flatten ∧
      Full itemPerPage (SharedPages.placed slot block blocks) := by
  cases block with
  | none => exact ⟨place_nil _ _ _, h⟩
  | some b => exact ⟨place_flatten h (hb b rfl) (by decide) hs, h.placeBlock (hb b rfl)⟩

theorem length_getD_le {block : Option Page} (h : ∀ b ∈ block, b.length = itemPerPage) :
    (block.getD []).length ≤ itemPerPage := by
  cases block with
  | none => exact Nat.zero_le _
  | some b => exact Nat.le_of_eq (h b rfl)

section
variable [Floats]

/-- A body with photos in it is JSON and has no NUL byte to be cut at. -/
theorem cStr_of_photos (h : constructDetailViewDataFromData data ≠ []) : cStr data = data := by
  cases hparse : parse data with
  | none =>
    rw [constructDetailViewDataFromData, parsed, hparse] at h
    exact absurd rfl h
  | some j => exact cStr_eq_self (ne_zero_of_parse hparse)

/-- The store holds these pages, all of them full. -/
structure Stores (db : Db) (cache : Int8 → Option Page) : Prop where
  reads : ∀ page : Int8, 0 < page.toInt → requestDb db page = (cache page).getD []
  full : ∀ page, ∀ b ∈ cache page, b.length = itemPerPage

theorem Stores.saved {cache : Int8 → Option Page} (h : Stores db cache)
    (hfull : (constructDetailViewDataFromData body).length = itemPerPage) (page : Int8) :
    Stores (saved db page body)
      (SharedPages.write cache [(page, constructDetailViewDataFromData body)]) := by
  have hwrite (q : Int8) :
      SharedPages.write cache [(page, constructDetailViewDataFromData body)] q =
        if page = q then some (constructDetailViewDataFromData body) else cache q := by
    rw [SharedPages.write, KeyStore.latest]
    by_cases hq : page = q <;> simp [hq]
  constructor
  · intro q hq
    rw [requestDb_saved, cStr_of_photos (ne_nil_of_full hfull), hwrite]
    split
    · rfl
    · exact h.reads q hq
  · intro q b hb
    rw [hwrite] at hb
    split at hb
    · cases hb
      exact hfull
    · exact h.full q b hb

-- ---------------------------------------------------------------------------
-- One controller
-- ---------------------------------------------------------------------------

/-- The controller's list is made of these pages. -/
structure Client.Shows (c : Client) (a : SharedPages.Client Int8 Page) : Prop where
  attended : ∃ o, c.state.Attended o
  items : c.state.self.items = a.blocks.flatten
  full : Full itemPerPage a.blocks
  pending : c.pending = a.pending
  admitted : ∀ page ∈ a.pending, 0 < page.toInt

/-- What an event makes of a controller, of the store and of what is shown. -/
structure Client.Follows (c : Client) (db : Db) (e : SharedEvent)
    (a : SharedPages.Client Int8 Page) (cache : Int8 → Option Page) : Prop where
  shows : (c.next db e).Shows (a.next slotOf answerSlot cache e.pages)
  stores : Stores (c.next db e).state.self.db (SharedPages.write cache (a.writes e.pages))
  published : ∀ v ∈ updates c.state (c.next db e).state,
    v.explores = (c.next db e).state.self.items

variable {c : Client} {a : SharedPages.Client Int8 Page} {cache : Int8 → Option Page} {db : Db}

theorem reset_follows (hc : c.Shows a) (hdb : Stores db cache) (i : Nat) :
    c.Follows db (.reset i) a cache := by
  obtain ⟨o, ho⟩ := hc.attended
  constructor
  · exact ⟨⟨o, withItems_attended (withDb_attended ho db) []⟩, rfl, fun _ h => (nomatch h),
      hc.pending, hc.admitted⟩
  · exact hdb
  · have hnone : updates c.state (c.next db (.reset i)).state = [] := updates_of_calls_eq rfl
    simp [hnone]

theorem start_follows (hc : c.Shows a) (hdb : Stores db cache) (i : Nat) {page : Int8}
    (hpage : 0 < page.toInt) : c.Follows db (.start i page) a cache := by
  obtain ⟨o, ho⟩ := hc.attended
  obtain ⟨n, h1, hn, rfl⟩ := exists_page hpage
  have hblocks : (a.next slotOf answerSlot cache (.start i (Int8.ofNat n))).blocks =
      SharedPages.placed n (cache (Int8.ofNat n)) a.blocks := by
    rw [SharedPages.Client.next, SharedPages.Client.start, slotOf_ofNat hn]
  have hreads := hdb.reads (Int8.ofNat n) hpage
  have hcached := hdb.full (Int8.ofNat n)
  obtain ⟨hplace, hfull⟩ := place_placed hc.full hcached h1
  have hshown : shown n (withDb db c.state) =
      (SharedPages.placed n (cache (Int8.ofNat n)) a.blocks).flatten := by
    rw [← hplace, ← hreads, ← hc.items]
    rfl
  have hbound : (requestDb (withDb db c.state).self.db (Int8.ofNat n)).length ≤ itemPerPage := by
    show (requestDb db (Int8.ofNat n)).length ≤ itemPerPage
    rw [hreads]
    exact length_getD_le hcached
  have hexec := exec_start (withDb_attended ho db) h1 hn hbound
  have hnext : c.next db (.start i (Int8.ofNat n)) =
      { state := (withItems (shown n (withDb db c.state)) (withDb db c.state)).heard o
          [.onBeginUpdate, .onUpdate (cacheUpdate (shown n (withDb db c.state)))]
        pending := c.pending ++ [Int8.ofNat n] } := by
    rw [Client.next, Client.start, hexec]
  constructor
  · rw [hnext]
    refine ⟨⟨o, (withItems_attended (withDb_attended ho db) _).heard⟩, ?_, ?_, ?_, ?_⟩
    · exact hshown.trans (congrArg List.flatten hblocks.symm)
    · exact hblocks ▸ hfull
    · exact congrArg (· ++ [Int8.ofNat n]) hc.pending
    · intro q hq
      obtain hq | hq := List.mem_append.mp hq
      · exact hc.admitted q hq
      · exact List.mem_singleton.mp hq ▸ hpage
  · rw [hnext]
    exact hdb
  · have hupdates : updates c.state (c.next db (.start i (Int8.ofNat n))).state =
        [cacheUpdate (shown n (withDb db c.state))] := by
      rw [hnext]
      exact updates_of_calls o
        [.onBeginUpdate, .onUpdate (cacheUpdate (shown n (withDb db c.state)))] rfl
    rw [hupdates, hnext]
    simp [cacheUpdate]

theorem answer_follows (hc : c.Shows a) (hdb : Stores db cache) (i k : Nat) {t : Transfer}
    (ht : ∀ b ∈ served t, b.length = itemPerPage) : c.Follows db (.answer i k t) a cache := by
  obtain ⟨o, ho⟩ := hc.attended
  have hdb' := withDb_attended ho db
  cases hk : a.pending[k]? with
  | none =>
    have hnext : c.next db (.answer i k t) = { c with state := withDb db c.state } := by
      rw [Client.next, Client.answer, hc.pending, hk]
    have hblocks : a.next slotOf answerSlot cache (.answer i k (served t)) = a := by
      rw [SharedPages.Client.next, SharedPages.Client.answer, hk]
    have hwrites : a.writes (.answer i k (served t)) = [] := by
      cases served t <;> simp [SharedPages.Client.writes, hk]
    constructor
    · rw [hnext, SharedEvent.pages, hblocks]
      exact ⟨⟨o, hdb'⟩, hc.items, hc.full, hc.pending, hc.admitted⟩
    · rw [hnext, SharedEvent.pages, hwrites]
      exact hdb
    · have hnone : updates c.state (c.next db (.answer i k t)).state = [] := by
        rw [hnext]
        exact updates_of_calls_eq rfl
      simp [hnone]
  | some page =>
    obtain ⟨n, h1, hn, rfl⟩ := exists_page (hc.admitted page (List.mem_of_getElem? hk))
    have hnext : c.next db (.answer i k t) =
        { state := (exec (Explore.answer (Int8.ofNat n) t) (withDb db c.state)).2
          pending := c.pending.eraseIdx k } := by
      rw [Client.next, Client.answer, hc.pending, hk]
    have hblocks : a.next slotOf answerSlot cache (.answer i k (served t)) =
        { blocks := SharedPages.placed (leadingDigit n) (served t) a.blocks
          pending := a.pending.eraseIdx k } := by
      rw [SharedPages.Client.next, SharedPages.Client.answer, hk]
      simp only [answerSlot, slotOf_ofNat hn]
    have hpending : c.pending.eraseIdx k = a.pending.eraseIdx k := by rw [hc.pending]
    have hadmitted : ∀ q ∈ a.pending.eraseIdx k, 0 < q.toInt := fun q hq =>
      hc.admitted q (List.mem_of_mem_eraseIdx hq)
    obtain ⟨hplace, hfull⟩ := place_placed hc.full ht (leadingDigit_pos h1)
    by_cases hsuccess : t.Success
    · have hserved : served t = some (constructDetailViewDataFromData t.body) := if_pos hsuccess
      have hlen := ht _ hserved
      have hmerged : merged n t.body (withDb db c.state).self.items =
          (SharedPages.placed (leadingDigit n) (served t) a.blocks).flatten := by
        rw [← hplace, hserved, ← hc.items]
        rfl
      rw [exec_answer_success hdb' h1 hn hsuccess (Nat.le_of_eq hlen), hmerged] at hnext
      have hwrites : a.writes (.answer i k (served t)) =
          [(Int8.ofNat n, constructDetailViewDataFromData t.body)] := by
        rw [hserved, SharedPages.Client.writes, hk]
      constructor
      · rw [hnext, SharedEvent.pages, hblocks]
        exact ⟨⟨o, withDb_attended (withItems_attended hdb' _).heard _⟩, rfl, hfull, hpending,
          hadmitted⟩
      · rw [hnext, SharedEvent.pages, hwrites]
        exact hdb.saved hlen (Int8.ofNat n)
      · intro v hv
        rw [hnext, updates_of_calls o [.onUpdate (okUpdate _), .onEndUpdate] rfl] at hv
        obtain rfl := List.mem_singleton.mp hv
        rw [hnext]
        rfl
    · have hserved : served t = none := if_neg hsuccess
      rw [exec_answer_failure hdb' hsuccess] at hnext
      rw [hserved] at hblocks
      constructor
      · rw [hnext, SharedEvent.pages, hserved, hblocks]
        exact ⟨⟨o, hdb'.heard⟩, hc.items, hc.full, hpending, hadmitted⟩
      · rw [hnext, SharedEvent.pages, hserved]
        exact hdb
      · intro v hv
        rw [hnext, updates_of_calls o [.onUpdate (errorUpdate t.body _), .onEndUpdate] rfl] at hv
        obtain rfl := List.mem_singleton.mp hv
        rw [hnext]
        rfl

theorem follows (hc : c.Shows a) (hdb : Stores db cache) {e : SharedEvent} (he : e.Admitted) :
    c.Follows db e a cache := by
  cases e with
  | reset i => exact reset_follows hc hdb i
  | start i page => exact start_follows hc hdb i he
  | answer i k t => exact answer_follows hc hdb i k he

-- ---------------------------------------------------------------------------
-- All of them
-- ---------------------------------------------------------------------------

/-- The controllers and the store are these clients and this cache. -/
structure Represents (y : Shared) (t : SharedPages.Table Int8 Page) : Prop where
  length : y.clients.length = t.clients.length
  clients : ∀ (i : Nat) (c : Client) (a : SharedPages.Client Int8 Page),
    y.clients[i]? = some c → t.clients[i]? = some a → c.Shows a
  stores : Stores y.db t.cache

/-- What an event leaves in the store: the page it is answered for and its photos. -/
def Shared.stored (y : Shared) : SharedEvent → List (Int8 × Page)
  | .answer i k t =>
    match (y.clients[i]?).bind (·.pending[k]?), served t with
    | some page, some b => [(page, b)]
    | _, _ => []
  | _ => []

def Shared.history (y : Shared) (events : List SharedEvent) : List (Int8 × Page) :=
  collect Shared.next Shared.stored y events

variable {y : Shared} {t : SharedPages.Table Int8 Page} {e : SharedEvent}

theorem client_pages (e : SharedEvent) : e.pages.client = e.client := by
  cases e <;> rfl

theorem Represents.client_none {i : Nat} (h : Represents y t) (hi : y.clients[i]? = none) :
    t.clients[i]? = none := by
  rw [List.getElem?_eq_none_iff] at hi ⊢
  exact h.length ▸ hi

theorem Represents.client_some {i : Nat} (h : Represents y t) (hi : y.clients[i]? = some c) :
    ∃ a, t.clients[i]? = some a ∧ c.Shows a := by
  cases ha : t.clients[i]? with
  | none =>
    rw [List.getElem?_eq_none_iff, ← h.length, ← List.getElem?_eq_none_iff, hi] at ha
    cases ha
  | some a => exact ⟨a, rfl, h.clients i c a hi ha⟩

theorem next_represents (h : Represents y t) (he : e.Admitted) :
    Represents (y.next e) (t.next slotOf answerSlot e.pages) := by
  have hwrite (puts : List (Int8 × Page)) (hw : t.writes e.pages = puts) :
      (t.next slotOf answerSlot e.pages).cache = SharedPages.write t.cache puts := by
    rw [SharedPages.Table.next, hw]
  cases hc : y.clients[e.client]? with
  | none =>
    have ha := h.client_none hc
    have hnext : y.next e = y := by rw [Shared.next, hc]
    have hnone : t.writes e.pages = [] := by
      rw [SharedPages.Table.writes, client_pages, ha]
      rfl
    have hsame : (t.next slotOf answerSlot e.pages).clients = t.clients := by
      rw [SharedPages.Table.next, client_pages]
      exact List.modify_eq_self (List.getElem?_eq_none_iff.mp ha)
    rw [hnext]
    exact ⟨hsame ▸ h.length, fun i c a hi ha => h.clients i c a hi (hsame ▸ ha),
      (hwrite [] hnone) ▸ h.stores⟩
  | some c =>
    obtain ⟨a, ha, hshows⟩ := h.client_some hc
    obtain ⟨hshows', hstores', -⟩ := follows hshows h.stores he
    have hnext : y.next e =
        { db := (c.next y.db e).state.self.db
          clients := y.clients.set e.client (c.next y.db e) } := by
      rw [Shared.next, hc]
    have hwrites : t.writes e.pages = a.writes e.pages := by
      rw [SharedPages.Table.writes, client_pages, ha]
      rfl
    rw [hnext]
    refine ⟨?_, fun i c' a' hc' ha' => ?_, (hwrite _ hwrites) ▸ hstores'⟩
    · simpa [SharedPages.Table.next] using h.length
    · rw [SharedPages.Table.next, client_pages, List.getElem?_modify] at ha'
      rw [List.getElem?_set] at hc'
      by_cases hi : e.client = i
      · subst hi
        rw [ha] at ha'
        simp only [if_true, (List.getElem?_eq_some_iff.mp hc).1, Option.some.injEq] at hc' ha'
        cases ha'
        exact hc' ▸ hshows'
      · rw [if_neg hi] at hc'
        simp only [if_neg hi, id_map'] at ha'
        exact h.clients i c' a' hc' ha'

/-- Any number of controllers, in any order of their resets, starts and answers,
stay what the clients of a shared cache are. -/
theorem run_represents (y : Shared) (t : SharedPages.Table Int8 Page) (events : List SharedEvent)
    (h : Represents y t) (he : ∀ e ∈ events, e.Admitted) :
    Represents (run Shared.next y events)
      (run (SharedPages.Table.next slotOf answerSlot) t (events.map SharedEvent.pages)) := by
  induction events generalizing y t with
  | nil => exact h
  | cons e events ih =>
    obtain ⟨hhead, htail⟩ := List.forall_mem_cons.mp he
    exact ih _ _ (next_represents h hhead) htail

theorem stored_eq (h : Represents y t) (e : SharedEvent) : y.stored e = t.writes e.pages := by
  rw [SharedPages.Table.writes, client_pages]
  cases e with
  | reset i | start i page => cases hc : t.clients[i]? <;> simp [Shared.stored, SharedEvent.client,
      SharedEvent.pages, SharedPages.Client.writes, hc]
  | answer i k r =>
    rw [Shared.stored, SharedEvent.client, SharedEvent.pages]
    cases hc : y.clients[i]? with
    | none => rw [h.client_none hc]; rfl
    | some c =>
      obtain ⟨a, ha, hshows⟩ := h.client_some hc
      rw [ha, Option.bind_some, hshows.pending]
      simp only [Option.map_some, Option.getD_some]
      cases served r <;> cases hk : a.pending[k]? <;> simp [SharedPages.Client.writes, hk]

theorem history_eq (h : Represents y t) {events : List SharedEvent}
    (he : ∀ e ∈ events, e.Admitted) :
    y.history events = t.history slotOf answerSlot (events.map SharedEvent.pages) := by
  induction events generalizing y t with
  | nil => rfl
  | cons e events ih =>
    obtain ⟨hhead, htail⟩ := List.forall_mem_cons.mp he
    have hrest := ih (next_represents h hhead) htail
    rw [Shared.history, SharedPages.Table.history] at hrest ⊢
    rw [List.map_cons, collect, collect, stored_eq h e, hrest]

-- ---------------------------------------------------------------------------
-- From the beginning
-- ---------------------------------------------------------------------------

/-- One new controller for each of the observers. -/
def Shared.opened (os : List Observer) (db : Db) : Shared :=
  { db, clients := os.map fun o => ⟨fresh o db, []⟩ }

/-- What the store holds for a page from 1 to 127 is a full page or nothing. -/
def FullCache (db : Db) : Prop :=
  ∀ page : Int8, 0 < page.toInt → requestDb db page = [] ∨ (requestDb db page).length = itemPerPage

def cachedPages (db : Db) (page : Int8) : Option Page :=
  if 0 < page.toInt ∧ requestDb db page ≠ [] then some (requestDb db page) else none

def Shared.table (os : List Observer) (db : Db) : SharedPages.Table Int8 Page :=
  { cache := cachedPages db, clients := os.map fun _ => ⟨[], []⟩ }

theorem represents_opened (os : List Observer) (h : FullCache db) :
    Represents (Shared.opened os db) (Shared.table os db) := by
  refine ⟨by simp [Shared.opened, Shared.table], fun i c a hc ha => ?_, fun page hpage => ?_,
    fun page b hb => ?_⟩
  · simp only [Shared.opened, Shared.table, List.getElem?_map] at hc ha
    obtain ⟨o, ho, rfl⟩ := Option.map_eq_some_iff.mp hc
    obtain ⟨-, -, rfl⟩ := Option.map_eq_some_iff.mp ha
    exact ⟨⟨o, fresh_attended⟩, rfl, fun _ hb => (nomatch hb), rfl, fun _ hp => (nomatch hp)⟩
  · show requestDb db page = (cachedPages db page).getD []
    rw [cachedPages]
    by_cases hne : requestDb db page = [] <;> simp [hpage, hne]
  · have hb : b ∈ cachedPages db page := hb
    rw [cachedPages] at hb
    split at hb
    · rename_i hcached
      cases hb
      exact (h page hcached.1).resolve_left hcached.2
    · cases hb

/-- A page the store had at the beginning, or an answer among these events. -/
def Known (db : Db) (events : List SharedEvent) (b : Page) : Prop :=
  (∃ page : Int8, 0 < page.toInt ∧ b = requestDb db page) ∨
    ∃ i k t, .answer i k t ∈ events ∧ b ∈ served t

theorem table_holds (os : List Observer) (db : Db) (events : List SharedEvent) :
    (Shared.table os db).Holds (Known db events) := by
  constructor
  · intro page b hb
    have hb : b ∈ cachedPages db page := hb
    rw [cachedPages] at hb
    split at hb
    · rename_i hcached
      cases hb
      exact .inl ⟨page, hcached.1, rfl⟩
    · cases hb
  · intro c hc b hb
    obtain ⟨o, -, rfl⟩ := List.mem_map.mp hc
    cases hb

theorem known_of_result (he : e ∈ events) : ∀ b ∈ e.pages.result, Known db events b := by
  cases e with
  | reset | start => exact fun b hb => nomatch hb
  | answer i k t => exact fun b hb => .inr ⟨i, k, t, he, hb⟩

/-- Every list a controller publishes is made of whole pages, each of them an
answer to one of the controllers or in the store from the beginning. -/
theorem published_pages (os : List Observer) (db : Db) (before : List SharedEvent)
    (e : SharedEvent) (hdb : FullCache db) (hbefore : ∀ e ∈ before, e.Admitted)
    (he : e.Admitted) :
    ∀ v ∈ (run Shared.next (Shared.opened os db) before).published e,
      ∃ blocks : List Page, v.explores = blocks.flatten ∧
        ∀ b ∈ blocks, b.length = itemPerPage ∧ Known db (before ++ [e]) b := by
  intro v hv
  have hrun := run_represents _ _ before (represents_opened os hdb) hbefore
  have hholds : (run (SharedPages.Table.next slotOf answerSlot) (Shared.table os db)
      (before.map SharedEvent.pages)).Holds (Known db (before ++ [e])) := by
    refine SharedPages.run_holds (table_holds os db _) fun e' he' => ?_
    obtain ⟨e'', hmem, rfl⟩ := List.mem_map.mp he'
    exact known_of_result (List.mem_append_left _ hmem)
  rw [Shared.published] at hv
  split at hv
  · cases hv
  · rename_i c hc
    obtain ⟨a, ha, hshows⟩ := hrun.client_some hc
    obtain ⟨hnext, -, hpublished⟩ := follows hshows hrun.stores he
    refine ⟨_, (hpublished v hv).trans hnext.items, fun b hb => ⟨hnext.full b hb, ?_⟩⟩
    exact SharedPages.Client.next_holds hholds.cache (hholds.clients a (List.mem_of_getElem? ha))
      (known_of_result (by simp)) b hb

/-- A page is cached once for all controllers: as its latest answer to any of
them, or as it was in the beginning. -/
theorem requestDb_run_shared (os : List Observer) (db : Db) (events : List SharedEvent)
    (page : Int8) (hdb : FullCache db) (he : ∀ e ∈ events, e.Admitted) (hpage : 0 < page.toInt) :
    requestDb (run Shared.next (Shared.opened os db) events).db page =
      (KeyStore.latest page ((Shared.opened os db).history events)).getD (requestDb db page) := by
  have hopened := represents_opened os hdb
  have hrun := run_represents _ _ events hopened he
  rw [hrun.stores.reads page hpage, SharedPages.cache_run, ← history_eq hopened he]
  cases KeyStore.latest page ((Shared.opened os db).history events) with
  | none => exact (hopened.stores.reads page hpage).symm
  | some b => rfl

end

section
attribute [local instance] integerFloats

theorem fullCache_empty : FullCache KeyStore.Store.empty :=
  fun page _ => .inl (requestDb_empty page)

/-- Both controllers ask for page 1, and the second is answered later. -/
def bothAsked : List SharedEvent :=
  [.start 0 1, .start 1 1, .answer 0 0 (pageAnswer "abcdefghij"),
    .answer 1 0 (pageAnswer "0123456789")]

theorem run_represents_bothAsked :
    Represents (run Shared.next (Shared.opened [0, 1] KeyStore.Store.empty) bothAsked)
      (run (SharedPages.Table.next slotOf answerSlot) (Shared.table [0, 1] KeyStore.Store.empty)
        (bothAsked.map SharedEvent.pages)) :=
  run_represents _ _ bothAsked (represents_opened _ fullCache_empty) (by decide +kernel)

/-- Asking once more, the first controller shows what the second was answered. -/
theorem published_pages_bothAsked :
    ∃ v ∈ (run Shared.next (Shared.opened [0, 1] KeyStore.Store.empty) bothAsked).published
        (.start 0 1),
      ∃ blocks : List Page, v.explores = blocks.flatten ∧
        ∀ b ∈ blocks, b.length = itemPerPage ∧
          Known KeyStore.Store.empty (bothAsked ++ [.start 0 1]) b := by
  have hv : cacheUpdate (constructDetailViewDataFromData (pageBody "0123456789")) ∈
      (run Shared.next (Shared.opened [0, 1] KeyStore.Store.empty) bothAsked).published
        (.start 0 1) := by
    decide +kernel
  exact ⟨_, hv, published_pages [0, 1] KeyStore.Store.empty bothAsked (.start 0 1)
    fullCache_empty (by decide +kernel) (by decide) _ hv⟩

theorem requestDb_run_shared_bothAsked :
    requestDb (run Shared.next (Shared.opened [0, 1] KeyStore.Store.empty) bothAsked).db 1 =
      constructDetailViewDataFromData (pageBody "0123456789") := by
  rw [requestDb_run_shared [0, 1] KeyStore.Store.empty bothAsked 1 fullCache_empty
    (by decide +kernel) (by decide)]
  decide +kernel

end

end Cookpit.Explore
