import Cookpit.Explore.Laws

/-!
# Pages requested one after the other

`requestPages` issues request after request, each answered before the next,
the way the data controllers load more. `listAfter` follows the list alone
through such a run (`exec_requestPages`).

Up to page 9 every page is appended in its place. The answer to page 10 is
merged as page 1, so a run of full pages ends there (`requestPages_exact_iff`).
A cached page shown first leaves no trace after the answer under the exact
condition `Harmless` (`requestPages_cache_iff`).
-/

namespace Cookpit.Explore

open ByteString Json11 Observed Paging

def lastUpdate (s : State) : Option ViewData := (s.calls.filterMap (·.2.viewData?)).getLast?

section
variable [Floats]

/-- Pages `page`, `page + 1` and so on, each answered before the next is asked for. -/
def requestPages : Nat → List Transfer → M Unit
  | _, [] => pure ()
  | page, t :: ts => do
    request (Int8.ofNat page) t
    requestPages (page + 1) ts

def answers (ts : List Transfer) : List (List DetailViewData) :=
  ts.map fun t => constructDetailViewDataFromData t.body

def published (ts : List Transfer) (s : State) : Option (List DetailViewData) :=
  (lastUpdate (exec (requestPages 1 ts) s).2).map ViewData.explores

/-- The list a run leaves, the cache of every page being that of `db`. -/
def listAfter (db : Db) : Nat → List Transfer → List DetailViewData → List DetailViewData
  | _, [], items => items
  | n, t :: ts, items =>
    listAfter db (n + 1) ts
      (response n t (place itemPerPage n (requestDb db (Int8.ofNat n)) items)).explores

theorem listAfter_append (db : Db) (n : Nat) (ts us : List Transfer) (items) :
    listAfter db n (ts ++ us) items =
      listAfter db (n + ts.length) us (listAfter db n ts items) := by
  induction ts generalizing n items with
  | nil => rfl
  | cons t ts ih =>
    rw [List.cons_append, listAfter, listAfter, ih, List.length_cons]
    congr 1
    omega

theorem lastUpdate_requested :
    lastUpdate (requested o n t s) = some (response n t (shown n s)) := by
  simp [lastUpdate, requested_calls, requestCalls, Call.viewData?]

/-- A run neither throws nor leaves the list, and the last update carries the
list it ends with. Pages are read from the cache before they are written. -/
theorem exec_requestPages (db : Db) (ts : List Transfer) (hs : s.Attended o) (h1 : 1 ≤ n)
    (hn : n + ts.length ≤ 128)
    (hdb : ∀ m, n ≤ m → m < 128 →
      requestDb s.self.db (Int8.ofNat m) = requestDb db (Int8.ofNat m))
    (hcached : ∀ m, n ≤ m → m < 128 → (requestDb db (Int8.ofNat m)).length ≤ itemPerPage)
    (hserved : ∀ t ∈ ts, t.Success →
      (constructDetailViewDataFromData t.body).length ≤ itemPerPage) :
    ∃ s', exec (requestPages n ts) s = (.ok (), s') ∧
      s'.self.items = listAfter db n ts s.self.items ∧
      (lastUpdate s').map ViewData.explores =
        if ts = [] then (lastUpdate s).map ViewData.explores else some s'.self.items := by
  induction ts generalizing n s with
  | nil => exact ⟨s, rfl, rfl, by simp⟩
  | cons t ts ih =>
    simp only [List.length_cons] at hn
    have hb : PageBounded n t s :=
      ⟨by rw [hdb n (Nat.le_refl n) (by omega)]; exact hcached n (Nat.le_refl n) (by omega),
        hserved t List.mem_cons_self⟩
    obtain ⟨s', he, hi, hl⟩ := ih (s := requested o n t s) (n := n + 1)
      (requested_attended hs) (by omega) (by omega)
      (fun m hm hlt => by
        rw [requested_db, requestDb_kept_of_ne (by omega) hlt (by omega)]
        exact hdb m (by omega) hlt)
      (fun m hm hlt => hcached m (by omega) hlt)
      (fun u hu => hserved u (List.mem_cons_of_mem _ hu))
    refine ⟨s', ?_, ?_, ?_⟩
    · rw [requestPages, exec_bind, exec_request hs h1 (by omega) hb]
      exact he
    · rw [hi, requested_items, shown, hdb n (Nat.le_refl n) (by omega)]
      rfl
    · rw [hl, if_neg (List.cons_ne_nil t ts)]
      by_cases hts : ts = []
      · subst hts
        rw [if_pos rfl, lastUpdate_requested, hi]
        rfl
      · rw [if_neg hts]

/-- A run of at least one request from an empty list publishes what it leaves. -/
theorem published_eq (ts : List Transfer) (hs : s.Attended o) (hitems : s.self.items = [])
    (hn : ts.length ≤ 127)
    (hcached : ∀ m, 1 ≤ m → m < 128 → (requestDb s.self.db (Int8.ofNat m)).length ≤ itemPerPage)
    (hserved : ∀ t ∈ ts, t.Success →
      (constructDetailViewDataFromData t.body).length ≤ itemPerPage) (hne : ts ≠ []) :
    (exec (requestPages 1 ts) s).1 = .ok () ∧
      published ts s = some (listAfter s.self.db 1 ts []) := by
  obtain ⟨s', he, hi, hl⟩ := exec_requestPages s.self.db ts (n := 1) hs (Nat.le_refl 1)
    (by omega) (fun _ _ _ => rfl) hcached hserved
  rw [published, he, hl, if_neg hne, hi, hitems]
  exact ⟨rfl, rfl⟩

-- ---------------------------------------------------------------------------
-- The empty cache
-- ---------------------------------------------------------------------------

def Served (ts : List Transfer) : Prop :=
  ∀ t ∈ ts, t.Success ∧ (constructDetailViewDataFromData t.body).length ≤ itemPerPage

instance (ts : List Transfer) : Decidable (Served ts) := by
  unfold Served
  infer_instance

theorem Served.cons (h : Served (t :: ts)) :
    (t.Success ∧ (constructDetailViewDataFromData t.body).length ≤ itemPerPage) ∧ Served ts :=
  ⟨h t List.mem_cons_self, fun u hu => h u (List.mem_cons_of_mem _ hu)⟩

theorem Served.append (h : Served (ts ++ us)) : Served ts ∧ Served us :=
  ⟨fun t ht => h t (List.mem_append_left _ ht), fun t ht => h t (List.mem_append_right _ ht)⟩

theorem listAfter_cons_empty (ht : t.Success) (n : Nat) (ts : List Transfer) (items) :
    listAfter KeyStore.Store.empty n (t :: ts) items =
      listAfter KeyStore.Store.empty (n + 1) ts (merged n t.body items) := by
  rw [listAfter, requestDb_empty, place_nil, explores_response, if_pos ht]

/-- Pages `n`, `n + 1` and so on, each in the slot of its leading digit. -/
def placeAll : Nat → List (List DetailViewData) → List DetailViewData → List DetailViewData
  | _, [], items => items
  | n, page :: pages, items =>
    placeAll (n + 1) pages (place itemPerPage (leadingDigit n) page items)

theorem listAfter_empty (hs : Served ts) (n : Nat) (items) :
    listAfter KeyStore.Store.empty n ts items = placeAll n (answers ts) items := by
  induction ts generalizing n items with
  | nil => rfl
  | cons t ts ih =>
    obtain ⟨⟨ht, -⟩, hs'⟩ := hs.cons
    rw [listAfter_cons_empty ht, ih hs']
    rfl

theorem length_merged {t : Transfer} (h1 : 1 ≤ n)
    (hd : (constructDetailViewDataFromData t.body).length ≤ itemPerPage) (items) :
    (merged n t.body items).length =
      if leadingDigit n * itemPerPage ≤ items.length then items.length
      else items.length + (constructDetailViewDataFromData t.body).length :=
  length_place (leadingDigit_pos h1) hd

theorem listAfter_of_le_nine (hs : Served ts) (hn : n + ts.length ≤ 10)
    (hi : items.length ≤ (n - 1) * itemPerPage) (h1 : 1 ≤ n) :
    listAfter KeyStore.Store.empty n ts items = items ++ (answers ts).flatten := by
  induction ts generalizing n items with
  | nil => simp [listAfter, answers]
  | cons t ts ih =>
    obtain ⟨⟨ht, hd⟩, hs'⟩ := hs.cons
    simp only [List.length_cons] at hn
    have hlt : items.length < leadingDigit n * itemPerPage := by
      rw [leadingDigit_of_lt (by omega)]
      simp only [itemPerPage] at hi ⊢
      omega
    have hstep : merged n t.body items = items ++ constructDetailViewDataFromData t.body :=
      place_of_length_lt hlt
    have hlen : (items ++ constructDetailViewDataFromData t.body).length ≤
        (n + 1 - 1) * itemPerPage := by
      simp only [itemPerPage, List.length_append] at hi hd ⊢
      omega
    rw [listAfter_cons_empty ht, hstep, ih hs' (by omega) hlen (by omega)]
    simp [answers]

theorem length_listAfter_ninety (hs : Served ts) (h1 : 1 ≤ n) (hn : n + ts.length ≤ 128)
    (hi : items.length = 9 * itemPerPage) :
    (listAfter KeyStore.Store.empty n ts items).length = 9 * itemPerPage := by
  induction ts generalizing n items with
  | nil => exact hi
  | cons t ts ih =>
    obtain ⟨⟨ht, hd⟩, hs'⟩ := hs.cons
    simp only [List.length_cons] at hn
    rw [listAfter_cons_empty ht]
    refine ih hs' (by omega) (by omega) ?_
    have hlead := leadingDigit_le (n := n) (by omega)
    rw [length_merged h1 hd, if_pos, hi]
    rw [hi]
    exact Nat.mul_le_mul_right _ hlead

theorem length_flatten_answers (h : ∀ t ∈ ts,
    (constructDetailViewDataFromData t.body).length = itemPerPage) :
    (answers ts).flatten.length = ts.length * itemPerPage := by
  have hfull : Full itemPerPage (answers ts) := by
    intro b hb
    obtain ⟨t, ht, rfl⟩ := List.mem_map.mp hb
    exact h t ht
  rw [hfull.length_flatten, answers, List.length_map]

/-- Behind nine full pages the list never grows. -/
theorem length_listAfter_of_nine_le (hs : Served ts) (hn : ts.length ≤ 127) (h9 : 9 ≤ ts.length)
    (hfull : ∀ t ∈ ts.take 9, (constructDetailViewDataFromData t.body).length = itemPerPage) :
    (listAfter KeyStore.Store.empty 1 ts []).length = 9 * itemPerPage := by
  have htake : (ts.take 9).length = 9 := by
    rw [List.length_take]
    omega
  have hs9 : Served (ts.take 9) := fun t ht => hs t (List.mem_of_mem_take ht)
  have hsr : Served (ts.drop 9) := fun t ht => hs t (List.mem_of_mem_drop ht)
  have hnine : (listAfter KeyStore.Store.empty 1 (ts.take 9) []).length = 9 * itemPerPage := by
    rw [listAfter_of_le_nine hs9 (by omega) (by simp) (by omega), List.nil_append,
      length_flatten_answers hfull, htake]
  rw [← List.take_append_drop 9 ts, listAfter_append]
  refine length_listAfter_ninety hsr (by omega) ?_ hnine
  rw [htake, List.length_drop]
  omega

/-- The list after a run of full pages, the last one aside, is their
concatenation up to page 9 and no further, unless page 10 is the last and
empty. -/
theorem listAfter_eq_flatten_iff (hs : Served ts) (hne : ts ≠ []) (hn : ts.length ≤ 127)
    (hfull : ∀ t ∈ ts.dropLast, (constructDetailViewDataFromData t.body).length = itemPerPage) :
    listAfter KeyStore.Store.empty 1 ts [] = (answers ts).flatten ↔
      ts.length ≤ 9 ∨ (ts.length = 10 ∧ (answers ts).getLast? = some []) := by
  by_cases h9 : ts.length ≤ 9
  · have happend : listAfter KeyStore.Store.empty 1 ts [] = [] ++ (answers ts).flatten :=
      listAfter_of_le_nine hs (by omega) (by simp) (by omega)
    simp [happend, h9]
  · -- The nine full pages come first; the rest never grows the list.
    obtain ⟨init, last, rfl⟩ : ∃ init last, ts = init ++ [last] :=
      ⟨ts.dropLast, ts.getLast hne, (List.dropLast_append_getLast hne).symm⟩
    simp only [List.dropLast_concat] at hfull
    obtain ⟨hsi, hsl⟩ := hs.append
    obtain ⟨⟨hlast, -⟩, -⟩ := hsl.cons
    have hfirst : ((answers init).flatten).length = init.length * itemPerPage :=
      length_flatten_answers hfull
    have htotal : (answers (init ++ [last])).flatten.length =
        init.length * itemPerPage + (constructDetailViewDataFromData last.body).length := by
      simpa [answers] using hfirst
    have hlen :
        (listAfter KeyStore.Store.empty 1 (init ++ [last]) []).length = 9 * itemPerPage := by
      refine length_listAfter_of_nine_le hs hn (by omega) fun t ht => hfull t ?_
      have hinit : 9 ≤ init.length := by
        rw [List.length_append, List.length_singleton] at h9
        omega
      rw [List.take_append_of_le_length hinit] at ht
      exact List.mem_of_mem_take ht
    simp only [List.length_append, List.length_singleton] at hn h9 ⊢
    constructor
    · intro he
      have := congrArg List.length he
      rw [hlen, htotal] at this
      simp only [itemPerPage] at this
      have hten : init.length = 9 := by omega
      refine .inr ⟨by omega, ?_⟩
      have hempty : constructDetailViewDataFromData last.body = [] :=
        List.eq_nil_of_length_eq_zero (by omega)
      simp [answers, hempty]
    · rintro (h | ⟨hten, hempty⟩)
      · omega
      · have hempty : constructDetailViewDataFromData last.body = [] := by
          simpa [answers] using hempty
        rw [listAfter_append, listAfter_of_le_nine hsi (by omega) (by simp) (by omega),
          listAfter_cons_empty hlast, merged, hempty, place_nil]
        simp [answers, hempty, listAfter]

/-- Pages 1 to n, all but the last full, are published in their order exactly
up to page 9: the answer to page 10 is taken for page 1. -/
theorem requestPages_exact_iff (s : State) (o : Observer) (ts : List Transfer) (hs : s.Attended o)
    (hitems : s.self.items = []) (hcache : s.self.db = KeyStore.Store.empty)
    (hne : ts ≠ []) (hn : ts.length ≤ 127) (hserved : Served ts)
    (hfull : ∀ t ∈ ts.dropLast, (constructDetailViewDataFromData t.body).length = itemPerPage) :
    (exec (requestPages 1 ts) s).1 = .ok () ∧
    (published ts s = some (answers ts).flatten ↔
      ts.length ≤ 9 ∨ (ts.length = 10 ∧ (answers ts).getLast? = some [])) := by
  obtain ⟨hok, hpublished⟩ := published_eq ts hs hitems hn (fun m _ _ => by simp [hcache])
    (fun t ht _ => (hserved t ht).2) hne
  rw [hpublished, hcache, Option.some_inj]
  exact ⟨hok, listAfter_eq_flatten_iff hserved hne hn hfull⟩

end

section
attribute [local instance] integerFloats

def tenPages : List Transfer :=
  List.replicate 9 (pageAnswer "0123456789") ++ [pageAnswer "abcdefghij"]

theorem requestPages_exact_iff_tenPages :
    (exec (requestPages 1 tenPages) (fresh 0 KeyStore.Store.empty)).1 = .ok () ∧
      published tenPages (fresh 0 KeyStore.Store.empty) ≠ some (answers tenPages).flatten := by
  obtain ⟨hok, h⟩ := requestPages_exact_iff (fresh 0 KeyStore.Store.empty) 0 tenPages
    fresh_attended rfl rfl (by decide +kernel) (by decide +kernel) (by decide +kernel)
    (by decide +kernel)
  refine ⟨hok, ?_⟩
  rw [Ne, h]
  decide +kernel

theorem requestPages_not_exact : ¬ ∀ (s : State) (o : Observer) (ts : List Transfer),
    s.Attended o → s.self.items = [] → s.self.db = KeyStore.Store.empty → ts ≠ [] →
    ts.length ≤ 127 → Served ts →
    (∀ t ∈ ts.dropLast, (constructDetailViewDataFromData t.body).length = itemPerPage) →
    published ts s = some (answers ts).flatten := by
  intro h
  have h := h (fresh 0 KeyStore.Store.empty) 0 tenPages fresh_attended rfl rfl
    (by decide +kernel) (by decide +kernel) (by decide +kernel) (by decide +kernel)
  revert h
  decide +kernel

end

-- ---------------------------------------------------------------------------
-- The cached page and the answer
-- ---------------------------------------------------------------------------

/-- Showing the cached photos of page `n` over `items` first leaves nothing
behind once `served` has arrived: there are none, or they and the answer are
equally many and end the slot the answer is written to, where the overwritten
photos and the answer together read as the answer appended. -/
def Harmless (n : Nat) (cached served items : List DetailViewData) : Prop :=
  cached = [] ∨
    (cached.length = served.length ∧
      items.length < leadingDigit n * itemPerPage ∧
      leadingDigit n * itemPerPage ≤ items.length + cached.length ∧
      served ++ (items.drop ((leadingDigit n - 1) * itemPerPage) ++ cached).drop served.length =
        items.drop ((leadingDigit n - 1) * itemPerPage) ++ served)

instance (n : Nat) (cached served items : List DetailViewData) :
    Decidable (Harmless n cached served items) := by
  unfold Harmless
  infer_instance

/-- Up to page 9 a cached page is harmless when it is empty, or when it, its
answer and all pages in front of it are full. -/
theorem harmless_iff_of_le_nine (h1 : 1 ≤ n) (hn : n ≤ 9) (hc : cached.length ≤ itemPerPage)
    (hi : items.length ≤ (n - 1) * itemPerPage) :
    Harmless n cached served items ↔ cached = [] ∨
      (cached.length = itemPerPage ∧ served.length = itemPerPage ∧
        items.length = (n - 1) * itemPerPage) := by
  rw [Harmless, leadingDigit_of_lt (by omega)]
  simp only [itemPerPage] at hc hi ⊢
  constructor
  · rintro (h | ⟨hlen, -, hreach, -⟩)
    · exact .inl h
    · exact .inr ⟨by omega, by omega, by omega⟩
  · rintro (h | ⟨hlen, hlen', hfull⟩)
    · exact .inl h
    · have hrest : items.drop ((n - 1) * 10) = [] := List.drop_eq_nil_of_le (by omega)
      have hover : cached.drop served.length = [] := List.drop_eq_nil_of_le (by omega)
      refine .inr ⟨by omega, by omega, by omega, ?_⟩
      rw [hrest, List.nil_append, List.nil_append, hover, List.append_nil]

/-- The merge of the answer undoes the merge of the cached page exactly where
that page is harmless. -/
theorem place_append_eq_iff (h1 : 1 ≤ n) (hc : cached.length ≤ itemPerPage)
    (hs : served.length ≤ itemPerPage) :
    place itemPerPage (leadingDigit n) served (items ++ cached) =
        place itemPerPage (leadingDigit n) served items ↔
      Harmless n cached served items := by
  have hd := leadingDigit_pos h1
  obtain ⟨e, he⟩ : ∃ e, leadingDigit n = e + 1 := ⟨leadingDigit n - 1, by omega⟩
  simp only [Harmless, place, he, Nat.add_sub_cancel, itemPerPage, List.length_append] at *
  by_cases hcover : (e + 1) * 10 ≤ items.length
  · -- Both runs overwrite the slot; the cached page stays behind it.
    rw [if_pos (by omega), if_pos hcover, overwrite_append_left (by omega)]
    constructor
    · intro h
      exact .inl (List.append_right_eq_self.mp h)
    · rintro (rfl | ⟨-, h, -⟩)
      · simp
      · omega
  · rw [if_neg hcover]
    by_cases hreach : (e + 1) * 10 ≤ items.length + cached.length
    · -- The cached page makes the answer overwrite where it would be appended.
      rw [if_pos hreach]
      have hsplit : items = items.take (e * 10) ++ items.drop (e * 10) :=
        (List.take_append_drop _ _).symm
      have hleft : overwrite (items ++ cached) (e * 10) served =
          items.take (e * 10) ++
            (served ++ (items.drop (e * 10) ++ cached).drop served.length) := by
        rw [overwrite, ← List.drop_drop, List.take_append_of_le_length (by omega),
          List.drop_append_of_le_length (by omega), List.append_assoc]
      have hright : items ++ served = items.take (e * 10) ++ (items.drop (e * 10) ++ served) := by
        rw [← List.append_assoc, List.take_append_drop]
      rw [hleft, hright, List.append_cancel_left_eq]
      constructor
      · intro h
        have hlen := congrArg List.length h
        simp only [List.length_append, List.length_drop] at hlen
        exact .inr ⟨by omega, by omega, hreach, h⟩
      · rintro (rfl | ⟨-, -, -, h⟩)
        · simp only [List.length_nil] at hreach
          omega
        · exact h
    · rw [if_neg hreach, List.append_cancel_right_eq, List.append_right_eq_self]
      constructor
      · exact .inl
      · rintro (rfl | ⟨-, -, h, -⟩)
        · rfl
        · exact absurd h hreach

section
variable [Floats]

/-- Without a cache the list stays shorter than the slot of the next page: it
grows by at most a page a request, and past page 9 no longer. -/
theorem length_listAfter_le (items) (hs : Served ts) (h1 : 1 ≤ n) (hn : n + ts.length ≤ 128)
    (hi : items.length ≤ (n - 1) * itemPerPage) (hi' : items.length < 100) :
    (listAfter KeyStore.Store.empty n ts items).length ≤ (n + ts.length - 1) * itemPerPage ∧
      (listAfter KeyStore.Store.empty n ts items).length < 100 := by
  induction ts generalizing n items with
  | nil => exact ⟨hi, hi'⟩
  | cons t ts ih =>
    obtain ⟨⟨ht, hd⟩, hs'⟩ := hs.cons
    simp only [List.length_cons] at hn
    have hlead := leadingDigit_le (n := n) (by omega)
    have hlen := length_merged h1 hd items
    rw [listAfter_cons_empty ht, List.length_cons,
      show n + (ts.length + 1) = n + 1 + ts.length by omega]
    have hstep : (merged n t.body items).length ≤ n * itemPerPage ∧
        (merged n t.body items).length < 100 := by
      rw [hlen]
      split <;> simp only [itemPerPage] at * <;> omega
    exact ih _ hs' (by omega) (by omega) hstep.1 hstep.2

theorem listAfter_take_succ {ts : List Transfer} (db : Db) (hk : k < ts.length) (items) :
    listAfter db 1 (ts.take (k + 1)) items =
      (response (k + 1) ts[k] (place itemPerPage (k + 1) (requestDb db (Int8.ofNat (k + 1)))
        (listAfter db 1 (ts.take k) items))).explores := by
  have hlen : 1 + (ts.take k).length = k + 1 := by
    rw [List.length_take]
    omega
  rw [List.take_succ_eq_append_getElem hk, listAfter_append, hlen]
  rfl

/-- Two runs over the same answers, one with and one without a cache, agree at
every length exactly when each cached page is harmless where it is shown. -/
theorem listAfter_cache_iff {db : Db} (hs : Served ts) (hn : ts.length ≤ 127)
    (hcached : ∀ m, 1 ≤ m → m < 128 → (requestDb db (Int8.ofNat m)).length ≤ itemPerPage) :
    (∀ k ≤ ts.length, listAfter db 1 (ts.take k) [] =
        listAfter KeyStore.Store.empty 1 (ts.take k) []) ↔
      ∀ k, (hk : k < ts.length) → Harmless (k + 1) (requestDb db (Int8.ofNat (k + 1)))
        (constructDetailViewDataFromData ts[k].body)
        (listAfter KeyStore.Store.empty 1 (ts.take k) []) := by
  have step (k : Nat) (hk : k < ts.length) (heq : listAfter db 1 (ts.take k) [] =
      listAfter KeyStore.Store.empty 1 (ts.take k) []) :
      listAfter db 1 (ts.take (k + 1)) [] =
          listAfter KeyStore.Store.empty 1 (ts.take (k + 1)) [] ↔
        Harmless (k + 1) (requestDb db (Int8.ofNat (k + 1)))
          (constructDetailViewDataFromData ts[k].body)
          (listAfter KeyStore.Store.empty 1 (ts.take k) []) := by
    obtain ⟨ht, hd⟩ := hs ts[k] (List.getElem_mem hk)
    have hst : Served (ts.take k) := fun t h => hs t (List.mem_of_mem_take h)
    have hbound := length_listAfter_le [] (n := 1) hst (by omega)
      (by rw [List.length_take]; omega) (by simp) (by simp)
    have hlt :
        (listAfter KeyStore.Store.empty 1 (ts.take k) []).length < (k + 1) * itemPerPage := by
      rw [List.length_take] at hbound
      simp only [itemPerPage] at hbound ⊢
      omega
    rw [listAfter_take_succ db hk, listAfter_take_succ _ hk, heq, requestDb_empty, place_nil,
      place_of_length_lt hlt, explores_response, explores_response, if_pos ht, if_pos ht]
    exact place_append_eq_iff (by omega) (hcached (k + 1) (by omega) (by omega)) hd
  constructor
  · intro h k hk
    exact (step k hk (h k (by omega))).mp (h (k + 1) (by omega))
  · intro h k hk
    induction k with
    | zero => rfl
    | succ k ih => exact (step k (by omega) (ih (by omega))).mpr (h k (by omega))

/-- The cache is transparent: after each request of a run the list published
is the one the same run publishes from an empty cache. This holds exactly when
every cached page is harmless over the pages answered before it. -/
theorem requestPages_cache_iff (s s₀ : State) (o : Observer) (ts : List Transfer)
    (hs : s.Attended o) (hs₀ : s₀.Attended o) (hitems : s.self.items = [])
    (hitems₀ : s₀.self.items = []) (hcache₀ : s₀.self.db = KeyStore.Store.empty)
    (hcached : ∀ m, 1 ≤ m → m < 128 →
      (requestDb s.self.db (Int8.ofNat m)).length ≤ itemPerPage)
    (hn : ts.length ≤ 127) (hserved : Served ts) :
    (∀ k, 1 ≤ k → k ≤ ts.length → published (ts.take k) s = published (ts.take k) s₀) ↔
      ∀ k, (hk : k < ts.length) → Harmless (k + 1)
        (requestDb s.self.db (Int8.ofNat (k + 1))) (constructDetailViewDataFromData ts[k].body)
        (placeAll 1 (answers (ts.take k)) []) := by
  have hrun (k : Nat) (h1 : 1 ≤ k) (hk : k ≤ ts.length) {r : State} (hr : r.Attended o)
      (hi : r.self.items = [])
      (hc : ∀ m, 1 ≤ m → m < 128 →
        (requestDb r.self.db (Int8.ofNat m)).length ≤ itemPerPage) :
      published (ts.take k) r = some (listAfter r.self.db 1 (ts.take k) []) := by
    have hlen : (ts.take k).length = k := by
      rw [List.length_take]
      omega
    refine (published_eq (ts.take k) hr hi (by omega) hc
      (fun t ht _ => (hserved t (List.mem_of_mem_take ht)).2) ?_).2
    rw [← List.length_pos_iff]
    omega
  have hempty : ∀ m, 1 ≤ m → m < 128 →
      (requestDb s₀.self.db (Int8.ofNat m)).length ≤ itemPerPage := fun m _ _ => by simp [hcache₀]
  have hleft : (∀ k, 1 ≤ k → k ≤ ts.length → published (ts.take k) s = published (ts.take k) s₀) ↔
      ∀ k ≤ ts.length, listAfter s.self.db 1 (ts.take k) [] =
        listAfter KeyStore.Store.empty 1 (ts.take k) [] := by
    refine ⟨fun h k hk => ?_, fun h k h1 hk => ?_⟩
    · cases k with
      | zero => rfl
      | succ k =>
        have heq := h (k + 1) (by omega) hk
        rw [hrun (k + 1) (by omega) hk hs hitems hcached,
          hrun (k + 1) (by omega) hk hs₀ hitems₀ hempty, hcache₀] at heq
        exact Option.some_inj.mp heq
    · rw [hrun k h1 hk hs hitems hcached, hrun k h1 hk hs₀ hitems₀ hempty, hcache₀, h k hk]
  rw [hleft, listAfter_cache_iff hserved hn hcached]
  refine forall_congr' fun k => forall_congr' fun hk => ?_
  have htake : Served (ts.take k) := fun t ht => hserved t (List.mem_of_mem_take ht)
  rw [listAfter_empty htake]

end

section
attribute [local instance] integerFloats

def shortCache : Db := saved KeyStore.Store.empty 1 (pageBody "abcde")

theorem length_requestDb_shortCache (page : Int8) :
    (requestDb shortCache page).length ≤ itemPerPage := by
  rw [shortCache, requestDb_saved]
  split
  · decide +kernel
  · simp

theorem requestPages_cache_iff_shortCache :
    ¬ ∀ k, 1 ≤ k → k ≤ 1 →
      published ([pageAnswer "0123456789"].take k) (fresh 0 shortCache) =
        published ([pageAnswer "0123456789"].take k) (fresh 0 KeyStore.Store.empty) := by
  have h := requestPages_cache_iff (fresh 0 shortCache) (fresh 0 KeyStore.Store.empty) 0
    [pageAnswer "0123456789"] fresh_attended fresh_attended rfl rfl rfl
    (fun m _ _ => length_requestDb_shortCache (Int8.ofNat m)) (by decide) (by decide +kernel)
  intro hk
  exact absurd (h.mp hk 0 (by decide)) (by decide +kernel)

theorem requestPages_not_transparent : ¬ ∀ (s s₀ : State) (o : Observer) (ts : List Transfer),
    s.Attended o → s₀.Attended o → s.self.items = [] → s₀.self.items = [] →
    s₀.self.db = KeyStore.Store.empty →
    (∀ m, 1 ≤ m → m < 128 → (requestDb s.self.db (Int8.ofNat m)).length ≤ itemPerPage) →
    1 ≤ ts.length → ts.length ≤ 127 → Served ts → published ts s = published ts s₀ := by
  intro h
  have h := h (fresh 0 shortCache) (fresh 0 KeyStore.Store.empty) 0 [pageAnswer "0123456789"]
    fresh_attended fresh_attended rfl rfl rfl
    (fun m _ _ => length_requestDb_shortCache (Int8.ofNat m)) (by decide) (by decide)
    (by decide +kernel)
  revert h
  decide +kernel

end

end Cookpit.Explore
