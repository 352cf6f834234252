import Cookpit.Explore.Laws

/-!
# The merge of a page

Both `request` and `on_success` merge a page into the list, with the product of
the page and the page size computed as an `int` and compared as a `size_t`. For
a page of at most ten photos the two are one function: it never shortens the
list, keeps every photo outside the page's own slot, and leaves the page in one
block (`merge_framed`).
-/

namespace Cookpit.Explore

open ByteString Json11 Observed Paging

/-- `page * item_per_page` is an `int`. -/
def IntProduct (page : Int) : Prop := page * itemPerPage ≤ Int32.maxValue.toInt

instance (page : Int) : Decidable (IntProduct page) := by
  unfold IntProduct
  infer_instance

theorem intProduct_request (page : Int8) : IntProduct page.toInt := by
  have hlt : page.toInt < 2 ^ 7 := Int8.toInt_lt page
  have hmax : Int32.maxValue.toInt = 2147483647 := by decide
  simp only [IntProduct, itemPerPage, hmax]
  omega

theorem stoi_singleton_le (h : stoi [c] = .ok page) : page ≤ 9 := by
  have hall : ∀ n < 256, ∀ p ∈ (stoi [n.toUInt8]).toOption, p ≤ 9 := by decide +kernel
  refine hall c.toNat c.toNat_lt page ?_
  rw [Nat.toUInt8_eq, UInt8.ofNat_toNat, h]
  rfl

/-- An answer's page is one digit. -/
theorem intProduct_answer (h : pageOfUrl url = .ok page) : IntProduct page := by
  have hle : page ≤ 9 := by
    rw [pageOfUrl] at h
    cases hf : find (lit "page=") url with
    | none =>
      rw [hf] at h
      cases h
      decide
    | some found =>
      rw [hf] at h
      simp only [substr] at h
      split at h
      · cases hd : (url.drop (found + 5)).take 1 with
        | nil =>
          rw [hd] at h
          cases h
        | cons c rest =>
          have hlen : ((url.drop (found + 5)).take 1).length ≤ 1 := List.length_take_le _ _
          rw [hd] at h hlen
          obtain rfl : rest = [] := List.length_eq_zero_iff.mp (by simpa using hlen)
          exact stoi_singleton_le h
      · cases h
  have hmax : Int32.maxValue.toInt = 2147483647 := by decide
  simp only [IntProduct, itemPerPage, hmax]
  omega

theorem mergePage_eq_place (page : Int) (h1 : 1 ≤ page) (hint : IntProduct page)
    (hd : data.length ≤ itemPerPage) (items : List DetailViewData) :
    mergePage page data items = .ok (place itemPerPage page.toNat data items) := by
  obtain ⟨n, rfl⟩ : ∃ n : Nat, page = n := ⟨page.toNat, by omega⟩
  have hn : 1 ≤ n := by omega
  have hsize : n * itemPerPage < UInt64.size := by
    have hmax : Int32.maxValue.toInt = 2147483647 := by decide
    simp only [IntProduct, itemPerPage, hmax] at hint
    simp only [itemPerPage, UInt64.size]
    omega
  rw [mergePage_eq_of_size n hn hsize, if_pos (fits_of_length_le hn hd), Int.toNat_natCast]

-- ---------------------------------------------------------------------------
-- The two places
-- ---------------------------------------------------------------------------

section
variable [Floats] {s : State}

theorem items_start (ho : s.observer = some o) (page : Int8)
    (h : mergePage page.toInt (requestDb s.self.db page) s.self.items = .ok items) :
    (exec (start page) s).2.self.items = items := by
  rw [exec_start_some ho, h]
  exact keeps_notify (f := Data.items) _ _

theorem items_onSuccess (hpage : pageOfUrl url = .ok page) (h1 : 1 ≤ page)
    (h : mergePage page (constructDetailViewDataFromData body) s.self.items = .ok items) :
    (exec (onSuccess url body) s).2.self.items = items := by
  have hne : page ≠ -1 := by omega
  have hanswered : answered url body s.self.items = .ok (some items) := by
    rw [answered, hpage]
    simp only [if_neg hne, h]
    rfl
  have hkeeps : Keeps Data.items (do publish (okUpdate items); save url body : M Unit) :=
    (keeps_publish _).bind fun _ => keeps_modifySelf fun _ => rfl
  rw [exec_onSuccess, hanswered]
  exact hkeeps _

/-- Either place merges a page of at most ten photos alike, and what the page
does not cover stays where it was. -/
theorem merge_framed (page : Int) (h1 : 1 ≤ page) (data items : List DetailViewData)
    (hd : data.length ≤ itemPerPage) :
    ∃ merged, Framed itemPerPage page.toNat data items merged ∧
      (IntProduct page → mergePage page data items = .ok merged) ∧
      ∀ s : State, s.self.items = items →
        (∀ n : Int8, n.toInt = page → requestDb s.self.db n = data → ∀ o, s.observer = some o →
          (exec (start n) s).2.self.items = merged) ∧
        ∀ url body, pageOfUrl url = .ok page → constructDetailViewDataFromData body = data →
          (exec (onSuccess url body) s).2.self.items = merged := by
  have hmerge (hint : IntProduct page) := mergePage_eq_place page h1 hint hd items
  refine ⟨place itemPerPage page.toNat data items, framed_place (by omega) hd items, hmerge, ?_⟩
  rintro s rfl
  constructor
  · rintro n rfl rfl o ho
    exact items_start ho n (hmerge (intProduct_request n))
  · rintro url body hpage rfl
    exact items_onSuccess hpage h1 (hmerge (intProduct_answer hpage))

end

section
attribute [local instance] integerFloats

/-- The photos of three full pages. -/
def thirtyPhotos : List DetailViewData :=
  (List.replicate 3 (constructDetailViewDataFromData (pageBody "0123456789"))).flatten

/-- Two photos for the third page. -/
def thirdPage : List DetailViewData := constructDetailViewDataFromData (pageBody "ab")

/-- The third page is cached with other photos than are shown. -/
def thirtyShown : State :=
  withItems thirtyPhotos (fresh 0 (saved KeyStore.Store.empty 3 (pageBody "ab")))

/-- Two photos stand in the places of two of the third page. -/
def overwritten : List DetailViewData := thirtyPhotos.take 20 ++ thirdPage ++ thirtyPhotos.drop 22

theorem merge_framed_overwritten :
    Framed itemPerPage 3 thirdPage thirtyPhotos overwritten ∧
      (exec (start 3) thirtyShown).2.self.items = overwritten ∧
      (exec (onSuccess (constructUrl baseUrl 3) (pageBody "ab")) thirtyShown).2.self.items =
        overwritten := by
  obtain ⟨merged, hframed, hmerge, hplaces⟩ := merge_framed 3 (by decide) thirdPage thirtyPhotos
    (by decide +kernel)
  have hmerged : merged = overwritten := by
    have hoverwrites : (mergePage 3 thirdPage thirtyPhotos).toOption = some overwritten := by
      decide +kernel
    rw [hmerge (by decide)] at hoverwrites
    exact Option.some.inj hoverwrites
  rw [hmerged] at hframed hplaces
  obtain ⟨hrequest, hanswer⟩ := hplaces thirtyShown (withItems_items _ _)
  have hcached : requestDb thirtyShown.self.db 3 = thirdPage := by decide +kernel
  exact ⟨hframed, hrequest 3 (by decide) hcached 0 rfl,
    hanswer _ _ (pageOfUrl_constructUrl 3 (by decide) (by decide)) rfl⟩

end

end Cookpit.Explore
