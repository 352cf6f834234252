import Cookpit.Explore.DataController

/-!
# Page numbers on their way to the core

The data controllers count pages in the integers of their platform and narrow
them to a byte for the core: `toByte` wraps and `Int8` traps. From page to page
the number that arrives is the one counted up to page 127, and no further
(`numbered_iff`).
-/

namespace Cookpit.Explore

open ByteString Json11 Observed

/-- Of the calls 0 to `m` none fails as `Smooth` excludes, and in the last the
core takes the page `m + 1` and writes it into the address. -/
def Numbered (Smooth : Nat → Prop) (sent : Nat → Option Int8) (m : Nat) : Prop :=
  (∀ k ≤ m, Smooth k) ∧ ∃ page ∈ sent m, page.toInt = m + 1 ∧
    constructUrl baseUrl page = urlHead ++ (natToString (m + 1) ++ urlTail)

theorem numbered_le {Smooth : Nat → Prop} {sent : Nat → Option Int8}
    (h : Numbered Smooth sent m) : m ≤ 126 := by
  obtain ⟨-, page, -, hpage, -⟩ := h
  have hlt : page.toInt < 2 ^ 7 := Int8.toInt_lt page
  omega

theorem numbered_of_sent {Smooth : Nat → Prop} {sent : Nat → Option Int8} (hm : m ≤ 126)
    (hsmooth : ∀ k ≤ m, Smooth k) (hsent : sent m = some (Int8.ofNat (m + 1))) :
    Numbered Smooth sent m := by
  have hpage : (Int8.ofNat (m + 1)).toInt = ((m + 1 : Nat) : Int) :=
    Int8.toInt_ofNat_of_lt (by omega)
  refine ⟨hsmooth, Int8.ofNat (m + 1), hsent, hpage, ?_⟩
  rw [constructUrl_eq, hpage]
  rfl

-- ---------------------------------------------------------------------------
-- One request
-- ---------------------------------------------------------------------------

/-- A request makes its four calls and returns. -/
structure Completes (o : Observer) (s : State) (r : Except (Fault Thrown) Unit × State) : Prop where
  result : r.1 = .ok ()
  calls : ∃ v w, r.2.calls =
    s.calls ++ [.onBeginUpdate, .onUpdate v, .onUpdate w, .onEndUpdate].map (o, ·)

section
variable [Floats]

/-- With an observer that stays, a request completes, or a copy runs over the
end of the list. -/
theorem exec_request_cases {s : State} (hs : s.Attended o) (h1 : 1 ≤ n) (hn : n < 128)
    (t : Transfer) :
    (exec (request (Int8.ofNat n) t) s).2.Attended o ∧
      ((exec (request (Int8.ofNat n) t) s).1 = .error .outOfBounds ∨
        Completes o s (exec (request (Int8.ofNat n) t) s)) := by
  rw [request, exec_bind, exec_start_attended hs]
  cases hm : mergePage (Int8.ofNat n).toInt (requestDb s.self.db (Int8.ofNat n)) s.self.items with
  | error e =>
    rw [mergePage_error hm]
    exact ⟨hs.heard, .inl rfl⟩
  | ok items =>
    have ha : ((withItems items s).heard o
        [.onBeginUpdate, .onUpdate (cacheUpdate items)]).Attended o :=
      (withItems_attended hs items).heard
    simp only
    by_cases ht : t.Success
    · rw [exec_answer_of_success ht, exec_onSuccess_attended ha, answered_constructUrl h1 hn]
      by_cases hf : Fits (leadingDigit n) (constructDetailViewDataFromData t.body).length
          ((withItems items s).heard o
            [.onBeginUpdate, .onUpdate (cacheUpdate items)]).self.items.length
      · rw [if_pos hf]
        exact ⟨⟨hs.observer, hs.quiet⟩, .inr ⟨rfl, cacheUpdate items,
          okUpdate (merged n t.body items), by simp [State.heard, withDb]⟩⟩
      · rw [if_neg hf]
        exact ⟨ha, .inl rfl⟩
    · rw [exec_answer_failure ha ht]
      exact ⟨ha.heard, .inr ⟨rfl, cacheUpdate items, errorUpdate t.body items,
        by simp [State.heard]⟩⟩

end

-- ---------------------------------------------------------------------------
-- Android
-- ---------------------------------------------------------------------------

namespace Android

theorem receive_keeps (cs : List (Call ViewData)) (d : DataController) :
    (cs.foldl receive d).currentPage = d.currentPage ∧
      (cs.foldl receive d).controller = d.controller := by
  induction cs generalizing d with
  | nil => exact ⟨rfl, rfl⟩
  | cons c cs ih =>
    have hc : (receive d c).currentPage = d.currentPage ∧
        (receive d c).controller = d.controller := by
      cases c with
      | onBeginUpdate =>
        rw [receive, onBeginUpdate]
        split <;> exact ⟨rfl, rfl⟩
      | onUpdate v => exact ⟨rfl, rfl⟩
      | onEndUpdate => exact ⟨rfl, rfl⟩
    rw [List.foldl_cons]
    exact ⟨(ih _).1.trans hc.1, (ih _).2.trans hc.2⟩

theorem perform_keeps (x : M Unit) (d : DataController) :
    (perform x d).2.currentPage = d.currentPage ∧
      (perform x d).2.controller = (exec x d.controller).2 :=
  receive_keeps _ { d with controller := (exec x d.controller).2 }

section
variable [Floats] {serve : Nat → Transfer} {d : DataController}

/-- `reset()`, then `request(1)`, then one `requestNextPage()` after the other;
`serve` are the answers. -/
def calls (serve : Nat → Transfer) (d : DataController) :
    Nat → Except (Fault Thrown) Unit × DataController
  | 0 => request 1 (serve 0) (reset d).2
  | k + 1 => requestNextPage (serve (k + 1)) (calls serve d k).2

/-- The page the core is asked for. -/
def sent (serve : Nat → Transfer) (d : DataController) : Nat → Option Int8
  | 0 => some (1 : Int32).toInt8
  | k + 1 => some ((calls serve d k).2.currentPage + 1).toInt8

/-- Nothing is thrown. -/
def Smooth (serve : Nat → Transfer) (d : DataController) (k : Nat) : Prop :=
  ∀ e, (calls serve d k).1 ≠ .error (.thrown e)

/-- The state call `k` meets. -/
def before (serve : Nat → Transfer) (d : DataController) : Nat → DataController
  | 0 => (reset d).2
  | k + 1 => (calls serve d k).2

/-- The page counts the calls, whatever becomes of them. -/
theorem currentPage_calls (k : Nat) : (calls serve d k).2.currentPage = Int32.ofNat (k + 1) := by
  induction k with
  | zero => exact (perform_keeps _ _).1
  | succ k ih =>
    refine (perform_keeps _ _).1.trans ?_
    change (calls serve d k).2.currentPage + 1 = _
    rw [ih, page_succ]

theorem sent_eq (k : Nat) : sent serve d k = some (Int8.ofNat (k + 1)) := by
  cases k with
  | zero => rfl
  | succ k => rw [sent, currentPage_calls, page_succ, Int32.toInt8_ofNat']

/-- Each call asks the core for the page sent. -/
theorem calls_eq (k : Nat) :
    calls serve d k = perform (Explore.request (Int8.ofNat (k + 1)) (serve k))
      { before serve d k with currentPage := Int32.ofNat (k + 1) } := by
  cases k with
  | zero => rfl
  | succ k =>
    rw [calls, requestNextPage, request, currentPage_calls, page_succ, Int32.toInt8_ofNat']
    rfl

theorem before_attended (hd : d.controller.Attended this) (hk : k ≤ 127) :
    (before serve d k).controller.Attended this := by
  induction k with
  | zero =>
    rw [before, reset_eq]
    exact withItems_attended hd []
  | succ k ih =>
    rw [before, calls_eq, (perform_keeps _ _).2]
    exact (exec_request_cases (ih (by omega)) (by omega) (by omega) (serve k)).1

theorem smooth_calls (hd : d.controller.Attended this) (hk : k ≤ 126) : Smooth serve d k := by
  intro e
  have hresult : (calls serve d k).1 =
      (exec (Explore.request (Int8.ofNat (k + 1)) (serve k)) (before serve d k).controller).1 := by
    rw [calls_eq]
    rfl
  rw [hresult]
  have hbefore : (before serve d k).controller.Attended this := before_attended hd (by omega)
  rcases (exec_request_cases (n := k + 1) hbefore (by omega) (by omega) (serve k)).2 with hout | hok
  · rw [hout]
    simp
  · rw [hok.result]
    simp

end

end Android

-- ---------------------------------------------------------------------------
-- iOS
-- ---------------------------------------------------------------------------

namespace Ios

/-- `Int8(page)`. -/
def int8 (page : Int) : Option Int8 :=
  if -128 ≤ page ∧ page ≤ 127 then some (Int8.ofInt page) else none

section
variable [Floats] {serve : Nat → Transfer} {d : DataController}

def calls (serve : Nat → Transfer) (d : DataController) : Nat → Except Stop Unit × DataController
  | 0 => request 1 (serve 0) (reset d).2
  | k + 1 => requestNextPage (serve (k + 1)) (calls serve d k).2

/-- The page the core is asked for, if it is. -/
def sent (serve : Nat → Transfer) (d : DataController) : Nat → Option Int8
  | 0 => int8 1
  | k + 1 =>
    if !(calls serve d k).2.loadings then int8 ((calls serve d k).2.currentPage + 1) else none

/-- Nothing traps and nothing is thrown. -/
def Smooth (serve : Nat → Transfer) (d : DataController) (k : Nat) : Prop :=
  (calls serve d k).1 ≠ .error .trap ∧ ∀ e, (calls serve d k).1 ≠ .error (.fault (.thrown e))

def before (serve : Nat → Transfer) (d : DataController) : Nat → DataController
  | 0 => (reset d).2
  | k + 1 => (calls serve d k).2

/-- Nothing is loading, and the page counts the calls. -/
structure Ready (serve : Nat → Transfer) (d : DataController) (k : Nat) : Prop where
  attended : (before serve d k).controller.Attended this
  idle : (before serve d k).loadings = false
  page : 0 < k → (before serve d k).currentPage = k

theorem Ready.sent_eq (h : Ready serve d k) (hk : k ≤ 126) :
    sent serve d k = some (Int8.ofNat (k + 1)) := by
  cases k with
  | zero => rfl
  | succ k =>
    have hidle : (calls serve d k).2.loadings = false := h.idle
    have hpage : (calls serve d k).2.currentPage = ((k + 1 : Nat) : Int) := h.page (by omega)
    have hrange : -128 ≤ ((k + 1 : Nat) : Int) + 1 ∧ ((k + 1 : Nat) : Int) + 1 ≤ 127 := by omega
    rw [sent, hidle, hpage, int8, if_pos hrange]
    rfl

theorem Ready.calls_eq (h : Ready serve d k) (hk : k ≤ 126) :
    calls serve d k = perform (Explore.request (Int8.ofNat (k + 1)) (serve k))
      { before serve d k with currentPage := k + 1 } := by
  cases k with
  | zero => rfl
  | succ k =>
    have hpage : (calls serve d k).2.currentPage = ((k + 1 : Nat) : Int) := h.page (by omega)
    have hrange : -128 ≤ ((k + 1 : Nat) : Int) + 1 ∧ ((k + 1 : Nat) : Int) + 1 ≤ 127 := by omega
    have hidle : (calls serve d k).2.loadings = false := h.idle
    rw [calls, requestNextPage_of_idle hidle, request, hpage, if_pos hrange]
    rfl

theorem Ready.result (h : Ready serve d k) (hk : k ≤ 126) :
    (calls serve d k).1 = .error (.fault .outOfBounds) ∨
      (calls serve d k).1 = .ok () ∧ Ready serve d (k + 1) := by
  obtain ⟨hattended, hout | ⟨hok, v, w, hcalls⟩⟩ :=
    exec_request_cases h.attended (show 1 ≤ k + 1 by omega) (by omega) (serve k)
  · refine .inl ?_
    rw [h.calls_eq hk, perform]
    simp only [hout]
    rfl
  · have hafter : (calls serve d k).2 =
        { controller := (exec (Explore.request (Int8.ofNat (k + 1)) (serve k))
            (before serve d k).controller).2
          viewData := some w
          loadings := false
          currentPage := k + 1 } := by
      rw [h.calls_eq hk, perform]
      simp only [received_of_calls hcalls]
      rfl
    refine .inr ⟨?_, ?_, ?_, fun _ => ?_⟩
    · rw [h.calls_eq hk, perform]
      simp only [hok]
      rfl
    · rw [before, hafter]
      exact hattended
    · rw [before, hafter]
    · rw [before, hafter]
      rfl

theorem ready_of_inBounds (hd : d.controller.Attended this) (hidle : d.loadings = false)
    (hin : ∀ j < k, (calls serve d j).1 ≠ .error (.fault .outOfBounds)) (hk : k ≤ 127) :
    Ready serve d k := by
  induction k with
  | zero =>
    refine ⟨?_, ?_, fun h => absurd h (by omega)⟩
    · rw [before, reset_eq]
      exact withItems_attended hd []
    · rw [before, reset_eq]
      exact hidle
  | succ k ih =>
    have hready := ih (fun j hj => hin j (by omega)) (by omega)
    rcases hready.result (by omega) with hout | ⟨-, hnext⟩
    · exact absurd hout (hin k (by omega))
    · exact hnext

/-- Clean answers complete. -/
theorem Ready.clean (h : Ready serve d k) (hs : Serviceable (before serve d k).controller)
    (ht : Clean (serve k)) (hk : k ≤ 126) :
    (calls serve d k).1 = .ok () ∧ Ready serve d (k + 1) ∧
      Serviceable (before serve d (k + 1)).controller := by
  have hu : (Use.request (k + 1) (serve k)).Admitted := ⟨by omega, by omega, ht⟩
  have heq : calls serve d k = request ((k + 1 : Nat) : Int) (serve k) (before serve d k) := by
    have hrange : -128 ≤ ((k + 1 : Nat) : Int) ∧ ((k + 1 : Nat) : Int) ≤ 127 := by omega
    rw [h.calls_eq hk, request, if_pos hrange]
    rfl
  rw [request_eq hs.attended hu.1 hu.2.1 (hs.pageBounded hu)] at heq
  rcases h.result hk with hout | ⟨hok, hready⟩
  · rw [heq] at hout
    cases hout
  · refine ⟨hok, hready, ?_⟩
    rw [before, heq]
    exact hs.requested hu

theorem completes_of_clean (hd : Serviceable d.controller) (hidle : d.loadings = false)
    (hserve : ∀ k, Clean (serve k)) (hk : k ≤ 126) : (calls serve d k).1 = .ok () := by
  have hinv (j : Nat) (hj : j ≤ 127) :
      Ready serve d j ∧ Serviceable (before serve d j).controller := by
    induction j with
    | zero =>
      refine ⟨ready_of_inBounds hd.attended hidle (by simp) (by omega), ?_⟩
      rw [before, reset_eq]
      exact hd.reset
    | succ j ih =>
      obtain ⟨hready, hs⟩ := ih (by omega)
      exact (hready.clean hs (hserve j) (by omega)).2
  obtain ⟨hready, hs⟩ := hinv k (by omega)
  exact (hready.clean hs (hserve k) hk).1

theorem Ready.smooth (h : Ready serve d k) (hk : k ≤ 126) : Smooth serve d k := by
  rcases h.result hk with hout | ⟨hok, -⟩
  · rw [Smooth, hout]
    exact ⟨by simp, fun e => by simp⟩
  · rw [Smooth, hok]
    exact ⟨by simp, fun e => by simp⟩

end

end Ios

section
variable [Floats]

/-- After `reset()`, `request(1)` and `m` times `requestNextPage()`, each when
the one before is over, the core has taken the page `m + 1` and nothing has
trapped or thrown exactly if `m` is at most 126; that no answer before the last
runs over the end of the list is assumed. -/
theorem numbered_iff (m : Nat) (serve : Nat → Transfer) (a : Android.DataController)
    (i : Ios.DataController) (ha : a.controller.Attended this) (hi : i.controller.Attended this)
    (hidle : i.loadings = false)
    (hin : ∀ k < m, (Ios.calls serve i k).1 ≠ .error (.fault .outOfBounds)) :
    (Numbered (Android.Smooth serve a) (Android.sent serve a) m ↔ m ≤ 126) ∧
      (Numbered (Ios.Smooth serve i) (Ios.sent serve i) m ↔ m ≤ 126) := by
  have hready (k : Nat) (hk : k ≤ m) (hm : m ≤ 126) : Ios.Ready serve i k :=
    Ios.ready_of_inBounds hi hidle (fun j hj => hin j (by omega)) (by omega)
  refine ⟨⟨numbered_le, fun hm => ?_⟩, ⟨numbered_le, fun hm => ?_⟩⟩
  · exact numbered_of_sent hm (fun k hk => Android.smooth_calls ha (by omega)) (Android.sent_eq m)
  · exact numbered_of_sent hm (fun k hk => (hready k hk hm).smooth (by omega))
      ((hready m (Nat.le_refl m) hm).sent_eq hm)

end

section
attribute [local instance] integerFloats

def offline (_ : Nat) : Transfer := ⟨false, 0, []⟩

theorem serviceable_fresh : Serviceable (fresh this KeyStore.Store.empty) :=
  ⟨fresh_attended, cacheBounded_empty⟩

theorem offline_inBounds : ∀ k < 127, (Ios.calls offline (Ios.create KeyStore.Store.empty) k).1 ≠
    .error (.fault .outOfBounds) := by
  intro k hk
  have hclean (k : Nat) : Clean (offline k) := fun h => absurd h.1 Bool.false_ne_true
  rw [Ios.completes_of_clean serviceable_fresh rfl hclean (by omega)]
  simp

/-- The 127th page further is 128, which is -128 on Android and traps on iOS. -/
theorem numbered_iff_offline :
    ¬ Numbered (Android.Smooth offline (Android.create KeyStore.Store.empty))
        (Android.sent offline (Android.create KeyStore.Store.empty)) 127 ∧
      ¬ Numbered (Ios.Smooth offline (Ios.create KeyStore.Store.empty))
        (Ios.sent offline (Ios.create KeyStore.Store.empty)) 127 := by
  have h := numbered_iff 127 offline (Android.create KeyStore.Store.empty)
    (Ios.create KeyStore.Store.empty) fresh_attended fresh_attended rfl offline_inBounds
  exact ⟨fun hn => absurd (h.1.mp hn) (by decide), fun hn => absurd (h.2.mp hn) (by decide)⟩

theorem not_numbered : ¬ ∀ (m : Nat) (serve : Nat → Transfer) (a : Android.DataController)
    (i : Ios.DataController), a.controller.Attended this → i.controller.Attended this →
    i.loadings = false →
    (∀ k < m, (Ios.calls serve i k).1 ≠ .error (.fault .outOfBounds)) →
    Numbered (Android.Smooth serve a) (Android.sent serve a) m ∧
      Numbered (Ios.Smooth serve i) (Ios.sent serve i) m := by
  intro h
  have h := (h 127 offline (Android.create KeyStore.Store.empty)
    (Ios.create KeyStore.Store.empty) fresh_attended fresh_attended rfl offline_inBounds).1
  obtain ⟨-, page, hpage, hm, -⟩ := h
  rw [Android.sent_eq] at hpage
  obtain rfl := Option.mem_some_iff.mp hpage
  revert hm
  decide

end

end Cookpit.Explore
