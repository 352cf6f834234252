import Cookpit.Explore.Laws

/-!
# Overlapping requests

Requests for the pages 1 to n, each started once and answered once, in any
order that answers no request before it is started. Full pages from an empty
cache leave a list of blocks: the answers in their order, filled into the slot
of their page's leading digit (`exec_interleave`).

Where the order matters is then a question about `Paging.fill`. It never does
for one page, and from 97 pages on it does not where the pages of one slot are
answered alike; everywhere else two orders differ (`interleave_comm_iff`).
-/

namespace Cookpit.Explore

open ByteString Json11 Observed Paging

inductive Step
  | start (page : Nat)
  | answer (page : Nat)
  deriving DecidableEq, Repr

def Step.page : Step → Nat
  | .start p | .answer p => p

def Step.started : Step → Option Nat
  | .start p => some p
  | .answer _ => none

def Step.answered : Step → Option Nat
  | .start _ => none
  | .answer p => some p

theorem nodup_pages (n : Nat) : (pages n).Nodup := List.nodup_range'

structure Schedule (n : Nat) (steps : List Step) : Prop where
  starts : (steps.filterMap Step.started).Perm (pages n)
  answers : (steps.filterMap Step.answered).Perm (pages n)
  answer_after_start : ∀ before after p, steps = before ++ .answer p :: after → .start p ∈ before

theorem Schedule.page_mem (h : Schedule n steps) {step : Step} (hm : step ∈ steps) :
    step.page ∈ pages n := by
  cases step with
  | start p => exact h.starts.subset (List.mem_filterMap.mpr ⟨_, hm, rfl⟩)
  | answer p => exact h.answers.subset (List.mem_filterMap.mpr ⟨_, hm, rfl⟩)

/-- A page is started once, so no answer to it comes before its start. -/
theorem Schedule.fresh (h : Schedule n steps) (he : steps = before ++ .start p :: after) :
    .answer p ∉ before := by
  intro hm
  obtain ⟨first, rest, rfl⟩ := List.append_of_mem hm
  have hstart : .start p ∈ first := by
    refine h.answer_after_start first (rest ++ .start p :: after) p ?_
    rw [he, List.append_assoc, List.cons_append]
  have hnodup : (steps.filterMap Step.started).Nodup := h.starts.nodup_iff.mpr (nodup_pages n)
  rw [he, List.filterMap_append, List.filterMap_append, List.nodup_append] at hnodup
  have hfirst : p ∈ first.filterMap Step.started := List.mem_filterMap.mpr ⟨_, hstart, rfl⟩
  exact hnodup.2.2 p (List.mem_append_left _ hfirst) p (by simp [Step.started]) rfl

def startsThen (order : List Nat) : List Step := order.map .start ++ order.map .answer

theorem answered_startsThen (order : List Nat) :
    (startsThen order).filterMap Step.answered = order := by
  simp [startsThen, List.filterMap_map, Function.comp_def, Step.answered]

theorem schedule_startsThen (h : order.Perm (pages n)) : Schedule n (startsThen order) := by
  have hstarted : (startsThen order).filterMap Step.started = order := by
    simp [startsThen, List.filterMap_map, Function.comp_def, Step.started]
  refine ⟨by rwa [hstarted], by rwa [answered_startsThen], fun before after p he => ?_⟩
  have hm : p ∈ order := by
    rw [← answered_startsThen order, he]
    simp [Step.answered]
  rcases List.append_eq_append_iff.mp he with ⟨mid, rfl, -⟩ | ⟨mid, hmid, hrest⟩
  · exact List.mem_append_left _ (List.mem_map_of_mem hm)
  · cases mid with
    | nil =>
      rw [List.append_nil] at hmid
      rw [← hmid]
      exact List.mem_map_of_mem hm
    | cons step mid =>
      -- The answer would be one of the starts.
      obtain ⟨rfl, -⟩ := List.cons.inj hrest
      have : Step.answer p ∈ order.map Step.start := by
        rw [hmid]
        simp
      simp at this

section
variable [Floats]

def Step.run (serve : Nat → Transfer) : Step → M Unit
  | .start p => Explore.start (Int8.ofNat p)
  | .answer p => Explore.answer (Int8.ofNat p) (serve p)

/-- The steps in their order, `serve` being the answer to each page. -/
def interleave (serve : Nat → Transfer) : List Step → M Unit
  | [] => pure ()
  | step :: steps => do
    step.run serve
    interleave serve steps

def photos (serve : Nat → Transfer) (p : Nat) : List DetailViewData :=
  constructDetailViewDataFromData (serve p).body

def finalItems (serve : Nat → Transfer) (steps : List Step) (s : State) : List DetailViewData :=
  (exec (interleave serve steps) s).2.self.items

def ServedFull (serve : Nat → Transfer) (n : Nat) : Prop :=
  ∀ p ∈ pages n, (serve p).Success ∧ (photos serve p).length = itemPerPage

instance (serve : Nat → Transfer) (n : Nat) : Decidable (ServedFull serve n) := by
  unfold ServedFull
  infer_instance

/-- The starts show nothing new and the answers fill the list in their order. -/
theorem exec_interleave {serve : Nat → Transfer} (hs : s.Attended o) (hn : n < 128)
    (hserve : ServedFull serve n) (hpages : ∀ step ∈ steps, step.page ∈ pages n)
    (hfresh : ∀ before after p, steps = before ++ .start p :: after → .answer p ∉ before)
    (hcache : ∀ p, .start p ∈ steps → requestDb s.self.db (Int8.ofNat p) = [])
    (hfull : Full itemPerPage b) (hitems : s.self.items = b.flatten) :
    ∃ s', exec (interleave serve steps) s = (.ok (), s') ∧
      s'.self.items =
        (fill leadingDigit (photos serve) b (steps.filterMap Step.answered)).flatten := by
  induction steps generalizing s b with
  | nil => exact ⟨s, rfl, hitems⟩
  | cons step steps ih =>
    have hrest : ∀ step ∈ steps, step.page ∈ pages n := fun x hx =>
      hpages x (List.mem_cons_of_mem _ hx)
    have hfresh' : ∀ before after p, steps = before ++ .start p :: after → .answer p ∉ before :=
      fun before after p he hm =>
        hfresh (step :: before) after p (by rw [he]; rfl) (List.mem_cons_of_mem _ hm)
    rw [interleave, exec_bind]
    cases step with
    | start p =>
      have hpage : 1 ≤ p ∧ p ≤ n := mem_pages.mp (hpages _ List.mem_cons_self)
      have hempty : requestDb s.self.db (Int8.ofNat p) = [] := hcache p List.mem_cons_self
      have hshown : shown p s = s.self.items := by rw [shown, hempty, place_nil]
      have hstart := exec_start hs hpage.1 (show p < 128 by omega) (by rw [hempty]; simp)
      rw [Step.run, hstart, hshown]
      exact ih (withItems_attended hs _).heard hrest hfresh'
        (fun q hq => hcache q (List.mem_cons_of_mem _ hq)) hfull hitems
    | answer p =>
      have hpage : 1 ≤ p ∧ p ≤ n := mem_pages.mp (hpages _ List.mem_cons_self)
      have hp : p < 128 := by omega
      obtain ⟨ht, hlen⟩ := hserve p (mem_pages.mpr hpage)
      rw [Step.run, exec_answer_success hs hpage.1 hp ht (Nat.le_of_eq hlen)]
      refine ih (b := placeBlock (leadingDigit p) (photos serve p) b)
        ⟨hs.observer, hs.quiet⟩ hrest hfresh' (fun q hq => ?_) (hfull.placeBlock hlen) ?_
      · -- A page still to be started is another one.
        have hne : p ≠ q := by
          rintro rfl
          obtain ⟨before, after, he⟩ := List.append_of_mem hq
          exact hfresh (.answer p :: before) after p (by rw [he]; rfl) List.mem_cons_self
        have hq' : q < 128 := by
          have : 1 ≤ q ∧ q ≤ n := mem_pages.mp (hpages _ (List.mem_cons_of_mem _ hq))
          omega
        have hkept : requestDb (kept p (serve p) s.self.db) (Int8.ofNat q) =
            requestDb s.self.db (Int8.ofNat q) := requestDb_kept_of_ne hp hq' hne
        rw [kept, if_pos ht] at hkept
        exact hkept.trans (hcache q (List.mem_cons_of_mem _ hq))
      · show merged p (serve p).body s.self.items = _
        rw [merged, hitems]
        exact place_flatten hfull hlen (by decide) (leadingDigit_pos hpage.1)

theorem finalItems_eq {serve : Nat → Transfer} (hs : s.Attended o) (hitems : s.self.items = [])
    (hcache : s.self.db = KeyStore.Store.empty) (hn : n < 128) (hserve : ServedFull serve n)
    (h : Schedule n steps) :
    finalItems serve steps s =
      (fill leadingDigit (photos serve) [] (steps.filterMap Step.answered)).flatten := by
  obtain ⟨s', he, hi⟩ := exec_interleave (b := []) hs hn hserve (fun _ hm => h.page_mem hm)
    (fun _ _ _ he => h.fresh he) (fun p _ => by rw [hcache, requestDb_empty]) (by simp [Full])
    hitems
  rw [finalItems, he, hi]

end

-- ---------------------------------------------------------------------------
-- Where the order matters
-- ---------------------------------------------------------------------------

theorem leadingDigit_le_min (h : p ∈ pages n) (hn : n < 128) : leadingDigit p ≤ min n 9 := by
  rw [mem_pages] at h
  have h9 := leadingDigit_le (n := p) (by omega)
  have hself := leadingDigit_le_self p
  omega

theorem le_length_fill_pages {β : Type} (block : Nat → β) (hn : d ≤ n) (hd : d ≤ 9) :
    d ≤ (fill leadingDigit block [] (pages n)).length := by
  have hfirst : (fill leadingDigit block [] (pages d)).length = d := by
    clear hn
    induction d with
    | zero => rfl
    | succ d ih =>
      rw [pages_succ, fill_append, fill_cons, fill_nil, length_placeBlock, ih (by omega),
        leadingDigit_of_lt (by omega), if_neg (by omega)]
  have hsplit : pages n = pages d ++ List.range' (1 + d) (n - d) := by
    rw [pages, pages, List.range'_append_1]
    congr 1
    omega
  rw [hsplit, fill_append]
  exact (Nat.le_of_eq hfirst.symm).trans (le_length_fill _ _)

theorem countP_largest_slot : ∀ n < 97, 2 ≤ n →
    (pages n).countP (leadingDigit · = min n 9) ≤ min n 9 - 1 := by
  decide +kernel

theorem le_countP_slot : ∀ n < 128, 97 ≤ n → ∀ d < 10, 1 ≤ d →
    d ≤ (pages n).countP (leadingDigit · = d) := by
  decide +kernel

def largestFirst (n : Nat) : List Nat :=
  (pages n).filter (leadingDigit · = min n 9) ++ (pages n).filter (¬ leadingDigit · = min n 9)

theorem largestFirst_perm (n : Nat) : (largestFirst n).Perm (pages n) := by
  simpa [largestFirst] using List.filter_append_perm (leadingDigit · = min n 9) (pages n)

/-- Up to 96 pages there are too few for the largest slot to reach it. -/
theorem length_fill_largestFirst {β : Type} (block : Nat → β) (h2 : 2 ≤ n) (hn : n < 97) :
    (fill leadingDigit block [] (largestFirst n)).length ≤ min n 9 - 1 := by
  rw [largestFirst, fill_append]
  refine length_fill_le (fun p hp => ?_) ?_
  · obtain ⟨hp, hne⟩ := List.mem_filter.mp hp
    have := leadingDigit_le_min hp (by omega)
    simp only [decide_not, Bool.not_eq_true', decide_eq_false_iff_not] at hne
    omega
  · refine (length_fill_le_add _ _).trans ?_
    rw [List.length_nil, Nat.zero_add, ← List.countP_eq_length_filter]
    exact countP_largest_slot n hn h2

/-- Two pages of one slot, answered last, end differently unless alike. -/
theorem block_eq_of_swap {β : Type} {slot : Nat → Nat} {block : Nat → β} (hp : 1 ≤ slot p)
    (hslot : slot p = slot q)
    (h : fill slot block [] (order ++ [p, q]) = fill slot block [] (order ++ [q, p])) :
    block p = block q := by
  simp only [fill_append, fill_cons, fill_nil] at h
  generalize fill slot block [] order = blocks at h
  have hlen : (placeBlock (slot p) (block p) blocks).length =
      (placeBlock (slot q) (block q) blocks).length := by
    rw [length_placeBlock, length_placeBlock, hslot]
  have htarget : target (slot q) (placeBlock (slot p) (block p) blocks) =
      target (slot p) (placeBlock (slot q) (block q) blocks) := by
    rw [target, target, hlen, hslot]
  have hget := congrArg (·[target (slot q) (placeBlock (slot p) (block p) blocks)]?) h
  simp only [getElem?_placeBlock (hslot ▸ hp), getElem?_placeBlock hp, if_true, htarget] at hget
  exact (Option.some_inj.mp hget).symm

/-- From 97 pages on, answered alike in each slot, the list is one block a
slot. -/
theorem fill_of_alike {β : Type} {block : Nat → β} (hn : n < 128) (h97 : 97 ≤ n)
    (halike : ∀ p ∈ pages n, ∀ q ∈ pages n, leadingDigit p = leadingDigit q → block p = block q)
    (ho : order.Perm (pages n)) :
    fill leadingDigit block [] order = (pages 9).map block := by
  have hpos : ∀ p ∈ order, 1 ≤ leadingDigit p := fun p hp =>
    leadingDigit_pos (mem_pages.mp (ho.subset hp)).1
  have hlen : (fill leadingDigit block [] order).length ≤ 9 := by
    refine length_fill_le (fun p hp => ?_) (by simp)
    exact leadingDigit_le (by have := mem_pages.mp (ho.subset hp); omega)
  have hslot (d : Nat) (h1 : 1 ≤ d) (h9 : d ≤ 9) :
      (fill leadingDigit block [] order)[d - 1]? = some (block d) := by
    refine getElem?_fill hpos h1 (fun p hp hd => ?_) ?_
    · refine halike p (ho.subset hp) d (mem_pages.mpr (by omega)) ?_
      rw [hd, leadingDigit_of_lt (by omega)]
    · rw [ho.countP_eq]
      exact le_countP_slot n hn h97 d (by omega) h1
  refine List.ext_getElem? fun i => ?_
  by_cases hi : i < 9
  · have := hslot (i + 1) (by omega) (by omega)
    rw [Nat.add_sub_cancel] at this
    rw [this, List.getElem?_map, pages, List.getElem?_range' hi]
    simp [Nat.add_comm]
  · rw [List.getElem?_eq_none (by omega), List.getElem?_eq_none (by simp [pages]; omega)]

/-- The blocks are the same in every order for one page, or for 97 and more
that are answered alike in each slot. -/
theorem fill_comm_iff {β : Type} {block : Nat → β} (h1 : 1 ≤ n) (hn : n < 128) :
    (∀ order order' : List Nat, order.Perm (pages n) → order'.Perm (pages n) →
      fill leadingDigit block [] order = fill leadingDigit block [] order') ↔
      n = 1 ∨ (97 ≤ n ∧ ∀ p ∈ pages n, ∀ q ∈ pages n,
        leadingDigit p = leadingDigit q → block p = block q) := by
  constructor
  · intro h
    by_cases hone : n = 1
    · exact .inl hone
    refine .inr ⟨?_, fun p hp q hq hslot => ?_⟩
    · by_contra hlt
      have hfew := length_fill_largestFirst block (show 2 ≤ n by omega) (by omega)
      have hmany := le_length_fill_pages block (Nat.min_le_left n 9) (Nat.min_le_right n 9)
      rw [h _ _ (largestFirst_perm n) (List.Perm.refl _)] at hfew
      omega
    · by_cases hpq : p = q
      · rw [hpq]
      have hqe : q ∈ (pages n).erase p := (List.mem_erase_of_ne (Ne.symm hpq)).mpr hq
      have hperm : (((pages n).erase p).erase q ++ [p, q]).Perm (pages n) := by
        refine List.perm_append_comm.trans ?_
        have hq' := List.perm_cons_erase hqe
        have hp' := List.perm_cons_erase hp
        exact ((hp'.trans (hq'.cons p))).symm
      have hswap : (((pages n).erase p).erase q ++ [q, p]).Perm (pages n) :=
        ((List.Perm.swap p q []).append_left _).trans hperm
      exact block_eq_of_swap (leadingDigit_pos (mem_pages.mp hp).1) hslot (h _ _ hperm hswap)
  · rintro (rfl | ⟨h97, halike⟩) order order' ho ho'
    · rw [show pages 1 = [1] from rfl, List.perm_singleton] at ho ho'
      rw [ho, ho']
    · rw [fill_of_alike hn h97 halike ho, fill_of_alike hn h97 halike ho']

section
variable [Floats]

/-- Overlapping requests for the pages 1 to n, each answered with ten photos,
end with one and the same list that holds every photo of every answer, in
whatever order their steps come, exactly for n = 1, or for 97 pages and more
of which those with the same leading digit are answered alike. -/
theorem interleave_comm_iff (s : State) (o : Observer) (serve : Nat → Transfer) (n : Nat)
    (hs : s.Attended o) (hitems : s.self.items = []) (hcache : s.self.db = KeyStore.Store.empty)
    (h1 : 1 ≤ n) (hn : n ≤ 127) (hserve : ServedFull serve n) :
    (∀ steps steps', Schedule n steps → Schedule n steps' →
      finalItems serve steps s = finalItems serve steps' s ∧
        ∀ p ∈ pages n, photos serve p ⊆ finalItems serve steps s) ↔
      n = 1 ∨ (97 ≤ n ∧ ∀ p ∈ pages n, ∀ q ∈ pages n,
        leadingDigit p = leadingDigit q → photos serve p = photos serve q) := by
  have hfinal {steps : List Step} (h : Schedule n steps) :=
    finalItems_eq hs hitems hcache (by omega) hserve h
  have hfull {order : List Nat} (h : order.Perm (pages n)) :
      Full itemPerPage (fill leadingDigit (photos serve) [] order) :=
    Full.fill (by simp [Full]) fun p hp => (hserve p (h.subset hp)).2
  rw [← fill_comm_iff h1 (by omega)]
  constructor
  · intro h order order' ho ho'
    have heq := (h _ _ (schedule_startsThen ho) (schedule_startsThen ho')).1
    rw [hfinal (schedule_startsThen ho), hfinal (schedule_startsThen ho'), answered_startsThen,
      answered_startsThen] at heq
    exact (hfull ho).flatten_inj (by decide) (hfull ho') heq
  · intro h steps steps' hsch hsch'
    refine ⟨?_, fun p hp x hx => ?_⟩
    · rw [hfinal hsch, hfinal hsch', h _ _ hsch.answers hsch'.answers]
    · -- The page answered last is in the list.
      have hperm : ((pages n).erase p ++ [p]).Perm (pages n) :=
        List.perm_append_comm.trans (List.perm_cons_erase hp).symm
      rw [hfinal hsch, h _ _ hsch.answers hperm, List.mem_flatten]
      refine ⟨photos serve p, ?_, hx⟩
      rw [fill_append, fill_cons, fill_nil]
      exact mem_placeBlock (leadingDigit_pos (mem_pages.mp hp).1) _ _

end

section
attribute [local instance] integerFloats

def twoAnswers (p : Nat) : Transfer := pageAnswer (if p = 2 then "abcdefghij" else "0123456789")

theorem servedFull_twoAnswers : ServedFull twoAnswers 2 := by decide +kernel

theorem interleave_comm_iff_two :
    ¬ ∀ steps steps', Schedule 2 steps → Schedule 2 steps' →
      finalItems twoAnswers steps (fresh 0 KeyStore.Store.empty) =
          finalItems twoAnswers steps' (fresh 0 KeyStore.Store.empty) ∧
        ∀ p ∈ pages 2, photos twoAnswers p ⊆
          finalItems twoAnswers steps (fresh 0 KeyStore.Store.empty) := by
  have h := interleave_comm_iff (fresh 0 KeyStore.Store.empty) 0 twoAnswers 2 fresh_attended rfl
    rfl (by decide) (by decide) servedFull_twoAnswers
  rw [h]
  decide

theorem interleave_not_comm : ¬ ∀ (s : State) (o : Observer) (serve : Nat → Transfer) (n : Nat),
    s.Attended o → s.self.items = [] → s.self.db = KeyStore.Store.empty → 1 ≤ n → n ≤ 127 →
    ServedFull serve n → ∀ steps steps', Schedule n steps → Schedule n steps' →
      finalItems serve steps s = finalItems serve steps' s ∧
        ∀ p ∈ pages n, photos serve p ⊆ finalItems serve steps s := by
  intro h
  have h := h (fresh 0 KeyStore.Store.empty) 0 twoAnswers 2 fresh_attended rfl rfl (by decide)
    (by decide) servedFull_twoAnswers (startsThen [1, 2]) (startsThen [2, 1])
    (schedule_startsThen (List.Perm.refl _)) (schedule_startsThen (List.Perm.swap 1 2 []))
  revert h
  decide +kernel

end

end Cookpit.Explore
