import Mathlib.Data.List.Induction
import Mathlib.Tactic.Cases
import Mathlib.Tactic.Common

/-!
# Lists filled page by page

Pages of at most `k` elements are merged into one list: a page whose slot the
list already covers overwrites it, any other is appended (`place`), and what it
may touch of the list is in `Framed`. `copyTo`
is the element-wise copy that overwrites, with the bounds of the list it
writes into; `copyTo_eq` says when it stays inside and what it leaves.

When every page has exactly `k` elements the list is a list of blocks and
`place` is `placeBlock` on them. `fill` merges pages in a given order, each
into the slot a function of the page chooses, and its laws say how many blocks
an order produces and which page a block holds in the end.
-/

namespace Paging

variable {α : Type}

-- ---------------------------------------------------------------------------
-- Overwriting a slice
-- ---------------------------------------------------------------------------

/-- `data` in place of the elements from `start` on. -/
def overwrite (items : List α) (start : Nat) (data : List α) : List α :=
  items.take start ++ data ++ items.drop (start + data.length)

/-- `copy(data.begin(), data.end(), items.begin() + start)`, one element after
the other; `none` is a write outside the list. -/
def copyTo : List α → Int → List α → Option (List α)
  | [], _, items => some items
  | x :: data, start, items =>
    if 0 ≤ start ∧ start < items.length then copyTo data (start + 1) (items.set start.toNat x)
    else none

@[simp] theorem overwrite_nil (items : List α) (start : Nat) :
    overwrite items start [] = items := by
  simp [overwrite]

theorem length_overwrite {items data : List α} (h : start + data.length ≤ items.length) :
    (overwrite items start data).length = items.length := by
  simp only [overwrite, List.length_append, List.length_take, List.length_drop]
  omega

theorem overwrite_cons {items data : List α} {x : α} (h : start < items.length) :
    overwrite items start (x :: data) = overwrite (items.set start x) (start + 1) data := by
  have htake : (items.set start x).take (start + 1) = items.take start ++ [x] := by
    rw [List.take_succ_eq_append_getElem (by simpa using h), List.getElem_set_self,
      List.take_set_of_le (Nat.le_refl start)]
  have hdrop : (items.set start x).drop (start + 1 + data.length) =
      items.drop (start + 1 + data.length) := List.drop_set_of_lt (by omega)
  simp only [overwrite, htake, hdrop, List.length_cons, List.append_assoc, List.singleton_append]
  rw [show start + (data.length + 1) = start + 1 + data.length by omega]

/-- The copy succeeds exactly when the last index it writes is inside. -/
theorem copyTo_eq (data : List α) (start : Nat) (items : List α) :
    copyTo data start items =
      if data = [] ∨ start + data.length ≤ items.length then some (overwrite items start data)
      else none := by
  induction data generalizing start items with
  | nil => simp [copyTo]
  | cons x data ih =>
    by_cases h : start < items.length
    · have hc : (0 : Int) ≤ (start : Int) ∧ (start : Int) < (items.length : Int) := by omega
      have hn : (start : Int) + 1 = ((start + 1 : Nat) : Int) := by omega
      rw [copyTo, if_pos hc, hn, ih, overwrite_cons h, Int.toNat_natCast]
      by_cases hd : data = []
      · subst hd
        simp only [true_or, if_true, List.length_set, List.length_cons, List.length_nil]
        rw [if_pos (.inr (by omega))]
      · simp only [hd, false_or, List.length_set, List.length_cons, reduceCtorEq]
        rw [show start + 1 + data.length = start + (data.length + 1) by omega]
    · have hc : ¬ ((0 : Int) ≤ (start : Int) ∧ (start : Int) < (items.length : Int)) := by omega
      rw [copyTo, if_neg hc, if_neg]
      simp only [reduceCtorEq, false_or, List.length_cons]
      omega

theorem copyTo_subset {data items items' : List α} {start : Int}
    (h : copyTo data start items = some items') : items' ⊆ items ++ data := by
  induction data generalizing start items with
  | nil =>
    cases h
    simp
  | cons x data ih =>
    rw [copyTo] at h
    split at h
    · intro y hy
      rcases List.mem_append.mp (ih h hy) with hy | hy
      · rcases List.mem_or_eq_of_mem_set hy with hy | rfl
        · exact List.mem_append_left _ hy
        · simp
      · exact List.mem_append_right _ (List.mem_cons_of_mem _ hy)
    · cases h

theorem overwrite_append_left {items data rest : List α} (h : start + data.length ≤ items.length) :
    overwrite (items ++ rest) start data = overwrite items start data ++ rest := by
  rw [overwrite, overwrite, List.take_append_of_le_length (by omega),
    List.drop_append_of_le_length h]
  simp

theorem overwrite_eq_self_iff {items data : List α} :
    overwrite items start data = items ↔ (items.drop start).take data.length = data := by
  have hsplit : items = items.take start ++ ((items.drop start).take data.length ++
      items.drop (start + data.length)) := by
    rw [← List.drop_drop, List.take_append_drop, List.take_append_drop]
  constructor
  · intro he
    rw [overwrite, List.append_assoc] at he
    have := List.append_cancel_left (he.trans hsplit)
    exact (List.append_cancel_right this).symm
  · intro he
    rw [overwrite, List.append_assoc]
    conv_rhs => rw [hsplit, he]

theorem getElem?_overwrite_of_outside {items data : List α}
    (h : start + data.length ≤ items.length) (hi : i < start ∨ start + data.length ≤ i) :
    (overwrite items start data)[i]? = items[i]? := by
  have hlen : (items.take start).length = start := by
    rw [List.length_take, Nat.min_eq_left (by omega)]
  rw [overwrite, List.append_assoc]
  obtain hi | hi := hi
  · rw [List.getElem?_append_left (by omega), List.getElem?_take_of_lt hi]
  · rw [List.getElem?_append_right (by omega), List.getElem?_append_right (by omega),
      List.getElem?_drop, hlen]
    congr 1
    omega

theorem infix_overwrite (items data : List α) (start : Nat) :
    data <:+: overwrite items start data :=
  ⟨items.take start, items.drop (start + data.length), rfl⟩

-- ---------------------------------------------------------------------------
-- Merging a page
-- ---------------------------------------------------------------------------

/-- Page `slot`, counted from 1, of pages of `k` elements. -/
def place (k slot : Nat) (data items : List α) : List α :=
  if slot * k ≤ items.length then overwrite items ((slot - 1) * k) data else items ++ data

theorem place_nil (k slot : Nat) (items : List α) : place k slot [] items = items := by
  simp [place]

theorem slot_fits {k slot count length : Nat} (hs : 1 ≤ slot) (hd : count ≤ k)
    (h : slot * k ≤ length) : (slot - 1) * k + count ≤ length := by
  obtain ⟨n, rfl⟩ : ∃ n, slot = n + 1 := ⟨slot - 1, by omega⟩
  rw [Nat.add_mul] at h
  simp only [Nat.add_sub_cancel]
  omega

theorem length_place {k slot : Nat} {data items : List α} (hs : 1 ≤ slot) (hd : data.length ≤ k) :
    (place k slot data items).length =
      if slot * k ≤ items.length then items.length else items.length + data.length := by
  rw [place]
  split
  · rename_i h
    exact length_overwrite (slot_fits hs hd h)
  · simp

theorem place_of_length_lt {k slot : Nat} {data items : List α} (h : items.length < slot * k) :
    place k slot data items = items ++ data := by
  rw [place, if_neg (by omega)]

/-- The merge of `data` as page `slot` of `items` keeps what is not its own. -/
structure Framed (k slot : Nat) (data items merged : List α) : Prop where
  not_shorter : items.length ≤ merged.length
  outside : ∀ i < items.length, i < (slot - 1) * k ∨ (slot - 1) * k + data.length ≤ i →
    merged[i]? = items[i]?
  appended : items.length < slot * k → items <+: merged
  block : data <:+: merged

theorem framed_place {k slot : Nat} {data : List α} (hs : 1 ≤ slot) (hd : data.length ≤ k)
    (items : List α) : Framed k slot data items (place k slot data items) := by
  rw [place]
  split
  · rename_i h
    have hfit := slot_fits hs hd h
    constructor
    · exact Nat.le_of_eq (length_overwrite hfit).symm
    · intro i _ hi
      exact getElem?_overwrite_of_outside hfit hi
    · intro hlt
      exact absurd h (Nat.not_le.mpr hlt)
    · exact infix_overwrite items data _
  · constructor
    · simp
    · intro i hi _
      exact List.getElem?_append_left hi
    · intro _
      exact List.prefix_append items data
    · exact (List.suffix_append items data).isInfix

-- ---------------------------------------------------------------------------
-- Lists of full pages
-- ---------------------------------------------------------------------------

section Blocks
variable {β : Type}

/-- `place` on the pages of a list that holds full pages only. -/
def placeBlock (slot : Nat) (block : β) (blocks : List β) : List β :=
  if slot ≤ blocks.length then blocks.set (slot - 1) block else blocks ++ [block]

theorem length_placeBlock (slot : Nat) (block : β) (blocks : List β) :
    (placeBlock slot block blocks).length =
      if slot ≤ blocks.length then blocks.length else blocks.length + 1 := by
  rw [placeBlock]
  split <;> simp

def target (slot : Nat) (blocks : List β) : Nat :=
  if slot ≤ blocks.length then slot - 1 else blocks.length

theorem getElem?_placeBlock (hs : 1 ≤ slot) (block : β) (blocks : List β) (i : Nat) :
    (placeBlock slot block blocks)[i]? =
      if i = target slot blocks then some block else blocks[i]? := by
  by_cases h : slot ≤ blocks.length
  · rw [placeBlock, target, if_pos h, if_pos h, List.getElem?_set]
    by_cases hi : i = slot - 1
    · subst hi
      simp only [if_true, if_pos (show slot - 1 < blocks.length by omega)]
    · rw [if_neg hi, if_neg (Ne.symm hi)]
  · rw [placeBlock, target, if_neg h, if_neg h]
    rcases Nat.lt_trichotomy i blocks.length with hi | hi | hi
    · rw [if_neg (by omega), List.getElem?_append_left hi]
    · subst hi
      simp
    · rw [if_neg (by omega), List.getElem?_eq_none (by simp; omega),
        List.getElem?_eq_none (by omega)]

theorem mem_placeBlock (hs : 1 ≤ slot) (block : β) (blocks : List β) :
    block ∈ placeBlock slot block blocks := by
  have hget := getElem?_placeBlock hs block blocks (target slot blocks)
  rw [if_pos rfl] at hget
  exact List.mem_of_getElem? hget

end Blocks

def Full (k : Nat) (blocks : List (List α)) : Prop := ∀ b ∈ blocks, b.length = k

theorem Full.length_flatten (h : Full k blocks) :
    (blocks.flatten : List α).length = blocks.length * k := by
  induction blocks with
  | nil => simp
  | cons b blocks ih =>
    rw [List.flatten_cons, List.length_append, List.length_cons,
      ih fun x hx => h x (List.mem_cons_of_mem _ hx), h b List.mem_cons_self, Nat.succ_mul]
    omega

theorem Full.placeBlock {block : List α} (h : Full k blocks) (hb : block.length = k) :
    Full k (placeBlock slot block blocks) := by
  intro b hm
  rw [Paging.placeBlock] at hm
  split at hm
  · rcases List.mem_or_eq_of_mem_set hm with hm | rfl
    · exact h b hm
    · exact hb
  · rcases List.mem_append.mp hm with hm | hm
    · exact h b hm
    · rw [List.mem_singleton.mp hm, hb]

theorem overwrite_flatten {block : List α} (h : Full k blocks) (hb : block.length = k)
    (hi : i < blocks.length) :
    overwrite blocks.flatten (i * k) block = (blocks.set i block).flatten := by
  have hsplit : blocks = blocks.take i ++ blocks[i] :: blocks.drop (i + 1) := by simp
  have hpre : (blocks.take i).flatten.length = i * k := by
    rw [Full.length_flatten fun b hm => h b (List.mem_of_mem_take hm), List.length_take,
      Nat.min_eq_left (by omega)]
  have hold : blocks[i].length = k := h _ (List.getElem_mem hi)
  have hflat : blocks.flatten =
      (blocks.take i).flatten ++ (blocks[i] ++ (blocks.drop (i + 1)).flatten) := by
    have := congrArg List.flatten hsplit
    rwa [List.flatten_append, List.flatten_cons] at this
  rw [List.set_eq_take_append_cons_drop, if_pos hi, overwrite, hb, hflat, ← hpre]
  simp [List.drop_append, hold, hpre]

theorem place_flatten {block : List α} (h : Full k blocks) (hb : block.length = k)
    (hk : 0 < k) (hs : 1 ≤ slot) :
    place k slot block blocks.flatten = (placeBlock slot block blocks).flatten := by
  have hle : slot * k ≤ blocks.flatten.length ↔ slot ≤ blocks.length := by
    rw [h.length_flatten, Nat.mul_le_mul_right_iff hk]
  rw [place, placeBlock]
  by_cases hc : slot ≤ blocks.length
  · rw [if_pos (hle.mpr hc), if_pos hc, overwrite_flatten h hb (by omega)]
  · rw [if_neg (mt hle.mp hc), if_neg hc]
    simp

theorem Full.flatten_inj (hk : 0 < k) {blocks blocks' : List (List α)} (h : Full k blocks)
    (h' : Full k blocks') (he : blocks.flatten = blocks'.flatten) : blocks = blocks' := by
  induction blocks generalizing blocks' with
  | nil =>
    cases blocks' with
    | nil => rfl
    | cons b rest =>
      have := congrArg List.length he
      simp only [List.flatten_nil, List.flatten_cons, List.length_append,
        h' b List.mem_cons_self, List.length_nil] at this
      omega
  | cons b rest ih =>
    cases blocks' with
    | nil =>
      have := congrArg List.length he
      simp only [List.flatten_nil, List.flatten_cons, List.length_append,
        h b List.mem_cons_self, List.length_nil] at this
      omega
    | cons b' rest' =>
      rw [List.flatten_cons, List.flatten_cons] at he
      have hlen : b.length = b'.length := by
        rw [h b List.mem_cons_self, h' b' List.mem_cons_self]
      obtain ⟨rfl, hrest⟩ := List.append_inj he hlen
      rw [ih (fun x hx => h x (List.mem_cons_of_mem _ hx))
        (fun x hx => h' x (List.mem_cons_of_mem _ hx)) hrest]

-- ---------------------------------------------------------------------------
-- Filling in a given order
-- ---------------------------------------------------------------------------

section Fill
variable {π β : Type} (slot : π → Nat) (block : π → β)

def fill (blocks : List β) (order : List π) : List β :=
  order.foldl (fun blocks p => placeBlock (slot p) (block p) blocks) blocks

@[simp] theorem fill_nil (blocks : List β) : fill slot block blocks [] = blocks := rfl

@[simp] theorem fill_cons (blocks : List β) (p : π) (order : List π) :
    fill slot block blocks (p :: order) =
      fill slot block (placeBlock (slot p) (block p) blocks) order := rfl

@[simp] theorem fill_append (blocks : List β) (first second : List π) :
    fill slot block blocks (first ++ second) =
      fill slot block (fill slot block blocks first) second := by
  simp [fill]

variable {slot block}

theorem Full.fill {page : π → List α} {blocks : List (List α)} {order : List π}
    (h : Full k blocks) (ho : ∀ p ∈ order, (page p).length = k) :
    Full k (Paging.fill slot page blocks order) := by
  induction order generalizing blocks with
  | nil => exact h
  | cons p order ih =>
    exact ih (h.placeBlock (ho p List.mem_cons_self)) fun q hq => ho q (List.mem_cons_of_mem _ hq)

theorem le_length_fill (blocks : List β) (order : List π) :
    blocks.length ≤ (fill slot block blocks order).length := by
  induction order generalizing blocks with
  | nil => exact Nat.le_refl _
  | cons p order ih =>
    refine Nat.le_trans ?_ (ih _)
    rw [length_placeBlock]
    split <;> omega

theorem length_fill_le_add (blocks : List β) (order : List π) :
    (fill slot block blocks order).length ≤ blocks.length + order.length := by
  induction order generalizing blocks with
  | nil => simp
  | cons p order ih =>
    have h := ih (placeBlock (slot p) (block p) blocks)
    rw [length_placeBlock] at h
    simp only [fill_cons, List.length_cons]
    split at h <;> omega

/-- Slots up to `e` never grow the list beyond `e` pages. -/
theorem length_fill_le {order : List π} (hs : ∀ p ∈ order, slot p ≤ e) {blocks : List β}
    (hb : blocks.length ≤ e) : (fill slot block blocks order).length ≤ e := by
  induction order generalizing blocks with
  | nil => exact hb
  | cons p order ih =>
    refine ih (fun q hq => hs q (List.mem_cons_of_mem _ hq)) ?_
    have := hs p List.mem_cons_self
    rw [length_placeBlock]
    split <;> omega

/-- As long as the list has fewer than `e` pages, every page for a slot from
`e` on adds one. -/
theorem min_countP_le_length_fill (e : Nat) (blocks : List β) (order : List π) :
    min (blocks.length + order.countP (e ≤ slot ·)) e ≤ (fill slot block blocks order).length := by
  induction order generalizing blocks with
  | nil => exact Nat.min_le_left _ _
  | cons p order ih =>
    have h := ih (placeBlock (slot p) (block p) blocks)
    rw [length_placeBlock] at h
    rw [fill_cons, List.countP_cons]
    by_cases hp : e ≤ slot p
    · simp only [hp, decide_true, if_true] at h ⊢
      split at h <;> omega
    · simp only [hp, decide_false, Bool.false_eq_true, if_false, Nat.add_zero] at h ⊢
      split at h <;> omega

/-- Where all pages for slot `d` agree and there are at least `d` of them, the
slot holds that page whatever the order: the last of them finds at least
`d - 1` pages in front of it. -/
theorem getElem?_fill {order : List π} (hs : ∀ p ∈ order, 1 ≤ slot p) (hd : 1 ≤ d)
    (hb : ∀ p ∈ order, slot p = d → block p = b) (hc : d ≤ order.countP (slot · = d)) :
    (fill slot block [] order)[d - 1]? = some b := by
  induction order using List.reverseRecOn with
  | nil =>
    simp only [List.countP_nil] at hc
    omega
  | append_singleton order p ih =>
    have hs' : ∀ q ∈ order, 1 ≤ slot q := fun q hq => hs q (List.mem_append_left _ hq)
    have hb' : ∀ q ∈ order, slot q = d → block q = b := fun q hq => hb q (List.mem_append_left _ hq)
    have hsp : 1 ≤ slot p := hs p (by simp)
    have hmono : order.countP (slot · = d) ≤ order.countP (d ≤ slot ·) := by
      refine List.countP_mono_left fun q _ hq => ?_
      simp only [decide_eq_true_eq] at hq ⊢
      omega
    have hlen : min (order.countP (d ≤ slot ·)) d ≤ (fill slot block [] order).length := by
      simpa using min_countP_le_length_fill d ([] : List β) order
    rw [fill_append, fill_cons, fill_nil, getElem?_placeBlock hsp, target]
    rw [List.countP_append, List.countP_singleton] at hc
    by_cases hp : slot p = d
    · simp only [hp, decide_true, if_true] at hc
      rw [if_pos, hb p (by simp) hp]
      split <;> omega
    · simp only [hp, decide_false, Bool.false_eq_true, if_false, Nat.add_zero] at hc
      rw [if_neg, ih hs' hb' hc]
      split <;> omega

end Fill

end Paging
