import Cookpit.Lib.Streams
import Cookpit.Search.Isolation
import Cookpit.Search.Recents

/-!
# The search screen

`SearchFragment` on Android. Every change of the text empties the list of
results, and an emptied text fetches the recent keys. The texts between go
through `debounce`, `distinctUntilChanged` and `observeOn`, of which only what
they hold is known here, to a single thread, which searches for one text after
the other until a search throws. The view model takes lists from the data
controller, recent keys and the empty list in the order they come.

So no search is overtaken (`screen_isolated`) and no list mixes photos of two
(`results_shown`), the recent keys are the texts a search has begun for
(`recents_shown`), and whoever waits is shown what was found for the text,
unless it is the text searched for before, for which nothing is searched again
(`results_atRest`).
-/

namespace Cookpit.Search

open ByteString Json11 Observed Runs Streams

-- ---------------------------------------------------------------------------
-- The screen
-- ---------------------------------------------------------------------------

inductive SearchViewModelCommand
  | setRecentItems (items : List Bytes)
  | setSearchItems (items : List DetailViewData)

structure SearchViewModel where
  recentItems : List Bytes := []
  searchResults : List DetailViewData := []
  deriving DecidableEq, Repr

def SearchViewModel.executeCommand (viewModel : SearchViewModel) :
    SearchViewModelCommand → SearchViewModel
  | .setRecentItems items => ⟨items, viewModel.searchResults⟩
  | .setSearchItems items => ⟨viewModel.recentItems, items⟩

section
variable [Operators Bytes]

/-- The subscription that searches: the texts its operators hold, and what the
thread behind `observeOn` does. -/
inductive Searches
  | free (texts : Operators.Held Bytes)
  | searching (key : Bytes) (texts : Operators.Held Bytes)
  /-- A search has thrown, and the subscription has ended with it. -/
  | ended

namespace Searches

def key : Searches → Option Bytes
  | .searching key _ => some key
  | .free _ | .ended => none

def texts : Searches → Option (Operators.Held Bytes)
  | .free texts | .searching _ texts => some texts
  | .ended => none

def modify (f : Operators.Held Bytes → Operators.Held Bytes) : Searches → Searches
  | .free texts => .free (f texts)
  | .searching key texts => .searching key (f texts)
  | .ended => .ended

/-- The thread takes the next text if it is free. -/
def handOn : Searches → Option (Bytes × Searches)
  | .free texts => (Operators.handOn texts).map fun (key, texts) => (key, .searching key texts)
  | .searching _ _ | .ended => none

/-- The thread is through with its search. -/
def returned : Searches → Searches
  | .free texts | .searching _ texts => .free texts
  | .ended => .ended

/-- No text waits, and the thread is free for the next. -/
def atRest : Searches → Bool
  | .free texts => Operators.idle texts
  | .searching _ _ | .ended => false

variable {searches searches' : Searches}

theorem atRest_iff : searches.atRest ↔
    ∃ texts, searches = .free texts ∧ Operators.idle texts := by
  cases searches with
  | free texts => simp [atRest]
  | searching | ended => simp [atRest]

@[simp] theorem key_ended : ended.key = none := rfl
@[simp] theorem texts_ended : ended.texts = none := rfl

@[simp] theorem key_modify (f) : (searches.modify f).key = searches.key := by
  cases searches <;> rfl

@[simp] theorem texts_modify (f) : (searches.modify f).texts = searches.texts.map f := by
  cases searches <;> rfl

@[simp] theorem key_returned : searches.returned.key = none := by
  cases searches <;> rfl

@[simp] theorem texts_returned : searches.returned.texts = searches.texts := by
  cases searches <;> rfl

theorem handOn_eq_some {text : Bytes} (h : searches.handOn = some (text, searches')) :
    ∃ texts texts', searches = .free texts ∧ Operators.handOn texts = some (text, texts') ∧
      searches' = .searching text texts' := by
  cases searches with
  | searching | ended => cases h
  | free texts =>
    obtain ⟨⟨text', texts'⟩, htexts, hpair⟩ := Option.map_eq_some_iff.mp h
    cases hpair
    exact ⟨texts, texts', rfl, htexts, rfl⟩

end Searches

structure SearchFragment where
  controller : State
  searches : Searches := .free Operators.subscribed
  viewModel : SearchViewModel := {}

namespace SearchFragment

inductive Event
  | queryTextChange (text : Bytes)
  /-- Time passes for `debounce`. -/
  | debounce
  /-- The thread takes the next text. -/
  | searchWith
  | answer (transfer : Transfer)

/-- A text is typed that is not empty. -/
def Event.Types : Event → Prop
  | .queryTextChange text => text ≠ []
  | _ => False

instance (e : Event) : Decidable e.Types :=
  match e with
  | .queryTextChange text => inferInstanceAs (Decidable (text ≠ []))
  | .debounce | .searchWith | .answer _ => instDecidableFalse

def execute (f : SearchFragment) (command : SearchViewModelCommand) : SearchFragment :=
  { f with viewModel := f.viewModel.executeCommand command }

def queryTextChange (f : SearchFragment) (text : Bytes) : SearchFragment :=
  if text = [] then f.execute (.setRecentItems (fetchRecents f.controller.self))
  else
    { f with searches := f.searches.modify (Operators.onNext text) }.execute (.setSearchItems [])

def debounce (f : SearchFragment) : SearchFragment :=
  { f with searches := f.searches.modify Operators.elapse }

/-- `reset` and `search`, up to the network. -/
def searchWith (f : SearchFragment) : SearchFragment :=
  match f.searches.handOn with
  | some (key, searches) =>
    { f with controller := (exec (start key) (exec reset f.controller).2).2, searches }
  | none => f

section
variable [Floats] [Hashing]

def answer (f : SearchFragment) (t : Transfer) : SearchFragment :=
  match f.searches.key with
  | some key =>
    let (r, controller) := exec (Search.answer key 1 t) f.controller
    (updates f.controller controller).foldl (fun f v => f.execute (.setSearchItems v.results))
      { f with
        controller
        searches := match r with
          | .ok () => f.searches.returned
          | .error _ => .ended }
  | none => f

def next (f : SearchFragment) : Event → SearchFragment
  | .queryTextChange text => f.queryTextChange text
  | .debounce => f.debounce
  | .searchWith => f.searchWith
  | .answer t => f.answer t

end

def opened (o : Observer) : SearchFragment :=
  { controller := subscribed o ⟨[], KeyStore.Store.empty⟩ }

-- ---------------------------------------------------------------------------
-- What happens on it
-- ---------------------------------------------------------------------------

/-- The texts typed that are not empty. -/
def received (_ : SearchFragment) : Event → List Bytes
  | .queryTextChange text => if text = [] then [] else [text]
  | _ => []

/-- The texts a search begins for. -/
def begun (f : SearchFragment) : Event → List Bytes
  | .searchWith => (f.searches.handOn.map Prod.fst).toList
  | _ => []

/-- The answers that publish something, with the texts they are for. -/
def answered [Floats] (f : SearchFragment) : Event → List (Bytes × Transfer)
  | .answer t =>
    if (result t f.controller.self.items).isSome then f.searches.key.toList.map (·, t) else []
  | _ => []

/-- Texts are searched for as they are handed on, and answered in that order. -/
structure Orderly (f : SearchFragment) (o : Observer) (texts keys : List Bytes)
    (replies : List (Bytes × Transfer)) : Prop where
  attended : f.controller.Attended o
  /-- The items are emptied before a search. -/
  reset : f.searches.key.isSome → f.controller.self.items = []
  history : ∀ held ∈ f.searches.texts, History texts keys held
  begun : f.searches.texts.isSome → keys = replies.map Prod.fst ++ f.searches.key.toList

variable {f : SearchFragment} {o : Observer} {texts keys : List Bytes}
  {replies : List (Bytes × Transfer)}

theorem foldl_execute (vs : List ViewData) (f : SearchFragment) :
    vs.foldl (fun f v => f.execute (.setSearchItems v.results)) f =
      { f with
        viewModel := vs.foldl (fun m v => m.executeCommand (.setSearchItems v.results))
          f.viewModel } := by
  induction vs generalizing f with
  | nil => rfl
  | cons v vs ih =>
    rw [List.foldl_cons, ih]
    rfl

theorem orderly_modify (h : Orderly f o texts keys replies) {texts' : List Bytes}
    {g : Operators.Held Bytes → Operators.Held Bytes} (viewModel : SearchViewModel)
    (hg : ∀ held, History texts keys held → History texts' keys (g held)) :
    Orderly { f with searches := f.searches.modify g, viewModel } o texts' keys replies := by
  refine ⟨h.attended, ?_, ?_, ?_⟩
  · simpa using h.reset
  · intro held hheld
    obtain ⟨held', hheld', rfl⟩ : ∃ held' ∈ f.searches.texts, g held' = held := by
      simpa using hheld
    exact hg held' (h.history held' hheld')
  · simpa using h.begun

theorem orderly_queryTextChange (h : Orderly f o texts keys replies) (text : Bytes) :
    Orderly (f.queryTextChange text) o (texts ++ f.received (.queryTextChange text)) keys
      replies := by
  rw [queryTextChange, received]
  split
  · rw [List.append_nil]
    exact ⟨h.attended, h.reset, h.history, h.begun⟩
  · exact orderly_modify h _ fun _ hheld => hheld.onNext text

theorem orderly_debounce (h : Orderly f o texts keys replies) :
    Orderly f.debounce o texts keys replies :=
  orderly_modify h _ fun _ hheld => hheld.elapse

theorem orderly_searchWith (h : Orderly f o texts keys replies) :
    Orderly f.searchWith o texts (keys ++ f.begun .searchWith) replies := by
  rw [SearchFragment.searchWith, SearchFragment.begun]
  cases hnext : f.searches.handOn with
  | none => simpa using h
  | some p =>
    obtain ⟨key, searches⟩ := p
    obtain ⟨held, held', hfree, hhandOn, rfl⟩ := Searches.handOn_eq_some hnext
    have hhistory : History texts keys held := h.history held (by rw [hfree]; rfl)
    have hkeys : keys = replies.map Prod.fst := by
      have hbegun := h.begun (by rw [hfree]; rfl)
      simpa [hfree, Searches.key] using hbegun
    have hreset : (exec Search.reset f.controller).2.Attended o :=
      ⟨h.attended.observer, h.attended.quiet⟩
    simp only [exec_start key hreset, Option.map_some, Option.toList_some]
    refine ⟨⟨h.attended.observer, h.attended.quiet⟩, fun _ => rfl, ?_, fun _ => ?_⟩
    · intro held'' hheld''
      obtain rfl := Option.mem_some_iff.mp hheld''
      exact hhistory.handOn hhandOn
    · rw [hkeys]
      rfl

section
variable [Floats] [Hashing]

theorem orderly_answer (h : Orderly f o texts keys replies) (t : Transfer) :
    Orderly (f.answer t) o texts keys (replies ++ f.answered (.answer t)) := by
  rw [SearchFragment.answer, SearchFragment.answered]
  cases hkey : f.searches.key with
  | none => simpa using h
  | some key =>
    have hafter := answer_attended h.attended key 1 t
    have houtcome := answer_outcome h.attended key t
    simp only [foldl_execute]
    cases hr : result t f.controller.self.items with
    | some v =>
      rw [hr] at houtcome
      refine ⟨hafter, ?_, ?_, ?_⟩
      · simp [houtcome.1]
      · simpa [houtcome.1] using h.history
      · simpa [houtcome.1, hkey] using h.begun
    | none =>
      rw [hr] at houtcome
      obtain ⟨⟨e, he⟩, -⟩ := houtcome
      refine ⟨hafter, ?_, ?_, ?_⟩
      · simp [he]
      · simp [he]
      · simp [he]

theorem orderly_next (h : Orderly f o texts keys replies) (e : Event) :
    Orderly (f.next e) o (texts ++ f.received e) (keys ++ f.begun e)
      (replies ++ f.answered e) := by
  cases e with
  | queryTextChange text =>
    simp only [begun, answered, List.append_nil]
    exact orderly_queryTextChange h text
  | debounce =>
    simp only [received, begun, answered, List.append_nil]
    exact orderly_debounce h
  | searchWith =>
    simp only [received, answered, List.append_nil]
    exact orderly_searchWith h
  | answer t =>
    simp only [received, begun, List.append_nil]
    exact orderly_answer h t

theorem orderly_run (h : Orderly f o texts keys replies) (events : List Event) :
    Orderly (run next f events) o (texts ++ collect next received f events)
      (keys ++ collect next begun f events) (replies ++ collect next answered f events) := by
  induction events generalizing f texts keys replies with
  | nil => simpa [collect] using h
  | cons e events ih =>
    simpa only [run_cons, collect, ← List.append_assoc] using ih (orderly_next h e)

theorem orderly_opened (o : Observer) (events : List Event) :
    Orderly (run next (opened o) events) o (collect next received (opened o) events)
      (collect next begun (opened o) events) (collect next answered (opened o) events) := by
  have hopened : Orderly (opened o) o [] [] [] := by
    refine ⟨subscribed_attended o _, (nomatch ·), fun held hheld => ?_, fun _ => rfl⟩
    obtain rfl := Option.mem_some_iff.mp hheld
    exact .subscribed
  exact orderly_run hopened events

-- ---------------------------------------------------------------------------
-- What is shown
-- ---------------------------------------------------------------------------

/-- An answer is all there is to see of a search. -/
theorem results_next (h : Orderly f o texts keys replies) {e : Event} (htypes : ¬ e.Types) :
    (f.next e).viewModel.searchResults =
      ((f.answered e).getLast?.map fun p => photos p.2).getD f.viewModel.searchResults := by
  cases e with
  | queryTextChange text =>
    have htext : text = [] := not_not.mp htypes
    simp only [SearchFragment.next, queryTextChange, if_pos htext]
    rfl
  | debounce => rfl
  | searchWith =>
    simp only [SearchFragment.next, searchWith]
    split
    all_goals rfl
  | answer t =>
    simp only [SearchFragment.next, answer, answered]
    cases hkey : f.searches.key with
    | none => simp
    | some key =>
      have hitems : f.controller.self.items = [] := h.reset (by rw [hkey]; rfl)
      have houtcome := answer_outcome h.attended key t
      simp only [foldl_execute]
      cases hr : result t f.controller.self.items with
      | some v =>
        have hresults : v.results = photos t := by
          rw [results_of_mem_result hr, hitems, List.nil_append]
        rw [hr] at houtcome
        simpa [houtcome.2, SearchViewModel.executeCommand] using hresults
      | none =>
        rw [hr] at houtcome
        simp [houtcome.2]

theorem results_run (h : Orderly f o texts keys replies) {events : List Event}
    (htypes : ∀ e ∈ events, ¬ e.Types) :
    (run next f events).viewModel.searchResults =
      ((collect next answered f events).getLast?.map fun p => photos p.2).getD
        f.viewModel.searchResults := by
  induction events generalizing f texts keys replies with
  | nil => rfl
  | cons e events ih =>
    obtain ⟨htype, htypes⟩ := List.forall_mem_cons.mp htypes
    rw [run_cons, ih (orderly_next h e) htypes, results_next h htype, collect,
      List.getLast?_append]
    cases (collect next answered (f.next e) events).getLast? <;> rfl

/-- The screen where a text has just been typed. -/
def typed (o : Observer) (before : List Event) (text : Bytes) : SearchFragment :=
  run next (opened o) (before ++ [.queryTextChange text])

theorem results_typed (o : Observer) (before : List Event) {text : Bytes} (h : text ≠ []) :
    (typed o before text).viewModel.searchResults = [] := by
  rw [typed, run_append, run_cons, SearchFragment.next, queryTextChange, if_neg h]
  rfl

/-- The results are the photos of one answer, all of them and no others, and of
the last one that came since a text was typed. -/
theorem results_shown (o : Observer) (before after : List Event) (text : Bytes) (htext : text ≠ [])
    (htypes : ∀ e ∈ after, ¬ e.Types) :
    (run next (typed o before text) after).viewModel.searchResults =
      ((collect next answered (typed o before text) after).getLast?.map
        fun p => photos p.2).getD [] := by
  have horderly : Orderly (typed o before text) o _ _ _ := orderly_opened o _
  rw [results_run horderly htypes, results_typed o before htext]

-- ---------------------------------------------------------------------------
-- Recent keys
-- ---------------------------------------------------------------------------

/-- A key is saved when its search begins, whatever comes of the search. -/
theorem mem_keys_next (e : Event) {key : Bytes} :
    key ∈ (f.next e).controller.self.recentSearchKey.keys ↔
      key ∈ f.controller.self.recentSearchKey.keys ∨ key ∈ f.begun e := by
  cases e with
  | queryTextChange text =>
    simp only [SearchFragment.next, queryTextChange, begun]
    split
    all_goals simp [execute]
  | debounce => simp [SearchFragment.next, debounce, begun]
  | searchWith =>
    simp only [SearchFragment.next, searchWith, begun]
    cases f.searches.handOn with
    | none => simp
    | some p =>
      have hreset : (exec Search.reset f.controller).2.self.recentSearchKey =
          f.controller.self.recentSearchKey := rfl
      simp only [exec_start_recents, hreset, KeyStore.Store.mem_keys_put, Option.map_some,
        Option.toList_some, List.mem_singleton]
      exact or_comm
  | answer t =>
    simp only [SearchFragment.next, answer, begun]
    cases f.searches.key with
    | none => simp
    | some k =>
      have hkeeps : (exec (Search.answer k 1 t) f.controller).2.self.recentSearchKey =
          f.controller.self.recentSearchKey := keeps_answer k 1 t f.controller
      simp [foldl_execute, hkeeps]

theorem isRecents_run (o : Observer) (events : List Event) :
    IsRecents (collect next begun (opened o) events)
      (run next (opened o) events).controller.self.recentSearchKey.keys := by
  have hrun (f : SearchFragment) (key : Bytes) :
      key ∈ (run next f events).controller.self.recentSearchKey.keys ↔
        key ∈ f.controller.self.recentSearchKey.keys ∨ key ∈ collect next begun f events := by
    induction events generalizing f with
    | nil => simp [collect]
    | cons e events ih => rw [run_cons, ih, mem_keys_next, collect, List.mem_append, or_assoc]
  refine ⟨(run next (opened o) events).controller.self.recentSearchKey.pairwise_keys, fun key => ?_⟩
  rw [hrun]
  exact or_iff_right List.not_mem_nil

theorem recentItems_next {e : Event} (h : e ≠ .queryTextChange []) :
    (f.next e).viewModel.recentItems = f.viewModel.recentItems := by
  cases e with
  | queryTextChange text =>
    have htext : text ≠ [] := fun htext => h (by rw [htext])
    simp only [SearchFragment.next, queryTextChange, if_neg htext]
    rfl
  | debounce => rfl
  | searchWith =>
    simp only [SearchFragment.next, searchWith]
    split
    all_goals rfl
  | answer t =>
    have hfold (vs : List ViewData) (m : SearchViewModel) :
        (vs.foldl (fun m v => m.executeCommand (.setSearchItems v.results)) m).recentItems =
          m.recentItems := by
      induction vs generalizing m with
      | nil => rfl
      | cons v vs ih => exact ih _
    simp only [SearchFragment.next, answer, foldl_execute]
    split
    · exact hfold _ _
    · rfl

/-- Since the text was last emptied, the recent items are the keys searched for
before, each once and in order, in front of as many empty strings. -/
theorem recents_shown (o : Observer) (before after : List Event)
    (hafter : .queryTextChange [] ∉ after) :
    ∃ recents, IsRecents (collect next begun (opened o) before) recents ∧
      (run next (opened o) (before ++ .queryTextChange [] :: after)).viewModel.recentItems =
        recents ++ List.replicate recents.length [] := by
  have hkept (f : SearchFragment) :
      (run next f after).viewModel.recentItems = f.viewModel.recentItems := by
    induction after generalizing f with
    | nil => rfl
    | cons e after ih =>
      rw [List.mem_cons, not_or] at hafter
      obtain ⟨he, hafter⟩ := hafter
      rw [run_cons, ih hafter, recentItems_next fun h => he h.symm]
  refine ⟨_, isRecents_run o before, ?_⟩
  rw [run_append, run_cons, hkept, SearchFragment.next, queryTextChange, if_pos rfl,
    ← fetchRecents_eq]
  rfl

-- ---------------------------------------------------------------------------
-- At rest
-- ---------------------------------------------------------------------------

theorem collect_received {events : List Event} (htypes : ∀ e ∈ events, ¬ e.Types) :
    collect next received f events = [] := by
  induction events generalizing f with
  | nil => rfl
  | cons e events ih =>
    obtain ⟨htype, htypes⟩ := List.forall_mem_cons.mp htypes
    have hnone : f.received e = [] := by
      cases e with
      | queryTextChange text => exact if_pos (not_not.mp htype)
      | debounce | searchWith | answer => rfl
    rw [collect, hnone, ih htypes, List.nil_append]

/-- When nothing is under way any more, the last answer was for the text that
was typed last, and the results are its photos, unless it came before the text
was typed: then there are none. -/
theorem results_atRest [Settling Bytes] (o : Observer) (before after : List Event) (text : Bytes)
    (htext : text ≠ []) (htypes : ∀ e ∈ after, ¬ e.Types)
    (hrest : (run next (typed o before text) after).searches.atRest) :
    ∃ t, (collect next answered (opened o) (before ++ [.queryTextChange text] ++ after)).getLast? =
        some (text, t) ∧
      (run next (typed o before text) after).viewModel.searchResults =
        if collect next answered (typed o before text) after = [] then [] else photos t := by
  have horderly := orderly_opened o (before ++ [.queryTextChange text] ++ after)
  have hrun : run next (opened o) (before ++ [.queryTextChange text] ++ after) =
      run next (typed o before text) after := run_append _ _ _
  rw [hrun] at horderly
  have hreceived : (collect next received (opened o)
      (before ++ [.queryTextChange text] ++ after)).getLast? = some text := by
    rw [collect_append, collect_received htypes, List.append_nil, collect_append]
    simp [collect, received, htext]
  obtain ⟨held, hfree, hidle⟩ := Searches.atRest_iff.mp hrest
  have hlast := Settling.getLast?_handed (horderly.history held (by rw [hfree]; rfl)) hidle
  have hbegun := horderly.begun (by rw [hfree]; rfl)
  rw [hreceived, hbegun, hfree, Searches.key, Option.toList_none, List.append_nil,
    List.getLast?_map] at hlast
  obtain ⟨⟨key, t⟩, hanswer, rfl⟩ := Option.map_eq_some_iff.mp hlast
  refine ⟨t, hanswer, ?_⟩
  rw [results_shown o before after key htext htypes]
  split
  · rename_i hnone
    rw [hnone]
    rfl
  · rename_i hsome
    -- The last answer of all is the last of those since the text was typed.
    rw [collect_append, List.getLast?_append] at hanswer
    obtain ⟨p, hp⟩ := Option.ne_none_iff_exists'.mp (List.getLast?_eq_none_iff.not.mpr hsome)
    have hp' : (collect next answered
        (run next (opened o) (before ++ [.queryTextChange key])) after).getLast? = some p := hp
    rw [hp', Option.some_or] at hanswer
    obtain rfl := Option.some.inj hanswer
    rw [hp]
    rfl

-- ---------------------------------------------------------------------------
-- One search at a time
-- ---------------------------------------------------------------------------

/-- What an event makes the data controller do. -/
def drives (f : SearchFragment) : Event → List Search.Event
  | .searchWith => (f.begun .searchWith).map .searchWith
  | .answer t => f.searches.key.toList.map fun _ => .answer 0 t
  | _ => []

/-- The data controller of the screen: it waits for one answer at most, and none
has come late. -/
structure Driven (f : SearchFragment) (d : DataController) (o : Observer) : Prop where
  controller : d.controller = f.controller
  pending : d.pending = f.searches.key.toList.map fun key => ⟨key, 1, true⟩
  late : d.late = []
  sound : Sound d o

theorem searchWith_driven {d : DataController} (h : Driven f d o) :
    Driven f.searchWith (run DataController.next d (f.drives .searchWith)) o ∧
      Every DataController.next Isolated d (f.drives .searchWith) := by
  rw [SearchFragment.searchWith, drives, begun]
  cases hnext : f.searches.handOn with
  | none => exact ⟨h, every_nil⟩
  | some p =>
    obtain ⟨key, searches⟩ := p
    obtain ⟨held, held', hfree, -, rfl⟩ := Searches.handOn_eq_some hnext
    have hempty : d.pending = [] := by simp [h.pending, hfree, Searches.key]
    obtain ⟨hsound, hiff⟩ := h.sound.next (.searchWith key)
    refine ⟨⟨?_, ?_, rfl, hsound⟩, every_cons.mpr ⟨hiff.mpr trivial, every_nil⟩⟩
    · show (exec (start key) (exec reset d.controller).2).2 = _
      rw [h.controller]
    · show (d.pending.map _ ++ [_] : List Ticket) = [_]
      rw [hempty]
      rfl

theorem answer_driven {d : DataController} (h : Driven f d o) (t : Transfer) :
    Driven (f.answer t) (run DataController.next d (f.drives (.answer t))) o ∧
      Every DataController.next Isolated d (f.drives (.answer t)) := by
  rw [SearchFragment.answer, drives]
  cases hkey : f.searches.key with
  | none => exact ⟨h, every_nil⟩
  | some key =>
    have hone : d.pending = [⟨key, 1, true⟩] := by simp [h.pending, hkey]
    have hanswer : d.next (.answer 0 t) =
        Search.answered ⟨key, 1, true⟩ t { d with pending := [] } := by
      rw [DataController.next, hone]
      rfl
    have hnone : (d.next (.answer 0 t)).late = [] := by
      rw [hanswer, Search.answered, h.late]
      rfl
    obtain ⟨hsound, hiff⟩ := h.sound.next (.answer 0 t)
    have hcovered : LateCovered d (.answer 0 t) := by
      intro _ _ _
      rw [hnone]
      exact List.nil_subset _
    refine ⟨⟨?_, ?_, hnone, hsound⟩, every_cons.mpr ⟨hiff.mpr hcovered, every_nil⟩⟩
    · show (d.next (.answer 0 t)).controller = _
      simp only [foldl_execute, hanswer, Search.answered, h.controller]
      rfl
    · show (d.next (.answer 0 t)).pending = _
      simp only [foldl_execute, hanswer, Search.answered]
      -- Whether it returned or threw, the thread searches no more.
      cases (exec (Search.answer key 1 t) f.controller).1 <;> simp

theorem next_driven {d : DataController} (h : Driven f d o) (e : Event) :
    Driven (f.next e) (run DataController.next d (f.drives e)) o ∧
      Every DataController.next Isolated d (f.drives e) := by
  cases e with
  | queryTextChange text =>
    refine ⟨?_, every_nil⟩
    simp only [SearchFragment.next, queryTextChange, drives, run_nil]
    split
    · exact ⟨h.controller, h.pending, h.late, h.sound⟩
    · exact ⟨h.controller, by simpa [execute] using h.pending, h.late, h.sound⟩
  | debounce =>
    refine ⟨?_, every_nil⟩
    simp only [SearchFragment.next, debounce, drives, run_nil]
    exact ⟨h.controller, by simpa using h.pending, h.late, h.sound⟩
  | searchWith => exact searchWith_driven h
  | answer t => exact answer_driven h t

theorem run_driven {d : DataController} (h : Driven f d o) (events : List Event) :
    Driven (run next f events) (run DataController.next d (collect next drives f events)) o ∧
      Every DataController.next Isolated d (collect next drives f events) := by
  induction events generalizing f d with
  | nil => exact ⟨h, every_nil⟩
  | cons e events ih =>
    obtain ⟨hnext, hevery⟩ := next_driven h e
    obtain ⟨hrun, hrest⟩ := ih hnext
    rw [collect, run_append, every_append]
    exact ⟨hrun, hevery, hrest⟩

/-- A screen drives its data controller through a run in which searches never
mix, and has the controller that run ends with. -/
theorem screen_isolated (o : Observer) (d : DataController) (events : List Event)
    (hd : d.controller = subscribed o ⟨[], KeyStore.Store.empty⟩) (hpending : d.pending = [])
    (hkey : d.key = none) (hlate : d.late = []) :
    Every DataController.next Isolated d (collect next drives (opened o) events) ∧
      (run DataController.next d (collect next drives (opened o) events)).controller =
        (run next (opened o) events).controller := by
  have hsound : Sound d o := ⟨hd ▸ subscribed_attended o _, by simp [hkey]⟩
  have hopened : Driven (opened o) d o := ⟨hd, hpending, hlate, hsound⟩
  obtain ⟨hrun, hevery⟩ := run_driven hopened events
  exact ⟨hevery, hrun.controller⟩

end

end SearchFragment

end

-- ---------------------------------------------------------------------------
-- Texts that stay for a while
-- ---------------------------------------------------------------------------

/-- What `debounce` holds back, the last text through `distinctUntilChanged`, and
what `observeOn` has queued. -/
structure RxTexts where
  debounced : Option Bytes := none
  distinct : Option Bytes := none
  queued : List Bytes := []

@[reducible] def rxTexts : Operators Bytes where
  Held := RxTexts
  subscribed := {}
  onNext text held := { held with debounced := some text }
  elapse held :=
    match held.debounced with
    | none => held
    | some text =>
      if held.distinct = some text then { held with debounced := none }
      else ⟨none, some text, held.queued ++ [text]⟩
  handOn held :=
    match held.queued with
    | [] => none
    | text :: queued => some (text, { held with queued })
  idle held := held.debounced.isNone && held.queued.isEmpty

section
attribute [local instance] rxTexts

theorem history_rxTexts {received handed : List Bytes} {held : RxTexts}
    (h : History received handed held) :
    held.debounced.or held.distinct = received.getLast? ∧
      (handed ++ held.queued).getLast? = held.distinct := by
  induction h with
  | subscribed => exact ⟨rfl, rfl⟩
  | onNext text _ ih =>
    obtain ⟨-, hdistinct⟩ := ih
    exact ⟨List.getLast?_concat.symm, hdistinct⟩
  | @elapse _ _ held _ ih =>
    obtain ⟨debounced, distinct, queued⟩ := held
    obtain ⟨hreceived, hdistinct⟩ := ih
    cases debounced with
    | none => exact ⟨hreceived, hdistinct⟩
    | some text =>
      simp only [Operators.elapse]
      split
      · rename_i hsame
        exact ⟨hsame.trans hreceived, hdistinct⟩
      · refine ⟨hreceived, ?_⟩
        rw [← List.append_assoc, List.getLast?_concat]
  | @handOn _ _ held text _ _ hhandOn ih =>
    obtain ⟨debounced, distinct, queued⟩ := held
    obtain ⟨hreceived, hdistinct⟩ := ih
    cases queued with
    | nil => cases hhandOn
    | cons text' queued =>
      cases hhandOn
      refine ⟨hreceived, ?_⟩
      rw [List.append_assoc]
      exact hdistinct

instance settling_rxTexts : Settling Bytes where
  getLast?_handed h hidle := by
    obtain ⟨hreceived, hdistinct⟩ := history_rxTexts h
    obtain ⟨hdebounced, hqueued⟩ := Bool.and_eq_true_iff.mp hidle
    rw [Option.isNone_iff_eq_none.mp hdebounced, Option.none_or] at hreceived
    rw [List.isEmpty_iff.mp hqueued, List.append_nil] at hdistinct
    rw [hdistinct, hreceived]

end

namespace SearchFragment

section
attribute [local instance] integerFloats listed rxTexts

/-- The text changes while cats are searched for, and the cats are shown under
the new text. -/
theorem results_shown_catsLate :
    (run next (typed 0 [.queryTextChange (lit "cat"), .debounce, .searchWith] (lit "dog"))
      [.answer (found "1"), .debounce]).viewModel.searchResults = details (found "1").body := by
  rw [results_shown 0 _ _ (lit "dog") (by decide) (by decide)]
  decide +kernel

/-- Dogs are searched for, then cats. -/
def dogsThenCats : List Event :=
  [.queryTextChange (lit "dog"), .debounce, .searchWith, .answer (found "1"),
    .queryTextChange (lit "cat"), .debounce, .searchWith]

/-- The text is emptied before the cats are found not to be there. -/
theorem recents_shown_dogsThenCats :
    (run next (opened 0) (dogsThenCats ++
      [.queryTextChange [], .answer ⟨false, 0, []⟩])).viewModel.recentItems =
        [lit "cat", lit "dog", [], []] := by
  obtain ⟨recents, hrecents, hitems⟩ :=
    recents_shown 0 dogsThenCats [.answer ⟨false, 0, []⟩] (by simp)
  have hbegun : collect next begun (opened 0) dogsThenCats = [lit "dog", lit "cat"] := by
    decide +kernel
  have htwo : recents = [lit "cat", lit "dog"] :=
    hrecents.ascending.eq_of_mem_iff (by decide) fun key => by
      rw [hrecents.mem_iff, hbegun]
      simp [or_comm]
  rw [hitems, htwo]
  rfl

/-- Cats are searched for and shown, and the text is changed and changed back. -/
theorem results_atRest_catsAgain :
    (run next (typed 0 [.queryTextChange (lit "cat"), .debounce, .searchWith,
      .answer (found "1"), .queryTextChange (lit "ca")] (lit "cat"))
        [.debounce]).viewModel.searchResults = [] := by
  obtain ⟨t, -, hresults⟩ := results_atRest 0 [.queryTextChange (lit "cat"), .debounce,
    .searchWith, .answer (found "1"), .queryTextChange (lit "ca")] [.debounce] (lit "cat")
    (by decide) (by decide) (by decide +kernel)
  rw [hresults]
  exact if_pos rfl

theorem screen_isolated_dogTyped :
    Every DataController.next Isolated unsearched
      [.searchWith (lit "cat"), .answer 0 (found "1")] :=
  (screen_isolated 0 unsearched [.queryTextChange (lit "cat"), .debounce, .searchWith,
    .queryTextChange (lit "dog"), .answer (found "1")] rfl rfl rfl rfl).1

end

end SearchFragment

end Cookpit.Search
