/-
The cache in front of the search service (web_search_cache.py): searches of any
number of tasks, each from its start to the delegate's answer, with the awaits of
the others between. Seconds are rational numbers.

`_cache_key` has the normalized query and every parameter but the budget, and takes
no language for the empty one. An entry holds a complete report that the delegate
gave no earlier than the entry says, for a command with the entry's key
(`Sound.step`), so a hit is what the delegate answered to the same search where budget
and language agree, and only there (`transparent_iff`).
-/
import MilpbookLM.Base.Text
import Mathlib.Algebra.Order.Field.Rat
import Mathlib.Data.List.Dedup
import Mathlib.Tactic.Linarith

namespace MilpbookLM.WebSearch

/-! ## Commands and reports (web_search.py) -/

inductive SearchTimeRange where
  | day
  | week
  | month
  | year
deriving DecidableEq, Repr

def SearchTimeRange.value : SearchTimeRange → String
  | day => "day"
  | week => "week"
  | month => "month"
  | year => "year"

structure SearchBudget where
  timeoutSeconds : Rat := 10
  maxResults : Int := 20
  maxResponseBytes : Int := 2 * 1024 * 1024
deriving DecidableEq, Repr

structure WebSearchCommand where
  query : Text
  engines : List String := []
  categories : List String := []
  language : Option String := none
  timeRange : Option SearchTimeRange := none
  budget : SearchBudget := {}
deriving DecidableEq, Repr

inductive SearchOutcome where
  | complete
  | partially
deriving DecidableEq, Repr

inductive SearchPartialReason where
  | enginesUnresponsive
  | allEnginesUnresponsive
  | budgetResultCap
deriving DecidableEq, Repr

structure SearchHit where
  url : String
  title : String
  snippet : String
  engines : List String
deriving DecidableEq, Repr

structure WebSearchReport where
  outcome : SearchOutcome
  query : Text
  hits : List SearchHit
  unresponsiveEngines : List String
  partialReasons : List SearchPartialReason
  numberOfResults : Option Int := none
deriving DecidableEq, Repr

/-- `text.split()`. -/
def splitWords (t : Text) : List Text := (t.splitOnP isSpace).filter (· ≠ [])

/-- `normalize_query`, with no query for `WebSearchRefusedError`. -/
def normalizeQuery (nfkc : Text → Text) (raw : Text) : Option Text :=
  let normalized := joinWith [' '] (splitWords (nfkc raw))
  if normalized = [] then none else some normalized

/-! ## The cache -/

structure CacheKey where
  query : Text
  engines : List String
  categories : List String
  language : String
  timeRange : String
  configRevision : String
deriving DecidableEq, Repr

/-- `tuple(sorted(set(names)))`. -/
def sortedSet (names : List String) : List String := names.dedup.mergeSort (fun a b => decide (a ≤ b))

/-- `_cache_key`. -/
def cacheKey (nfkc : Text → Text) (command : WebSearchCommand) (configRevision : String) : Option CacheKey :=
  (normalizeQuery nfkc command.query).map fun query =>
    { query
      engines := sortedSet command.engines
      categories := sortedSet command.categories
      language := command.language.getD ""
      timeRange := (command.timeRange.map SearchTimeRange.value).getD ""
      configRevision }

/-- `_CacheEntry`; `call` is the number of the delegate's call that gave the report. -/
structure CacheEntry where
  report : WebSearchReport
  storedAt : Rat
  call : Nat
deriving DecidableEq, Repr

/-- An `OrderedDict`, oldest first. -/
abbrev Entries := List (CacheKey × CacheEntry)

def Entries.get (entries : Entries) (key : CacheKey) : Option CacheEntry :=
  (entries.find? (·.1 = key)).map (·.2)

/-- `entries[key] = entry` and `move_to_end(key)`. -/
def Entries.putLast (entries : Entries) (key : CacheKey) (entry : CacheEntry) : Entries :=
  entries.filter (·.1 ≠ key) ++ [(key, entry)]

/-- `while len(entries) > max_entries: popitem(last=False)`, and whether a pop found
no entry (`KeyError`). -/
def Entries.evict (maxEntries : Int) : Entries → Entries × Bool
  | [] => ([], decide (0 > maxEntries))
  | e :: entries => if (e :: entries).length > maxEntries then evict maxEntries entries else (e :: entries, false)

structure CachedWebSearch where
  configRevision : String
  ttlSeconds : Rat := 120
  maxEntries : Int := 256

/-- A call of the delegate: its command, the time its search read, and its answer, if
it has come: a report or an error, with the time. -/
structure DelegateCall where
  command : WebSearchCommand
  now : Rat
  answer : Option (Option WebSearchReport × Rat) := none

/-- The entries, the delegate's calls in their order, and the latest time. -/
structure CacheState where
  entries : Entries := []
  calls : List DelegateCall := []
  clock : Rat := 0

inductive Searched where
  | refused
  | hit (entry : CacheEntry)
  | awaits (call : Nat)
deriving DecidableEq, Repr

namespace CachedWebSearch

variable (cache : CachedWebSearch) (nfkc : Text → Text)

/-- The entry that `search` returns at `now` without the delegate. -/
def fresh (st : CacheState) (command : WebSearchCommand) (now : Rat) : Option CacheEntry :=
  match cacheKey nfkc command cache.configRevision with
  | none => none
  | some key => (st.entries.get key).filter fun entry => now - entry.storedAt ≤ cache.ttlSeconds

/-- `search` up to its await. -/
def search (st : CacheState) (command : WebSearchCommand) (now : Rat) : Searched × CacheState :=
  match cacheKey nfkc command cache.configRevision with
  | none => (.refused, { st with clock := now })
  | some key =>
    match cache.fresh nfkc st command now with
    | some entry => (.hit entry, { st with entries := st.entries.putLast key entry, clock := now })
    | none => (.awaits st.calls.length, { st with calls := st.calls ++ [{ command, now }], clock := now })

/-- The rest of `search` when the delegate's call `n` gave `report` at `at`. -/
def store (st : CacheState) (n : Nat) (call : DelegateCall) (report : WebSearchReport) : Entries :=
  if report.outcome = .complete then
    match cacheKey nfkc call.command cache.configRevision with
    | some key => ((st.entries.putLast key ⟨report, call.now, n⟩).evict cache.maxEntries).1
    | none => st.entries
  else st.entries

/-- One step of any of the searches: a start, or the answer to a call that waits. -/
inductive Step : CacheState → CacheState → Prop
  | starts {st} (command : WebSearchCommand) (now : Rat) (hnow : st.clock ≤ now) :
      Step st (cache.search nfkc st command now).2
  | fails {st} (n : Nat) (call : DelegateCall) (now : Rat) (hcall : st.calls[n]? = some call)
      (hopen : call.answer = none) (hnow : st.clock ≤ now) :
      Step st { st with calls := st.calls.set n { call with answer := some (none, now) }, clock := now }
  | answers {st} (n : Nat) (call : DelegateCall) (report : WebSearchReport) (now : Rat)
      (hcall : st.calls[n]? = some call) (hopen : call.answer = none) (hnow : st.clock ≤ now) :
      Step st { entries := cache.store nfkc st n call report
                calls := st.calls.set n { call with answer := some (some report, now) }
                clock := now }

inductive Reachable : CacheState → Prop
  | start (clock : Rat) : Reachable { clock }
  | step {st st'} : Reachable st → Step cache nfkc st st' → Reachable st'

end CachedWebSearch

/-! ## Keys and entries -/

/-- The commands ask the same of the delegate: up to the normalization of the query, and
the order and repetition of engines and categories. -/
def SameSearch (nfkc : Text → Text) (c c' : WebSearchCommand) : Prop :=
  normalizeQuery nfkc c.query = normalizeQuery nfkc c'.query ∧ (∀ e, e ∈ c.engines ↔ e ∈ c'.engines) ∧
    (∀ e, e ∈ c.categories ↔ e ∈ c'.categories) ∧ c.language = c'.language ∧ c.timeRange = c'.timeRange ∧
    c.budget = c'.budget

theorem mem_sortedSet {names : List String} {e : String} : e ∈ sortedSet names ↔ e ∈ names := by
  simp [sortedSet]

theorem value_inj {a b : Option SearchTimeRange}
    (h : (a.map SearchTimeRange.value).getD "" = (b.map SearchTimeRange.value).getD "") : a = b := by
  revert h
  cases a with
  | none => cases b with
    | none => simp
    | some b => cases b <;> decide
  | some a => cases b with
    | none => cases a <;> decide
    | some b => cases a <;> cases b <;> decide

/-- **A key tells the search but for its budget**, and no language from the empty one. -/
theorem sameSearch_iff {nfkc : Text → Text} {c c' : WebSearchCommand} {revision : String} {key : CacheKey}
    (h : cacheKey nfkc c revision = some key) (h' : cacheKey nfkc c' revision = some key) :
    SameSearch nfkc c c' ↔ c.budget = c'.budget ∧ c.language = c'.language := by
  simp only [cacheKey, Option.map_eq_some_iff] at h h'
  obtain ⟨query, hquery, rfl⟩ := h
  obtain ⟨query', hquery', heq⟩ := h'
  simp only [CacheKey.mk.injEq] at heq
  obtain ⟨rfl, hengines, hcategories, _, htime, _⟩ := heq
  have hmem : ∀ {xs ys : List String}, sortedSet xs = sortedSet ys → ∀ e, e ∈ ys ↔ e ∈ xs := fun heq e => by
    rw [← mem_sortedSet, ← heq, mem_sortedSet]
  constructor
  · intro hs
    exact ⟨hs.2.2.2.2.2, hs.2.2.2.1⟩
  · intro hs
    exact ⟨hquery.trans hquery'.symm, hmem hengines, hmem hcategories, hs.2, (value_inj htime).symm, hs.1⟩

namespace Entries

variable {entries : Entries} {key : CacheKey} {entry : CacheEntry} {p : CacheKey × CacheEntry}

theorem get_mem (h : entries.get key = some entry) : (key, entry) ∈ entries := by
  simp only [get, Option.map_eq_some_iff] at h
  obtain ⟨q, hq, rfl⟩ := h
  have hkey := List.find?_some hq
  simp only [decide_eq_true_eq] at hkey
  exact hkey ▸ List.mem_of_find?_eq_some hq

theorem mem_putLast (h : p ∈ entries.putLast key entry) : p ∈ entries ∨ p = (key, entry) := by
  simp only [putLast, List.mem_append, List.mem_filter, List.mem_singleton] at h
  rcases h with h | h
  · exact .inl h.1
  · exact .inr h

/-- A hit moves its entry. -/
theorem length_putLast (h : entries.get key = some entry) : (entries.putLast key entry).length ≤ entries.length := by
  have hlt : (entries.filter (·.1 ≠ key)).length < entries.length :=
    List.length_filter_lt_length_iff_exists.2 ⟨_, get_mem h, by simp⟩
  simp only [putLast, List.length_append, List.length_singleton]
  omega

theorem evict_subset (maxEntries : Int) (entries : Entries) : (entries.evict maxEntries).1 ⊆ entries := by
  induction entries with
  | nil => simp [evict]
  | cons e entries ih =>
    simp only [evict]
    split
    · exact fun p hp => List.mem_cons_of_mem _ (ih hp)
    · exact fun p hp => hp

theorem length_evict {maxEntries : Int} (h : 0 ≤ maxEntries) (entries : Entries) :
    ((entries.evict maxEntries).1.length : Int) ≤ maxEntries := by
  induction entries with
  | nil => simpa [evict] using h
  | cons e entries ih =>
    simp only [evict]
    split
    · exact ih
    · next hle => exact not_lt.1 hle

end Entries

namespace CachedWebSearch

variable {cache : CachedWebSearch} {nfkc : Text → Text} {st st' : CacheState} {command : WebSearchCommand}
  {now : Rat} {entry : CacheEntry}

theorem fresh_some (h : cache.fresh nfkc st command now = some entry) :
    ∃ key, cacheKey nfkc command cache.configRevision = some key ∧ st.entries.get key = some entry ∧
      now - entry.storedAt ≤ cache.ttlSeconds := by
  unfold fresh at h
  split at h
  · cases h
  · next key hkey =>
    simp only [Option.filter_eq_some_iff, decide_eq_true_eq] at h
    exact ⟨key, hkey, h⟩

/-- What a hit is. -/
theorem search_hit :
    (cache.search nfkc st command now).1 = .hit entry ↔ cache.fresh nfkc st command now = some entry := by
  unfold search
  split
  · next hkey => simp [fresh, hkey]
  · split <;> simp [*]

/-! ## What the entries hold -/

/-- The call of the entry's number gave its report, complete and no earlier than the
entry says, for a command with the entry's key. -/
def Given (cache : CachedWebSearch) (nfkc : Text → Text) (calls : List DelegateCall) (clock : Rat)
    (p : CacheKey × CacheEntry) : Prop :=
  ∃ call answered, calls[p.2.call]? = some call ∧ call.answer = some (some p.2.report, answered) ∧
    cacheKey nfkc call.command cache.configRevision = some p.1 ∧ p.2.storedAt = call.now ∧ call.now ≤ answered ∧
    answered ≤ clock ∧ p.2.report.outcome = .complete

structure Sound (cache : CachedWebSearch) (nfkc : Text → Text) (st : CacheState) : Prop where
  given : ∀ p ∈ st.entries, cache.Given nfkc st.calls st.clock p
  past : ∀ call ∈ st.calls, call.now ≤ st.clock
  bounded : 0 ≤ cache.maxEntries → (st.entries.length : Int) ≤ cache.maxEntries

/-- Calls that have been answered stay as they are. -/
theorem Given.mono {calls calls' : List DelegateCall} {clock clock' : Rat} {p : CacheKey × CacheEntry}
    (h : cache.Given nfkc calls clock p) (hclock : clock ≤ clock')
    (hkept : ∀ (n : Nat) (call : DelegateCall) answer, calls[n]? = some call → call.answer = some answer →
      calls'[n]? = some call) :
    cache.Given nfkc calls' clock' p := by
  obtain ⟨call, answered, hcall, hanswer, hkey, hstored, hle, hpast, hcomplete⟩ := h
  exact ⟨call, answered, hkept _ _ _ hcall hanswer, hanswer, hkey, hstored, hle, hpast.trans hclock, hcomplete⟩

/-- An open call's answer leaves those of the others. -/
theorem getElem?_set_open {calls : List DelegateCall} {n m : Nat} {call other answered : DelegateCall}
    {answer : Option WebSearchReport × Rat} (hcall : calls[n]? = some call) (hopen : call.answer = none)
    (hother : calls[m]? = some other) (hanswer : other.answer = some answer) :
    (calls.set n answered)[m]? = some other := by
  have hne : n ≠ m := by
    intro he
    subst he
    rw [hcall] at hother
    cases hother
    rw [hopen] at hanswer
    cases hanswer
  rw [List.getElem?_set_ne hne]
  exact hother

theorem Sound.start (clock : Rat) : cache.Sound nfkc { clock } := ⟨by simp, by simp, by simp⟩

/-- A start reads the entries and adds a call, or moves the entry of its hit. -/
theorem Sound.starts (h : cache.Sound nfkc st) (hnow : st.clock ≤ now) :
    cache.Sound nfkc (cache.search nfkc st command now).2 := by
  unfold search
  split
  · exact ⟨fun p hp => (h.given p hp).mono hnow fun _ _ _ hcall _ => hcall,
      fun call hcall => (h.past call hcall).trans hnow, h.bounded⟩
  · next key hkey =>
    split
    · next entry hfresh =>
      obtain ⟨key', hkey', hget, _⟩ := fresh_some hfresh
      obtain rfl : key = key' := Option.some.inj (hkey.symm.trans hkey')
      refine ⟨fun p hp => ?_, fun call hcall => (h.past call hcall).trans hnow, fun hmax => ?_⟩
      · have hold : p ∈ st.entries := by
          rcases Entries.mem_putLast hp with hp | rfl
          · exact hp
          · exact Entries.get_mem hget
        exact (h.given p hold).mono hnow fun _ _ _ hcall _ => hcall
      · have hlen := Entries.length_putLast hget
        have := h.bounded hmax
        simp only
        omega
    · refine ⟨fun p hp => (h.given p hp).mono hnow fun n call _ hcall _ => ?_, fun call hcall => ?_, h.bounded⟩
      · exact (List.getElem?_append_left (List.getElem?_eq_some_iff.1 hcall).1).trans hcall
      · rcases List.mem_append.1 hcall with hcall | hcall
        · exact (h.past call hcall).trans hnow
        · simp only [List.mem_singleton] at hcall
          simp [hcall]

/-- An answer, with what it stores. -/
theorem Sound.answered (h : cache.Sound nfkc st) {n : Nat} {call : DelegateCall} (hcall : st.calls[n]? = some call)
    (hopen : call.answer = none) (hnow : st.clock ≤ now) (answer : Option WebSearchReport) {entries : Entries}
    (hentries : ∀ p ∈ entries, p ∈ st.entries ∨ ∃ key report, p = (key, ⟨report, call.now, n⟩) ∧
      answer = some report ∧ report.outcome = .complete ∧
      cacheKey nfkc call.command cache.configRevision = some key)
    (hbounded : 0 ≤ cache.maxEntries → (entries.length : Int) ≤ cache.maxEntries) :
    cache.Sound nfkc ⟨entries, st.calls.set n { call with answer := some (answer, now) }, now⟩ := by
  have hlt : n < st.calls.length := (List.getElem?_eq_some_iff.1 hcall).1
  have hpast := h.past call (List.mem_of_getElem? hcall)
  refine ⟨fun p hp => ?_, fun c hc => ?_, hbounded⟩
  · rcases hentries p hp with hp | ⟨key, report, rfl, rfl, hcomplete, hkey⟩
    · exact (h.given p hp).mono hnow fun m other _ hother hanswer => getElem?_set_open hcall hopen hother hanswer
    · exact ⟨{ call with answer := some (some report, now) }, now, List.getElem?_set_self hlt, rfl, hkey, rfl,
        hpast.trans hnow, le_refl _, hcomplete⟩
  · rcases List.mem_or_eq_of_mem_set hc with hc | rfl
    · exact (h.past c hc).trans hnow
    · exact hpast.trans hnow

/-- What `store` keeps. -/
theorem mem_store {n : Nat} {call : DelegateCall} {report : WebSearchReport} {p : CacheKey × CacheEntry}
    (hp : p ∈ cache.store nfkc st n call report) : p ∈ st.entries ∨ ∃ key, p = (key, ⟨report, call.now, n⟩) ∧
      report.outcome = .complete ∧ cacheKey nfkc call.command cache.configRevision = some key := by
  unfold store at hp
  split at hp
  · next hcomplete =>
    split at hp
    · next key hkey =>
      rcases Entries.mem_putLast (Entries.evict_subset _ _ hp) with hp | rfl
      · exact .inl hp
      · exact .inr ⟨key, rfl, hcomplete, hkey⟩
    · exact .inl hp
  · exact .inl hp

theorem length_store (h : cache.Sound nfkc st) (n : Nat) (call : DelegateCall) (report : WebSearchReport)
    (hmax : 0 ≤ cache.maxEntries) : ((cache.store nfkc st n call report).length : Int) ≤ cache.maxEntries := by
  unfold store
  split
  · split
    · exact Entries.length_evict hmax _
    · exact h.bounded hmax
  · exact h.bounded hmax

theorem Sound.step (h : cache.Sound nfkc st) (hs : Step cache nfkc st st') : cache.Sound nfkc st' := by
  cases hs with
  | starts command now hnow => exact h.starts hnow
  | fails n call now hcall hopen hnow =>
    exact h.answered hcall hopen hnow none (fun p hp => .inl hp) h.bounded
  | answers n call report now hcall hopen hnow =>
    refine h.answered hcall hopen hnow (some report) (fun p hp => ?_) (length_store h n call report)
    rcases mem_store hp with hp | ⟨key, rfl, hcomplete, hkey⟩
    · exact .inl hp
    · exact .inr ⟨key, report, rfl, rfl, hcomplete, hkey⟩

/-- **Entries are what the delegate gave.** -/
theorem Reachable.sound (h : Reachable cache nfkc st) : cache.Sound nfkc st := by
  induction h with
  | start clock => exact Sound.start clock
  | step _ hs ih => exact ih.step hs

/-! ## Hits -/

/-- The hit at `now` is a complete report that the delegate gave at most the TTL before, for
the same search. -/
def Transparent (cache : CachedWebSearch) (nfkc : Text → Text) (st : CacheState) (command : WebSearchCommand)
    (now : Rat) (entry : CacheEntry) : Prop :=
  ∃ call answered, st.calls[entry.call]? = some call ∧ call.answer = some (some entry.report, answered) ∧
    entry.report.outcome = .complete ∧ answered ≤ now ∧ now - answered ≤ cache.ttlSeconds ∧
    SameSearch nfkc call.command command

/-- A fresh entry under the command's key is of a command with the same budget and the
same language. -/
def Agrees (cache : CachedWebSearch) (nfkc : Text → Text) (st : CacheState) (command : WebSearchCommand) (now : Rat) :
    Prop :=
  ∀ entry ∈ cache.fresh nfkc st command now, ∀ call ∈ st.calls[entry.call]?,
    call.command.budget = command.budget ∧ call.command.language = command.language

/-- **The cache is transparent where budgets and languages agree.** -/
theorem transparent_iff (h : Reachable cache nfkc st) (command : WebSearchCommand) (now : Rat)
    (hnow : st.clock ≤ now) :
    ((∀ entry, (cache.search nfkc st command now).1 = .hit entry → cache.Transparent nfkc st command now entry) ∧
        (st.entries.length : Int) ≤ cache.maxEntries) ↔
      cache.Agrees nfkc st command now ∧ 0 ≤ cache.maxEntries := by
  have hsound := h.sound
  refine and_congr ?_ ⟨fun hlen => by omega, hsound.bounded⟩
  simp only [search_hit, Agrees, Option.mem_def]
  refine forall₂_congr fun entry hfresh => ?_
  obtain ⟨key, hkey, hget, httl⟩ := fresh_some hfresh
  obtain ⟨call, answered, hcall, hanswer, hkey', hstored, hle, hpast, hcomplete⟩ :=
    hsound.given _ (Entries.get_mem hget)
  simp only at hcall hanswer hstored hcomplete hkey'
  constructor
  · intro ht call' hcall'
    obtain ⟨other, _, hother, _, _, _, _, hsame⟩ := ht
    obtain rfl : call' = other := Option.some.inj (hcall'.symm.trans hother)
    obtain rfl : call' = call := Option.some.inj (hcall'.symm.trans hcall)
    exact (sameSearch_iff hkey' hkey).1 hsame
  · intro hagrees
    refine ⟨call, answered, hcall, hanswer, hcomplete, hpast.trans hnow, by linarith, ?_⟩
    exact (sameSearch_iff hkey' hkey).2 (hagrees call hcall)

/-- The worker's searches leave budget and language alone: all its hits agree. -/
theorem agrees_of_forall (h : ∀ call ∈ st.calls, call.command.budget = command.budget ∧
    call.command.language = command.language) : cache.Agrees nfkc st command now :=
  fun _ _ call hcall => h call (List.mem_of_getElem? hcall)

/-! ## A smaller budget -/

def wide : WebSearchCommand := { query := ['a'] }

def narrow : WebSearchCommand := { query := ['a'], budget := { maxResults := 1 } }

def twoHits : WebSearchReport where
  outcome := .complete
  query := ['a']
  hits := [⟨"https://one", "one", "", []⟩, ⟨"https://two", "two", "", []⟩]
  unresponsiveEngines := []
  partialReasons := []

def smallCache : CachedWebSearch := { configRevision := "r1" }

def wideKey : CacheKey := ⟨['a'], sortedSet [], sortedSet [], "", "", "r1"⟩

def afterWide : CacheState where
  entries := [(wideKey, ⟨twoHits, 0, 0⟩)]
  calls := [⟨wide, 0, some (some twoHits, 1)⟩]
  clock := 1

theorem afterWide_reachable : Reachable smallCache id afterWide := by
  have hstart : Reachable smallCache id ⟨[], [⟨wide, 0, none⟩], 0⟩ :=
    (Reachable.start 0).step (.starts wide 0 (le_refl _))
  exact hstart.step (.answers 0 ⟨wide, 0, none⟩ twoHits 1 rfl rfl (by decide))

/-- The same search again. -/
theorem wide_served_wide :
    (∀ entry, (smallCache.search id afterWide wide 2).1 = .hit entry →
        smallCache.Transparent id afterWide wide 2 entry) ∧
      (afterWide.entries.length : Int) ≤ smallCache.maxEntries :=
  (transparent_iff afterWide_reachable wide 2 (by decide)).2
    ⟨agrees_of_forall (by simp [afterWide]), by decide⟩

/-- **After a search for twenty results, one for a single result gets two.** -/
theorem narrow_served_wide :
    ¬ ∀ st command now, Reachable smallCache id st → st.clock ≤ now → ∀ entry,
      (smallCache.search id st command now).1 = .hit entry → smallCache.Transparent id st command now entry := by
  intro h
  have hhit : (smallCache.search id afterWide narrow 2).1 = .hit ⟨twoHits, 0, 0⟩ := by
    have hkey : cacheKey id narrow smallCache.configRevision = some wideKey := rfl
    rw [search_hit]
    simp only [fresh, hkey, Entries.get, afterWide]
    simp [smallCache]
    norm_num
  obtain ⟨call, _, hcall, _, _, _, _, hsame⟩ := h afterWide narrow 2 afterWide_reachable (by decide) _ hhit
  cases hcall
  exact absurd hsame.2.2.2.2.2 (by decide)

end CachedWebSearch

end MilpbookLM.WebSearch
