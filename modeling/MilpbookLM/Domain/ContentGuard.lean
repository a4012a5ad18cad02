/-
How deep the guard of event payloads is. It enters the dicts within dicts and no list, so it refuses exactly the
payloads with a forbidden key that is reached by dicts alone (`assertContentFree_error`). What is told of it holds
where a payload with a forbidden key has such a one (`content_guard_iff`).
-/
import MilpbookLM.Domain.JobEvents

namespace MilpbookLM

/-- A dict in the value has the key: at any depth, and inside lists where these are entered. -/
inductive KeyAt (lists : Bool) (key : String) : Json → Prop
  | here {d value} (h : (key, value) ∈ d) : KeyAt lists key (.obj d)
  | field {d k value} (h : (k, value) ∈ d) (hvalue : KeyAt lists key value) : KeyAt lists key (.obj d)
  | item {xs x} (hlists : lists = true) (h : x ∈ xs) (hx : KeyAt lists key x) : KeyAt lists key (.arr xs)

/-- The value has a forbidden key. -/
def Reveals (lists : Bool) (value : Json) : Prop := ∃ key, forbiddenKey key = true ∧ KeyAt lists key value

theorem KeyAt.everywhere {lists : Bool} {key : String} {value : Json} (h : KeyAt lists key value) :
    KeyAt true key value := by
  induction h with
  | here h => exact .here h
  | field h _ ih => exact .field h ih
  | item _ h _ ih => exact .item rfl h ih

theorem Reveals.everywhere {lists : Bool} {value : Json} (h : Reveals lists value) : Reveals true value := by
  obtain ⟨key, hkey, hat⟩ := h
  exact ⟨key, hkey, hat.everywhere⟩

/-! ## The guard -/

theorem assertContentFree_ok_iff {d : Dict} :
    assertContentFree d = .ok () ↔ ∀ kv ∈ d, assertEntryFree kv = .ok () := by
  refine ⟨fun h => ?_, assertContentFree_ok⟩
  induction d with
  | nil => simp
  | cons kv d ih =>
    simp only [assertContentFree] at h
    split at h
    · next hkv => simpa [hkv] using ih h
    · cases h

theorem assertEntryFree_ok_iff {key : String} {value : Json} :
    assertEntryFree (key, value) = .ok () ↔ forbiddenKey key = false ∧ assertValueFree value = .ok () := by
  cases hkey : forbiddenKey key <;> simp [assertEntryFree, hkey]

/-- What passes has no forbidden key that the guard reaches. -/
theorem allowed_of_ok {key : String} {value : Json} (hat : KeyAt false key value) (h : assertValueFree value = .ok ()) :
    forbiddenKey key = false := by
  induction hat with
  | here hmem =>
    rw [assertValueFree, assertContentFree_ok_iff] at h
    exact (assertEntryFree_ok_iff.1 (h _ hmem)).1
  | field hmem _ ih =>
    rw [assertValueFree, assertContentFree_ok_iff] at h
    exact ih (assertEntryFree_ok_iff.1 (h _ hmem)).2
  | item hlists => cases hlists

mutual

/-- What has no forbidden key that the guard reaches passes. -/
theorem assertValueFree_of_allowed :
    ∀ value : Json, (∀ key, KeyAt false key value → forbiddenKey key = false) → assertValueFree value = .ok ()
  | .obj d, h => by
    rw [assertValueFree]
    exact assertContentFree_of_allowed d (fun k value hmem => h k (.here hmem))
      fun k value hmem key hat => h key (.field hmem hat)
  | .null, _ | .bool _, _ | .int _, _ | .float _, _ | .str _, _ | .arr _, _ => by simp [assertValueFree]

theorem assertContentFree_of_allowed :
    ∀ d : List (String × Json), (∀ k value, (k, value) ∈ d → forbiddenKey k = false) →
      (∀ k value, (k, value) ∈ d → ∀ key, KeyAt false key value → forbiddenKey key = false) →
        assertContentFree d = .ok ()
  | [], _, _ => by simp [assertContentFree]
  | (k, value) :: d, hkeys, hvalues => by
    have hvalue := assertValueFree_of_allowed value (hvalues k value List.mem_cons_self)
    have hrest := assertContentFree_of_allowed d (fun k' v' hmem => hkeys k' v' (List.mem_cons_of_mem _ hmem))
      fun k' v' hmem => hvalues k' v' (List.mem_cons_of_mem _ hmem)
    simp [assertContentFree, assertEntryFree, hkeys k value List.mem_cons_self, hvalue, hrest]

end

/-- **The guard refuses** exactly the payloads with a forbidden key that is reached by dicts alone. -/
theorem assertContentFree_error {d : Dict} : (∃ e, assertContentFree d = .error e) ↔ Reveals false (.obj d) := by
  constructor
  · intro h
    obtain ⟨e, he⟩ := h
    by_contra hnot
    have hok := assertValueFree_of_allowed (.obj d) fun key hat =>
      Bool.eq_false_iff.2 fun hkey => hnot ⟨key, hkey, hat⟩
    rw [assertValueFree, he] at hok
    cases hok
  · intro h
    obtain ⟨key, hkey, hat⟩ := h
    cases hd : assertContentFree d with
    | error e => exact ⟨e, rfl⟩
    | ok u =>
      have hallowed := allowed_of_ok hat (by rw [assertValueFree, hd])
      rw [hkey] at hallowed
      cases hallowed

/-! ## Events -/

/-- The guard refuses the payloads with a forbidden key at any depth, so that no event that is written has one. -/
structure Guarded (e : EventEnvelope) : Prop where
  refuses : (∃ err, assertContentFree e.payload = .error err) ↔ Reveals true (.obj e.payload)
  written : ∀ e', e.toDict = .ok e' → ¬ Reveals true (.obj e'.payload)

/-- **The guard is deep** exactly where a payload with a forbidden key has one outside all lists. -/
theorem content_guard_iff (e : EventEnvelope) :
    Guarded e ↔ (Reveals true (.obj e.payload) → Reveals false (.obj e.payload)) := by
  constructor
  · intro h hreveals
    exact assertContentFree_error.1 (h.refuses.2 hreveals)
  · intro h
    have hrefuses : (∃ err, assertContentFree e.payload = .error err) ↔ Reveals true (.obj e.payload) :=
      assertContentFree_error.trans ⟨Reveals.everywhere, h⟩
    refine ⟨hrefuses, fun e' he' hreveals => ?_⟩
    simp only [EventEnvelope.toDict] at he'
    split at he'
    · next hok =>
      cases he'
      obtain ⟨err, herr⟩ := hrefuses.2 hreveals
      rw [hok] at herr
      cases herr
    · cases he'

/-- An event with a list of attachments. -/
def attachmentsEvent : EventEnvelope where
  eventId := 1
  eventType := eventJobSucceeded
  aggregateKind := jobAggregateKind
  aggregateId := 2
  aggregateVersion := 1
  occurredAt := 0
  payload := [("attachments", .arr [.obj [("access_token", .str "t0p")]])]

/-- A token inside a list is written. -/
theorem token_in_list : ¬ ∀ e : EventEnvelope, Guarded e := by
  intro h
  refine (h attachmentsEvent).written attachmentsEvent rfl ⟨"access_token", by decide, ?_⟩
  exact .field List.mem_cons_self (.item rfl List.mem_cons_self (.here List.mem_cons_self))

end MilpbookLM
