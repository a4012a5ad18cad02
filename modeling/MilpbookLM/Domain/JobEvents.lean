/-
The job event envelope, the only shape that crosses the outbox, and its guard:
`assertContentFree` refuses a payload with a forbidden key, in nested objects
too. The payload of a job event passes it (`jobEventPayload_contentFree`).

An envelope's wire shape is the envelope: no modelled function reads the JSON
text of it, so `toDict` keeps the fields and runs the guard.
-/
import MilpbookLM.Domain.Jobs

namespace MilpbookLM

def jobAggregateKind : String := "job"
def eventJobSucceeded : String := "job.succeeded"
def eventJobFailed : String := "job.failed"
def eventJobCancelled : String := "job.cancelled"

/-- The event type of a terminal state. -/
def terminalEventType : JobState → Option String
  | .succeeded => some eventJobSucceeded
  | .failed => some eventJobFailed
  | .cancelled => some eventJobCancelled
  | _ => none

theorem terminalEventType_eq_none {s : JobState} : terminalEventType s = none ↔ s.terminal = false := by
  cases s <;> simp [terminalEventType, JobState.terminal]

def forbiddenKeyFragments : List String :=
  ["password", "credential", "api_key", "apikey", "access_token", "secret", "token", "source_text", "content"]

/-- `str.lower`, up to letters that stay outside ASCII: besides A to Z, only
the Kelvin sign and the dotted capital I lower to ASCII letters. -/
def lowerChar (c : Char) : List Char :=
  if c.toNat = 0x212A then ['k']
  else if c.toNat = 0x130 then ['i', Char.ofNat 0x307]
  else [c.toLower]

/-- A key whose lower-case form contains a forbidden fragment. -/
def forbiddenKey (key : String) : Bool :=
  forbiddenKeyFragments.any fun fragment => decide (fragment.toList <:+: key.toList.flatMap lowerChar)

mutual

/-- Refuses a payload with a forbidden key at any depth of nested objects. -/
def assertContentFree : List (String × Json) → Except JobError Unit
  | [] => .ok ()
  | kv :: rest =>
    match assertEntryFree kv with
    | .ok () => assertContentFree rest
    | .error e => .error e

def assertEntryFree : String × Json → Except JobError Unit
  | (key, value) =>
    if forbiddenKey key then
      .error (.eventPayloadNotContentFree s!"event payload key '{key}' is not content-free")
    else assertValueFree value

def assertValueFree : Json → Except JobError Unit
  | .obj d => assertContentFree d
  | _ => .ok ()

end

structure EventEnvelope where
  eventId : Uuid
  eventType : String
  aggregateKind : String
  aggregateId : Uuid
  aggregateVersion : Nat
  occurredAt : Time
  payload : Dict := []
  schemaVersion : Nat := 1
  streamSeq : Nat := 0
  actorId : Option Uuid := none
  operationId : Option String := none
  traceId : Option String := none
  jobId : Option Uuid := none
  visibility : String := "private"

/-- The wire shape, when the payload is content-free. -/
def EventEnvelope.toDict (e : EventEnvelope) : Except JobError EventEnvelope :=
  match assertContentFree e.payload with
  | .ok () => .ok e
  | .error err => .error err

/-- The content-free payload of one job event. -/
def jobEventPayload (job : JobRecord) : Dict :=
  [("job_id", .str job.id.str),
    ("kind", .str job.kind),
    ("capacity_class", .str job.queue.value),
    ("state", .str job.state.value),
    ("attempts", .int job.attempts),
    ("priority", .int job.priority),
    ("notebook_id", .ofStr? (job.notebookId.map Uuid.str)),
    ("result_ref", .ofStr? job.resultRef),
    ("error_code", .ofStr? job.errorCode),
    ("waiting_reason", .ofStr? job.waitingReason)] ++
  (match job.progress with
    | some p =>
      [("progress", .obj [("phase", .str p.phase), ("fraction", (p.fraction.map Json.float).getD .null),
        ("status", .ofStr? p.status)])]
    | none => []) ++
  (match job.cancelReason with
    | some reason => [("cancel_reason", .str reason)]
    | none => [])

/-- `payload[key] = value`. -/
def Dict.set (d : Dict) (key : String) (value : Json) : Dict :=
  if d.any (·.1 == key) then d.map fun kv => if kv.1 == key then (key, value) else kv else d ++ [(key, value)]

theorem assertContentFree_ok {d : List (String × Json)} (h : ∀ kv ∈ d, assertEntryFree kv = .ok ()) :
    assertContentFree d = .ok () := by
  induction d with
  | nil => simp [assertContentFree]
  | cons kv d ih => simp [assertContentFree, h kv (by simp), ih fun x hx => h x (by simp [hx])]

theorem assertEntryFree_ok {key value} (hk : forbiddenKey key = false) (hv : assertValueFree value = .ok ()) :
    assertEntryFree (key, value) = .ok () := by
  simp [assertEntryFree, hk, hv]

@[simp] theorem assertValueFree_ofStr? (s : Option String) : assertValueFree (.ofStr? s) = .ok () := by
  cases s <;> simp [Json.ofStr?, assertValueFree]

/-- Every entry of a job event's payload passes the guard. -/
theorem jobEventPayload_entry {job kv} (h : kv ∈ jobEventPayload job) : assertEntryFree kv = .ok () := by
  have hk : ∀ k ∈ ["job_id", "kind", "capacity_class", "state", "attempts", "priority", "notebook_id",
      "result_ref", "error_code", "waiting_reason", "progress", "cancel_reason", "phase", "fraction", "status"],
      forbiddenKey k = false := by decide
  have hv : ∀ p : JobProgress, assertValueFree (.obj [("phase", .str p.phase),
      ("fraction", (p.fraction.map Json.float).getD .null), ("status", .ofStr? p.status)]) = .ok () := by
    intro p
    simp only [assertValueFree]
    refine assertContentFree_ok fun kv hkv => ?_
    simp only [List.mem_cons, List.not_mem_nil, or_false] at hkv
    rcases hkv with rfl | rfl | rfl <;> refine assertEntryFree_ok (hk _ (by decide)) ?_
    · simp [assertValueFree]
    · cases p.fraction <;> simp [assertValueFree]
    · simp
  simp only [jobEventPayload, List.mem_append, List.mem_cons, List.not_mem_nil, or_false] at h
  rcases h with (h | h) | h
  · rcases h with rfl | rfl | rfl | rfl | rfl | rfl | rfl | rfl | rfl | rfl <;>
      exact assertEntryFree_ok (hk _ (by decide)) (by simp [assertValueFree])
  · split at h
    · rw [List.mem_singleton.1 h]; exact assertEntryFree_ok (hk _ (by decide)) (hv _)
    · simp at h
  · split at h
    · rw [List.mem_singleton.1 h]; exact assertEntryFree_ok (hk _ (by decide)) (by simp [assertValueFree])
    · simp at h

theorem jobEventPayload_contentFree (job : JobRecord) : assertContentFree (jobEventPayload job) = .ok () :=
  assertContentFree_ok fun _ => jobEventPayload_entry

/-- So does the payload of a cancellation, which sets the reason anew. -/
theorem cancelPayload_contentFree (job : JobRecord) (reason : String) :
    assertContentFree (Dict.set (jobEventPayload job) "cancel_reason" (.str reason)) = .ok () := by
  have hr : assertEntryFree ("cancel_reason", .str reason) = .ok () :=
    assertEntryFree_ok (by decide) (by simp [assertValueFree])
  refine assertContentFree_ok fun kv hkv => ?_
  unfold Dict.set at hkv
  split at hkv
  · obtain ⟨kv', hkv', rfl⟩ := List.mem_map.1 hkv
    split
    · exact hr
    · exact jobEventPayload_entry hkv'
  · rcases List.mem_append.1 hkv with h | h
    · exact jobEventPayload_entry h
    · rw [List.mem_singleton.1 h]; exact hr

end MilpbookLM
