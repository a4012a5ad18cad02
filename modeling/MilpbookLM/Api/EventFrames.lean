/-
The server-sent events route: `_event_frames` resumes from `Last-Event-ID` (or
from the end of the stream), then reads the outbox again and again, and
`job_events` serves it to an authenticated principal.

The route drops the principal, so what it delivers is everybody's events. A
history is what one connection gets to see; `ownAhead_iff` says in which of them
every frame delivered is about the user's own jobs, and `streams_own_iff` adds
what becomes of two histories that agree on the user's events.
-/
import MilpbookLM.Jobs.Outbox
import Mathlib.Data.List.Pairwise

namespace MilpbookLM

def sseBatchLimit : Nat := 100

/-- What `_sse` formats, and the keepalive comment. -/
inductive Frame
  | event (seq : Nat) (eventType : String) (data : EventEnvelope)
  | resync (resumeSeq : Nat)
  | keepalive

/-- The `id` line. -/
def Frame.seq? : Frame → Option Nat
  | .event seq _ _ => some seq
  | _ => none

/-- The event payload of a frame. -/
def Frame.data? : Frame → Option EventEnvelope
  | .event _ _ data => some data
  | _ => none

/-- `_sse(event.seq, event.event_type, event.envelope)`. -/
def OutboxEvent.frame (e : OutboxEvent) : Frame := .event e.seq e.eventType e.payload

/-- The generator: its position, and the frames it has yielded. -/
structure EventStream where
  cursor : Int
  frames : List Frame := []

/-- `_event_frames` up to its loop. -/
def EventStream.connect (lastEventId : Option Int) (events : List OutboxEvent) : EventStream :=
  let maxSeq := maxJobEventSeq events
  match lastEventId with
  | none => { cursor := maxSeq }
  | some last =>
    -- Gap: the client's position is beyond the retained tail.
    if maxSeq < last then { cursor := maxSeq, frames := [.resync maxSeq] } else { cursor := last }

/-- The body of the `for` over a batch. -/
def EventStream.emit (s : EventStream) (e : OutboxEvent) : EventStream :=
  { cursor := e.seq, frames := s.frames ++ [e.frame] }

/-- One round of the loop, over the rows its read sees. -/
def EventStream.poll (s : EventStream) (events : List OutboxEvent) : EventStream :=
  match streamJobEvents s.cursor sseBatchLimit events with
  | [] => { s with frames := s.frames ++ [.keepalive] }
  | found => found.foldl .emit s

namespace EventStream

/-- The events the next round reads. -/
abbrev batch (s : EventStream) (events : List OutboxEvent) : List OutboxEvent :=
  streamJobEvents s.cursor sseBatchLimit events

theorem foldl_emit_frames (s : EventStream) (found : List OutboxEvent) :
    (found.foldl emit s).frames = s.frames ++ found.map (·.frame) := by
  induction found generalizing s with
  | nil => simp
  | cons e found ih => simp [ih, emit]

theorem foldl_emit_cursor (s : EventStream) (found : List OutboxEvent) :
    (found.foldl emit s).cursor = (found.getLast?.map fun e => (e.seq : Int)).getD s.cursor := by
  induction found generalizing s with
  | nil => simp
  | cons e found ih =>
    rw [List.foldl_cons, ih, List.getLast?_cons]
    cases found.getLast? <;> simp [emit]

/-- A round moves to the last event it read. -/
theorem poll_cursor (s : EventStream) (events : List OutboxEvent) :
    (s.poll events).cursor = ((s.batch events).getLast?.map fun e => (e.seq : Int)).getD s.cursor := by
  simp only [poll, batch]
  split
  · next h => simp [h]
  · next h => rw [foldl_emit_cursor]

/-- A round yields the events it read, or a keepalive. -/
theorem poll_frames (s : EventStream) (events : List OutboxEvent) :
    (s.poll events).frames =
      s.frames ++ if s.batch events = [] then [.keepalive] else (s.batch events).map (·.frame) := by
  simp only [poll, batch]
  split
  · next h => simp [h]
  · next h => rw [foldl_emit_frames, if_neg h]

theorem poll_data (s : EventStream) (events : List OutboxEvent) :
    (s.poll events).frames.filterMap (·.data?) =
      s.frames.filterMap (·.data?) ++ (s.batch events).map (·.payload) := by
  rw [poll_frames, List.filterMap_append]
  split
  · next h => simp [h, Frame.data?]
  · simp [List.filterMap_map, OutboxEvent.frame, Frame.data?]

theorem poll_seqs (s : EventStream) (events : List OutboxEvent) :
    (s.poll events).frames.filterMap (·.seq?) = s.frames.filterMap (·.seq?) ++ (s.batch events).map (·.seq) := by
  rw [poll_frames, List.filterMap_append]
  split
  · next h => simp [h, Frame.seq?]
  · simp [List.filterMap_map, OutboxEvent.frame, Frame.seq?]

theorem le_poll_cursor {s : EventStream} {events : List OutboxEvent} (hu : (events.map (·.seq)).Nodup) {e}
    (he : e ∈ s.batch events) : (e.seq : Int) ≤ (s.poll events).cursor := by
  have : Std.Refl fun a b : OutboxEvent => a.seq ≤ b.seq := ⟨fun _ => le_rfl⟩
  have hlast := ((streamJobEvents_sorted hu).imp le_of_lt).rel_getLast he
  rw [poll_cursor, List.getLast?_eq_some_getLast (List.ne_nil_of_mem he)]
  simpa using hlast

/-- A round that reads something stops at an event just read. -/
theorem poll_cursor_mem {s : EventStream} {events : List OutboxEvent} (h : s.batch events ≠ []) :
    ∃ e ∈ s.batch events, (s.poll events).cursor = e.seq := by
  refine ⟨_, List.getLast_mem h, ?_⟩
  rw [poll_cursor, List.getLast?_eq_some_getLast h]
  rfl

/-- The position is where it was, or at an event just read. -/
theorem poll_cursor_cases (s : EventStream) (events : List OutboxEvent) :
    (s.poll events).cursor = s.cursor ∨ ∃ e ∈ s.batch events, (s.poll events).cursor = e.seq := by
  by_cases h : s.batch events = []
  · rw [poll_cursor, h]; exact .inl rfl
  · exact .inr (poll_cursor_mem h)

theorem cursor_le_poll (s : EventStream) (events : List OutboxEvent) : s.cursor ≤ (s.poll events).cursor := by
  rcases s.poll_cursor_cases events with h | ⟨e, he, h⟩
  · exact h.ge
  · rw [h]; exact (streamJobEvents_spec he).2.2.le

end EventStream

/-! ## What a connection sees -/

/-- The rows visible when a client connects and at each later read. Rows are not
taken back, and the sequence column is unique. -/
structure OutboxHistory where
  before : List OutboxEvent
  polls : List (List OutboxEvent)
  unique : ∀ rows ∈ before :: polls, (rows.map (·.seq)).Nodup
  grows : (before :: polls).Pairwise fun earlier later => ∀ e ∈ earlier, e ∈ later

/-- The frames of `_event_frames` along a history. -/
def eventFrames (lastEventId : Option Int) (h : OutboxHistory) : List Frame :=
  (h.polls.foldl .poll (EventStream.connect lastEventId h.before)).frames

/-- `GET /events`: the principal is authenticated, then dropped. -/
def jobEvents (_principal : Uuid) (lastEventId : Option Int) (h : OutboxHistory) : List Frame :=
  eventFrames lastEventId h

/-- The payloads delivered. -/
def delivered (principal : Uuid) (lastEventId : Option Int) (h : OutboxHistory) : List EventEnvelope :=
  (jobEvents principal lastEventId h).filterMap (·.data?)

/-- The event is about a job of `user`. -/
def OutboxEvent.by (user : Uuid) (e : OutboxEvent) : Bool := e.payload.actorId = some user

/-- The histories show the same events of `user` at the same reads. -/
def OutboxHistory.Agree (user : Uuid) (h h' : OutboxHistory) : Prop :=
  h.before.filter (·.by user) = h'.before.filter (·.by user) ∧
    h.polls.map (·.filter (·.by user)) = h'.polls.map (·.filter (·.by user))

/-- At each read, the job events the next batch has room for are of `user`. -/
def EventStream.OwnAhead (user : Uuid) : EventStream → List (List OutboxEvent) → Prop
  | _, [] => True
  | s, rows :: rest =>
    (∀ e ∈ rows, e.after s.cursor = true → ahead s.cursor e.seq rows < sseBatchLimit → e.by user = true) ∧
      (s.poll rows).OwnAhead user rest

/-- The history shows the reads of a stream only events of `user` to pick up. -/
def OutboxHistory.OwnAhead (user : Uuid) (lastEventId : Option Int) (h : OutboxHistory) : Prop :=
  (EventStream.connect lastEventId h.before).OwnAhead user h.polls

section Own

variable {user : Uuid} {rows : List OutboxEvent} {s : EventStream}

theorem own_batch (hu : (rows.map (·.seq)).Nodup) :
    (∀ e ∈ s.batch rows, e.by user = true) ↔
      ∀ e ∈ rows, e.after s.cursor = true → ahead s.cursor e.seq rows < sseBatchLimit → e.by user = true := by
  constructor
  · exact fun h e he ha hl => h e ((mem_streamJobEvents hu).2 ⟨he, ha, hl⟩)
  · intro h e he
    obtain ⟨hr, ha, hl⟩ := (mem_streamJobEvents hu).1 he
    exact h e hr ha hl

/-- Only the user's payloads come out if and only if only the user's events are picked up. -/
theorem own_foldl {polls : List (List OutboxEvent)} (hu : ∀ rows ∈ polls, (rows.map (·.seq)).Nodup) :
    (∀ data ∈ (polls.foldl .poll s).frames.filterMap (·.data?), data.actorId = some user) ↔
      (∀ data ∈ s.frames.filterMap (·.data?), data.actorId = some user) ∧ s.OwnAhead user polls := by
  induction polls generalizing s with
  | nil => simp [EventStream.OwnAhead]
  | cons rows polls ih =>
    rw [List.foldl_cons, ih fun r hr => hu r (by simp [hr]), EventStream.OwnAhead, ← and_assoc,
      ← own_batch (hu rows (by simp)), EventStream.poll_data]
    simp [OutboxEvent.by, or_imp, forall_and]

theorem frames_connect (lastEventId : Option Int) (events : List OutboxEvent) :
    (EventStream.connect lastEventId events).frames.filterMap (·.data?) = [] := by
  unfold EventStream.connect
  cases lastEventId with
  | none => rfl
  | some last => dsimp only; split <;> rfl

theorem ownAhead_iff (lastEventId : Option Int) (h : OutboxHistory) :
    (∀ data ∈ delivered user lastEventId h, data.actorId = some user) ↔ h.OwnAhead user lastEventId := by
  simp only [delivered, jobEvents, eventFrames, OutboxHistory.OwnAhead]
  rw [own_foldl fun rows hr => h.unique rows (by simp [hr]), frames_connect]
  simp

/-- Two histories that show the same events of the user, and no others to pick
up, are served the same. -/
theorem own_agree {polls polls' : List (List OutboxEvent)} {s' : EventStream}
    (hu : ∀ rows ∈ polls, (rows.map (·.seq)).Nodup) (hu' : ∀ rows ∈ polls', (rows.map (·.seq)).Nodup)
    (hagree : polls.map (·.filter (·.by user)) = polls'.map (·.filter (·.by user)))
    (hc : s.cursor = s'.cursor) (hd : s.frames.filterMap (·.data?) = s'.frames.filterMap (·.data?))
    (ho : s.OwnAhead user polls) (ho' : s'.OwnAhead user polls') :
    (polls.foldl .poll s).frames.filterMap (·.data?) = (polls'.foldl .poll s').frames.filterMap (·.data?) := by
  induction polls generalizing s s' polls' with
  | nil =>
    rw [List.map_nil, eq_comm, List.map_eq_nil_iff] at hagree
    rw [hagree]; exact hd
  | cons rows polls ih =>
    obtain _ | ⟨rows', polls'⟩ := polls'
    · simp at hagree
    obtain ⟨hrows, hrest⟩ := List.cons.inj hagree
    dsimp only at hrows
    have hr := hu rows (by simp)
    have hr' := hu' rows' (by simp)
    have hb : s.batch rows = s'.batch rows' := calc
      s.batch rows
      _ = s.batch (rows.filter (·.by user)) := (streamJobEvents_filter hr ((own_batch hr).2 ho.1)).symm
      _ = s'.batch (rows'.filter (·.by user)) := by rw [hrows, EventStream.batch, EventStream.batch, hc]
      _ = s'.batch rows' := streamJobEvents_filter hr' ((own_batch hr').2 ho'.1)
    have hc' : (s.poll rows).cursor = (s'.poll rows').cursor := by
      rw [EventStream.poll_cursor, EventStream.poll_cursor, hb, hc]
    have hd' : (s.poll rows).frames.filterMap (·.data?) = (s'.poll rows').frames.filterMap (·.data?) := by
      rw [EventStream.poll_data, EventStream.poll_data, hb, hd]
    rw [List.foldl_cons, List.foldl_cons]
    exact ih (fun r h => hu r (by simp [h])) (fun r h => hu' r (by simp [h])) hrest hc' hd' ho.2 ho'.2

end Own

/-! ## The stream of one user -/

/-- A job event about a job of `user`. -/
def jobEventOf (user : Uuid) (seq : Nat) : OutboxEvent :=
  { seq, aggregateKind := jobAggregateKind, aggregateId := 1, eventType := eventJobSucceeded
    payload :=
      { eventId := 1, eventType := eventJobSucceeded, aggregateKind := jobAggregateKind, aggregateId := 1
        aggregateVersion := 1, occurredAt := 0, actorId := some user } }

/-- Nothing happens. -/
def quiet : OutboxHistory := ⟨[], [[]], by simp, by simp⟩

/-- The first event ever, of `other`, between connecting and the first read. -/
def foreign (other : Uuid) : OutboxHistory := ⟨[], [[jobEventOf other 1]], by simp, by simp⟩

theorem connect_nil (lastEventId : Option Int) : (EventStream.connect lastEventId []).cursor ≤ 0 := by
  unfold EventStream.connect
  cases lastEventId with
  | none => rfl
  | some last =>
    rcases lt_or_ge 0 last with h | h
    · simp [maxJobEventSeq, h]
    · simpa [maxJobEventSeq, not_lt.2 h] using h

theorem delivered_foreign (user other : Uuid) (lastEventId : Option Int) :
    (delivered user lastEventId (foreign other)).map (·.actorId) = [some other] := by
  have hafter : (jobEventOf other 1).after (EventStream.connect lastEventId []).cursor = true := by
    have := connect_nil lastEventId
    simp only [OutboxEvent.after, OutboxEvent.isJob, jobEventOf, Nat.cast_one, decide_true, Bool.true_and,
      decide_eq_true_eq]
    omega
  have hb : (EventStream.connect lastEventId []).batch [jobEventOf other 1] = [jobEventOf other 1] := by
    simp [EventStream.batch, streamJobEvents, hafter, sseBatchLimit]
  simp only [delivered, jobEvents, eventFrames, foreign, List.foldl_cons, List.foldl_nil]
  rw [EventStream.poll_data, frames_connect, hb]
  simp [jobEventOf]

theorem delivered_quiet (user : Uuid) (lastEventId : Option Int) : delivered user lastEventId quiet = [] := by
  simp only [delivered, jobEvents, eventFrames, quiet, List.foldl_cons, List.foldl_nil]
  rw [EventStream.poll_data, frames_connect]
  simp [EventStream.batch, streamJobEvents]

theorem quiet_agree {user other : Uuid} (h : other ≠ user) : quiet.Agree user (foreign other) := by
  simp [OutboxHistory.Agree, quiet, foreign, OutboxEvent.by, jobEventOf, h]

/-- **Whose events a user is served.** Every frame is about the user's own jobs if
and only if the reads find no others to pick up. Then, from one position, two
histories that agree on the user's events are served the same. In general they
are not: whatever the position, other users' events make a difference. -/
theorem streams_own_iff (user : Uuid) (lastEventId : Option Int) :
    (∀ h : OutboxHistory,
      (∀ data ∈ delivered user lastEventId h, data.actorId = some user) ↔ h.OwnAhead user lastEventId) ∧
    (∀ h h' : OutboxHistory, h.Agree user h' →
      (EventStream.connect lastEventId h.before).cursor = (EventStream.connect lastEventId h'.before).cursor →
      h.OwnAhead user lastEventId → h'.OwnAhead user lastEventId →
      delivered user lastEventId h = delivered user lastEventId h') ∧
    ∃ h h' : OutboxHistory, h.Agree user h' ∧ delivered user lastEventId h ≠ delivered user lastEventId h' := by
  refine ⟨ownAhead_iff lastEventId, ?_, ?_⟩
  · intro h h' hagree hc ho ho'
    refine own_agree (fun rows hr => h.unique rows (by simp [hr])) (fun rows hr => h'.unique rows (by simp [hr]))
      hagree.2 hc ?_ ho ho'
    rw [frames_connect, frames_connect]
  · refine ⟨quiet, foreign (user + 1), quiet_agree (by bv_omega), fun heq => ?_⟩
    have hd := delivered_foreign user (user + 1) lastEventId
    rw [← heq, delivered_quiet] at hd
    simp at hd

/-- A user with no events is served the event of another. -/
theorem serves_foreign :
    ¬ ∀ (user : Uuid) (lastEventId : Option Int) (h h' : OutboxHistory), h.Agree user h' →
      delivered user lastEventId h = delivered user lastEventId h' ∧
        ∀ data ∈ delivered user lastEventId h, data.actorId = some user := by
  intro hall
  obtain ⟨heq, -⟩ := hall 1 none quiet (foreign 2) (quiet_agree (by decide))
  have hd := delivered_foreign 1 2 none
  rw [← heq, delivered_quiet] at hd
  simp at hd

end MilpbookLM
