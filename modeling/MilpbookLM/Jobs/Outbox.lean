/-
The read side of the outbox: the job events after a cursor, in sequence order
and at most `limit` of them (`streamJobEvents`), and the highest sequence number
(`maxJobEventSeq`). Both are read from the rows a statement sees, in whatever
order the table holds them.
-/
import MilpbookLM.Jobs.Repo
import MilpbookLM.Lib.Ranked

namespace MilpbookLM

/-- `aggregate_kind == JOB_AGGREGATE_KIND`. -/
def OutboxEvent.isJob (e : OutboxEvent) : Bool := e.aggregateKind = jobAggregateKind

/-- A job event with `seq > after_seq`. -/
def OutboxEvent.after (afterSeq : Int) (e : OutboxEvent) : Bool := e.isJob && afterSeq < e.seq

/-- `stream_job_events`. -/
def streamJobEvents (afterSeq : Int) (limit : Nat) (events : List OutboxEvent) : List OutboxEvent :=
  ((events.filter (·.after afterSeq)).insertionSort (·.seq ≤ ·.seq)).take limit

/-- `max_job_event_seq`. -/
def maxJobEventSeq (events : List OutboxEvent) : Nat :=
  (((events.filter (·.isJob)).map (·.seq)).max?).getD 0

section

variable {afterSeq : Int} {limit : Nat} {events : List OutboxEvent} {e : OutboxEvent}

theorem streamJobEvents_spec (h : e ∈ streamJobEvents afterSeq limit events) :
    e ∈ events ∧ e.isJob = true ∧ afterSeq < e.seq := by
  have h := (List.perm_insertionSort _ _).mem_iff.1 (List.mem_of_mem_take h)
  simpa [OutboxEvent.after] using h

/-- In sequence order, no number twice when the table has none twice. -/
theorem streamJobEvents_sorted (hu : (events.map (·.seq)).Nodup) :
    (streamJobEvents afterSeq limit events).Pairwise (·.seq < ·.seq) := by
  have hs := List.pairwise_insertionSort (fun a b : OutboxEvent => a.seq ≤ b.seq)
    (events.filter (·.after afterSeq))
  have hn : (((events.filter (·.after afterSeq)).insertionSort fun a b => a.seq ≤ b.seq).map (·.seq)).Nodup :=
    ((List.perm_insertionSort _ _).map _).nodup_iff.2 (hu.sublist (List.filter_sublist.map _))
  rw [List.nodup_iff_pairwise_ne, List.pairwise_map] at hn
  exact (hs.and hn).sublist (List.take_sublist _ _) |>.imp fun ⟨hle, hne⟩ => by omega

/-- The number of job events read before one of sequence `seq`. -/
def ahead (afterSeq : Int) (seq : Nat) (events : List OutboxEvent) : Nat :=
  events.countP fun e => e.after afterSeq && e.seq < seq

theorem ahead_perm {sorted : List OutboxEvent} (hp : sorted.Perm (events.filter (·.after afterSeq))) (seq : Nat) :
    sorted.countP (·.seq < seq) = ahead afterSeq seq events := by
  rw [hp.countP_eq, List.countP_filter, ahead]
  exact List.countP_congr fun x _ => by simp [and_comm]

/-- Which events a read returns: those with fewer than `limit` ahead of them. -/
theorem mem_streamJobEvents (hu : (events.map (·.seq)).Nodup) :
    e ∈ streamJobEvents afterSeq limit events ↔
      e ∈ events ∧ e.after afterSeq = true ∧ ahead afterSeq e.seq events < limit := by
  let sorted := (events.filter (·.after afterSeq)).insertionSort fun a b => a.seq ≤ b.seq
  have hp : sorted.Perm (events.filter (·.after afterSeq)) := List.perm_insertionSort _ _
  have hs : sorted.Pairwise fun a b => a.seq ≤ b.seq := List.pairwise_insertionSort _ _
  have hd : events.Nodup := hu.of_map
  constructor
  · intro he
    have hm := hp.mem_iff.1 (List.mem_of_mem_take he)
    rw [List.mem_filter] at hm
    refine ⟨hm.1, hm.2, ?_⟩
    rw [← ahead_perm hp]
    exact Ranked.countP_lt_of_mem_take hs he (by simp) fun x hx => by simpa using hx
  · rintro ⟨he, ha, hlt⟩
    rw [← ahead_perm hp] at hlt
    refine Ranked.mem_take_of_countP_lt hs (hp.mem_iff.2 (List.mem_filter.2 ⟨he, ha⟩)) ?_ hlt
      (hp.nodup_iff.2 (hd.filter _))
    intro x hx hle hne
    have hxe : x ∈ events := (List.mem_filter.1 (hp.mem_iff.1 hx)).1
    have : x.seq ≠ e.seq := fun heq => hne (List.inj_on_of_nodup_map hu hxe he heq)
    simp only [decide_eq_true_eq]
    omega

/-- A read that leaves an event out returns only events before it. -/
theorem lt_of_not_streamed (hu : (events.map (·.seq)).Nodup) (he : e ∈ events) (ha : e.after afterSeq = true)
    (hnot : e ∉ streamJobEvents afterSeq limit events) {x} (hx : x ∈ streamJobEvents afterSeq limit events) :
    x.seq < e.seq := by
  rw [mem_streamJobEvents hu] at hnot hx
  obtain ⟨hxe, hxa, hlt⟩ := hx
  by_contra hge
  refine hnot ⟨he, ha, lt_of_le_of_lt (List.countP_mono_left fun y _ hy => ?_) hlt⟩
  simp only [Bool.and_eq_true, decide_eq_true_eq] at hy ⊢
  exact ⟨hy.1, by omega⟩

/-- What a read returns, it returns from any part of the table that holds it. -/
theorem streamJobEvents_filter {p : OutboxEvent → Bool} (hu : (events.map (·.seq)).Nodup)
    (hp : ∀ e ∈ streamJobEvents afterSeq limit events, p e = true) :
    streamJobEvents afterSeq limit (events.filter p) = streamJobEvents afterSeq limit events := by
  have hua : ((events.filter (·.after afterSeq)).map (·.seq)).Nodup := hu.sublist (List.filter_sublist.map _)
  rw [streamJobEvents, List.filter_comm, ← Ranked.filter_insertionSort hua]
  exact Ranked.take_filter hp

theorem streamJobEvents_ne_nil (hl : 0 < limit) (he : e ∈ events) (ha : e.after afterSeq = true) :
    streamJobEvents afterSeq limit events ≠ [] := by
  have hm : e ∈ (events.filter (·.after afterSeq)).insertionSort fun a b => a.seq ≤ b.seq :=
    (List.perm_insertionSort _ _).mem_iff.2 (List.mem_filter.2 ⟨he, ha⟩)
  intro h
  rcases List.take_eq_nil_iff.1 h with h | h
  · omega
  · rw [h] at hm; simp at hm

end

end MilpbookLM
