/-
Publishing transactions against one event stream. A transaction gets the
sequence number of an event when it inserts it and shows the event when it
commits; transactions commit in any order. The stream reads what is committed.

The highest number read is no low-water mark: `streams_all_iff` says that a
stream yields every event committed above its start if and only if no read
passes an event of a transaction still open, and `overtakenRun` is a run where
one does. No event is ever yielded twice (`seqs_nodup`).
-/
import MilpbookLM.Api.EventFrames
import MilpbookLM.Jobs.JobStep
import MilpbookLM.Lib.Progress

namespace MilpbookLM

/-! ## The table -/

/-- A row, and the open transaction that inserted it. -/
structure OutboxRow where
  event : OutboxEvent
  writer : Option Nat

structure OutboxTable where
  rows : List OutboxRow := []
  nextSeq : Nat := 1

inductive TxnAct
  | insert (txn : Nat) (envelope : EventEnvelope)
  | commit (txn : Nat)
  | rollback (txn : Nat)

namespace OutboxTable

/-- One statement of one transaction: `append_outbox`, or its end. -/
def step (t : OutboxTable) : TxnAct → OutboxTable
  | .insert txn envelope =>
    match envelope.toDict with
    | .ok payload => { rows := t.rows ++ [⟨payload.row t.nextSeq, some txn⟩], nextSeq := t.nextSeq + 1 }
    | .error _ => t
  | .commit txn => { t with rows := t.rows.map fun r => if r.writer = some txn then { r with writer := none } else r }
  | .rollback txn => { t with rows := t.rows.filter fun r => r.writer ≠ some txn }

/-- The committed events, what a statement of another transaction sees. -/
def visible (t : OutboxTable) : List OutboxEvent := (t.rows.filter (·.writer.isNone)).map (·.event)

/-- Rows stand in the order of their numbers, all below the next one. -/
structure Ordered (t : OutboxTable) : Prop where
  sorted : t.rows.Pairwise fun a b => a.event.seq < b.event.seq
  below : ∀ r ∈ t.rows, r.event.seq < t.nextSeq

theorem Ordered.step {t : OutboxTable} (h : t.Ordered) (a : TxnAct) : (t.step a).Ordered := by
  cases a with
  | insert txn envelope =>
    simp only [OutboxTable.step]
    split
    · refine ⟨List.pairwise_append.2 ⟨h.sorted, by simp, ?_⟩, ?_⟩
      · intro r hr r' hr'
        rw [List.mem_singleton.1 hr']
        exact h.below r hr
      · intro r hr
        rcases List.mem_append.1 hr with hr | hr
        · exact Nat.lt_succ_of_lt (h.below r hr)
        · rw [List.mem_singleton.1 hr]
          exact Nat.lt_succ_self _
    · exact h
  | commit txn =>
    have hseq : ∀ r : OutboxRow,
        (if r.writer = some txn then { r with writer := none } else r).event.seq = r.event.seq :=
      fun r => by split <;> rfl
    refine ⟨List.pairwise_map.2 (h.sorted.imp fun hlt => by rwa [hseq, hseq]), ?_⟩
    intro r' hr'
    obtain ⟨r, hr, rfl⟩ := List.mem_map.1 hr'
    rw [hseq]
    exact h.below r hr
  | rollback txn => exact ⟨h.sorted.sublist List.filter_sublist, fun r hr => h.below r (List.mem_filter.1 hr).1⟩

theorem Ordered.eq_of_seq {t : OutboxTable} (h : t.Ordered) {r r' : OutboxRow} (hr : r ∈ t.rows) (hr' : r' ∈ t.rows)
    (hs : r.event.seq = r'.event.seq) : r = r' := by
  have hn : (t.rows.map (·.event.seq)).Nodup := by
    rw [List.nodup_iff_pairwise_ne, List.pairwise_map]
    exact h.sorted.imp fun hlt => hlt.ne
  exact List.inj_on_of_nodup_map hn hr hr' hs

theorem mem_visible {t : OutboxTable} {e : OutboxEvent} : e ∈ t.visible ↔ ⟨e, none⟩ ∈ t.rows := by
  simp only [visible, List.mem_map, List.mem_filter, Option.isNone_iff_eq_none]
  constructor
  · rintro ⟨⟨e', w⟩, ⟨hr, rfl⟩, rfl⟩
    exact hr
  · exact fun h => ⟨_, ⟨h, rfl⟩, rfl⟩

theorem Ordered.unique {t : OutboxTable} (h : t.Ordered) : (t.visible.map (·.seq)).Nodup := by
  rw [List.nodup_iff_pairwise_ne, visible, List.pairwise_map, List.pairwise_map]
  exact (h.sorted.sublist List.filter_sublist).imp fun hlt => hlt.ne

/-- What is committed stays. -/
theorem visible_step {t : OutboxTable} {e : OutboxEvent} (h : e ∈ t.visible) (a : TxnAct) : e ∈ (t.step a).visible := by
  rw [mem_visible] at h ⊢
  cases a with
  | insert txn envelope =>
    simp only [step]
    split
    · exact List.mem_append_left _ h
    · exact h
  | commit txn => exact List.mem_map.2 ⟨_, h, by simp⟩
  | rollback txn => exact List.mem_filter.2 ⟨h, by simp⟩

theorem nextSeq_step (t : OutboxTable) (a : TxnAct) : t.nextSeq ≤ (t.step a).nextSeq := by
  cases a with
  | insert txn envelope => simp only [step]; split <;> simp
  | commit txn => exact le_rfl
  | rollback txn => exact le_rfl

/-- An event of a lower number than the next one was there before. -/
theorem event_before {t : OutboxTable} {a : TxnAct} {e : OutboxEvent} (h : e ∈ (t.step a).rows.map (·.event))
    (hlt : e.seq < t.nextSeq) : e ∈ t.rows.map (·.event) := by
  cases a with
  | insert txn envelope =>
    simp only [step] at h
    split at h
    · next payload _ =>
      simp only [List.map_append, List.map_cons, List.map_nil, List.mem_append, List.mem_singleton] at h
      rcases h with h | rfl
      · exact h
      · exact absurd hlt (lt_irrefl _)
    · exact h
  | commit txn =>
    simp only [step, List.map_map, List.mem_map, Function.comp_apply] at h
    obtain ⟨r, hr, rfl⟩ := h
    refine List.mem_map.2 ⟨r, hr, ?_⟩
    split <;> rfl
  | rollback txn => exact (List.filter_sublist.map _).mem h

end OutboxTable

/-! ## One stream -/

inductive StreamAct
  | txn (act : TxnAct)
  | poll

/-- Transactions in any order from an empty table, and a stream that connects and
then reads again and again. -/
structure StreamRun where
  history : List TxnAct
  lastEventId : Option Int
  acts : Nat → StreamAct
  polls : ∀ n, ∃ m, n ≤ m ∧ acts m = .poll

namespace StreamRun

variable (r : StreamRun)

def table : Nat → OutboxTable
  | 0 => r.history.foldl .step {}
  | n + 1 =>
    match r.acts n with
    | .txn act => (table n).step act
    | .poll => table n

/-- The committed events before step `n`. -/
abbrev visible (n : Nat) : List OutboxEvent := (r.table n).visible

def stream : Nat → EventStream
  | 0 => .connect r.lastEventId (r.visible 0)
  | n + 1 =>
    match r.acts n with
    | .txn _ => stream n
    | .poll => (stream n).poll (r.visible n)

/-- The frames step `n` yields. -/
def yields (n : Nat) : List Frame := (r.stream (n + 1)).frames.drop (r.stream n).frames.length

/-- A read made when the event is committed yields it. -/
def Emits (n : Nat) (e : OutboxEvent) : Prop := r.acts n = .poll ∧ e ∈ r.visible n ∧ e.frame ∈ r.yields n

/-- The sequence numbers of the events yielded before step `n`. -/
def seqs (n : Nat) : List Nat := (r.stream n).frames.filterMap (·.seq?)

/-- Before step `n`, an open transaction that commits later holds a job event
beyond the position, and a committed one of a higher number is within reach of
the next batch. -/
def Overtakes (n : Nat) : Prop :=
  ∃ e f : OutboxEvent, ∃ txn, ⟨e, some txn⟩ ∈ (r.table n).rows ∧ (∃ m, e ∈ r.visible m) ∧ e.isJob = true ∧
    (r.stream n).cursor < e.seq ∧ e.seq < f.seq ∧ f ∈ r.visible n ∧ f.isJob = true ∧
    ahead ((r.stream n).cursor) f.seq (r.visible n) < sseBatchLimit

variable {r}

theorem step_cases (n : Nat) :
    (r.acts n = .poll ∧ r.table (n + 1) = r.table n ∧ r.stream (n + 1) = (r.stream n).poll (r.visible n)) ∨
      ∃ act, r.acts n = .txn act ∧ r.table (n + 1) = (r.table n).step act ∧ r.stream (n + 1) = r.stream n := by
  simp only [table, stream]
  cases r.acts n with
  | txn act => exact .inr ⟨act, rfl, rfl, rfl⟩
  | poll => exact .inl ⟨rfl, rfl, rfl⟩

theorem ordered (n : Nat) : (r.table n).Ordered := by
  induction n with
  | zero =>
    rw [table]
    have h0 : ({} : OutboxTable).Ordered := ⟨.nil, by simp⟩
    generalize ({} : OutboxTable) = t at h0 ⊢
    induction r.history generalizing t with
    | nil => exact h0
    | cons a rest ih => exact ih _ (h0.step a)
  | succ n ih =>
    rcases r.step_cases n with ⟨-, ht, -⟩ | ⟨act, -, ht, -⟩
    · rw [ht]; exact ih
    · rw [ht]; exact ih.step act

theorem unique (n : Nat) : ((r.visible n).map (·.seq)).Nodup := (r.ordered n).unique

theorem visible_mono {n m e} (hnm : n ≤ m) (h : e ∈ r.visible n) : e ∈ r.visible m := by
  induction m, hnm using Nat.le_induction with
  | base => exact h
  | succ m _ ih =>
    rcases r.step_cases m with ⟨-, ht, -⟩ | ⟨act, -, ht, -⟩ <;> rw [visible, ht]
    · exact ih
    · exact OutboxTable.visible_step ih act

theorem cursor_mono {n m} (hnm : n ≤ m) : (r.stream n).cursor ≤ (r.stream m).cursor := by
  induction m, hnm using Nat.le_induction with
  | base => exact le_rfl
  | succ m _ ih =>
    refine ih.trans ?_
    rcases r.step_cases m with ⟨-, -, hs⟩ | ⟨-, -, -, hs⟩ <;> rw [hs]
    · exact EventStream.cursor_le_poll _ _

theorem nextSeq_mono {n m} (hnm : n ≤ m) : (r.table n).nextSeq ≤ (r.table m).nextSeq := by
  induction m, hnm using Nat.le_induction with
  | base => exact le_rfl
  | succ m _ ih =>
    refine ih.trans ?_
    rcases r.step_cases m with ⟨-, ht, -⟩ | ⟨act, -, ht, -⟩ <;> rw [ht]
    exact OutboxTable.nextSeq_step _ act

/-- An event committed in the end, of a number already given out, is in the table. -/
theorem event_back {n m e} (hnm : n ≤ m) (h : e ∈ (r.table m).rows.map (·.event)) (hlt : e.seq < (r.table n).nextSeq) :
    e ∈ (r.table n).rows.map (·.event) := by
  induction m, hnm using Nat.le_induction with
  | base => exact h
  | succ m hnm ih =>
    refine ih ?_
    rcases r.step_cases m with ⟨-, ht, -⟩ | ⟨act, -, ht, -⟩ <;> rw [ht] at h
    · exact h
    · exact OutboxTable.event_before h (hlt.trans_le (r.nextSeq_mono hnm))

theorem stream_poll {n} (h : r.acts n = .poll) : r.stream (n + 1) = (r.stream n).poll (r.visible n) := by
  simp only [stream, h]

theorem yields_poll {n} (h : r.acts n = .poll) {e} (he : e ∈ r.visible n) :
    e.frame ∈ r.yields n ↔ e ∈ (r.stream n).batch (r.visible n) := by
  rw [yields, stream_poll h, EventStream.poll_frames, List.drop_left]
  split
  · next hb => simp [hb, OutboxEvent.frame]
  · rw [List.mem_map]
    constructor
    · rintro ⟨e', he', hf⟩
      have hseq : e'.seq = e.seq := (Frame.event.inj hf).1
      exact List.inj_on_of_nodup_map (r.unique n) (streamJobEvents_spec he').1 he hseq ▸ he'
    · exact fun he => ⟨e, he, rfl⟩

/-- An event whose number the position has reached is not yielded. -/
theorem not_emits {n e} (h : (e.seq : Int) ≤ (r.stream n).cursor) : ¬ r.Emits n e := by
  rintro ⟨hp, hv, hy⟩
  have := (streamJobEvents_spec ((yields_poll hp hv).1 hy)).2.2
  omega

/-- **An event a read overtakes is lost.** -/
theorem lost_of_overtakes {n} (hp : r.acts n = .poll) (h : r.Overtakes n) :
    ∃ e m, e ∈ r.visible m ∧ e.isJob = true ∧ (r.stream 0).cursor < e.seq ∧ ∀ k, ¬ r.Emits k e := by
  obtain ⟨e, f, txn, hopen, ⟨m, hm⟩, hj, hc, hlt, hf, hfj, hahead⟩ := h
  refine ⟨e, m, hm, hj, (r.cursor_mono (Nat.zero_le n)).trans_lt hc, fun k hk => ?_⟩
  have hnot : e ∉ r.visible n := fun hv => by
    have := (r.ordered n).eq_of_seq hopen (OutboxTable.mem_visible.1 hv) rfl
    simp at this
  have hnk : n < k := by
    by_contra hkn
    exact hnot (r.visible_mono (by omega) hk.2.1)
  refine not_emits ?_ hk
  have hfa : f.after ((r.stream n).cursor) = true := by
    simp only [OutboxEvent.after, hfj, Bool.true_and, decide_eq_true_eq]
    omega
  have hreach := EventStream.le_poll_cursor (r.unique n) ((mem_streamJobEvents (r.unique n)).2 ⟨hf, hfa, hahead⟩)
  rw [← stream_poll hp] at hreach
  have := r.cursor_mono (show n + 1 ≤ k from hnk)
  omega

/-- **Ahead of the position, an event committed is yielded.** -/
theorem emits_ahead {n e} (hv : e ∈ r.visible n) (hj : e.isJob = true) (hc : (r.stream n).cursor < e.seq) :
    ∃ m, r.Emits m e := by
  let inv (k : Nat) : Prop := e ∈ r.visible k ∧ (r.stream k).cursor < e.seq
  let goal (k : Nat) : Prop := e ∈ r.visible k ∧ e ∈ (r.stream k).batch (r.visible k)
  let rank (k : Nat) : Nat := (e.seq - (r.stream k).cursor).toNat
  have keeps : ∀ k, inv k → ¬ r.acts k = .poll → inv (k + 1) ∧ rank (k + 1) ≤ rank k := by
    rintro k ⟨hk, hck⟩ hnp
    rcases r.step_cases k with ⟨hp, -⟩ | ⟨act, -, -, hs⟩
    · exact absurd hp hnp
    · have hsame : (r.stream (k + 1)).cursor = (r.stream k).cursor := by rw [hs]
      exact ⟨⟨r.visible_mono (Nat.le_succ k) hk, hsame ▸ hck⟩, by simp only [rank, hsame, le_refl]⟩
  have drops : ∀ k, inv k → r.acts k = .poll → goal k ∨ inv (k + 1) ∧ rank (k + 1) < rank k := by
    rintro k ⟨hk, hck⟩ hp
    by_cases hin : e ∈ (r.stream k).batch (r.visible k)
    · exact .inl ⟨hk, hin⟩
    have hea : e.after ((r.stream k).cursor) = true := by simp [OutboxEvent.after, hj, hck]
    -- The batch holds other events then, all of lower numbers.
    have hne := streamJobEvents_ne_nil (show 0 < sseBatchLimit by decide) hk hea
    obtain ⟨f, hf, hcf⟩ := EventStream.poll_cursor_mem hne
    have hfe := lt_of_not_streamed (r.unique k) hk hea hin hf
    have hcf' := (streamJobEvents_spec hf).2.2
    have hnext : (r.stream (k + 1)).cursor = f.seq := by rw [← hcf, stream_poll hp]
    refine .inr ⟨⟨r.visible_mono (Nat.le_succ k) hk, by omega⟩, ?_⟩
    simp only [rank, hnext]
    omega
  obtain ⟨m, -, hp, hm, hb⟩ := Progress.eventually r.polls keeps drops ⟨hv, hc⟩
  exact ⟨m, hp, hm, (yields_poll hp hm).2 hb⟩

theorem emits_of_not_overtaken (h : ∀ n, r.acts n = .poll → ¬ r.Overtakes n) {n e} (hv : e ∈ r.visible n)
    (hj : e.isJob = true) (hc : (r.stream 0).cursor < e.seq) : ∃ m, r.Emits m e := by
  rcases lt_or_ge ((r.stream n).cursor) e.seq with hlt | hge
  · exact emits_ahead hv hj hlt
  obtain ⟨k, -, hkn, hk, hk'⟩ := Progress.crossing (p := fun k => (e.seq : Int) ≤ (r.stream k).cursor) (Nat.zero_le n)
    (not_le.2 hc) hge
  rw [not_le] at hk
  rcases r.step_cases k with ⟨hp, -, hs⟩ | ⟨_, -, -, hs⟩
  · rw [hs] at hk'
    rcases (r.stream k).poll_cursor_cases (r.visible k) with hsame | ⟨f, hf, hcf⟩
    · rw [hsame] at hk'; omega
    obtain ⟨hfv, hfj, hfc⟩ := streamJobEvents_spec hf
    have hea : e.after ((r.stream k).cursor) = true := by simp [OutboxEvent.after, hj, hk]
    by_cases hek : e ∈ r.visible k
    · by_cases hin : e ∈ (r.stream k).batch (r.visible k)
      · exact ⟨k, hp, hek, (yields_poll hp hek).2 hin⟩
      · have := lt_of_not_streamed (r.unique k) hek hea hin hf
        omega
    · -- The event is in the table, not yet committed, and the read passes it.
      have hfr := OutboxTable.mem_visible.1 hfv
      have hle : e.seq ≤ f.seq := by omega
      have hback := r.event_back hkn.le (List.mem_map.2 ⟨_, OutboxTable.mem_visible.1 hv, rfl⟩)
        (hle.trans_lt ((r.ordered k).below _ hfr))
      obtain ⟨⟨e', w⟩, hrow, rfl⟩ := List.mem_map.1 hback
      cases w with
      | none => exact absurd (OutboxTable.mem_visible.2 hrow) hek
      | some txn =>
        have hne : e'.seq ≠ f.seq := fun hse => by
          have := (r.ordered k).eq_of_seq hrow hfr hse
          simp at this
        dsimp only at *
        exact absurd ⟨e', f, txn, hrow, ⟨n, hv⟩, hj, hk, by omega, hfv, hfj,
          ((mem_streamJobEvents (r.unique k)).1 hf).2.2⟩ (h k hp)
  · rw [hs] at hk'
    omega

/-- What was yielded is in order, up to the position. -/
theorem seqs_sorted (n : Nat) : (r.seqs n).Pairwise (· < ·) ∧ ∀ seq ∈ r.seqs n, (seq : Int) ≤ (r.stream n).cursor := by
  induction n with
  | zero =>
    have h0 : r.seqs 0 = [] := by
      simp only [seqs, stream, EventStream.connect]
      cases r.lastEventId with
      | none => rfl
      | some last => dsimp only; split <;> rfl
    simp [h0]
  | succ n ih =>
    obtain ⟨hs, hle⟩ := ih
    rcases r.step_cases n with ⟨-, -, hst⟩ | ⟨_, -, -, hst⟩
    · have hseqs : r.seqs (n + 1) = r.seqs n ++ ((r.stream n).batch (r.visible n)).map (·.seq) := by
        rw [seqs, hst, EventStream.poll_seqs]; rfl
      rw [hseqs, hst]
      constructor
      · refine List.pairwise_append.2 ⟨hs, List.pairwise_map.2 (streamJobEvents_sorted (r.unique n)), ?_⟩
        intro a ha b hb
        obtain ⟨e, he, rfl⟩ := List.mem_map.1 hb
        have := hle a ha
        have := (streamJobEvents_spec he).2.2
        omega
      · intro a ha
        rcases List.mem_append.1 ha with ha | ha
        · exact (hle a ha).trans (EventStream.cursor_le_poll _ _)
        · obtain ⟨e, he, rfl⟩ := List.mem_map.1 ha
          exact EventStream.le_poll_cursor (r.unique n) he
    · rw [seqs, hst]
      exact ⟨hs, hle⟩

theorem seqs_nodup (n : Nat) : (r.seqs n).Nodup := (seqs_sorted n).1.imp fun hlt => hlt.ne

end StreamRun

/-- **The stream skips no event** if and only if no read overtakes one. It yields
none twice in any run. -/
theorem streams_all_iff (r : StreamRun) :
    ((∀ n, ∀ e ∈ r.visible n, e.isJob = true → (r.stream 0).cursor < e.seq → ∃ m, r.Emits m e) ∧ ∀ n, (r.seqs n).Nodup) ↔
      ∀ n, r.acts n = .poll → ¬ r.Overtakes n := by
  constructor
  · rintro ⟨hall, -⟩ n hp ho
    obtain ⟨e, m, hv, hj, hc, hnot⟩ := StreamRun.lost_of_overtakes hp ho
    obtain ⟨k, hk⟩ := hall m e hv hj hc
    exact hnot k hk
  · exact fun h => ⟨fun n e hv hj hc => StreamRun.emits_of_not_overtaken h hv hj hc, StreamRun.seqs_nodup⟩

/-- Two transactions insert, the second commits first, and a read comes between. -/
def overtakenRun : StreamRun where
  history := []
  lastEventId := none
  acts
    | 0 => .txn (.insert 1 (jobEventOf 1 1).payload)
    | 1 => .txn (.insert 2 (jobEventOf 1 2).payload)
    | 2 => .txn (.commit 2)
    | 4 => .txn (.commit 1)
    | _ => .poll
  polls n := ⟨n + 5, Nat.le_add_right n 5, rfl⟩

/-- The first event is committed and never yielded. -/
theorem skips_event :
    ¬ ∀ r : StreamRun, (∀ n, ∀ e ∈ r.visible n, e.isJob = true → (r.stream 0).cursor < e.seq → ∃ m, r.Emits m e) ∧
      ∀ n, (r.seqs n).Nodup := by
  intro hall
  have hrows : (overtakenRun.table 3).rows = [⟨jobEventOf 1 1, some 1⟩, ⟨jobEventOf 1 2, none⟩] := rfl
  have hrows' : (overtakenRun.table 5).rows = [⟨jobEventOf 1 1, none⟩, ⟨jobEventOf 1 2, none⟩] := rfl
  have hc : (overtakenRun.stream 3).cursor = 0 := rfl
  have ho : overtakenRun.Overtakes 3 := by
    refine ⟨jobEventOf 1 1, jobEventOf 1 2, 1, by simp [hrows], ⟨5, ?_⟩, rfl, ?_, by decide, ?_, rfl, ?_⟩
    · simp [OutboxTable.mem_visible, hrows']
    · simp [hc, jobEventOf]
    · simp [OutboxTable.mem_visible, hrows]
    · simp only [ahead, StreamRun.visible, OutboxTable.visible, hrows, hc]
      decide
  obtain ⟨e, m, hv, hj, hc, hnot⟩ := StreamRun.lost_of_overtakes rfl ho
  obtain ⟨k, hk⟩ := (hall overtakenRun).1 m e hv hj hc
  exact hnot k hk

end MilpbookLM
