/-
The dispatch of a chat request, whose attempts are started again within a policy. A stream that ends without a
terminal event is started again although deltas of it were shown, and the growth of the delay overflows at attempt
1025. What is shown is the output of one attempt, with one terminal event at its end, exactly where neither
happens (`retries_uncorrupted_iff`).
-/
import Mathlib.Data.List.TakeWhile
import Mathlib.Logic.Relation
import MilpbookLM.Models.Lifecycle

namespace MilpbookLM.Models

/-! ## The policy -/

/-- The operations on floats that the policy uses. -/
structure FloatOps (F : Type) where
  twoPow : Nat → F
  mul : F → F → F
  add : F → F → F
  lt : F → F → Bool
  le : F → F → Bool

structure OverflowError
  deriving DecidableEq

section

variable {F : Type} (ops : FloatOps F)

/-- `pow(2.0, n)`. -/
def FloatOps.pow (n : Nat) : Except OverflowError F := if n < 1024 then .ok (ops.twoPow n) else .error ⟨⟩

/-- `min(a, b)`. -/
def FloatOps.min (a b : F) : F := if ops.lt b a then b else a

structure RetryPolicy (F : Type) where
  maxAttempts : Nat
  initialDelaySeconds : F
  maximumDelaySeconds : F

/-- `RetryPolicy.delay`, of the timestamps. -/
def RetryPolicy.delay (policy : RetryPolicy F) (attempt : Nat) (now deadline : F) :
    Except OverflowError (Option F) := do
  if policy.maxAttempts ≤ attempt then return none
  let growth ← ops.pow (attempt - 1)
  let seconds := ops.min (ops.mul policy.initialDelaySeconds growth) policy.maximumDelaySeconds
  if ops.le deadline (ops.add now seconds) then return none
  return some seconds

theorem RetryPolicy.lt_of_delay {policy : RetryPolicy F} {attempt : Nat} {now deadline seconds : F}
    (h : policy.delay ops attempt now deadline = .ok (some seconds)) : attempt < policy.maxAttempts := by
  by_contra hle
  rw [delay, if_pos (Nat.not_lt.1 hle)] at h
  cases h

end

/-! ## The dispatch -/

/-- How the loop over the events of an attempt ends. -/
inductive AttemptEnd (F : Type)
  | returned
  | retried (delay : F)
  | raised
  | exhausted

/-- An event is shown, and the loop goes on. -/
def showing {F : Type} (event : ProviderEvent) (rest : List ProviderEvent × AttemptEnd F) :
    List ProviderEvent × AttemptEnd F :=
  (event :: rest.1, rest.2)

/-- The loop over the events of an attempt: those that are shown, and how it ends. -/
def consume {F : Type} (retryDelay : Except OverflowError (Option F)) :
    Bool → List ProviderEvent → List ProviderEvent × AttemptEnd F
  | _, [] => ([], .exhausted)
  | visible, event :: events =>
    match event with
    | .delta .. => showing event (consume retryDelay true events)
    | .failed _ _ retryable _ =>
      if retryable && !visible then
        match retryDelay with
        | .ok (some delay) => ([], .retried delay)
        | .ok none => ([event], .returned)
        | .error _ => ([], .raised)
      else ([event], .returned)
    | .completed .. | .refused .. | .cancelled .. => ([event], .returned)
    | .accepted .. | .toolCall .. | .usage .. => showing event (consume retryDelay visible events)

/-- The events before the first terminal one. -/
def body (events : List ProviderEvent) : List ProviderEvent := events.takeWhile fun e => !e.isTerminal

/-- The first terminal event. -/
def ending (events : List ProviderEvent) : Option ProviderEvent := events.find? (·.isTerminal)

/-- A delta comes before any terminal event. -/
def visibleIn (events : List ProviderEvent) : Bool := (body events).any (·.isDelta)

section

variable {F : Type} {retryDelay : Except OverflowError (Option F)} {visible : Bool} {events : List ProviderEvent}

theorem body_cons {e : ProviderEvent} (h : e.isTerminal = false) : body (e :: events) = e :: body events := by
  simp [body, h]

theorem ending_cons {e : ProviderEvent} (h : e.isTerminal = false) : ending (e :: events) = ending events := by
  simp [ending, h]

theorem mem_body {e : ProviderEvent} (h : e ∈ body events) : e.isTerminal = false := by
  simpa using List.mem_takeWhile_imp h

theorem ending_terminal {last : ProviderEvent} (h : ending events = some last) : last.isTerminal = true := by
  simpa using List.find?_some h

/-- What an attempt comes to: what is shown is its body, and its end unless it is started again. -/
def attemptOf (retryDelay : Except OverflowError (Option F)) (visible : Bool) (events : List ProviderEvent) :
    List ProviderEvent × AttemptEnd F :=
  match ending events with
  | none => (body events, .exhausted)
  | some last =>
    if last.isRetryable && !(visible || visibleIn events) then
      match retryDelay with
      | .ok (some delay) => (body events, .retried delay)
      | .ok none => (body events ++ [last], .returned)
      | .error _ => (body events, .raised)
    else (body events ++ [last], .returned)

theorem attemptOf_cons {e : ProviderEvent} (h : e.isTerminal = false) :
    attemptOf retryDelay visible (e :: events) = showing e (attemptOf retryDelay (visible || e.isDelta) events) := by
  have hvisible : (visible || visibleIn (e :: events)) = (visible || e.isDelta || visibleIn events) := by
    simp [visibleIn, body_cons h, Bool.or_assoc]
  rw [attemptOf, attemptOf, ending_cons h, body_cons h, hvisible]
  cases ending events with
  | none => rfl
  | some last =>
    dsimp only
    cases last.isRetryable && !(visible || e.isDelta || visibleIn events) with
    | false => rfl
    | true => rcases retryDelay with _ | _ | _ <;> rfl

theorem consume_eq : consume retryDelay visible events = attemptOf retryDelay visible events := by
  induction events generalizing visible with
  | nil => rfl
  | cons event events ih =>
    cases event with
    | accepted | toolCall | usage => rw [consume, ih, attemptOf_cons rfl]; simp [ProviderEvent.isDelta]
    | delta => rw [consume, ih, attemptOf_cons rfl]; simp [ProviderEvent.isDelta]
    | completed | refused | cancelled => rfl
    | failed seq code retryable after =>
      have hbody : body (.failed seq code retryable after :: events) = [] := rfl
      simp only [consume, attemptOf, ending, List.find?_cons, ProviderEvent.isTerminal, hbody, visibleIn,
        ProviderEvent.isRetryable, List.any_nil, Bool.or_false, List.nil_append]

theorem delay_of_retried {delay : F} (h : (consume retryDelay visible events).2 = .retried delay) :
    retryDelay = .ok (some delay) := by
  rw [consume_eq, attemptOf] at h
  split at h
  · cases h
  · split at h
    · split at h
      · cases h
        rfl
      · cases h
      · cases h
    · cases h

end

/-- What the dispatch does. -/
inductive DispatchStep (F : Type)
  | attempts (attempt : Nat)
  | yields (event : ProviderEvent)
  | sleeps (delay : F)
  | raises

section

variable {F : Type} (ops : FloatOps F) (policy : RetryPolicy F) (deadline : F) (clock : Nat → F)
  (chat : Nat → List ProviderEvent)

/-- `_retry_delay`, at an attempt. -/
def retryDelay (attempt : Nat) : Except OverflowError (Option F) := policy.delay ops attempt (clock attempt) deadline

/-- The failure of a stream that just ends. -/
def unterminated : ProviderEvent := .failed 2 .transport true none

/-- The `while True` of `BoundedChatDispatcher.dispatch`, from an attempt on. -/
def dispatchFrom (attempt : Nat) : List (DispatchStep F) :=
  let delay := retryDelay ops policy deadline clock attempt
  let turn := consume delay false (chat attempt)
  .attempts attempt :: turn.1.map .yields ++
    match hturn : turn.2 with
    | .returned => []
    | .raised => [.raises]
    | .retried seconds => .sleeps seconds :: dispatchFrom (attempt + 1)
    | .exhausted =>
      match hdelay : delay with
      | .ok (some seconds) => .sleeps seconds :: dispatchFrom (attempt + 1)
      | .ok none => [.yields unterminated]
      | .error _ => [.raises]
termination_by policy.maxAttempts - attempt
decreasing_by
  · have hlt := policy.lt_of_delay ops (delay_of_retried hturn)
    omega
  · have hlt := policy.lt_of_delay ops hdelay
    omega

/-- `BoundedChatDispatcher.dispatch`. -/
def dispatch : List (DispatchStep F) := dispatchFrom ops policy deadline clock chat 1

end

/-! ## What is shown -/

section

variable {F : Type}

def DispatchStep.starts : DispatchStep F → Bool
  | .attempts _ => true
  | _ => false

def DispatchStep.event? : DispatchStep F → Option ProviderEvent
  | .yields event => some event
  | _ => none

/-- The events that are yielded. -/
def shown (steps : List (DispatchStep F)) : List ProviderEvent := steps.filterMap (·.event?)

/-- The deltas among the events. -/
def deltas (events : List ProviderEvent) : List ProviderEvent := events.filter (·.isDelta)

/-- A step yields a delta. -/
def DispatchStep.showsDelta (step : DispatchStep F) : Bool := step.event?.any (·.isDelta)

/-- The visible stream is not corrupted. -/
structure Uncorrupted (policy : RetryPolicy F) (chat : Nat → List ProviderEvent) (steps : List (DispatchStep F)) :
    Prop where
  bounded : steps.countP (·.starts) ≤ policy.maxAttempts
  ends : EndsOnce (shown steps)
  unseen : steps.Pairwise fun earlier later => earlier.showsDelta = true → later.starts = false
  single : ∃ n, .attempts n ∈ steps ∧ deltas (shown steps) = deltas (body (chat n))

/-- An attempt that a retry is considered for: it fails retryably before any delta, or just ends. -/
def restarting (events : List ProviderEvent) : Bool :=
  match ending events with
  | none => true
  | some last => last.isRetryable && !visibleIn events

/-- The event that an attempt which is not started again ends with. -/
def closing (events : List ProviderEvent) : ProviderEvent := (ending events).getD unterminated

variable (ops : FloatOps F) (policy : RetryPolicy F) (deadline : F) (clock : Nat → F) (chat : Nat → List ProviderEvent)

/-- What follows the body of an attempt. -/
def afterBody (n : Nat) : List (DispatchStep F) :=
  if restarting (chat n) then
    match retryDelay ops policy deadline clock n with
    | .ok (some seconds) => .sleeps seconds :: dispatchFrom ops policy deadline clock chat (n + 1)
    | .ok none => [.yields (closing (chat n))]
    | .error _ => [.raises]
  else [.yields (closing (chat n))]

/-- The dispatch, attempt by attempt. -/
theorem dispatchFrom_eq (n : Nat) : dispatchFrom ops policy deadline clock chat n =
    .attempts n :: (body (chat n)).map .yields ++ afterBody ops policy deadline clock chat n := by
  have hturn := @consume_eq F (retryDelay ops policy deadline clock n) false (chat n)
  rw [dispatchFrom]
  generalize consume (retryDelay ops policy deadline clock n) false (chat n) = turn at hturn ⊢
  obtain ⟨events, turnEnd⟩ := turn
  rw [attemptOf, Bool.false_or] at hturn
  rw [afterBody, restarting, closing]
  cases hending : ending (chat n) with
  | none =>
    rw [hending] at hturn
    cases hturn
    cases retryDelay ops policy deadline clock n with
    | error e => rfl
    | ok delay => cases delay <;> rfl
  | some last =>
    rw [hending] at hturn
    dsimp only at hturn ⊢
    by_cases hretry : (last.isRetryable && !visibleIn (chat n)) = true
    · rw [if_pos hretry] at hturn ⊢
      cases hdelay : retryDelay ops policy deadline clock n with
      | error e =>
        rw [hdelay] at hturn
        cases hturn
        rfl
      | ok delay =>
        rw [hdelay] at hturn
        cases delay with
        | none =>
          cases hturn
          simp
        | some seconds =>
          cases hturn
          rfl
    · rw [if_neg hretry] at hturn ⊢
      cases hturn
      simp

end

/-! ## The condition -/

section

variable {F : Type} (ops : FloatOps F) (policy : RetryPolicy F) (deadline : F) (clock : Nat → F)
  (chat : Nat → List ProviderEvent)

/-- Attempt `n` is started again as attempt `m`. -/
def Restarts (n m : Nat) : Prop :=
  m = n + 1 ∧ restarting (chat n) = true ∧ ∃ seconds, retryDelay ops policy deadline clock n = .ok (some seconds)

/-- The attempt is made. -/
def Made (n : Nat) : Prop := Relation.ReflTransGen (Restarts ops policy deadline clock chat) 1 n

/-- Where a retry is considered for the attempt, its delay does not overflow, and there is none if deltas were shown. -/
def Steady (n : Nat) : Prop :=
  restarting (chat n) = true → ∃ delay, retryDelay ops policy deadline clock n = .ok delay ∧
    (visibleIn (chat n) = true → delay = none)

variable {ops policy deadline clock chat} {n : Nat} {steps : List (DispatchStep F)}

@[simp] theorem shown_attempt (events : List ProviderEvent) :
    shown (.attempts n :: events.map .yields ++ steps) = events ++ shown steps := by
  have hevents : (events.map (DispatchStep.yields (F := F))).filterMap (·.event?) = events := by
    rw [List.filterMap_map]
    exact List.filterMap_some
  rw [shown, List.cons_append, List.filterMap_cons_none rfl, List.filterMap_append, hevents]
  rfl

@[simp] theorem shown_sleeps (seconds : F) : shown (.sleeps seconds :: steps) = shown steps := rfl

@[simp] theorem shown_yields (event : ProviderEvent) : shown [DispatchStep.yields (F := F) event] = [event] := rfl

@[simp] theorem shown_raises : shown [DispatchStep.raises (F := F)] = [] := rfl

theorem closing_terminal (events : List ProviderEvent) : (closing events).isTerminal = true := by
  rw [closing]
  cases hending : ending events with
  | none => rfl
  | some last => exact ending_terminal hending

theorem deltas_body_of_invisible {events : List ProviderEvent} (h : visibleIn events = false) :
    deltas (body events) = [] := by
  rw [visibleIn, List.any_eq_false] at h
  exact List.filter_eq_nil_iff.2 h

theorem deltas_closing (events : List ProviderEvent) : deltas [closing events] = [] := by
  simp [deltas, ProviderEvent.isDelta_of_isTerminal (closing_terminal events)]

/-- What starts an attempt again: a delay, where a retry is considered. -/
theorem afterBody_cases (n : Nat) :
    (∃ seconds, restarting (chat n) = true ∧ retryDelay ops policy deadline clock n = .ok (some seconds) ∧
        afterBody ops policy deadline clock chat n =
          .sleeps seconds :: dispatchFrom ops policy deadline clock chat (n + 1)) ∨
      (∃ e, restarting (chat n) = true ∧ retryDelay ops policy deadline clock n = .error e ∧
        afterBody ops policy deadline clock chat n = [.raises]) ∨
      (restarting (chat n) = true → retryDelay ops policy deadline clock n = .ok none) ∧
        afterBody ops policy deadline clock chat n = [.yields (closing (chat n))] := by
  rw [afterBody]
  by_cases hrestart : restarting (chat n) = true
  · rw [if_pos hrestart]
    rcases hdelay : retryDelay ops policy deadline clock n with e | _ | seconds
    · exact .inr (.inl ⟨e, hrestart, rfl, rfl⟩)
    · exact .inr (.inr ⟨fun _ => rfl, rfl⟩)
    · exact .inl ⟨seconds, hrestart, rfl, rfl⟩
  · rw [if_neg hrestart]
    exact .inr (.inr ⟨fun h => absurd h hrestart, rfl⟩)

/-- What is proved of an attempt from the next one, if there is a delay, is so of every attempt. -/
theorem attempts_induction (ops : FloatOps F) (policy : RetryPolicy F) (deadline : F) (clock : Nat → F) {P : Nat → Prop}
    (step : ∀ n, (∀ seconds, retryDelay ops policy deadline clock n = .ok (some seconds) → P (n + 1)) → P n) (n : Nat) :
    P n := by
  generalize hm : policy.maxAttempts - n = m
  induction m using Nat.strong_induction_on generalizing n with
  | _ m ih =>
    refine step n fun seconds hdelay => ih (policy.maxAttempts - (n + 1)) ?_ (n + 1) rfl
    have hlt := policy.lt_of_delay ops hdelay
    omega

theorem attempts_bounded (n : Nat) (h : n ≤ policy.maxAttempts) :
    (dispatchFrom ops policy deadline clock chat n).countP (·.starts) ≤ policy.maxAttempts + 1 - n := by
  have hbody (events : List ProviderEvent) : (events.map (DispatchStep.yields (F := F))).countP (·.starts) = 0 := by
    simp [List.countP_eq_zero, DispatchStep.starts]
  induction n using attempts_induction ops policy deadline clock with
  | step n ih =>
    rw [dispatchFrom_eq, List.cons_append, List.countP_cons_of_pos rfl, List.countP_append, hbody]
    rcases @afterBody_cases F ops policy deadline clock chat n with
      ⟨seconds, -, hdelay, heq⟩ | ⟨e, -, -, heq⟩ | ⟨-, heq⟩
    · have hlt := policy.lt_of_delay ops hdelay
      have ih := ih seconds hdelay hlt
      rw [heq, List.countP_cons_of_neg (by simp [DispatchStep.starts])]
      omega
    · rw [heq]
      simp [DispatchStep.starts]
      omega
    · rw [heq]
      simp [DispatchStep.starts]
      omega

/-- No attempt starts after a delta is shown. -/
def Unseen (steps : List (DispatchStep F)) : Prop :=
  steps.Pairwise fun earlier later => earlier.showsDelta = true → later.starts = false

theorem unseen_append {earlier : List (DispatchStep F)} (h : ∀ step ∈ earlier, step.showsDelta = false) :
    Unseen (earlier ++ steps) ↔ Unseen steps := by
  rw [Unseen, List.pairwise_append]
  refine ⟨fun hall => hall.2.1, fun hsteps => ⟨?_, hsteps, fun step hstep _ _ hshows => ?_⟩⟩
  · exact List.pairwise_of_forall_mem_list fun step hstep _ _ hshows => by rw [h step hstep] at hshows; cases hshows
  · rw [h step hstep] at hshows
    cases hshows

theorem unseen_of_idle (h : ∀ step ∈ steps, step.starts = false) : Unseen steps :=
  List.pairwise_of_forall_mem_list fun _ _ later hlater _ => h later hlater

/-- The steps of an attempt up to its end, and the delay. -/
theorem quiet_attempt (hinvisible : visibleIn (chat n) = false) (seconds : F) :
    ∀ step ∈ (.attempts n :: (body (chat n)).map .yields ++ [.sleeps seconds] : List (DispatchStep F)),
      step.showsDelta = false := by
  intro step hstep
  simp only [List.cons_append, List.mem_cons, List.mem_append, List.mem_map, List.not_mem_nil, or_false] at hstep
  rcases hstep with rfl | ⟨event, hevent, rfl⟩ | rfl
  · rfl
  · rw [visibleIn, List.any_eq_false] at hinvisible
    simpa [DispatchStep.showsDelta, DispatchStep.event?] using hinvisible event hevent
  · rfl

theorem restarted_eq {seconds : F} (h : afterBody ops policy deadline clock chat n =
    .sleeps seconds :: dispatchFrom ops policy deadline clock chat (n + 1)) :
    dispatchFrom ops policy deadline clock chat n =
      (.attempts n :: (body (chat n)).map .yields ++ [.sleeps seconds]) ++
        dispatchFrom ops policy deadline clock chat (n + 1) := by
  rw [dispatchFrom_eq, h]
  simp

/-- From steady attempts, an uncorrupted stream. -/
theorem settled_of_steady (n : Nat)
    (h : ∀ m, Relation.ReflTransGen (Restarts ops policy deadline clock chat) n m →
      Steady ops policy deadline clock chat m) :
    EndsOnce (shown (dispatchFrom ops policy deadline clock chat n)) ∧
      Unseen (dispatchFrom ops policy deadline clock chat n) ∧
      ∃ m, .attempts m ∈ dispatchFrom ops policy deadline clock chat n ∧
        deltas (shown (dispatchFrom ops policy deadline clock chat n)) = deltas (body (chat m)) := by
  induction n using attempts_induction ops policy deadline clock with
  | step n ih =>
    have hbody : ∀ e ∈ body (chat n), e.isTerminal = false := fun e => mem_body
    rcases @afterBody_cases F ops policy deadline clock chat n with
      ⟨seconds, hrestart, hdelay, heq⟩ | ⟨e, hrestart, hdelay, -⟩ | ⟨-, heq⟩
    · obtain ⟨delay, hdelay', hvisible⟩ := h n .refl hrestart
      have hinvisible : visibleIn (chat n) = false := by
        refine Bool.eq_false_iff.2 fun hv => ?_
        rw [hdelay, hvisible hv] at hdelay'
        cases hdelay'
      obtain ⟨hends, hunseen, m, hmade, hdeltas⟩ := ih seconds hdelay fun m hm =>
        h m (.head ⟨rfl, hrestart, seconds, hdelay⟩ hm)
      refine ⟨?_, ?_, m, ?_, ?_⟩
      · rw [dispatchFrom_eq, heq, shown_attempt, shown_sleeps]
        exact (endsOnce_append hbody).2 hends
      · rw [restarted_eq heq]
        exact (unseen_append (quiet_attempt hinvisible seconds)).2 hunseen
      · rw [restarted_eq heq]
        exact List.mem_append_right _ hmade
      · rw [dispatchFrom_eq, heq, shown_attempt, shown_sleeps, deltas, List.filter_append]
        exact (congrArg (· ++ _) (deltas_body_of_invisible hinvisible)).trans hdeltas
    · obtain ⟨delay, hdelay', -⟩ := h n .refl hrestart
      rw [hdelay] at hdelay'
      cases hdelay'
    · refine ⟨?_, ?_, n, by simp [dispatchFrom_eq], ?_⟩
      · rw [dispatchFrom_eq, heq, shown_attempt, shown_yields]
        exact (endsOnce_append hbody).2 (endsOnce_singleton (closing_terminal _))
      · rw [dispatchFrom_eq, heq, List.cons_append]
        refine List.pairwise_cons.2 ⟨fun _ _ hshows => (by cases hshows), unseen_of_idle fun step hstep => ?_⟩
        simp only [List.mem_append, List.mem_map, List.mem_singleton] at hstep
        rcases hstep with ⟨_, -, rfl⟩ | rfl <;> rfl
      · rw [dispatchFrom_eq, heq, shown_attempt, shown_yields, deltas, List.filter_append]
        exact (congrArg (_ ++ ·) (deltas_closing _)).trans (List.append_nil _)

/-- From a stream with one terminal event and no restart after a delta, a steady attempt, and such a stream again. -/
theorem steady_of_ends (hends : EndsOnce (shown (dispatchFrom ops policy deadline clock chat n)))
    (hunseen : Unseen (dispatchFrom ops policy deadline clock chat n)) : Steady ops policy deadline clock chat n := by
  intro hrestart
  have hbody : ∀ e ∈ body (chat n), e.isTerminal = false := fun e => mem_body
  rcases @afterBody_cases F ops policy deadline clock chat n with
    ⟨seconds, -, hdelay, heq⟩ | ⟨e, -, -, heq⟩ | ⟨hnone, -⟩
  · refine ⟨_, hdelay, fun hvisible => ?_⟩
    obtain ⟨event, hevent, hdelta⟩ := List.any_eq_true.1 hvisible
    rw [restarted_eq heq, Unseen, List.pairwise_append] at hunseen
    have hstart := hunseen.2.2 (.yields event) (by simp [hevent]) (.attempts (n + 1)) (by simp [dispatchFrom_eq])
      (by simpa [DispatchStep.showsDelta, DispatchStep.event?] using hdelta)
    cases hstart
  · rw [dispatchFrom_eq, heq, shown_attempt, shown_raises, List.append_nil] at hends
    exact absurd hends (not_endsOnce hbody)
  · exact ⟨none, hnone hrestart, fun _ => rfl⟩

theorem ends_restarted {m : Nat} (hm : Restarts ops policy deadline clock chat n m)
    (hends : EndsOnce (shown (dispatchFrom ops policy deadline clock chat n)))
    (hunseen : Unseen (dispatchFrom ops policy deadline clock chat n)) :
    EndsOnce (shown (dispatchFrom ops policy deadline clock chat m)) ∧
      Unseen (dispatchFrom ops policy deadline clock chat m) := by
  obtain ⟨rfl, hrestart, seconds, hdelay⟩ := hm
  have heq : afterBody ops policy deadline clock chat n =
      .sleeps seconds :: dispatchFrom ops policy deadline clock chat (n + 1) := by
    rw [afterBody, if_pos hrestart, hdelay]
  constructor
  · rw [dispatchFrom_eq, heq, shown_attempt, shown_sleeps] at hends
    exact (endsOnce_append fun e => mem_body).1 hends
  · rw [restarted_eq heq, Unseen, List.pairwise_append] at hunseen
    exact hunseen.2.1

end

/-- **The visible stream is not corrupted** exactly where every attempt that is made, if a retry is considered for it,
has a delay that does not overflow, and none once deltas were shown. -/
theorem retries_uncorrupted_iff {F : Type} (ops : FloatOps F) (policy : RetryPolicy F) (deadline : F) (clock : Nat → F)
    (chat : Nat → List ProviderEvent) (h : 1 ≤ policy.maxAttempts) :
    Uncorrupted policy chat (dispatch ops policy deadline clock chat) ↔
      ∀ n, Made ops policy deadline clock chat n → Steady ops policy deadline clock chat n := by
  constructor
  · intro huncorrupted n hn
    have hsound : EndsOnce (shown (dispatchFrom ops policy deadline clock chat n)) ∧
        Unseen (dispatchFrom ops policy deadline clock chat n) := by
      induction hn with
      | refl => exact ⟨huncorrupted.ends, huncorrupted.unseen⟩
      | tail _ hm ih => exact ends_restarted hm ih.1 ih.2
    exact steady_of_ends hsound.1 hsound.2
  · intro hsteady
    obtain ⟨hends, hunseen, hsingle⟩ := settled_of_steady 1 hsteady
    exact ⟨attempts_bounded 1 h, hends, hunseen, hsingle⟩

/-! ## Runs -/

/-- Floats as the rationals they denote. -/
def ratOps : FloatOps Rat where
  twoPow n := 2 ^ n
  mul := (· * ·)
  add := (· + ·)
  lt a b := a < b
  le a b := a ≤ b

def defaultPolicy : RetryPolicy Rat where
  maxAttempts := 3
  initialDelaySeconds := 1 / 4
  maximumDelaySeconds := 2

theorem firstDelay : retryDelay ratOps defaultPolicy 100 (fun _ => 0) 1 = .ok (some (1 / 4)) := by decide +kernel

/-- A stream that ends after its first delta, and whole ones after it. -/
def cutOnce : Nat → List ProviderEvent
  | 1 => [.accepted 1 "local", .delta 2 "Rivers " false]
  | _ => [.accepted 1 "local", .delta 2 "Lakes " false, .completed 3 "stop"]

/-- A stream that fails retryably, and whole ones after it. -/
def failsOnce : Nat → List ProviderEvent
  | 1 => [.accepted 1 "local", .failed 2 .timeout true none]
  | _ => [.accepted 1 "local", .delta 2 "Lakes " false, .completed 3 "stop"]

theorem retries_uncorrupted_failsOnce : 1 ≤ defaultPolicy.maxAttempts ∧
    Uncorrupted defaultPolicy failsOnce (dispatch ratOps defaultPolicy 100 (fun _ => 0) failsOnce) := by
  refine ⟨by decide, (retries_uncorrupted_iff ratOps defaultPolicy 100 (fun _ => 0) failsOnce (by decide)).2 ?_⟩
  intro n hn
  have hmade : n = 1 ∨ n = 2 := by
    induction hn with
    | refl => exact .inl rfl
    | tail _ hm ih =>
      obtain ⟨rfl, hrestart, -⟩ := hm
      rcases ih with rfl | rfl
      · exact .inr rfl
      · cases hrestart
  rcases hmade with rfl | rfl
  · exact fun _ => ⟨_, firstDelay, fun hvisible => by cases hvisible⟩
  · exact fun hrestart => by cases hrestart

/-- Deltas of two attempts are shown. -/
theorem cut_stream_restarted : ¬ ∀ (F : Type) (ops : FloatOps F) (policy : RetryPolicy F) (deadline : F)
    (clock : Nat → F) (chat : Nat → List ProviderEvent), 1 ≤ policy.maxAttempts →
      Uncorrupted policy chat (dispatch ops policy deadline clock chat) := by
  intro h
  have huncorrupted := h Rat ratOps defaultPolicy 100 (fun _ => 0) cutOnce (by decide)
  obtain ⟨delay, hdelay, hnone⟩ := steady_of_ends huncorrupted.ends huncorrupted.unseen rfl
  rw [hnone rfl, firstDelay] at hdelay
  cases hdelay

end MilpbookLM.Models
