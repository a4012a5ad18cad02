/-
The lifecycle of a chat request, as its provider tells it: one event after another, the last one terminal. A float is
carried as the rational it denotes and never computed with.
-/
import Mathlib.Data.Rat.Defs

namespace MilpbookLM.Models

inductive ProviderErrorCode
  | invalidRequest
  | capabilityMismatch
  | auth
  | policyDenied
  | quota
  | rateLimited
  | timeout
  | transport
  | providerInternal
  | malformedResponse
  | safetyRefusal
  | cancelled
  | uncertainSubmission
  deriving DecidableEq

/-- The failures after which a retry may be considered. -/
def ProviderErrorCode.retryable (code : ProviderErrorCode) : Bool :=
  code ∈ [.rateLimited, .timeout, .transport, .providerInternal]

inductive ProviderEvent
  | accepted (seq : Nat) (provider : String)
  | delta (seq : Nat) (text : String) (reasoning : Bool)
  | toolCall (seq : Nat) (callId name argumentsJson : String)
  | usage (seq : Nat) (inputUnits outputUnits : Int)
  | completed (seq : Nat) (finishReason : String)
  | refused (seq : Nat) (reason : String)
  | cancelled (seq : Nat)
  | failed (seq : Nat) (code : ProviderErrorCode) (retryable : Bool) (retryAfterSeconds : Option Rat)
  deriving DecidableEq

namespace ProviderEvent

def seq : ProviderEvent → Nat
  | accepted seq _ | delta seq _ _ | toolCall seq _ _ _ | usage seq _ _ | completed seq _ | refused seq _
  | cancelled seq | failed seq _ _ _ => seq

def isTerminal : ProviderEvent → Bool
  | completed .. | refused .. | cancelled .. | failed .. => true
  | _ => false

def isDelta : ProviderEvent → Bool
  | delta .. => true
  | _ => false

/-- A failure that may be retried. -/
def isRetryable : ProviderEvent → Bool
  | failed _ _ retryable _ => retryable
  | _ => false

theorem isDelta_of_isTerminal {e : ProviderEvent} (h : e.isTerminal = true) : e.isDelta = false := by
  cases e <;> first | rfl | cases h

end ProviderEvent

/-- The events end with the one terminal event among them. -/
def EndsOnce (events : List ProviderEvent) : Prop :=
  ∃ before last, events = before ++ [last] ∧ last.isTerminal = true ∧ ∀ e ∈ before, e.isTerminal = false

theorem endsOnce_singleton {e : ProviderEvent} (h : e.isTerminal = true) : EndsOnce [e] :=
  ⟨[], e, rfl, h, by simp⟩

theorem not_endsOnce {events : List ProviderEvent} (h : ∀ e ∈ events, e.isTerminal = false) : ¬ EndsOnce events := by
  intro hends
  obtain ⟨before, last, rfl, hlast, -⟩ := hends
  rw [h last (by simp)] at hlast
  cases hlast

/-- The one terminal event is the last one. -/
theorem last_of_terminal {before more after : List ProviderEvent} {last e : ProviderEvent}
    (h : ∀ e ∈ before, e.isTerminal = false) (he : e.isTerminal = true) (heq : before ++ [last] = more ++ e :: after) :
    more = before ∧ e = last := by
  rcases List.append_eq_append_iff.1 heq with ⟨middle, rfl, hmiddle⟩ | ⟨middle, rfl, hmiddle⟩
  · cases middle with
    | nil => exact ⟨List.append_nil _, (List.cons.inj hmiddle).1.symm⟩
    | cons x middle => simp at hmiddle
  · cases middle with
    | nil => exact ⟨(List.append_nil _).symm, (List.cons.inj hmiddle).1⟩
    | cons x middle =>
      obtain ⟨rfl, -⟩ := List.cons.inj hmiddle
      rw [h e (by simp)] at he
      cases he

/-- What is not terminal may come before. -/
theorem endsOnce_append {events more : List ProviderEvent} (h : ∀ e ∈ events, e.isTerminal = false) :
    EndsOnce (events ++ more) ↔ EndsOnce more := by
  constructor
  · intro hends
    obtain ⟨before, last, heq, hlast, hbefore⟩ := hends
    rcases List.append_eq_append_iff.1 heq with ⟨middle, rfl, rfl⟩ | ⟨middle, rfl, hmiddle⟩
    · exact ⟨middle, last, rfl, hlast, fun e he => hbefore e (by simp [he])⟩
    · have hmore : more = [last] := by
        rcases List.append_eq_singleton_iff.1 hmiddle.symm with ⟨-, hmore⟩ | ⟨rfl, -⟩
        · exact hmore
        · rw [h last (by simp)] at hlast
          cases hlast
      exact hmore ▸ endsOnce_singleton hlast
  · intro hends
    obtain ⟨before, last, rfl, hlast, hbefore⟩ := hends
    refine ⟨events ++ before, last, by simp, hlast, fun e he => ?_⟩
    rcases List.mem_append.1 he with he | he
    · exact h e he
    · exact hbefore e he

end MilpbookLM.Models
