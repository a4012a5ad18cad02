/-
Cancelling a streamed turn. The signal is a set of the store, in it the actor and the
conversation but no turn: `cancel` puts the key in, `cancelled` looks for it after each
token, and a turn takes it out when it ends, as a reset does. So a cancel that no turn sees
is for the next one, and a turn that ends takes the signal from the others. While that does
not happen, a turn ends cancelled if and only if a cancel was accepted between its start and
its end (`cancelled_iff_accepted`).
-/
import MilpbookLM.Chat.Conversations

namespace MilpbookLM.Chat

/-- What a call of `stream` comes to. -/
inductive TurnEnd
  /-- An answer, or the message that there is not enough evidence. -/
  | published
  /-- It returns `None`. -/
  | cancelled
  /-- An exception, `GeneratorExit` among them. -/
  | raised
  deriving DecidableEq

/-- Where a call of `stream` is. -/
inductive Phase
  | idle
  /-- Before `get_authoritative_state`. -/
  | begun
  /-- Before `append_user_message`. -/
  | read
  /-- In the `try`, before `prepare`. -/
  | appended
  /-- Before `next(generation)`. -/
  | generating
  /-- A token came; before `cancelled()`. -/
  | token
  /-- At `yield token`. -/
  | yielded
  /-- The generation is complete; before the last `cancelled()`. -/
  | complete
  /-- Before `_publish`. -/
  | publishing
  /-- In the `finally`. -/
  | leaving (e : TurnEnd)
  | ended (e : TurnEnd)
  deriving DecidableEq

/-- In progress, and `cancelled()` will be called again if nothing is raised. -/
def Phase.ahead : Phase → Bool
  | .begun | .read | .appended | .generating | .token | .yielded | .complete => true
  | _ => false

inductive CancelEvent (T : Type)
  | started (t : T)
  /-- A `cancel` has put the key of the actor in. -/
  | accepted (actor : Uuid)
  | ended (t : T) (e : TurnEnd)
  deriving DecidableEq

/-- One conversation and its keys; the calls of `stream`, `cancel` and `reset`; and what happened, latest first. -/
structure CancelWorld (T : Type) where
  conversation : Conversation
  cancelled : List (Uuid × Uuid) := []
  phase : T → Phase := fun _ => .idle
  /-- The actors of the calls of `cancel` that have found the conversation. -/
  cancelling : List Uuid := []
  /-- The actors of the calls of `reset` that have closed it. -/
  resetting : List Uuid := []
  log : List (CancelEvent T) := []

/-- What `prepare` leads to. -/
inductive Prepared
  | evidence | nothing | raises

/-- What `next(generation)` does. -/
inductive Generated
  | token | complete | raises

/-- The steps of the calls. -/
inductive CancelMove (T : Type)
  | begin (t : T)
  | read (t : T)
  /-- Anything before the `try` raises. -/
  | raiseEarly (t : T)
  | append (t : T)
  | prepare (t : T) (p : Prepared)
  | next (t : T) (g : Generated)
  | check (t : T)
  | resume (t : T)
  /-- The consumer closes the generator. -/
  | abandon (t : T)
  | publish (t : T) (valid : Bool)
  | clear (t : T)
  | findForCancel (actor : Uuid)
  | accept (actor : Uuid)
  /-- A `reset`, or a `delete`. -/
  | close (actor : Uuid) (reset : Bool)
  | clearOfReset (actor : Uuid)

section Moves

variable {T : Type} [DecidableEq T]

namespace CancelWorld

variable (w : CancelWorld T)

/-- The key of an actor. -/
def key (actor : Uuid) : Uuid × Uuid := (actor, w.conversation.id)

/-- `get_authoritative_state` finds the conversation. -/
def openFor (actor : Uuid) : Bool := w.conversation.openFor actor w.conversation.id

def goto (t : T) (p : Phase) : CancelWorld T := { w with phase := Function.update w.phase t p }

/-- The call returns, or raises. -/
def finish (t : T) (e : TurnEnd) : CancelWorld T :=
  { w with phase := Function.update w.phase t (.ended e), log := .ended t e :: w.log }

/-- `clear_cancel`. -/
def clear (actor : Uuid) : CancelWorld T := { w with cancelled := w.cancelled.filter (· ≠ w.key actor) }

end CancelWorld

variable (actor : T → Uuid)

/-- The step, where its call is at it. -/
def CancelMove.run (w : CancelWorld T) : CancelMove T → Option (CancelWorld T)
  | .begin t =>
    if w.phase t = .idle then some { w.goto t .begun with log := .started t :: w.log } else none
  | .read t =>
    if w.phase t = .begun then
      some (if w.openFor (actor t) then w.goto t .read else w.finish t .cancelled)
    else none
  | .raiseEarly t => if w.phase t = .begun ∨ w.phase t = .read then some (w.finish t .raised) else none
  | .append t =>
    if w.phase t = .read then
      some (if w.openFor (actor t) then w.goto t .appended else w.finish t .cancelled)
    else none
  | .prepare t p =>
    if w.phase t = .appended then
      some (w.goto t (match p with
        | .evidence => .generating
        | .nothing => .leaving .published
        | .raises => .leaving .raised))
    else none
  | .next t g =>
    if w.phase t = .generating then
      some (w.goto t (match g with
        | .token => .token
        | .complete => .complete
        | .raises => .leaving .raised))
    else none
  | .check t =>
    if w.phase t = .token then
      some (w.goto t (if w.key (actor t) ∈ w.cancelled then .leaving .cancelled else .yielded))
    else if w.phase t = .complete then
      some (w.goto t (if w.key (actor t) ∈ w.cancelled then .leaving .cancelled else .publishing))
    else none
  | .resume t => if w.phase t = .yielded then some (w.goto t .generating) else none
  | .abandon t => if w.phase t = .yielded then some (w.goto t (.leaving .raised)) else none
  | .publish t valid =>
    if w.phase t = .publishing then some (w.goto t (.leaving (if valid then .published else .raised))) else none
  | .clear t =>
    match w.phase t with
    | .leaving e => some ((w.clear (actor t)).finish t e)
    | _ => none
  | .findForCancel a => if w.openFor a then some { w with cancelling := a :: w.cancelling } else none
  | .accept a =>
    if a ∈ w.cancelling then
      some { w with cancelled := w.key a :: w.cancelled, cancelling := w.cancelling.erase a, log := .accepted a :: w.log }
    else none
  | .close a reset =>
    if w.openFor a then
      some { w with
        conversation := { w.conversation with status := if reset then .reset else .deleted }
        resetting := if reset then a :: w.resetting else w.resetting }
    else none
  | .clearOfReset a =>
    if a ∈ w.resetting then some { w.clear a with resetting := w.resetting.erase a } else none

/-- What steps that meet `cond` lead to, from an open conversation with no calls. -/
inductive CancelReach (cond : CancelWorld T → CancelMove T → Prop) : CancelWorld T → Prop
  | init (conversation : Conversation) : CancelReach cond { conversation }
  | next {w w' m} : CancelReach cond w → cond w m → m.run actor w = some w' → CancelReach cond w'

/-! ## Cancelled and accepted -/

/-- A cancel was accepted since the turn started. -/
def Told (log : List (CancelEvent T)) (t : T) : Prop := ∃ a, .accepted a ∈ log.takeWhile (· ≠ .started t)

/-- Every turn that has ended is cancelled if and only if a cancel was accepted between its start and its end. -/
def Honest (log : List (CancelEvent T)) : Prop :=
  ∀ post pre t e, log = post ++ .ended t e :: pre → (e = .cancelled ↔ Told pre t)

/-- The owner's key is in the set. -/
def CancelWorld.flagged (w : CancelWorld T) : Prop := w.key w.conversation.ownerUserId ∈ w.cancelled

/-- The steps that keep the signal what it is taken for. -/
def Calm (w : CancelWorld T) : CancelMove T → Prop
  | .begin _ | .raiseEarly _ | .abandon _ | .prepare _ .nothing | .prepare _ .raises | .next _ .raises => ¬w.flagged
  | .read t | .append t => w.openFor (actor t) = true ∨ w.flagged
  | .clear t => w.flagged → ∀ t', t' ≠ t → (w.phase t').ahead = false
  | .clearOfReset _ => w.flagged → ∀ t, (w.phase t).ahead = false
  | .accept _ => ∀ t, w.phase t ≠ .publishing ∧ w.phase t ≠ .leaving .published ∧ w.phase t ≠ .leaving .raised
  | _ => True

@[simp] theorem told_started (log : List (CancelEvent T)) (t : T) : ¬Told (.started t :: log) t := by
  simp [Told]

@[simp] theorem told_started_other (log : List (CancelEvent T)) {t t' : T} (h : t' ≠ t) :
    Told (.started t' :: log) t ↔ Told log t := by
  simp [Told, h]

@[simp] theorem told_accepted (log : List (CancelEvent T)) (a : Uuid) (t : T) : Told (.accepted a :: log) t :=
  ⟨a, by simp⟩

@[simp] theorem told_ended (log : List (CancelEvent T)) (t t' : T) (e : TurnEnd) :
    Told (.ended t' e :: log) t ↔ Told log t := by
  simp [Told]

theorem honest_cons {ev : CancelEvent T} {log : List (CancelEvent T)} (h : Honest log)
    (hev : ∀ t e, ev = .ended t e → (e = .cancelled ↔ Told log t)) : Honest (ev :: log) := by
  intro post pre t e hlog
  cases post with
  | nil =>
    obtain ⟨rfl, rfl⟩ := List.cons.inj hlog
    exact hev t e rfl
  | cons ev' post =>
    obtain ⟨-, hrest⟩ := List.cons.inj hlog
    exact h post pre t e hrest

/-! ## What the phases say -/

variable {actor}

/-- What is known of a turn at a phase. -/
def Fits (actor : T → Uuid) (w : CancelWorld T) (t : T) : Phase → Prop
  | .idle | .ended _ => True
  | .begun => Told w.log t ↔ w.flagged
  | .read | .appended | .generating | .token | .yielded | .complete =>
    actor t = w.conversation.ownerUserId ∧ (Told w.log t ↔ w.flagged)
  | .publishing => actor t = w.conversation.ownerUserId ∧ ¬Told w.log t
  | .leaving e => actor t = w.conversation.ownerUserId ∧ (e = .cancelled ↔ Told w.log t)

structure Sound (actor : T → Uuid) (w : CancelWorld T) : Prop where
  fits : ∀ t, Fits actor w t (w.phase t)
  cancelling : ∀ a ∈ w.cancelling, a = w.conversation.ownerUserId
  resetting : ∀ a ∈ w.resetting, a = w.conversation.ownerUserId
  honest : Honest w.log

variable {w : CancelWorld T} {t : T}

/-- What is known of a turn is known as long as nothing of this changes. -/
theorem Fits.of {w w' : CancelWorld T} {p : Phase} (h : Fits actor w t p)
    (howner : w'.conversation.ownerUserId = w.conversation.ownerUserId) (htold : Told w'.log t ↔ Told w.log t)
    (hflag : p.ahead = true → (w'.flagged ↔ w.flagged)) : Fits actor w' t p := by
  cases p <;> simp_all [Fits, Phase.ahead]

theorem Sound.goto (h : Sound actor w) {p : Phase} (hp : Fits actor w t p) : Sound actor (w.goto t p) := by
  refine ⟨fun t' => ?_, h.cancelling, h.resetting, h.honest⟩
  by_cases ht : t' = t
  · subst ht
    simp only [CancelWorld.goto, Function.update_self]
    exact hp.of rfl Iff.rfl fun _ => Iff.rfl
  · simp only [CancelWorld.goto, ne_eq, ht, not_false_eq_true, Function.update_of_ne]
    exact (h.fits t').of rfl Iff.rfl fun _ => Iff.rfl

theorem Sound.finish (h : Sound actor w) {e : TurnEnd} (he : e = .cancelled ↔ Told w.log t) : Sound actor (w.finish t e) := by
  refine ⟨fun t' => ?_, h.cancelling, h.resetting, honest_cons h.honest ?_⟩
  · by_cases ht : t' = t
    · subst ht
      simp [CancelWorld.finish, Fits]
    · simp only [CancelWorld.finish, ne_eq, ht, not_false_eq_true, Function.update_of_ne]
      exact (h.fits t').of rfl (told_ended _ _ _ _) fun _ => Iff.rfl
  · intro t' e' hev
    cases hev
    exact he

/-- Without the signal, nobody who will look for it has been told. -/
theorem Sound.clear (h : Sound actor w) {a : Uuid} (ha : a = w.conversation.ownerUserId)
    (hnone : ∀ t, (w.phase t).ahead = true → ¬w.flagged) : Sound actor (w.clear a) := by
  have hflag : ¬(w.clear a).flagged := by
    subst ha
    simp [CancelWorld.flagged, CancelWorld.clear, CancelWorld.key]
  refine ⟨fun t => ?_, h.cancelling, h.resetting, h.honest⟩
  exact (h.fits t).of rfl Iff.rfl fun hahead => iff_of_false hflag (hnone t hahead)

/-- A turn that starts has been told nothing. -/
theorem Sound.begin (h : Sound actor w) (hflag : ¬w.flagged) :
    Sound actor { w.goto t .begun with log := .started t :: w.log } := by
  refine ⟨fun t' => ?_, h.cancelling, h.resetting, honest_cons h.honest nofun⟩
  by_cases ht : t' = t
  · subst ht
    simp only [CancelWorld.goto, Function.update_self, Fits]
    exact iff_of_false (told_started _ _) hflag
  · simp only [CancelWorld.goto, ne_eq, ht, not_false_eq_true, Function.update_of_ne]
    exact (h.fits t').of rfl (told_started_other _ fun he => ht he.symm) fun _ => Iff.rfl

/-- A cancel tells every turn that will look for it. -/
theorem Sound.accept (h : Sound actor w) {a : Uuid} (ha : a ∈ w.cancelling)
    (hpast : ∀ t, w.phase t ≠ .publishing ∧ w.phase t ≠ .leaving .published ∧ w.phase t ≠ .leaving .raised) :
    Sound actor { w with
      cancelled := w.key a :: w.cancelled, cancelling := w.cancelling.erase a, log := .accepted a :: w.log } := by
  have howner := h.cancelling a ha
  refine ⟨fun t => ?_, fun b hb => h.cancelling b (List.mem_of_mem_erase hb), h.resetting, honest_cons h.honest nofun⟩
  have hfits := h.fits t
  obtain ⟨hpublishing, hpublished, hraised⟩ := hpast t
  have hflag : w.key w.conversation.ownerUserId ∈ w.key a :: w.cancelled := by simp [howner]
  cases hp : w.phase t with
  | leaving e =>
    rw [hp] at hfits hpublished hraised
    cases e with
    | cancelled => exact ⟨hfits.1, iff_of_true rfl (told_accepted _ _ _)⟩
    | published => exact absurd rfl hpublished
    | raised => exact absurd rfl hraised
  | publishing => exact absurd hp hpublishing
  | idle => trivial
  | ended e => trivial
  | begun => exact iff_of_true (told_accepted _ _ _) hflag
  | _ =>
    rw [hp] at hfits
    exact ⟨hfits.1, iff_of_true (told_accepted _ _ _) hflag⟩

omit [DecidableEq T] in
theorem openFor_owner {a : Uuid} (h : w.openFor a = true) : a = w.conversation.ownerUserId := by
  simp only [CancelWorld.openFor, Conversation.openFor, Bool.and_eq_true, decide_eq_true_eq] at h
  exact h.1.1.2.symm

theorem Sound.read (h : Sound actor w) {p : Phase} (hfits : Told w.log t ↔ w.flagged)
    (hp : actor t = w.conversation.ownerUserId → Fits actor w t p) (hc : w.openFor (actor t) = true ∨ w.flagged) :
    Sound actor (if w.openFor (actor t) then w.goto t p else w.finish t .cancelled) := by
  split
  · next hopen => exact h.goto (hp (openFor_owner hopen))
  · next hopen =>
    rcases hc with hc | hc
    · exact absurd hc hopen
    · exact h.finish (iff_of_true rfl (hfits.2 hc))

/-- What `cancelled()` answers is if the turn has been told. -/
theorem Sound.check (h : Sound actor w) {p : Phase} (howner : actor t = w.conversation.ownerUserId)
    (htold : Told w.log t ↔ w.flagged) (hp : ¬Told w.log t → Fits actor w t p) :
    Sound actor (w.goto t (if w.key (actor t) ∈ w.cancelled then .leaving .cancelled else p)) := by
  rw [howner]
  split
  · next hin => exact h.goto ⟨howner, iff_of_true rfl (htold.2 hin)⟩
  · next hin => exact h.goto (hp fun ht => hin (htold.1 ht))

theorem Sound.step (h : Sound actor w) {m : CancelMove T} (hc : Calm actor w m) {w' : CancelWorld T}
    (hs : m.run actor w = some w') : Sound actor w' := by
  cases m with
  | begin t =>
    simp only [CancelMove.run] at hs
    split at hs
    · cases hs
      exact h.begin hc
    · cases hs
  | read t =>
    simp only [CancelMove.run] at hs
    split at hs
    · next hp =>
      cases hs
      have hfits := h.fits t
      rw [hp] at hfits
      exact h.read hfits (fun ho => ⟨ho, hfits⟩) hc
    · cases hs
  | append t =>
    simp only [CancelMove.run] at hs
    split at hs
    · next hp =>
      cases hs
      have hfits := h.fits t
      rw [hp] at hfits
      exact h.read hfits.2 (fun ho => ⟨ho, hfits.2⟩) hc
    · cases hs
  | raiseEarly t =>
    simp only [CancelMove.run] at hs
    split at hs
    · next hp =>
      cases hs
      have htold : ¬Told w.log t := by
        have hfits := h.fits t
        rcases hp with hp | hp
        · rw [hp] at hfits
          exact fun ht => hc (hfits.1 ht)
        · rw [hp] at hfits
          exact fun ht => hc (hfits.2.1 ht)
      exact h.finish (iff_of_false nofun htold)
    · cases hs
  | prepare t p =>
    simp only [CancelMove.run] at hs
    split at hs
    · next hp =>
      cases hs
      have hfits := h.fits t
      rw [hp] at hfits
      cases p with
      | evidence => exact h.goto hfits
      | nothing => exact h.goto ⟨hfits.1, iff_of_false nofun fun ht => hc (hfits.2.1 ht)⟩
      | raises => exact h.goto ⟨hfits.1, iff_of_false nofun fun ht => hc (hfits.2.1 ht)⟩
    · cases hs
  | next t g =>
    simp only [CancelMove.run] at hs
    split at hs
    · next hp =>
      cases hs
      have hfits := h.fits t
      rw [hp] at hfits
      cases g with
      | token => exact h.goto hfits
      | complete => exact h.goto hfits
      | raises => exact h.goto ⟨hfits.1, iff_of_false nofun fun ht => hc (hfits.2.1 ht)⟩
    · cases hs
  | check t =>
    have hfits := h.fits t
    simp only [CancelMove.run] at hs
    split at hs
    · next hp =>
      cases hs
      rw [hp] at hfits
      exact h.check hfits.1 hfits.2 fun _ => hfits
    split at hs
    · next hp =>
      cases hs
      rw [hp] at hfits
      exact h.check hfits.1 hfits.2 fun hno => ⟨hfits.1, hno⟩
    · cases hs
  | resume t =>
    simp only [CancelMove.run] at hs
    split at hs
    · next hp =>
      cases hs
      have hfits := h.fits t
      rw [hp] at hfits
      exact h.goto hfits
    · cases hs
  | abandon t =>
    simp only [CancelMove.run] at hs
    split at hs
    · next hp =>
      cases hs
      have hfits := h.fits t
      rw [hp] at hfits
      exact h.goto ⟨hfits.1, iff_of_false nofun fun ht => hc (hfits.2.1 ht)⟩
    · cases hs
  | publish t valid =>
    simp only [CancelMove.run] at hs
    split at hs
    · next hp =>
      cases hs
      have hfits := h.fits t
      rw [hp] at hfits
      cases valid <;> exact h.goto ⟨hfits.1, iff_of_false nofun hfits.2⟩
    · cases hs
  | clear t =>
    simp only [CancelMove.run] at hs
    split at hs
    · next e hp =>
      cases hs
      have hfits := h.fits t
      rw [hp] at hfits
      refine (h.clear hfits.1 fun t' hahead hflag => ?_).finish hfits.2
      by_cases ht : t' = t
      · rw [ht, hp] at hahead
        cases hahead
      · rw [hc hflag t' ht] at hahead
        cases hahead
    · cases hs
  | findForCancel a =>
    simp only [CancelMove.run] at hs
    split at hs
    · next hopen =>
      cases hs
      refine ⟨fun t => (h.fits t).of rfl Iff.rfl fun _ => Iff.rfl, ?_, h.resetting, h.honest⟩
      intro b hb
      simp only [List.mem_cons] at hb
      rcases hb with rfl | hb
      · exact openFor_owner hopen
      · exact h.cancelling b hb
    · cases hs
  | accept a =>
    simp only [CancelMove.run] at hs
    split at hs
    · next ha =>
      cases hs
      exact h.accept ha hc
    · cases hs
  | close a reset =>
    simp only [CancelMove.run] at hs
    split at hs
    · next hopen =>
      have howner := openFor_owner hopen
      cases hs
      refine ⟨fun t => (h.fits t).of rfl Iff.rfl fun _ => Iff.rfl, h.cancelling, ?_, h.honest⟩
      intro b hb
      split at hb
      · simp only [List.mem_cons] at hb
        rcases hb with rfl | hb
        · exact howner
        · exact h.resetting b hb
      · exact h.resetting b hb
    · cases hs
  | clearOfReset a =>
    simp only [CancelMove.run] at hs
    split at hs
    · next ha =>
      cases hs
      have hclear := h.clear (h.resetting a ha) fun t hahead hflag => by rw [hc hflag t] at hahead; cases hahead
      exact ⟨fun t => (hclear.fits t).of rfl Iff.rfl fun _ => Iff.rfl, hclear.cancelling,
        fun b hb => h.resetting b (List.mem_of_mem_erase hb), hclear.honest⟩
    · cases hs

theorem sound (h : CancelReach actor (Calm actor) w) : Sound actor w := by
  induction h with
  | init conversation => exact ⟨fun t => trivial, nofun, nofun, fun post pre t e hlog => by simp at hlog⟩
  | next _ hc hs ih => exact ih.step hc hs

/-- **While steps are calm, a turn ends cancelled if and only if a cancel was accepted
between its start and its end.** -/
theorem cancelled_iff_accepted (h : CancelReach actor (Calm actor) w) : Honest w.log := (sound h).honest

end Moves

/-! ## Runs -/

/-- A conversation of the actor `1`. -/
def ownConversation : Conversation := { id := 7, ownerUserId := 1, notebookId := none, chatConfig := [] }

/-- Steps one after the other, each of which meets `cond`. -/
def Along {T : Type} [DecidableEq T] (actor : T → Uuid) (cond : CancelWorld T → CancelMove T → Prop) :
    CancelWorld T → List (CancelMove T) → CancelWorld T → Prop
  | w, [], w' => w = w'
  | w, m :: ms, w' => cond w m ∧ ∃ w₁, m.run actor w = some w₁ ∧ Along actor cond w₁ ms w'

theorem CancelReach.along {T : Type} [DecidableEq T] {actor : T → Uuid} {cond : CancelWorld T → CancelMove T → Prop}
    {w w' : CancelWorld T} (h : CancelReach actor cond w) (ms : List (CancelMove T)) (hs : Along actor cond w ms w') :
    CancelReach actor cond w' := by
  induction ms generalizing w with
  | nil =>
    cases hs
    exact h
  | cons m ms ih =>
    obtain ⟨hc, w₁, hrun, hrest⟩ := hs
    exact ih (h.next hc hrun) hrest

/-- A turn in which a cancel is accepted before its first token ends cancelled. -/
theorem cancelled_iff_accepted_once :
    Honest ([.ended () .cancelled, .accepted 1, .started ()] : List (CancelEvent Unit)) := by
  have hreach : CancelReach (fun _ : Unit => 1) (Calm fun _ => 1) { conversation := ownConversation } := .init _
  have halong := hreach.along
    [.begin (), .read (), .append (), .prepare () .evidence, .findForCancel 1, .accept 1, .next () .token, .check (),
      .clear ()]
    ⟨by simp [Calm, CancelWorld.flagged], _, rfl, .inl rfl, _, rfl, .inl rfl, _, rfl, trivial, _, rfl, trivial, _, rfl,
      fun t => by decide +revert, _, rfl, trivial, _, rfl, trivial, _, rfl, fun _ t ht => absurd rfl ht, _, rfl, rfl⟩
  exact cancelled_iff_accepted halong

/-- A cancel that no turn was there for cancels the next one. -/
theorem cancels_next : ¬∀ (T : Type) (_ : DecidableEq T) (actor : T → Uuid) (w : CancelWorld T),
    CancelReach actor (fun _ _ => True) w → Honest w.log := by
  intro h
  have hreach : CancelReach (fun _ : Unit => 1) (fun _ _ => True) { conversation := ownConversation } := .init _
  have halong := hreach.along
    [.findForCancel 1, .accept 1, .begin (), .read (), .append (), .prepare () .evidence, .next () .token, .check (),
      .clear ()]
    ⟨trivial, _, rfl, trivial, _, rfl, trivial, _, rfl, trivial, _, rfl, trivial, _, rfl, trivial, _, rfl, trivial, _, rfl,
      trivial, _, rfl, trivial, _, rfl, rfl⟩
  exact told_started _ _ ((h _ _ _ _ halong [] _ () .cancelled rfl).1 rfl)

end MilpbookLM.Chat
