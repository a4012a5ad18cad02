/-
No notebook is left without an enabled owner outside custody. Between the disabling of an
account and the locks of what it alone owned, `Stage.Awaits` says what is still to be
locked; what has no owner for another reason stays so.
-/
import MilpbookLM.Accounts.Coverage
import MilpbookLM.Accounts.Custody
import MilpbookLM.Lib.Automaton

namespace MilpbookLM.Accounts

open Table Interleave

/-! ## How far a `DisableAccount` came -/

/-- What it still has to look at; `looking []` outside of one. -/
inductive Stage
  | disabled (userId : Uuid)
  | looking (notebookIds : List Uuid)
  | column (notebookId : Uuid) (custodyState : CustodyState) (rest : List Uuid)
  | unlocked (notebookId : Uuid) (rest : List Uuid)
  | saved (notebookId : Uuid) (rest : List Uuid)
  | raised

/-- What a call and its answer make of it. -/
def Stage.next : Stage → (c : CustodyCall) → CustodyAnswer c → Stage
  | _, .updateStatus u .disabled, .ok _ => disabled u
  | looking [], _, _ => looking []
  | _, _, .error _ => raised
  | disabled _, .getUser _, .ok none => raised
  | disabled _, .soleOwnedNotebookIds _, .ok notebookIds => looking notebookIds
  | looking (n :: rest), .selectNotebook _, .ok (some row) => column n row.custodyState rest
  | looking (_ :: rest), .selectNotebook _, .ok none => looking rest
  | column n custodyState rest, .selectCustodyEvent _, .ok event =>
    if (custodyRecord n custodyState event).phase = .none then unlocked n rest else looking rest
  | unlocked n rest, .saveCustody .., .ok _ => saved n rest
  | saved _ rest, .record .., .ok _ => looking rest
  | stage, _, _ => stage

/-- The calls that may come next. -/
def Stage.Allows : Stage → CustodyCall → Prop
  | disabled u, c => c = .getUser u ∨ c = .revokeAllForUser u ∨ c = .now ∨ c = .soleOwnedNotebookIds u
  | looking [], _ => True
  | looking (n :: _), c => c = .selectNotebook n
  | column n _ _, c => c = .selectMemberships n ∨ c = .selectCustodyEvent n
  | unlocked n _, c => c = .saveCustody n .locked
  | saved n _, c => ∃ actorId details, c = .record actorId "custody.locked" "notebook" n details
  | raised, _ => False

def disabling : Automaton CustodyCall CustodyAnswer Stage := ⟨.looking [], Stage.next, Stage.Allows⟩

/-- It will lock the notebook, or find it in custody. -/
def Stage.Awaits (w : CustodyWorld) (n : Uuid) : Stage → Prop
  | disabled u => w.owners n = [u]
  | looking notebookIds => n ∈ notebookIds
  | column n' custodyState rest => n ∈ rest ∨ n = n' ∧ (custodyState = .lockedAdminCustody → w.locked n = true)
  | unlocked n' rest => n ∈ rest ∨ n = n'
  | saved n' rest => n ∈ rest ∨ n = n' ∧ w.locked n = true
  | raised => False

/-- What it has read is there. -/
def Stage.Known (w : CustodyWorld) : Stage → Prop
  | disabled u => (w.user? u).isSome
  | looking _ => True
  | column n _ _ | unlocked n _ | saved n _ => (w.notebook? n).isSome
  | raised => False

/-! ### The programs -/

section Programs

variable {α β : Type} {st : Stage}

abbrev CustodyProgram.Obeys (x : CustodyProgram α) (Q : Except AccountError α → Stage → Prop) (st : Stage) : Prop :=
  Prog.Obeys (fun _ _ => True) disabling x.run Q st

/-- A call that may come, and what comes after its answers. -/
theorem obeys_call {c : CustodyCall} {f : CustodyResult c → CustodyProgram β} {Q : Except AccountError β → Stage → Prop}
    (hc : st.Allows c) (hok : ∀ b, (f b).Obeys Q (st.next c (.ok b))) (herr : ∀ e, Q (.error e) (st.next c (.error e))) :
    CustodyProgram.Obeys (c.perform >>= f) Q st := by
  refine Prog.Obeys.seq ⟨hc, fun r _ => ?_⟩
  cases r with
  | ok b => exact hok b
  | error e => exact herr e

/-- Where a request may end. -/
def Stage.Ended (x : Except AccountError α) (st : Stage) : Prop :=
  match x with
  | .ok _ => st = .looking []
  | .error _ => st = .looking [] ∨ st = .raised

/-- Every call but the one that disables an account. -/
def CustodyCall.Other (c : CustodyCall) : Prop := ∀ u, c ≠ .updateStatus u .disabled

theorem next_idle {c : CustodyCall} (h : c.Other) (answer : CustodyAnswer c) : Stage.next (.looking []) c answer = .looking [] := by
  cases c with
  | updateStatus u status =>
    cases status with
    | disabled => exact absurd rfl (h u)
    | active => cases answer <;> rfl
    | deleted => cases answer <;> rfl
  | _ => cases answer <;> rfl

/-- A program that disables no account stays outside. -/
theorem other_obeys {x : CustodyProgram α} (h : Prog.Only CustodyCall.Other x.run) : x.Obeys (fun _ st => st = .looking []) (.looking []) :=
  Prog.Only.obeys h fun _ hc => ⟨trivial, fun answer _ => next_idle hc answer⟩

theorem only_call {c : CustodyCall} (h : c.Other) : Prog.Only CustodyCall.Other c.perform.run :=
  ⟨h, fun _ => trivial⟩

theorem CustodyCall.Bystander.other {c : CustodyCall} (h : c.Bystander) : c.Other := by
  rintro u rfl
  exact h

theorem requireAdmin_only {actorId : Uuid} : Prog.Only CustodyCall.Other (requireAdmin actorId).run :=
  requireAdmin_bystander.mono fun _ => CustodyCall.Bystander.other

theorem loadOwnership_only {n : Uuid} : Prog.Only CustodyCall.Other (loadOwnership n).run :=
  loadOwnership_bystander.mono fun _ => CustodyCall.Bystander.other

theorem ofDomain_only {x : Except CustodyError α} : Prog.Only CustodyCall.Other (ofDomain x).run :=
  ofDomain_bystander.mono fun _ => CustodyCall.Bystander.other

theorem addOwnerMembership_only {n u grantedBy : Uuid} : Prog.Only CustodyCall.Other (addOwnerMembership n u grantedBy).run := by
  refine Prog.Only.bind (only_call (by nofun)) fun (existing : Option Uuid) => ?_
  cases existing with
  | none => exact only_call (by nofun)
  | some membershipId => exact only_call (by nofun)

theorem setStatus_only {u : Uuid} {status : UserStatus} (h : status ≠ .disabled) :
    Prog.Only CustodyCall.Other (setStatus u status).run := by
  refine Prog.Only.bind (only_call fun v hv => h ?_) fun _ => Prog.Only.bind (only_call (by nofun)) fun (updated : Option User) => ?_
  · cases hv
    rfl
  · cases updated with
    | none => exact Prog.only_throw _
    | some updated => exact Prog.only_pure _

theorem removeMembers_only {n : Uuid} {users : List Uuid} :
    Prog.Only CustodyCall.Other (users.forM fun u => (CustodyCall.removeMember n u).perform).run := by
  induction users with
  | nil => exact Prog.only_pure _
  | cons u users ih => exact Prog.Only.bind (only_call (by nofun)) fun _ => ih

theorem custodyTransfer_only {actorId n u : Uuid} : Prog.Only CustodyCall.Other (custodyTransfer actorId n u).run := by
  refine Prog.Only.bind requireAdmin_only fun actor => Prog.Only.bind loadOwnership_only fun loaded => ?_
  cases loaded with
  | none => exact Prog.only_throw _
  | some loaded =>
    refine Prog.Only.bind (only_call (by nofun)) fun (newOwner : Option User) => ?_
    cases newOwner with
    | none => exact Prog.only_throw _
    | some newOwner =>
      refine Prog.Only.bind (only_call (by nofun)) fun _ => Prog.Only.bind ofDomain_only fun _ => ?_
      exact Prog.Only.bind removeMembers_only fun _ => Prog.Only.bind addOwnerMembership_only fun _ =>
        Prog.Only.bind (only_call (by nofun)) fun _ => Prog.Only.bind (only_call (by nofun)) fun _ => Prog.only_pure _

theorem scheduleCustodyDeletion_only {isoformat : Time → String} {horizon : Time} {actorId n : Uuid} :
    Prog.Only CustodyCall.Other (scheduleCustodyDeletion isoformat horizon actorId n).run := by
  refine Prog.Only.bind requireAdmin_only fun actor => Prog.Only.bind loadOwnership_only fun loaded => ?_
  cases loaded with
  | none => exact Prog.only_throw _
  | some loaded =>
    refine Prog.Only.bind (only_call (by nofun)) fun at_ => Prog.Only.bind ofDomain_only fun newRecord => ?_
    generalize newRecord.scheduledFor = scheduled
    cases scheduled with
    | none => exact Prog.only_throw _
    | some scheduledFor =>
      exact Prog.Only.bind (only_call (by nofun)) fun _ => Prog.Only.bind (only_call (by nofun)) fun _ => Prog.only_pure _

theorem blockingNotebookIds_only {notebookIds : List Uuid} : Prog.Only CustodyCall.Other (blockingNotebookIds notebookIds).run := by
  induction notebookIds with
  | nil => exact Prog.only_pure _
  | cons n notebookIds ih =>
    refine Prog.Only.bind loadOwnership_only fun loaded => Prog.Only.bind ih fun blocking => ?_
    cases loaded with
    | none => exact Prog.only_pure _
    | some loaded => exact Prog.only_pure _

theorem removeFinalOwner_only {n u : Uuid} : Prog.Only CustodyCall.Other (removeFinalOwner n u).run := by
  refine Prog.Only.bind (only_call (by nofun)) fun _ => ?_
  refine Prog.only_ite (fun _ => Prog.only_throw _) fun _ => ?_
  refine Prog.only_ite (fun _ => ?_) fun _ => only_call (by nofun)
  exact Prog.only_ite (fun _ => Prog.only_throw _) fun _ => only_call (by nofun)

/-- A load of the notebook it comes to: it is to be locked when its phase is none. -/
theorem loadOwnership_obeys {n : Uuid} {rest : List Uuid} :
    (loadOwnership n).Obeys (fun loaded st => match loaded with
      | .ok none => st = .looking rest
      | .ok (some (_, record)) => st = if record.phase = .none then .unlocked n rest else .looking rest
      | .error _ => st = .raised) (.looking (n :: rest)) := by
  refine obeys_call rfl (fun (notebook : Option NotebookRow) => ?_) fun e => rfl
  cases notebook with
  | none => exact rfl
  | some notebook => exact obeys_call (.inl rfl) (fun _ => obeys_call (.inr rfl) (fun _ => rfl) fun e => rfl) fun e => rfl

theorem lockSoleOwned_obeys {actor : User} {at_ : Time} {notebookIds locked : List Uuid} :
    (lockSoleOwned actor at_ notebookIds locked).Obeys Stage.Ended (.looking notebookIds) := by
  induction notebookIds generalizing locked with
  | nil => exact rfl
  | cons n rest ih =>
    refine Prog.Obeys.seq (loadOwnership_obeys.mono fun loaded st hst => ?_)
    match loaded with
    | .error e => exact .inr hst
    | .ok none =>
      obtain rfl : st = .looking rest := hst
      exact ih
    | .ok (some (ownership, record)) =>
      obtain rfl : st = if record.phase = .none then .unlocked n rest else .looking rest := hst
      show CustodyProgram.Obeys (if record.phase ≠ .none then _ else _) _ _
      by_cases hphase : record.phase = .none
      · rw [if_neg (not_not.2 hphase), if_pos hphase]
        have hlock : lockCustody record actor.id "sole_owner_disabled" at_ = .ok
            { notebookId := record.notebookId
              phase := .locked
              lockedReason := some "sole_owner_disabled"
              events := record.events ++
                [⟨record.notebookId, "custody.locked", actor.id, at_, [("reason", "sole_owner_disabled")]⟩] } := by
          simp [lockCustody, hphase]
        rw [hlock]
        exact obeys_call rfl (fun _ => obeys_call ⟨actor.id, _, rfl⟩ (fun _ => ih) fun e => .inr rfl) fun e => .inr rfl
      · rw [if_pos hphase, if_neg hphase]
        exact ih

theorem disableAccount_obeys {actorId u : Uuid} : (disableAccount actorId u).Obeys Stage.Ended (.looking []) := by
  refine Prog.Obeys.seq ((other_obeys requireAdmin_only).mono fun actor st hst => ?_)
  subst hst
  cases actor with
  | error e => exact .inl rfl
  | ok actor =>
    refine obeys_call trivial (fun (user : Option User) => ?_) fun e => .inl rfl
    cases user with
    | none => exact .inl rfl
    | some user =>
      show CustodyProgram.Obeys (if user.status ≠ .active then _ else _) _ _
      by_cases hstatus : user.status = .active
      · rw [if_neg (not_not.2 hstatus)]
        refine Prog.Obeys.seq (obeys_call trivial (fun _ => obeys_call (.inl rfl) (fun (updated : Option User) => ?_) ?_) ?_)
        · cases updated with
          | none => exact .inr rfl
          | some updated =>
            refine obeys_call (.inr (.inl rfl)) (fun revoked => ?_) fun e => .inr rfl
            refine obeys_call (.inr (.inr (.inl rfl))) (fun at_ => ?_) fun e => .inr rfl
            refine obeys_call (.inr (.inr (.inr rfl))) (fun notebookIds => ?_) fun e => .inr rfl
            refine Prog.Obeys.seq (lockSoleOwned_obeys.mono fun locked st hst => ?_)
            cases locked with
            | error e => exact hst
            | ok locked =>
              obtain rfl : st = .looking [] := hst
              exact obeys_call trivial (fun _ => rfl) fun e => .inl rfl
        · exact fun e => .inr rfl
        · exact fun e => .inl rfl
      · rw [if_pos hstatus]
        exact .inl rfl

/-- **Every request keeps to the order of its calls.** -/
theorem program_obeys {isoformat : Time → String} {horizon : Time} {request : CustodyRequest} :
    (request.program isoformat horizon).Obeys Stage.Ended (.looking []) := by
  have hother : ∀ {x : CustodyProgram Unit}, Prog.Only CustodyCall.Other x.run → x.Obeys Stage.Ended (.looking []) := by
    intro x hx
    refine (other_obeys hx).mono fun outcome st hst => ?_
    cases outcome with
    | ok => exact hst
    | error e => exact .inl hst
  cases request with
  | disable actorId userId =>
    refine Prog.Obeys.map (disableAccount_obeys.mono fun outcome st hst => ?_)
    cases outcome <;> exact hst
  | enable userId => exact hother (Prog.Only.map (setStatus_only nofun))
  | delete userId =>
    refine hother (Prog.Only.bind (Prog.Only.bind (only_call (by nofun)) fun _ => Prog.Only.bind blockingNotebookIds_only fun _ =>
      Prog.only_pure _) fun blockers => ?_)
    exact Prog.only_ite (fun _ => Prog.Only.map (setStatus_only nofun)) fun _ => Prog.only_pure _
  | transfer actorId notebookId newOwnerId => exact hother (Prog.Only.map custodyTransfer_only)
  | schedule actorId notebookId => exact hother (Prog.Only.map scheduleCustodyDeletion_only)
  | removeFinalOwner notebookId userId => exact hother removeFinalOwner_only
  | removeMember notebookId userId => exact hother (only_call (by nofun))
  | addOwner notebookId userId grantedBy => exact hother addOwnerMembership_only

end Programs

/-! ## Runs -/

section Steps

variable {w : CustodyWorld} {c : CustodyCall} {env : CustodyEnv} {window : Bool} {n : Uuid} {u : Uuid} {st : Stage}

/-- No account disappears, -/
theorem user_exec : ((c.exec env w).2.user? u).isSome = (w.user? u).isSome := by
  have hupdate : ∀ v status, ((w.updateStatus v status).user? u).isSome = (w.user? u).isSome := by
    intro v status
    rw [CustodyWorld.user?, CustodyWorld.updateStatus, lookup_update (by exact fun _ _ => rfl), Option.isSome_map]
    rfl
  cases c with
  | updateStatus v status =>
    simp only [CustodyCall.exec]
    split
    · rfl
    · exact hupdate v status
  | saveCustody | insertOwner | deleteOwner => simp only [CustodyCall.exec]; (repeat' split) <;> rfl
  | _ => rfl

/-- and no notebook. -/
theorem notebook_exec : ((c.exec env w).2.notebook? n).isSome = (w.notebook? n).isSome := by
  have hupdate : ∀ {w' : CustodyWorld} {p : NotebookRow → Bool} {f : NotebookRow → NotebookRow},
      w'.notebooks = update p f w.notebooks → (∀ row, (f row).id = row.id) → (w'.notebook? n).isSome = (w.notebook? n).isSome := by
    intro w' p f hw hf
    rw [CustodyWorld.notebook?_updated hw hf, Option.isSome_map]
  cases c with
  | updateStatus v status =>
    simp only [CustodyCall.exec]
    split <;> rfl
  | saveCustody n' phase =>
    simp only [CustodyCall.exec]
    split
    · rfl
    · exact hupdate rfl fun _ => rfl
  | updateOwner id n' u grantedBy => exact hupdate rfl fun _ => rfl
  | insertOwner n' u grantedBy =>
    simp only [CustodyCall.exec]
    split
    · rfl
    · split
      · rfl
      · exact hupdate rfl fun _ => rfl
  | removeMember n' u => exact hupdate rfl fun _ => rfl
  | deleteOwner n' u unlock =>
    simp only [CustodyCall.exec]
    split
    · rfl
    · cases unlock with
      | false => rfl
      | true => exact hupdate rfl fun _ => rfl
  | _ => rfl

theorem Stage.Known.exec (h : st.Known w) : st.Known (c.exec env w).2 := by
  cases st with
  | disabled u => exact user_exec.trans h
  | looking => trivial
  | column n' | unlocked n' | saved n' => exact notebook_exec.trans h
  | raised => exact h

theorem Stage.Awaits.exec (h : st.Awaits w n) (howners : (c.exec env w).2.owners n = w.owners n)
    (hlocked : w.locked n = true → (c.exec env w).2.locked n = true) : st.Awaits (c.exec env w).2 n := by
  cases st with
  | disabled u => exact howners.trans h
  | looking => exact h
  | column n' custodyState rest => exact h.imp_right fun ⟨hn, h⟩ => ⟨hn, fun hs => hlocked (h hs)⟩
  | unlocked => exact h
  | saved => exact h.imp_right fun ⟨hn, h⟩ => ⟨hn, hlocked h⟩
  | raised => exact h

/-- The next stage of who makes the call knows what it read, -/
theorem known_next (hallows : st.Allows c) (h : st.Known w) : (st.next c (c.exec env w).1).Known (c.exec env w).2 := by
  refine Stage.Known.exec ?_
  match st, hallows, h with
  | .disabled u, hallows, h =>
    rcases hallows with rfl | rfl | rfl | rfl
    · obtain ⟨user, huser⟩ := Option.isSome_iff_exists.1 h
      simp only [CustodyCall.exec, huser]
      exact h
    · exact h
    · exact h
    · exact trivial
  | .looking [], hallows, h =>
    by_cases hc : c.Other
    · rw [next_idle hc]
      trivial
    · simp only [CustodyCall.Other, not_forall, not_not] at hc
      obtain ⟨u, rfl⟩ := hc
      simp only [CustodyCall.exec]
      split
      · trivial
      · next hu => exact Option.isSome_iff_ne_none.2 fun he => hu (by simp [he])
  | .looking (n :: rest), rfl, h =>
    simp only [CustodyCall.exec]
    cases hrow : w.notebook? n with
    | none => trivial
    | some row => exact Option.isSome_iff_ne_none.2 (by simp [hrow])
  | .column n custodyState rest, hallows, h =>
    rcases hallows with rfl | rfl
    · exact h
    · show Stage.Known w (if _ then _ else _)
      split
      · exact h
      · trivial
  | .unlocked n rest, rfl, h =>
    obtain ⟨row, hrow⟩ := Option.isSome_iff_exists.1 h
    simp only [CustodyCall.exec, hrow]
    exact h
  | .saved n rest, ⟨_, _, rfl⟩, h => trivial
  | .raised, hallows, h => exact hallows.elim

theorem mem_soleOwned (h : w.owners n = [u]) : n ∈ w.soleOwnedNotebookIds u := by
  obtain ⟨m, hm, rfl, hu, hrole⟩ := CustodyWorld.mem_owners.1 (h ▸ List.mem_singleton_self u : u ∈ w.owners n)
  refine List.mem_map.2 ⟨m, List.mem_filter.2 ⟨hm, ?_⟩, rfl⟩
  simp [hu, hrole, h]

/-- and still awaits what it has not locked. -/
theorem awaits_next (hallows : st.Allows c) (hknown : st.Known w) (hn : (w.notebook? n).isSome) (hc : ¬ w.Covered n)
    (h : st.Awaits w n) : (st.next c (c.exec env w).1).Awaits (c.exec env w).2 n ∨ (c.exec env w).2.Covered n := by
  cases st with
  | disabled u =>
    rcases hallows with rfl | rfl | rfl | rfl
    · obtain ⟨user, huser⟩ := Option.isSome_iff_exists.1 hknown
      simp only [CustodyCall.exec, huser]
      exact .inl h
    · exact .inl h
    · exact .inl h
    · exact .inl (mem_soleOwned h)
  | looking notebookIds =>
    rcases notebookIds with _ | ⟨n', rest⟩
    · cases h
    obtain rfl : c = .selectNotebook n' := hallows
    refine .inl ?_
    simp only [CustodyCall.exec]
    cases hrow : w.notebook? n' with
    | none =>
      rcases List.mem_cons.1 h with rfl | h
      · rw [hrow] at hn
        cases hn
      · exact h
    | some row =>
      rcases List.mem_cons.1 h with rfl | h
      · exact .inr ⟨rfl, fun hs => by simp [CustodyWorld.locked, hrow, hs]⟩
      · exact .inl h
  | column n' custodyState rest =>
    rcases hallows with rfl | rfl
    · exact .inl h
    · refine .inl ?_
      show Stage.Awaits w n (if _ then _ else _)
      split
      · exact h.imp_right And.left
      · next hphase =>
        refine h.resolve_right fun hthis => hc (.inr ?_)
        obtain ⟨rfl, hlocked⟩ := hthis
        obtain ⟨hs, hevent⟩ := CustodyWorld.phase_ne_none.1 hphase
        exact CustodyWorld.openCustody_iff.2 ⟨hlocked hs, hevent⟩
  | unlocked n' rest =>
    obtain rfl : c = .saveCustody n' .locked := hallows
    obtain ⟨row, hrow⟩ := Option.isSome_iff_exists.1 hknown
    refine .inl ?_
    simp only [CustodyCall.exec, hrow]
    refine h.imp_right fun hn' => ⟨hn', ?_⟩
    subst hn'
    show (w.saveColumn n .lockedAdminCustody).locked n = true
    simp [CustodyWorld.locked_saveColumn, hrow]
  | saved n' rest =>
    obtain ⟨actorId, details, rfl⟩ : ∃ actorId details, c = .record actorId "custody.locked" "notebook" n' details := hallows
    rcases h with h | ⟨rfl, h⟩
    · exact .inl h
    · refine .inr (.inr (CustodyWorld.openCustody_iff.2 ⟨h, CustodyWorld.custodyEvent_isSome.2 ?_⟩))
      exact ⟨_, List.mem_append_right _ (List.mem_singleton_self _), by simp [AuditEvent.ofCustody, custodyActions]⟩
  | raised => exact h.elim

end Steps

section Pools

variable {P : Type} [DecidableEq P]

abbrev CustodyRun (P : Type) := Run P CustodyCall CustodyAnswer CustodyWorld

abbrev CustodyPool (P : Type) := Pool P CustodyCall CustodyAnswer AccountError CustodyWorld

/-- Any number of processes, each with any requests one after the other. -/
def custodyMachine (P : Type) (isoformat : Time → String) (horizon : Time) :
    Machine P CustodyCall CustodyAnswer AccountError CustodyWorld CustodyEnv CustodyRequest where
  exec := CustodyCall.exec
  start _ request := (request.program isoformat horizon).run

/-- Every notebook has an enabled owner. -/
def Owned (w : CustodyWorld) : Prop := ∀ row ∈ w.notebooks, w.enabledOwner row.id = true

/-- How far the requests of `p` came. -/
def stage (r : CustodyRun P) (p : P) : Stage := r.at (fun _ => disabling) p

/-- Every notebook is covered; with `window`, or a `DisableAccount` that is not over still awaits it. -/
structure Kept (window : Bool) (r : CustodyRun P) : Prop where
  known : ∀ p, (stage r p).Known r.shared
  covered : ∀ n, (r.shared.notebook? n).isSome → r.shared.Covered n ∨ window = true ∧ ∃ p, (stage r p).Awaits r.shared n

variable {isoformat : Time → String} {horizon : Time} {window : Bool} {pool : CustodyPool P} {r : CustodyRun P} {p : P}
  {c : CustodyCall} {env : CustodyEnv} {n : Uuid}

theorem stage_self : stage (r.call CustodyCall.exec p c env) p = (stage r p).next c (c.exec env r.shared).1 :=
  Run.at_call_self _ _ _ _ _

theorem stage_other {q : P} (h : q ≠ p) : stage (r.call CustodyCall.exec p c env) q = stage r q :=
  Run.at_call_other _ _ h _ _

/-- **Every call keeps it.** -/
theorem kept_call (h : Kept window r) (hallows : (stage r p).Allows c) (hk : c.Keeps window r.shared) :
    Kept window (r.call CustodyCall.exec p c env) := by
  refine ⟨fun q => ?_, fun n hn => ?_⟩
  · by_cases hqp : q = p
    · subst hqp
      rw [stage_self]
      exact known_next hallows (h.known q)
    · rw [stage_other hqp]
      exact (h.known q).exec
  · have hknown : (r.shared.notebook? n).isSome := notebook_exec.symm.trans hn
    by_cases hc : r.shared.Covered n
    · refine (covered_exec hk hc).imp_right fun hcut => ?_
      obtain ⟨hwindow, u, hcall, hu, howners⟩ := hcut
      refine ⟨hwindow, p, ?_⟩
      subst hcall
      obtain ⟨user, huser⟩ := Option.isSome_iff_exists.1 hu
      simp only [stage_self, Run.call_shared, CustodyCall.exec, huser]
      exact howners
    · obtain ⟨hwindow, q, hq⟩ := (h.covered n hknown).resolve_left hc
      by_cases hqp : q = p
      · subst hqp
        refine (awaits_next hallows (h.known q) hknown hc hq).symm.imp_right fun hq => ⟨hwindow, q, ?_⟩
        rw [stage_self]
        exact hq
      · refine (uncovered_exec hk hc).imp_right fun hcut => ?_
        obtain ⟨howners, hlocked⟩ := hcut
        refine ⟨hwindow, q, ?_⟩
        rw [stage_other hqp]
        exact hq.exec howners hlocked

/-- A `DisableAccount` of `p` that is not over still awaits the notebook. -/
def Disabling (pool : CustodyPool P) (p : P) (n : Uuid) : Prop :=
  (∃ c k, pool.procs p = .call c k) ∧ (stage pool.run p).Awaits pool.run.shared n

/-- **No notebook is left without an enabled owner outside custody**, in every run in which each call keeps the notebooks
covered in the state before it; where accounts that own a notebook alone are disabled, but for the time until it is locked. -/
theorem never_ownerless (h : (custodyMachine P isoformat horizon).Reach Owned (fun _ c _ r => c.Keeps window r.shared) pool) :
    ∀ row ∈ pool.run.shared.notebooks, pool.run.shared.Covered row.id ∨ window = true ∧ ∃ p, Disabling pool p row.id := by
  have hstart : ∀ p s st, Stage.Ended (.ok ()) st →
      ((custodyMachine P isoformat horizon).start p s).Obeys (fun _ _ => True) disabling Stage.Ended st :=
    fun _ _ st hst => by obtain rfl : st = .looking [] := hst; exact program_obeys
  obtain ⟨hruns, hprocs⟩ := Machine.obeys (A := fun _ => disabling) (Q := fun _ => Stage.Ended)
    (fun _ _ _ => trivial) (fun _ => rfl) hstart h
  have hkept : Kept window pool.run := by
    refine Reach.invariant (I := Kept window) ?_ ?_ hruns
    · rintro r ⟨howned, htrace⟩
      have hstage : ∀ p, stage r p = .looking [] := by
        intro p
        show disabling.after (own p r.trace) = _
        rw [htrace]
        rfl
      refine ⟨fun p => by rw [hstage]; trivial, fun n hn => ?_⟩
      obtain ⟨row, hrow⟩ := Option.isSome_iff_exists.1 hn
      obtain ⟨hmem, rfl⟩ := lookup_some hrow
      exact .inl (.inl (howned row hmem))
    · rintro r r' - hi ⟨p, c, env, hk, hallows⟩
      exact kept_call hi hallows hk
  intro row hrow
  have hn : (pool.run.shared.notebook? row.id).isSome := by
    rw [Option.isSome_iff_ne_none]
    exact fun he => lookup_none.1 he row hrow rfl
  refine (hkept.covered row.id hn).imp_right fun ⟨hwindow, p, hp⟩ => ⟨hwindow, p, ?_, hp⟩
  have hend := hprocs p
  cases hproc : pool.procs p with
  | call c k => exact ⟨c, k, rfl⟩
  | ret x =>
    rw [hproc] at hend
    have hstage : stage pool.run p = .looking [] ∨ stage pool.run p = .raised := by
      cases x with
      | ok => exact .inl hend
      | error e => exact hend
    rcases hstage with hstage | hstage <;> rw [hstage] at hp
    · cases hp
    · cases hp

end Pools

/-! ## Two schedules -/

/-- An administrator and two accounts, and a notebook that `owners` own. -/
def ownedWorld (owners : List Uuid) : CustodyWorld where
  users := [⟨1, .active, true⟩, ⟨2, .active, false⟩, ⟨3, .active, false⟩]
  notebooks := [⟨10, .none, owners.head?⟩]
  memberships := owners.map fun u => ⟨u, 10, u, .owner, none⟩

def ownedPool (owners : List Uuid) : CustodyPool Unit := ⟨⟨ownedWorld owners, []⟩, fun _ => .ret (.ok ())⟩

abbrev oneAdministrator := custodyMachine Unit (fun _ => "") 0

/-- The administrator disables `u`, in `calls` calls. -/
def disableMoves (u : Uuid) (calls : Nat) : List (Move Unit CustodyEnv CustodyRequest) :=
  .start () (.disable 1 u) :: List.replicate calls (.call () {})

theorem owned_alone : Owned (ownedWorld [2]) := by
  intro row hrow
  obtain rfl : row = ⟨10, .none, some 2⟩ := by simpa [ownedWorld] using hrow
  decide

/-- The account that owns the notebook alone is disabled, and the notebook is in custody. -/
theorem never_ownerless_of_lock : ∃ pool : CustodyPool Unit,
    oneAdministrator.Reach Owned (fun _ c _ r => c.Keeps true r.shared) pool ∧ pool.run.shared.enabledOwner 10 = false ∧
      ∀ row ∈ pool.run.shared.notebooks, pool.run.shared.Covered row.id := by
  have hsole : (CustodyCall.updateStatus 2 .disabled).Keeps true (ownedWorld [2]) := by
    refine .inr (.inr fun n hn => .inr (.inr ⟨rfl, rfl, ?_⟩))
    obtain ⟨m, hm, rfl, -⟩ := CustodyWorld.mem_owners.1 hn
    obtain rfl : m = ⟨2, 10, 2, .owner, none⟩ := by simpa [ownedWorld] using hm
    decide
  have hreach : oneAdministrator.Reach Owned (fun _ c _ r => c.Keeps true r.shared)
      ((disableMoves 2 13).foldl oneAdministrator.move (ownedPool [2])) := by
    refine Machine.reach_moves (.start ⟨⟨owned_alone, rfl⟩, fun _ => rfl⟩) ?_
    exact ⟨trivial, trivial, trivial, hsole, trivial, trivial, trivial, trivial, trivial, trivial, trivial, nofun, trivial,
      trivial, trivial⟩
  refine ⟨_, hreach, by decide +kernel, fun row hrow => ?_⟩
  rcases never_ownerless hreach row hrow with hc | ⟨-, p, ⟨c, k, hcall⟩, -⟩
  · exact hc
  · cases (show Prog.ret (.ok ()) = Prog.call c k from hcall)

/-- Two accounts own a notebook; they are disabled one after the other, and it is not locked. -/
theorem coowners_disabled : ∃ pool : CustodyPool Unit, oneAdministrator.Reach Owned (fun _ _ _ _ => True) pool ∧
    pool.procs () = .ret (.ok ()) ∧ ∃ row ∈ pool.run.shared.notebooks, ¬ pool.run.shared.Covered row.id := by
  have howned : Owned (ownedWorld [2, 3]) := by
    intro row hrow
    obtain rfl : row = ⟨10, .none, some 2⟩ := by simpa [ownedWorld] using hrow
    decide
  refine ⟨(disableMoves 2 8 ++ disableMoves 3 8).foldl oneAdministrator.move (ownedPool [2, 3]),
    Machine.reach_moves (.start ⟨⟨howned, rfl⟩, fun _ => rfl⟩) Machine.meets_true, rfl, ⟨10, .none, some 2⟩,
    List.mem_singleton_self _, by decide +kernel⟩

end MilpbookLM.Accounts
