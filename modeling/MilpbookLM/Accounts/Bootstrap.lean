/-
The first administrator. A bootstrap counts the accounts and inserts later, in another
transaction: it makes at most one administrator, in an empty installation, in every run in
which nobody inserts an account in between (`bootstrap_once`).
-/
import MilpbookLM.Accounts.Authn
import MilpbookLM.Lib.Interleave

namespace MilpbookLM.Accounts

open Table Interleave

section Bootstrap

variable {P : Type} [DecidableEq P]

abbrev IdentityRun (P : Type) := Run P IdentityCall IdentityAnswer IdentityWorld

abbrev IdentityPool (P : Type) := Pool P IdentityCall IdentityAnswer AccountError IdentityWorld

abbrev IdentityEvent (P : Type) := Event P IdentityCall IdentityAnswer

/-- The call inserted an account. -/
def createsAccount : (c : IdentityCall) → IdentityAnswer c → Bool
  | .create .., .ok _ => true
  | _, _ => false

/-- The condition: where an administrator is inserted, no account has been since its bootstrap counted, or one has its
email. -/
def Uncontested (p : P) (c : IdentityCall) (_ : IdentityEnv) (r : IdentityRun P) : Prop :=
  match c with
  | .create email _ _ true =>
    (∀ ev ∈ callsSince p r.trace, createsAccount ev.call ev.answer = false) ∨ (r.shared.login? email).isSome = true
  | _ => True

variable {lib : Library} {w : IdentityWorld} {c : IdentityCall} {env : IdentityEnv} {r : IdentityRun P} {p : P}

/-! ## What a call does to an empty installation -/

/-- An answer of `create` that is an error comes with the tables as they were. -/
theorem create_refused {email displayName passwordHash : Text} {admin : Bool}
    (h : createsAccount (.create email displayName passwordHash admin)
      (IdentityCall.exec lib (.create email displayName passwordHash admin) env w).1 = false) :
    (IdentityCall.exec lib (.create email displayName passwordHash admin) env w).2 = w := by
  rcases @IdentityWorld.create_cases lib w env email displayName passwordHash admin with
    ⟨e, he⟩ | ⟨-, user, w', hok, -⟩
  · simp only [IdentityCall.exec, he]
  · simp only [IdentityCall.exec, hok] at h
    cases h

theorem users_kept (h : createsAccount c (c.exec lib env w).1 = false) :
    (c.exec lib env w).2.custody.users = [] ↔ w.custody.users = [] := by
  rcases @users_exec lib c env w with ⟨email, name, hash, admin, rfl⟩ | ⟨u, status, rfl, -, hcustody⟩ | husers
  · rw [create_refused h]
  · simp [hcustody, CustodyWorld.updateStatus, update]
  · rw [husers]

theorem users_created (h : createsAccount c (c.exec lib env w).1 = true) : (c.exec lib env w).2.custody.users ≠ [] := by
  cases c with
  | create email displayName passwordHash admin =>
    rcases @IdentityWorld.create_cases lib w env email displayName passwordHash admin with
      ⟨e, he⟩ | ⟨-, user, w', hok, husers, -⟩
    · simp only [IdentityCall.exec, he] at h
      cases h
    · simp only [IdentityCall.exec, hok, husers]
      simp
  | _ => cases h

/-- To make an administrator is to insert an account. -/
theorem createsAccount_of_admin {answer : IdentityAnswer c} (h : createsAdmin c answer = true) :
    createsAccount c answer = true := by
  cases c with
  | create _ _ _ admin =>
    cases answer with
    | error e => cases admin <;> cases h
    | ok user => rfl
  | _ => cases h

/-! ## Runs -/

def countedNone : (c : IdentityCall) → IdentityAnswer c → Prop
  | .count, .ok (n : Nat) => n = 0
  | _, _ => False

/-- A count of none says that there is no account, until one is inserted. -/
def counted (P : Type) : Reading P IdentityCall IdentityAnswer IdentityWorld where
  holds c answer r := countedNone c answer → r.shared.custody.users = []
  spoils _ _ ev := createsAccount ev.call ev.answer = true

/-- Where an administrator is inserted in an uncontested run, there is no account yet. -/
theorem created_empty (hcount : Unspoilt (counted P) r) (hfollows : c.Follows (own p r.trace)) (hc : Uncontested p c env r)
    (h : createsAdmin c (c.exec lib env r.shared).1 = true) : r.shared.custody.users = [] := by
  cases c with
  | create email displayName passwordHash admin =>
    cases admin with
    | false => simp [createsAdmin] at h
    | true =>
      obtain ⟨t, ht⟩ := hfollows
      rcases hc with hquiet | htaken
      · exact hcount p _ _ t ht (fun ev hev hspoils => Bool.false_ne_true ((hquiet ev hev).symm.trans hspoils)) rfl
      · rcases @IdentityWorld.create_cases lib r.shared env email displayName passwordHash true with ⟨e, he⟩ | ⟨hfree, -⟩
        · simp only [IdentityCall.exec, he] at h
          cases h
        · rw [htaken] at hfree
          cases hfree
  | _ => cases h

/-- The administrators made are at most one, and then there is an account. -/
structure OneAdministrator (r : IdentityRun P) : Prop where
  count : Unspoilt (counted P) r
  atMostOne : r.trace.countP (fun ev => createsAdmin ev.call ev.answer) ≤ 1
  made : r.shared.custody.users = [] → r.trace.countP (fun ev => createsAdmin ev.call ev.answer) = 0

/-- **Every call keeps it.** -/
theorem OneAdministrator.call (h : OneAdministrator r) (hfollows : c.Follows (own p r.trace)) (hc : Uncontested p c env r) :
    OneAdministrator (r.call (IdentityCall.exec lib) p c env) := by
  have hempty := @created_empty P _ lib c env r p h.count hfollows hc
  refine ⟨h.count.call ?_ ?_, ?_, ?_⟩
  · cases c with
    | count => exact List.length_eq_zero_iff.1
    | _ => exact False.elim
  · intro c' answer hholds hspoils hnone
    exact (users_kept (Bool.not_eq_true _ ▸ hspoils)).2 (hholds hnone)
  · simp only [Run.call_trace, List.countP_cons]
    split
    · next hmade => rw [h.made (hempty hmade)]
    · exact h.atMostOne
  · intro hnone
    have hquiet : createsAccount c (c.exec lib env r.shared).1 = false := by
      rw [Bool.eq_false_iff]
      exact fun hcreated => users_created hcreated hnone
    have hnot : createsAdmin c (c.exec lib env r.shared).1 = false := by
      rw [Bool.eq_false_iff]
      exact fun hadmin => Bool.false_ne_true (hquiet.symm.trans (createsAccount_of_admin hadmin))
    simp only [Run.call_trace, List.countP_cons, hnot]
    exact h.made ((users_kept hquiet).1 hnone)

/-! ## Bootstraps -/

/-- The request is to create the first administrator. -/
def IdentityRequest.isBootstrap : IdentityRequest → Bool
  | .bootstrap .. => true
  | _ => false

/-- A bootstrap changes the tables only where it makes an administrator. -/
theorem bootstrap_exec (hmakes : c = .count ∨ c.createsAs true = true)
    (h : createsAdmin c (c.exec lib env w).1 = false) : (c.exec lib env w).2 = w := by
  rcases hmakes with rfl | hcreate
  · rfl
  · cases c with
    | create email displayName passwordHash admin =>
      obtain rfl : admin = true := by simpa [IdentityCall.createsAs] using hcreate
      refine create_refused ?_
      cases hanswer : (IdentityCall.exec lib (.create email displayName passwordHash true) env w).1 with
      | error e => rfl
      | ok user =>
        rw [hanswer] at h
        cases h
    | _ => cases hcreate

variable {requests : P → IdentityRequest} {pool : IdentityPool P}

/-- **Bootstrap makes at most one administrator**, in every uncontested run: over the whole run at most one is made; a
call of a bootstrap makes one in an empty installation, or leaves the tables as they are; and a bootstrap that is over
ended without an error exactly if it made one. -/
theorem bootstrap_once (h : (signIn lib requests).Reach (fun _ => True) Uncontested pool) :
    pool.run.trace.countP (fun ev => createsAdmin ev.call ev.answer) ≤ 1 ∧
      ∀ p, (requests p).isBootstrap = true →
        (∀ c k env, pool.procs p = .call c k → Uncontested p c env pool.run →
          if createsAdmin c (c.exec lib env pool.run.shared).1 then pool.run.shared.custody.users = []
          else (c.exec lib env pool.run.shared).2 = pool.run.shared) ∧
        ∀ outcome c answer t, pool.procs p = .ret outcome → own p pool.run.trace = ⟨c, answer⟩ :: t →
          createsAdmin c answer = outcome.isOk := by
  obtain ⟨hruns, hprocs⟩ := signIn_along h
  have hone : OneAdministrator pool.run := by
    refine Reach.invariant (I := OneAdministrator) ?_ ?_ hruns
    · rintro r ⟨-, htrace⟩
      exact ⟨unspoilt_start htrace, by simp [htrace], fun _ => by simp [htrace]⟩
    · intro r r' _ hr hstep
      cases hstep with
      | call p c env hcond => exact hr.call hcond.2.1 hcond.1
  refine ⟨hone.atMostOne, fun p hp => ?_⟩
  have hprog := hprocs p
  match hrequest : requests p, hp with
  | .bootstrap .., _ =>
    rw [hrequest] at hprog
    refine ⟨fun c k env hcall hc => ?_, fun outcome c answer t hret ht => ?_⟩
    · rw [hcall] at hprog
      split
      · next hmade => exact created_empty hone.count hprog.1.1 hc hmade
      · next hmade => exact bootstrap_exec hprog.1.2 (Bool.not_eq_true _ ▸ hmade)
    · rw [hret] at hprog
      exact hprog c answer t ht

end Bootstrap

/-! ## Two bootstraps -/

/-- Two parties, each with an account of its own in mind. -/
def bootstraps (second : Bool) : IdentityRequest :=
  .bootstrap 0 (if second then "b@two.org" else "a@one.org").toList "Admin".toList "administrator".toList

def nobody : IdentityPool Bool := ⟨⟨{}, []⟩, fun _ => .ret (.ok ())⟩

/-- The second begins when the first is over. -/
def inTurn : List (Move Bool IdentityEnv Unit) :=
  [.start false (), .call false {}, .call false { custody := { newId := 1 } }, .start true (), .call true {}]

/-- Both count, then both insert. -/
def atOnce : List (Move Bool IdentityEnv Unit) :=
  [.start false (), .start true (), .call false {}, .call true {}, .call false { custody := { newId := 1 } },
    .call true { custody := { newId := 2 } }]

/-- The second is refused. -/
theorem bootstrap_once_inTurn :
    (inTurn.foldl (signIn asciiLibrary bootstraps).move nobody).run.trace.countP
        (fun ev => createsAdmin ev.call ev.answer) ≤ 1 ∧
      (inTurn.foldl (signIn asciiLibrary bootstraps).move nobody).procs true =
        .ret (.error (.raised "BootstrapError" "installation already bootstrapped")) := by
  have hreach : (signIn asciiLibrary bootstraps).Reach (fun _ => True) Uncontested
      (inTurn.foldl (signIn asciiLibrary bootstraps).move nobody) := by
    refine Machine.reach_moves (.start ⟨⟨trivial, rfl⟩, fun _ => rfl⟩) ?_
    exact ⟨trivial, trivial, .inl (fun _ h => by cases h), trivial, trivial, trivial⟩
  exact ⟨(bootstrap_once hreach).1, rfl⟩

/-- Both are done, and there are two administrators. -/
theorem two_administrators : ∃ pool : IdentityPool Bool,
    (signIn asciiLibrary bootstraps).Reach (fun w => w.custody.users = []) (fun _ _ _ _ => True) pool ∧
      (∀ p, pool.procs p = .ret (.ok ())) ∧
      pool.run.trace.countP (fun ev => createsAdmin ev.call ev.answer) = 2 ∧
      (pool.run.shared.custody.users.filter (·.installationAdmin)).length = 2 := by
  have hempty : nobody.run.shared.custody.users = [] := rfl
  refine ⟨atOnce.foldl (signIn asciiLibrary bootstraps).move nobody,
    Machine.reach_moves (.start ⟨⟨hempty, rfl⟩, fun _ => rfl⟩) Machine.meets_true, fun p => ?_, ?_, ?_⟩
  · cases p <;> rfl
  · decide +kernel
  · decide +kernel

end MilpbookLM.Accounts
