/-
Disabled accounts and their sessions. Disabling an account revokes the sessions of the
moment; one that a login or a rotation inserts later, after a check made before, stays. In
every run in which no session is so inserted, no token of the account is accepted once
`DisableAccount` has returned (`disabled_no_token`).
-/
import MilpbookLM.Accounts.Bootstrap
import MilpbookLM.Accounts.Coverage

namespace MilpbookLM.Accounts

open Table Interleave

section Disablement

variable {P : Type} [DecidableEq P]

/-- The event revoked the sessions of the account. -/
def Revokes (u : Uuid) (ev : IdentityEvent P) : Prop := ev.call = .custody (.revokeAllForUser u)

/-- They have been revoked. -/
def RevokedIn (u : Uuid) (t : List (IdentityEvent P)) : Prop := ∃ ev ∈ t, Revokes u ev

/-- The condition: where a session is inserted, the account's have not been revoked since the check before it. -/
def Timely (p : P) (c : IdentityCall) (_ : IdentityEnv) (r : IdentityRun P) : Prop :=
  match c with
  | .issue userId _ => ¬ RevokedIn userId (callsSince p r.trace)
  | .rotate sessionId _ => ∀ s, r.shared.session? sessionId = some s → ¬ RevokedIn s.userId (callsSince p r.trace)
  | _ => True

variable {lib : Library} {w : IdentityWorld} {c : IdentityCall} {env : IdentityEnv} {r : IdentityRun P} {p : P} {u : Uuid}

/-! ## What a call does to the sessions -/

/-- Every session of the account is revoked. -/
def IdentityWorld.AllRevoked (w : IdentityWorld) (u : Uuid) : Prop :=
  ∀ s ∈ w.sessions, s.userId = u → s.revokedAt.isSome = true

/-- Whose session a call inserts. -/
def IdentityCall.inserts (w : IdentityWorld) : IdentityCall → Option Uuid
  | .issue userId _ => some userId
  | .rotate sessionId _ => (w.session? sessionId).map (·.userId)
  | _ => none

namespace IdentityWorld

/-- A session of the world has become one of the other: the same, or revoked. -/
def Becomes (s s' : SessionRow) : Prop := s'.id = s.id ∧ s'.userId = s.userId ∧ (s.revokedAt.isSome = true → s'.revokedAt.isSome = true)

theorem revokeWhere_becomes {q : SessionRow → Bool} {now : Time} :
    ∃ f, (w.revokeWhere q now).sessions = w.sessions.map f ∧ ∀ s, Becomes s (f s) := by
  refine ⟨_, rfl, fun s => ?_⟩
  dsimp only
  split
  · exact ⟨rfl, rfl, fun _ => rfl⟩
  · exact ⟨rfl, rfl, id⟩

/-- A session that is inserted comes after the others, under an id of its own. -/
theorem insertSession_cases {ttl : Time} :
    (∃ e, w.insertSession lib u ttl env = (.error e, w)) ∨
      ∃ issued s, w.insertSession lib u ttl env = (.ok issued, { w with sessions := w.sessions ++ [s] }) ∧ s.userId = u ∧
        (w.session? s.id) = none := by
  simp only [insertSession]
  split
  · exact .inl ⟨_, rfl⟩
  · next h =>
    simp only [Bool.or_eq_true, not_or, Bool.not_eq_true, Option.isSome_eq_false_iff, Option.isNone_iff_eq_none] at h
    exact .inr ⟨_, _, rfl, rfl, h.1.1⟩

end IdentityWorld

open IdentityWorld

/-- **What a call does to the sessions**: each stays, if need be revoked, and one may come, of the account that the call
inserts one for. -/
theorem sessions_exec : ∃ f new, (c.exec lib env w).2.sessions = w.sessions.map f ++ new ∧ (∀ s, Becomes s (f s)) ∧
    (new = [] ∨ ∃ s, new = [s] ∧ c.inserts w = some s.userId ∧ w.session? s.id = none) := by
  have hsame : ∀ {w' : IdentityWorld}, w'.sessions = w.sessions → ∃ f new, w'.sessions = w.sessions.map f ++ new ∧
      (∀ s, Becomes s (f s)) ∧ (new = [] ∨ ∃ s, new = [s] ∧ c.inserts w = some s.userId ∧ w.session? s.id = none) :=
    fun h => ⟨id, [], by rw [h, List.map_id, List.append_nil], fun _ => ⟨rfl, rfl, id⟩, .inl rfl⟩
  have hrevoke : ∀ {w' : IdentityWorld} {q now}, w'.sessions = w.sessions → ∃ f new,
      (w'.revokeWhere q now).sessions = w.sessions.map f ++ new ∧
      (∀ s, Becomes s (f s)) ∧ (new = [] ∨ ∃ s, new = [s] ∧ c.inserts w = some s.userId ∧ w.session? s.id = none) := by
    intro w' q now h
    obtain ⟨f, hf, hbecomes⟩ := @revokeWhere_becomes w' q now
    exact ⟨f, [], by rw [hf, h, List.append_nil], hbecomes, .inl rfl⟩
  cases c with
  | custody c => exact hrevoke rfl
  | revoke sessionId => exact hrevoke rfl
  | issue u ttl =>
    rcases @insertSession_cases lib w env u ttl with ⟨e, he⟩ | ⟨issued, s, hs, rfl, hfree⟩
    · exact hsame (by simp only [IdentityCall.exec, he])
    · exact ⟨id, [s], by simp [IdentityCall.exec, hs], fun _ => ⟨rfl, rfl, id⟩, .inr ⟨s, rfl, rfl, hfree⟩⟩
  | rotate sessionId ttl =>
    cases hold : w.session? sessionId with
    | none => exact hsame (by simp only [IdentityCall.exec, rotate, hold])
    | some old =>
      rcases @insertSession_cases lib w env old.userId ttl with ⟨e, he⟩ | ⟨issued, s, hs, hu, hfree⟩
      · exact hsame (by simp only [IdentityCall.exec, rotate, hold, he])
      · have hother : s.id ≠ sessionId := by
          rintro rfl
          rw [hold] at hfree
          cases hfree
        obtain ⟨f, hf, hbecomes⟩ := @revokeWhere_becomes w (·.id = sessionId) env.custody.now
        refine ⟨f, [s], ?_, hbecomes, .inr ⟨s, rfl, by simp [IdentityCall.inserts, hold, hu], hfree⟩⟩
        rw [← hf]
        simp [IdentityCall.exec, rotate, hold, hs, revokeWhere, update, hother]
  | create email displayName passwordHash admin =>
    refine hsame ?_
    rcases @create_cases lib w env email displayName passwordHash admin with ⟨e, he⟩ | ⟨-, user, w', hok, -, hsessions⟩
    · simp only [IdentityCall.exec, he]
    · simp only [IdentityCall.exec, hok, hsessions]
  | _ => exact hsame rfl

theorem keyed_exec (h : Keyed (fun s : SessionRow => s.id) w.sessions) :
    Keyed (fun s : SessionRow => s.id) (c.exec lib env w).2.sessions := by
  obtain ⟨f, new, hsessions, hf, hnew⟩ := @sessions_exec lib w c env
  have hids : (w.sessions.map f).map (·.id) = w.sessions.map (·.id) := by
    rw [List.map_map]
    exact List.map_congr_left fun s _ => (hf s).1
  rw [hsessions]
  rcases hnew with rfl | ⟨s, rfl, -, hfree⟩
  · rw [List.append_nil, Keyed, hids]
    exact h
  · refine keyed_insert (by rw [Keyed, hids]; exact h) ?_
    rw [session?, lookup_none] at hfree
    rw [lookup_none]
    intro s' hs'
    obtain ⟨s'', hs'', rfl⟩ := List.mem_map.1 hs'
    rw [(hf s'').1]
    exact hfree s'' hs''

/-- No session disappears. -/
theorem session_exec {sessionId : Uuid} {s : SessionRow} (h : w.session? sessionId = some s) :
    ∃ s', (c.exec lib env w).2.session? sessionId = some s' ∧ s'.userId = s.userId := by
  obtain ⟨f, new, hsessions, hf, -⟩ := @sessions_exec lib w c env
  refine ⟨f s, ?_, (hf s).2.1⟩
  have hfind : (w.sessions.map f).find? (·.id == sessionId) = some (f s) := by
    rw [List.find?_map]
    simp only [Function.comp_def, (hf _).1]
    exact congrArg (Option.map f) h
  rw [session?, lookup, hsessions, List.find?_append, hfind]
  rfl

/-- A call that inserts no session of the account leaves its sessions revoked. -/
theorem allRevoked_exec (h : w.AllRevoked u) (hinserts : c.inserts w ≠ some u) : (c.exec lib env w).2.AllRevoked u := by
  obtain ⟨f, new, hsessions, hf, hnew⟩ := @sessions_exec lib w c env
  intro s' hs' hu
  rw [hsessions] at hs'
  rcases List.mem_append.1 hs' with hmem | hmem
  · obtain ⟨s, hs, rfl⟩ := List.mem_map.1 hmem
    exact (hf s).2.2 (h s hs ((hf s).2.1.symm.trans hu))
  · rcases hnew with rfl | ⟨s, rfl, hins, -⟩
    · cases hmem
    · obtain rfl := List.mem_singleton.1 hmem
      exact absurd (hins.trans (congrArg some hu)) hinserts

/-- `revoke_all_for_user`. -/
theorem allRevoked_revokeAll : ((IdentityCall.custody (.revokeAllForUser u)).exec lib env w).2.AllRevoked u := by
  intro s' hs' hu
  obtain ⟨s, hs, rfl⟩ := List.mem_map.1 hs'
  dsimp only at hu ⊢
  split
  · rfl
  · next hnot =>
    rw [if_neg hnot] at hu
    simpa [CustodyCall.revokes, hu, Option.isSome_iff_ne_none] using hnot

/-- Where all sessions are revoked, no token is accepted. -/
theorem authenticate_allRevoked (h : w.AllRevoked u) {token : Text} {now : Time} {sessionId : Uuid} :
    w.authenticate lib token now ≠ some (sessionId, u) := by
  intro hauth
  simp only [authenticate] at hauth
  split at hauth
  · cases hauth
  · next s hs =>
    split at hauth
    · cases hauth
    · next hlive =>
      cases hauth
      exact hlive (by simp [h s (List.mem_of_find?_eq_some hs) rfl])

/-- An accepted token is one of a session of the account. -/
theorem session_of_authenticate (hkeyed : Keyed (fun s : SessionRow => s.id) w.sessions) {token : Text} {now : Time}
    {sessionId : Uuid} (h : w.authenticate lib token now = some (sessionId, u)) :
    ∃ s, w.session? sessionId = some s ∧ s.userId = u := by
  simp only [authenticate] at h
  split at h
  · cases h
  · next s hs =>
    split at h
    · cases h
    · cases h
      exact ⟨s, lookup_of_mem hkeyed (List.mem_of_find?_eq_some hs), rfl⟩

/-! ## What a call does to a disabled account -/

def IdentityWorld.Disabled (w : IdentityWorld) (u : Uuid) : Prop :=
  (w.custody.user? u).isSome = true ∧ w.custody.enabled u = false

theorem updateStatus_isSome {w : CustodyWorld} {u' : Uuid} {status : UserStatus} :
    ((w.updateStatus u' status).user? u).isSome = (w.user? u).isSome := by
  rw [CustodyWorld.user?, CustodyWorld.updateStatus, lookup_update (by exact fun _ _ => rfl), Option.isSome_map]
  rfl

theorem disabled_updated {w' : IdentityWorld} {u' : Uuid} (hcustody : w'.custody = w.custody.updateStatus u' .disabled)
    (hsome : (w.custody.user? u).isSome = true) (h : u = u' ∨ w.custody.enabled u = false) : w'.Disabled u := by
  refine ⟨by rw [hcustody, updateStatus_isSome, hsome], ?_⟩
  rw [hcustody, CustodyWorld.enabled_updateStatus]
  split
  · simp
  · next hne => exact h.resolve_left hne

/-- No request enables one. -/
theorem disabled_exec {t : IdentityTrace} (hfollows : c.Follows t) (h : w.Disabled u) : (c.exec lib env w).2.Disabled u := by
  have hsame : ∀ {w' : IdentityWorld}, w'.custody.users = w.custody.users → w'.Disabled u := by
    intro w' husers
    rw [Disabled, CustodyWorld.enabled, CustodyWorld.user?, husers]
    exact h
  rcases @users_exec lib c env w with ⟨email, name, hash, admin, rfl⟩ | ⟨u', status, rfl, -, hcustody⟩ | husers
  · rcases @create_cases lib w env email name hash admin with ⟨e, he⟩ | ⟨-, new, w', hok, husers, -⟩
    · exact hsame (by simp only [IdentityCall.exec, he])
    · obtain ⟨user, huser⟩ := Option.isSome_iff_exists.1 h.1
      have hfound : w'.custody.user? u = some user := by
        rw [CustodyWorld.user?, lookup] at huser ⊢
        rw [husers, List.find?_append, huser, Option.some_or]
      have hdisabled := h.2
      rw [CustodyWorld.enabled, huser] at hdisabled
      simp only [IdentityCall.exec, hok]
      exact ⟨by rw [hfound]; rfl, by rw [CustodyWorld.enabled, hfound]; exact hdisabled⟩
  · obtain rfl : status = .disabled := hfollows
    exact disabled_updated hcustody h.1 (.inr h.2)
  · exact hsame husers

theorem disabled_updateStatus (h : ((IdentityCall.custody (.updateStatus u .disabled)).exec lib env w).1 = .ok ()) :
    ((IdentityCall.custody (.updateStatus u .disabled)).exec lib env w).2.Disabled u := by
  cases hsome : (w.custody.user? u).isSome with
  | true =>
    refine disabled_updated ?_ hsome (.inl rfl)
    simp only [IdentityCall.exec, revokeWhere, CustodyCall.exec, Option.isNone_eq_false_iff.2 hsome]
    rfl
  | false =>
    simp only [IdentityCall.exec, CustodyCall.exec] at h
    rw [if_pos (by simpa using hsome)] at h
    cases h

/-- The record of an account that is not disabled. -/
theorem enabled_getRecord {email : Text} {record : UserRecord} (h : w.getRecord email = some record)
    (henabled : record.user.enabled = true) : ¬ w.Disabled record.user.id := by
  rintro ⟨-, hdisabled⟩
  obtain ⟨l, -, hl⟩ := Option.bind_eq_some_iff.1 h
  obtain ⟨user, huser, rfl⟩ := Option.map_eq_some_iff.1 hl
  have hid : user.id = l.userId := (lookup_some huser).2
  dsimp only at hdisabled henabled
  rw [hid, CustodyWorld.enabled, huser, Option.any_some, henabled] at hdisabled
  cases hdisabled

/-! ## Runs -/

/-- The account that a check found alive. -/
def checkedUser : (c : IdentityCall) → IdentityAnswer c → Option Uuid
  | .getRecord _, .ok (some (record : UserRecord)) => if record.user.enabled then some record.user.id else none
  | .authenticate .., .ok (some (_, userId)) => some userId
  | _, _ => none

/-- Its sessions have not been revoked by a disablement, unless since. -/
def checked (P : Type) : Reading P IdentityCall IdentityAnswer IdentityWorld where
  holds c answer r := ∀ u, checkedUser c answer = some u → ¬ RevokedIn u r.trace
  spoils c answer ev := ∃ u, checkedUser c answer = some u ∧ Revokes u ev

/-- What has been revoked stays revoked, of accounts that stay disabled. -/
structure Dead (r : IdentityRun P) : Prop where
  keyed : Keyed (fun s : SessionRow => s.id) r.shared.sessions
  revoked : ∀ u, RevokedIn u r.trace → r.shared.AllRevoked u ∧ r.shared.Disabled u
  disabled : ∀ p u, (⟨p, .custody (.updateStatus u .disabled), .ok ()⟩ : IdentityEvent P) ∈ r.trace → r.shared.Disabled u
  resolved : ∀ p token now sessionId u,
    (⟨p, .authenticate token now, .ok (some (sessionId, u))⟩ : IdentityEvent P) ∈ r.trace →
      ∃ s, r.shared.session? sessionId = some s ∧ s.userId = u
  unspoilt : Unspoilt (checked P) r

/-- A timely session is inserted for an account whose sessions have not been revoked. -/
theorem Dead.inserts (h : Dead r) (hfollows : c.Follows (own p r.trace)) (hc : Timely p c env r)
    (hinserts : c.inserts r.shared = some u) : ¬ RevokedIn u r.trace := by
  cases c with
  | issue userId ttl =>
    obtain rfl := Option.some.inj hinserts
    obtain ⟨email, record, t, hown, rfl, henabled⟩ := hfollows
    have hchecked : checkedUser (.getRecord email) (.ok (some record)) = some record.user.id := if_pos henabled
    refine h.unspoilt p _ _ t hown ?_ _ hchecked
    rintro ev hev ⟨u, hu, hrevokes⟩
    obtain rfl := Option.some.inj (hchecked.symm.trans hu)
    exact hc ⟨ev, hev, hrevokes⟩
  | rotate sessionId ttl =>
    obtain ⟨s, hs, rfl⟩ := Option.map_eq_some_iff.1 hinserts
    obtain ⟨token, now, userId, t, hown⟩ := hfollows
    obtain ⟨s', hs', hu⟩ := h.resolved p token now sessionId userId (mem_own.1 (hown ▸ List.mem_cons_self))
    obtain rfl : s' = s := Option.some.inj (hs'.symm.trans hs)
    subst hu
    refine h.unspoilt p _ _ t hown ?_ _ rfl
    rintro ev hev ⟨u, hu, hrevokes⟩
    obtain rfl := Option.some.inj hu
    exact hc s' hs ⟨ev, hev, hrevokes⟩
  | _ => cases hinserts

/-- What a call finds alive has not been revoked. -/
theorem Dead.finds (h : Dead r) (hu : checkedUser c (c.exec lib env r.shared).1 = some u) :
    ¬ RevokedIn u r.trace ∧ c ≠ .custody (.revokeAllForUser u) := by
  cases c with
  | getRecord email =>
    refine ⟨fun hrevoked => ?_, fun hcall => by cases hcall⟩
    cases hrecord : r.shared.getRecord email with
    | none =>
      simp only [IdentityCall.exec, hrecord, checkedUser] at hu
      cases hu
    | some record =>
      simp only [IdentityCall.exec, hrecord, checkedUser] at hu
      split at hu
      · next henabled =>
        cases hu
        exact enabled_getRecord hrecord henabled (h.revoked _ hrevoked).2
      · cases hu
  | authenticate token now =>
    refine ⟨fun hrevoked => ?_, fun hcall => by cases hcall⟩
    cases hresolved : r.shared.authenticate lib token now with
    | none =>
      simp only [IdentityCall.exec, hresolved, checkedUser] at hu
      cases hu
    | some found =>
      simp only [IdentityCall.exec, hresolved, checkedUser] at hu
      cases hu
      exact authenticate_allRevoked (h.revoked _ hrevoked).1 hresolved
  | _ => cases hu

/-- **Every call keeps it.** -/
theorem Dead.call (h : Dead r) (hfollows : c.Follows (own p r.trace)) (hc : Timely p c env r) :
    Dead (r.call (IdentityCall.exec lib) p c env) := by
  refine ⟨keyed_exec h.keyed, fun u hu => ?_, fun q u hu => ?_, fun q token now sessionId u hu => ?_, ?_⟩
  · rcases (List.exists_mem_cons_iff _ _ _).1 hu with hnow | hbefore
    · obtain rfl : c = .custody (.revokeAllForUser u) := hnow
      exact ⟨@allRevoked_revokeAll lib _ _ _, disabled_exec hfollows (h.disabled p u (mem_own.1 hfollows))⟩
    · exact ⟨allRevoked_exec (h.revoked u hbefore).1 fun hinserts => h.inserts hfollows hc hinserts hbefore,
        disabled_exec hfollows (h.revoked u hbefore).2⟩
  · rcases List.mem_cons.1 hu with hnow | hbefore
    · obtain ⟨-, rfl, hanswer⟩ := Event.mk.inj hnow
      exact disabled_updateStatus (eq_of_heq hanswer).symm
    · exact disabled_exec hfollows (h.disabled q u hbefore)
  · have hkept : (∃ s, r.shared.session? sessionId = some s ∧ s.userId = u) →
        ∃ s, (c.exec lib env r.shared).2.session? sessionId = some s ∧ s.userId = u := by
      rintro ⟨s, hs, rfl⟩
      exact session_exec hs
    refine hkept ?_
    rcases List.mem_cons.1 hu with hnow | hbefore
    · obtain ⟨-, rfl, hanswer⟩ := Event.mk.inj hnow
      exact session_of_authenticate h.keyed (Except.ok.inj (eq_of_heq hanswer).symm)
    · exact h.resolved q token now sessionId u hbefore
  · refine h.unspoilt.call (fun u hu hrevoked => ?_) fun c' answer hholds hspoils u hu hrevoked => ?_
    · obtain ⟨hnot, hne⟩ := h.finds hu
      exact (List.exists_mem_cons_iff _ _ _ |>.1 hrevoked).elim hne hnot
    · exact (List.exists_mem_cons_iff _ _ _ |>.1 hrevoked).elim (fun hrevokes => hspoils ⟨u, hu, hrevokes⟩) (hholds u hu)

variable {requests : P → IdentityRequest} {pool : IdentityPool P}

/-- **A disabled account has no live token**, in every timely run: when a `DisableAccount` of it has returned, no token of
the account is accepted, at any time, whatever else is still under way. -/
theorem disabled_no_token
    (h : (signIn lib requests).Reach (fun w => Keyed (fun s : SessionRow => s.id) w.sessions) Timely pool) {actorId : Uuid}
    (hrequest : requests p = .disable actorId u) (hmade : own p pool.run.trace ≠ []) (hreturned : pool.procs p = .ret (.ok ())) :
    ∀ token now sessionId, pool.run.shared.authenticate lib token now ≠ some (sessionId, u) := by
  obtain ⟨hruns, hprocs⟩ := signIn_along h
  have hdead : Dead pool.run := by
    refine Reach.invariant (I := Dead) ?_ ?_ hruns
    · rintro r ⟨hkeyed, htrace⟩
      refine ⟨hkeyed, fun u hu => ?_, fun q u hu => ?_, fun q token now sessionId u hu => ?_, unspoilt_start htrace⟩
      · obtain ⟨ev, hev, -⟩ := hu
        rw [htrace] at hev
        cases hev
      · rw [htrace] at hu
        cases hu
      · rw [htrace] at hu
        cases hu
    · intro r r' _ hr hstep
      cases hstep with
      | call p c env hcond => exact hr.call hcond.2.1 hcond.1
  have hover := hprocs p
  rw [hreturned, hrequest] at hover
  obtain ⟨n, hn⟩ := (hover rfl).resolve_left hmade
  exact fun token now sessionId => authenticate_allRevoked (hdead.revoked u ⟨_, mem_own.1 hn, rfl⟩).1

end Disablement

/-! ## A login and a disablement -/

/-- An administrator disables an account that logs in. -/
def overlapping (login : Bool) : IdentityRequest :=
  if login then .login 100 "b@two.org".toList "password".toList else .disable 1 2

def staffed : IdentityWorld where
  custody := { users := [⟨1, .active, true⟩, ⟨2, .active, false⟩] }
  logins := [⟨2, "b@two.org".toList, "Bee".toList, "0$password".toList⟩]

def staffedPool : IdentityPool Bool := ⟨⟨staffed, []⟩, fun _ => .ret (.ok ())⟩

/-- The administrator's calls. -/
def disabling8 : List (Move Bool IdentityEnv Unit) := .start false () :: List.replicate 8 (.call false {})

def inserting : Move Bool IdentityEnv Unit := .call true { custody := { newId := 7 }, token := "token".toList }

/-- The login is over before the account is disabled. -/
def loginFirst : List (Move Bool IdentityEnv Unit) := .start true () :: .call true {} :: inserting :: disabling8

/-- It checks the account before, and inserts the session after. -/
def loginAround : List (Move Bool IdentityEnv Unit) := .start true () :: .call true {} :: disabling8 ++ [inserting]

theorem disabled_no_token_loginFirst :
    (loginFirst.foldl (signIn asciiLibrary overlapping).move staffedPool).run.shared.authenticate asciiLibrary
      "token".toList 0 ≠ some (7, 2) := by
  have hreach : (signIn asciiLibrary overlapping).Reach (fun w => Keyed (fun s : SessionRow => s.id) w.sessions) Timely
      (loginFirst.foldl (signIn asciiLibrary overlapping).move staffedPool) := by
    refine Machine.reach_moves (.start ⟨⟨List.nodup_nil, rfl⟩, fun _ => rfl⟩) ?_
    have hnone : ¬ RevokedIn 2 ([] : List (IdentityEvent Bool)) := fun ⟨_, hev, _⟩ => List.not_mem_nil hev
    exact ⟨trivial, trivial, hnone, trivial, trivial, trivial, trivial, trivial, trivial, trivial, trivial, trivial, trivial⟩
  exact disabled_no_token hreach (p := false) rfl nofun rfl _ _ _

/-- Both have returned, and the token of the login is accepted. -/
theorem token_of_disabled : ∃ pool : IdentityPool Bool,
    (signIn asciiLibrary overlapping).Reach (fun w => Keyed (fun s : SessionRow => s.id) w.sessions) (fun _ _ _ _ => True) pool ∧
      (∀ p, pool.procs p = .ret (.ok ())) ∧ pool.run.shared.custody.enabled 2 = false ∧
      pool.run.shared.authenticate asciiLibrary "token".toList 0 = some (7, 2) := by
  refine ⟨loginAround.foldl (signIn asciiLibrary overlapping).move staffedPool,
    Machine.reach_moves (.start ⟨⟨List.nodup_nil, rfl⟩, fun _ => rfl⟩) Machine.meets_true, fun p => ?_, ?_, ?_⟩
  · cases p <;> rfl
  · decide +kernel
  · decide +kernel

end MilpbookLM.Accounts
