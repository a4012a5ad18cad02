/-
Advisory-lock sections (db/concurrency.py): the keys of `_stable_lock_key`, the
lock statement that takes them, and the two sections that run behind it,
`remove_final_owner` and `swap_active_source_version`, in any number of sessions.

Keys of different kinds differ (`stableLockKey_kind`). A key has 62 bits of its
entity below its kind, so the kind 0x02 sets bit 63: such a key is no bigint
(`stableLockKey_lt_iff`), psycopg sends it as a numeric, and there is no
`pg_advisory_xact_lock(numeric)`. No version is ever swapped (`versions_unchanged`).
-/
import MilpbookLM.Base.Uuid
import MilpbookLM.Lib.Table
import Mathlib.Data.Nat.Bitwise

namespace MilpbookLM.Db

open MilpbookLM.Table

/-! ## Keys -/

/-- `_LOCK_KIND_FINAL_OWNER` and `_LOCK_KIND_ACTIVE_SWAP`. -/
inductive LockKind where
  | finalOwner
  | activeSwap
deriving DecidableEq, Repr

def LockKind.code : LockKind → Nat
  | finalOwner => 0x01
  | activeSwap => 0x02

/-- `_stable_lock_key`. -/
def stableLockKey (kind : Nat) (entityId : Uuid) : Nat :=
  let entityBits := entityId.toNat &&& ((1 <<< 62) - 1)
  ((kind &&& 0xFF) <<< 62) ||| entityBits

/-- The kind above, the entity's low bits below. -/
theorem stableLockKey_eq (kind : Nat) (entityId : Uuid) :
    stableLockKey kind entityId = (kind % 256) * 2 ^ 62 + entityId.toNat % 2 ^ 62 := by
  have hkind : kind &&& 0xFF = kind % 2 ^ 8 := Nat.and_two_pow_sub_one_eq_mod kind 8
  have hentity : entityId.toNat &&& ((1 <<< 62) - 1) = entityId.toNat % 2 ^ 62 :=
    Nat.and_two_pow_sub_one_eq_mod _ 62
  simp only [stableLockKey, hkind, hentity]
  rw [← Nat.shiftLeft_add_eq_or_of_lt (Nat.mod_lt _ (by decide)), Nat.shiftLeft_eq]
  rfl

/-- **Kinds do not share keys.** -/
theorem stableLockKey_kind {kind kind' : LockKind} (hne : kind' ≠ kind) (e e' : Uuid) :
    stableLockKey kind.code e ≠ stableLockKey kind'.code e' := by
  have he := Nat.mod_lt e.toNat (show 2 ^ 62 > 0 by decide)
  have he' := Nat.mod_lt e'.toNat (show 2 ^ 62 > 0 by decide)
  rw [stableLockKey_eq, stableLockKey_eq]
  cases kind <;> cases kind' <;> simp only [LockKind.code, ne_eq, not_true_eq_false] at hne ⊢ <;> omega

/-- The keys that a signed 64-bit integer holds are those of the first kind. -/
theorem stableLockKey_lt_iff (kind : LockKind) (e : Uuid) :
    stableLockKey kind.code e < 2 ^ 63 ↔ kind = .finalOwner := by
  have he := Nat.mod_lt e.toNat (show 2 ^ 62 > 0 by decide)
  rw [stableLockKey_eq]
  cases kind <;> simp only [LockKind.code, reduceCtorEq, iff_true, iff_false] <;> omega

/-! ## The lock statement -/

/-- The type psycopg gives an integer parameter, by its value. -/
inductive ParamType where
  | int2
  | int4
  | int8
  | numeric
deriving DecidableEq, Repr

def dumpInt (n : Int) : ParamType :=
  if -(2 ^ 15) ≤ n ∧ n < 2 ^ 15 then .int2
  else if -(2 ^ 31) ≤ n ∧ n < 2 ^ 31 then .int4
  else if -(2 ^ 63) ≤ n ∧ n < 2 ^ 63 then .int8
  else .numeric

inductive Answer where
  | granted
  | waits
  | undefinedFunction
deriving DecidableEq, Repr

/-- `SELECT pg_advisory_xact_lock(%s)` in `session`, where the pairs of `held` are the
sessions with the keys they hold. The function takes a bigint, and only the
integer types become one in a call. -/
def advisoryXactLock (held : List (Nat × Nat)) (session key : Nat) : Answer :=
  if dumpInt key = .numeric then .undefinedFunction
  else if held.any (fun h => h.1 ≠ session ∧ h.2 = key) then .waits
  else .granted

theorem dumpInt_key (key : Nat) : dumpInt key = .numeric ↔ ¬ key < 2 ^ 63 := by
  unfold dumpInt
  split
  · simp; omega
  · split
    · simp; omega
    · split
      · simp; omega
      · simp; omega

theorem advisoryXactLock_undefined {held session key} :
    advisoryXactLock held session key = .undefinedFunction ↔ ¬ key < 2 ^ 63 := by
  rw [← dumpInt_key, advisoryXactLock]
  split
  · simp [*]
  · split <;> simp [*]

theorem advisoryXactLock_waits {held session key} (h : advisoryXactLock held session key = .waits) :
    ∃ p ∈ held, p.1 ≠ session ∧ p.2 = key := by
  unfold advisoryXactLock at h
  split at h
  · cases h
  · split at h
    · next hany => simpa using hany
    · cases h

/-! ## The sections -/

structure Membership where
  notebookId : Uuid
  userId : Uuid
  owner : Bool
deriving DecidableEq, Repr

inductive VersionStatus where
  | active
  | inactive
  | other
deriving DecidableEq, Repr

structure SourceVersion where
  id : Uuid
  sourceId : Uuid
  status : VersionStatus
deriving DecidableEq, Repr

/-- The rows the sections read and write. A user has one membership a notebook. -/
structure Rows where
  memberships : List Membership
  custodyState : Uuid → Option String
  versions : List SourceVersion
  currentVersionId : Uuid → Option Uuid
  uniqueMembership : Keyed (fun m : Membership => (m.notebookId, m.userId)) memberships

inductive ConcurrencyError where
  | notAnOwner (userId notebookId : Uuid)
  | finalOwnerRemovalBlocked (notebookId : Uuid)
  | activeSwapConflict (newVersionId sourceId : Uuid)
deriving DecidableEq, Repr

def Rows.owners (rows : Rows) (notebookId : Uuid) : List Membership :=
  rows.memberships.filter fun m => m.notebookId = notebookId ∧ m.owner

/-- `DELETE FROM notebook_memberships` of one owner. -/
def Rows.deleteOwner (rows : Rows) (notebookId userId : Uuid) : Rows :=
  { rows with
    memberships := rows.memberships.filter fun m => ¬ (m.notebookId = notebookId ∧ m.userId = userId ∧ m.owner)
    uniqueMembership := rows.uniqueMembership.sublist (List.filter_sublist.map _) }

/-- `remove_final_owner` after its lock statement. -/
def removeFinalOwner (rows : Rows) (notebookId userId : Uuid) : Except ConcurrencyError Rows := do
  let owners := (rows.owners notebookId).length
  let isOwner := (rows.owners notebookId).any (·.userId = userId)
  if ¬ isOwner then .error (.notAnOwner userId notebookId)
  let rows ←
    if owners = 1 then
      if rows.custodyState notebookId ≠ some "locked_admin_custody" then
        .error (.finalOwnerRemovalBlocked notebookId)
      else .ok { rows with custodyState := Function.update rows.custodyState notebookId (some "none") }
    else .ok rows
  .ok (rows.deleteOwner notebookId userId)

def Rows.setStatus (rows : Rows) (p : SourceVersion → Bool) (status : VersionStatus) : Rows :=
  { rows with versions := update p ({ · with status }) rows.versions }

/-- `swap_active_source_version` after its lock statement. -/
def swapActiveSourceVersion (rows : Rows) (sourceId newVersionId : Uuid) : Except ConcurrencyError Rows := do
  let current := rows.versions.find? fun v => v.sourceId = sourceId ∧ v.status = .active
  let rows := match current with
    | some v => if v.id ≠ newVersionId then rows.setStatus (·.id = v.id) .inactive else rows
    | none => rows
  let named : SourceVersion → Bool := fun v => v.id = newVersionId ∧ v.sourceId = sourceId
  if (rows.versions.filter named).length ≠ 1 then .error (.activeSwapConflict newVersionId sourceId)
  let rows := rows.setStatus named .active
  .ok { rows with currentVersionId := Function.update rows.currentVersionId sourceId (some newVersionId) }

inductive Section where
  | removeFinalOwner (notebookId userId : Uuid)
  | swapActiveSourceVersion (sourceId newVersionId : Uuid)
deriving DecidableEq, Repr

namespace Section

def kind : Section → LockKind
  | removeFinalOwner _ _ => .finalOwner
  | swapActiveSourceVersion _ _ => .activeSwap

def entityId : Section → Uuid
  | removeFinalOwner notebookId _ => notebookId
  | swapActiveSourceVersion sourceId _ => sourceId

def lockKey (s : Section) : Nat := stableLockKey s.kind.code s.entityId

def body (s : Section) (rows : Rows) : Except ConcurrencyError Rows :=
  match s with
  | removeFinalOwner notebookId userId => Db.removeFinalOwner rows notebookId userId
  | swapActiveSourceVersion sourceId newVersionId => Db.swapActiveSourceVersion rows sourceId newVersionId

end Section

/-! ## Sessions -/

/-- The committed rows, the sessions at their lock statement and those behind it. -/
structure Sessions where
  rows : Rows
  atLock : List (Nat × Section)
  inside : List (Nat × Section)

namespace Sessions

def held (st : Sessions) : List (Nat × Nat) := st.inside.map fun p => (p.1, p.2.lockKey)

def answer (st : Sessions) (p : Nat × Section) : Answer := advisoryXactLock st.held p.1 p.2.lockKey

/-- A step of one session. Inside its section it runs to the end: the commit gives
the body's rows, an error and a serialization failure (`aborts`) give none. -/
inductive Step : Sessions → Sessions → Prop
  | begins {st} (p : Nat × Section) : Step st { st with atLock := p :: st.atLock }
  | locks {st} (p : Nat × Section) (hp : p ∈ st.atLock) (h : st.answer p = .granted) :
      Step st { st with atLock := st.atLock.erase p, inside := p :: st.inside }
  | fails {st} (p : Nat × Section) (hp : p ∈ st.atLock) (h : st.answer p = .undefinedFunction) :
      Step st { st with atLock := st.atLock.erase p }
  | commits {st} (p : Nat × Section) (hp : p ∈ st.inside) {rows} (h : p.2.body st.rows = .ok rows) :
      Step st { st with rows := rows, inside := st.inside.erase p }
  | aborts {st} (p : Nat × Section) (hp : p ∈ st.inside) : Step st { st with inside := st.inside.erase p }

/-- What any number of steps reach from the rows `rows`. -/
inductive Reachable (rows : Rows) : Sessions → Prop
  | start : Reachable rows ⟨rows, [], []⟩
  | step {st st'} : Reachable rows st → Step st st' → Reachable rows st'

end Sessions

/-! ## The claims of the sections -/

/-- What the module promises of a section at its lock statement, whoever is inside:
its key is a bigint, no section of another kind has it, the statement does not fail
and only a section of the same kind makes it wait. -/
def LockServes (s : Section) : Prop :=
  s.lockKey < 2 ^ 63 ∧
  (∀ s' : Section, s'.kind ≠ s.kind → s'.lockKey ≠ s.lockKey) ∧
  ∀ (st : Sessions) (session : Nat), st.answer (session, s) ≠ .undefinedFunction ∧
    (st.answer (session, s) = .waits → ∃ p ∈ st.inside, p.1 ≠ session ∧ p.2.kind = s.kind)

/-- **The lock serves the removal of owners, and fails for every swap.** -/
theorem lockServes_iff (s : Section) : LockServes s ↔ s.kind = .finalOwner := by
  constructor
  · intro h
    exact (stableLockKey_lt_iff s.kind s.entityId).1 h.1
  · intro h
    have hlt : s.lockKey < 2 ^ 63 := (stableLockKey_lt_iff s.kind s.entityId).2 h
    have hkinds : ∀ s' : Section, s'.kind ≠ s.kind → s'.lockKey ≠ s.lockKey := fun s' hne =>
      (stableLockKey_kind hne s.entityId s'.entityId).symm
    refine ⟨hlt, hkinds, fun st session => ⟨?_, fun hw => ?_⟩⟩
    · intro hu
      exact advisoryXactLock_undefined.1 hu hlt
    · obtain ⟨q, hq, hne, hkey⟩ := advisoryXactLock_waits hw
      simp only [Sessions.held, List.mem_map] at hq
      obtain ⟨p, hp, rfl⟩ := hq
      refine ⟨p, hp, hne, ?_⟩
      by_contra hkind
      exact hkinds p.2 hkind hkey

/-- A swap whose key no bigint holds. -/
theorem swap_lock_fails : ¬ LockServes (.swapActiveSourceVersion 5#128 6#128) := by
  intro h
  exact absurd h.1 (by decide)

/-! ## What the sections do to the rows -/

/-- What a removal that went through has found and done. -/
theorem removeFinalOwner_ok {rows rows' : Rows} {notebookId userId : Uuid}
    (h : removeFinalOwner rows notebookId userId = .ok rows') :
    (∃ m ∈ rows.owners notebookId, m.userId = userId) ∧
      ((rows.owners notebookId).length ≠ 1 ∧ rows' = rows.deleteOwner notebookId userId ∨
        (rows.owners notebookId).length = 1 ∧ rows.custodyState notebookId = some "locked_admin_custody" ∧
          rows' = Rows.deleteOwner { rows with
            custodyState := Function.update rows.custodyState notebookId (some "none") } notebookId userId) := by
  simp only [removeFinalOwner] at h
  split at h
  · cases h
  · next hany =>
    have hmem : ∃ m ∈ rows.owners notebookId, m.userId = userId := by simpa using hany
    split at h
    · next hone =>
      split at h
      · cases h
      · next hlocked =>
        cases h
        exact ⟨hmem, .inr ⟨hone, not_not.1 hlocked, rfl⟩⟩
    · next hone =>
      cases h
      exact ⟨hmem, .inl ⟨hone, rfl⟩⟩

/-- A notebook that loses an owner has another one, or was in locked custody. -/
theorem removeFinalOwner_owner {rows rows' : Rows} {notebookId userId : Uuid}
    (h : removeFinalOwner rows notebookId userId = .ok rows') :
    (∃ m ∈ rows'.owners notebookId, m.userId ≠ userId) ∨
      rows.custodyState notebookId = some "locked_admin_custody" := by
  obtain ⟨⟨m, hm, rfl⟩, ⟨hmore, rfl⟩ | ⟨_, hlocked, _⟩⟩ := removeFinalOwner_ok h
  · left
    by_contra hnone
    have hall : ∀ m' ∈ rows.owners notebookId, (m'.notebookId, m'.userId) = (notebookId, m.userId) := by
      intro m' hm'
      simp only [Rows.owners, List.mem_filter, decide_eq_true_eq] at hm'
      by_contra hne
      have huser : m'.userId ≠ m.userId := fun he => hne (by rw [hm'.2.1, he])
      refine hnone ⟨m', ?_, huser⟩
      simp [Rows.owners, Rows.deleteOwner, hm', huser]
    have hkeyed : Keyed (fun m : Membership => (m.notebookId, m.userId)) (rows.owners notebookId) :=
      rows.uniqueMembership.sublist (List.filter_sublist.map _)
    have hreplicate := List.map_eq_replicate_iff.2 hall
    rw [Keyed, hreplicate, List.nodup_replicate] at hkeyed
    have hpos := List.length_pos_of_mem hm
    omega
  · exact .inr hlocked

/-- The notebook has an owner and is not in locked custody. -/
def Rows.Owned (rows : Rows) (notebookId : Uuid) : Prop :=
  (∃ m, m ∈ rows.owners notebookId) ∧ rows.custodyState notebookId ≠ some "locked_admin_custody"

theorem Rows.mem_owners_delete {rows : Rows} {n notebookId userId : Uuid} {m : Membership} (h : m ∈ rows.owners n)
    (hne : n ≠ notebookId) : m ∈ (rows.deleteOwner notebookId userId).owners n := by
  simp only [Rows.owners, List.mem_filter, decide_eq_true_eq] at h
  simp [Rows.owners, Rows.deleteOwner, h, hne]

theorem removeFinalOwner_owned {rows rows' : Rows} {n notebookId userId : Uuid} (howned : rows.Owned n)
    (h : removeFinalOwner rows notebookId userId = .ok rows') : rows'.Owned n := by
  obtain ⟨⟨m, hm⟩, hcustody⟩ := howned
  by_cases hn : n = notebookId
  · subst hn
    obtain ⟨m', hm', -⟩ := (removeFinalOwner_owner h).resolve_right hcustody
    rcases (removeFinalOwner_ok h).2 with ⟨-, rfl⟩ | ⟨-, hlocked, -⟩
    · exact ⟨⟨m', hm'⟩, hcustody⟩
    · exact absurd hlocked hcustody
  · rcases (removeFinalOwner_ok h).2 with ⟨-, rfl⟩ | ⟨-, -, rfl⟩
    · exact ⟨⟨m, Rows.mem_owners_delete hm hn⟩, hcustody⟩
    · refine ⟨⟨m, Rows.mem_owners_delete hm hn⟩, ?_⟩
      simpa [Rows.deleteOwner, Function.update_of_ne hn] using hcustody

namespace Sessions

variable {rows : Rows} {st st' : Sessions}

/-- Only removals of owners get behind their lock. -/
theorem inside_kind (h : Reachable rows st) : ∀ p ∈ st.inside, p.2.kind = .finalOwner := by
  induction h with
  | start => simp
  | @step st st' _ hs ih =>
    cases hs with
    | begins p => exact ih
    | locks p hp h =>
      intro q hq
      rcases List.mem_cons.1 hq with rfl | hq
      · have hlt : ¬ ¬ q.2.lockKey < 2 ^ 63 := fun hn => by
          simp [answer, advisoryXactLock_undefined.2 hn] at h
        exact (stableLockKey_lt_iff _ _).1 (not_not.1 hlt)
      · exact ih q hq
    | fails p hp h => exact ih
    | commits p hp h => exact fun q hq => ih q (List.mem_of_mem_erase hq)
    | aborts p hp => exact fun q hq => ih q (List.mem_of_mem_erase hq)

/-- **No version is ever swapped.** -/
theorem versions_unchanged (h : Reachable rows st) :
    st.rows.versions = rows.versions ∧ st.rows.currentVersionId = rows.currentVersionId := by
  induction h with
  | start => exact ⟨rfl, rfl⟩
  | @step st st' hst hs ih =>
    cases hs with
    | begins p => exact ih
    | locks p hp h => exact ih
    | fails p hp h => exact ih
    | aborts p hp => exact ih
    | commits p hp h =>
      obtain ⟨n, s⟩ := p
      have hkind := inside_kind hst _ hp
      cases s with
      | swapActiveSourceVersion sourceId newVersionId => simp [Section.kind] at hkind
      | removeFinalOwner notebookId userId =>
        obtain ⟨_, hrows⟩ := removeFinalOwner_ok h
        rcases hrows with ⟨_, rfl⟩ | ⟨_, _, rfl⟩ <;> exact ih

def twoOwners : Rows where
  memberships := [⟨1#128, 2#128, true⟩, ⟨1#128, 3#128, true⟩]
  custodyState := fun _ => none
  versions := [⟨6#128, 5#128, .inactive⟩]
  currentVersionId := fun _ => none
  uniqueMembership := by simp [Keyed]

theorem swap_changes_nothing :
    ∃ st, Reachable twoOwners st ∧ st.atLock = [] ∧ st.rows.versions = twoOwners.versions := by
  have h := Reachable.step (.step (.start : Reachable twoOwners _) (.begins (0, .swapActiveSourceVersion 5#128 6#128)))
    (.fails _ List.mem_cons_self (by decide +kernel))
  exact ⟨_, h, rfl, (versions_unchanged h).1⟩

/-- **A notebook outside locked custody keeps an owner**, whoever removes owners at once. -/
theorem owner_kept {n : Uuid} (h : Reachable rows st) (howned : rows.Owned n) : st.rows.Owned n := by
  induction h with
  | start => exact howned
  | @step st st' hst hs ih =>
    cases hs with
    | begins p => exact ih
    | locks p hp h => exact ih
    | fails p hp h => exact ih
    | aborts p hp => exact ih
    | commits p hp h =>
      obtain ⟨_, s⟩ := p
      have hkind := inside_kind hst _ hp
      cases s with
      | swapActiveSourceVersion sourceId newVersionId => simp [Section.kind] at hkind
      | removeFinalOwner notebookId userId => exact removeFinalOwner_owned ih h

theorem one_owner_left : ∃ st, Reachable twoOwners st ∧ (st.rows.owners 1#128).length = 1 ∧ st.rows.Owned 1#128 := by
  have h := Reachable.step (.step (.step (.start : Reachable twoOwners _) (.begins (0, .removeFinalOwner 1#128 2#128)))
    (.locks _ List.mem_cons_self (by decide +kernel))) (.commits _ List.mem_cons_self rfl)
  exact ⟨_, h, rfl, owner_kept h ⟨⟨_, List.mem_cons_self⟩, by simp [twoOwners]⟩⟩

end Sessions

end MilpbookLM.Db
