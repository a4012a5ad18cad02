/-
Enqueues at the same time, statement by statement: any number of `EnqueueJob`
calls, their transactions interleaved in any way.

A transaction claims its scoped key first. The unique constraint makes the INSERT
of a key wait for a transaction that has inserted it and is still open, and find
it taken once that one has committed; by then the job of that key is there too,
since both come with one commit. `enqueue_idempotent` puts it together: one job
for each kind, user, notebook and key, whose creator the other calls answer.
-/
import MilpbookLM.Jobs.Runs

namespace MilpbookLM

open Interleave PgJobRepository

/-! ## Enqueue transactions -/

/-- Where a call of `EnqueueJob` is, and what its transaction holds uncommitted. -/
inductive EnqueueStage
  | waiting
  /-- The record is built, its capacity checked. -/
  | built (job : JobRecord)
  /-- The INSERT of the key found it taken. -/
  | taken (job : JobRecord)
  /-- The key is claimed: inserted by this transaction (`key`), or read. -/
  | keyed (job : JobRecord) (keyId : Uuid) (key : Option IdempotencyKey)
  /-- There is no job to reuse. -/
  | inserting (job : JobRecord) (keyId : Option Uuid) (key : Option IdempotencyKey)
  /-- All is done but the commit of the job and the key inserted. -/
  | ready (answer : JobRecord × Bool) (row : Option JobRow) (key : Option IdempotencyKey)
  | done (result : Except JobError (JobRecord × Bool))
  /-- Rolled back by the database, or refused: its class has no budget. -/
  | aborted

structure EnqueueCall where
  request : EnqueueRequest
  /-- The ids the database gives its key and its job. -/
  keyId : Uuid
  jobId : Uuid
  stage : EnqueueStage

/-- The committed tables, and the calls. -/
structure EnqueueWorld where
  db : JobDb
  calls : List EnqueueCall

/-- What the unique constraint is on. -/
def IdempotencyKey.name (k : IdempotencyKey) : String × String := (k.scope, k.key)

/-- `k` is the scoped key the request asks for. -/
def EnqueueRequest.Names (r : EnqueueRequest) (k : IdempotencyKey) : Prop :=
  r.idempotencyKey = some k.key ∧ k.scope = idempotencyScope r.actor r.kind r.notebookId

instance {r : EnqueueRequest} {k} : Decidable (r.Names k) := inferInstanceAs (Decidable (_ ∧ _))

namespace EnqueueCall

/-- The key its INSERT writes. -/
def own (h : Hashing) (c : EnqueueCall) (key : String) : IdempotencyKey :=
  ⟨c.keyId, idempotencyScope c.request.actor c.request.kind c.request.notebookId, key, c.request.requestHash h⟩

/-- The key it has inserted and not committed. -/
def pending (c : EnqueueCall) : Option IdempotencyKey :=
  match c.stage with
  | .keyed _ _ k | .inserting _ _ k | .ready _ _ k => k
  | _ => none

/-- It has returned or raised. -/
def finished (c : EnqueueCall) : Bool :=
  match c.stage with
  | .done _ | .aborted => true
  | _ => false

/-- The next statement of a call, on the committed tables, with the keys that the
other transactions hold uncommitted; the COMMIT is not among them. -/
inductive Next (h : Hashing) (policy : CapacityPolicy) (db : JobDb) (held : List IdempotencyKey) (c : EnqueueCall) :
    EnqueueStage → Prop
  | build {budget job} : c.stage = .waiting → policy.budget c.request.capacityClass = .ok budget →
      c.request.Builds h job → Next h policy db held c (.built job)
  | refuse {e} : c.stage = .waiting → policy.budget c.request.capacityClass = .error e →
      Next h policy db held c .aborted
  | keyless {job} : c.stage = .built job → c.request.idempotencyKey = none →
      Next h policy db held c (.inserting job none none)
  /-- `INSERT ... ON CONFLICT DO NOTHING RETURNING id`, of a name that is free. -/
  | insertKey {job key} : c.stage = .built job → c.request.idempotencyKey = some key →
      (c.own h key).name ∉ (db.idempotencyKeys ++ held).map (·.name) →
      c.keyId ∉ db.idempotencyKeys.map (·.id) → Next h policy db held c (.keyed job c.keyId (some (c.own h key)))
  /-- The same, of a name that is committed. While it is held, the INSERT waits. -/
  | keyTaken {job key} : c.stage = .built job → c.request.idempotencyKey = some key →
      (c.own h key).name ∈ db.idempotencyKeys.map (·.name) → Next h policy db held c (.taken job)
  | readKey {job key k} : c.stage = .taken job → c.request.idempotencyKey = some key →
      (db.idempotencyKeys.find? fun k => k.scope = (c.own h key).scope && k.key = key) = some k →
      k.requestHash = c.request.requestHash h → Next h policy db held c (.keyed job k.id none)
  | conflict {job key k} : c.stage = .taken job → c.request.idempotencyKey = some key →
      (db.idempotencyKeys.find? fun k => k.scope = (c.own h key).scope && k.key = key) = some k →
      k.requestHash ≠ c.request.requestHash h →
      Next h policy db held c (.done (.error (.idempotencyConflict key (c.own h key).scope)))
  | reuse {job keyId k row} : c.stage = .keyed job keyId k → jobForKey keyId db = some row →
      Next h policy db held c (.ready (row.record, false) none k)
  | new {job keyId k} : c.stage = .keyed job keyId k → jobForKey keyId db = none →
      Next h policy db held c (.inserting job (some keyId) k)
  | insertJob {job keyId k} (now : Time) : c.stage = .inserting job keyId k → db.job? c.jobId = none →
      Next h policy db held c
        (.ready ((newRow now c.jobId job keyId).record, true) (some (newRow now c.jobId job keyId)) k)

end EnqueueCall

namespace EnqueueWorld

/-- The keys held uncommitted. -/
def held (calls : List EnqueueCall) : List IdempotencyKey := calls.filterMap (·.pending)

/-- One statement of one call. -/
inductive Step (h : Hashing) (policy : CapacityPolicy) : EnqueueWorld → EnqueueWorld → Prop
  | statement {db stage} (pre : List EnqueueCall) (c : EnqueueCall) (post : List EnqueueCall) :
      c.Next h policy db (held (pre ++ post)) stage →
      Step h policy ⟨db, pre ++ c :: post⟩ ⟨db, pre ++ { c with stage } :: post⟩
  | commit {db answer row k} (pre : List EnqueueCall) (c : EnqueueCall) (post : List EnqueueCall) :
      c.stage = .ready answer row k →
      Step h policy ⟨db, pre ++ c :: post⟩
        ⟨{ db with jobs := db.jobs ++ row.toList, idempotencyKeys := db.idempotencyKeys ++ k.toList },
          pre ++ { c with stage := .done (.ok answer) } :: post⟩

/-- The database rolls a transaction back. -/
inductive Abort : EnqueueWorld → EnqueueWorld → Prop
  | abort {db} (pre : List EnqueueCall) (c : EnqueueCall) (post : List EnqueueCall) : c.finished = false →
      Abort ⟨db, pre ++ c :: post⟩ ⟨db, pre ++ { c with stage := .aborted } :: post⟩

/-- Empty tables, every call yet to come; the database gives distinct ids. -/
structure Start (s : EnqueueWorld) : Prop where
  db : s.db = {}
  waiting : ∀ c ∈ s.calls, c.stage = .waiting
  keyIds : (s.calls.map (·.keyId)).Nodup
  jobIds : (s.calls.map (·.jobId)).Nodup

abbrev Reach (h : Hashing) (policy : CapacityPolicy) : EnqueueWorld → Prop :=
  Interleave.Reach Start fun s s' => Step h policy s s' ∨ Abort s s'

end EnqueueWorld

/-! ## The scope -/

/-- The notebook part of a scope. -/
def scopeResource (notebookId : Option Uuid) : String :=
  match notebookId with
  | some id => id.str
  | none => "*"

theorem colon_notMem_scopeResource (n : Option Uuid) : ':' ∉ (scopeResource n).toList := by
  cases n with
  | none => decide
  | some id => exact Uuid.colon_notMem_str id

theorem scopeResource_inj {n n' : Option Uuid} (h : scopeResource n = scopeResource n') : n = n' := by
  cases n <;> cases n'
  · rfl
  · exact absurd h.symm (Uuid.star_ne_str _)
  · exact absurd h (Uuid.star_ne_str _)
  · rw [Uuid.str_inj h]

/-- **The scope tells kind, user and notebook apart**, whatever the kind's text is. -/
theorem idempotencyScope_inj {a a' : InitiatingActor} {kind kind' n n'}
    (h : idempotencyScope a kind n = idempotencyScope a' kind' n') :
    kind = kind' ∧ a.userId = a'.userId ∧ n = n' := by
  have h := congrArg String.toList h
  change ("job:" ++ kind ++ ":" ++ a.userId.str ++ ":" ++ scopeResource n).toList
    = ("job:" ++ kind' ++ ":" ++ a'.userId.str ++ ":" ++ scopeResource n').toList at h
  have hc : (":" : String).toList = [':'] := rfl
  have h₁ : (kind.toList ++ ':' :: a.userId.str.toList) ++ ':' :: (scopeResource n).toList
      = (kind'.toList ++ ':' :: a'.userId.str.toList) ++ ':' :: (scopeResource n').toList := by
    simpa only [String.toList_append, List.append_assoc, hc, List.append_cancel_left_eq, List.cons_append,
      List.nil_append] using h
  obtain ⟨h₂, hn⟩ := append_colon_inj (colon_notMem_scopeResource n) (colon_notMem_scopeResource n') h₁
  obtain ⟨hk, hu⟩ := append_colon_inj (Uuid.colon_notMem_str _) (Uuid.colon_notMem_str _) h₂
  exact ⟨String.toList_injective hk, Uuid.str_inj (String.toList_injective hu), scopeResource_inj (String.toList_injective hn)⟩

/-! ## One call alone -/

section Alone

variable {h : Hashing} {policy : CapacityPolicy} {db db' : JobDb} {pre post : List EnqueueCall} {c : EnqueueCall}
  {job : JobRecord}

/-- The INSERT of the job and the COMMIT. -/
theorem EnqueueWorld.Reach.insert {keyId k row} (now : Time) (hr : EnqueueWorld.Reach h policy ⟨db, pre ++ c :: post⟩)
    (hst : c.stage = .inserting job keyId k)
    (hins : insertJob now c.jobId job keyId { db with idempotencyKeys := db.idempotencyKeys ++ k.toList } = .ok (row, db')) :
    EnqueueWorld.Reach h policy ⟨db', pre ++ { c with stage := .done (.ok (row.record, true)) } :: post⟩ := by
  unfold insertJob at hins
  split at hins
  · cases hins
  next hn =>
    cases hins
    have hr := hr.next (.inl (.statement pre c post (.insertJob now hst (Option.not_isSome_iff_eq_none.1 hn))))
    have hr := hr.next (.inl (.commit pre _ post rfl))
    exact hr

/-- The statements after the key is claimed. -/
theorem EnqueueWorld.Reach.keyed {keyId k r} (hr : EnqueueWorld.Reach h policy ⟨db, pre ++ c :: post⟩)
    (hst : c.stage = .keyed job keyId k) (now : Time)
    (he : (match jobForKey keyId db with
      | some row => (jobFromRow row).bind fun job => .ok ((job, false), { db with idempotencyKeys := db.idempotencyKeys ++ k.toList })
      | none => (insertJob now c.jobId job (some keyId) { db with idempotencyKeys := db.idempotencyKeys ++ k.toList }).bind
          fun p => (jobFromRow p.1).bind fun job => .ok ((job, true), p.2)) = .ok (r, db')) :
    EnqueueWorld.Reach h policy ⟨db', pre ++ { c with stage := .done (.ok r) } :: post⟩ := by
  split at he
  next row hrow =>
    simp only [JobRow.jobFromRow_eq, Except.bind] at he
    cases he
    have hr := hr.next (.inl (.statement pre c post (.reuse hst hrow)))
    have hr := hr.next (.inl (.commit pre _ post rfl))
    simpa using hr
  next hnone =>
    rcases hins : insertJob now c.jobId job (some keyId)
      { db with idempotencyKeys := db.idempotencyKeys ++ k.toList } with e | ⟨row, db₁⟩
    · rw [hins] at he; cases he
    · rw [hins] at he
      simp only [Except.bind, JobRow.jobFromRow_eq] at he
      cases he
      refine EnqueueWorld.Reach.insert (c := { c with stage := .inserting job (some keyId) k }) now
        (hr.next (.inl (.statement pre c post (.new hst hnone)))) rfl hins

/-- The statements of one call, with no other transaction open, are `enqueue`. -/
theorem EnqueueWorld.Reach.enqueue_alone {env r} (hr : EnqueueWorld.Reach h policy ⟨db, pre ++ c :: post⟩)
    (hbuilt : c.stage = .built job) (hheld : EnqueueWorld.held (pre ++ post) = []) (hkey : env.newKeyId = c.keyId)
    (hjob : env.newJobId = c.jobId)
    (he : enqueue env job (c.request.requestHash h) c.request.scope c.request.idempotencyKey db = .ok (r, db')) :
    EnqueueWorld.Reach h policy ⟨db', pre ++ { c with stage := .done (.ok r) } :: post⟩ := by
  simp only [PgJobRepository.enqueue, Except.bind_ok_iff, pure, Except.pure, Prod.exists, hjob] at he
  obtain ⟨keyId, db₁, hclaim, he⟩ := he
  rcases hk : c.request.idempotencyKey with _ | key
  · simp only [claimIdempotency, EnqueueRequest.scope, hk, Option.map_none, Except.ok.injEq, Prod.mk.injEq] at hclaim
    obtain ⟨rfl, rfl⟩ := hclaim
    simp only [Option.bind_none, Except.bind_ok_iff, Prod.exists, JobRow.jobFromRow_eq, Except.ok.injEq,
      exists_eq_left'] at he
    obtain ⟨row, db₂, hins, he⟩ := he
    cases he
    refine EnqueueWorld.Reach.insert (c := { c with stage := .inserting job none none }) env.now
      (hr.next (.inl (.statement pre c post (.keyless hbuilt hk)))) rfl ?_
    simpa using hins
  simp only [claimIdempotency, EnqueueRequest.scope, hk, Option.map_some] at hclaim
  split at hclaim
  next hfree =>
    simp only [insertKey, Except.bind_ok_iff, pure, Except.pure, hkey] at hclaim
    obtain ⟨_, hins, hclaim⟩ := hclaim
    split at hins
    · cases hins
    next hid =>
    cases hins
    cases hclaim
    have hr := hr.next (.inl (.statement pre c post (.insertKey hbuilt hk (by
      rw [hheld, List.append_nil]
      simp only [List.find?_eq_none, Bool.and_eq_true, decide_eq_true_eq, not_and] at hfree
      simp only [List.mem_map, not_exists, not_and, IdempotencyKey.name, EnqueueCall.own, Prod.mk.injEq]
      exact fun k hmem hs => hfree k hmem hs) (by simpa using hid))))
    exact EnqueueWorld.Reach.keyed (c := { c with stage := .keyed job c.keyId (some (c.own h key)) }) hr rfl env.now he
  next existing hfound =>
    split at hclaim
    · cases hclaim
    next hhash =>
    cases hclaim
    have htaken : (c.own h key).name ∈ db.idempotencyKeys.map (·.name) := by
      have hs := List.find?_some hfound
      simp only [Bool.and_eq_true, decide_eq_true_eq] at hs
      exact List.mem_map.2 ⟨existing, List.mem_of_find?_eq_some hfound, Prod.ext hs.1 hs.2⟩
    have hr := hr.next (.inl (.statement pre c post (.keyTaken hbuilt hk htaken)))
    have hr := hr.next (.inl (.statement pre _ post (.readKey rfl hk hfound (by simpa using hhash))))
    refine EnqueueWorld.Reach.keyed (c := { c with stage := .keyed job existing.id none }) hr rfl env.now ?_
    simp only [Option.toList_none, List.append_nil]
    exact he

end Alone

/-! ## The invariant -/

/-- `k` is committed, and `row` is the one job that has it. -/
def JobDb.Linked (db : JobDb) (k : IdempotencyKey) (row : JobRow) : Prop :=
  k ∈ db.idempotencyKeys ∧ (db.jobs.filter fun r => sqlEq r.idempotencyKeyId (some k.id)) = [row]

/-- The key and the key id that the job of a call is inserted with. -/
def EnqueueCall.Inserts (h : Hashing) (c : EnqueueCall) (keyId : Option Uuid) (k : Option IdempotencyKey) : Prop :=
  keyId = k.map (·.id) ∧ k = c.request.idempotencyKey.map (c.own h)

theorem EnqueueCall.Inserts.own_id {h c id k} (hi : EnqueueCall.Inserts h c (some id) k) : id = c.keyId := by
  obtain ⟨hid, rfl⟩ := hi
  obtain ⟨k, hk, rfl⟩ := Option.map_eq_some_iff.1 hid.symm
  obtain ⟨key, -, rfl⟩ := Option.map_eq_some_iff.1 hk
  rfl

/-- What is true of a call in each of its stages. -/
def EnqueueCall.Holds (h : Hashing) (db : JobDb) (c : EnqueueCall) : Prop :=
  match c.stage with
  | .waiting | .built _ | .aborted => True
  | .taken _ => ∃ k ∈ db.idempotencyKeys, c.request.Names k
  | .keyed _ keyId k => c.Inserts h (some keyId) k ∨
      k = none ∧ ∃ k' ∈ db.idempotencyKeys, keyId = k'.id ∧ c.request.Names k' ∧ k'.requestHash = c.request.requestHash h
  | .inserting _ keyId k => c.Inserts h keyId k
  | .ready answer row k =>
    (∃ r, row = some r ∧ answer = (r.record, true) ∧ r.id = c.jobId ∧ c.Inserts h r.idempotencyKeyId k) ∨
      row = none ∧ k = none ∧ ∃ k' r, db.Linked k' r ∧ c.request.Names k' ∧ k'.requestHash = c.request.requestHash h ∧
        answer = (r.record, false)
  | .done (.ok (job, true)) => ∀ key, c.request.idempotencyKey = some key →
      ∃ row, db.Linked (c.own h key) row ∧ job = row.record
  | .done (.ok (job, false)) => ∃ k row, db.Linked k row ∧ c.request.Names k ∧ k.requestHash = c.request.requestHash h ∧
      job = row.record
  | .done (.error e) => ∃ k ∈ db.idempotencyKeys, c.request.Names k ∧ k.requestHash ≠ c.request.requestHash h ∧
      e = .idempotencyConflict k.key k.scope

namespace EnqueueWorld

structure Sound (h : Hashing) (s : EnqueueWorld) : Prop where
  keyIds : (s.calls.map (·.keyId)).Nodup
  jobIds : (s.calls.map (·.jobId)).Nodup
  /-- No name is committed or held twice. -/
  names : ((s.db.idempotencyKeys ++ held s.calls).map (·.name)).Nodup
  /-- A key committed is some call's own, and its job is what that call created. -/
  made : ∀ k ∈ s.db.idempotencyKeys, ∃ c ∈ s.calls, ∃ row, c.stage = .done (.ok (row.record, true)) ∧
    c.request.idempotencyKey = some k.key ∧ k = c.own h k.key ∧ s.db.Linked k row
  linked : ∀ row ∈ s.db.jobs, ∀ id, row.idempotencyKeyId = some id → ∃ k ∈ s.db.idempotencyKeys, k.id = id
  rows : ∀ row ∈ s.db.jobs, ∃ c ∈ s.calls, c.jobId = row.id ∧ c.stage = .done (.ok (row.record, true))
  holds : ∀ c ∈ s.calls, c.Holds h s.db

section Sound

variable {h : Hashing} {policy : CapacityPolicy} {db db' : JobDb} {pre post : List EnqueueCall} {c : EnqueueCall}
  {stage : EnqueueStage} {s s' : EnqueueWorld}

theorem jobForKey_linked {k row} (hl : db.Linked k row) : jobForKey k.id db = some row := by
  have := List.head?_filter (p := fun r : JobRow => sqlEq r.idempotencyKeyId (some k.id)) (l := db.jobs)
  rw [hl.2] at this
  exact this.symm

/-- A commit of rows with other keys leaves a key its job. -/
theorem linked_append {rows keys k row} (hl : db.Linked k row) (hrows : ∀ r ∈ rows, r.idempotencyKeyId ≠ some k.id) :
    JobDb.Linked { db with jobs := db.jobs ++ rows, idempotencyKeys := db.idempotencyKeys ++ keys } k row := by
  refine ⟨List.mem_append_left _ hl.1, ?_⟩
  have hnone : (rows.filter fun r => sqlEq r.idempotencyKeyId (some k.id)) = [] :=
    List.filter_eq_nil_iff.2 fun r hr => by simp [sqlEq, hrows r hr]
  rw [List.filter_append, hl.2, hnone]; rfl

/-- What is true of a call stays true at other calls' commits. -/
theorem holds_append {rows keys} (hc : c.Holds h db)
    (hrows : ∀ k ∈ db.idempotencyKeys, ∀ r ∈ rows, r.idempotencyKeyId ≠ some k.id) :
    c.Holds h { db with jobs := db.jobs ++ rows, idempotencyKeys := db.idempotencyKeys ++ keys } := by
  have hl : ∀ {k row}, db.Linked k row → JobDb.Linked { db with
      jobs := db.jobs ++ rows, idempotencyKeys := db.idempotencyKeys ++ keys } k row := fun hl =>
    linked_append hl (hrows _ hl.1)
  unfold EnqueueCall.Holds at hc ⊢
  split at hc
  · trivial
  · trivial
  · trivial
  next =>
    obtain ⟨k, hk, hn⟩ := hc
    exact ⟨k, List.mem_append_left _ hk, hn⟩
  next =>
    refine hc.imp_right ?_
    rintro ⟨hnone, k, hk, hrest⟩
    exact ⟨hnone, k, List.mem_append_left _ hk, hrest⟩
  next => exact hc
  next =>
    refine hc.imp_right ?_
    rintro ⟨hrow, hk, k', r, hkr, hrest⟩
    exact ⟨hrow, hk, k', r, hl hkr, hrest⟩
  next =>
    intro key hkey
    obtain ⟨row, hkr, hrow⟩ := hc key hkey
    exact ⟨row, hl hkr, hrow⟩
  next =>
    obtain ⟨k, row, hkr, hrest⟩ := hc
    exact ⟨k, row, hl hkr, hrest⟩
  next =>
    obtain ⟨k, hk, hrest⟩ := hc
    exact ⟨k, List.mem_append_left _ hk, hrest⟩

theorem mem_replace {c₀ c' : EnqueueCall} (hmem : c₀ ∈ pre ++ c :: post) (hne : c₀ ≠ c) : c₀ ∈ pre ++ c' :: post := by
  simp only [List.mem_append, List.mem_cons] at hmem ⊢
  exact hmem.imp_right fun h => .inr (h.resolve_left hne)

theorem held_append (pre post : List EnqueueCall) (c : EnqueueCall) :
    (held (pre ++ c :: post)).Perm (c.pending.toList ++ held (pre ++ post)) := by
  have hc : held (pre ++ c :: post) = held pre ++ (c.pending.toList ++ held post) := by
    cases hp : c.pending <;> simp [held, hp]
  have hsplit : held (pre ++ post) = held pre ++ held post := List.filterMap_append
  rw [hc, hsplit]
  exact List.perm_append_comm_assoc ..

/-- No key committed has the id of a call that has committed none. -/
theorem Sound.own_free (hs : s.Sound h) (hc : c ∈ s.calls) (hopen : ∀ res, c.stage ≠ .done (.ok res))
    {k} (hk : k ∈ s.db.idempotencyKeys) : k.id ≠ c.keyId := by
  intro hid
  obtain ⟨c₀, hc₀, row, hst, -, hown, -⟩ := hs.made k hk
  have hkey : c₀.keyId = c.keyId := by rw [← hid, hown]; rfl
  obtain rfl := List.inj_on_of_nodup_map hs.keyIds hc₀ hc hkey
  exact hopen _ hst

theorem Sound.row_free (hs : s.Sound h) (hc : c ∈ s.calls) (hopen : ∀ res, c.stage ≠ .done (.ok res))
    {row} (hrow : row ∈ s.db.jobs) : row.idempotencyKeyId ≠ some c.keyId := by
  intro hid
  obtain ⟨k, hk, hkid⟩ := hs.linked row hrow _ hid
  exact hs.own_free hc hopen hk hkid

/-- A call that moves on, the tables left as they are. -/
theorem Sound.replace (hs : Sound h ⟨db, pre ++ c :: post⟩) (hopen : ∀ res, c.stage ≠ .done (.ok res))
    (hholds : EnqueueCall.Holds h db { c with stage })
    (hnames : ((db.idempotencyKeys ++ held (pre ++ { c with stage } :: post)).map (·.name)).Nodup) :
    Sound h ⟨db, pre ++ { c with stage } :: post⟩ where
  keyIds := by simpa using hs.keyIds
  jobIds := by simpa using hs.jobIds
  names := hnames
  made k hk := by
    obtain ⟨c₀, hc₀, row, hst, hrest⟩ := hs.made k hk
    exact ⟨c₀, mem_replace hc₀ (by rintro rfl; exact hopen _ hst), row, hst, hrest⟩
  linked := hs.linked
  rows row hrow := by
    obtain ⟨c₀, hc₀, hid, hst⟩ := hs.rows row hrow
    exact ⟨c₀, mem_replace hc₀ (by rintro rfl; exact hopen _ hst), hid, hst⟩
  holds c₀ hc₀ := by
    by_cases he : c₀ = { c with stage }
    · rw [he]; exact hholds
    · exact hs.holds c₀ (mem_replace hc₀ he)

/-- Names stay apart when a call holds what it held, or nothing. -/
theorem Sound.names_replace (hs : Sound h ⟨db, pre ++ c :: post⟩) {c' : EnqueueCall}
    (hp : c'.pending = c.pending ∨ c'.pending = none) :
    ((db.idempotencyKeys ++ held (pre ++ c' :: post)).map (·.name)).Nodup := by
  have hperm := fun c : EnqueueCall => ((held_append pre post c).append_left db.idempotencyKeys).map (·.name)
  refine (hperm c').nodup_iff.2 (((hperm c).nodup_iff.1 hs.names).sublist ?_)
  refine List.Sublist.map _ (List.Sublist.append_left (List.Sublist.append_right ?_ _) _)
  rcases hp with hp | hp <;> simp [hp]

theorem Sound.abort (hs : Sound h ⟨db, pre ++ c :: post⟩) (hopen : c.finished = false) :
    Sound h ⟨db, pre ++ { c with stage := .aborted } :: post⟩ :=
  hs.replace (fun res hst => by simp [EnqueueCall.finished, hst] at hopen) trivial (hs.names_replace (.inr rfl))

/-- A statement that is no COMMIT. -/
theorem Sound.statement (hs : Sound h ⟨db, pre ++ c :: post⟩) (hn : c.Next h policy db (held (pre ++ post)) stage) :
    Sound h ⟨db, pre ++ { c with stage } :: post⟩ := by
  have hc : c ∈ pre ++ c :: post := by simp
  have hold := hs.holds c hc
  have hopen : ∀ res, c.stage ≠ .done (.ok res) := by
    intro res hst
    cases hn <;> simp_all
  unfold EnqueueCall.Holds at hold
  cases hn with
  | build | refuse => exact hs.replace hopen trivial (hs.names_replace (.inr rfl))
  | keyless _ hkey => exact hs.replace hopen ⟨rfl, by simp [hkey]⟩ (hs.names_replace (.inr rfl))
  | @insertKey job key hst hkey hfree =>
    refine hs.replace hopen (.inl ⟨rfl, by simp [EnqueueCall.own, hkey]⟩) ?_
    have hperm := (held_append pre post { c with stage := .keyed job c.keyId (some (c.own h key)) }).append_left
      db.idempotencyKeys
    refine ((hperm.trans List.perm_middle).map _).nodup_iff.2 (List.nodup_cons.2 ⟨hfree, ?_⟩)
    have hnames := hs.names
    rw [(((held_append pre post c).append_left db.idempotencyKeys).map _).nodup_iff] at hnames
    simpa [EnqueueCall.pending, hst] using hnames
  | @keyTaken job key hst hkey htaken =>
    obtain ⟨k, hk, hname⟩ := List.mem_map.1 htaken
    have hname := Prod.mk.inj hname
    exact hs.replace hopen ⟨k, hk, by rw [hkey, hname.2]; rfl, hname.1⟩ (hs.names_replace (.inr rfl))
  | @readKey job key k hst hkey hfind hhash =>
    have hname := List.find?_some hfind
    simp only [Bool.and_eq_true, decide_eq_true_eq] at hname
    refine hs.replace hopen (.inr ⟨rfl, k, List.mem_of_find?_eq_some hfind, rfl, ⟨?_, hname.1⟩, hhash⟩)
      (hs.names_replace (.inr rfl))
    rw [hname.2]; exact hkey
  | @conflict job key k hst hkey hfind hhash =>
    have hname := List.find?_some hfind
    simp only [Bool.and_eq_true, decide_eq_true_eq] at hname
    refine hs.replace hopen ⟨k, List.mem_of_find?_eq_some hfind, ⟨?_, hname.1⟩, hhash, ?_⟩
      (hs.names_replace (.inr rfl))
    · rw [hname.2]; exact hkey
    · rw [hname.1, hname.2]
  | @reuse job keyId k row hst hrow =>
    simp only [hst] at hold
    refine hs.replace hopen (.inr ?_) (hs.names_replace (.inl (by simp [EnqueueCall.pending, hst])))
    rcases hold with hins | ⟨rfl, k', hk', rfl, hrest⟩
    · -- its own key is not committed, so no job has it
      have hkey := List.find?_some hrow
      simp only [sqlEq, Bool.and_eq_true, decide_eq_true_eq] at hkey
      exact absurd (hkey.2.trans (congrArg some hins.own_id)) (hs.row_free hc hopen (List.mem_of_find?_eq_some hrow))
    · obtain ⟨_, _, row', _, _, _, hl⟩ := hs.made k' hk'
      obtain rfl := Option.some.inj ((jobForKey_linked hl).symm.trans hrow)
      exact ⟨rfl, rfl, k', row', hl, hrest.1, hrest.2, rfl⟩
  | @new job keyId k hst hnone =>
    simp only [hst] at hold
    refine hs.replace hopen ?_ (hs.names_replace (.inl (by simp [EnqueueCall.pending, hst])))
    rcases hold with hins | ⟨rfl, k', hk', rfl, hrest⟩
    · exact hins
    · obtain ⟨_, _, row', _, _, _, hl⟩ := hs.made k' hk'
      rw [jobForKey_linked hl] at hnone; cases hnone
  | @insertJob job keyId k now hst hfree =>
    simp only [hst] at hold
    exact hs.replace hopen (.inl ⟨_, rfl, rfl, rfl, hold⟩) (hs.names_replace (.inl (by simp [EnqueueCall.pending, hst])))

/-- The COMMIT of a job that is new, and of its key. -/
theorem Sound.commit_new {row k} (hs : Sound h ⟨db, pre ++ c :: post⟩) (hst : c.stage = .ready (row.record, true) (some row) k)
    (hid : row.id = c.jobId) (hins : c.Inserts h row.idempotencyKeyId k) :
    Sound h ⟨{ db with jobs := db.jobs ++ [row], idempotencyKeys := db.idempotencyKeys ++ k.toList },
      pre ++ { c with stage := .done (.ok (row.record, true)) } :: post⟩ := by
  have hc : c ∈ pre ++ c :: post := by simp
  have hopen : ∀ res, c.stage ≠ .done (.ok res) := fun res h => by rw [hst] at h; cases h
  have hother : ∀ k' ∈ db.idempotencyKeys, ∀ r ∈ [row], r.idempotencyKeyId ≠ some k'.id := by
    intro k' hk' r hr hkid
    rw [List.mem_singleton.1 hr] at hkid
    exact hs.own_free hc hopen hk' (EnqueueCall.Inserts.own_id (hkid ▸ hins))
  -- no job had the key before
  have hown : ∀ k', k = some k' → JobDb.Linked { db with
      jobs := db.jobs ++ [row], idempotencyKeys := db.idempotencyKeys ++ k.toList } k' row := by
    rintro k' rfl
    have hkid : row.idempotencyKeyId = some k'.id := hins.1
    refine ⟨List.mem_append_right _ (by simp), ?_⟩
    have hnone : (db.jobs.filter fun r => sqlEq r.idempotencyKeyId (some k'.id)) = [] := by
      refine List.filter_eq_nil_iff.2 fun r hr => ?_
      have := hs.row_free hc hopen hr
      rw [← EnqueueCall.Inserts.own_id (hkid ▸ hins)] at this
      simp [sqlEq, this]
    rw [List.filter_append, hnone]
    simp [sqlEq, hkid]
  refine ⟨by simpa using hs.keyIds, by simpa using hs.jobIds, ?_, fun k' hk' => ?_, fun r hr id hkid => ?_,
    fun r hr => ?_, fun c₀ hc₀ => ?_⟩
  · have hnames := hs.names
    rw [(((held_append pre post c).append_left db.idempotencyKeys).map _).nodup_iff] at hnames
    refine (((held_append pre post _).append_left _).map _).nodup_iff.2 ?_
    simpa [EnqueueCall.pending, hst] using hnames
  · rcases List.mem_append.1 hk' with hk' | hk'
    · obtain ⟨c₀, hc₀, row₀, hst₀, hkey, hk, hl⟩ := hs.made k' hk'
      exact ⟨c₀, mem_replace hc₀ (by rintro rfl; exact hopen _ hst₀), row₀, hst₀, hkey, hk,
        linked_append hl (hother k' hk')⟩
    · obtain rfl : k = some k' := by simpa using hk'
      obtain ⟨key, hkey, rfl⟩ := Option.map_eq_some_iff.1 hins.2.symm
      exact ⟨_, List.mem_append_right _ List.mem_cons_self, row, rfl, hkey, rfl, hown _ rfl⟩
  · rcases List.mem_append.1 hr with hr | hr
    · obtain ⟨k', hk', hid'⟩ := hs.linked r hr id hkid
      exact ⟨k', List.mem_append_left _ hk', hid'⟩
    · rw [List.mem_singleton.1 hr] at hkid
      obtain ⟨k', rfl, hid'⟩ := Option.map_eq_some_iff.1 (hins.1.symm.trans hkid)
      exact ⟨k', List.mem_append_right _ (by simp), hid'⟩
  · rcases List.mem_append.1 hr with hr | hr
    · obtain ⟨c₀, hc₀, hid', hst₀⟩ := hs.rows r hr
      exact ⟨c₀, mem_replace hc₀ (by rintro rfl; exact hopen _ hst₀), hid', hst₀⟩
    · obtain rfl := List.mem_singleton.1 hr
      exact ⟨_, List.mem_append_right _ List.mem_cons_self, hid.symm, rfl⟩
  · by_cases he : c₀ = { c with stage := .done (.ok (row.record, true)) }
    · subst he
      intro key hkey
      exact ⟨row, hown _ (by rw [hins.2, show c.request.idempotencyKey = some key from hkey]; rfl), rfl⟩
    · exact holds_append (hs.holds c₀ (mem_replace hc₀ he)) hother

/-- What one step keeps. -/
theorem Sound.step (hs : s.Sound h) (hst : Step h policy s s' ∨ Abort s s') : s'.Sound h := by
  rcases hst with hst | hst
  · cases hst with
    | statement pre c post hn => exact hs.statement hn
    | @commit db answer row k pre c post hready =>
      have hold := hs.holds c (by simp)
      simp only [EnqueueCall.Holds, hready] at hold
      rcases hold with ⟨r, rfl, rfl, hid, hins⟩ | ⟨rfl, rfl, k', r, hl, hn, hhash, rfl⟩
      · exact hs.commit_new hready hid hins
      · have : Sound h ⟨_, pre ++ { c with stage := .done (.ok (r.record, false)) } :: post⟩ :=
          hs.replace (fun res h => by rw [hready] at h; cases h) ⟨k', r, hl, hn, hhash, rfl⟩ (hs.names_replace (.inr rfl))
        simpa using this
  · cases hst with
    | abort pre c post hopen => exact hs.abort hopen

theorem Reach.sound (hr : Reach h policy s) : s.Sound h := by
  refine Interleave.Reach.invariant (I := fun s => s.Sound h) (fun s h0 => ?_) (fun _ _ _ hi hst => hi.step hst) hr
  have hheld : held s.calls = [] := List.filterMap_eq_nil_iff.2 fun c hc => by
    rw [EnqueueCall.pending, h0.waiting c hc]
  refine ⟨h0.keyIds, h0.jobIds, ?_, ?_, ?_, ?_, fun c hc => ?_⟩
  · simp [h0.db, hheld]
  · simp [h0.db]
  · simp [h0.db]
  · simp [h0.db]
  · rw [EnqueueCall.Holds, h0.waiting c hc]; trivial

/-! ## Progress -/

/-- How many statements a call has left at most. -/
def remaining (s : EnqueueWorld) : Nat :=
  (s.calls.map fun c => match c.stage with
    | .waiting => 6
    | .built _ => 5
    | .taken _ => 4
    | .keyed .. => 3
    | .inserting .. => 2
    | .ready .. => 1
    | .done _ | .aborted => 0).sum

theorem remaining_lt (hst : Step h policy s s' ∨ Abort s s') : s'.remaining < s.remaining := by
  rcases hst with hst | hst
  · cases hst with
    | statement pre c post hn => cases hn <;> simp_all [remaining]
    | commit pre c post hready => simp [remaining, hready]
  · cases hst with
    | abort pre c post hopen =>
      simp only [remaining, List.map_append, List.map_cons, List.sum_append, List.sum_cons]
      rcases hc : c.stage <;> simp_all [EnqueueCall.finished]

/-- A call whose key, if any, no other holds has a next statement. -/
theorem Sound.next (hs : Sound h ⟨db, pre ++ c :: post⟩) (hopen : c.finished = false)
    (hheld : (∃ job, c.stage = .built job) → held (pre ++ post) = []) :
    ∃ s', Step h policy ⟨db, pre ++ c :: post⟩ s' := by
  have hc : c ∈ pre ++ c :: post := by simp
  have hnot : ∀ res, c.stage ≠ .done (.ok res) := fun res hst => by simp [EnqueueCall.finished, hst] at hopen
  have hold := hs.holds c hc
  unfold EnqueueCall.Holds at hold
  rcases hst : c.stage with _ | job | job | ⟨job, keyId, k⟩ | ⟨job, keyId, k⟩ | ⟨answer, row, k⟩ | res | _
  · rcases hb : policy.budget c.request.capacityClass with e | budget
    · exact ⟨_, .statement pre c post (.refuse hst hb)⟩
    · exact ⟨_, .statement pre c post (.build hst hb ⟨0, .inl rfl⟩)⟩
  · rcases hkey : c.request.idempotencyKey with _ | key
    · exact ⟨_, .statement pre c post (.keyless hst hkey)⟩
    · by_cases htaken : (c.own h key).name ∈ db.idempotencyKeys.map (·.name)
      · exact ⟨_, .statement pre c post (.keyTaken hst hkey htaken)⟩
      · refine ⟨_, .statement pre c post (.insertKey hst hkey ?_ fun hid => ?_)⟩
        · rwa [hheld ⟨job, hst⟩, List.append_nil]
        · obtain ⟨k, hk, hid⟩ := List.mem_map.1 hid
          exact hs.own_free hc hnot hk hid
  · simp only [hst] at hold
    obtain ⟨k, hk, hkey, hscope⟩ := hold
    rcases hfind : db.idempotencyKeys.find? fun k' => k'.scope = (c.own h k.key).scope && k'.key = k.key with _ | k'
    · have := List.find?_eq_none.1 hfind k hk
      simp [EnqueueCall.own, hscope] at this
    · by_cases hhash : k'.requestHash = c.request.requestHash h
      · exact ⟨_, .statement pre c post (.readKey hst hkey hfind hhash)⟩
      · exact ⟨_, .statement pre c post (.conflict hst hkey hfind hhash)⟩
  · rcases hrow : jobForKey keyId db with _ | row
    · exact ⟨_, .statement pre c post (.new hst hrow)⟩
    · exact ⟨_, .statement pre c post (.reuse hst hrow)⟩
  · refine ⟨_, .statement pre c post (.insertJob 0 hst (Table.lookup_none.2 fun r hr hid => ?_))⟩
    obtain ⟨c₀, hc₀, hid₀, hst₀⟩ := hs.rows r hr
    obtain rfl := List.inj_on_of_nodup_map hs.jobIds hc₀ hc (hid₀.trans hid)
    exact hnot _ hst₀
  · exact ⟨_, .commit pre c post hst⟩
  · simp [EnqueueCall.finished, hst] at hopen
  · simp [EnqueueCall.finished, hst] at hopen

/-- While a call has not returned, some call has a next statement. -/
theorem Sound.progress (hs : s.Sound h) (hc : ∃ c ∈ s.calls, c.finished = false) : ∃ s', Step h policy s s' := by
  obtain ⟨db, calls⟩ := s
  by_cases hbusy : ∃ c ∈ calls, c.pending.isSome
  · -- one that holds a key waits for no other
    obtain ⟨c, hmem, hp⟩ := hbusy
    obtain ⟨pre, post, rfl⟩ := List.append_of_mem hmem
    refine hs.next ?_ fun ⟨job, hst⟩ => ?_
    · unfold EnqueueCall.pending at hp
      unfold EnqueueCall.finished
      split at hp <;> simp_all
    · simp [EnqueueCall.pending, hst] at hp
  · obtain ⟨c, hmem, hopen⟩ := hc
    obtain ⟨pre, post, rfl⟩ := List.append_of_mem hmem
    refine hs.next hopen fun _ => List.filterMap_eq_nil_iff.2 fun d hd => ?_
    have : d ∈ pre ++ c :: post := by
      rcases List.mem_append.1 hd with hd | hd <;> simp [hd]
    simpa using fun hp => hbusy ⟨d, this, hp⟩

end Sound

end EnqueueWorld

/-! ## What the calls answer -/

/-- What makes two requests the same. -/
def EnqueueRequest.identity (r : EnqueueRequest) : String × Uuid × Option Uuid × Option String :=
  (r.kind, r.actor.userId, r.notebookId, r.idempotencyKey)

/-- The jobs under the scoped key of a request. -/
def JobDb.jobsOf (db : JobDb) (r : EnqueueRequest) : List JobRow :=
  db.jobs.filter fun row => db.idempotencyKeys.any fun k => r.Names k && sqlEq row.idempotencyKeyId (some k.id)

namespace EnqueueWorld

/-- Enqueue is idempotent, as far as the calls have come. -/
structure Idempotent (h : Hashing) (policy : CapacityPolicy) (s : EnqueueWorld) : Prop where
  one_job : ∀ r, (s.db.jobsOf r).length ≤ 1
  one_creator : ∀ c ∈ s.calls, ∀ c' ∈ s.calls, ∀ job job', c.stage = .done (.ok (job, true)) →
    c'.stage = .done (.ok (job', true)) → c.request.idempotencyKey ≠ none →
    c.request.identity = c'.request.identity → c = c'
  /-- A call with a key that has returned created the job, or answers it, or conflicts with its creator. -/
  answered : ∀ c ∈ s.calls, ∀ res, c.request.idempotencyKey ≠ none → c.stage = .done res →
    ∃ c₀ ∈ s.calls, ∃ row, c₀.request.identity = c.request.identity ∧
      c₀.stage = .done (.ok (row.record, true)) ∧ s.db.jobsOf c.request = [row] ∧ (c ≠ c₀ →
        (c.request.requestHash h = c₀.request.requestHash h → res = .ok (row.record, false)) ∧
        (c.request.requestHash h ≠ c₀.request.requestHash h → ∃ key scope, res = .error (.idempotencyConflict key scope)))
  /-- Only the COMMIT of a call that returns changes the tables. -/
  unchanged : ∀ s', Step h policy s s' ∨ Abort s s' → s'.db = s.db ∨ ∃ pre c post answer,
    s.calls = pre ++ c :: post ∧ s'.calls = pre ++ { c with stage := .done (.ok answer) } :: post
  /-- Every call returns: none waits for ever, and none goes on for ever. -/
  progress : (∃ c ∈ s.calls, c.finished = false) → ∃ s', Step h policy s s'
  terminates : ∀ s', Step h policy s s' ∨ Abort s s' → s'.remaining < s.remaining

section Answers

variable {h : Hashing} {policy : CapacityPolicy} {s : EnqueueWorld} {r r' : EnqueueRequest}

/-- The scope is that of the identity, and of no other. -/
theorem names_iff {k} (hi : r.identity = r'.identity) : r.Names k ↔ r'.Names k := by
  simp only [EnqueueRequest.identity, Prod.mk.injEq] at hi
  obtain ⟨hkind, huser, hn, hkey⟩ := hi
  simp only [EnqueueRequest.Names, idempotencyScope, hkind, huser, hn, hkey]

theorem identity_of_names {k} (hk : r.Names k) (hk' : r'.Names k) : r.identity = r'.identity := by
  obtain ⟨hkind, huser, hn⟩ := idempotencyScope_inj (hk.2.symm.trans hk'.2)
  simp only [EnqueueRequest.identity, hkind, huser, hn, hk.1, hk'.1]

/-- A committed key is the only one of its name. -/
theorem Sound.name_inj (hs : s.Sound h) {k k'} (hk : k ∈ s.db.idempotencyKeys) (hk' : k' ∈ s.db.idempotencyKeys)
    (hn : r.Names k) (hn' : r.Names k') : k = k' := by
  have hname : k.name = k'.name :=
    Prod.ext (hn.2.trans hn'.2.symm) (Option.some.inj (hn.1.symm.trans hn'.1))
  exact List.inj_on_of_nodup_map hs.names (List.mem_append_left _ hk) (List.mem_append_left _ hk') hname

theorem Sound.jobsOf_linked (hs : s.Sound h) {k row} (hl : s.db.Linked k row) (hn : r.Names k) :
    s.db.jobsOf r = [row] := by
  rw [← hl.2]
  refine List.filter_congr fun x _ => ?_
  rw [Bool.eq_iff_iff, List.any_eq_true]
  constructor
  · rintro ⟨k', hk', h⟩
    simp only [Bool.and_eq_true, decide_eq_true_eq] at h
    rw [hs.name_inj hl.1 hk' hn h.1]; exact h.2
  · exact fun h => ⟨k, hl.1, by simp [hn, h]⟩

/-- A call that has created a job has its key committed. -/
theorem Sound.created (hs : s.Sound h) {c job} (hc : c ∈ s.calls) (hst : c.stage = .done (.ok (job, true))) {key}
    (hkey : c.request.idempotencyKey = some key) : ∃ row, s.db.Linked (c.own h key) row ∧ job = row.record := by
  have hold := hs.holds c hc
  simp only [EnqueueCall.Holds, hst] at hold
  exact hold key hkey

/-- What a committed key says of the calls that ask for it. -/
theorem Sound.creator (hs : s.Sound h) {k} (hk : k ∈ s.db.idempotencyKeys) (hn : r.Names k) :
    ∃ c₀ ∈ s.calls, ∃ row, c₀.request.identity = r.identity ∧ c₀.stage = .done (.ok (row.record, true)) ∧
      s.db.Linked k row ∧ k.requestHash = c₀.request.requestHash h ∧ k.id = c₀.keyId := by
  obtain ⟨c₀, hc₀, row, hst, hkey, hown, hl⟩ := hs.made k hk
  refine ⟨c₀, hc₀, row, identity_of_names (k := k) ⟨hkey, by rw [hown]; rfl⟩ hn, hst, hl, ?_, ?_⟩ <;> rw [hown] <;> rfl

end Answers

end EnqueueWorld

/-- **Enqueue is idempotent**: in every run of any calls, each kind, user,
notebook and key gets one job, which its creator and the calls with the same
payload answer, and the others conflict with; and no two of kind, user and
notebook share a scope. -/
theorem enqueue_idempotent {h policy} {s : EnqueueWorld} (hr : EnqueueWorld.Reach h policy s) : s.Idempotent h policy ∧
    ∀ a kind n a' kind' n', idempotencyScope a kind n = idempotencyScope a' kind' n' ↔
      kind = kind' ∧ a.userId = a'.userId ∧ n = n' := by
  have hs := hr.sound
  refine ⟨⟨fun r => ?_, ?_, ?_, ?_, hs.progress, fun _ => EnqueueWorld.remaining_lt⟩, fun a kind n a' kind' n' =>
    ⟨idempotencyScope_inj, ?_⟩⟩
  · by_cases hk : ∃ k ∈ s.db.idempotencyKeys, r.Names k
    · obtain ⟨k, hk, hn⟩ := hk
      obtain ⟨_, _, row, _, _, hl, _⟩ := hs.creator hk hn
      simp [hs.jobsOf_linked hl hn]
    · have hnone : s.db.jobsOf r = [] := List.filter_eq_nil_iff.2 fun row _ => by
        simp only [List.any_eq_true, Bool.and_eq_true, decide_eq_true_eq, not_exists, not_and]
        exact fun k hk' hn => absurd ⟨k, hk', hn⟩ hk
      simp [hnone]
  · intro c hc c' hc' job job' hst hst' hkey hid
    obtain ⟨key, hkey⟩ := Option.ne_none_iff_exists'.1 hkey
    have hkey' : c'.request.idempotencyKey = some key := by
      simp only [EnqueueRequest.identity, Prod.mk.injEq] at hid
      rw [← hid.2.2.2, hkey]
    obtain ⟨row, hl, -⟩ := hs.created hc hst hkey
    obtain ⟨row', hl', -⟩ := hs.created hc' hst' hkey'
    have hsame := hs.name_inj hl.1 hl'.1 ⟨hkey, rfl⟩ ((EnqueueWorld.names_iff hid).2 ⟨hkey', rfl⟩)
    exact List.inj_on_of_nodup_map hs.keyIds hc hc' (congrArg IdempotencyKey.id hsame)
  · intro c hc res hkey hst
    obtain ⟨key, hkey⟩ := Option.ne_none_iff_exists'.1 hkey
    have hold := hs.holds c hc
    rcases res with e | ⟨job, _ | _⟩ <;> simp only [EnqueueCall.Holds, hst] at hold
    · obtain ⟨k, hk, hn, hhash, rfl⟩ := hold
      obtain ⟨c₀, hc₀, row, hid, hst₀, hl, hh, -⟩ := hs.creator hk hn
      refine ⟨c₀, hc₀, row, hid, hst₀, hs.jobsOf_linked hl hn, fun _ => ⟨fun he => ?_, fun _ => ⟨_, _, rfl⟩⟩⟩
      exact absurd (hh.trans he.symm) hhash
    · obtain ⟨k, row, hl, hn, hhash, rfl⟩ := hold
      obtain ⟨c₀, hc₀, row₀, hid, hst₀, hl₀, hh, -⟩ := hs.creator hl.1 hn
      obtain rfl : row₀ = row := by simpa [hl.2] using hl₀.2.symm
      refine ⟨c₀, hc₀, row₀, hid, hst₀, hs.jobsOf_linked hl hn, fun _ => ⟨fun _ => rfl, fun hne => ?_⟩⟩
      exact absurd (hhash.symm.trans hh) hne
    · obtain ⟨row, hl, rfl⟩ := hold key hkey
      exact ⟨c, hc, row, rfl, hst, hs.jobsOf_linked hl ⟨hkey, rfl⟩, fun hne => absurd rfl hne⟩
  · rintro s' (hst | hst)
    · cases hst with
      | statement => exact .inl rfl
      | commit pre c post _ => exact .inr ⟨pre, c, post, _, rfl, rfl⟩
    · cases hst with
      | abort => exact .inl rfl
  · rintro ⟨rfl, hu, rfl⟩
    simp only [idempotencyScope, hu]

/-- Two calls of one request. -/
def keyedRequest : EnqueueRequest := { mediaRequest with idempotencyKey := some "k" }

def keyedCall (n : Uuid) : EnqueueCall := ⟨keyedRequest, n, n, .waiting⟩

/-- It is the only call. -/
theorem enqueue_alone_creates : ∃ s : EnqueueWorld, EnqueueWorld.Reach plainHashing defaultCapacityPolicy s ∧
    s.calls.map (·.finished) = [true] ∧ s.db.jobs.length = 1 := by
  have h₀ : EnqueueWorld.Reach plainHashing defaultCapacityPolicy ⟨{}, [keyedCall 1]⟩ :=
    .start ⟨rfl, by simp [keyedCall], by decide, by decide⟩
  have h₁ := h₀.next (.inl (.statement [] _ _ (.build rfl rfl ⟨1, .inl rfl⟩)))
  exact ⟨_, @EnqueueWorld.Reach.enqueue_alone _ _ _ _ [] [] _ _ (.fixed 0 1) _ h₁ rfl rfl rfl rfl rfl, rfl, rfl⟩

/-- The key of the first is committed with its job; the second answers that job. -/
theorem enqueue_idempotent_twice : ∃ s : EnqueueWorld, s.calls.map (·.finished) = [true, true] ∧
    s.db.jobs.length = 1 ∧ (s.Idempotent plainHashing defaultCapacityPolicy ∧
    ∀ a kind n a' kind' n', idempotencyScope a kind n = idempotencyScope a' kind' n' ↔
      kind = kind' ∧ a.userId = a'.userId ∧ n = n') := by
  have h₀ : EnqueueWorld.Reach plainHashing defaultCapacityPolicy ⟨{}, [keyedCall 1, keyedCall 2]⟩ :=
    .start ⟨rfl, by simp [keyedCall], by decide, by decide⟩
  have h₁ := h₀.next (.inl (.statement [] _ _ (.build rfl rfl ⟨1, .inl rfl⟩)))
  have h₂ := h₁.next (.inl (.statement [_] _ [] (.build rfl rfl ⟨2, .inl rfl⟩)))
  have h₃ := h₂.next (.inl (.statement [] _ _ (.insertKey rfl rfl (by decide +kernel) (by decide +kernel))))
  have h₄ := h₃.next (.inl (.statement [] _ _ (.new rfl rfl)))
  have h₅ := h₄.next (.inl (.statement [] _ _ (.insertJob 0 rfl rfl)))
  have h₆ := h₅.next (.inl (.commit [] _ _ rfl))
  have h₇ := h₆.next (.inl (.statement [_] _ [] (.keyTaken rfl rfl (by decide +kernel))))
  have h₈ := h₇.next (.inl (.statement [_] _ [] (.readKey rfl rfl rfl rfl)))
  have h₉ := h₈.next (.inl (.statement [_] _ [] (.reuse rfl rfl)))
  have h₁₀ := h₉.next (.inl (.commit [_] _ [] rfl))
  exact ⟨_, rfl, rfl, enqueue_idempotent h₁₀⟩

end MilpbookLM
