/-
Publication of quarantined outputs (outputs.py, `publish`): the records of all outputs and
the authorization of all outputs are checked first, then each output is opened again and
put into the blob store. What other processes do to the quarantine meanwhile, what the
handles read, and what the store answers are given access by access.

A put commits its own reference, and nothing takes it back: where a later output cannot be
opened or put, the references of those before it stay (`publishFrom_raised`). An open
compares the inode and no digest, so what was written into a file in place is published
under the digest of what was collected. Publication is all or nothing where neither comes
to pass (`publish_iff`).
-/
import MilpbookLM.Execution.Collection
import MilpbookLM.Lib.Table

namespace MilpbookLM.Execution

open PosixPath

/-- What `blobs.put` comes to. An error may be raised behind the commit of the reference,
whose blob has then the id. -/
inductive PutAnswer where
  | stored (blobId : Uuid)
  | raised (name : String) (committed : Option Uuid)
  deriving DecidableEq

/-- What a publication meets: the quarantine as each check and each open finds it (a symlink
or a special file is no file there), what each handle reads until its end, the
authorization, and the store's answers. -/
structure PublicationEnv where
  checked : Nat → List QuarantineDir
  opened : Nat → List QuarantineDir
  read : Nat → Bytes
  authorize : ProducedOutput → Bool
  put : Nat → PutAnswer

/-- A blob that a reference of the given referrer was added for. -/
structure ReferencedBlob where
  id : Uuid
  contentSha256 : PyStr
  sizeBytes : Nat
  deriving DecidableEq

/-- `_open_record`. -/
def openRecord (dirs : List QuarantineDir) (record : QuarantineRecord) : Except Raised Unit :=
  match (dirs.find? (·.name = record.dir)).bind fun d => d.files.find? (·.name = record.name) with
  | none => refuse .outputPolicyViolation "quarantine output is missing or unsafe"
  | some file =>
    if file.inode ≠ record.inode then refuse .outputPolicyViolation "quarantine output identity changed"
    else .ok ()

/-- The blob that the store makes of what it reads. -/
def PublicationEnv.blob (env : PublicationEnv) (platform : OutputPlatform) (i : Nat) (id : Uuid) : ReferencedBlob :=
  ⟨id, platform.sha256 (env.read i), (env.read i).length⟩

namespace Collector

variable (s : Collector) (platform : OutputPlatform) (env : PublicationEnv)

/-- `_record_for`, where `dirs` is what its open finds. -/
def requireRecord (dirs : List QuarantineDir) (output : ProducedOutput) : Except Raised QuarantineRecord :=
  match s.records.find? fun r =>
      parse (platform.root ++ lit "/" ++ r.dir ++ lit "/" ++ r.name) = parse output.quarantinePath with
  | none => refuse .outputPolicyViolation "quarantine identity is not broker-owned"
  | some record =>
    if record.declaredPath ≠ output.declaredPath ∨ record.contentSha256 ≠ output.contentSha256 ∨
        (record.sizeBytes : Int) ≠ output.sizeBytes.toInt then
      refuse .outputPolicyViolation "quarantine identity is not broker-owned"
    else do
      openRecord dirs record
      .ok record

/-- The records of the outputs from the `i`-th on. -/
def requireRecords : Nat → List ProducedOutput → Except Raised (List QuarantineRecord)
  | _, [] => .ok []
  | i, output :: outputs => do
    let record ← s.requireRecord platform (env.checked i) output
    let records ← requireRecords (i + 1) outputs
    .ok (record :: records)

/-- The authorization of every output. -/
def reauthorize : List ProducedOutput → Except Raised Unit
  | [] => .ok ()
  | output :: outputs =>
    if env.authorize output then reauthorize outputs
    else .error (.refused .publishAuthzDenied
      (lit "publication of " ++ output.declaredPath ++ lit " was not re-authorized"))

/-- The loop of `publish` from the `i`-th output on, with the references it has added. -/
def publishFrom : Nat → List (ProducedOutput × QuarantineRecord) → List ProducedOutput → List ReferencedBlob →
    Except Raised (List ProducedOutput) × List ReferencedBlob
  | _, [], published, added => (.ok published, added)
  | i, (output, record) :: rest, published, added =>
    match openRecord (env.opened i) record with
    | .error e => (.error e, added)
    | .ok () =>
      match env.put i with
      | .raised name committed => (.error (.other name), added ++ (committed.map (env.blob platform i)).toList)
      | .stored id =>
        publishFrom (i + 1) rest (published ++ [{ output with blobId := some id }])
          (added ++ [env.blob platform i id])

/-- `publish`, with the references that were added. -/
def publish (outputs : List ProducedOutput) : Except Raised (List ProducedOutput) × List ReferencedBlob :=
  match s.requireRecords platform env 0 outputs with
  | .error e => (.error e, [])
  | .ok records =>
    match reauthorize env outputs with
    | .error e => (.error e, [])
    | .ok () => publishFrom platform env 0 (outputs.zip records) [] []

/-! ## The checks -/

variable {s platform env} {outputs : List ProducedOutput} {records : List QuarantineRecord}

theorem requireRecords_length {i : Nat} (h : s.requireRecords platform env i outputs = .ok records) :
    records.length = outputs.length := by
  induction outputs generalizing i records with
  | nil => cases h; rfl
  | cons output outputs ih =>
    simp only [requireRecords, Except.bind_ok_iff] at h
    obtain ⟨record, _, rest, hrest, heq⟩ := h
    cases heq
    simp [ih hrest]

theorem reauthorize_ok : reauthorize env outputs = .ok () ↔ ∀ output ∈ outputs, env.authorize output = true := by
  induction outputs with
  | nil => simp [reauthorize]
  | cons output outputs ih =>
    simp only [reauthorize]
    split <;> simp [*]

/-! ## The loop -/

/-- The `i`-th output is opened and put. -/
def Stores (env : PublicationEnv) (i : Nat) (record : QuarantineRecord) : Prop :=
  openRecord (env.opened i) record = .ok () ∧ ∃ id, env.put i = .stored id

/-- What its handle reads has the digest and the size that were recorded. -/
def Unchanged (platform : OutputPlatform) (env : PublicationEnv) (i : Nat) (output : ProducedOutput) : Prop :=
  platform.sha256 (env.read i) = output.contentSha256 ∧ ((env.read i).length : Int) = output.sizeBytes.toInt

/-- Its open fails, or its put does and has committed nothing. -/
def FailsClean (env : PublicationEnv) (i : Nat) (record : QuarantineRecord) : Prop :=
  (∃ e, openRecord (env.opened i) record = .error e) ∨ ∃ name, env.put i = .raised name none

theorem FailsClean.not_stores {i : Nat} {record : QuarantineRecord} (h : FailsClean env i record) :
    ¬ Stores env i record := by
  intro ⟨hopen, id, hput⟩
  rcases h with ⟨e, he⟩ | ⟨name, hname⟩
  · rw [hopen] at he
    cases he
  · rw [hput] at hname
    cases hname

variable {pairs : List (ProducedOutput × QuarantineRecord)} {published : List ProducedOutput}
  {added : List ReferencedBlob}

/-- Where every output is stored, the loop returns them with their blobs. -/
theorem publishFrom_stored (i : Nat) (h : ∀ k p, pairs[k]? = some p → Stores env (i + k) p.2) :
    ∃ ids : List Uuid, ids.length = pairs.length ∧
      publishFrom platform env i pairs published added =
        (.ok (published ++ (pairs.zip ids).map fun p => { p.1.1 with blobId := some p.2 }),
          added ++ ids.mapIdx fun k id => env.blob platform (i + k) id) := by
  induction pairs generalizing i published added with
  | nil => exact ⟨[], rfl, by simp [publishFrom]⟩
  | cons p rest ih =>
    obtain ⟨output, record⟩ := p
    obtain ⟨hopen, id, hput⟩ := h 0 _ rfl
    obtain ⟨ids, hlen, hrest⟩ := @ih (published ++ [{ output with blobId := some id }])
      (added ++ [env.blob platform i id]) (i + 1) fun k p hp => by
        have := h (k + 1) p (by simpa using hp)
        rwa [show i + 1 + k = i + (k + 1) by omega]
    refine ⟨id :: ids, by simp [hlen], ?_⟩
    simp only [Nat.add_zero] at hopen hput
    simp only [publishFrom, hopen, hput, hrest]
    simp [List.mapIdx_cons, Nat.add_assoc, Nat.add_comm 1]

/-- Where one is not, the loop raises, and what was added before stays. -/
theorem publishFrom_raised (i : Nat) (h : ¬ ∀ k p, pairs[k]? = some p → Stores env (i + k) p.2) :
    ∃ e more, publishFrom platform env i pairs published added = (.error e, added ++ more) := by
  induction pairs generalizing i published added with
  | nil => simp at h
  | cons p rest ih =>
    obtain ⟨output, record⟩ := p
    simp only [publishFrom]
    cases hopen : openRecord (env.opened i) record with
    | error e => exact ⟨e, [], by simp⟩
    | ok _ =>
      cases hput : env.put i with
      | raised name committed => exact ⟨_, _, rfl⟩
      | stored id =>
        have hrest : ¬ ∀ k p, rest[k]? = some p → Stores env (i + 1 + k) p.2 := by
          intro hall
          refine h fun k p hp => ?_
          cases k with
          | zero =>
            simp only [List.getElem?_cons_zero, Option.some.injEq] at hp
            subst hp
            exact ⟨hopen, id, hput⟩
          | succ k =>
            rw [show i + (k + 1) = i + 1 + k by omega]
            exact hall k p (by simpa using hp)
        obtain ⟨e, more, heq⟩ := @ih (published ++ [{ output with blobId := some id }])
          (added ++ [env.blob platform i id]) (i + 1) hrest
        exact ⟨e, env.blob platform i id :: more, by simp [heq]⟩

/-! ## All or nothing -/

/-- A publication that returned has a blob of the recorded digest and size for every
output; one that raised has added no reference. -/
def AllOrNothing (outputs : List ProducedOutput) :
    Except Raised (List ProducedOutput) × List ReferencedBlob → Prop
  | (.ok published, added) => published.length = outputs.length ∧ ∀ (i : Nat) (output : ProducedOutput),
      outputs[i]? = some output → ∃ blob : ReferencedBlob, added[i]? = some blob ∧
        published[i]? = some { output with blobId := some blob.id } ∧
        blob.contentSha256 = output.contentSha256 ∧ (blob.sizeBytes : Int) = output.sizeBytes.toInt
  | (.error _, added) => added = []

/-- Every output is stored unchanged, or the first one fails clean. -/
def HoldsSteady (platform : OutputPlatform) (env : PublicationEnv) (outputs : List ProducedOutput)
    (records : List QuarantineRecord) : Prop :=
  (∀ (i : Nat) (output : ProducedOutput) (record : QuarantineRecord), outputs[i]? = some output →
      records[i]? = some record → Stores env i record ∧ Unchanged platform env i output) ∨
    ∃ record, records.head? = some record ∧ FailsClean env 0 record

/-- So it is with a publication whose checks pass. -/
def Steady (s : Collector) (platform : OutputPlatform) (env : PublicationEnv) (outputs : List ProducedOutput) : Prop :=
  ∀ records, s.requireRecords platform env 0 outputs = .ok records → (∀ output ∈ outputs, env.authorize output = true) →
    HoldsSteady platform env outputs records

/-- A loop that raises has added nothing when it failed clean at its first output. -/
theorem publishFrom_clean {output : ProducedOutput} {record : QuarantineRecord}
    (h : ¬ ∀ k p, ((output, record) :: pairs)[k]? = some p → Stores env (0 + k) p.2) :
    ∃ e added, publishFrom platform env 0 ((output, record) :: pairs) [] [] = (.error e, added) ∧
      (added = [] ↔ FailsClean env 0 record) := by
  simp only [publishFrom]
  cases hopen : openRecord (env.opened 0) record with
  | error e => exact ⟨e, [], rfl, by simp [FailsClean, hopen]⟩
  | ok _ =>
    cases hput : env.put 0 with
    | raised name committed =>
      refine ⟨_, _, rfl, ?_⟩
      cases committed <;> simp [FailsClean, hopen, hput]
    | stored id =>
      have hrest : ¬ ∀ k p, pairs[k]? = some p → Stores env (0 + 1 + k) p.2 := by
        intro hall
        refine h fun k p hp => ?_
        cases k with
        | zero =>
          simp only [List.getElem?_cons_zero, Option.some.injEq] at hp
          subst hp
          exact ⟨hopen, id, hput⟩
        | succ k =>
          rw [show 0 + (k + 1) = 0 + 1 + k by omega]
          exact hall k p (by simpa using hp)
      obtain ⟨e, more, heq⟩ := @publishFrom_raised platform env pairs [{ output with blobId := some id }]
        [env.blob platform 0 id] (0 + 1) hrest
      exact ⟨e, env.blob platform 0 id :: more, by simpa using heq, by simp [FailsClean, hopen, hput]⟩

/-- The outputs of a loop that stored all of them, one by one. -/
theorem allOrNothing_stored {ids : List Uuid} (hlen : records.length = outputs.length)
    (hids : ids.length = (outputs.zip records).length) :
    AllOrNothing outputs
        (.ok (((outputs.zip records).zip ids).map fun p => { p.1.1 with blobId := some p.2 }),
          ids.mapIdx fun k id => env.blob platform (0 + k) id) ↔
      ∀ (i : Nat) (output : ProducedOutput), outputs[i]? = some output → Unchanged platform env i output := by
  have hzip : (outputs.zip records).length = outputs.length := by simp [hlen]
  simp only [AllOrNothing, List.length_map, List.length_zip, hids, hzip, Nat.min_self, true_and]
  refine forall_congr' fun i => forall_congr' fun output => forall_congr' fun ho => ?_
  have hi : i < outputs.length := (List.getElem?_eq_some_iff.1 ho).1
  obtain ⟨id, hid⟩ : ∃ id, ids[i]? = some id := ⟨_, List.getElem?_eq_getElem (by omega)⟩
  obtain ⟨record, hrecord⟩ : ∃ record, records[i]? = some record := ⟨_, List.getElem?_eq_getElem (by omega)⟩
  have hpair : ((outputs.zip records).zip ids)[i]? = some ((output, record), id) :=
    List.getElem?_zip_eq_some.2 ⟨List.getElem?_zip_eq_some.2 ⟨ho, hrecord⟩, hid⟩
  simp [hid, hpair, Unchanged, PublicationEnv.blob]

/-- The loop is all or nothing where what it meets holds steady. -/
theorem publishFrom_iff (hlen : records.length = outputs.length) :
    AllOrNothing outputs (publishFrom platform env 0 (outputs.zip records) [] []) ↔
      HoldsSteady platform env outputs records := by
  have hpairs : ∀ (i : Nat) p, (outputs.zip records)[i]? = some p ↔ outputs[i]? = some p.1 ∧ records[i]? = some p.2 :=
    fun i p => List.getElem?_zip_eq_some
  by_cases hall : ∀ k p, (outputs.zip records)[k]? = some p → Stores env (0 + k) p.2
  · obtain ⟨ids, hids, heq⟩ := @publishFrom_stored platform env (outputs.zip records) [] [] 0 hall
    have hstores : ∀ (i : Nat) (output : ProducedOutput) (record : QuarantineRecord), outputs[i]? = some output →
        records[i]? = some record → Stores env i record := fun i output record ho hr => by
      have := hall i (output, record) ((hpairs i _).2 ⟨ho, hr⟩)
      rwa [Nat.zero_add] at this
    rw [heq, List.nil_append, List.nil_append, allOrNothing_stored hlen hids]
    constructor
    · intro h
      exact .inl fun i output record ho hr => ⟨hstores i output record ho hr, h i output ho⟩
    · intro h i output ho
      have hi : i < outputs.length := (List.getElem?_eq_some_iff.1 ho).1
      rcases h with h | ⟨record, hhead, hfails⟩
      · exact (h i output records[i] ho (List.getElem?_eq_getElem (by omega))).2
      · rw [List.head?_eq_getElem?] at hhead
        exact absurd (hstores 0 outputs[0] record (List.getElem?_eq_getElem (by omega)) hhead) hfails.not_stores
  · cases outputs with
    | nil => simp at hall
    | cons output outputs =>
      cases records with
      | nil => simp at hlen
      | cons record records =>
        obtain ⟨e, added, heq, hadded⟩ := @publishFrom_clean platform env (outputs.zip records) output record hall
        rw [List.zip_cons_cons, heq]
        simp only [AllOrNothing, hadded, HoldsSteady, List.head?_cons, Option.some.injEq, exists_eq_left']
        refine ⟨fun h => .inr h, fun h => h.resolve_left fun h => hall fun k p hp => ?_⟩
        obtain ⟨ho, hr⟩ := (hpairs k p).1 hp
        rw [Nat.zero_add]
        exact (h k p.1 p.2 ho hr).1

/-- **Publication is all or nothing where the quarantine and the store hold steady.** -/
theorem publish_iff : AllOrNothing outputs (s.publish platform env outputs) ↔ s.Steady platform env outputs := by
  unfold publish Steady
  cases hrecords : s.requireRecords platform env 0 outputs with
  | error e => simp [AllOrNothing]
  | ok records =>
    cases hauth : reauthorize env outputs with
    | error e =>
      have hdenied : ¬ ∀ output ∈ outputs, env.authorize output = true := fun hall => by
        rw [reauthorize_ok.2 hall] at hauth
        cases hauth
      simp [AllOrNothing, hdenied]
    | ok _ =>
      rw [publishFrom_iff (requireRecords_length hrecords)]
      constructor
      · intro h records' heq _
        cases heq
        exact h
      · intro h
        exact h records rfl (reauthorize_ok.1 hauth)

/-! ## A put that fails behind another -/

/-- Two outputs of a run, in quarantine. -/
def twoRecords : Collector where
  dirs := [⟨lit "exec-a", 0, [⟨lit "000-a", 1, [1]⟩, ⟨lit "001-b", 2, [2]⟩]⟩]
  records := [⟨lit "exec-a", lit "000-a", 1, lit "a", [], 1⟩, ⟨lit "exec-a", lit "001-b", 2, lit "b", [], 1⟩]
  directories := [(lit "exec-a", 0)]
  nextInode := 3

def outputA : ProducedOutput := ⟨lit "a", [], .int 1, [], plainPlatform.root ++ lit "/exec-a/000-a", none⟩

def outputB : ProducedOutput := ⟨lit "b", [], .int 1, [], plainPlatform.root ++ lit "/exec-a/001-b", none⟩

/-- Nothing changes in the quarantine, and the store fails at the second put. -/
def failingStore : PublicationEnv where
  checked _ := twoRecords.dirs
  opened _ := twoRecords.dirs
  read i := [UInt8.ofNat (i + 1)]
  authorize _ := true
  put i := if i = 0 then .stored 7#128 else .raised "BlobWriteError" none

/-- **The first output stays published.** -/
theorem second_put_fails :
    ¬ AllOrNothing [outputA, outputB] (twoRecords.publish plainPlatform failingStore [outputA, outputB]) := by
  have hrun : twoRecords.publish plainPlatform failingStore [outputA, outputB] =
      (.error (.other "BlobWriteError"), [⟨7#128, plainPlatform.sha256 [1], 1⟩]) := by
    rfl
  rw [hrun]
  simp [AllOrNothing]

end Collector

end MilpbookLM.Execution
