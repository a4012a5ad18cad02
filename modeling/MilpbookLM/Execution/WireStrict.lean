/-
The spec payloads that are accepted. Each says what the spec is encoded to, and nothing
more, exactly when no entry of its declared outputs has a key of its own: that one the
decoder does not check (`wire_format`).
-/
import MilpbookLM.Execution.Frames
import MilpbookLM.Execution.WireRoundTrip
import MilpbookLM.Lib.Outcomes

namespace MilpbookLM.Execution

variable {F : Type}

/-! ## Strictness -/

/-- No key of the payload, its declared outputs and its limits is outside the format. -/
structure Strict (payload : PyDict F) : Prop where
  top : ∀ item ∈ payload, ∃ key ∈ specFields, item.1 = lit key
  outputs : ∀ entries, field? payload "declared_outputs" = some (.list entries) → ∀ entry, .dict entry ∈ entries →
    ∀ item ∈ entry, item.1 = lit "path" ∨ item.1 = lit "max_bytes"
  limits : ∀ items, field? payload "limits" = some (.dict items) → ∀ item ∈ items, ∃ f : LimitField, item.1 = lit f.name

/-- An entry of the declared outputs has a key of its own. -/
def ForeignOutputKey (payload : PyDict F) : Prop :=
  ∃ entries entry item, field? payload "declared_outputs" = some (.list entries) ∧ .dict entry ∈ entries ∧ item ∈ entry ∧
    item.1 ≠ lit "path" ∧ item.1 ≠ lit "max_bytes"

/-! ## Agreement -/

/-- Every item of `d` is in `wire`, with a value that agrees. -/
def Covers (same : PyValue F → PyValue F → Prop) (d wire : PyDict F) : Prop :=
  ∀ item ∈ d, ∃ value, (item.1, value) ∈ wire ∧ same item.2 value

def DictAgrees (same : PyValue F → PyValue F → Prop) (x y : PyValue F) : Prop :=
  ∃ d wire, x = .dict d ∧ y = .dict wire ∧ Covers same d wire

def ListAgrees (same : PyValue F → PyValue F → Prop) (x y : PyValue F) : Prop :=
  ∃ xs ys, x = .list xs ∧ y = .list ys ∧ List.Forall₂ same xs ys

/-- The same items, in any order. -/
def SameDict (x y : PyValue F) : Prop := ∃ d wire, x = .dict d ∧ y = .dict wire ∧ d.Perm wire

/-- The same UUID. -/
def SameUuid (p : Platform F) (x y : PyValue F) : Prop :=
  ∃ s t u, x = .str s ∧ y = .str t ∧ uuidOf p s = some u ∧ uuidOf p t = some u

/-- What a payload's `key` agrees on: `wire` has it, with this relation of the values. -/
def AgreesOn (payload wire : PyDict F) (key : String) (same : PyValue F → PyValue F → Prop) : Prop :=
  ∀ x, field? payload key = some x → ∃ y, field? wire key = some y ∧ same x y

/-- What `wire` has where the payload has not `key`. -/
def DefaultsTo (payload wire : PyDict F) (key : String) (default : PyValue F) : Prop :=
  field? payload key = none → field? wire key = some default

/-- `wire` says what the payload says, and the defaults otherwise. -/
structure Agrees (p : Platform F) (payload wire : PyDict F) : Prop where
  imageDigest : AgreesOn payload wire "image_digest" Eq
  argv : AgreesOn payload wire "argv" Eq
  env : AgreesOn payload wire "env" SameDict
  inputBlobIds : AgreesOn payload wire "input_blob_ids" (ListAgrees (SameUuid p))
  declaredOutputs : AgreesOn payload wire "declared_outputs" (ListAgrees (DictAgrees Eq))
  limits : AgreesOn payload wire "limits" (DictAgrees Eq)
  noEnv : DefaultsTo payload wire "env" (.dict [])
  noBlobIds : DefaultsTo payload wire "input_blob_ids" (.list [])
  noOutputs : DefaultsTo payload wire "declared_outputs" (.list [])
  noLimits : DefaultsTo payload wire "limits" (.dict (LimitField.all.map fun f => (lit f.name, (defaultLimits p.floats f).value)))
  noLimit : ∀ items wireLimits f, field? payload "limits" = some (.dict items) → field? wire "limits" = some (.dict wireLimits) →
    DefaultsTo items wireLimits (LimitField.name f) (defaultLimits p.floats f).value

section Accepted

variable (p : Platform F) {payload : PyDict F} {nonce : PyStr} {spec : ExecutionSpec F}

/-- What the parts of an accepted payload were parsed to. -/
structure Parsed (payload : PyDict F) (spec : ExecutionSpec F) : Prop where
  known : unknownKeys payload = []
  argv : parseArgv payload = .ok (spec.imageDigest, spec.argv)
  env : parseEnv payload = .ok spec.envAllowlist
  blobIds : parseBlobIds p payload = .ok spec.inputBlobIds
  outputs : parseOutputs payload = .ok spec.declaredOutputs
  limits : parseLimits p payload = .ok spec.limits

theorem specFromWire_parsed (h : specFromWire p payload nonce = .ok spec) : Parsed p payload spec := by
  by_cases hknown : unknownKeys payload = []
  · simp only [specFromWire, hknown, ne_eq, not_true_eq_false, if_false] at h
    obtain ⟨⟨digest, argv⟩, hargv, h⟩ := Except.bind_ok_iff.1 h
    obtain ⟨env, henv, h⟩ := Except.bind_ok_iff.1 h
    obtain ⟨blobIds, hblobs, h⟩ := Except.bind_ok_iff.1 h
    obtain ⟨declared, houtputs, h⟩ := Except.bind_ok_iff.1 h
    obtain ⟨limits, hlimits, h⟩ := Except.bind_ok_iff.1 h
    cases h
    exact ⟨hknown, hargv, henv, hblobs, houtputs, hlimits⟩
  · simp only [specFromWire, ne_eq, hknown, not_false_eq_true, if_true] at h
    cases h

theorem mapM_forall₂ {α β : Type} {f : α → Except Raised β} {xs : List α} {ys : List β} (h : xs.mapM f = .ok ys) :
    List.Forall₂ (fun x y => f x = .ok y) xs ys := by
  induction xs generalizing ys with
  | nil =>
    cases h
    exact .nil
  | cons x xs ih =>
    rw [List.mapM_cons] at h
    obtain ⟨y, hy, h⟩ := Except.bind_ok_iff.1 h
    obtain ⟨ys, hys, h⟩ := Except.bind_ok_iff.1 h
    cases h
    exact .cons hy (ih hys)

theorem mapM_str {xs : List (PyValue F)} {ss : List PyStr} (h : xs.mapM PyValue.str? = some ss) : xs = ss.map .str := by
  induction xs generalizing ss with
  | nil =>
    cases h
    rfl
  | cons x xs ih =>
    simp only [List.mapM_cons, Option.bind_eq_bind, Option.bind_eq_some_iff, Option.pure_def, Option.some.injEq] at h
    obtain ⟨s, hs, ss, hss, rfl⟩ := h
    rw [List.map_cons, PyValue.str_of hs, ih hss]

theorem mapM_items {items : PyDict F} {env : List (PyStr × PyStr)}
    (h : (items.mapM fun item => item.2.str?.map (item.1, ·)) = some env) : items = env.map fun item => (item.1, .str item.2) := by
  induction items generalizing env with
  | nil =>
    cases h
    rfl
  | cons item items ih =>
    simp only [List.mapM_cons, Option.bind_eq_bind, Option.bind_eq_some_iff, Option.map_eq_some_iff, Option.pure_def,
      Option.some.injEq] at h
    obtain ⟨_, ⟨s, hs, rfl⟩, env, henv, rfl⟩ := h
    rw [List.map_cons, ih henv, ← PyValue.str_of hs]

/-! ### The parts -/

theorem parseArgv_ok {digest : PyStr} {argv : List PyStr} (h : parseArgv payload = .ok (digest, argv)) :
    field payload "image_digest" = .str digest ∧ field payload "argv" = .list (argv.map .str) := by
  unfold parseArgv at h
  split at h
  · next digest' part parts hdigest hargv =>
    split at h
    · cases h
    · next argv' hparts =>
      cases h
      exact ⟨hdigest, hargv.trans (congrArg PyValue.list (mapM_str hparts))⟩
  · cases h

theorem parseEnv_ok {env : List (PyStr × PyStr)} (h : parseEnv payload = .ok env) :
    ∃ items, (field? payload "env").getD (.dict []) = .dict (items.map fun item => (item.1, .str item.2)) ∧ env = sortEnv items := by
  unfold parseEnv at h
  split at h
  · next items hitems =>
    split at h
    · cases h
    · next env' henv =>
      cases h
      exact ⟨env', hitems.trans (congrArg PyValue.dict (mapM_items henv)), rfl⟩
  · cases h

theorem parseBlobIds_ok {blobIds : List Uuid} (h : parseBlobIds p payload = .ok blobIds) :
    ∃ entries, (field? payload "input_blob_ids").getD (.list []) = .list entries ∧
      List.Forall₂ (fun entry blobId => parseBlobId p entry = .ok blobId) entries blobIds := by
  unfold parseBlobIds at h
  split at h
  · next entries hentries => exact ⟨entries, hentries, mapM_forall₂ h⟩
  · cases h

theorem parseBlobId_ok {entry : PyValue F} {blobId : Uuid} (h : parseBlobId p entry = .ok blobId) :
    ∃ s, entry = .str s ∧ uuidOf p s = some blobId := by
  unfold parseBlobId at h
  split at h
  · next s =>
    split at h
    · cases h
    · next blobId' huuid =>
      cases h
      exact ⟨s, rfl, huuid⟩
  · cases h

theorem parseOutputs_ok {declared : List DeclaredOutput} (h : parseOutputs payload = .ok declared) :
    ∃ entries, (field? payload "declared_outputs").getD (.list []) = .list entries ∧
      List.Forall₂ (fun entry output => parseOutput entry = .ok output) entries declared := by
  unfold parseOutputs at h
  split at h
  · next entries hentries => exact ⟨entries, hentries, mapM_forall₂ h⟩
  · cases h

theorem parseOutput_ok {entry : PyValue F} {output : DeclaredOutput} (h : parseOutput entry = .ok output) :
    ∃ d, entry = .dict d ∧ field d "path" = .str output.relativePath ∧ field d "max_bytes" = output.maxBytes.value := by
  unfold parseOutput at h
  split at h
  · next d =>
    split at h
    · next path hpath =>
      split at h
      · next maxBytes hbytes =>
        cases h
        exact ⟨d, rfl, hpath, (PyValue.value_of_int hbytes).symm⟩
      · cases h
    · cases h
  · cases h

theorem parseLimits_ok {limits : ExecutionLimits F} (h : parseLimits p payload = .ok limits) :
    ∃ items, (field? payload "limits").getD (.dict []) = .dict items ∧
      items.foldlM (setLimit p) (defaultLimits p.floats) = .ok limits := by
  unfold parseLimits at h
  split at h
  · next items hitems => exact ⟨items, hitems, h⟩
  · cases h

theorem setLimit_ok {limits limits' : ExecutionLimits F} {item : PyStr × PyValue F} (h : setLimit p limits item = .ok limits') :
    ∃ f value, item = (lit (LimitField.name f), PyNumber.value value) ∧ limits' = Function.update limits f value := by
  unfold setLimit at h
  split at h
  · next f value hfield hvalue =>
    cases h
    have hname : lit f.name = item.1 := by simpa using List.find?_some hfield
    exact ⟨f, value, Prod.ext hname.symm (PyValue.value_of_number hvalue).symm, rfl⟩
  · cases h

/-- Each item has set its field; the others were left. -/
theorem foldlM_setLimit_ok {items : PyDict F} {limits limits' : ExecutionLimits F} (hkeys : (items.map (·.1)).Nodup)
    (h : items.foldlM (setLimit p) limits = .ok limits') :
    (∀ item ∈ items, ∃ f : LimitField, item = (lit f.name, (limits' f).value)) ∧
      ∀ f : LimitField, lit f.name ∉ items.map (·.1) → limits' f = limits f := by
  induction items generalizing limits with
  | nil =>
    cases h
    exact ⟨by simp, fun _ _ => rfl⟩
  | cons item items ih =>
    rw [List.foldlM_cons] at h
    obtain ⟨limits₁, hset, h⟩ := Except.bind_ok_iff.1 h
    obtain ⟨f, value, rfl, rfl⟩ := setLimit_ok p hset
    rw [List.map_cons, List.nodup_cons] at hkeys
    obtain ⟨hitems, hother⟩ := ih hkeys.2 h
    have hf : limits' f = value := by rw [hother f hkeys.1, Function.update_self]
    refine ⟨fun item hitem => ?_, fun g hg => ?_⟩
    · rcases List.mem_cons.1 hitem with rfl | hitem
      · exact ⟨f, by rw [hf]⟩
      · exact hitems item hitem
    · rw [List.map_cons, List.mem_cons, not_or] at hg
      have hne : g ≠ f := fun heq => hg.1 (heq ▸ rfl)
      rw [hother g hg.2, Function.update_of_ne hne]

/-! ### Agreement of the parts -/

theorem unknownKeys_nil (h : unknownKeys payload = []) : ∀ item ∈ payload, ∃ key ∈ specFields, item.1 = lit key := by
  intro item hitem
  have hkey := (List.filter_eq_nil_iff.1 h) item.1 (List.mem_map_of_mem hitem)
  simpa using hkey

theorem env_agrees (hdistinct : (PyValue.dict payload).Distinct) (h : Parsed p payload spec) :
    AgreesOn payload (specToWire spec) "env" SameDict := by
  intro x hx
  obtain ⟨items, hitems, henv⟩ := parseEnv_ok h.env
  rw [hx, Option.getD_some] at hitems
  have hwire : field? (specToWire spec) "env" = some (.dict (dictOf (spec.envAllowlist.map fun item => (item.1, .str item.2)))) := rfl
  have hxdistinct : x.Distinct := distinctItems_mem hdistinct.2 (mem_of_field hx)
  rw [hitems, PyValue.Distinct, List.map_map] at hxdistinct
  have hperm : (sortEnv items).Perm items := List.perm_insertionSort _ _
  have hkeys : (((sortEnv items).map fun item => (item.1, (.str item.2 : PyValue F))).map (·.1)).Nodup := by
    rw [List.map_map]
    exact (hperm.map _).nodup_iff.2 hxdistinct.1
  refine ⟨_, hwire, _, _, hitems, rfl, ?_⟩
  rw [henv, dictOf_eq hkeys]
  exact (hperm.map _).symm

theorem blobIds_agree (h : Parsed p payload spec) :
    AgreesOn payload (specToWire spec) "input_blob_ids" (ListAgrees (SameUuid p)) := by
  intro x hx
  obtain ⟨entries, hentries, hall⟩ := parseBlobIds_ok p h.blobIds
  rw [hx, Option.getD_some] at hentries
  have hwire : field? (specToWire spec) "input_blob_ids" =
      some (.list (spec.inputBlobIds.map fun blobId => .str (lit blobId.str))) := rfl
  refine ⟨_, hwire, _, _, hentries, rfl, ?_⟩
  rw [List.forall₂_map_right_iff]
  refine hall.imp fun entry blobId hparse => ?_
  obtain ⟨s, hs, huuid⟩ := parseBlobId_ok p hparse
  exact ⟨s, lit blobId.str, blobId, hs, rfl, huuid, uuidOf_str p blobId⟩

theorem outputs_agree (hdistinct : (PyValue.dict payload).Distinct) (h : Parsed p payload spec)
    (hforeign : ¬ ForeignOutputKey payload) :
    AgreesOn payload (specToWire spec) "declared_outputs" (ListAgrees (DictAgrees Eq)) := by
  intro x hx
  obtain ⟨entries, hentries, hall⟩ := parseOutputs_ok h.outputs
  rw [hx, Option.getD_some] at hentries
  have hwire : field? (specToWire spec) "declared_outputs" = some (.list (spec.declaredOutputs.map fun entry =>
      .dict [(lit "path", .str entry.relativePath), (lit "max_bytes", entry.maxBytes.value)])) := rfl
  have hxdistinct : x.Distinct := distinctItems_mem hdistinct.2 (mem_of_field hx)
  rw [hentries, PyValue.Distinct] at hxdistinct
  refine ⟨_, hwire, _, _, hentries, rfl, ?_⟩
  rw [List.forall₂_map_right_iff]
  refine List.forall₂_iff_get.2 ⟨hall.length_eq, fun n hn hn' => ?_⟩
  have hmem : entries.get ⟨n, hn⟩ ∈ entries := List.get_mem ..
  obtain ⟨d, hd, hpath, hbytes⟩ := parseOutput_ok ((List.forall₂_iff_get.1 hall).2 n hn hn')
  have hentry := distinctList_mem hxdistinct hmem
  rw [hd] at hentry hmem
  refine ⟨d, _, hd, rfl, fun item hitem => ?_⟩
  have hkey : item.1 = lit "path" ∨ item.1 = lit "max_bytes" := by
    by_contra hkey
    rw [not_or] at hkey
    exact hforeign ⟨entries, d, item, by rw [hx, hentries], hmem, hitem, hkey⟩
  have hvalue : ∀ key, item.1 = lit key → item.2 = field d key := by
    intro key hkey
    exact (field_eq_of_mem hentry.1 (hkey ▸ hitem)).symm
  rcases hkey with hkey | hkey
  · exact ⟨_, by rw [hkey]; exact List.mem_cons_self, (hvalue _ hkey).trans hpath⟩
  · exact ⟨_, by rw [hkey]; exact List.mem_cons_of_mem _ List.mem_cons_self, (hvalue _ hkey).trans hbytes⟩

/-- The limits on the wire. -/
def limitItems (limits : ExecutionLimits F) : PyDict F := LimitField.all.map fun f => (lit f.name, (limits f).value)

theorem mem_limitItems (limits : ExecutionLimits F) (f : LimitField) : (lit f.name, (limits f).value) ∈ limitItems limits :=
  List.mem_map_of_mem (f := fun f => (lit (LimitField.name f), PyNumber.value (limits f))) (by cases f <;> decide)

theorem field_limitItems (limits : ExecutionLimits F) (f : LimitField) :
    field? (limitItems limits) f.name = some (limits f).value := by
  cases f <;> rfl

theorem limits_agree (hdistinct : (PyValue.dict payload).Distinct) (h : Parsed p payload spec) :
    AgreesOn payload (specToWire spec) "limits" (DictAgrees Eq) ∧
      (∀ items, field? payload "limits" = some (.dict items) → ∀ item ∈ items, ∃ f : LimitField, item.1 = lit f.name) ∧
      ∀ items wireLimits f, field? payload "limits" = some (.dict items) →
        field? (specToWire spec) "limits" = some (.dict wireLimits) →
          DefaultsTo items wireLimits (LimitField.name f) (defaultLimits p.floats f).value := by
  obtain ⟨items, hitems, hfold⟩ := parseLimits_ok p h.limits
  have hwire : field? (specToWire spec) "limits" = some (.dict (limitItems spec.limits)) := rfl
  have hkeys : ∀ x, field? payload "limits" = some x → x = .dict items ∧ (items.map (·.1)).Nodup := by
    intro x hx
    have hxdistinct : x.Distinct := distinctItems_mem hdistinct.2 (mem_of_field hx)
    rw [hx, Option.getD_some] at hitems
    rw [hitems, PyValue.Distinct] at hxdistinct
    exact ⟨hitems, hxdistinct.1⟩
  refine ⟨fun x hx => ?_, fun items' hx => ?_, fun items' wireLimits f hx hwire' hnone => ?_⟩
  · obtain ⟨rfl, hnodup⟩ := hkeys x hx
    refine ⟨_, hwire, _, _, rfl, rfl, fun item hitem => ?_⟩
    obtain ⟨f, rfl⟩ := (foldlM_setLimit_ok p hnodup hfold).1 item hitem
    exact ⟨_, mem_limitItems spec.limits f, rfl⟩
  · obtain ⟨heq, hnodup⟩ := hkeys _ hx
    cases heq
    intro item hitem
    obtain ⟨f, rfl⟩ := (foldlM_setLimit_ok p hnodup hfold).1 item hitem
    exact ⟨f, rfl⟩
  · obtain ⟨heq, hnodup⟩ := hkeys _ hx
    cases heq
    rw [hwire] at hwire'
    cases hwire'
    rw [field_limitItems, (foldlM_setLimit_ok p hnodup hfold).2 f (notMem_of_field hnone)]

/-- Without a key of its own in an output entry, the payload is said again. -/
theorem agrees_of_parsed (hdistinct : (PyValue.dict payload).Distinct) (h : Parsed p payload spec)
    (hforeign : ¬ ForeignOutputKey payload) : Agrees p payload (specToWire spec) where
  imageDigest x hx := by
    have hdigest := (parseArgv_ok h.argv).1
    rw [field, hx, Option.getD_some] at hdigest
    exact ⟨_, rfl, hdigest⟩
  argv x hx := by
    have hargv := (parseArgv_ok h.argv).2
    rw [field, hx, Option.getD_some] at hargv
    exact ⟨_, rfl, hargv⟩
  env := env_agrees p hdistinct h
  inputBlobIds := blobIds_agree p h
  declaredOutputs := outputs_agree p hdistinct h hforeign
  limits := (limits_agree p hdistinct h).1
  noEnv hnone := by
    obtain ⟨items, hitems, henv⟩ := parseEnv_ok h.env
    rw [hnone, Option.getD_none, PyValue.dict.injEq, List.nil_eq, List.map_eq_nil_iff] at hitems
    subst hitems
    have hwire : field? (specToWire spec) "env" = some (.dict (dictOf (spec.envAllowlist.map fun item => (item.1, .str item.2)))) := rfl
    rw [hwire, henv]
    rfl
  noBlobIds hnone := by
    obtain ⟨entries, hentries, hall⟩ := parseBlobIds_ok p h.blobIds
    rw [hnone, Option.getD_none, PyValue.list.injEq, List.nil_eq] at hentries
    subst hentries
    have hwire : field? (specToWire spec) "input_blob_ids" =
        some (.list (spec.inputBlobIds.map fun blobId => .str (lit blobId.str))) := rfl
    rw [hwire, List.forall₂_nil_left_iff.1 hall]
    rfl
  noOutputs hnone := by
    obtain ⟨entries, hentries, hall⟩ := parseOutputs_ok h.outputs
    rw [hnone, Option.getD_none, PyValue.list.injEq, List.nil_eq] at hentries
    subst hentries
    have hwire : field? (specToWire spec) "declared_outputs" = some (.list (spec.declaredOutputs.map fun entry =>
        .dict [(lit "path", .str entry.relativePath), (lit "max_bytes", entry.maxBytes.value)])) := rfl
    rw [hwire, List.forall₂_nil_left_iff.1 hall]
    rfl
  noLimits hnone := by
    obtain ⟨items, hitems, hfold⟩ := parseLimits_ok p h.limits
    rw [hnone, Option.getD_none, PyValue.dict.injEq, List.nil_eq] at hitems
    subst hitems
    have hlimits : defaultLimits p.floats = spec.limits := Except.ok.inj hfold
    rw [hlimits]
    rfl
  noLimit := (limits_agree p hdistinct h).2.2

/-- **The wire format.** Valid specs and outcomes that were encoded are decoded, and a body that was sent is returned,
however the stream is cut; an accepted payload is strict and agrees with what its spec is encoded to exactly when no
entry of its declared outputs has a key of its own. -/
theorem wire_format :
    (∀ spec : ExecutionSpec F, spec.argv ≠ [] → (spec.envAllowlist.map (·.1)).Nodup → ∃ env, env.Perm spec.envAllowlist ∧
      specFromWire p (specToWire spec) spec.nonce = .ok { spec with envAllowlist := env }) ∧
    (∀ outcome : ExecutionOutcome F, outcomeFromWire p (outcomeToWire outcome) = .ok outcome) ∧
    (∀ (payload : PyDict F) nonce spec, (PyValue.dict payload).Distinct → specFromWire p payload nonce = .ok spec →
      (Strict payload ∧ Agrees p payload (specToWire spec) ↔ ¬ ForeignOutputKey payload)) ∧
    (∀ body frame rest sock, body.length ≤ maxFrameBytes → sendFrame body = some frame → sock.stream = frame ++ rest →
      (recvFrame sock).1 = .ok body ∧ (recvFrame sock).2.stream = rest) ∧
    ∀ n rest sock, maxFrameBytes < n → n < 2 ^ 32 → sock.stream = packLength n ++ rest →
      (recvFrame sock).1 = refuse .malformedFrame "frame exceeds protocol cap" := by
  refine ⟨fun _ => specFromWire_toWire p, outcomeFromWire_toWire p, fun payload nonce spec hdistinct h => ?_,
    fun _ _ _ _ => recvFrame_sent, fun _ _ _ => recvFrame_long⟩
  have hparsed := specFromWire_parsed p h
  constructor
  · rintro ⟨hstrict, -⟩ ⟨entries, entry, item, hentries, hentry, hitem, hpath, hbytes⟩
    exact (hstrict.outputs entries hentries entry hentry item hitem).elim hpath hbytes
  · intro hforeign
    refine ⟨⟨unknownKeys_nil hparsed.known, fun entries hentries entry hentry item hitem => ?_,
      (limits_agree p hdistinct hparsed).2.1⟩, agrees_of_parsed p hdistinct hparsed hforeign⟩
    by_contra hkey
    rw [not_or] at hkey
    exact hforeign ⟨entries, entry, item, hentries, hentry, hitem, hkey⟩

end Accepted

/-! ## A key of its own -/

/-- A payload with one declared output, of these items. -/
def outputPayload (entry : PyDict Int) : PyDict Int :=
  [(lit "image_digest", .str []), (lit "argv", .list [.str []]), (lit "declared_outputs", .list [.dict entry])]

/-- Whole numbers. -/
def wirePlatform : Platform Int where
  floats := wholeFloats
  loads _ := none
  repr _ := []
  isspace _ := false
  decimal _ := none
  cryptoSignOpen _ _ := none

/-- The spec it is decoded to. -/
def outputSpec : ExecutionSpec Int where
  imageDigest := []
  argv := [[]]
  declaredOutputs := [⟨lit "a", .int 1⟩]
  limits := defaultLimits wholeFloats

def plainEntry : PyDict Int := [(lit "path", .str (lit "a")), (lit "max_bytes", .int 1)]

/-- An accepted payload that is strict. -/
theorem wire_format_plain :
    specFromWire wirePlatform (outputPayload plainEntry) [] = .ok outputSpec ∧ Strict (outputPayload plainEntry) := by
  have hspec : specFromWire wirePlatform (outputPayload plainEntry) [] = .ok outputSpec := by rfl
  have hdistinct : (PyValue.dict (outputPayload plainEntry)).Distinct := by
    simp only [PyValue.Distinct, DistinctItems, DistinctList, outputPayload, plainEntry, and_true]
    decide
  refine ⟨hspec, (((wire_format wirePlatform).2.2.1 _ _ _ hdistinct hspec).2 ?_).1⟩
  rintro ⟨entries, entry, item, hentries, hentry, hitem, hpath, hbytes⟩
  obtain rfl : [PyValue.dict plainEntry] = entries := by
    have hfield : field? (outputPayload plainEntry) "declared_outputs" = some (.list [.dict plainEntry]) := rfl
    simpa [hfield] using hentries
  simp only [List.mem_singleton, PyValue.dict.injEq] at hentry
  subst hentry
  simp only [plainEntry, List.mem_cons, List.not_mem_nil, or_false] at hitem
  rcases hitem with rfl | rfl
  · exact hpath rfl
  · exact hbytes rfl

/-- An entry with a mode is accepted. -/
theorem unknown_output_key_accepted :
    ∃ payload : PyDict Int, (PyValue.dict payload).Distinct ∧ specFromWire wirePlatform payload [] = .ok outputSpec ∧
      ¬ Strict payload := by
  refine ⟨outputPayload (plainEntry ++ [(lit "mode", .str (lit "0777"))]), ?_, by rfl, fun hstrict => ?_⟩
  · simp only [PyValue.Distinct, DistinctItems, DistinctList, outputPayload, plainEntry, List.cons_append, List.nil_append, and_true]
    decide
  · have hkey := hstrict.outputs _ rfl _ List.mem_cons_self (lit "mode", .str (lit "0777")) (by simp)
    revert hkey
    decide

end MilpbookLM.Execution
