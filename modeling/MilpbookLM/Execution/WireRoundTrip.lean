/-
What was encoded for the wire is decoded: a valid spec, but for the order of its environment
(`specFromWire_toWire`), and every outcome (`outcomeFromWire_toWire`). Blob ids are written
as texts, which the decoder reads as UUIDs (`uuidOf_str`).
-/
import MilpbookLM.Execution.Broker

namespace MilpbookLM.Execution

variable {F : Type}

/-! ## Blob ids -/

theorem removeFrom_of_notMem {sub : PyStr} {c : Nat} {text : PyStr} (h : c ∉ text) :
    removeFrom (c :: sub) 0 text = text := by
  induction text with
  | nil => rfl
  | cons d text ih =>
    rw [List.mem_cons, not_or] at h
    have hprefix : (c :: sub).isPrefixOf (d :: text) = false := by simp [List.isPrefixOf, h.1]
    rw [removeFrom, hprefix, if_neg Bool.false_ne_true, ih h.2]

theorem removeFrom_singleton (c : Nat) (text : PyStr) : removeFrom [c] 0 text = text.filter (· ≠ c) := by
  induction text with
  | nil => rfl
  | cons d text ih =>
    unfold removeFrom
    by_cases hd : c = d
    · subst hd
      simp [List.isPrefixOf, ih]
    · simp [List.isPrefixOf, hd, Ne.symm hd, ih]

theorem strip_of_none {q : Nat → Bool} {text : PyStr} (h : ∀ c ∈ text, q c = false) : strip q text = text := by
  have hdrop : ∀ text : PyStr, (∀ c ∈ text, q c = false) → text.dropWhile q = text := by
    intro text h
    cases text with
    | nil => rfl
    | cons c text => rw [List.dropWhile_cons, h c List.mem_cons_self, if_neg Bool.false_ne_true]
  rw [strip, hdrop text h, hdrop _ fun c hc => h c (List.mem_reverse.1 hc), List.reverse_reverse]

/-- A hex digit's code point. -/
def hexCode (d : Nat) : Nat := (Uuid.hexChar d).toNat

/-- What the decoder asks of a code point that is a digit. -/
theorem hexCode_spec {d : Nat} (h : d < 16) : hexDigit (hexCode d) = some d ∧ hexCode d < 127 ∧ asciiSpace (hexCode d) = false ∧
    hexCode d ≠ 0x2B ∧ hexCode d ≠ 0x78 ∧ hexCode d ≠ 0x58 ∧ hexCode d ≠ 0x75 ∧ hexCode d ≠ 0x7B ∧ hexCode d ≠ 0x7D ∧
      hexCode d ≠ 0x5F := by
  have hall : ∀ d : Fin 16, hexDigit (hexCode d) = some d.val ∧ hexCode d < 127 ∧ asciiSpace (hexCode d) = false ∧
      hexCode d ≠ 0x2B ∧ hexCode d ≠ 0x78 ∧ hexCode d ≠ 0x58 ∧ hexCode d ≠ 0x75 ∧ hexCode d ≠ 0x7B ∧ hexCode d ≠ 0x7D ∧
        hexCode d ≠ 0x5F := by
    decide
  exact hall ⟨d, h⟩

theorem hexDigitsFrom_hexCode {ds : List Nat} (h : ∀ d ∈ ds, d < 16) (value : Nat) :
    hexDigitsFrom value (ds.map hexCode) = some (ds.foldl (fun a d => 16 * a + d) value) := by
  induction ds generalizing value with
  | nil => rfl
  | cons d ds ih =>
    have hd := hexCode_spec (h d List.mem_cons_self)
    have hrest := ih fun e he => h e (List.mem_cons_of_mem _ he)
    rw [List.map_cons, List.foldl_cons, ← hrest]
    cases ds with
    | nil => simp [hexDigitsFrom, hd.1]
    | cons e ds =>
      rw [List.map_cons]
      conv => lhs; unfold hexDigitsFrom
      rw [if_neg hd.2.2.2.2.2.2.2.2.2, hd.1, Option.bind_some]

section Platform

variable (p : Platform F)

theorem intBase16_hexCode {ds : List Nat} (h : ∀ d ∈ ds, d < 16) (hne : ds ≠ []) :
    intBase16 p (ds.map hexCode) = some (Uuid.ofHexDigits ds) := by
  have hmap : (ds.map hexCode).map p.asciiOf = ds.map hexCode := by
    rw [List.map_map]
    refine List.map_congr_left fun d hd => ?_
    exact if_pos (hexCode_spec (h d hd)).2.1
  have hstrip : strip asciiSpace (ds.map hexCode) = ds.map hexCode := by
    refine strip_of_none fun c hc => ?_
    obtain ⟨d, hd, rfl⟩ := List.mem_map.1 hc
    exact (hexCode_spec (h d hd)).2.2.1
  have hplus : dropPlus (ds.map hexCode) = ds.map hexCode := by
    cases ds with
    | nil => rfl
    | cons d ds => exact if_neg (hexCode_spec (h d List.mem_cons_self)).2.2.2.1
  have hprefix : dropHexPrefix (ds.map hexCode) = ds.map hexCode := by
    rcases ds with _ | ⟨d, _ | ⟨e, _ | ⟨f, ds⟩⟩⟩
    · rfl
    · rfl
    all_goals
      have he := hexCode_spec (h e (List.mem_cons_of_mem _ List.mem_cons_self))
      exact if_neg fun hx => hx.2.elim he.2.2.2.2.1 he.2.2.2.2.2.1
  rw [intBase16, hmap, hstrip, hplus, hprefix]
  cases ds with
  | nil => exact absurd rfl hne
  | cons d ds =>
    rw [List.map_cons, hexInt, (hexCode_spec (h d List.mem_cons_self)).1, Option.bind_some,
      hexDigitsFrom_hexCode fun e he => h e (List.mem_cons_of_mem _ he)]
    simp [Uuid.ofHexDigits]

/-- What `str` writes of a UUID is read back. -/
theorem uuidOf_str (u : Uuid) : uuidOf p (lit u.str) = some u := by
  have hmem : ∀ c ∈ lit u.str, c = 0x2D ∨ ∃ d < 16, c = hexCode d := by
    intro c hc
    rw [lit, PyStr.ofText, List.mem_map] at hc
    obtain ⟨c, hc, rfl⟩ := hc
    rcases Uuid.mem_str hc with hdash | ⟨d, hd, hdigit⟩
    · exact .inl (congrArg Char.toNat hdash)
    · exact .inr ⟨d, hd, congrArg Char.toNat hdigit⟩
  have hu : 0x75 ∉ lit u.str := by
    intro hc
    rcases hmem _ hc with hc | ⟨d, hd, hc⟩
    · cases hc
    · exact (hexCode_spec hd).2.2.2.2.2.2.1 hc.symm
  have hurn : remove (lit "urn:") (lit u.str) = lit u.str := removeFrom_of_notMem hu
  have huuid : remove (lit "uuid:") (lit u.str) = lit u.str := removeFrom_of_notMem hu
  have hstrip : strip (fun c => c = 0x7B || c = 0x7D) (lit u.str) = lit u.str := by
    refine strip_of_none fun c hc => ?_
    rcases hmem _ hc with rfl | ⟨d, hd, rfl⟩
    · rfl
    · have hd := hexCode_spec hd
      simp [hd.2.2.2.2.2.2.2.1, hd.2.2.2.2.2.2.2.2.1]
  have hdashes : remove (lit "-") (lit u.str) = (Uuid.hexDigits 32 u.toNat).map hexCode := by
    have hdash : ∀ c : Char, decide (c.toNat ≠ 0x2D) = decide (c ≠ '-') := by
      intro c
      rw [decide_eq_decide, not_iff_not, show (0x2D : Nat) = '-'.toNat from rfl, Char.toNat_inj]
    have hfilter : remove (lit "-") (lit u.str) = (lit u.str).filter (· ≠ 0x2D) := removeFrom_singleton ..
    rw [hfilter, lit, PyStr.ofText, List.filter_map]
    simp only [Function.comp_def, hdash]
    rw [Uuid.filter_str, List.map_map]
    rfl
  have hlt : u.toNat < 16 ^ 32 := u.isLt
  have hne : Uuid.hexDigits 32 u.toNat ≠ [] := by
    intro hnil
    have hlen := Uuid.hexDigits_length 32 u.toNat
    rw [hnil] at hlen
    cases hlen
  have hint := intBase16_hexCode p (fun d hd => Uuid.hexDigits_lt hd) hne
  rw [Uuid.ofHexDigits_hexDigits, Nat.mod_eq_of_lt hlt] at hint
  simp only [uuidOf, hurn, huuid, hstrip, hdashes, List.length_map, Uuid.hexDigits_length, ne_eq, not_true_eq_false, if_false,
    hint, Option.map_some, BitVec.ofNat_toNat, BitVec.setWidth_eq]

/-! ## Encoded, then decoded -/

theorem mapM_map {α β : Type} {m : Type → Type} [Monad m] [LawfulMonad m] {f : α → β} {g : β → m α} (h : ∀ x, g (f x) = pure x)
    (xs : List α) : (xs.map f).mapM g = pure xs := by
  induction xs with
  | nil => rfl
  | cons x xs ih => rw [List.map_cons, List.mapM_cons, h x, pure_bind, ih, pure_bind]

theorem dictOf_append {α : Type} {d items : List (PyStr × α)} (h : ((d ++ items).map (·.1)).Nodup) :
    items.foldl (fun d item =>
      if d.any (·.1 == item.1) then d.map fun old => if old.1 = item.1 then item else old else d ++ [item]) d = d ++ items := by
  induction items generalizing d with
  | nil => rw [List.foldl_nil, List.append_nil]
  | cons item items ih =>
    have hnew : d.any (·.1 == item.1) = false := by
      rw [List.any_eq_false]
      intro old hold heq
      rw [List.map_append, List.map_cons, List.nodup_append] at h
      exact h.2.2 old.1 (List.mem_map_of_mem hold) item.1 List.mem_cons_self (by simpa using heq)
    rw [List.foldl_cons, hnew, if_neg Bool.false_ne_true, ih (by simpa using h), List.append_assoc, List.singleton_append]

/-- Distinct keys are all kept. -/
theorem dictOf_eq {α : Type} {items : List (PyStr × α)} (h : (items.map (·.1)).Nodup) : dictOf items = items := by
  rw [dictOf, dictOf_append (by simpa using h), List.nil_append]

section Specs

variable {spec : ExecutionSpec F}

theorem unknownKeys_toWire : unknownKeys (specToWire spec) = [] := by rfl

theorem parseArgv_toWire (h : spec.argv ≠ []) : parseArgv (specToWire spec) = .ok (spec.imageDigest, spec.argv) := by
  have hdigest : field (specToWire spec) "image_digest" = .str spec.imageDigest := rfl
  have hargv : field (specToWire spec) "argv" = .list (spec.argv.map .str) := rfl
  have hstr : ∀ part : PyStr, (PyValue.str part : PyValue F).str? = some part := fun _ => rfl
  have hparts : (spec.argv.map (.str : PyStr → PyValue F)).mapM PyValue.str? = some spec.argv := mapM_map hstr _
  rw [parseArgv, hdigest, hargv]
  cases hspec : spec.argv with
  | nil => exact absurd hspec h
  | cons part parts =>
    rw [hspec, List.map_cons] at hparts
    simp only [List.map_cons, hparts]

theorem parseEnv_toWire (h : (spec.envAllowlist.map (·.1)).Nodup) :
    ∃ env, env.Perm spec.envAllowlist ∧ parseEnv (specToWire spec) = .ok env := by
  have henv : field? (specToWire spec) "env" =
      some (.dict (dictOf (spec.envAllowlist.map fun item => (item.1, .str item.2)))) := rfl
  have hitems : dictOf (spec.envAllowlist.map fun item => (item.1, (.str item.2 : PyValue F))) =
      spec.envAllowlist.map fun item => (item.1, .str item.2) := dictOf_eq (by
      rw [List.map_map]
      exact h)
  have hmap : (spec.envAllowlist.map fun item => (item.1, (.str item.2 : PyValue F))).mapM (fun item => item.2.str?.map (item.1, ·)) =
      some spec.envAllowlist :=
    mapM_map (f := fun item => (item.1, (.str item.2 : PyValue F))) (g := fun item => item.2.str?.map (item.1, ·)) (fun _ => rfl) _
  refine ⟨sortEnv spec.envAllowlist, List.perm_insertionSort _ _, ?_⟩
  rw [parseEnv, henv, Option.getD_some, hitems]
  simp only [hmap]

theorem parseBlobIds_toWire : parseBlobIds p (specToWire spec) = .ok spec.inputBlobIds := by
  have hparse : ∀ blobId : Uuid, parseBlobId p (.str (lit blobId.str)) = .ok blobId := by
    intro blobId
    simp only [parseBlobId, uuidOf_str]
  exact mapM_map hparse _

theorem parseOutputs_toWire : parseOutputs (specToWire spec) = .ok spec.declaredOutputs := by
  have hparse : ∀ entry : DeclaredOutput, parseOutput
      (.dict [(lit "path", .str entry.relativePath), (lit "max_bytes", (entry.maxBytes.value : PyValue F))]) = .ok entry := by
    intro entry
    have hpath : field [(lit "path", .str entry.relativePath), (lit "max_bytes", (entry.maxBytes.value : PyValue F))] "path" =
        .str entry.relativePath := rfl
    have hbytes : field [(lit "path", .str entry.relativePath), (lit "max_bytes", (entry.maxBytes.value : PyValue F))] "max_bytes" =
        entry.maxBytes.value := rfl
    simp only [parseOutput, hpath, hbytes, PyInt.int_value]
  exact mapM_map hparse _

theorem findField (field : LimitField) : LimitField.all.find? (fun known => lit known.name == lit field.name) = some field := by
  cases field <;> rfl

theorem setLimit_field (limits : ExecutionLimits F) (field : LimitField) (value : PyNumber F) :
    setLimit p limits (lit field.name, value.value) = .ok (Function.update limits field value) := by
  simp only [setLimit, findField, PyNumber.number_value]

theorem foldlM_setLimit (fields : List LimitField) (limits limits' : ExecutionLimits F) :
    (fields.map fun field => (lit field.name, (limits' field).value)).foldlM (setLimit p) limits =
      .ok fun field => if field ∈ fields then limits' field else limits field := by
  induction fields generalizing limits with
  | nil => rfl
  | cons field fields ih =>
    rw [List.map_cons, List.foldlM_cons, setLimit_field]
    refine (ih _).trans (congrArg Except.ok (funext fun f => ?_))
    by_cases hf : f = field
    · subst hf
      simp
    · simp [hf]

theorem parseLimits_toWire : parseLimits p (specToWire spec) = .ok spec.limits := by
  refine (foldlM_setLimit p LimitField.all _ _).trans (congrArg Except.ok (funext fun field => if_pos ?_))
  cases field <;> decide

/-- **A valid spec that was encoded is decoded**, but for the order of its environment. -/
theorem specFromWire_toWire (hargv : spec.argv ≠ []) (henv : (spec.envAllowlist.map (·.1)).Nodup) :
    ∃ env, env.Perm spec.envAllowlist ∧ specFromWire p (specToWire spec) spec.nonce = .ok { spec with envAllowlist := env } := by
  obtain ⟨env, hperm, hparse⟩ := parseEnv_toWire henv
  refine ⟨env, hperm, ?_⟩
  simp only [specFromWire, unknownKeys_toWire, parseArgv_toWire hargv, hparse, parseBlobIds_toWire, parseOutputs_toWire,
    parseLimits_toWire]
  rfl

end Specs

section Outcomes

theorem ofValue_value (status : ExecutionStatus) : ExecutionStatus.ofValue (lit status.value) = some status := by
  cases status <;> rfl

theorem parseProduced_toWire (output : ProducedOutput) : parseProduced p (producedToWire output) = .ok output := by
  have hfields : producedFields [(lit "declared_path", .str output.declaredPath),
      (lit "content_sha256", .str output.contentSha256), (lit "size_bytes", output.sizeBytes.value),
      (lit "sniffed_media", .str output.sniffedMedia), (lit "quarantine_path", .str output.quarantinePath),
      (lit "blob_id", (optional (fun blobId : Uuid => .str (lit blobId.str)) output.blobId : PyValue F))] =
        some ({ output with blobId := none }, output.blobId.map fun blobId => lit blobId.str) := by
    have hread : ∀ blobId : Option Uuid, optional? PyValue.str?
        (optional (fun blobId : Uuid => (.str (lit blobId.str) : PyValue F)) blobId) =
          some (blobId.map fun blobId => lit blobId.str) := by
      rintro (_ | blobId) <;> rfl
    change ((output.sizeBytes.value : PyValue F).int?.bind fun sizeBytes => (optional? PyValue.str?
      (optional (fun blobId : Uuid => (.str (lit blobId.str) : PyValue F)) output.blobId)).bind fun blobId =>
        some (({ output with sizeBytes, blobId := none } : ProducedOutput), blobId)) = _
    rw [PyInt.int_value, hread]
    rfl
  obtain ⟨path, digest, size, media, quarantine, _ | blobId⟩ := output
  · simp only [producedToWire, parseProduced, hfields]
    rfl
  · simp only [producedToWire, parseProduced, hfields, uuidOf_str, Option.map_some]

/-- **An outcome that was encoded is decoded.** -/
theorem outcomeFromWire_toWire (outcome : ExecutionOutcome F) : outcomeFromWire p (outcomeToWire outcome) = .ok outcome := by
  have hexit : optional? PyValue.int? (optional (PyInt.value : PyInt → PyValue F) outcome.exitCode) = some outcome.exitCode := by
    rcases outcome.exitCode with _ | n
    · rfl
    · cases n <;> rfl
  have hfields : outcomeFields (outcomeToWire outcome) = (do
      let exitCode ← optional? PyValue.int? (optional (PyInt.value : PyInt → PyValue F) outcome.exitCode)
      let oomKillCount ← (outcome.oomKillCount.value : PyValue F).int?
      let undeclaredOutputCount ← (outcome.undeclaredOutputCount.value : PyValue F).int?
      return ⟨lit outcome.status.value, exitCode, Base64.encode outcome.stdoutExcerpt, Base64.encode outcome.stderrExcerpt,
        outcome.outputs.map producedToWire, .float outcome.wallSeconds, oomKillCount, outcome.killMethod,
        outcome.imageDigest, outcome.truncatedStreams, undeclaredOutputCount⟩) := rfl
  rw [hexit, PyInt.int_value, PyInt.int_value] at hfields
  have houtputs : (outcome.outputs.map (producedToWire : ProducedOutput → PyValue F)).mapM (parseProduced p) =
      .ok outcome.outputs := mapM_map (parseProduced_toWire p) _
  simp only [Option.bind_eq_bind, Option.bind_some, Option.pure_def] at hfields
  simp only [outcomeFromWire, hfields, Base64.decode_encode, houtputs, ofValue_value, PyNumber.value, PyValue.float?]
  rfl

end Outcomes

end Platform

end MilpbookLM.Execution
