/-
Notebooks with an enabled owner, or in custody. `CustodyCall.Keeps` says of a call, in the
state before it, that it leaves every such notebook so; a notebook that is not such keeps
its owners and its lock until a call covers it.
-/
import MilpbookLM.Accounts.CustodyStore

namespace MilpbookLM.Accounts

open Table Interleave

/-! ## Owners and custody -/

namespace CustodyWorld

variable (w : CustodyWorld) {n n' : Uuid} {u v : Uuid}

def enabled (userId : Uuid) : Bool := (w.user? userId).any (·.enabled)

/-- A membership of role owner whose user is enabled. -/
def enabledOwner (notebookId : Uuid) : Bool := (w.owners notebookId).any w.enabled

/-- Another owner than `userId` is enabled. -/
def otherEnabledOwner (notebookId userId : Uuid) : Bool := (w.owners notebookId).any fun v => v ≠ userId && w.enabled v

/-- The column says locked. -/
def locked (notebookId : Uuid) : Bool := (w.notebook? notebookId).any (·.custodyState = .lockedAdminCustody)

/-- A custody record of a phase other than none. -/
def openCustody (notebookId : Uuid) : Bool :=
  (w.notebook? notebookId).any fun row =>
    (custodyRecord notebookId row.custodyState (w.custodyEvent? notebookId)).phase ≠ .none

def Covered (notebookId : Uuid) : Prop := w.enabledOwner notebookId = true ∨ w.openCustody notebookId = true

instance (notebookId : Uuid) : Decidable (w.Covered notebookId) := inferInstanceAs (Decidable (_ ∨ _))

variable {w}

theorem enabledOwner_iff : w.enabledOwner n = true ↔ ∃ v ∈ w.owners n, w.enabled v = true := by
  simp [enabledOwner]

theorem otherEnabledOwner_iff : w.otherEnabledOwner n u = true ↔ ∃ v ∈ w.owners n, v ≠ u ∧ w.enabled v = true := by
  simp [otherEnabledOwner]

theorem mem_owners : v ∈ w.owners n ↔ ∃ m ∈ w.memberships, m.notebookId = n ∧ m.userId = v ∧ m.role = .owner := by
  simp only [owners, members, NotebookOwnership.ownerIds, List.mem_map, List.mem_filter, decide_eq_true_eq]
  constructor
  · rintro ⟨_, ⟨⟨m, ⟨hm, hn⟩, rfl⟩, hrole⟩, rfl⟩
    exact ⟨m, hm, hn, rfl, hrole⟩
  · rintro ⟨m, hm, hn, rfl, hrole⟩
    exact ⟨_, ⟨⟨m, ⟨hm, hn⟩, rfl⟩, hrole⟩, rfl⟩

/-- A phase other than none: the column is locked, and there is an event. -/
theorem phase_ne_none {column : CustodyState} {event : Option AuditEvent} :
    (custodyRecord n column event).phase ≠ .none ↔ column = .lockedAdminCustody ∧ event.isSome := by
  cases column <;> cases event <;> simp only [custodyRecord]
  · simp
  · simp
  · simp
  · split <;> simp

theorem openCustody_iff : w.openCustody n = true ↔ w.locked n = true ∧ (w.custodyEvent? n).isSome := by
  simp only [openCustody, locked, Option.any_eq_true, decide_eq_true_eq, phase_ne_none]
  constructor
  · rintro ⟨row, hrow, hlocked, hevent⟩
    exact ⟨⟨row, hrow, hlocked⟩, hevent⟩
  · rintro ⟨⟨row, hrow, hlocked⟩, hevent⟩
    exact ⟨row, hrow, hlocked, hevent⟩

theorem latest_isSome {events : List AuditEvent} : (latest events).isSome ↔ events ≠ [] := by
  cases events with
  | nil => simp [latest]
  | cons event events =>
    simp only [latest]
    split
    · split <;> simp
    · simp

/-- A notebook has a custody event when one was recorded. -/
theorem custodyEvent_isSome : (w.custodyEvent? n).isSome ↔ ∃ event ∈ w.auditEvents, event.ofCustody n = true := by
  simp [custodyEvent?, latest_isSome, List.filter_eq_nil_iff]

/-! ### What the writes leave of them -/

theorem owners_congr {w' : CustodyWorld} (h : w'.memberships = w.memberships) : w'.owners = w.owners := by
  funext n
  rw [owners, owners, members, members, h]

theorem notebook?_updated {w' : CustodyWorld} {p : NotebookRow → Bool} {f : NotebookRow → NotebookRow}
    (hw : w'.notebooks = update p f w.notebooks) (hf : ∀ row, (f row).id = row.id) :
    w'.notebook? n = (w.notebook? n).map fun row => if p row then f row else row := by
  rw [notebook?, hw]
  exact lookup_update (fun row _ => hf row) _ _

/-- An update that keeps the column. -/
theorem locked_updated {w' : CustodyWorld} {p : NotebookRow → Bool} {f : NotebookRow → NotebookRow}
    (hw : w'.notebooks = update p f w.notebooks) (hf : ∀ row, (f row).id = row.id)
    (hc : ∀ row, (f row).custodyState = row.custodyState) : w'.locked n = w.locked n := by
  rw [locked, locked, notebook?_updated hw hf]
  cases w.notebook? n with
  | none => rfl
  | some row =>
    simp only [Option.map_some, Option.any_some]
    split <;> simp [hc]

theorem locked_saveColumn {column : CustodyState} :
    (w.saveColumn n' column).locked n = if n = n' then (w.notebook? n).isSome && column = .lockedAdminCustody else w.locked n := by
  have hrows : (w.saveColumn n' column).notebooks =
      update (·.id = n') (fun row : NotebookRow => { row with custodyState := column }) w.notebooks := rfl
  rw [locked, locked, notebook?_updated hrows fun _ => rfl]
  cases hrow : w.notebook? n with
  | none => simp
  | some row =>
    obtain rfl : row.id = n := (lookup_some hrow).2
    by_cases hn : row.id = n' <;> simp [hn]

theorem enabled_updateStatus {status : UserStatus} :
    (w.updateStatus u status).enabled v = if v = u then (w.user? v).isSome && status = .active else w.enabled v := by
  have huser : (w.updateStatus u status).user? v = (w.user? v).map fun row => if row.id = u then { row with status } else row := by
    have hupdate := @lookup_update _ _ _ (fun row : User => row.id) (fun row => row.id = u) (fun row => { row with status })
      (fun _ _ => rfl) w.users v
    simp only [decide_eq_true_eq] at hupdate
    exact hupdate
  rw [enabled, enabled, huser]
  cases hrow : w.user? v with
  | none => simp
  | some row =>
    obtain rfl : row.id = v := (lookup_some hrow).2
    by_cases hu : row.id = u <;> simp [hu, User.enabled]

theorem mem_owners_removeMember : v ∈ (w.removeMember n' u).owners n ↔ v ∈ w.owners n ∧ (n ≠ n' ∨ v ≠ u) := by
  simp only [mem_owners, removeMember, List.mem_filter]
  grind

theorem mem_owners_deleteOwner : v ∈ (w.deleteOwner n' u).owners n ↔ v ∈ w.owners n ∧ (n ≠ n' ∨ v ≠ u) := by
  simp only [mem_owners, deleteOwner, List.mem_filter]
  grind

theorem owners_eq : w.owners n = (w.memberships.filter fun m => m.notebookId = n && m.role = .owner).map (·.userId) := by
  simp only [owners, members, NotebookOwnership.ownerIds, List.filter_map, List.map_map, List.filter_filter]
  congr 1
  exact List.filter_congr fun m _ => by simp [Bool.and_comm]

/-- The owners of a notebook stay when none of their memberships is dropped. -/
theorem owners_filter {w' : CustodyWorld} {keep : MembershipRow → Bool} (hw : w'.memberships = w.memberships.filter keep)
    (h : ∀ m ∈ w.memberships, m.notebookId = n → m.role = .owner → keep m = true) : w'.owners n = w.owners n := by
  rw [owners_eq, owners_eq, hw, List.filter_filter]
  congr 1
  refine List.filter_congr fun m hm => ?_
  by_cases hrow : m.notebookId = n ∧ m.role = .owner
  · simp [hrow, h m hm hrow.1 hrow.2]
  · simpa using fun hn hrole => absurd ⟨hn, hrole⟩ hrow

theorem owners_removeMember (h : n = n' → u ∉ w.owners n) : (w.removeMember n' u).owners n = w.owners n := by
  refine owners_filter rfl fun m hm hn hrole => ?_
  have hnot : ¬ m.notebookId = n' ∨ ¬ m.userId = u :=
    not_and_or.1 fun hrow => h (hn.symm.trans hrow.1) (mem_owners.2 ⟨m, hm, hn, hrow.2, hrole⟩)
  simpa using hnot

theorem owners_deleteOwner (h : n = n' → u ∉ w.owners n) : (w.deleteOwner n' u).owners n = w.owners n := by
  refine owners_filter rfl fun m hm hn hrole => ?_
  have hnot : ¬ m.notebookId = n' ∨ ¬ m.userId = u :=
    not_and_or.1 fun hrow => h (hn.symm.trans hrow.1) (mem_owners.2 ⟨m, hm, hn, hrow.2, hrole⟩)
  simpa [hrole] using hnot

/-- The promotion of owners changes nothing. -/
theorem owners_updateOwner {id grantedBy : Uuid}
    (h : ∀ m ∈ w.memberships, m.id = id → m.notebookId = n → m.role = .owner) :
    (w.updateOwner id n' u grantedBy).owners n = w.owners n := by
  rw [owners_eq, owners_eq]
  show ((update (·.id = id) (fun m : MembershipRow => { m with role := .owner, grantedByUserId := some grantedBy })
    w.memberships).filter _).map _ = _
  generalize w.memberships = rows at h ⊢
  induction rows with
  | nil => rfl
  | cons m rows ih =>
    have ih := ih fun m' hm' => h m' (List.mem_cons_of_mem _ hm')
    have hm := h m List.mem_cons_self
    simp only [update, List.map_cons, List.filter_cons] at ih ⊢
    by_cases hid : m.id = id
    · by_cases hn : m.notebookId = n
      · simpa [hid, hn, hm hid hn] using ih
      · simpa [hid, hn] using ih
    · by_cases hn : m.notebookId = n && m.role = .owner
      · simpa [hid, hn] using ih
      · simpa [hid, hn] using ih

theorem mem_owners_updateOwner {id grantedBy : Uuid} (h : v ∈ w.owners n) : v ∈ (w.updateOwner id n' u grantedBy).owners n := by
  obtain ⟨m, hm, hn, hv, hrole⟩ := mem_owners.1 h
  refine mem_owners.2 ⟨_, List.mem_map_of_mem hm, ?_⟩
  split <;> exact ⟨hn, hv, by first | rfl | exact hrole⟩

theorem owners_insertOwner {newId grantedBy : Uuid} :
    (w.insertOwner newId n' u grantedBy).owners n = if n = n' then w.owners n ++ [u] else w.owners n := by
  have hmembers : (w.insertOwner newId n' u grantedBy).memberships = w.memberships ++ [⟨newId, n', u, .owner, some grantedBy⟩] := rfl
  simp only [owners, members, NotebookOwnership.ownerIds, hmembers, List.filter_append, List.map_append]
  by_cases hn : n = n'
  · simp [hn]
  · simp [hn, Ne.symm hn]

theorem custodyEvent_record {event : AuditEvent} (h : (w.custodyEvent? n).isSome) : ((w.record event).custodyEvent? n).isSome := by
  obtain ⟨e, he, hn⟩ := custodyEvent_isSome.1 h
  exact custodyEvent_isSome.2 ⟨e, List.mem_append_left _ he, hn⟩

theorem openCustody_congr {w' : CustodyWorld} (hlocked : ∀ n, w'.locked n = w.locked n) (haudit : w'.auditEvents = w.auditEvents) :
    w'.openCustody = w.openCustody := by
  funext n
  rw [Bool.eq_iff_iff, openCustody_iff, openCustody_iff, hlocked, custodyEvent?, custodyEvent?, haudit]

theorem covered_mono {w' : CustodyWorld} (hc : w.Covered n)
    (howner : ∀ v ∈ w.owners n, w.enabled v = true → v ∈ w'.owners n ∧ w'.enabled v = true)
    (hlocked : w.locked n = true → w'.locked n = true)
    (hevent : (w.custodyEvent? n).isSome → (w'.custodyEvent? n).isSome) : w'.Covered n := by
  rcases hc with hc | hc
  · obtain ⟨v, hv, henabled⟩ := enabledOwner_iff.1 hc
    exact .inl (enabledOwner_iff.2 ⟨v, howner v hv henabled⟩)
  · obtain ⟨h, h'⟩ := openCustody_iff.1 hc
    exact .inr (openCustody_iff.2 ⟨hlocked h, hevent h'⟩)

end CustodyWorld

/-! ## What a call must leave -/

/-- In the state before it the call leaves every covered notebook covered; with `window`, but for what the account that
a `DisableAccount` disables owns alone. -/
def CustodyCall.Keeps (window : Bool) (w : CustodyWorld) : CustodyCall → Prop
  | .updateStatus u status => status = .active ∨ w.enabled u = false ∨ ∀ n, u ∈ w.owners n →
      w.openCustody n = true ∨ w.otherEnabledOwner n u = true ∨ (window = true ∧ status = .disabled ∧ w.owners n = [u])
  | .saveCustody n phase => phase = .none → w.enabledOwner n = true
  | .updateOwner id _ _ _ => ∀ m ∈ w.memberships, m.id = id →
      m.role = .owner ∨ w.enabled m.userId = true ∨ w.Covered m.notebookId
  | .insertOwner n u _ => w.enabled u = true ∨ w.Covered n
  | .removeMember n u => u ∈ w.owners n → w.openCustody n = true ∨ w.otherEnabledOwner n u = true
  | .deleteOwner n u unlock => w.otherEnabledOwner n u = true ∨
      unlock = false ∧ (u ∈ w.owners n → w.openCustody n = true)
  | _ => True

section Calls

variable {w : CustodyWorld} {c : CustodyCall} {env : CustodyEnv} {window : Bool} {n n' : Uuid} {u v : Uuid}

theorem columnForPhase_locked {phase : CustodyPhase} (h : phase ≠ .none) : columnForPhase phase = .lockedAdminCustody := by
  cases phase <;> first | rfl | exact absurd rfl h

/-- The column of a notebook stays locked, or it is given up where an owner is enabled. -/
theorem locked_saveCustody {phase : CustodyPhase} (hk : (CustodyCall.saveCustody n' phase).Keeps window w)
    (h : w.locked n = true) : (w.saveColumn n' (columnForPhase phase)).locked n = true ∨ w.enabledOwner n = true := by
  rw [CustodyWorld.locked_saveColumn]
  by_cases hn : n = n'
  · subst hn
    by_cases hphase : phase = .none
    · exact .inr (hk hphase)
    · have hsome : (w.notebook? n).isSome := by
        cases hrow : w.notebook? n with
        | none => simp [CustodyWorld.locked, hrow] at h
        | some row => rfl
      simp [columnForPhase_locked hphase, hsome]
  · simp [hn, h]

theorem covered_updateStatus {status : UserStatus} (hk : (CustodyCall.updateStatus u status).Keeps window w) (hc : w.Covered n) :
    (w.updateStatus u status).Covered n ∨ (window = true ∧ status = .disabled ∧ w.owners n = [u]) := by
  have howners : (w.updateStatus u status).owners = w.owners := CustodyWorld.owners_congr rfl
  have hopen : w.openCustody n = true → (w.updateStatus u status).Covered n := .inr
  have hkept : ∀ v ∈ w.owners n, w.enabled v = true → v ≠ u → (w.updateStatus u status).Covered n := by
    intro v hv henabled hne
    exact .inl (CustodyWorld.enabledOwner_iff.2 ⟨v, howners ▸ hv, by rw [CustodyWorld.enabled_updateStatus, if_neg hne, henabled]⟩)
  rcases hc with hc | hc
  · obtain ⟨v, hv, henabled⟩ := CustodyWorld.enabledOwner_iff.1 hc
    by_cases hvu : v = u
    · subst hvu
      rcases hk with rfl | hk | hk
      · refine .inl (.inl (CustodyWorld.enabledOwner_iff.2 ⟨v, howners ▸ hv, ?_⟩))
        cases hrow : w.user? v with
        | none => simp [CustodyWorld.enabled, hrow] at henabled
        | some row => simp [CustodyWorld.enabled_updateStatus, hrow]
      · rw [henabled] at hk
        cases hk
      · rcases hk n hv with hk | hk | hk
        · exact .inl (hopen hk)
        · obtain ⟨v', hv', hne, henabled'⟩ := CustodyWorld.otherEnabledOwner_iff.1 hk
          exact .inl (hkept v' hv' henabled' hne)
        · exact .inr hk
    · exact .inl (hkept v hv henabled hvu)
  · exact .inl (hopen hc)

/-- A membership of `u` is gone: what is left has another enabled owner, or open custody. -/
theorem covered_removed {w' : CustodyWorld} (hmem : ∀ {n v}, v ∈ w'.owners n ↔ v ∈ w.owners n ∧ (n ≠ n' ∨ v ≠ u))
    (henabled : w'.enabled = w.enabled) (hopen : w'.openCustody = w.openCustody)
    (hk : u ∈ w.owners n' → w.openCustody n' = true ∨ w.otherEnabledOwner n' u = true) (hc : w.Covered n) : w'.Covered n := by
  have hother : w.otherEnabledOwner n' u = true → w'.Covered n' := by
    intro h
    obtain ⟨v, hv, hne, hv'⟩ := CustodyWorld.otherEnabledOwner_iff.1 h
    exact .inl (CustodyWorld.enabledOwner_iff.2 ⟨v, hmem.2 ⟨hv, .inr hne⟩, henabled ▸ hv'⟩)
  rcases hc with hc | hc
  · obtain ⟨v, hv, hv'⟩ := CustodyWorld.enabledOwner_iff.1 hc
    by_cases hn : n ≠ n' ∨ v ≠ u
    · exact .inl (CustodyWorld.enabledOwner_iff.2 ⟨v, hmem.2 ⟨hv, hn⟩, henabled ▸ hv'⟩)
    · obtain ⟨rfl, rfl⟩ : n = n' ∧ v = u := by simpa using hn
      rcases hk hv with hk | hk
      · exact .inr (hopen ▸ hk)
      · exact hother hk
  · exact .inr (hopen ▸ hc)

theorem locked_removeMember : (w.removeMember n' u).locked n = w.locked n := by
  have hrows : (w.removeMember n' u).notebooks = update (fun row : NotebookRow => row.id = n' && row.ownerUserId = some u)
      (fun row : NotebookRow => { row with ownerUserId := none }) w.notebooks := rfl
  exact CustodyWorld.locked_updated hrows (fun _ => rfl) fun _ => rfl

theorem openCustody_removeMember : (w.removeMember n' u).openCustody = w.openCustody :=
  CustodyWorld.openCustody_congr (fun _ => locked_removeMember) rfl

theorem locked_pointTo : (w.pointTo n' u).locked n = w.locked n := by
  have hrows : (w.pointTo n' u).notebooks =
      update (·.id = n') (fun row : NotebookRow => { row with ownerUserId := some u }) w.notebooks := rfl
  exact CustodyWorld.locked_updated hrows (fun _ => rfl) fun _ => rfl

theorem covered_saveCustody {phase : CustodyPhase} (hk : (CustodyCall.saveCustody n' phase).Keeps window w) (hc : w.Covered n) :
    (w.saveColumn n' (columnForPhase phase)).Covered n := by
  rcases hc with hc | hc
  · exact .inl hc
  · obtain ⟨hlocked, hevent⟩ := CustodyWorld.openCustody_iff.1 hc
    exact (locked_saveCustody hk hlocked).symm.imp id fun h => CustodyWorld.openCustody_iff.2 ⟨h, hevent⟩

theorem covered_deleteOwner {unlock : Bool} (hk : (CustodyCall.deleteOwner n' u unlock).Keeps window w) (hc : w.Covered n) :
    ((if unlock then w.saveColumn n' .none else w).deleteOwner n' u).Covered n := by
  refine covered_removed CustodyWorld.mem_owners_deleteOwner rfl rfl (fun hu => ?_) ?_
  · rcases hk with hk | ⟨rfl, hk⟩
    · refine .inr ?_
      cases unlock <;> exact hk
    · exact .inl (hk hu)
  · cases unlock with
    | false => exact hc
    | true =>
      have hother : w.otherEnabledOwner n' u = true := by simpa [CustodyCall.Keeps] using hk
      obtain ⟨v, hv, -, henabled⟩ := CustodyWorld.otherEnabledOwner_iff.1 hother
      have hkeeps : (CustodyCall.saveCustody n' .none).Keeps window w :=
        fun _ => CustodyWorld.enabledOwner_iff.2 ⟨v, hv, henabled⟩
      exact covered_saveCustody hkeeps hc

/-- **A call leaves covered what is covered**, but for what a disabled account owns alone. -/
theorem covered_exec (hk : c.Keeps window w) (hc : w.Covered n) : (c.exec env w).2.Covered n ∨
    (window = true ∧ ∃ u, c = .updateStatus u .disabled ∧ (w.user? u).isSome ∧ w.owners n = [u]) := by
  cases c with
  | updateStatus u status =>
    simp only [CustodyCall.exec]
    split
    · exact .inl hc
    · next hknown =>
      refine (covered_updateStatus hk hc).imp_right fun ⟨hwindow, hstatus, howners⟩ => ⟨hwindow, u, by rw [hstatus], ?_, howners⟩
      cases hrow : w.user? u with
      | none => exact absurd (by simp [hrow]) hknown
      | some row => rfl
  | saveCustody n' phase =>
    refine .inl ?_
    simp only [CustodyCall.exec]
    split
    · exact hc
    · exact covered_saveCustody hk hc
  | updateOwner membershipId n' u grantedBy =>
    exact .inl (CustodyWorld.covered_mono hc (fun v hv henabled => ⟨CustodyWorld.mem_owners_updateOwner hv, henabled⟩)
      (fun h => locked_pointTo.trans h) id)
  | insertOwner n' u grantedBy =>
    refine .inl ?_
    simp only [CustodyCall.exec]
    split
    · exact hc
    · split
      · exact hc
      · refine CustodyWorld.covered_mono hc (fun v hv henabled => ⟨?_, henabled⟩) (fun h => locked_pointTo.trans h) id
        rw [CustodyWorld.owners_insertOwner]
        split
        · exact List.mem_append_left _ hv
        · exact hv
  | removeMember n' u => exact .inl (covered_removed CustodyWorld.mem_owners_removeMember rfl openCustody_removeMember hk hc)
  | record =>
    exact .inl (CustodyWorld.covered_mono hc (fun v hv henabled => ⟨hv, henabled⟩) id CustodyWorld.custodyEvent_record)
  | deleteOwner n' u unlock =>
    refine .inl ?_
    simp only [CustodyCall.exec]
    split
    · exact hc
    · exact covered_deleteOwner hk hc
  | _ => exact .inl hc

theorem enabledOwner_of_other (h : w.otherEnabledOwner n u = true) : w.enabledOwner n = true := by
  obtain ⟨v, hv, -, henabled⟩ := CustodyWorld.otherEnabledOwner_iff.1 h
  exact CustodyWorld.enabledOwner_iff.2 ⟨v, hv, henabled⟩

/-- Who may be removed from a notebook that is not covered is no owner of it. -/
theorem notMem_owners (hc : ¬ w.Covered n) (hk : u ∈ w.owners n → w.openCustody n = true ∨ w.otherEnabledOwner n u = true) :
    u ∉ w.owners n :=
  fun hu => hc ((hk hu).symm.imp_left enabledOwner_of_other)

/-- A call leaves the owners of a notebook that is not covered, and its lock; or it covers it. -/
theorem uncovered_exec (hk : c.Keeps window w) (hc : ¬ w.Covered n) : (c.exec env w).2.Covered n ∨
    (c.exec env w).2.owners n = w.owners n ∧ (w.locked n = true → (c.exec env w).2.locked n = true) := by
  cases c with
  | updateStatus u status =>
    simp only [CustodyCall.exec]
    split
    · exact .inr ⟨rfl, id⟩
    · exact .inr ⟨rfl, id⟩
  | saveCustody n' phase =>
    simp only [CustodyCall.exec]
    split
    · exact .inr ⟨rfl, id⟩
    · refine .inr ⟨rfl, fun h => ?_⟩
      exact (locked_saveCustody hk h).resolve_right fun h => hc (.inl h)
  | updateOwner membershipId n' u grantedBy =>
    by_cases hrole : ∀ m ∈ w.memberships, m.id = membershipId → m.notebookId = n → m.role = .owner
    · exact .inr ⟨CustodyWorld.owners_updateOwner hrole, fun h => locked_pointTo.trans h⟩
    · push Not at hrole
      obtain ⟨m, hm, hid, rfl, hrole⟩ := hrole
      have henabled : w.enabled m.userId = true := ((hk m hm hid).resolve_left hrole).resolve_right hc
      refine .inl (.inl (CustodyWorld.enabledOwner_iff.2 ⟨m.userId, CustodyWorld.mem_owners.2 ?_, henabled⟩))
      exact ⟨_, List.mem_map_of_mem hm, by simp [hid]⟩
  | insertOwner n' u grantedBy =>
    simp only [CustodyCall.exec]
    split
    · exact .inr ⟨rfl, id⟩
    · split
      · exact .inr ⟨rfl, id⟩
      · by_cases hn : n = n'
        · subst hn
          refine .inl (.inl (CustodyWorld.enabledOwner_iff.2 ⟨u, ?_, hk.resolve_right hc⟩))
          simp [CustodyWorld.owners_insertOwner]
        · exact .inr ⟨by simp [CustodyWorld.owners_insertOwner, hn], fun h => locked_pointTo.trans h⟩
  | removeMember n' u =>
    refine .inr ⟨CustodyWorld.owners_removeMember fun h => notMem_owners hc (h ▸ hk), fun h => locked_removeMember.trans h⟩
  | deleteOwner n' u unlock =>
    simp only [CustodyCall.exec]
    split
    · exact .inr ⟨rfl, id⟩
    · have hother : n = n' → w.otherEnabledOwner n' u = false := by
        rintro rfl
        simpa using fun h => hc (.inl (enabledOwner_of_other h))
      cases unlock with
      | false =>
        have hnot : n = n' → u ∉ w.owners n := by
          rintro rfl
          exact notMem_owners hc fun hu => hk.symm.imp_left fun hk => hk.2 hu
        exact .inr ⟨CustodyWorld.owners_deleteOwner hnot, id⟩
      | true =>
        have hk : w.otherEnabledOwner n' u = true := by simpa [CustodyCall.Keeps] using hk
        have hn : n ≠ n' := by
          intro hn
          cases (hother hn).symm.trans hk
        refine .inr ⟨CustodyWorld.owners_deleteOwner fun h => absurd h hn, fun h => ?_⟩
        show (w.saveColumn n' .none).locked n = true
        rw [CustodyWorld.locked_saveColumn, if_neg hn, h]
  | _ => exact .inr ⟨rfl, id⟩

end Calls

end MilpbookLM.Accounts
