/-
The history of notes, in every run of the use cases. A new note has its first revision;
an edit that carries the current etag adds the next one, or finds its content unchanged,
and whatever else a call does leaves notes and revisions as they are.
-/
import MilpbookLM.Studio.Notes

namespace MilpbookLM.Studio

open Table Interleave

/-! ## What the transactions do -/

section Store

variable {w w' : NoteWorld} {noteId : Uuid} {expectedEtag : String} {revision : NoteRevisionView}

/-- The row of a note whose latest revision has this number. -/
def NoteView.atRevision (note : NoteView) (revisionId : Uuid) (number : Nat) : NoteView :=
  { note with currentRevisionId := some revisionId, revision := number, etag := toString number }

theorem insertRevision_ok (h : w.insertRevision revision = .ok w') :
    w' = { w with revisions := w.revisions ++ [revision] } ∧ (∀ r ∈ w.revisions, r.revisionId ≠ revision.revisionId) ∧
      ∃ note, w.note? revision.noteId = some note := by
  unfold NoteWorld.insertRevision at h
  split at h
  · cases h
  split at h
  · cases h
  next hid =>
  split at h
  · cases h
  split at h
  · cases h
  split at h
  · cases h
  next hnote =>
  cases h
  refine ⟨rfl, fun r hr he => hid (List.any_eq_true.2 ⟨r, hr, by simpa using he⟩), ?_⟩
  exact Option.ne_none_iff_exists'.1 (by simpa using hnote)

/-- A note that is created is new, and has the revision it came with. -/
theorem create_ok {snapshot out : NoteSnapshot} (h : w.create snapshot = .ok (out, w')) :
    (∀ n ∈ w.notes, n.noteId ≠ snapshot.note.noteId) ∧ (∀ r ∈ w.revisions, r.revisionId ≠ snapshot.revision.revisionId) ∧
      w' = { w with
        notes := w.notes ++ [snapshot.note.atRevision snapshot.revision.revisionId 1]
        revisions := w.revisions ++ [snapshot.revision] } := by
  unfold NoteWorld.create at h
  split at h
  · cases h
  split at h
  · cases h
  next hid =>
  obtain ⟨w₁, hinsert, h⟩ := Except.bind_ok_iff.1 h
  cases h
  obtain ⟨rfl, hfresh, -⟩ := insertRevision_ok hinsert
  exact ⟨fun n hn he => hid (List.any_eq_true.2 ⟨n, hn, by simpa using he⟩), hfresh, rfl⟩

/-- An edit of the note that carries its etag; `currentRevision` is the revision it finds. -/
structure CurrentEdit (w : NoteWorld) (noteId : Uuid) (expectedEtag : String) (current : NoteView)
    (currentRevision : NoteRevisionView) : Prop where
  found : w.note? noteId = some current
  editable : current.editable
  etag : current.etag = expectedEtag
  revision : current.currentRevisionId.bind w.revision? = some currentRevision

/-- What `append_revision` comes to. -/
inductive Appends (w : NoteWorld) (noteId : Uuid) (expectedEtag : String) (revision : NoteRevisionView) :
    Except NoteError (Option NoteSnapshot × NoteWorld) → Prop
  | unknown : Appends w noteId expectedEtag revision (.ok (none, w))
  | raised (e : NoteError) : Appends w noteId expectedEtag revision (.error e)
  | same {current currentRevision} : CurrentEdit w noteId expectedEtag current currentRevision →
      currentRevision.contentSha256 = revision.contentSha256 →
      Appends w noteId expectedEtag revision (.ok (some ⟨current, currentRevision⟩, w))
  | added {current currentRevision} : CurrentEdit w noteId expectedEtag current currentRevision →
      currentRevision.contentSha256 ≠ revision.contentSha256 → (∀ r ∈ w.revisions, r.revisionId ≠ revision.revisionId) →
      Appends w noteId expectedEtag revision (.ok
        (some ⟨current.atRevision revision.revisionId (current.revision + 1),
          { revision with revisionNumber := current.revision + 1 }⟩,
        { w with
          notes := update (fun n => n.noteId = noteId && n.etag = expectedEtag)
            (·.atRevision revision.revisionId (current.revision + 1)) w.notes
          revisions := w.revisions ++ [{ revision with revisionNumber := current.revision + 1 }] }))

theorem appends (w : NoteWorld) (noteId : Uuid) (expectedEtag : String) (revision : NoteRevisionView) :
    Appends w noteId expectedEtag revision (w.appendRevision noteId expectedEtag revision) := by
  unfold NoteWorld.appendRevision
  split
  · exact .unknown
  next current hfound =>
  split
  · exact .raised _
  next heditable =>
  split
  · exact .raised _
  next hetag =>
  split
  · exact .raised _
  next currentRevision hrevision =>
  have hedit : CurrentEdit w noteId expectedEtag current currentRevision :=
    ⟨hfound, by simpa using heditable, not_not.1 hetag, hrevision⟩
  split
  · next hsame => exact .same hedit hsame
  next hdiffers =>
  dsimp only
  cases hinsert : w.insertRevision { revision with revisionNumber := current.revision + 1 } with
  | error e => exact .raised e
  | ok w' =>
    obtain ⟨rfl, hfresh, -⟩ := insertRevision_ok hinsert
    exact .added hedit hdiffers hfresh

end Store

/-! ## Complete histories -/

def NoteWorld.revisionsOf (w : NoteWorld) (noteId : Uuid) : List NoteRevisionView := w.revisions.filter (·.noteId = noteId)

/-- The revisions of the note are numbered from 1 on without a gap, and it points to the last. -/
structure Complete (w : NoteWorld) (note : NoteView) : Prop where
  positive : 0 < note.revision
  numbers : (w.revisionsOf note.noteId).map (·.revisionNumber) = List.range' 1 note.revision
  current : ∃ r ∈ w.revisions, r.noteId = note.noteId ∧ r.revisionNumber = note.revision ∧
    note.currentRevisionId = some r.revisionId
  etag : note.etag = toString note.revision

/-- Every note has its history; `contents` are the contents that are written. -/
structure History (contentSha256 : Dict → String) (contents : Dict → Prop) (w : NoteWorld) : Prop where
  notes : Keyed (fun n : NoteView => n.noteId) w.notes
  revisions : Keyed (fun r : NoteRevisionView => r.revisionId) w.revisions
  complete : ∀ note ∈ w.notes, Complete w note
  owned : ∀ r ∈ w.revisions, ∃ note ∈ w.notes, note.noteId = r.noteId
  hashed : ∀ r ∈ w.revisions, contents r.content ∧ r.contentSha256 = contentSha256 r.content

section History

variable {contentSha256 : Dict → String} {contents : Dict → Prop} {w w' : NoteWorld} {note current : NoteView}
  {r currentRevision : NoteRevisionView} {snapshot out : NoteSnapshot} {noteId : Uuid} {expectedEtag : String}

/-- A revision of another note leaves a history as it is. -/
theorem Complete.other (h : Complete w note) (hrevisions : w'.revisions = w.revisions ++ [r]) (hr : r.noteId ≠ note.noteId) :
    Complete w' note := by
  obtain ⟨r', hr', hcurrent⟩ := h.current
  refine ⟨h.positive, ?_, ⟨r', by rw [hrevisions]; exact List.mem_append_left _ hr', hcurrent⟩, h.etag⟩
  rw [← h.numbers, NoteWorld.revisionsOf, hrevisions, List.filter_append, List.filter_cons_of_neg (by simpa using hr)]
  simp [NoteWorld.revisionsOf]

/-- The next revision completes the history of its note. -/
theorem Complete.next (hrevisions : w'.revisions = w.revisions ++ [r]) (hr : r.noteId = note.noteId) {number : Nat}
    (hnumber : r.revisionNumber = number + 1)
    (hold : (w.revisionsOf note.noteId).map (·.revisionNumber) = List.range' 1 number) :
    Complete w' (note.atRevision r.revisionId (number + 1)) := by
  refine ⟨Nat.succ_pos _, ?_, ⟨r, by simp [hrevisions], hr, hnumber, rfl⟩, rfl⟩
  show (w'.revisions.filter (·.noteId = note.noteId)).map _ = List.range' 1 (number + 1)
  rw [hrevisions, List.filter_append, List.filter_cons_of_pos (by simpa using hr), List.map_append, List.range'_concat,
    ← hold]
  simp [NoteWorld.revisionsOf, hnumber, Nat.add_comm]

/-- What a use case makes of a content. -/
structure NewSnapshot (contentSha256 : Dict → String) (contents : Dict → Prop) (snapshot : NoteSnapshot) : Prop where
  note : snapshot.revision.noteId = snapshot.note.noteId
  number : snapshot.revision.revisionNumber = 1
  content : contents snapshot.revision.content
  hashed : snapshot.revision.contentSha256 = contentSha256 snapshot.revision.content

theorem history_create (h : History contentSha256 contents w) (hnew : NewSnapshot contentSha256 contents snapshot)
    (hc : w.create snapshot = .ok (out, w')) : History contentSha256 contents w' := by
  obtain ⟨hnote, hrevision, rfl⟩ := create_ok hc
  refine ⟨?_, ?_, fun note hn => ?_, fun r hr => ?_, fun r hr => ?_⟩
  · simp only [Keyed, List.map_append, List.map_cons, List.map_nil]
    refine List.nodup_append.2 ⟨h.notes, List.nodup_singleton _, fun id hid id' hid' => ?_⟩
    obtain ⟨n, hn, rfl⟩ := List.mem_map.1 hid
    obtain rfl := List.mem_singleton.1 hid'
    exact hnote n hn
  · simp only [Keyed, List.map_append, List.map_cons, List.map_nil]
    refine List.nodup_append.2 ⟨h.revisions, List.nodup_singleton _, fun id hid id' hid' => ?_⟩
    obtain ⟨r, hr, rfl⟩ := List.mem_map.1 hid
    obtain rfl := List.mem_singleton.1 hid'
    exact hrevision r hr
  · rcases List.mem_append.1 hn with hn | hn
    · exact (h.complete note hn).other rfl (hnew.note ▸ Ne.symm (hnote note hn))
    · obtain rfl := List.mem_singleton.1 hn
      refine Complete.next rfl hnew.note hnew.number ?_
      -- no revision is there without its note
      rw [NoteWorld.revisionsOf, List.filter_eq_nil_iff.2]
      · rfl
      · intro r hr he
        obtain ⟨n, hn, hid⟩ := h.owned r hr
        exact hnote n hn (hid.trans (by simpa using he))
  · rcases List.mem_append.1 hr with hr | hr
    · obtain ⟨n, hn, hid⟩ := h.owned r hr
      exact ⟨n, List.mem_append_left _ hn, hid⟩
    · obtain rfl := List.mem_singleton.1 hr
      exact ⟨_, List.mem_append_right _ (List.mem_singleton_self _), hnew.note.symm⟩
  · rcases List.mem_append.1 hr with hr | hr
    · exact h.hashed r hr
    · obtain rfl := List.mem_singleton.1 hr
      exact ⟨hnew.content, hnew.hashed⟩

/-- The next revision of the note that an edit found, and its row. -/
theorem history_added (h : History contentSha256 contents w) (hedit : CurrentEdit w noteId expectedEtag current currentRevision)
    (hr : r.noteId = noteId) (hnumber : r.revisionNumber = current.revision + 1)
    (hhashed : contents r.content ∧ r.contentSha256 = contentSha256 r.content)
    (hfresh : ∀ r' ∈ w.revisions, r'.revisionId ≠ r.revisionId) :
    History contentSha256 contents { w with
      notes := update (fun n => n.noteId = noteId && n.etag = expectedEtag)
        (·.atRevision r.revisionId (current.revision + 1)) w.notes
      revisions := w.revisions ++ [r] } := by
  obtain ⟨hmem, hid⟩ := lookup_some hedit.found
  have hnotes := keyed_update (f := fun n : NoteView => n.atRevision r.revisionId (current.revision + 1))
    (p := fun n => n.noteId = noteId && n.etag = expectedEtag) (fun _ _ => rfl) h.notes
  refine ⟨hnotes, ?_, fun note hn => ?_, fun r' hr' => ?_, fun r' hr' => ?_⟩
  · simp only [Keyed, List.map_append, List.map_cons, List.map_nil]
    refine List.nodup_append.2 ⟨h.revisions, List.nodup_singleton _, fun id hid id' hid' => ?_⟩
    obtain ⟨r', hr', rfl⟩ := List.mem_map.1 hid
    obtain rfl := List.mem_singleton.1 hid'
    exact hfresh r' hr'
  · rcases mem_update hn with ⟨hn, hnot⟩ | ⟨old, hold, hsel, rfl⟩
    · refine (h.complete note hn).other rfl ?_
      intro he
      have hlookup := lookup_of_mem h.notes hn
      cases hedit.found.symm.trans (hr.symm.trans he ▸ hlookup)
      simp [hid, hedit.etag] at hnot
    · simp only [Bool.and_eq_true, decide_eq_true_eq] at hsel
      have hlookup := lookup_of_mem h.notes hold
      cases hedit.found.symm.trans (hsel.1 ▸ hlookup)
      exact Complete.next rfl (hr.trans hid.symm) hnumber (h.complete current hmem).numbers
  · rcases List.mem_append.1 hr' with hr' | hr'
    · obtain ⟨n, hn, hid'⟩ := h.owned r' hr'
      exact ⟨_, List.mem_map_of_mem hn, by split <;> exact hid'⟩
    · obtain rfl := List.mem_singleton.1 hr'
      exact ⟨_, List.mem_map_of_mem hmem, by split <;> exact hid.trans hr.symm⟩
  · rcases List.mem_append.1 hr' with hr' | hr'
    · exact h.hashed r' hr'
    · obtain rfl := List.mem_singleton.1 hr'
      exact hhashed

end History

/-! ## Pools of use cases -/

abbrev NotePool (P : Type) := Pool P NoteCall NoteAnswer NoteError NoteWorld

/-- Processes that execute a use case each. -/
def noteMachine {P : Type} (contentSha256 : Dict → String) (requests : P → NoteUse) :
    Machine P NoteCall NoteAnswer NoteError NoteWorld Unit Unit where
  exec := NoteCall.exec
  start p _ := ((requests p).program contentSha256).run

/-- What a call may write. -/
def NoteCall.Writes (contentSha256 : Dict → String) (contents : Dict → Prop) : NoteCall → Prop
  | .create snapshot => NewSnapshot contentSha256 contents snapshot
  | .appendRevision noteId _ revision => revision.noteId = noteId ∧ contents revision.content ∧
      revision.contentSha256 = contentSha256 revision.content
  | _ => True

/-- The contents that a use case may write are among `contents`. -/
def NoteUse.Writes (contents : Dict → Prop) : NoteUse → Prop
  | create command _ _ => contents command.content
  | edit command _ => contents command.content
  | saveResponse .. => ∀ text, contents (responseContent text)
  | transform provider _ _ _ => ∀ kind revisions content, provider kind revisions = .ok content → contents content

section Pools

variable {P : Type} [DecidableEq P] {contentSha256 : Dict → String} {contents : Dict → Prop} {requests : P → NoteUse}
  {pool : NotePool P} {w : NoteWorld}

theorem newSnapshot_writes {command : NewNote} {noteId revisionId : Uuid} (h : contents command.content) :
    NewSnapshot contentSha256 contents (newSnapshot contentSha256 command noteId revisionId) := ⟨rfl, rfl, h, rfl⟩

theorem program_writes {use : NoteUse} (h : use.Writes contents) :
    Prog.Only (NoteCall.Writes contentSha256 contents) (use.program contentSha256).run := by
  have hperform : ∀ c : NoteCall, c.Writes contentSha256 contents →
      Prog.Only (NoteCall.Writes contentSha256 contents) c.perform.run := fun c hc => ⟨hc, fun _ => trivial⟩
  cases use with
  | create command noteId revisionId => exact Prog.Only.map (hperform _ (newSnapshot_writes h))
  | edit command revisionId =>
    refine Prog.Only.map (Prog.Only.bind (hperform _ trivial) fun (note : Option NoteView) => ?_)
    cases note with
    | none => trivial
    | some note =>
      show Prog.Only _ (ExceptT.run (if _ then _ else _))
      exact Prog.only_ite (fun _ => trivial) fun _ => hperform _ ⟨rfl, h, rfl⟩
  | saveResponse command noteId revisionId =>
    refine Prog.Only.map (Prog.Only.bind (hperform _ trivial) fun (response : Option SavedResponseView) => ?_)
    cases response with
    | none => trivial
    | some response => exact Prog.Only.bind (hperform _ (newSnapshot_writes (h _))) fun _ => trivial
  | transform provider command noteId revisionId =>
    refine Prog.Only.map ?_
    show Prog.Only _ (ExceptT.run (if _ then _ else _))
    refine Prog.only_ite (fun _ => trivial) fun _ => ?_
    refine Prog.Only.bind (hperform _ trivial) fun (revisions : List NoteRevisionView) => ?_
    show Prog.Only _ (ExceptT.run (if _ then _ else _))
    refine Prog.only_ite (fun _ => trivial) fun _ => ?_
    cases hcontent : provider command.kind revisions with
    | error e => trivial
    | ok content => exact hperform _ (newSnapshot_writes (h _ _ _ hcontent))

/-- A call keeps every history. -/
theorem history_exec (h : History contentSha256 contents w) {c : NoteCall} (hc : c.Writes contentSha256 contents) :
    History contentSha256 contents (c.exec () w).2 := by
  cases c with
  | getNote | revisionsForNotebook | savedResponse => exact h
  | create snapshot =>
    show History contentSha256 contents (commitOr w (w.create snapshot)).2
    cases hcreate : w.create snapshot with
    | error e => exact h
    | ok out => exact history_create h hc hcreate
  | appendRevision noteId expectedEtag revision =>
    show History contentSha256 contents (commitOr w (w.appendRevision noteId expectedEtag revision)).2
    have happends := appends w noteId expectedEtag revision
    generalize w.appendRevision noteId expectedEtag revision = out at happends ⊢
    cases happends with
    | unknown | raised | same => exact h
    | @added current _ hedit _ hfresh =>
      exact history_added (r := { revision with revisionNumber := current.revision + 1 }) h hedit hc.1 rfl hc.2 hfresh

/-- A call only adds revisions. -/
theorem revisions_exec (c : NoteCall) (w : NoteWorld) : w.revisions <+: (c.exec () w).2.revisions := by
  cases c with
  | getNote | revisionsForNotebook | savedResponse => exact List.prefix_refl _
  | create snapshot =>
    show w.revisions <+: (commitOr w (w.create snapshot)).2.revisions
    cases hcreate : w.create snapshot with
    | error e => exact List.prefix_refl _
    | ok out =>
      obtain ⟨-, -, hw⟩ := create_ok hcreate
      exact ⟨[snapshot.revision], (congrArg NoteWorld.revisions hw).symm⟩
  | appendRevision noteId expectedEtag revision =>
    show w.revisions <+: (commitOr w (w.appendRevision noteId expectedEtag revision)).2.revisions
    have happends := appends w noteId expectedEtag revision
    generalize w.appendRevision noteId expectedEtag revision = out at happends ⊢
    cases happends with
    | unknown | raised | same => exact List.prefix_refl _
    | added => exact ⟨_, rfl⟩

/-- What is left of an edit. -/
def EditStage (contentSha256 : Dict → String) (command : EditNoteCommand) (revisionId : Uuid)
    (proc : Prog NoteCall NoteAnswer (Except NoteError Unit)) : Prop :=
  (∃ x, proc = .ret x) ∨ proc = ((NoteUse.edit command revisionId).program contentSha256).run ∨
    ∃ number k, proc = .call (.appendRevision command.noteId command.expectedEtag
      (noteRevision contentSha256 command.noteId number command.actorId command.content [] [] revisionId)) k ∧
      ∀ r, k r = .ret (r.map fun _ => ())

theorem editStage_next {command : EditNoteCommand} {revisionId : Uuid} {c : NoteCall}
    {k : NoteAnswer c → Prog NoteCall NoteAnswer (Except NoteError Unit)}
    (h : EditStage contentSha256 command revisionId (.call c k)) :
    EditStage contentSha256 command revisionId (k (c.exec () w).1) := by
  rcases h with ⟨x, hx⟩ | hstart | ⟨number, k, happend, hk⟩
  · cases hx
  · cases hstart
    have hexec : (NoteCall.getNote command.noteId).exec () w = (.ok (w.note? command.noteId), w) := rfl
    rw [hexec]
    cases hnote : w.note? command.noteId with
    | none => exact .inl ⟨_, rfl⟩
    | some note =>
      have hid : note.noteId = command.noteId := (lookup_some hnote).2
      cases hnote : note with
      | mk noteId notebookId kind editable =>
        rw [hnote] at hid
        cases hid
        cases editable with
        | true => exact .inr (.inr ⟨_, _, rfl, fun r => by cases r <;> rfl⟩)
        | false => exact .inl ⟨_, rfl⟩
  · cases happend
    exact .inl ⟨_, hk _⟩

/-- The store accepted an edit. -/
def Accepted (c : NoteCall) (answer : NoteAnswer c) : Prop :=
  match c, answer with
  | .appendRevision .., .ok (some _) => True
  | _, _ => False

/-- The edit carries the etag of the note; it adds one revision, or none where the content is the same. -/
def TakesEffect (command : EditNoteCommand) (w w' : NoteWorld) : Prop :=
  ∃ current currentRevision, CurrentEdit w command.noteId command.expectedEtag current currentRevision ∧
    (SameContent currentRevision.content command.content → w' = w) ∧
    (¬ SameContent currentRevision.content command.content → ∃ r, r.noteId = command.noteId ∧
      r.revisionNumber = current.revision + 1 ∧ r.content = command.content ∧ w'.revisions = w.revisions ++ [r])

/-- One call of an edit. -/
theorem edit_exec (hsha : ∀ c c', contents c → contents c' → (contentSha256 c = contentSha256 c' ↔ SameContent c c'))
    {command : EditNoteCommand} {revisionId : Uuid} (hcommand : contents command.content)
    (hw : History contentSha256 contents w) {c : NoteCall} {k : NoteAnswer c → Prog NoteCall NoteAnswer (Except NoteError Unit)}
    (h : EditStage contentSha256 command revisionId (.call c k)) :
    (Accepted c (c.exec () w).1 → TakesEffect command w (c.exec () w).2 ∧ k (c.exec () w).1 = .ret (.ok ())) ∧
    (¬ Accepted c (c.exec () w).1 → (c.exec () w).2 = w) := by
  rcases h with ⟨x, hx⟩ | hstart | ⟨number, k, happend, hk⟩
  · cases hx
  · cases hstart
    exact ⟨False.elim, fun _ => rfl⟩
  · cases happend
    generalize hr : noteRevision contentSha256 command.noteId number command.actorId command.content [] [] revisionId = r
    have hcontent : r.content = command.content ∧ r.contentSha256 = contentSha256 command.content ∧ r.noteId = command.noteId := by
      subst hr
      exact ⟨rfl, rfl, rfl⟩
    rw [show (NoteCall.appendRevision command.noteId command.expectedEtag r).exec () w =
      commitOr w (w.appendRevision command.noteId command.expectedEtag r) from rfl]
    have happends := appends w command.noteId command.expectedEtag r
    generalize w.appendRevision command.noteId command.expectedEtag r = out at happends ⊢
    have hcurrent : ∀ {current currentRevision}, CurrentEdit w command.noteId command.expectedEtag current currentRevision →
        (currentRevision.contentSha256 = r.contentSha256 ↔ SameContent currentRevision.content command.content) := by
      intro current currentRevision hedit
      obtain ⟨id, -, hrevision⟩ := Option.bind_eq_some_iff.1 hedit.revision
      obtain ⟨hcontents, hhash⟩ := hw.hashed currentRevision (lookup_some hrevision).1
      rw [hhash, hcontent.2.1]
      exact hsha _ _ hcontents hcommand
    cases happends with
    | unknown => exact ⟨False.elim, fun _ => rfl⟩
    | raised e => exact ⟨False.elim, fun _ => rfl⟩
    | same hedit hsame =>
      refine ⟨fun _ => ⟨⟨_, _, hedit, fun _ => rfl, fun hnot => ?_⟩, hk _⟩, fun hnot => absurd trivial hnot⟩
      exact absurd ((hcurrent hedit).1 hsame) hnot
    | @added current _ hedit hdiffers _ =>
      refine ⟨fun _ => ⟨⟨_, _, hedit, fun hsame => ?_, fun _ => ?_⟩, hk _⟩, fun hnot => absurd trivial hnot⟩
      · exact absurd ((hcurrent hedit).2 hsame) hdiffers
      · exact ⟨{ r with revisionNumber := current.revision + 1 }, hcontent.2.2, rfl, hcontent.1, rfl⟩

/-- Where every process stands, and the histories. -/
structure NotesKept (contentSha256 : Dict → String) (contents : Dict → Prop) (requests : P → NoteUse) (pool : NotePool P) :
    Prop where
  history : History contentSha256 contents pool.run.shared
  writes : ∀ p, (pool.procs p).Only (NoteCall.Writes contentSha256 contents)
  stage : ∀ p command revisionId, requests p = .edit command revisionId →
    EditStage contentSha256 command revisionId (pool.procs p)

theorem notesKept_step (hcontents : ∀ p, (requests p).Writes contents) {pool' : NotePool P}
    {cond : P → NoteCall → Unit → Run P NoteCall NoteAnswer NoteWorld → Prop} (h : NotesKept contentSha256 contents requests pool)
    (hst : (noteMachine contentSha256 requests).Step cond pool pool') : NotesKept contentSha256 contents requests pool' := by
  refine ⟨?_, ?_, fun p command revisionId hp => ?_⟩
  · rcases Machine.shared_step hst with ⟨p, c, k, e, hp, hshared⟩ | hshared
    · have hwrites := h.writes p
      rw [hp] at hwrites
      rw [hshared]
      exact history_exec h.history hwrites.1
    · rw [hshared]
      exact h.history
  · exact Machine.procs_step hst h.writes (fun p _ => program_writes (hcontents p)) fun _ _ _ _ hk => hk.2 _
  · refine Machine.procs_step (I := fun p proc => ∀ command revisionId, requests p = .edit command revisionId →
      EditStage contentSha256 command revisionId proc) hst h.stage ?_ ?_ p command revisionId hp
    · intro p _ command revisionId hp
      exact .inr (.inl (by rw [← hp]; rfl))
    · exact fun _ _ _ _ hstage command revisionId hp => editStage_next (hstage command revisionId hp)

/-- No note yet. -/
def NoNotes (w : NoteWorld) : Prop := w.notes = [] ∧ w.revisions = []

theorem notesKept (hcontents : ∀ p, (requests p).Writes contents)
    {cond : P → NoteCall → Unit → Run P NoteCall NoteAnswer NoteWorld → Prop}
    (h : (noteMachine contentSha256 requests).Reach NoNotes cond pool) : NotesKept contentSha256 contents requests pool := by
  refine Reach.invariant (I := NotesKept contentSha256 contents requests) ?_
    (fun _ _ _ hkept hst => notesKept_step hcontents hkept hst) h
  rintro pool ⟨⟨⟨hnotes, hrevisions⟩, -⟩, hidle⟩
  refine ⟨⟨?_, ?_, fun n hn => ?_, fun r hr => ?_, fun r hr => ?_⟩, fun p => ?_, fun p _ _ _ => .inl ⟨_, hidle p⟩⟩
  · rw [hnotes]
    exact .nil
  · rw [hrevisions]
    exact .nil
  · rw [hnotes] at hn
    cases hn
  · rw [hrevisions] at hr
    cases hr
  · rw [hrevisions] at hr
    cases hr
  · rw [hidle]
    trivial

/-- **The history of every note is gap-free and append-only**, in every run of the use cases that write notes: it is
complete; no revision changes or goes later; an edit that the store accepts carried the etag of the note, adds one
revision or none where the content is the same, and returns; and any other call of an edit leaves everything. -/
theorem note_history {cond : P → NoteCall → Unit → Run P NoteCall NoteAnswer NoteWorld → Prop}
    (hsha : ∀ c c', contents c → contents c' → (contentSha256 c = contentSha256 c' ↔ SameContent c c'))
    (hcontents : ∀ p, (requests p).Writes contents) (h : (noteMachine contentSha256 requests).Reach NoNotes cond pool) :
    (∀ note ∈ pool.run.shared.notes, Complete pool.run.shared note) ∧
    (∀ pool', Relation.ReflTransGen ((noteMachine contentSha256 requests).Step cond) pool pool' →
      pool.run.shared.revisions <+: pool'.run.shared.revisions) ∧
    (∀ p command revisionId, requests p = .edit command revisionId → ∀ c k, pool.procs p = .call c k →
      (Accepted c (c.exec () pool.run.shared).1 → TakesEffect command pool.run.shared (c.exec () pool.run.shared).2 ∧
        k (c.exec () pool.run.shared).1 = .ret (.ok ())) ∧
      (¬ Accepted c (c.exec () pool.run.shared).1 → (c.exec () pool.run.shared).2 = pool.run.shared)) := by
  have hkept := notesKept hcontents h
  refine ⟨hkept.history.complete, fun pool' hs => ?_, fun p command revisionId hp c k hproc => ?_⟩
  · induction hs with
    | refl => exact List.prefix_refl _
    | @tail pool₁ _ _ hst ih =>
      refine ih.trans ?_
      rcases Machine.shared_step hst with ⟨p, c, k, e, -, hshared⟩ | hshared <;> rw [hshared]
      exact revisions_exec c pool₁.run.shared
  · have hstage := hkept.stage p command revisionId hp
    rw [hproc] at hstage
    have hcommand := hcontents p
    rw [hp] at hcommand
    exact edit_exec hsha hcommand hkept.history hstage

end Pools

/-! ## Two contents -/

def shortNote (text : String) : Dict := [("text", .str text)]

/-- A digest that tells short notes apart. -/
def shortSha (content : Dict) : String :=
  match sortJson (.obj content) with
  | .obj kvs => (Dict.get kvs "text").text
  | _ => ""

theorem shortSha_same {c c' : Dict} (h : SameContent c c') : shortSha c = shortSha c' := by
  unfold shortSha
  rw [show sortJson (.obj c) = sortJson (.obj c') from h]

theorem shortSha_short {c c' : Dict} (h : ∃ text, c = shortNote text) (h' : ∃ text, c' = shortNote text) :
    shortSha c = shortSha c' ↔ SameContent c c' := by
  obtain ⟨text, rfl⟩ := h
  obtain ⟨text', rfl⟩ := h'
  refine ⟨fun he => ?_, shortSha_same⟩
  have htext : text = text' := he
  rw [htext]
  rfl

def noteRequests : Bool → NoteUse
  | false => .create ⟨1, 2, "Plan", shortNote "first"⟩ 3 4
  | true => .edit ⟨1, 3, "1", shortNote "second"⟩ 5

def notePool : NotePool Bool := ⟨⟨{}, []⟩, fun _ => .ret (.ok ())⟩

/-- A note is created, and an edit reads it and is about to append. -/
theorem note_history_of_edit : ∃ pool : NotePool Bool,
    (noteMachine shortSha noteRequests).Reach NoNotes (fun _ _ _ _ => True) pool ∧ ∃ c k, pool.procs true = .call c k ∧
      TakesEffect ⟨1, 3, "1", shortNote "second"⟩ pool.run.shared (c.exec () pool.run.shared).2 := by
  have hreach : (noteMachine shortSha noteRequests).Reach NoNotes (fun _ _ _ _ => True)
      ([.start false (), .call false (), .start true (), .call true ()].foldl (noteMachine shortSha noteRequests).move notePool) :=
    Machine.reach_moves (.start ⟨⟨⟨rfl, rfl⟩, rfl⟩, fun _ => rfl⟩) Machine.meets_true
  have hwrites : ∀ p, (noteRequests p).Writes fun c => ∃ text, c = shortNote text := fun p => by cases p <;> exact ⟨_, rfl⟩
  refine ⟨_, hreach, _, _, rfl, ?_⟩
  exact (((note_history (fun _ _ => shortSha_short) hwrites hreach).2.2 true _ _ rfl _ _ rfl).1 True.intro).1

end MilpbookLM.Studio
