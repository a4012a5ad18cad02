/-
What a save of a note is based on. The ETag is that of the note as it was read last, and the
document comes from the revisions as they were read last. Where these lack the revision that
the note calls current, the draft is opened on nothing; and where the current revision has
the signature of the one before, the draft stays with that. The save is based on the
revision of its ETag exactly where neither happens (`basedOn_iff`).
-/
import MilpbookLM.Web.NoteDetail

namespace MilpbookLM.Web

/-! ## What is known of the revisions -/

/-- A view of the note at a revision. -/
def Known (revisions : List NoteRevision) (view : NoteView) : Prop :=
  ∃ index revision, revisions[index]? = some revision ∧ view.currentRevisionId = revision.revisionId ∧
    view.etag = toString (index + 1)

/-- A draft is what its operations make of the content it was opened on. -/
structure Draft.Sound (draft : Draft) : Prop where
  baseline : draft.baseline = contentKey draft.opened
  document : draft.document = (editorDocumentFromContent draft.opened).edit draft.ops

/-- What a view holds is of the revisions, and its draft is rendered. -/
structure NoteDetail.Sound (revisions : List NoteRevision) (detail : NoteDetail) : Prop where
  note : ∀ view, detail.note = some view → Known revisions view
  revisions : detail.revisions <+: revisions
  draft : detail.draft.Sound
  rendered : detail.draft.baseline = contentKey detail.current

/-- A save is what such a view sends. -/
structure Save.Sound (revisions : List NoteRevision) (save : Save) : Prop where
  note : Known revisions save.note
  etag : save.etag = save.note.etag
  revisions : save.revisions <+: revisions
  draft : save.draft.Sound
  rendered : save.draft.baseline = contentKey (currentContent (some save.note) save.revisions)
  content : save.content = serializeEditorDocument save.draft.document

structure Session.Sound (s : Session) : Prop where
  keyed : (s.server.revisions.map (·.revisionId)).Nodup
  noteAnswers : ∀ view ∈ s.noteAnswers, Known s.server.revisions view
  revisionAnswers : ∀ revisions ∈ s.revisionAnswers, revisions <+: s.server.revisions
  detail : s.detail.Sound s.server.revisions
  requests : ∀ save ∈ s.requests, save.Sound s.server.revisions
  accepted : ∀ save ∈ s.accepted, save.Sound s.server.revisions

variable {revisions revisions' : List NoteRevision}

theorem Known.grow {view : NoteView} (h : Known revisions view) (hgrow : revisions <+: revisions') :
    Known revisions' view := by
  obtain ⟨index, revision, hget, hid, hetag⟩ := h
  obtain ⟨rest, rfl⟩ := hgrow
  refine ⟨index, revision, ?_, hid, hetag⟩
  rw [List.getElem?_append_left (List.getElem?_eq_some_iff.1 hget).1, hget]

theorem NoteDetail.Sound.grow {detail : NoteDetail} (h : detail.Sound revisions) (hgrow : revisions <+: revisions') :
    detail.Sound revisions' :=
  ⟨fun view hview => (h.note view hview).grow hgrow, h.revisions.trans hgrow, h.draft, h.rendered⟩

theorem Save.Sound.grow {save : Save} (h : save.Sound revisions) (hgrow : revisions <+: revisions') :
    save.Sound revisions' :=
  ⟨h.note.grow hgrow, h.etag, h.revisions.trans hgrow, h.draft, h.rendered, h.content⟩

theorem known_view {server : NoteServer} {view : NoteView} (h : server.view = some view) :
    Known server.revisions view := by
  obtain ⟨revision, hlast, rfl⟩ := Option.map_eq_some_iff.1 h
  have hne : server.revisions ≠ [] := fun hnil => by simp [hnil] at hlast
  have hpos := List.length_pos_of_ne_nil hne
  refine ⟨server.revisions.length - 1, revision, ?_, rfl, by rw [Nat.sub_add_cancel hpos]⟩
  rwa [List.getLast?_eq_getElem?] at hlast

/-- A revision that is appended comes last, under its id. -/
theorem appendRevision_cases {platform : NotePlatform} {server server' : NoteServer} {etag : String}
    {revisionId : Uuid} {content : Fields} (h : server.appendRevision platform etag revisionId content = some server') :
    server' = server ∨ ∃ revision : NoteRevision, revision.revisionId = revisionId ∧
      server'.revisions = server.revisions ++ [revision] := by
  simp only [NoteServer.appendRevision] at h
  split at h
  · cases h
  · split at h
    · cases h
    · split at h
      · cases h
      · split at h
        · exact .inl (Option.some.inj h).symm
        · cases h
          exact .inr ⟨_, rfl, rfl⟩

/-! ## One event -/

namespace Draft

theorem sound_openDraft (content : Fields) : (openDraft content).Sound := ⟨rfl, rfl⟩

theorem Sound.type {draft : Draft} (h : draft.Sound) (op : EditorOp) : (draft.type op).Sound := by
  refine ⟨h.baseline, ?_⟩
  simp only [Draft.type, h.document, EditorDocument.edit, List.foldl_append]

end Draft

namespace NoteDetail

variable {detail : NoteDetail}

/-- **A render leaves the draft at the signature of the content.** -/
theorem sound_render (hnote : ∀ view, detail.note = some view → Known revisions view)
    (hrevisions : detail.revisions <+: revisions) (hdraft : detail.draft.Sound) : detail.render.Sound revisions := by
  rw [render]
  split
  · exact ⟨hnote, hrevisions, Draft.sound_openDraft _, rfl⟩
  · next hsame => exact ⟨hnote, hrevisions, hdraft, by simpa using hsame⟩

theorem Sound.reopen (h : detail.Sound revisions) (isEditing : Bool) (pending : Option Nat) :
    NoteDetail.Sound revisions { detail with draft := openDraft detail.current, isEditing, pending } :=
  ⟨h.note, h.revisions, Draft.sound_openDraft _, rfl⟩

theorem Sound.status (h : detail.Sound revisions) (isEditing : Bool) (pending : Option Nat) :
    NoteDetail.Sound revisions { detail with isEditing, pending } :=
  ⟨h.note, h.revisions, h.draft, h.rendered⟩

end NoteDetail

namespace Session

variable {platform : NotePlatform} {s s' : Session} {event : Event}

theorem Sound.grow (h : s.Sound) {server : NoteServer} {revisionId : Uuid} {etag : String} {content : Fields}
    (hfresh : s.isFresh revisionId = true)
    (happend : s.server.appendRevision platform etag revisionId content = some server) :
    ({ s with server } : Session).Sound := by
  rcases appendRevision_cases happend with rfl | ⟨revision, hid, hrevisions⟩
  · exact h
  · have hgrow : s.server.revisions <+: server.revisions := hrevisions ▸ List.prefix_append ..
    refine {
      keyed := ?_
      noteAnswers := fun view hview => (h.noteAnswers view hview).grow hgrow
      revisionAnswers := fun revisions hr => (h.revisionAnswers revisions hr).trans hgrow
      detail := h.detail.grow hgrow
      requests := fun save hsave => (h.requests save hsave).grow hgrow
      accepted := fun save hsave => (h.accepted save hsave).grow hgrow }
    simp only [hrevisions, List.map_append, List.map_singleton]
    refine h.keyed.append (List.nodup_singleton _) fun id hid' hnew => ?_
    obtain ⟨other, hother, rfl⟩ := List.mem_map.1 hid'
    rw [isFresh, List.all_eq_true] at hfresh
    have hne := hfresh other hother
    rw [List.mem_singleton.1 hnew, hid] at hne
    simp at hne

/-- What is on its way is one fewer. -/
theorem forall_eraseIdx {α : Type} {P : α → Prop} {l : List α} (h : ∀ a ∈ l, P a) (index : Nat) :
    ∀ a ∈ l.eraseIdx index, P a :=
  fun a ha => h a ((List.eraseIdx_sublist l index).mem ha)

theorem forall_append_singleton {α : Type} {P : α → Prop} {l : List α} (h : ∀ a ∈ l, P a) {a : α} (ha : P a) :
    ∀ b ∈ l ++ [a], P b := by
  intro b hb
  rcases List.mem_append.1 hb with hb | hb
  · exact h b hb
  · rw [List.mem_singleton.1 hb]
    exact ha

theorem Sound.withDetail (h : s.Sound) {detail : NoteDetail} (hdetail : detail.Sound s.server.revisions) :
    ({ s with detail } : Session).Sound :=
  { h with detail := hdetail }

/-- The save that a view sends. -/
theorem Sound.submit (h : s.Sound) {note : NoteView} (hnote : s.detail.note = some note) :
    Save.Sound s.server.revisions {
      number := s.sent
      etag := note.etag
      content := serializeEditorDocument s.detail.draft.document
      note
      revisions := s.detail.revisions
      draft := s.detail.draft } where
  note := h.detail.note note hnote
  etag := rfl
  revisions := h.detail.revisions
  draft := h.detail.draft
  rendered := by
    rw [← hnote]
    exact h.detail.rendered
  content := rfl

/-- **Every event keeps what is known.** -/
theorem Sound.perform (h : s.Sound) (hp : s.perform platform event = some s') : s'.Sound := by
  cases event <;> simp only [Session.perform, Option.bind_eq_bind, Option.bind_eq_some_iff, Option.guard_eq_some',
    Option.pure_def, Option.some.injEq] at hp
  case otherEdit etag revisionId content =>
    obtain ⟨-, hfresh, server, happend, rfl⟩ := hp
    exact h.grow hfresh happend
  case answerNote =>
    obtain ⟨view, hview, rfl⟩ := hp
    exact { h with noteAnswers := forall_append_singleton h.noteAnswers (known_view hview) }
  case noteArrives index =>
    obtain ⟨view, hget, rfl⟩ := hp
    refine { h with
      noteAnswers := forall_eraseIdx h.noteAnswers index
      detail := NoteDetail.sound_render (fun view' hview' => ?_) h.detail.revisions h.detail.draft }
    cases hview'
    exact h.noteAnswers view (List.mem_of_getElem? hget)
  case noteFails index =>
    cases hp
    exact { h with noteAnswers := forall_eraseIdx h.noteAnswers index }
  case answerRevisions =>
    cases hp
    exact { h with revisionAnswers := forall_append_singleton h.revisionAnswers (List.prefix_refl _) }
  case revisionsArrive index =>
    obtain ⟨revisions, hget, rfl⟩ := hp
    exact { h with
      revisionAnswers := forall_eraseIdx h.revisionAnswers index
      detail := NoteDetail.sound_render h.detail.note (h.revisionAnswers revisions (List.mem_of_getElem? hget))
        h.detail.draft }
  case revisionsFail index =>
    cases hp
    exact { h with revisionAnswers := forall_eraseIdx h.revisionAnswers index }
  case startEditing =>
    cases hp
    exact h.withDetail (h.detail.status true s.detail.pending)
  case type op =>
    obtain ⟨-, -, rfl⟩ := hp
    exact h.withDetail ⟨h.detail.note, h.detail.revisions, h.detail.draft.type op, h.detail.rendered⟩
  case submit =>
    obtain ⟨-, -, note, hnote, rfl⟩ := hp
    exact { h with
      detail := h.detail.status s.detail.isEditing (some s.sent)
      requests := forall_append_singleton h.requests (h.submit hnote) }
  case accept index revisionId =>
    obtain ⟨-, hfresh, save, hget, server, happend, rfl⟩ := hp
    have hgrown := h.grow hfresh happend
    exact { hgrown with
      requests := forall_eraseIdx hgrown.requests index
      accepted := forall_append_singleton hgrown.accepted (hgrown.requests save (List.mem_of_getElem? hget)) }
  case refuse index =>
    cases hp
    exact { h with requests := forall_eraseIdx h.requests index }
  case saveSucceeds =>
    obtain ⟨number, -, -, -, rfl⟩ := hp
    exact h.withDetail (h.detail.status false none)
  case saveFails =>
    cases hp
    exact h.withDetail (h.detail.status s.detail.isEditing none)
  case cancel =>
    obtain ⟨-, -, rfl⟩ := hp
    exact h.withDetail (h.detail.reopen false s.detail.pending)
  case mount =>
    cases hp
    exact h.withDetail (h.detail.reopen s.detail.isEditing none)

/-- The sessions that runs of events lead to. -/
inductive Reachable (platform : NotePlatform) : Session → Prop
  | start (revisionId : Uuid) (content : Fields) (editable : Bool) :
      Reachable platform (.start platform revisionId content editable)
  | step {s s' : Session} {event : Event} (h : Reachable platform s) (hp : s.perform platform event = some s') :
      Reachable platform s'

theorem Reachable.sound (h : Reachable platform s) : s.Sound := by
  induction h with
  | start revisionId content editable =>
    exact {
      keyed := by simp [Session.start]
      noteAnswers := by simp [Session.start]
      revisionAnswers := by simp [Session.start]
      detail := ⟨by simp [Session.start], List.nil_prefix, Draft.sound_openDraft _, rfl⟩
      requests := by simp [Session.start]
      accepted := by simp [Session.start] }
  | step _ hp ih => exact ih.perform hp

theorem Reachable.run (h : Reachable platform s) {events : List Event} (hrun : s.run platform events = some s') :
    Reachable platform s' := by
  induction events generalizing s with
  | nil =>
    cases hrun
    exact h
  | cons event events ih =>
    obtain ⟨next, hp, hrest⟩ := Option.bind_eq_some_iff.1 hrun
    exact ih (h.step hp) hrest

end Session

/-! ## Saves -/

/-- A save is what the user made of the content of the revision that its ETag denotes. -/
def Save.BasedOn (revisions : List NoteRevision) (save : Save) : Prop :=
  ∃ index revision, revisions[index]? = some revision ∧ save.etag = toString (index + 1) ∧
    SameNote save.draft.opened revision.content ∧ save.content = saved revision.content save.draft.ops

/-- The revisions that were held when it was sent had the current one, unless that looks like an empty note; and what
the draft was opened on does not just look like it. -/
def Save.UpToDate (revisions : List NoteRevision) (save : Save) : Prop :=
  ∀ index revision, revisions[index]? = some revision → save.etag = toString (index + 1) →
    ((∃ held ∈ save.revisions, held.revisionId = save.note.currentRevisionId) ∨
      contentKey revision.content = contentKey noContent) ∧
    ¬ (contentKey save.draft.opened = contentKey revision.content ∧ ¬ SameNote save.draft.opened revision.content)

/-- The revisions that are held, and one of them is current: it is that of the note. -/
theorem currentContent_of_held {held : List NoteRevision} {note : NoteView} {index : Nat} {revision : NoteRevision}
    (hkeyed : (revisions.map (·.revisionId)).Nodup) (hpart : held <+: revisions)
    (hget : revisions[index]? = some revision) (hid : note.currentRevisionId = revision.revisionId)
    (hheld : ∃ r ∈ held, r.revisionId = note.currentRevisionId) :
    currentContent (some note) held = revision.content := by
  obtain ⟨r, hr, hrid⟩ := hheld
  simp only [currentContent]
  cases hfind : held.find? (·.revisionId = note.currentRevisionId) with
  | none =>
    have hno := List.find?_eq_none.1 hfind r hr
    simp [hrid] at hno
  | some found =>
    have hfound : found.revisionId = note.currentRevisionId := by simpa using List.find?_some hfind
    have hsame : found = revision := List.inj_on_of_nodup_map hkeyed (hpart.mem (List.mem_of_find?_eq_some hfind))
      (List.mem_of_getElem? hget) (hfound.trans hid)
    rw [hsame]
    rfl

theorem currentContent_of_not_held {held : List NoteRevision} {note : NoteView}
    (h : ¬ ∃ r ∈ held, r.revisionId = note.currentRevisionId) : currentContent (some note) held = noContent := by
  have hnone : held.find? (·.revisionId = note.currentRevisionId) = none :=
    List.find?_eq_none.2 fun r hr he => h ⟨r, hr, by simpa using he⟩
  rw [currentContent, hnone]
  rfl

/-- A save is based on its revision where its draft was opened on that. -/
theorem Save.Sound.basedOn_iff_same {save : Save} (h : save.Sound revisions) {index : Nat} {revision : NoteRevision}
    (hget : revisions[index]? = some revision) (hetag : save.etag = toString (index + 1)) :
    save.BasedOn revisions ↔ SameNote save.draft.opened revision.content := by
  constructor
  · intro hbased
    obtain ⟨index', revision', hget', hetag', hsame, -⟩ := hbased
    have hindex : index' + 1 = index + 1 := toString_inj (hetag'.symm.trans hetag)
    rw [Nat.succ.inj hindex, hget] at hget'
    cases hget'
    exact hsame
  · intro hsame
    refine ⟨index, revision, hget, hetag, hsame, ?_⟩
    rw [h.content, h.draft.document, ← hsame.saved]
    rfl

/-- **An accepted save is based on the revision of its ETag** exactly where the revisions that were held had it, and
the draft was not opened on another content of the same signature. -/
theorem basedOn_iff {platform : NotePlatform} {s : Session} (hs : Session.Reachable platform s) {save : Save}
    (hsave : save ∈ s.accepted) : save.BasedOn s.server.revisions ↔ save.UpToDate s.server.revisions := by
  have hsound := hs.sound.accepted save hsave
  obtain ⟨index, revision, hget, hid, hetag⟩ := hsound.note
  rw [← hsound.etag] at hetag
  rw [hsound.basedOn_iff_same hget hetag]
  have hopened : contentKey save.draft.opened = contentKey (currentContent (some save.note) save.revisions) :=
    hsound.draft.baseline.symm.trans hsound.rendered
  by_cases hheld : ∃ r ∈ save.revisions, r.revisionId = save.note.currentRevisionId
  · rw [currentContent_of_held hs.sound.keyed hsound.revisions hget hid hheld] at hopened
    constructor
    · intro hsame index' revision' hget' hetag'
      have hindex : index' + 1 = index + 1 := toString_inj (hetag'.symm.trans hetag)
      rw [Nat.succ.inj hindex, hget] at hget'
      cases hget'
      exact ⟨.inl hheld, fun hother => hother.2 hsame⟩
    · intro hupToDate
      exact by_contra fun hother => (hupToDate index revision hget hetag).2 ⟨hopened, hother⟩
  · rw [currentContent_of_not_held hheld] at hopened
    constructor
    · intro hsame index' revision' hget' hetag'
      have hindex : index' + 1 = index + 1 := toString_inj (hetag'.symm.trans hetag)
      rw [Nat.succ.inj hindex, hget] at hget'
      cases hget'
      refine ⟨.inr ?_, fun hother => hother.2 hsame⟩
      exact hsame.signature.symm.trans hopened
    · intro hupToDate
      obtain ⟨hempty, hdistinct⟩ := hupToDate index revision hget hetag
      have hlooks := hempty.resolve_left hheld
      exact by_contra fun hother => hdistinct ⟨hopened.trans hlooks.symm, hother⟩

/-! ## Two runs -/

mutual

/-- Values that are the same. -/
def JsValue.same : JsValue → JsValue → Bool
  | .null, .null => true
  | .bool a, .bool b => a = b
  | .number a, .number b => a = b
  | .string a, .string b => a = b
  | .array items, .array items' => sameItems items items'
  | .object fields, .object fields' => sameFields fields fields'
  | _, _ => false

def sameItems : List JsValue → List JsValue → Bool
  | [], [] => true
  | item :: items, item' :: items' => item.same item' && sameItems items items'
  | _, _ => false

def sameFields : List (JsString × JsValue) → List (JsString × JsValue) → Bool
  | [], [] => true
  | (key, value) :: fields, (key', value') :: fields' => key = key' && value.same value' && sameFields fields fields'
  | _, _ => false

end

mutual

theorem JsValue.eq_of_same : ∀ {value value' : JsValue}, value.same value' = true → value = value'
  | .null, value', h => by cases value' <;> simp [JsValue.same] at h ⊢
  | .bool _, value', h => by cases value' <;> simp [JsValue.same] at h ⊢; exact h
  | .number _, value', h => by cases value' <;> simp [JsValue.same] at h ⊢; exact h
  | .string _, value', h => by cases value' <;> simp [JsValue.same] at h ⊢; exact h
  | .array items, value', h => by
    cases value' <;> simp only [JsValue.same, Bool.false_eq_true] at h
    rw [eq_of_sameItems h]
  | .object fields, value', h => by
    cases value' <;> simp only [JsValue.same, Bool.false_eq_true] at h
    rw [eq_of_sameFields h]

theorem eq_of_sameItems : ∀ {items items' : List JsValue}, sameItems items items' = true → items = items'
  | [], items', h => by cases items' <;> simp [sameItems] at h ⊢
  | item :: items, items', h => by
    cases items' <;> simp only [sameItems, Bool.and_eq_true, Bool.false_eq_true] at h
    rw [JsValue.eq_of_same h.1, eq_of_sameItems h.2]

theorem eq_of_sameFields : ∀ {fields fields' : List (JsString × JsValue)}, sameFields fields fields' = true →
    fields = fields'
  | [], fields', h => by cases fields' <;> simp [sameFields] at h ⊢
  | (key, value) :: fields, fields', h => by
    rcases fields' with _ | ⟨⟨key', value'⟩, fields'⟩
    · simp [sameFields] at h
    · simp only [sameFields, Bool.and_eq_true, decide_eq_true_eq] at h
      rw [h.1.1, JsValue.eq_of_same h.1.2, eq_of_sameFields h.2]

end

/-- A server that stores a content as it is; its digest is the text. -/
def plainPlatform : NotePlatform where
  digest := fun content => String.ofList ((stringify (.object content)).map fun c => Char.ofNat c.toNat)
  stored := id

/-- A note of one paragraph. -/
def paragraphNote (text : String) : Fields :=
  [(js "blocks", .array [.object [(js "type", .string (js "paragraph")), (js "text", .string (js text))]])]

/-- The note as it is at first. -/
def firstSession : Session := .start plainPlatform 1 (paragraphNote "a") true

/-- It is read and edited by one user. -/
def quietEdit : List Event :=
  [.answerNote, .noteArrives 0, .answerRevisions, .revisionsArrive 0, .startEditing, .type (.updateText 0 (js "b")),
    .submit, .accept 0 2]

/-- A save from the first revision, opened on what that is. -/
def savesFirst (s : Session) (save : Save) : Bool :=
  save.etag = "1" && save.revisions.any (·.revisionId = save.note.currentRevisionId) &&
    match s.server.revisions with
    | first :: _ => sameFields save.draft.opened first.content
    | [] => false

theorem quiet_save : ∃ s, Session.Reachable plainPlatform s ∧ ∃ save ∈ s.accepted, save.BasedOn s.server.revisions := by
  have hrun : (firstSession.run plainPlatform quietEdit).any (fun s => s.accepted.any (savesFirst s)) = true := by
    decide +kernel
  obtain ⟨s, hs, hany⟩ := (Option.any_eq_true _ _).1 hrun
  obtain ⟨save, hsave, hfirst⟩ := List.any_eq_true.1 hany
  have hreach : Session.Reachable plainPlatform s := (Session.Reachable.start 1 (paragraphNote "a") true).run hs
  refine ⟨s, hreach, save, hsave, (basedOn_iff hreach hsave).2 fun index revision hget hetag => ?_⟩
  simp only [savesFirst, Bool.and_eq_true, decide_eq_true_eq, List.any_eq_true] at hfirst
  obtain ⟨⟨hone, hheld⟩, hsame⟩ := hfirst
  have hindex : index + 1 = 1 := toString_inj (hetag.symm.trans hone)
  rw [Nat.succ.inj hindex] at hget
  refine ⟨.inl hheld, fun hother => hother.2 ?_⟩
  split at hsame
  · next first rest hrevisions =>
    rw [hrevisions, List.getElem?_cons_zero] at hget
    cases hget
    rw [eq_of_sameFields hsame]
    rfl
  · cases hsame

/-- Another user edits it, and the note is read again before its revisions are. -/
def staleEdit : List Event :=
  [.answerNote, .noteArrives 0, .answerRevisions, .revisionsArrive 0, .otherEdit "1" 2 (paragraphNote "b"),
    .answerNote, .noteArrives 0, .startEditing, .type (.addBlock .paragraph), .submit, .accept 0 3]

/-- A save from the second revision, opened on something else. -/
def savesOver (s : Session) (save : Save) : Bool :=
  save.etag = "2" &&
    match s.server.revisions with
    | _ :: second :: _ => stringify (.object (saved save.draft.opened [])) ≠
        stringify (.object (saved second.content []))
    | _ => false

/-- **A note that is read again before its revisions** opens empty, under the ETag of what it does not show. -/
theorem stale_save : ∃ s, Session.Reachable plainPlatform s ∧ ∃ save ∈ s.accepted,
    ¬ save.BasedOn s.server.revisions := by
  have hrun : (firstSession.run plainPlatform staleEdit).any (fun s => s.accepted.any (savesOver s)) = true := by
    decide +kernel
  obtain ⟨s, hs, hany⟩ := (Option.any_eq_true _ _).1 hrun
  obtain ⟨save, hsave, hover⟩ := List.any_eq_true.1 hany
  refine ⟨s, (Session.Reachable.start 1 (paragraphNote "a") true).run hs, save, hsave, fun hbased => ?_⟩
  simp only [savesOver, Bool.and_eq_true, decide_eq_true_eq] at hover
  obtain ⟨htwo, hdiffers⟩ := hover
  obtain ⟨index, revision, hget, hetag, hsame, -⟩ := hbased
  have hindex : index + 1 = 2 := toString_inj (hetag.symm.trans htwo)
  rw [Nat.succ.inj hindex] at hget
  split at hdiffers
  · next first second rest hrevisions =>
    rw [hrevisions, List.getElem?_cons_succ, List.getElem?_cons_zero] at hget
    cases hget
    rw [hsame] at hdiffers
    simp at hdiffers
  · cases hdiffers

end MilpbookLM.Web
