/-
The URL of a refresh (pg_sources.py, `refresh_url`): it is cut out of the origin
that `_origin` built. The cut drops all from the last ":captured:" on, which
`_origin` never writes, so the URL comes back when it holds no ":captured:"
(`recoveredUrl_origin`). Origins of files end in their digest, which has no
colon: they name kind and digest (`fileOrigin_inj`), and one equals the origin of a
page only where the kind itself says "web_url" (`Poses`).
-/
import MilpbookLM.Sources.Catalog

namespace MilpbookLM

/-! ## The cut -/

/-- What stands before the last `sep` of a text, if it has one. -/
def beforeLast (sep : List Char) : List Char → Option (List Char)
  | [] => none
  | c :: s =>
    match beforeLast sep s with
    | some before => some (c :: before)
    | none => if sep <+: c :: s then some [] else none

/-- `s.rsplit(sep, maxsplit=1)[0]`. -/
def rsplitHead (s sep : String) : String := ((beforeLast sep.toList s.toList).map String.ofList).getD s

theorem beforeLast_none {sep : List Char} (hsep : sep ≠ []) (s : List Char) :
    beforeLast sep s = none ↔ ¬ sep <:+: s := by
  induction s with
  | nil => simp [beforeLast, hsep]
  | cons c s ih =>
    simp only [beforeLast, List.infix_cons_iff, not_or]
    cases hs : beforeLast sep s with
    | some before =>
      have hin : ¬ ¬ sep <:+: s := fun hn => by simp [ih.2 hn] at hs
      simp [hin]
    | none =>
      have hin := ih.1 hs
      by_cases hp : sep <+: c :: s <;> simp [hp, hin]

theorem length_beforeLast {sep s before : List Char} (h : beforeLast sep s = some before) :
    before.length < s.length := by
  induction s generalizing before with
  | nil => simp [beforeLast] at h
  | cons c s ih =>
    simp only [beforeLast] at h
    cases hs : beforeLast sep s with
    | some b =>
      simp only [hs, Option.some.injEq] at h
      have := ih hs
      simp only [← h, List.length_cons]
      omega
    | none =>
      simp only [hs] at h
      split at h
      · cases h; simp
      · cases h

/-- The cut keeps the texts without a separator, and only those. -/
theorem rsplitHead_eq_self {s sep : String} (hsep : sep.toList ≠ []) :
    rsplitHead s sep = s ↔ ¬ sep.toList <:+: s.toList := by
  rw [← beforeLast_none hsep, rsplitHead]
  cases h : beforeLast sep.toList s.toList with
  | none => simp
  | some before =>
    simp only [Option.map_some, Option.getD_some, reduceCtorEq, iff_false]
    intro heq
    have hlen := length_beforeLast h
    rw [← heq] at hlen
    simp at hlen

/-! ## `refresh_url` -/

/-- The part of `refresh_url` after its query. -/
def recoveredUrl (origin : Option String) : Option String :=
  match origin with
  | none => none
  | some origin =>
    if "web_url:".toList <+: origin.toList then
      let remote := String.ofList (origin.toList.drop "web_url:".length)
      some (rsplitHead remote ":captured:")
    else none

theorem recoveredUrl_web (url : String) :
    recoveredUrl (some ("web_url:" ++ url)) = some (rsplitHead url ":captured:") := by
  have hlength : "web_url:".length = "web_url:".toList.length := rfl
  simp only [recoveredUrl, String.toList_append, List.prefix_append, if_true, hlength, List.drop_left,
    String.ofList_toList]

/-- No separator of `refresh_url` in the URL. -/
def Uncaptured (url : String) : Prop := ¬ ":captured:".toList <:+: url.toList

instance (url : String) : Decidable (Uncaptured url) := inferInstanceAs (Decidable (¬ _))

namespace AcquireSourceCommand

variable {command command' : AcquireSourceCommand} {blob blob' : BlobObject}

/-- A refresh of what the command acquired goes where the command went. -/
def Recovers (command : AcquireSourceCommand) (blob : BlobObject) : Prop :=
  ∀ url ∈ command.requestedUrl, recoveredUrl (some (command.origin blob)) = some url

/-- **The URL comes back when it does not hold the separator.** -/
theorem recovers_iff : command.Recovers blob ↔ ∀ url ∈ command.requestedUrl, Uncaptured url := by
  unfold Recovers
  refine forall₂_congr fun url hurl => ?_
  have horigin : command.origin blob = "web_url:" ++ url := by
    simp only [Option.mem_def] at hurl
    simp [origin, hurl]
  rw [horigin, recoveredUrl_web, Option.some.injEq]
  exact rsplitHead_eq_self (by decide)

/-! ## What an origin names -/

/-- Both of one page, or both of one kind with the same bytes. -/
def SameAcquired (command command' : AcquireSourceCommand) (data data' : List UInt8) : Prop :=
  match command.requestedUrl, command'.requestedUrl with
  | some url, some url' => url = url'
  | none, none => command.originKind = command'.originKind ∧ data = data'
  | _, _ => False

/-- `requestedUrl` is what the origin of a file has after "web_url:", the kind of the
file being "web_url" itself or a text that begins with "web_url:". -/
def Poses (command : AcquireSourceCommand) (blob : BlobObject) (url : String) : Prop :=
  command.originKind = "web_url" ∧ url = importerVersion ++ ":sha256:" ++ blob.contentSha256 ∨
  ∃ rest, command.originKind = "web_url:" ++ rest ∧
    url = rest ++ ":" ++ importerVersion ++ ":sha256:" ++ blob.contentSha256

/-- A file whose origin is that of the page which the other command asked for. -/
def Mistaken (command : AcquireSourceCommand) (blob : BlobObject) (command' : AcquireSourceCommand) : Prop :=
  command.requestedUrl = none ∧ ∃ url ∈ command'.requestedUrl, command.Poses blob url

theorem fileOrigin_inj {kind kind' digest digest' : String} (hd : ':' ∉ digest.toList) (hd' : ':' ∉ digest'.toList)
    (h : kind ++ ":" ++ importerVersion ++ ":sha256:" ++ digest =
      kind' ++ ":" ++ importerVersion ++ ":sha256:" ++ digest') : kind = kind' ∧ digest = digest' := by
  have heq := congrArg String.toList h
  have hcolon : (":sha256:" : String).toList = ":sha256".toList ++ [':'] := rfl
  simp only [String.toList_append, hcolon, List.append_assoc, List.singleton_append] at heq
  simp only [← List.append_assoc] at heq
  obtain ⟨hkind, hdigest⟩ := append_colon_inj hd hd' heq
  simp only [List.append_assoc] at hkind
  exact ⟨String.toList_injective (List.append_cancel_right hkind), String.toList_injective hdigest⟩

/-- The origin of a file and that of a page. -/
theorem fileOrigin_eq_web {url : String} :
    command.originKind ++ ":" ++ importerVersion ++ ":sha256:" ++ blob.contentSha256 = "web_url:" ++ url ↔
      command.Poses blob url := by
  constructor
  · intro h
    have heq := congrArg String.toList h
    simp only [String.toList_append, List.append_assoc] at heq
    rcases List.append_eq_append_iff.1 heq with ⟨c, hkind, hrest⟩ | ⟨c, hkind, hrest⟩
    · -- The kind is a beginning of "web_url:", and what it leaves is nothing or the colon.
      rcases c with _ | ⟨d, c⟩
      · refine .inr ⟨"", String.toList_injective (by simpa using hkind.symm), String.toList_injective ?_⟩
        simpa using hrest.symm
      · rcases List.eq_nil_or_concat c with rfl | ⟨c, x, rfl⟩
        · have hd : "web_url".toList ++ [':'] = command.originKind.toList ++ [d] := hkind
          exact .inl ⟨String.toList_injective (List.append_inj_left' hd rfl).symm,
            String.toList_injective (by simpa using (List.append_inj hrest rfl).2.symm)⟩
        · obtain rfl : ':' = d := (List.cons_eq_cons.1 hrest).1
          have hlast : "web_url".toList ++ [':'] = (command.originKind.toList ++ ':' :: c) ++ [x] := by
            simpa using hkind
          have hmem : ':' ∈ "web_url".toList := by
            rw [List.append_inj_left' hlast rfl]
            simp
          exact absurd hmem (by decide)
    · refine .inr ⟨String.ofList c, String.toList_injective (by simpa using hkind), String.toList_injective ?_⟩
      simpa [eq_comm] using hrest
  · intro h
    rcases h with ⟨hkind, rfl⟩ | ⟨rest, hkind, rfl⟩
    · simp [hkind, String.append_assoc]
    · simp [hkind, String.append_assoc]

/-- **Origins name what was acquired**, unless a file poses as a page, and a refresh
goes where the acquisition went, unless the URL holds the separator. -/
theorem origin_iff {sha256 : List UInt8 → String} {data data' : List UInt8} (hblob : blob.contentSha256 = sha256 data)
    (hblob' : blob'.contentSha256 = sha256 data') (hcolon : ':' ∉ (sha256 data).toList)
    (hcolon' : ':' ∉ (sha256 data').toList) (hcollision : sha256 data = sha256 data' → data = data') :
    (command.Recovers blob ∧ command'.Recovers blob' ∧
        (command.origin blob = command'.origin blob' → SameAcquired command command' data data')) ↔
      (∀ url ∈ command.requestedUrl, Uncaptured url) ∧ (∀ url ∈ command'.requestedUrl, Uncaptured url) ∧
        ¬ command.Mistaken blob command' ∧ ¬ command'.Mistaken blob' command := by
  rw [recovers_iff, recovers_iff]
  refine and_congr_right fun _ => and_congr_right fun _ => ?_
  unfold SameAcquired Mistaken origin
  cases hurl : command.requestedUrl with
  | some url =>
    cases hurl' : command'.requestedUrl with
    | some url' => simp
    | none =>
      simp only [← fileOrigin_eq_web, eq_comm (a := "web_url:" ++ url)]
      simp [eq_comm]
  | none =>
    cases hurl' : command'.requestedUrl with
    | some url' => simp [← fileOrigin_eq_web]
    | none =>
      simp only [reduceCtorEq, Option.mem_def, false_and, exists_false, and_false, not_false_eq_true, and_self,
        iff_true]
      intro heq
      obtain ⟨hkind, hdigest⟩ := fileOrigin_inj (hblob ▸ hcolon) (hblob' ▸ hcolon') heq
      rw [hblob, hblob'] at hdigest
      exact ⟨hkind, hcollision hdigest⟩

/-- The SHA-256 of no bytes. -/
def emptySha256 : String := "e3b0c44298fc1c149afbf4c8996fb92427ae41e4649b934ca495991b7852b855"

def emptyBlob (contentType : String) : BlobObject where
  id := 1
  contentSha256 := emptySha256
  sizeBytes := 0
  storagePath := .object emptySha256
  state := .finalized
  contentType := some contentType

def uploadCommand : AcquireSourceCommand := ⟨1#128, 2#128, "a", "upload", none, none⟩

def webCommand (url : String) : AcquireSourceCommand := ⟨1#128, 2#128, "b", "web_url", some url, none⟩

/-- An empty file and an empty page. -/
theorem origin_of_empty :
    (webCommand "https://host/").Recovers (emptyBlob "text/html") ∧ uploadCommand.Recovers (emptyBlob "text/plain") ∧
      ((webCommand "https://host/").origin (emptyBlob "text/html") = uploadCommand.origin (emptyBlob "text/plain") →
        SameAcquired (webCommand "https://host/") uploadCommand [] []) := by
  refine (@origin_iff _ _ _ _ (fun _ => emptySha256) [] [] rfl rfl (by decide) (by decide) fun _ => rfl).2
    ⟨?_, ?_, ?_, ?_⟩
  · intro url hurl
    cases hurl
    decide
  · intro url hurl
    cases hurl
  · intro h
    cases h.1
  · intro h
    obtain ⟨-, url, hurl, hposes⟩ := h
    rcases hposes with ⟨hkind, -⟩ | ⟨rest, hkind, -⟩
    · exact absurd hkind (by decide)
    · have heq := congrArg String.toList hkind
      simp [uploadCommand] at heq

/-- A page whose URL holds the separator is refreshed from another URL. -/
theorem captured_url_cut :
    ¬ (webCommand "https://host/?q=a:captured:b").Recovers (emptyBlob "text/html") := by
  intro h
  have hcut := h "https://host/?q=a:captured:b" rfl
  exact absurd hcut (by decide)

end AcquireSourceCommand

/-! ## The stored origin -/

end MilpbookLM
