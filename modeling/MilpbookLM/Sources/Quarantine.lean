/-
The quarantine of an upload: its chunks are written and hashed as they come, and the file
is then identified from its first bytes, looked through in blocks, and left or unlinked.
Whatever the chunks are, the answer is the one for the whole content (`acquire_eq`), but
that a PDF's encryption marker is looked for in one block at a time
(`acquire_reference_iff`).
-/
import MilpbookLM.Documents.Sniffing
import MilpbookLM.Lib.Blocks

namespace MilpbookLM

open Blocks

namespace Quarantine

inductive AcquisitionErrorCode
  | unsupported | corrupt | tooLarge | timeout | internal | policyBlocked
  deriving DecidableEq

structure AcquisitionError where
  code : AcquisitionErrorCode
  detail : String
  deriving DecidableEq

structure QuarantinedPayload where
  path : String
  sha256 : String
  size : Nat
  media : IdentifiedMedia
  deriving DecidableEq

/-- Why `acquire` raises. -/
inductive Raised
  | acquisition (e : AcquisitionError)
  | fileExists
  /-- The upload itself was broken off. -/
  | upload
  deriving DecidableEq

/-- The code of a refusal. -/
def Raised.code? : Raised → Option AcquisitionErrorCode
  | acquisition e => some e.code
  | _ => none

/-- The chunks that come, and whether the upload then breaks off. -/
structure Upload where
  chunks : List (List UInt8)
  breaksOff : Bool

/-- The files of the quarantine directory, by their names. -/
abbrev Directory := List (String × List UInt8)

/-- `path.unlink(missing_ok=True)`. -/
def Directory.unlink (dir : Directory) (path : String) : Directory := dir.filter (·.1 ≠ path)

/-- The store, and what it takes from the library. -/
structure Store where
  maxBytes : Nat
  sniffer : TextSniffer
  /-- `hashlib.sha256(data).hexdigest()`. -/
  sha256 : List UInt8 → String

def chunkSize : Nat := 1024 * 1024

def pdfEncryptMarker : List UInt8 := ascii "/Encrypt"

def textFamily : List IdentifiedMedia := [.text, .markdown, .csv, .html]

namespace Store

variable (store : Store)

/-! ## acquire -/

/-- What was written, and what the digest was fed. -/
structure Received where
  content : List UInt8 := []
  hashed : List UInt8 := []
  size : Nat := 0

/-- The loop over the chunks; true where one of them is over the limit. -/
def receive : Received → List (List UInt8) → Received × Bool
  | received, [] => (received, false)
  | received, chunk :: chunks =>
    let nextSize := received.size + chunk.length
    if store.maxBytes < nextSize then (received, true)
    else receive ⟨received.content ++ chunk, received.hashed ++ chunk, nextSize⟩ chunks

/-- `_text_rejected`. -/
def textRejected (content : List UInt8) : Bool := (validatedText (blocks chunkSize content)).isNone

/-- `_identify`. -/
def identify (content : List UInt8) (size : Nat) : Except AcquisitionError IdentifiedMedia :=
  if size = 0 then .error ⟨.corrupt, "source is empty"⟩
  else match store.sniffer.sniffMediaType (content.take sniffSampleBytes) with
    | none => .error ⟨.unsupported, "content is not an accepted PDF, office, or decodable text family"⟩
    | some media =>
      if media = .pdf then
        if (blocks chunkSize content).any fun block => decide (pdfEncryptMarker <:+: block) then
          .error ⟨.policyBlocked, "encrypted PDF is not accepted"⟩
        else .ok media
      else if media ∈ textFamily ∧ textRejected content then
        .error ⟨.unsupported, "text content is not decodable after BOM detection"⟩
      else .ok media

/-- `acquire`, under the name that was drawn for the file. -/
def acquire (dir : Directory) (path : String) (upload : Upload) : Except Raised QuarantinedPayload × Directory :=
  if dir.any (·.1 = path) then (.error .fileExists, dir.unlink path)
  else
    let (received, tooLarge) := store.receive {} upload.chunks
    let written := dir ++ [(path, received.content)]
    -- the `finally` clause unlinks the file on every way out but the last
    if tooLarge then
      (.error (.acquisition ⟨.tooLarge, "source exceeds " ++ toString store.maxBytes ++ " byte acquisition limit"⟩),
        written.unlink path)
    else if upload.breaksOff then (.error .upload, written.unlink path)
    else match store.identify received.content received.size with
      | .error e => (.error (.acquisition e), written.unlink path)
      | .ok media => (.ok ⟨path, store.sha256 received.hashed, received.size, media⟩, written)

/-! ## The whole content at once -/

/-- What is to be answered for a content, where `encrypted` says which PDFs are. -/
def answerBy (encrypted : List UInt8 → Prop) [DecidablePred encrypted] (path : String) (content : List UInt8) :
    Except AcquisitionErrorCode QuarantinedPayload :=
  if store.maxBytes < content.length then .error .tooLarge
  else if content = [] then .error .corrupt
  else match store.sniffer.sniffMediaType (content.take sniffSampleBytes) with
    | none => .error .unsupported
    | some media =>
      if media ∈ textFamily ∧ decodeWhole content = none then .error .unsupported
      else if media = .pdf ∧ encrypted content then .error .policyBlocked
      else .ok ⟨path, store.sha256 content, content.length, media⟩

/-- The marker is somewhere in the content. -/
def Encrypted (content : List UInt8) : Prop := pdfEncryptMarker <:+: content

instance : DecidablePred Encrypted := fun content => inferInstanceAs (Decidable (pdfEncryptMarker <:+: content))

/-- The marker is in a block of it. -/
def EncryptedInBlock (content : List UInt8) : Prop := ∃ block ∈ blocks chunkSize content, pdfEncryptMarker <:+: block

instance : DecidablePred EncryptedInBlock :=
  fun content => inferInstanceAs (Decidable (∃ block ∈ blocks chunkSize content, pdfEncryptMarker <:+: block))

/-- The answer that looks at the whole byte string. -/
def reference (path : String) (content : List UInt8) : Except AcquisitionErrorCode QuarantinedPayload :=
  store.answerBy Encrypted path content

/-! ## What is received -/

variable {store} {dir : Directory} {path : String} {upload : Upload}

/-- **The limit is passed by a chunk** exactly where it is passed by all of them; what is within it is written, hashed
and counted. -/
theorem receive_eq {content : List UInt8} {chunks : List (List UInt8)} (hlimit : content.length ≤ store.maxBytes) :
    if (content ++ chunks.flatten).length ≤ store.maxBytes then
      store.receive ⟨content, content, content.length⟩ chunks =
        (⟨content ++ chunks.flatten, content ++ chunks.flatten, (content ++ chunks.flatten).length⟩, false)
    else (store.receive ⟨content, content, content.length⟩ chunks).2 = true := by
  induction chunks generalizing content with
  | nil =>
    simp only [List.flatten_nil, List.append_nil, if_pos hlimit]
    rfl
  | cons chunk chunks ih =>
    rw [List.flatten_cons, ← List.append_assoc]
    simp only [receive]
    by_cases hnext : store.maxBytes < content.length + chunk.length
    · rw [if_neg, if_pos hnext]
      simp only [List.length_append]
      omega
    · rw [if_neg hnext]
      have hrest := @ih (content ++ chunk) (by rw [List.length_append]; omega)
      have hsum : (content ++ chunk).length = content.length + chunk.length := List.length_append
      rwa [hsum] at hrest

theorem receive_start (store : Store) (chunks : List (List UInt8)) :
    if chunks.flatten.length ≤ store.maxBytes then
      store.receive {} chunks = (⟨chunks.flatten, chunks.flatten, chunks.flatten.length⟩, false)
    else (store.receive {} chunks).2 = true :=
  @receive_eq store [] chunks (Nat.zero_le _)

/-- Blocks are validated as the whole. -/
theorem validatedText_blocks (content : List UInt8) :
    validatedText (blocks chunkSize content) = decodeWhole content := by
  have hsize : 3 < chunkSize := by decide
  have hpos : 0 < chunkSize := by omega
  rw [validatedText_eq, flatten_blocks hpos]
  by_cases hcontent : content = []
  · rw [hcontent, blocks_nil]
    exact .inr rfl
  · rw [blocks_cons hpos hcontent, List.headD_cons, List.tail_cons, List.length_take]
    by_cases hlong : chunkSize ≤ content.length
    · exact .inl (by omega)
    · rw [List.drop_eq_nil_of_le (by omega), blocks_nil]
      exact .inr rfl

/-! ## What is answered -/

/-- **The answer is the one for the whole content**, but that the marker is looked for in each block. -/
theorem acquire_eq (hfresh : ∀ file ∈ dir, file.1 ≠ path) (hends : upload.breaksOff = false) :
    (store.acquire dir path upload).1.mapError Raised.code? =
      (store.answerBy EncryptedInBlock path upload.chunks.flatten).mapError some := by
  have hpath : dir.any (·.1 = path) = false := by simpa using hfresh
  have hreceived := receive_start store upload.chunks
  simp only [acquire, hpath, hends, answerBy]
  by_cases hlimit : upload.chunks.flatten.length ≤ store.maxBytes
  · rw [if_pos hlimit] at hreceived
    simp only [hreceived, identify, List.length_eq_zero_iff, if_neg (Nat.not_lt.2 hlimit)]
    by_cases hempty : upload.chunks.flatten = []
    · simp only [if_pos hempty]
      rfl
    · simp only [if_neg hempty]
      cases store.sniffer.sniffMediaType (upload.chunks.flatten.take sniffSampleBytes) with
      | none => rfl
      | some media =>
        simp only [textRejected, validatedText_blocks, Option.isNone_iff_eq_none]
        by_cases hpdf : media = .pdf
        · have hnotext : ¬ (media ∈ textFamily ∧ decodeWhole upload.chunks.flatten = none) := by
            rw [hpdf]
            exact fun h => absurd h.1 (by decide)
          have hmarker :
              ((blocks chunkSize upload.chunks.flatten).any fun block => decide (pdfEncryptMarker <:+: block)) = true ↔
                EncryptedInBlock upload.chunks.flatten := by simp [EncryptedInBlock]
          simp only [if_neg hnotext, if_pos hpdf, hmarker]
          by_cases hencrypted : EncryptedInBlock upload.chunks.flatten
          · simp only [if_pos hencrypted, if_pos (And.intro hpdf hencrypted)]
            rfl
          · simp only [if_neg hencrypted, if_neg fun h : media = .pdf ∧ _ => hencrypted h.2]
            rfl
        · simp only [if_neg hpdf, if_neg fun h : media = .pdf ∧ _ => hpdf h.1]
          by_cases htext : media ∈ textFamily ∧ decodeWhole upload.chunks.flatten = none
          · simp only [if_pos htext]
            rfl
          · simp only [if_neg htext]
            rfl
  · rw [if_neg hlimit] at hreceived
    simp only [hreceived, if_pos (Nat.lt_of_not_le hlimit)]
    rfl

theorem unlink_append (hfresh : ∀ file ∈ dir, file.1 ≠ path) (content : List UInt8) :
    Directory.unlink (dir ++ [(path, content)]) path = dir := by
  rw [Directory.unlink, List.filter_append, List.filter_eq_self.2 (by simpa using hfresh)]
  simp

/-- **What is not accepted leaves no file.** -/
theorem acquire_clean (hfresh : ∀ file ∈ dir, file.1 ≠ path) {e : Raised}
    (h : (store.acquire dir path upload).1 = .error e) : (store.acquire dir path upload).2 = dir := by
  have hpath : dir.any (·.1 = path) = false := by simpa using hfresh
  simp only [acquire, hpath, Bool.false_eq_true, if_false] at h ⊢
  split
  · exact unlink_append hfresh _
  · next hwithin =>
    rw [if_neg hwithin] at h
    split
    · exact unlink_append hfresh _
    · next hends =>
      rw [if_neg hends] at h
      split
      · exact unlink_append hfresh _
      · next hmedia =>
        rw [hmedia] at h
        cases h

/-- What is accepted is kept as it came. -/
theorem acquire_kept (hfresh : ∀ file ∈ dir, file.1 ≠ path) {payload : QuarantinedPayload}
    (h : (store.acquire dir path upload).1 = .ok payload) :
    (store.acquire dir path upload).2 = dir ++ [(path, upload.chunks.flatten)] := by
  have hpath : dir.any (·.1 = path) = false := by simpa using hfresh
  have hreceived := receive_start store upload.chunks
  simp only [acquire, hpath] at h ⊢
  by_cases hlimit : upload.chunks.flatten.length ≤ store.maxBytes
  · rw [if_pos hlimit] at hreceived
    simp only [hreceived] at h ⊢
    cases hends : upload.breaksOff with
    | true => simp [hends] at h
    | false =>
      cases hmedia : store.identify upload.chunks.flatten upload.chunks.flatten.length with
      | error e =>
        simp only [hends, hmedia, Bool.false_eq_true, if_false] at h
        cases h
      | ok media => simp
  · rw [if_neg hlimit] at hreceived
    simp [hreceived] at h

/-! ## The reference -/

/-- `acquire` is as the reference on the whole content, and leaves nothing of what it refuses. -/
structure AsReference (store : Store) (dir : Directory) (path : String) (upload : Upload) : Prop where
  answer : upload.breaksOff = false → (store.acquire dir path upload).1.mapError Raised.code? =
    (store.reference path upload.chunks.flatten).mapError some
  clean : ∀ e, (store.acquire dir path upload).1 = .error e → (store.acquire dir path upload).2 = dir
  kept : ∀ payload, (store.acquire dir path upload).1 = .ok payload →
    (store.acquire dir path upload).2 = dir ++ [(path, upload.chunks.flatten)]

/-- Of a PDF within the limit: where the marker occurs, one of its occurrences starts and ends in the same block. -/
def MarkerInBlock (store : Store) (content : List UInt8) : Prop :=
  content.length ≤ store.maxBytes →
    store.sniffer.sniffMediaType (content.take sniffSampleBytes) = some .pdf →
      pdfEncryptMarker <:+: content →
        ∃ i, OccursAt pdfEncryptMarker content i ∧ i / chunkSize = (i + pdfEncryptMarker.length - 1) / chunkSize

theorem encryptedInBlock_iff (content : List UInt8) : EncryptedInBlock content ↔
    ∃ i, OccursAt pdfEncryptMarker content i ∧ i / chunkSize = (i + pdfEncryptMarker.length - 1) / chunkSize :=
  exists_block_iff (by decide) (by decide) content

theorem encrypted_of_block {content : List UInt8} (h : EncryptedInBlock content) : Encrypted content := by
  obtain ⟨i, hi, -⟩ := (encryptedInBlock_iff content).1 h
  exact infix_iff.2 ⟨i, hi⟩

theorem answerBy_iff (content : List UInt8) :
    store.answerBy EncryptedInBlock path content = store.reference path content ↔ store.MarkerInBlock content := by
  rw [MarkerInBlock, ← encryptedInBlock_iff]
  simp only [reference, answerBy]
  by_cases hlimit : content.length ≤ store.maxBytes
  · simp only [if_neg (Nat.not_lt.2 hlimit), hlimit, true_imp_iff]
    by_cases hempty : content = []
    · simp [hempty, TextSniffer.sniffMediaType]
    · simp only [if_neg hempty]
      cases store.sniffer.sniffMediaType (content.take sniffSampleBytes) with
      | none => simp
      | some media =>
        by_cases hpdf : media = .pdf
        · subst hpdf
          have hnotext : IdentifiedMedia.pdf ∉ textFamily := by decide
          simp only [hnotext, false_and, if_false, true_and]
          by_cases hblock : EncryptedInBlock content
          · have hwhole := encrypted_of_block hblock
            simp [hblock, hwhole]
          · by_cases hwhole : Encrypted content
            · have hinfix : pdfEncryptMarker <:+: content := hwhole
              simp [hblock, hwhole, hinfix]
            · have hinfix : ¬ pdfEncryptMarker <:+: content := hwhole
              simp [hblock, hwhole, hinfix]
        · simp [hpdf]
  · simp [hlimit, Nat.lt_of_not_le hlimit]

theorem mapError_some_inj {α β : Type} {x y : Except α β} (h : x.mapError some = y.mapError some) : x = y := by
  cases x <;> cases y <;> simp_all [Except.mapError]

/-- **Streaming quarantine is the whole-file reference** exactly where a PDF's encryption marker, if it has one,
is somewhere in it not cut by the end of a block. -/
theorem acquire_reference_iff (store : Store) (hfresh : ∀ file ∈ dir, file.1 ≠ path) :
    store.AsReference dir path upload ↔
      (upload.breaksOff = false → store.MarkerInBlock upload.chunks.flatten) := by
  constructor
  · intro h hends
    have hanswer := h.answer hends
    rw [acquire_eq hfresh hends] at hanswer
    exact (answerBy_iff _).1 (mapError_some_inj hanswer)
  · intro h
    refine ⟨fun hends => ?_, fun e he => acquire_clean hfresh he, fun payload hp => acquire_kept hfresh hp⟩
    rw [acquire_eq hfresh hends, (answerBy_iff _).2 (h hends)]

/-- A store of the library's plain behaviour, with a limit of 64 MiB. -/
def sampleStore : Store where
  maxBytes := 64 * 1024 * 1024
  sniffer := { isDecimal := Char.isDigit, isWord := fun c => c.isAlphanum || c = '_', delimiter := fun _ => none }
  sha256 := fun _ => "8f434346648f6b96df89dda901c5176b10a6d83961dd3c1ac88b59b2dc327aa4"

/-- A text in three chunks. -/
theorem acquire_reference_hi : sampleStore.AsReference [] "1.quarantine" ⟨[[0x68], [], [0x69]], false⟩ :=
  (acquire_reference_iff sampleStore (by simp)).2 fun _ _ _ hmarker => absurd hmarker (by decide)

/-- A PDF whose marker starts four bytes before the end of the first block. -/
def straddling : List UInt8 := ascii "%PDF-" ++ List.replicate 1048567 0x20 ++ pdfEncryptMarker

/-- The marker is nowhere but at the end. -/
theorem occursAt_straddling {i : Nat} (h : OccursAt pdfEncryptMarker straddling i) : i = 1048572 := by
  have hslash : straddling[i]? = some 0x2F := by
    obtain ⟨rest, hrest⟩ := h
    have hhead := congrArg (·[0]?) hrest
    simpa [pdfEncryptMarker, ascii] using hhead.symm
  simp only [straddling] at hslash
  rw [List.append_assoc, List.getElem?_append] at hslash
  split at hslash
  · have hmem := List.mem_of_getElem? hslash
    exact absurd hmem (by decide)
  · next hfirst =>
    have hlength : (ascii "%PDF-").length = 5 := rfl
    rw [List.getElem?_append, List.length_replicate, hlength] at hslash
    rw [hlength] at hfirst
    split at hslash
    · have hmem := List.eq_of_mem_replicate (List.mem_of_getElem? hslash)
      exact absurd hmem (by decide)
    · next hsecond =>
      cases hj : i - 5 - 1048567 with
      | zero => omega
      | succ j =>
        rw [hj] at hslash
        have hmem : (0x2F : UInt8) ∈ pdfEncryptMarker.tail := by
          refine List.mem_of_getElem? (i := j) ?_
          rw [List.getElem?_tail]
          exact hslash
        exact absurd hmem (by decide)

/-- The encrypted PDF is accepted. -/
theorem cut_marker_missed : ¬ sampleStore.AsReference [] "1.quarantine" ⟨[straddling], false⟩ := by
  intro h
  have hanswer := h.answer rfl
  rw [acquire_eq (by simp) rfl] at hanswer
  have hblock := (answerBy_iff _).1 (mapError_some_inj hanswer)
  have hcontent : [straddling].flatten = straddling := by simp
  rw [hcontent] at hblock
  have hlength : straddling.length = 1048580 := by
    simp only [straddling, List.length_append, List.length_replicate]
    rfl
  have hpdf : (ascii "%PDF-").isPrefixOf (straddling.take sniffSampleBytes) = true := by
    rw [List.isPrefixOf_iff_prefix, List.prefix_take_iff]
    refine ⟨⟨List.replicate 1048567 0x20 ++ pdfEncryptMarker, ?_⟩, by decide⟩
    rw [straddling, List.append_assoc]
  have hsniff : sampleStore.sniffer.sniffMediaType (straddling.take sniffSampleBytes) = some .pdf := by
    rw [TextSniffer.sniffMediaType, if_neg, if_pos hpdf]
    intro hnil
    rw [hnil] at hpdf
    exact absurd hpdf (by decide)
  obtain ⟨i, hi, hsame⟩ := hblock (by rw [hlength]; decide) hsniff ⟨_, [], by rw [List.append_nil, straddling]⟩
  rw [occursAt_straddling hi] at hsame
  exact absurd hsame (by decide)

end Store

end Quarantine

end MilpbookLM
