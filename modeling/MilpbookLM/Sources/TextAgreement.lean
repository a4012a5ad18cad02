/-
What the quarantine takes for text, and what the parser of its media type makes of it. The
sniffer, the validation of the stream and the parsers each look at the byte order mark by
themselves: the parser of plain text alone does not, so they agree exactly where no plain
text is in UTF-16 (`text_agreement_iff`).
-/
import Mathlib.Data.List.Find
import MilpbookLM.Documents.Coordinates
import MilpbookLM.Documents.CsvParser
import MilpbookLM.Sources.Quarantine

namespace MilpbookLM.Quarantine

/-! ## The sample -/

theorem isPrefixOf_take {magic : List UInt8} {n : Nat} (data : List UInt8) (h : magic.length ≤ n) :
    magic.isPrefixOf (data.take n) = magic.isPrefixOf data := by
  rw [Bool.eq_iff_iff, List.isPrefixOf_iff_prefix, List.isPrefixOf_iff_prefix, List.prefix_take_iff]
  exact ⟨fun hp => hp.1, fun hp => ⟨hp, h⟩⟩

/-- Bytes within the sample. -/
theorem take_drop_take (data : List UInt8) {m k n : Nat} (h : m + k ≤ n) :
    ((data.take n).drop m).take k = (data.drop m).take k := by
  rw [List.drop_take, List.take_take, Nat.min_eq_left (by omega)]

theorem sniffMp3Sync_take (data : List UInt8) : sniffMp3Sync (data.take sniffSampleBytes) = sniffMp3Sync data := by
  rcases data with _ | ⟨b₀, _ | ⟨b₁, _ | ⟨b₂, data⟩⟩⟩ <;> rfl

theorem sniffMediaBinary_take (data : List UInt8) :
    sniffMediaBinary (data.take sniffSampleBytes) = sniffMediaBinary data := by
  have hshort : ∀ entry ∈ mediaMagicTable, entry.1.length ≤ sniffSampleBytes := by decide
  have htable : (mediaMagicTable.find? fun entry => entry.1.isPrefixOf (data.take sniffSampleBytes)) =
      mediaMagicTable.find? fun entry => entry.1.isPrefixOf data :=
    List.find?_congr fun entry he => isPrefixOf_take data (hshort entry he)
  have hlength : ∀ k ≤ 12, k ≤ (data.take sniffSampleBytes).length ↔ k ≤ data.length := by
    intro k hk
    rw [List.length_take, Nat.le_min]
    exact ⟨fun h => h.2, fun h => ⟨Nat.le_trans hk (by decide), h⟩⟩
  have hriff : sniffRiff (data.take sniffSampleBytes) = sniffRiff data := by
    simp only [sniffRiff]
    rw [isPrefixOf_take data (by decide), take_drop_take data (by decide)]
    simp only [hlength 12 (Nat.le_refl 12)]
  simp only [sniffMediaBinary, htable, hriff, sniffMp3Sync_take]
  rw [take_drop_take data (by decide)]
  simp only [hlength 8 (by decide)]

theorem sniffText_take (sniffer : TextSniffer) (data : List UInt8) :
    sniffer.sniffText (data.take sniffSampleBytes) = sniffer.sniffText data := by
  have hdialect : (data.take sniffSampleBytes).take sniffDialectSampleBytes = data.take sniffDialectSampleBytes := by
    rw [List.take_take, Nat.min_eq_left (by decide)]
  have hnul : (data.take sniffSampleBytes).take 512 = data.take 512 := by
    rw [List.take_take, Nat.min_eq_left (by decide)]
  simp only [TextSniffer.sniffText, hdialect, hnul]

/-- **The sample tells as much as the whole.** -/
theorem sniffMediaType_take (sniffer : TextSniffer) (data : List UInt8) :
    sniffer.sniffMediaType (data.take sniffSampleBytes) = sniffer.sniffMediaType data := by
  have hnil : data.take sniffSampleBytes = [] ↔ data = [] := by
    rw [List.take_eq_nil_iff]
    simp [sniffSampleBytes]
  have hoffice : sniffOffice (data.take sniffSampleBytes) = sniffOffice data := by
    rw [sniffOffice, sniffOffice, List.take_take, Nat.min_self]
  simp only [TextSniffer.sniffMediaType, hnil, hoffice, sniffMediaBinary_take, sniffText_take]
  rw [isPrefixOf_take data (by decide), isPrefixOf_take data (by decide)]

/-! ## What the parsers decode -/

/-- The text that the parser of the media type decodes: `parse_text`, `parse_markdown`, `parse_csv`. -/
def parserText (rt : Runtime) (media : IdentifiedMedia) (data : List UInt8) : Option Text :=
  match media with
  | .text => rt.plainText data
  | .markdown | .csv => rt.decodeText data
  | _ => none

/-- The same text, up to a byte order mark at the front, line endings and the normal form. -/
def SameText (rt : Runtime) (raw text : Text) : Prop :=
  ∃ unmarked ∈ [raw, raw.drop 1], (unmarked = raw ∨ raw.head? = some (Char.ofNat 0xFEFF)) ∧
    ∃ lines ∈ [replaceCrLf unmarked, (replaceCrLf unmarked).map fun c => if c = '\r' then '\n' else c],
      text = rt.nfc lines

def parsedFamily : List IdentifiedMedia := [.text, .markdown, .csv]

/-- What is accepted as text is decoded by its parser as it was validated, and the sample tells as much as the whole. -/
structure TextAgreement (rt : Runtime) (store : Store) (dir : Directory) (path : String) (upload : Upload) : Prop where
  decoded : ∀ payload, (store.acquire dir path upload).1 = .ok payload → payload.media ∈ parsedFamily →
    ∃ raw text, validatedText (Blocks.blocks chunkSize upload.chunks.flatten) = some raw ∧
      parserText rt payload.media upload.chunks.flatten = some text ∧ SameText rt raw text
  sniffed : store.sniffer.sniffMediaType (upload.chunks.flatten.take sniffSampleBytes) =
    store.sniffer.sniffMediaType upload.chunks.flatten

variable {rt : Runtime} {store : Store} {dir : Directory} {path : String} {upload : Upload}

theorem acquire_ok {payload : QuarantinedPayload} (h : (store.acquire dir path upload).1 = .ok payload) :
    store.answerBy Store.EncryptedInBlock path upload.chunks.flatten = .ok payload := by
  have hfresh : ∀ file ∈ dir, file.1 ≠ path := by
    intro file hf he
    have hpath : dir.any (·.1 = path) = true := List.any_eq_true.2 ⟨file, hf, by simpa using he⟩
    simp [Store.acquire, hpath] at h
  have hends : upload.breaksOff = false := by
    cases hends : upload.breaksOff with
    | false => rfl
    | true =>
      simp only [Store.acquire, hends] at h
      split at h
      · cases h
      · split at h <;> cases h
  have hanswer := @Store.acquire_eq store dir path upload hfresh hends
  rw [h] at hanswer
  have hsome : (Except.ok payload : Except AcquisitionErrorCode QuarantinedPayload).mapError some =
      (store.answerBy Store.EncryptedInBlock path upload.chunks.flatten).mapError some := hanswer
  exact (Store.mapError_some_inj hsome).symm

/-- What is accepted was decoded where it is text. -/
theorem decoded_of_ok {payload : QuarantinedPayload} (h : (store.acquire dir path upload).1 = .ok payload)
    (hmedia : payload.media ∈ parsedFamily) : ∃ raw, decodeWhole upload.chunks.flatten = some raw := by
  have hanswer := acquire_ok h
  simp only [Store.answerBy] at hanswer
  split at hanswer
  · cases hanswer
  · split at hanswer
    · cases hanswer
    · split at hanswer
      · cases hanswer
      · split at hanswer
        · cases hanswer
        next media hsniff htext =>
        split at hanswer
        · cases hanswer
        cases hanswer
        have hfamily : ∀ m ∈ parsedFamily, m ∈ textFamily := by decide
        exact Option.ne_none_iff_exists'.1 fun hnone => htext ⟨hfamily _ hmedia, hnone⟩

theorem decodeUtf8_marked {data : List UInt8} {bigEndian : Bool} (h : bomEncoding data = some bigEndian) :
    decodeUtf8 data = none := by
  simp only [bomEncoding] at h
  split at h
  · cases h
  · obtain ⟨bom, hbom, -⟩ := Option.map_eq_some_iff.1 h
    have hprefix : bom.1.isPrefixOf data = true := by simpa using List.find?_some hbom
    obtain ⟨rest, rfl⟩ := List.isPrefixOf_iff_prefix.1 hprefix
    have hmem := List.mem_of_find?_eq_some hbom
    simp only [utf16Boms, List.mem_cons, List.not_mem_nil, or_false] at hmem
    rcases hmem with rfl | rfl
    · exact decodeUtf8_none (.inr (by decide))
    · exact decodeUtf8_none (.inr (by decide))

/-- All line ends made one. -/
def oneLineEnd (t : Text) : Text := (replaceCrLf t).map fun c => if c = '\r' then '\n' else c

theorem sameText_oneLineEnd {raw unmarked : Text} (h : unmarked = raw ∨ unmarked = raw.drop 1 ∧
    raw.head? = some (Char.ofNat 0xFEFF)) : SameText rt raw (rt.nfc (oneLineEnd unmarked)) := by
  refine ⟨unmarked, ?_, ?_, oneLineEnd unmarked, List.mem_cons_of_mem _ List.mem_cons_self, rfl⟩
  · rcases h with rfl | ⟨rfl, -⟩ <;> simp
  · rcases h with h | ⟨-, h⟩
    · exact .inl h
    · exact .inr h

theorem decodeUtf8_bom (rest : List UInt8) :
    decodeUtf8 (utf8Bom ++ rest) = (decodeUtf8 rest).map (Char.ofNat 0xFEFF :: ·) := by
  have hvalid : Nat.isValidChar 65279 := by decide
  simp [utf8Bom, decodeUtf8, isContinuation, scalar?, hvalid]

/-- The parsers of Markdown and of CSV decode what was validated. -/
theorem decodeText_same {data : List UInt8} {raw : Text} (h : decodeWhole data = some raw) :
    ∃ text, rt.decodeText data = some text ∧ SameText rt raw text := by
  simp only [decodeWhole] at h
  cases hbom : bomEncoding data with
  | some bigEndian =>
    simp only [hbom] at h
    have htext : rt.decodeText data = some (rt.nfc (oneLineEnd raw)) := by
      simp [Runtime.decodeText, hbom, h, oneLineEnd]
    exact ⟨_, htext, sameText_oneLineEnd (.inl rfl)⟩
  | none =>
    simp only [hbom] at h
    by_cases hmark : utf8Bom.isPrefixOf data = true
    · have htext : rt.decodeText data = some (rt.nfc (oneLineEnd (raw.drop 1))) := by
        simp [Runtime.decodeText, hbom, h, hmark, oneLineEnd]
      obtain ⟨rest, rfl⟩ := List.isPrefixOf_iff_prefix.1 hmark
      rw [decodeUtf8_bom] at h
      obtain ⟨tail, -, rfl⟩ := Option.map_eq_some_iff.1 h
      exact ⟨_, htext, sameText_oneLineEnd (.inr ⟨rfl, rfl⟩)⟩
    · have htext : rt.decodeText data = some (rt.nfc (oneLineEnd raw)) := by
        simp [Runtime.decodeText, hbom, h, hmark, oneLineEnd]
      exact ⟨_, htext, sameText_oneLineEnd (.inl rfl)⟩

/-- **The parsers decode what was validated** exactly where nothing in UTF-16 is taken for plain text. -/
theorem text_agreement_iff (rt : Runtime) (store : Store) (dir : Directory) (path : String) (upload : Upload) :
    TextAgreement rt store dir path upload ↔ ∀ payload, (store.acquire dir path upload).1 = .ok payload →
      payload.media = .text → bomEncoding upload.chunks.flatten = none := by
  constructor
  · intro h payload hpayload hmedia
    obtain ⟨raw, text, -, htext, -⟩ := h.decoded payload hpayload (by rw [hmedia]; decide)
    rw [hmedia] at htext
    cases hbom : bomEncoding upload.chunks.flatten with
    | none => rfl
    | some bigEndian => simp [parserText, Runtime.plainText, decodeUtf8_marked hbom] at htext
  · intro h
    refine ⟨fun payload hpayload hmedia => ?_, sniffMediaType_take _ _⟩
    obtain ⟨raw, hraw⟩ := decoded_of_ok hpayload hmedia
    rw [Store.validatedText_blocks]
    simp only [parsedFamily, List.mem_cons, List.not_mem_nil, or_false] at hmedia
    rcases hmedia with hmedia | hmedia | hmedia
    · have hbom := h payload hpayload hmedia
      simp only [decodeWhole, hbom] at hraw
      refine ⟨raw, rt.nfc (replaceCrLf raw), by simp [decodeWhole, hbom, hraw], ?_, raw, by simp, .inl rfl, _,
        List.mem_cons_self, rfl⟩
      simp [parserText, hmedia, Runtime.plainText, hraw]
    · obtain ⟨text, htext, hsame⟩ := @decodeText_same rt _ _ hraw
      exact ⟨raw, text, hraw, by rw [hmedia]; exact htext, hsame⟩
    · obtain ⟨text, htext, hsame⟩ := @decodeText_same rt _ _ hraw
      exact ⟨raw, text, hraw, by rw [hmedia]; exact htext, hsame⟩

/-- The text `hi` in UTF-16, behind its byte order mark. -/
def utf16Hi : List UInt8 := [0xFF, 0xFE, 0x68, 0x00, 0x69, 0x00]

/-- It is taken for plain text, which its parser cannot decode. -/
theorem utf16_undecoded :
    ¬ TextAgreement sampleRuntime Store.sampleStore [] "1.quarantine" ⟨[utf16Hi], false⟩ := by
  intro h
  have haccepted := @Store.acquire_eq Store.sampleStore [] "1.quarantine" ⟨[utf16Hi], false⟩ (by simp) rfl
  have hanswer : Store.sampleStore.answerBy Store.EncryptedInBlock "1.quarantine" [utf16Hi].flatten =
      .ok ⟨"1.quarantine", Store.sampleStore.sha256 utf16Hi, 6, .text⟩ := by
    have hsniff : Store.sampleStore.sniffer.sniffMediaType utf16Hi = some .text := by decide +kernel
    have hdecoded : decodeWhole utf16Hi = some ['h', 'i'] := by decide +kernel
    have hsample : utf16Hi.take sniffSampleBytes = utf16Hi := rfl
    have hwhole : [utf16Hi].flatten = utf16Hi := rfl
    have hlimit : ¬ Store.sampleStore.maxBytes < utf16Hi.length := by decide
    have hlength : utf16Hi.length = 6 := rfl
    have hempty : utf16Hi ≠ [] := by decide
    rw [hwhole, Store.answerBy, if_neg hlimit, if_neg hempty, hsample, hsniff]
    simp [hdecoded, hlength]
  rw [hanswer] at haccepted
  cases hresult : (Store.sampleStore.acquire [] "1.quarantine" ⟨[utf16Hi], false⟩).1 with
  | error e =>
    rw [hresult] at haccepted
    cases haccepted
  | ok payload =>
    rw [hresult] at haccepted
    cases haccepted
    obtain ⟨raw, text, -, htext, -⟩ := h.decoded _ hresult (by decide)
    cases htext

end MilpbookLM.Quarantine
