/-
Which media family a payload is of, by its first bytes alone. Python's csv.Sniffer and
the character classes of its regular expressions are parameters; of the expressions
themselves each is a function of one line.
-/
import MilpbookLM.Documents.TextStream

namespace MilpbookLM

inductive IdentifiedMedia
  | pdf | text | markdown | csv | xlsx | docx | pptx | html | epub | imagePng | imageJpeg | imageGif | imageWebp
  | imageBmp | audioWav | audioMp3 | videoMp4 | videoWebm
  deriving DecidableEq

def IdentifiedMedia.value : IdentifiedMedia → String
  | pdf => "application/pdf"
  | text => "text/plain"
  | markdown => "text/markdown"
  | csv => "text/csv"
  | xlsx => "application/vnd.openxmlformats-officedocument.spreadsheetml.sheet"
  | docx => "application/vnd.openxmlformats-officedocument.wordprocessingml.document"
  | pptx => "application/vnd.openxmlformats-officedocument.presentationml.presentation"
  | html => "text/html"
  | epub => "application/epub+zip"
  | imagePng => "image/png"
  | imageJpeg => "image/jpeg"
  | imageGif => "image/gif"
  | imageWebp => "image/webp"
  | imageBmp => "image/bmp"
  | audioWav => "audio/x-wav"
  | audioMp3 => "audio/mpeg"
  | videoMp4 => "video/mp4"
  | videoWebm => "video/webm"

/-- What `re` and `csv` bring along. -/
structure TextSniffer where
  /-- A character `\d` matches. -/
  isDecimal : Char → Bool
  /-- A character `\w` matches. -/
  isWord : Char → Bool
  /-- The delimiter of `csv.Sniffer().sniff(sample, delimiters=",;\t|")`; none for a csv.Error. -/
  delimiter : Text → Option Char

def sniffSampleBytes : Nat := 8192

def sniffDialectSampleBytes : Nat := 4096

/-- The bytes of an ASCII literal. -/
def ascii (s : String) : List UInt8 := s.toList.map fun c => UInt8.ofNat c.toNat

/-! ## Binary families -/

def mediaMagicTable : List (List UInt8 × IdentifiedMedia) :=
  [([0x89, 0x50, 0x4E, 0x47, 0x0D, 0x0A, 0x1A, 0x0A], .imagePng), ([0xFF, 0xD8, 0xFF], .imageJpeg),
    (ascii "GIF87a", .imageGif), (ascii "GIF89a", .imageGif), (ascii "BM", .imageBmp),
    ([0x1A, 0x45, 0xDF, 0xA3], .videoWebm), (ascii "ID3", .audioMp3)]

def officePartMarkers : List (List UInt8 × IdentifiedMedia) :=
  [(ascii "application/epub+zip", .epub), (ascii "xl/", .xlsx), (ascii "word/", .docx), (ascii "ppt/", .pptx)]

/-- `_sniff_riff`. -/
def sniffRiff (data : List UInt8) : Option IdentifiedMedia :=
  if (ascii "RIFF").isPrefixOf data ∧ 12 ≤ data.length then
    if (data.drop 8).take 4 = ascii "WEBP" then some .imageWebp
    else if (data.drop 8).take 4 = ascii "WAVE" then some .audioWav
    else none
  else none

/-- `_sniff_mp3_sync`. -/
def sniffMp3Sync : List UInt8 → Option IdentifiedMedia
  | b₀ :: _ :: b₂ :: _ => if b₀ = 0xFF ∧ b₂ &&& 0xE0 = 0xE0 then some .audioMp3 else none
  | _ => none

/-- `_sniff_media_binary`. -/
def sniffMediaBinary (data : List UInt8) : Option IdentifiedMedia :=
  match mediaMagicTable.find? fun entry => entry.1.isPrefixOf data with
  | some entry => some entry.2
  | none =>
    match sniffRiff data with
    | some riff => some riff
    | none =>
      if 8 ≤ data.length ∧ (data.drop 4).take 4 = ascii "ftyp" then some .videoMp4 else sniffMp3Sync data

/-- `_sniff_office`. -/
def sniffOffice (data : List UInt8) : Option IdentifiedMedia :=
  (officePartMarkers.find? fun entry => decide (entry.1 <:+: data.take sniffSampleBytes)).map (·.2)

/-! ## Text families -/

/-- A character `str.splitlines` breaks a line at. -/
def isLineBreak (c : Char) : Bool :=
  let n := c.toNat
  10 ≤ n && n ≤ 13 || 28 ≤ n && n ≤ 30 || n = 0x85 || n = 0x2028 || n = 0x2029

/-- `text.splitlines()`, behind what there is of a line. -/
def splitLinesFrom (line : Text) : Text → List Text
  | [] => if line = [] then [] else [line]
  | '\r' :: '\n' :: t => line :: splitLinesFrom [] t
  | c :: t => if isLineBreak c then line :: splitLinesFrom [] t else splitLinesFrom (line ++ [c]) t

def splitLines (t : Text) : List Text := splitLinesFrom [] t

/-- The next character is a space. -/
def startsSpace : Text → Bool
  | c :: _ => isSpace c
  | [] => false

/-- `^#{1,6}\s`. -/
def matchesHeading (line : Text) : Bool :=
  let hashes := (line.takeWhile (· = '#')).length
  1 ≤ hashes && hashes ≤ 6 && startsSpace (line.drop hashes)

namespace TextSniffer

variable (sniffer : TextSniffer)

/-- `^\s*[-*+]\s|^\s*\d+\.\s`. -/
def matchesListItem (line : Text) : Bool :=
  match line.dropWhile isSpace with
  | [] => false
  | c :: t =>
    c ∈ ['-', '*', '+'] && startsSpace t ||
      sniffer.isDecimal c &&
        match t.dropWhile sniffer.isDecimal with
        | '.' :: t => startsSpace t
        | _ => false

end TextSniffer

/-- `^>\s`. -/
def matchesQuote : Text → Bool
  | '>' :: t => startsSpace t
  | _ => false

/-- Three backquotes at the front. -/
def matchesFence (line : Text) : Bool := (List.replicate 3 (Char.ofNat 0x60)).isPrefixOf line

/-- `^\s*\|.*\|\s*$`. -/
def matchesTableRow (line : Text) : Bool :=
  let row := strip line
  2 ≤ row.length && row.head? = some '|' && row.getLast? = some '|'

/-- A lower-case ASCII letter for each ASCII letter. -/
def foldAscii (c : Char) : Char := if 'A' ≤ c ∧ c ≤ 'Z' then Char.ofNat (c.toNat + 32) else c

namespace TextSniffer

variable (sniffer : TextSniffer)

/-- No word goes on here. -/
def endsWord : Text → Bool
  | [] => true
  | c :: _ => !sniffer.isWord c

/-- `(?:!doctype\s+html|html|head|body)\b`, of a text whose letters are lower case. -/
def matchesHtmlName (t : Text) : Bool :=
  (["html", "head", "body"].any fun name => name.toList.isPrefixOf t && sniffer.endsWord (t.drop 4)) ||
    let rest := t.drop 8
    "!doctype".toList.isPrefixOf t && startsSpace rest && "html".toList.isPrefixOf (rest.dropWhile isSpace) &&
      sniffer.endsWord ((rest.dropWhile isSpace).drop 4)

/-- `_HTML_DOCUMENT.search(text)`. -/
def hasHtmlDocument (text : Text) : Bool :=
  (text.map foldAscii).tails.any fun
    | '<' :: t => sniffer.matchesHtmlName t
    | _ => false

/-- `_markdown_score`. -/
def markdownScore (text : Text) : Nat :=
  [matchesHeading, sniffer.matchesListItem, matchesQuote, matchesFence, matchesTableRow].countP fun isMarker =>
    (splitLines text).any isMarker

/-- `_tolerant_delimiter(lines) is not None`. -/
def tolerantDelimiter (lines : List Text) : Bool :=
  [',', ';', '\t', '|'].any fun delimiter =>
    let counts := lines.map (·.count delimiter)
    counts.all (1 ≤ ·) && counts.all fun m => counts.all fun n => m ≤ n + 1

/-- `_looks_like_csv`. -/
def looksLikeCsv (text : Text) : Bool :=
  let sample := text.take (sniffDialectSampleBytes / 2)
  let lines := (splitLines sample).filter fun line => !isBlank line
  if lines.length < 2 then false
  else match sniffer.delimiter sample with
    | none => tolerantDelimiter lines
    | some delimiter => max 2 (lines.length - 1) ≤ (lines.filter (·.contains delimiter)).length

/-- The families of text. -/
def classifyText (text : Text) : IdentifiedMedia :=
  if sniffer.hasHtmlDocument text then .html
  else if 2 ≤ sniffer.markdownScore text then .markdown
  else if sniffer.looksLikeCsv text then .csv
  else if 1 ≤ sniffer.markdownScore text then .markdown
  else .text

/-- `_sniff_text`; a character cut off at the end of the sample is left out. -/
def sniffText (data : List UInt8) : Option IdentifiedMedia :=
  let sample := data.take sniffDialectSampleBytes
  match utf16Boms.find? fun bom => bom.1.isPrefixOf sample with
  | some bom => ((utf16Reader bom.2).read (sample.drop 2)).map fun p => sniffer.classifyText p.1
  | none => if (data.take 512).contains 0 then none else (utf8Reader.read sample).map fun p => sniffer.classifyText p.1

/-- `sniff_media_type`. -/
def sniffMediaType (data : List UInt8) : Option IdentifiedMedia :=
  if data = [] then none
  else if (ascii "%PDF-").isPrefixOf data then some .pdf
  else if ([0x50, 0x4B, 0x03, 0x04] : List UInt8).isPrefixOf data then sniffOffice data
  else match sniffMediaBinary data with
    | some media => some media
    | none => sniffer.sniffText data

end TextSniffer

end MilpbookLM
