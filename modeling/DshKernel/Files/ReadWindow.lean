import DshKernel.Js.Utf16
import DshKernel.Lib.Framing

/-!
# The window of a read

A file is read in chunks, and of each line no more is kept than shows that it is too long. The
window of the whole text is stated beside what the chunks give.
-/

namespace DshKernel.Files

open Js Lib

structure ReadWindow where
  offset : Nat
  limit : Nat
  maxLineLength : Nat
  maxBytes : Nat
  offset_pos : 0 < offset
  limit_pos : 0 < limit
  maxLineLength_pos : 0 < maxLineLength
  maxBytes_pos : 0 < maxBytes

structure FileTextLine where
  number : Nat
  text : List UInt16
  deriving DecidableEq

structure WindowResult where
  lines : List FileTextLine
  totalLines : Nat
  truncatedByBytes : Bool

structure ReadError where
  message : String
  code : String

structure WindowAccumulator where
  lines : List FileTextLine
  totalLines : Nat
  outputBytes : Nat
  truncatedByBytes : Bool

def newAccumulator : WindowAccumulator := ⟨[], 0, 0, false⟩

def lineFeed : UInt16 := 10

def carriageReturn : UInt16 := 13

def truncationSuffix (maxLineLength : Nat) : List UInt16 :=
  stringUnits s!"... (line truncated to {maxLineLength} chars)"

def truncateLine (line : List UInt16) (maxLineLength : Nat) : List UInt16 :=
  if maxLineLength < line.length then line.take maxLineLength ++ truncationSuffix maxLineLength
  else line

/-- `Buffer.byteLength(line, 'utf8')` and a line feed before each line but the first. -/
def lineByteSize (line : List UInt16) (currentLineCount : Nat) : Nat :=
  utf8Length line + if 0 < currentLineCount then 1 else 0

def consumeLine (request : ReadWindow) (acc : WindowAccumulator) (rawLine : List UInt16) :
    WindowAccumulator :=
  let totalLines := acc.totalLines + 1
  if acc.truncatedByBytes ∨ totalLines < request.offset ∨ request.limit ≤ acc.lines.length then
    { acc with totalLines := totalLines }
  else
    let text := truncateLine rawLine request.maxLineLength
    let bytes := lineByteSize text acc.lines.length
    if request.maxBytes < acc.outputBytes + bytes then
      { acc with totalLines := totalLines, truncatedByBytes := true }
    else
      { acc with
        lines := acc.lines ++ [⟨totalLines, text⟩]
        totalLines := totalLines
        outputBytes := acc.outputBytes + bytes }

def stripCarriageReturn (line : List UInt16) : List UInt16 :=
  if line.getLast? = some carriageReturn then line.dropLast else line

def outOfRange (request : ReadWindow) (displayPath : String) (totalLines : Nat) : ReadError where
  message :=
    s!"offset {request.offset} is out of range for \"{displayPath}\" ({totalLines} lines)"
  code := "FS_NOT_FOUND"

def finish (acc : WindowAccumulator) (request : ReadWindow) (displayPath : String) :
    Except ReadError WindowResult :=
  if acc.truncatedByBytes = false ∧ acc.totalLines < request.offset ∧
      ¬ (acc.totalLines = 0 ∧ request.offset = 1) then
    .error (outOfRange request displayPath acc.totalLines)
  else .ok ⟨acc.lines, acc.totalLines, acc.truncatedByBytes⟩

/-! ## Scanning the chunks -/

/-- What `buildWindow` keeps while it scans. -/
structure WindowScan where
  acc : WindowAccumulator
  lineBuffer : List UInt16

def lineBufferCap (request : ReadWindow) : Nat := request.maxLineLength + 1

namespace WindowScan

def appendToLineBuffer (request : ReadWindow) (scan : WindowScan) (segment : List UInt16) :
    WindowScan :=
  if lineBufferCap request ≤ scan.lineBuffer.length then scan
  else
    let lineBuffer := scan.lineBuffer ++ segment
    { scan with
      lineBuffer :=
        if lineBufferCap request < lineBuffer.length then lineBuffer.take (lineBufferCap request)
        else lineBuffer }

def flushLine (request : ReadWindow) (scan : WindowScan) : WindowScan where
  acc := consumeLine request scan.acc (stripCarriageReturn scan.lineBuffer)
  lineBuffer := []

/-- The loop over a chunk; `segment` is what lies behind the last line feed. -/
def scanChunk (request : ReadWindow) : WindowScan → List UInt16 → List UInt16 → WindowScan
  | scan, segment, [] => scan.appendToLineBuffer request segment
  | scan, segment, unit :: rest =>
    if unit = lineFeed then
      scanChunk request ((scan.appendToLineBuffer request segment).flushLine request) [] rest
    else scanChunk request scan (segment ++ [unit]) rest

end WindowScan

def scanChunks (request : ReadWindow) (chunks : List (List UInt16)) : WindowScan :=
  chunks.foldl (fun scan chunk => WindowScan.scanChunk request scan [] chunk) ⟨newAccumulator, []⟩

def buildWindow (chunks : List (List UInt16)) (request : ReadWindow) (displayPath : String) :
    Except ReadError WindowResult :=
  let scan := scanChunks request chunks
  let scan := if 0 < scan.lineBuffer.length then scan.flushLine request else scan
  finish scan.acc request displayPath

/-! ## The window of a text -/

def textLines (text : List UInt16) : List (List UInt16) :=
  let split := splitRecords lineFeed text
  split.1 ++ if split.2 = [] then [] else [split.2]

/-- The lines with their numbers, from `first` on. -/
def numbered (maxLineLength first : Nat) (lines : List (List UInt16)) : List FileTextLine :=
  (lines.zipIdx first).map fun line => ⟨line.2, truncateLine line.1 maxLineLength⟩

def selectLines (request : ReadWindow) (lines : List (List UInt16)) : List FileTextLine :=
  ((numbered request.maxLineLength 1 lines).drop (request.offset - 1)).take request.limit

/-- The bytes of lines that follow `count` others, with the line feeds between them. -/
def sizeFrom : Nat → List FileTextLine → Nat
  | _, [] => 0
  | count, line :: lines => lineByteSize line.text count + sizeFrom (count + 1) lines

def fitting (maxBytes : Nat) : Nat → Nat → List FileTextLine → List FileTextLine
  | _, _, [] => []
  | bytes, count, line :: lines =>
    if maxBytes < bytes + lineByteSize line.text count then []
    else line :: fitting maxBytes (bytes + lineByteSize line.text count) (count + 1) lines

def windowOf (lines : List (List UInt16)) (request : ReadWindow) (displayPath : String) :
    Except ReadError WindowResult :=
  if lines.length < request.offset ∧ ¬ (lines.length = 0 ∧ request.offset = 1) then
    .error (outOfRange request displayPath lines.length)
  else
    let selected := selectLines request lines
    let fits := fitting request.maxBytes 0 0 selected
    .ok ⟨fits, lines.length, decide (fits.length < selected.length)⟩

def wholeWindow (text : List UInt16) (request : ReadWindow) (displayPath : String) :
    Except ReadError WindowResult :=
  windowOf ((textLines text).map stripCarriageReturn) request displayPath

/-! ## What the model is shown -/

inductive Footer where
  | capped (offset endLine : Nat)
  | showing (offset endLine totalLines : Nat)
  | endOfFile (totalLines : Nat)
  deriving DecidableEq

namespace Footer

def text : Footer → String
  | .capped offset endLine =>
    s!"(Output capped. Showing lines {offset}-{endLine}. Use offset={endLine + 1} to continue.)"
  | .showing offset endLine totalLines =>
    s!"(Showing lines {offset}-{endLine} of {totalLines}. Use offset={endLine + 1} to continue.)"
  | .endOfFile totalLines => s!"(End of file - total {totalLines} lines)"

def endLine? : Footer → Option Nat
  | .capped _ endLine => some endLine
  | .showing _ endLine _ => some endLine
  | .endOfFile _ => none

end Footer

structure FileReadOutcome where
  offset : Nat
  lines : List FileTextLine
  totalLines : Nat
  truncatedByBytes : Bool

/-- `lines.at(-1)?.number ?? Math.max(0, offset - 1)` -/
def lastLine (lines : List FileTextLine) (offset : Nat) : Nat :=
  (lines.getLast?.map (·.number)).getD (offset - 1)

def footer (outcome : FileReadOutcome) : Footer :=
  let endLine := lastLine outcome.lines outcome.offset
  if outcome.truncatedByBytes then .capped outcome.offset endLine
  else if endLine < outcome.totalLines then .showing outcome.offset endLine outcome.totalLines
  else .endOfFile outcome.totalLines

def formatReadOutput (displayPath : String) (outcome : FileReadOutcome) : List UInt16 :=
  let lines := outcome.lines.map fun line => stringUnits s!"{line.number}: " ++ line.text
  let footer := stringUnits (footer outcome).text
  let body :=
    if outcome.lines.length > 0 then List.intercalate [lineFeed] lines ++ stringUnits "\n\n" ++ footer
    else footer
  stringUnits s!"<path>{displayPath}</path>\n<type>file</type>\n<content>\n" ++ body ++
    stringUnits "\n</content>"

/-- The outcome that `render` makes of a window. -/
def rendered (request : ReadWindow) (window : WindowResult) : FileReadOutcome where
  offset := request.offset
  lines := window.lines
  totalLines := window.totalLines
  truncatedByBytes :=
    decide (window.lines.length < request.limit ∧
      lastLine window.lines request.offset < window.totalLines)

def ReadWindow.behind (request : ReadWindow) (lines : Nat) : ReadWindow :=
  { request with offset := lines + 1, offset_pos := Nat.succ_pos lines }

def readOn (request : ReadWindow) (chunksAt : Nat → List (List UInt16)) (displayPath : String) :
    Nat → Nat → Option (Except ReadError (List FileTextLine))
  | 0, _ => none
  | fuel + 1, shown =>
    match buildWindow (chunksAt shown) (request.behind shown) displayPath with
    | .error error => some (.error error)
    | .ok window =>
      match (footer (rendered (request.behind shown) window)).endLine? with
      | none => some (.ok window.lines)
      | some endLine =>
        (readOn request chunksAt displayPath fuel endLine).map fun more =>
          more.map (window.lines ++ ·)

end DshKernel.Files
