import DshKernel.Jsonl.DamagedLog
import DshKernel.Jsonl.PersistBatch

/-!
# The log that batches make

A header and batches, each in its physical form, read back as the events of the batches.
-/

namespace DshKernel.Jsonl

open Js Lib List

/-- What the codec of Zstandard promises: a compressed text is one complete frame, wherever it
stands, and decompresses to the text. -/
structure Compresses (backend : Backend) : Prop where
  frame : ∀ before body after : List UInt8,
    readFrame before.length (before ++ (backend.compress body ++ after)) before.length =
      .done () (before.length + (backend.compress body).length)
  decompress : ∀ body, backend.decompress (backend.compress body) = some body

section Frames

variable {backend : Backend}

def pieceRanges (backend : Backend) : Nat → List (List UInt8) → List ZstdFrameRange
  | _, [] => []
  | offset, piece :: rest =>
    ⟨offset, offset + (backend.compress piece).length⟩ ::
      pieceRanges backend (offset + (backend.compress piece).length) rest

theorem scanFrom_pieces (h : Compresses backend) (before : List UInt8)
    (frames : List ZstdFrameRange) (pieces : List (List UInt8)) :
    scanFrom (before ++ pieces.flatMap backend.compress) none frames before.length =
      .ok { frames := frames ++ pieceRanges backend before.length pieces } := by
  induction pieces generalizing before frames with
  | nil =>
    rw [scanFrom_eq, if_neg (by simp)]
    simp [pieceRanges]
  | cons piece rest ih =>
    rw [flatMap_cons, scanFrom_eq]
    have hframe := h.frame before piece (rest.flatMap backend.compress)
    have hlength := (readFrame_done (by simp) hframe).1
    rw [if_pos (by simp only [length_append]; omega), hframe]
    have hrest := ih (before ++ backend.compress piece)
      (frames ++ [⟨before.length, before.length + (backend.compress piece).length⟩])
    rw [append_assoc, length_append] at hrest
    simp only [pieceRanges, reduceCtorEq, if_false]
    rw [hrest, append_assoc]
    rfl

theorem frameBytes_piece (before piece after : List UInt8) :
    frameBytes (before ++ (piece ++ after)) ⟨before.length, before.length + piece.length⟩ = piece := by
  unfold frameBytes
  dsimp only
  rw [drop_left, Nat.add_sub_cancel_left, take_left]

theorem writeFrames_pieces (h : Compresses backend) (before : List UInt8) (scanner : Scanner)
    (pieces : List (List UInt8)) :
    writeFrames backend (before ++ pieces.flatMap backend.compress) scanner
        (pieceRanges backend before.length pieces) =
      (pieces.foldlM (Scanner.write backend.text backend.rounding) scanner).mapError .scan := by
  induction pieces generalizing before scanner with
  | nil => rfl
  | cons piece rest ih =>
    rw [flatMap_cons, pieceRanges, writeFrames, frameBytes_piece, h.decompress, foldlM_cons]
    dsimp only
    cases hwrite : Scanner.write backend.text backend.rounding scanner piece with
    | error failure => rfl
    | ok next =>
      have hrest := ih (before ++ backend.compress piece) next
      rw [append_assoc, length_append] at hrest
      exact hrest

variable {text : JsonText} {R : Rounding} {after scanner : Scanner}

theorem write_input {chunk : List UInt8}
    (htidy : Tidy scanner) (h : scanner.write text R chunk = .ok after) :
    after.inputBytes = scanner.inputBytes + chunk.length := by
  rw [Scanner.write, if_neg (by rw [htidy.open_]; decide)] at h
  have htidied : Tidy { scanner with inputBytes := scanner.inputBytes + chunk.length } :=
    ⟨htidy.fragmentBytes, htidy.open_⟩
  exact (writeLoop_tidy htidied h).2

theorem writes_input
    {chunks : List (List UInt8)} (htidy : Tidy scanner)
    (h : chunks.foldlM (Scanner.write text R) scanner = .ok after) :
    after.inputBytes = scanner.inputBytes + chunks.flatten.length := by
  induction chunks generalizing scanner with
  | nil =>
    cases h
    rfl
  | cons chunk rest ih =>
    rw [foldlM_cons] at h
    cases hwrite : Scanner.write text R scanner chunk with
    | error failure =>
      rw [hwrite] at h
      cases h
    | ok next =>
      rw [hwrite] at h
      rw [ih (write_tidy htidy hwrite) h, write_input htidy hwrite, flatten_cons,
        length_append, Nat.add_assoc]

end Frames

section Logs

variable {backend : Backend} {header : SessionHeader} {cut : Nat} {start : List UInt8}
  {batches : List (Bool × List Json)}

def batchText (backend : Backend) (batch : Bool × List Json) : List UInt8 :=
  encodeEventBatch backend.text backend.rounding batch.1 batch.2

def logBytes (backend : Backend) (start : List UInt8) (batches : List (Bool × List Json)) :
    List UInt8 :=
  encodeText backend start ++ batches.flatMap fun batch => encodeText backend (batchText backend batch)

structure Logged (backend : Backend) (header : SessionHeader) (cut : Nat) (start : List UInt8)
    (batches : List (Bool × List Json)) : Prop where
  start : headerBytes backend.text header cut = .ok start
  filled : ∀ batch ∈ batches, batch.2 ≠ []
  contiguous : Contiguous 0 (loggedEvents batches)
  texts : backend.text.RoundTrips (headerLine header cut :: logValues backend.rounding batches)

theorem flatMap_batchText (hfilled : ∀ batch ∈ batches, batch.2 ≠ []) :
    batches.flatMap (batchText backend) = batchesBytes backend.text backend.rounding batches := by
  unfold batchesBytes
  apply flatMap_congr
  intro batch hbatch
  exact (if_neg (hfilled batch hbatch)).symm

theorem scanLog_logged (h : Logged backend header cut start batches) :
    ∃ scan, scanLog backend.text backend.rounding
        (start ++ batchesBytes backend.text backend.rounding batches) = .ok scan ∧
      Json.Same (.arr scan.events) (.arr (loggedEvents batches)) ∧
      scan.committedBytes = (start ++ batchesBytes backend.text backend.rounding batches).length := by
  obtain ⟨hline, hvalues⟩ := forall_mem_cons.mp h.texts
  have hcarries := hline (wellFormed_headerLine header cut) (isLossless_headerLine header cut)
  have hwritten := written_logRecords h.contiguous hvalues
  obtain ⟨decoded, hdecoded, hwellFormed, hsame⟩ := @restores_logRecords backend.rounding _ batches h.contiguous
  have hnumbered := numbered_of_same h.contiguous hwellFormed hsame
  have hscan := scanLog_records h.start hcarries hdecoded hwritten hnumbered not_mem_nil
  rw [append_nil] at hscan
  rw [batchesBytes_eq h.contiguous]
  exact ⟨_, hscan, hsame, length_append.symm⟩

theorem isHeaderFrame_start (h : Logged backend header cut start batches) :
    isHeaderFrame start = true ∧
      ∃ scanner, Scanner.create backend.text start = .ok scanner := by
  obtain ⟨rfl, hcut⟩ := exists_line_of_headerBytes h.start
  have hcarries := (forall_mem_cons.mp h.texts).1 (wellFormed_headerLine header cut)
    (isLossless_headerLine header cut)
  refine ⟨?_, _, create_headerBytes hcut hcarries⟩
  unfold isHeaderFrame
  rw [findIdx?_newline hcarries.2, length_append]
  simp

theorem scanChunks_of_scanLog {text : JsonText} {R : Rounding} {rest : List UInt8}
    {scan : SessionLogScan} (hstart : isHeaderFrame start = true)
    (h : scanLog text R (start ++ rest) = .ok scan) : scanChunks text R start [rest] = .ok scan := by
  have hfind : start.findIdx? (· == 0x0A) = some (start.length - 1) := beq_iff_eq.mp hstart
  have hlt := (findIdx?_eq_some_iff_getElem.mp hfind).1
  have hwhole : (start ++ rest).findIdx? (· == 0x0A) = some (start.length - 1) := by
    rw [findIdx?_append, hfind]
    rfl
  have hend : start.length - 1 + 1 = start.length := by omega
  unfold scanLog at h
  rw [hwhole] at h
  dsimp only at h
  rw [hend, take_left, drop_left] at h
  unfold scanChunks
  cases hcreate : Scanner.create text start with
  | error failure =>
    rw [hcreate] at h
    cases h
  | ok scanner =>
    rw [hcreate] at h
    dsimp only at h ⊢
    rw [foldlM_cons]
    cases hwrite : scanner.write text R rest with
    | error failure =>
      rw [hwrite] at h
      cases h
    | ok after =>
      rw [hwrite] at h
      exact h

theorem readStoredLog_logged (hcodec : backend.compression = .zstd → Compresses backend)
    (h : Logged backend header cut start batches) :
    ∃ scan, readStoredLog backend (logBytes backend start batches) = .ok scan ∧
      Json.Same (.arr scan.events) (.arr (loggedEvents batches)) := by
  obtain ⟨scan, hscan, hsame, hcommitted⟩ := scanLog_logged h
  refine ⟨scan, ?_, hsame⟩
  unfold readStoredLog logBytes encodeText
  cases hcompression : backend.compression with
  | none =>
    dsimp only
    rw [show (batches.flatMap fun batch => batchText backend batch) = _ from flatMap_batchText h.filled,
      hscan]
  | zstd =>
    have hlaws := hcodec hcompression
    obtain ⟨hheader, scanner, hcreate⟩ := isHeaderFrame_start h
    obtain ⟨htidy, -, -, -, hinput, -⟩ := create_tidy hcreate
    have hpieces : backend.compress start ++
        (batches.flatMap fun batch => backend.compress (batchText backend batch)) =
        [] ++ (start :: batches.map (batchText backend)).flatMap backend.compress := by
      rw [nil_append, flatMap_cons, flatMap_map]
    have hframes := scanFrom_pieces hlaws [] [] (start :: batches.map (batchText backend))
    have hflatten : (batches.map (batchText backend)).flatten =
        batchesBytes backend.text backend.rounding batches := by
      rw [← flatMap_batchText h.filled, flatMap_def]
    have hchunks := scanChunks_of_scanLog hheader hscan
    rw [← hflatten, ← scanChunks_flatten, scanChunks, hcreate] at hchunks
    dsimp only at hchunks
    cases hwrites : (batches.map (batchText backend)).foldlM
        (Scanner.write backend.text backend.rounding) scanner with
    | error failure =>
      rw [hwrites] at hchunks
      cases hchunks
    | ok complete =>
      rw [hwrites] at hchunks
      have hfinish : complete.finish = scan := Except.ok.inj hchunks
      have hends : complete.committedBytes = complete.inputBytes := by
        have hinputs := writes_input htidy hwrites
        have hcommit : complete.committedBytes = scan.committedBytes := congrArg (·.committedBytes) hfinish
        rw [hcommit, hcommitted, hinputs, hinput, hflatten, length_append]
      have hfirst : frameBytes ([] ++ (start :: batches.map (batchText backend)).flatMap backend.compress)
          ⟨0, 0 + (backend.compress start).length⟩ = backend.compress start :=
        frameBytes_piece [] (backend.compress start) _
      have hrest := writeFrames_pieces hlaws (backend.compress start) scanner
        (batches.map (batchText backend))
      dsimp only
      unfold readZstdPrefix
      rw [hpieces, scanZstdFrames, show scanFrom _ none [] 0 = _ from hframes, nil_append]
      unfold pieceRanges
      dsimp only [length_nil]
      rw [hfirst, hlaws.decompress]
      dsimp only
      rw [if_neg (by rw [hheader]; decide), hcreate]
      dsimp only
      rw [Nat.zero_add, nil_append, flatMap_cons, hrest, hwrites]
      simp only [Except.mapError, hends, ne_eq, not_true, if_false, hfinish]

end Logs

end DshKernel.Jsonl
