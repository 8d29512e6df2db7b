import DshKernel.Lib.PrefixReader

/-!
# The frames of a Zstandard log

The scan finds the ends of the frames without decompressing them. It tells a frame that the end
of the file cuts from one that is damaged.
-/

namespace DshKernel.Jsonl

open Lib PrefixReader

def ZSTD_MAGIC : Nat := 0xFD2FB528

structure ZstdFrameRange where
  start : Nat
  «end» : Nat
  deriving DecidableEq, Repr

structure ZstdFrameScan where
  frames : List ZstdFrameRange
  tornStart : Option Nat := none
  deriving DecidableEq, Repr

/-- `readUIntLE` of all the bytes -/
def readUIntLE : List UInt8 → Nat
  | [] => 0
  | byte :: rest => byte.toNat + 256 * readUIntLE rest

def isLastBlock (blockHeader : Nat) : Bool := blockHeader &&& 1 != 0

def blockType (blockHeader : Nat) : Nat := blockHeader >>> 1 &&& 0x03

def payloadBytes (blockHeader : Nat) : Nat :=
  if blockType blockHeader = 0x01 then 1 else blockHeader >>> 3

def readBlocks (buffer : List UInt8) (offset : Nat) : Taken String Unit :=
  match _hheader : PrefixReader.take 3 buffer offset with
  | .torn => .torn
  | .corrupt message => .corrupt message
  | .done header afterHeader =>
    let blockHeader := readUIntLE header
    if blockType blockHeader = 0x03 then
      .corrupt s!"corrupt Zstandard session log: reserved block type at byte {offset}"
    else
      match _hpayload : PrefixReader.take (payloadBytes blockHeader) buffer afterHeader with
      | .torn => .torn
      | .corrupt message => .corrupt message
      | .done _ afterPayload =>
        if isLastBlock blockHeader then .done () afterPayload else readBlocks buffer afterPayload
termination_by buffer.length - offset
decreasing_by
  obtain ⟨rfl, hthree⟩ := take_done _hheader
  obtain ⟨rfl, -⟩ := take_done _hpayload
  omega

def hasChecksum (descriptor : Nat) : Bool := descriptor &&& 0x04 != 0

def remainingHeaderBytes (descriptor : Nat) : Nat :=
  let contentSizeFlag := descriptor >>> 6
  let singleSegment := descriptor &&& 0x20 != 0
  let dictionaryFlag := descriptor &&& 0x03
  let dictionaryBytes := if dictionaryFlag = 3 then 4 else dictionaryFlag
  let contentSizeBytes :=
    if contentSizeFlag = 0 then if singleSegment then 1 else 0 else 1 <<< contentSizeFlag
  (if singleSegment then 0 else 1) + dictionaryBytes + contentSizeBytes

/-- What follows the magic number of a frame that begins at `start`. -/
def readFrameBody (start : Nat) : PrefixReader UInt8 String Unit :=
  (PrefixReader.take 1).bind fun byte =>
    let descriptor := readUIntLE byte
    if descriptor &&& 0x18 ≠ 0 then
      fail
        s!"corrupt Zstandard session log: reserved frame-header bit at byte {start + 4}"
    else
      (PrefixReader.take (remainingHeaderBytes descriptor)).bind fun _ =>
        PrefixReader.bind readBlocks fun _ =>
          if hasChecksum descriptor then (PrefixReader.take 4).bind fun _ => pure ()
          else pure ()

/-- One turn of the loop over the frames, for a frame that begins at `start`. -/
def readFrame (start : Nat) : PrefixReader UInt8 String Unit :=
  (PrefixReader.take 4).bind fun magic =>
    if readUIntLE magic ≠ ZSTD_MAGIC then
      fail s!"corrupt Zstandard session log: invalid frame magic at byte {start}"
    else readFrameBody start

section Frame

open PrefixReader

variable {buffer more : List UInt8} {offset : Nat}

theorem readBlocks_eq : readBlocks buffer offset =
    ((take 3).bind fun header =>
      if blockType (readUIntLE header) = 0x03 then
        fail s!"corrupt Zstandard session log: reserved block type at byte {offset}"
      else (take (payloadBytes (readUIntLE header))).bind fun _ =>
        if isLastBlock (readUIntLE header) then pure () else readBlocks) buffer offset := by
  rw [readBlocks, PrefixReader.bind]
  split
  · rename_i htorn
    rw [htorn]
  · rename_i message hcorrupt
    rw [hcorrupt]
  · rename_i header afterHeader hheader
    rw [hheader]
    dsimp only
    split
    · rfl
    · rw [PrefixReader.bind]
      split
      · rename_i htorn
        rw [htorn]
      · rename_i message hcorrupt
        rw [hcorrupt]
      · rename_i payload afterPayload hpayload
        rw [hpayload]
        dsimp only
        split
        · rfl
        · rfl

theorem stableAt_readBlocks (h : offset ≤ (buffer ++ more).length) :
    StableAt readBlocks buffer more offset := by
  generalize hrest : (buffer ++ more).length - offset = rest
  induction rest using Nat.strongRecOn generalizing offset with
  | ind rest ih =>
    have hbody : StableAt ((take 3).bind fun header =>
        if blockType (readUIntLE header) = 0x03 then
          fail s!"corrupt Zstandard session log: reserved block type at byte {offset}"
        else (take (payloadBytes (readUIntLE header))).bind fun _ =>
          if isLastBlock (readUIntLE header) then pure () else readBlocks) buffer more offset := by
      apply (stableAt_take 3 h).bind
      intro header afterHeader hheader
      obtain ⟨-, hafterHeader⟩ := (stableAt_take 3 h).advances header afterHeader hheader
      obtain ⟨rfl, hthree⟩ := take_done hheader
      apply StableAt.ite
      · intro _
        exact stableAt_fail _
      · intro _
        apply (stableAt_take _ hafterHeader).bind
        intro payload afterPayload hpayload
        obtain ⟨-, hafterPayload⟩ :=
          (stableAt_take _ hafterHeader).advances payload afterPayload hpayload
        obtain ⟨rfl, -⟩ := take_done hpayload
        apply StableAt.ite
        · intro _
          exact stableAt_pure () hafterPayload
        · intro _
          apply ih _ _ hafterPayload rfl
          omega
    constructor
    · intro value last hdone
      rw [readBlocks_eq] at hdone
      exact hbody.advances value last hdone
    · intro hoffset value last hdone
      rw [readBlocks_eq] at hdone ⊢
      exact hbody.done hoffset value last hdone
    · intro hoffset htorn
      rw [readBlocks_eq] at htorn ⊢
      exact hbody.torn hoffset htorn

theorem stableAt_readFrameBody (start : Nat) (h : offset ≤ (buffer ++ more).length) :
    StableAt (readFrameBody start) buffer more offset := by
  apply (stableAt_take 1 h).bind
  intro byte afterByte hbyte
  obtain ⟨-, hafterByte⟩ := (stableAt_take 1 h).advances byte afterByte hbyte
  apply StableAt.ite
  · intro _
    exact stableAt_fail _
  · intro _
    apply (stableAt_take _ hafterByte).bind
    intro header afterHeader hheader
    obtain ⟨-, hafterHeader⟩ := (stableAt_take _ hafterByte).advances header afterHeader hheader
    apply (stableAt_readBlocks hafterHeader).bind
    intro _ afterBlocks hblocks
    obtain ⟨-, hafterBlocks⟩ := (stableAt_readBlocks hafterHeader).advances _ afterBlocks hblocks
    apply StableAt.ite
    · intro _
      apply (stableAt_take 4 hafterBlocks).bind
      intro checksum afterChecksum hchecksum
      obtain ⟨-, hafterChecksum⟩ :=
        (stableAt_take 4 hafterBlocks).advances checksum afterChecksum hchecksum
      exact stableAt_pure () hafterChecksum
    · intro _
      exact stableAt_pure () hafterBlocks

theorem readFrame_done {start last : Nat} {value : Unit} (h : offset ≤ buffer.length)
    (hdone : readFrame start buffer offset = .done value last) :
    offset < last ∧ last ≤ buffer.length := by
  obtain ⟨magic, middle, hmagic, hbody⟩ := bind_done hdone
  obtain ⟨rfl, hfour⟩ := take_done hmagic
  have hoffset : offset + 4 ≤ (buffer ++ []).length := by
    rw [List.append_nil]
    omega
  split at hbody
  · cases hbody
  · rw [← List.append_nil buffer] at hbody
    obtain ⟨hmiddle, hlast⟩ :=
      (stableAt_readFrameBody start hoffset).advances value last hbody
    rw [List.append_nil] at hlast
    omega

end Frame

section Scan

def scanFrom (buffer : List UInt8) (maxFrames : Option Nat) (frames : List ZstdFrameRange)
    (offset : Nat) : Except String ZstdFrameScan :=
  if _hoffset : offset < buffer.length then
    match _hframe : readFrame offset buffer offset with
    | .torn => .ok { frames, tornStart := some offset }
    | .corrupt message => .error message
    | .done _ last =>
      let frames := frames ++ [{ start := offset, «end» := last }]
      if maxFrames = some frames.length then .ok { frames }
      else scanFrom buffer maxFrames frames last
  else .ok { frames }
termination_by buffer.length - offset
decreasing_by
  have hdone := readFrame_done (Nat.le_of_lt _hoffset) _hframe
  omega

/-- `scanZstdFrames`, where no limit is `Number.POSITIVE_INFINITY` -/
def scanZstdFrames (buffer : List UInt8) (maxFrames : Option Nat) : Except String ZstdFrameScan :=
  scanFrom buffer maxFrames [] 0

theorem scanFrom_eq (buffer : List UInt8) (maxFrames : Option Nat) (frames : List ZstdFrameRange)
    (offset : Nat) :
    scanFrom buffer maxFrames frames offset =
      if offset < buffer.length then
        match readFrame offset buffer offset with
        | .torn => .ok { frames, tornStart := some offset }
        | .corrupt message => .error message
        | .done _ last =>
          let frames := frames ++ [{ start := offset, «end» := last }]
          if maxFrames = some frames.length then .ok { frames }
          else scanFrom buffer maxFrames frames last
      else .ok { frames } := by
  rw [scanFrom]
  split
  · split
    · rename_i htorn
      rw [htorn]
    · rename_i message hcorrupt
      rw [hcorrupt]
    · rename_i value last hdone
      rw [hdone]
  · rfl

variable {before frames : List ZstdFrameRange} {whole : ZstdFrameScan}

end Scan

section Claims

variable {scan : ZstdFrameScan}

end Claims

end DshKernel.Jsonl
