import DshKernel.Js.Utf8

/-!
# Collected output of a process

A collector keeps the tail of a stream in memory, writes the whole of it to a spill file as long as
that fits, and reads it in increments.
-/

namespace DshKernel.Subprocess

open Js List

structure OutputCollector where
  maxBytes : Nat
  maxSpillBytes : Option Nat
  chunks : List (List UInt8) := []
  bytes : Nat := 0
  dropped : Bool := false
  /-- A descriptor is open. -/
  spillFd : Bool := false
  /-- The contents of the file behind the spill path. -/
  spillFile : Option (List UInt8) := none
  spillDisabled : Bool
  total : Nat := 0

namespace OutputCollector

def make (maxBytes : Nat) (maxSpillBytes : Option Nat) : OutputCollector :=
  { maxBytes, maxSpillBytes, spillDisabled := maxSpillBytes.isNone }

def discardSpill (c : OutputCollector) (closes : Bool) : OutputCollector :=
  { c with spillFd := c.spillFd && !closes, spillFile := none, spillDisabled := true }

def spillAll (c : OutputCollector) (chunk : List UInt8) (closes : Bool) : OutputCollector :=
  if c.maxSpillBytes.any (· < c.total) then c.discardSpill closes
  else
    let opened :=
      if c.spillFd then c else { c with spillFd := true, spillFile := some c.chunks.flatten }
    { opened with spillFile := opened.spillFile.map (· ++ chunk) }

def trim (maxBytes : Nat) : List (List UInt8) → Nat → List (List UInt8) × Nat
  | [], bytes => ([], bytes)
  | head :: rest, bytes =>
    if maxBytes < bytes then
      let excess := bytes - maxBytes
      if head.length ≤ excess then trim maxBytes rest (bytes - head.length)
      else (head.drop excess :: rest, bytes - excess)
    else (head :: rest, bytes)

def spill (c : OutputCollector) (chunk : List UInt8) (closes : Bool) : OutputCollector :=
  let counted := { c with total := c.total + chunk.length }
  let overflows := c.maxBytes < c.bytes + chunk.length
  if !c.spillDisabled && (overflows || c.spillFd) then counted.spillAll chunk closes else counted

/-- One chunk of the stream; `closes` tells whether the spill file can be closed. -/
def push (c : OutputCollector) (chunk : List UInt8) (closes : Bool) : OutputCollector :=
  let kept := trim c.maxBytes (c.chunks ++ [chunk]) (c.bytes + chunk.length)
  { c.spill chunk closes with
    chunks := kept.1
    bytes := kept.2
    dropped := c.dropped || decide (c.maxBytes < c.bytes + chunk.length) }

end OutputCollector

structure OutputRead where
  text : List Char
  nextOffset : Nat
  lossy : Bool
  /-- The contents of the file behind the path. -/
  spillPath : Option (List UInt8)

def OutputCollector.readFrom (c : OutputCollector) (fromByte : Nat) : OutputRead :=
  let windowStart := c.total - c.bytes
  let buffer := c.chunks.flatten
  let lossy := decide (fromByte < windowStart)
  let slice := if lossy then buffer else buffer.drop (fromByte - windowStart)
  { text := decodeBytes none slice, nextOffset := c.total, lossy, spillPath := c.spillFile }

structure Reading where
  pushed : List UInt8
  fromByte : Nat
  read : OutputRead

def nextOffset (readings : List Reading) : Nat :=
  (readings.getLast?.map fun reading => reading.read.nextOffset).getD 0

inductive Collects (maxBytes : Nat) (maxSpillBytes : Option Nat) :
    OutputCollector → List UInt8 → List Reading → Prop where
  | start : Collects maxBytes maxSpillBytes (.make maxBytes maxSpillBytes) [] []
  | push {c : OutputCollector} {pushed : List UInt8} {readings : List Reading}
      (before : Collects maxBytes maxSpillBytes c pushed readings) (chunk : List UInt8)
      (closes : Bool) :
      Collects maxBytes maxSpillBytes (c.push chunk closes) (pushed ++ chunk) readings
  | read {c : OutputCollector} {pushed : List UInt8} {readings : List Reading}
      (before : Collects maxBytes maxSpillBytes c pushed readings) :
      Collects maxBytes maxSpillBytes c pushed
        (readings ++ [⟨pushed, nextOffset readings, c.readFrom (nextOffset readings)⟩])

section Window

variable {maxBytes : Nat}

theorem trim_eq (chunks : List (List UInt8)) (bytes : Nat) (h : bytes = chunks.flatten.length) :
    (OutputCollector.trim maxBytes chunks bytes).1.flatten =
        chunks.flatten.drop (bytes - maxBytes) ∧
      (OutputCollector.trim maxBytes chunks bytes).2 = min bytes maxBytes := by
  induction chunks generalizing bytes with
  | nil =>
    rw [flatten_nil, length_nil] at h
    subst h
    exact ⟨drop_nil.symm, (Nat.zero_min _).symm⟩
  | cons head rest ih =>
    rw [flatten_cons, length_append] at h
    rw [OutputCollector.trim]
    by_cases hover : maxBytes < bytes
    · rw [if_pos hover]
      dsimp only
      by_cases hwhole : head.length ≤ bytes - maxBytes
      · rw [if_pos hwhole]
        obtain ⟨hflat, hcount⟩ := ih (bytes - head.length) (by omega)
        constructor
        · rw [hflat, flatten_cons, drop_append, drop_eq_nil_of_le hwhole,
            nil_append]
          congr 1
          omega
        · rw [hcount]
          omega
      · rw [if_neg hwhole]
        constructor
        · rw [flatten_cons, flatten_cons, drop_append,
            Nat.sub_eq_zero_of_le (by omega : bytes - maxBytes ≤ head.length), drop_zero]
        · omega
    · rw [if_neg hover, Nat.sub_eq_zero_of_le (by omega), drop_zero]
      exact ⟨rfl, by omega⟩

variable {maxSpillBytes : Option Nat} {c : OutputCollector} {pushed : List UInt8}
variable {readings : List Reading}

def SpillHolds (maxBytes : Nat) (maxSpillBytes : Option Nat) (c : OutputCollector)
    (pushed : List UInt8) : Prop :=
  (c.spillDisabled = true → c.spillFile = none) ∧
    (c.spillDisabled = false → ∃ cap, maxSpillBytes = some cap ∧
      (c.spillFd = false ∧ c.spillFile = none ∧ pushed.length ≤ maxBytes ∨
        c.spillFd = true ∧ c.spillFile = some pushed ∧ pushed.length ≤ cap))

structure Holds (maxBytes : Nat) (maxSpillBytes : Option Nat) (c : OutputCollector)
    (pushed : List UInt8) : Prop where
  cap : c.maxBytes = maxBytes
  spillCap : c.maxSpillBytes = maxSpillBytes
  total : c.total = pushed.length
  bytes : c.bytes = min pushed.length maxBytes
  window : c.chunks.flatten = pushed.drop (pushed.length - maxBytes)
  spill : SpillHolds maxBytes maxSpillBytes c pushed

theorem holds_make : Holds maxBytes maxSpillBytes (.make maxBytes maxSpillBytes) [] where
  cap := rfl
  spillCap := rfl
  total := rfl
  bytes := (Nat.zero_min _).symm
  window := drop_nil.symm
  spill := by
    refine ⟨fun _ => rfl, fun h => ?_⟩
    cases maxSpillBytes with
    | none => cases h
    | some cap => exact ⟨cap, rfl, .inl ⟨rfl, rfl, Nat.zero_le _⟩⟩

theorem Holds.spillAll (h : Holds maxBytes maxSpillBytes c pushed) (chunk : List UInt8)
    (closes : Bool) (hspill : c.spillDisabled = false) :
    SpillHolds maxBytes maxSpillBytes
      (OutputCollector.spillAll { c with total := c.total + chunk.length } chunk closes)
      (pushed ++ chunk) := by
  obtain ⟨cap, hcap, hstate⟩ := h.spill.2 hspill
  rw [OutputCollector.spillAll]
  dsimp only
  rw [h.total, ← length_append, h.spillCap, hcap, Option.any_some]
  by_cases hover : cap < (pushed ++ chunk).length
  · rw [if_pos (decide_eq_true hover)]
    exact ⟨fun _ => rfl, fun hfalse => Bool.noConfusion hfalse⟩
  · rw [if_neg (by rwa [decide_eq_true_eq])]
    have hfits := Nat.le_of_not_lt hover
    refine ⟨fun htrue => ?_, fun _ => ⟨cap, rfl, .inr ?_⟩⟩
    · split at htrue
      · exact Bool.noConfusion (hspill.symm.trans htrue)
      · exact Bool.noConfusion (hspill.symm.trans htrue)
    · rcases hstate with ⟨hfd, -, hall⟩ | ⟨hfd, hfile, -⟩
      · rw [hfd, if_neg Bool.false_ne_true, h.window, Nat.sub_eq_zero_of_le hall, drop_zero]
        exact ⟨rfl, rfl, hfits⟩
      · rw [hfd, if_pos rfl]
        dsimp only
        rw [hfile]
        exact ⟨rfl, rfl, hfits⟩

theorem Holds.spill_chunk (h : Holds maxBytes maxSpillBytes c pushed) (chunk : List UInt8)
    (closes : Bool) :
    SpillHolds maxBytes maxSpillBytes (c.spill chunk closes) (pushed ++ chunk) := by
  rw [OutputCollector.spill]
  by_cases hspills : (!c.spillDisabled &&
      (decide (c.maxBytes < c.bytes + chunk.length) || c.spillFd)) = true
  · rw [if_pos hspills]
    rw [Bool.and_eq_true, Bool.not_eq_true'] at hspills
    exact h.spillAll chunk closes hspills.1
  · rw [if_neg hspills]
    refine ⟨h.spill.1, fun henabled => ?_⟩
    obtain ⟨cap, hcap, hstate⟩ := h.spill.2 henabled
    have henabled : c.spillDisabled = false := henabled
    rw [henabled, Bool.not_false, Bool.true_and, Bool.or_eq_true, decide_eq_true_eq, not_or,
      h.cap, h.bytes] at hspills
    rcases hstate with ⟨hfd, hfile, hall⟩ | ⟨hfd, -, -⟩
    · refine ⟨cap, hcap, .inl ⟨hfd, hfile, ?_⟩⟩
      rw [length_append]
      omega
    · exact absurd hfd hspills.2

theorem spill_fields (c : OutputCollector) (chunk : List UInt8) (closes : Bool) :
    (c.spill chunk closes).maxBytes = c.maxBytes ∧
      (c.spill chunk closes).maxSpillBytes = c.maxSpillBytes ∧
      (c.spill chunk closes).total = c.total + chunk.length := by
  rw [OutputCollector.spill]
  split
  · rw [OutputCollector.spillAll]
    split
    · exact ⟨rfl, rfl, rfl⟩
    · dsimp only
      split
      · exact ⟨rfl, rfl, rfl⟩
      · exact ⟨rfl, rfl, rfl⟩
  · exact ⟨rfl, rfl, rfl⟩

theorem Holds.push (h : Holds maxBytes maxSpillBytes c pushed) (chunk : List UInt8)
    (closes : Bool) : Holds maxBytes maxSpillBytes (c.push chunk closes) (pushed ++ chunk) := by
  obtain ⟨hcap, hspillCap, htotal⟩ := spill_fields c chunk closes
  have hsum : c.bytes + chunk.length = (c.chunks ++ [chunk]).flatten.length := by
    rw [flatten_append, flatten_singleton, length_append, h.window,
      length_drop, h.bytes]
    omega
  obtain ⟨hflat, hcount⟩ := @trim_eq c.maxBytes (c.chunks ++ [chunk]) _ hsum
  rw [h.cap, h.bytes] at hflat hcount
  refine ⟨hcap.trans h.cap, hspillCap.trans h.spillCap, ?_, ?_, ?_, h.spill_chunk chunk closes⟩
  · rw [length_append, ← h.total]
    exact htotal
  · rw [OutputCollector.push, h.cap, h.bytes]
    dsimp only
    rw [hcount, length_append]
    omega
  · rw [OutputCollector.push, h.cap, h.bytes]
    dsimp only
    rw [hflat, flatten_append, flatten_singleton, h.window,
      ← drop_append_of_le_length (Nat.sub_le _ _), drop_drop, length_append]
    congr 1
    omega

theorem Holds.readFrom (h : Holds maxBytes maxSpillBytes c pushed) {fromByte : Nat}
    (hlossy : (c.readFrom fromByte).lossy = false) :
    (c.readFrom fromByte).text = decodeBytes none (pushed.drop fromByte) := by
  have hstart : c.total - c.bytes = pushed.length - maxBytes := by
    rw [h.total, h.bytes]
    omega
  rw [OutputCollector.readFrom] at hlossy ⊢
  dsimp only at hlossy ⊢
  rw [hlossy, if_neg Bool.false_ne_true, h.window, drop_drop]
  rw [decide_eq_false_iff_not, hstart] at hlossy
  congr 2
  omega

/-- There is nothing new to read, or the bytes before the offset end with a whole character. -/
def Reading.StartsAtBoundary (reading : Reading) : Prop :=
  reading.fromByte = reading.pushed.length ∨
    ∃ text, reading.pushed.take reading.fromByte = encodeText text

theorem Collects.holds (run : Collects maxBytes maxSpillBytes c pushed readings) :
    Holds maxBytes maxSpillBytes c pushed := by
  induction run with
  | start => exact holds_make
  | push _ chunk closes ih => exact ih.push chunk closes
  | read _ ih => exact ih

theorem Collects.nextOffset_le (run : Collects maxBytes maxSpillBytes c pushed readings) :
    nextOffset readings ≤ pushed.length := by
  induction run with
  | start => exact Nat.zero_le _
  | push _ chunk closes ih =>
    rw [length_append]
    omega
  | read before ih =>
    rw [nextOffset, getLast?_concat]
    exact Nat.le_of_eq before.holds.total

/-- In every run the window is exact, a read tells whether it lost bytes, and the file behind a spill
path holds the whole stream. Reads that start at a character and lose nothing return the text. -/
theorem collects_exactly (run : Collects maxBytes maxSpillBytes c pushed readings) :
    c.chunks.flatten = pushed.drop (pushed.length - maxBytes) ∧
      (∀ reading ∈ readings, reading.read.nextOffset = reading.pushed.length ∧
        (reading.read.lossy = true ↔
          ∃ place, reading.fromByte ≤ place ∧ place < reading.pushed.length - maxBytes) ∧
        ∀ file, reading.read.spillPath = some file → file = reading.pushed ∧
          ∃ cap, maxSpillBytes = some cap ∧ file.length ≤ cap) ∧
      ((∀ reading ∈ readings, reading.read.lossy = false ∧ reading.StartsAtBoundary) →
        readings.flatMap (fun reading => reading.read.text) =
          decodeBytes none (pushed.take (nextOffset readings))) := by
  refine ⟨run.holds.window, ?_, ?_⟩
  · induction run with
    | start => exact fun _ hmem => absurd hmem not_mem_nil
    | push _ _ _ ih => exact ih
    | @read c pushed readings before ih =>
      intro reading hmem
      rcases mem_append.mp hmem with hold | hnew
      · exact ih reading hold
      · rw [mem_singleton.mp hnew]
        have h := before.holds
        refine ⟨h.total, ?_, ?_⟩
        · rw [OutputCollector.readFrom]
          dsimp only
          rw [decide_eq_true_eq, h.total, h.bytes]
          constructor
          · intro hlt
            exact ⟨_, Nat.le_refl _, by omega⟩
          · rintro ⟨place, hfrom, hplace⟩
            omega
        · intro file hfile
          have hfile : c.spillFile = some file := hfile
          cases hspill : c.spillDisabled with
          | true =>
            rw [h.spill.1 hspill] at hfile
            cases hfile
          | false =>
            obtain ⟨cap, hcap, ⟨-, hnone, -⟩ | ⟨-, hsome, hfits⟩⟩ := h.spill.2 hspill
            · rw [hnone] at hfile
              cases hfile
            · rw [hsome, Option.some.injEq] at hfile
              rw [← hfile]
              exact ⟨rfl, cap, hcap, hfits⟩
  · induction run with
    | start => exact fun _ => rfl
    | push before chunk closes ih =>
      intro hall
      rw [ih hall, take_append_of_le_length before.nextOffset_le]
    | @read c pushed readings before ih =>
      intro hall
      have hprevious := ih fun reading hmem => hall reading (mem_append_left _ hmem)
      obtain ⟨hlossy, hstarts⟩ := hall _ (mem_append_right _ (mem_singleton_self _))
      have hnext : nextOffset (readings ++ [⟨pushed, nextOffset readings,
          c.readFrom (nextOffset readings)⟩]) = pushed.length := by
        rw [nextOffset, getLast?_concat]
        exact before.holds.total
      dsimp only at hlossy
      rw [flatMap_append, hprevious, flatMap_singleton, before.holds.readFrom hlossy, hnext,
        take_length]
      rcases hstarts with hnothing | ⟨text, htext⟩
      · dsimp only at hnothing
        rw [hnothing, drop_length, take_length, decodeBytes, append_nil]
      · dsimp only at htext
        rw [htext, decodeBytes_encodeText, ← decodeBytes_encodeText_append, ← htext,
          take_append_drop]

end Window

/-- The two bytes of one character, pushed one by one, with a read after each if `between`. -/
def twoBytes (between : Bool) : OutputCollector × List Reading :=
  let c := (OutputCollector.make 8 (some 8)).push [0xC3] true
  let first := if between then [⟨[0xC3], 0, c.readFrom 0⟩] else []
  let later := c.push [0xA9] true
  (later, first ++ [⟨[0xC3, 0xA9], nextOffset first, later.readFrom (nextOffset first)⟩])

theorem twoBytes_run (between : Bool) :
    Collects 8 (some 8) (twoBytes between).1 [0xC3, 0xA9] (twoBytes between).2 := by
  have hfirst := Collects.push (@Collects.start 8 (some 8)) [0xC3] true
  cases between with
  | true => exact .read (.push (.read hfirst) [0xA9] true)
  | false => exact .read (.push hfirst [0xA9] true)

theorem collects_exactly_twoBytes :
    (twoBytes false).2.flatMap (fun reading => reading.read.text) = [Char.ofNat 0xE9] := by
  refine ((collects_exactly (twoBytes_run false)).2.2 ?_).trans (by decide)
  intro reading hmem
  rw [mem_singleton.mp hmem]
  exact ⟨rfl, .inr ⟨[], rfl⟩⟩

/-- A read between the two bytes of a character returns a replacement character for each. -/
theorem split_character_replaced :
    Collects 8 (some 8) (twoBytes true).1 (encodeText [Char.ofNat 0xE9]) (twoBytes true).2 ∧
      (∀ reading ∈ (twoBytes true).2, reading.read.lossy = false) ∧
      (twoBytes true).2.flatMap (fun reading => reading.read.text) ≠
        decodeBytes none (encodeText [Char.ofNat 0xE9]) := by
  refine ⟨twoBytes_run true, ?_, by decide⟩
  intro reading hmem
  rcases mem_cons.mp hmem with rfl | hmem
  · rfl
  · rw [mem_singleton.mp hmem]
    rfl

end DshKernel.Subprocess
