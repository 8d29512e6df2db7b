import DshKernel.Jsonl.ScanLog

/-!
# Reading the lines of a log

The scanner keeps the pieces of an incomplete line, and yet it reads its input as if it came one
byte at a time. The result does not depend on how the input is cut into writes.
-/

namespace DshKernel.Jsonl

open Js Session Lib Scanner

section Reading

variable {text : JsonText} {R : Rounding}

def Scanner.core (scanner : Scanner) : Scanner :=
  { scanner with fragments := [], fragmentBytes := 0, inputBytes := 0 }

def Scanner.readingAt (scanner : Scanner) (fragment : List UInt8) (offset : Nat) :
    Reading Scanner UInt8 :=
  ⟨scanner.core, scanner.fragments.flatten ++ fragment, offset⟩

def Scanner.reading (scanner : Scanner) : Reading Scanner UInt8 :=
  scanner.readingAt [] scanner.inputBytes

structure Tidy (scanner : Scanner) : Prop where
  fragmentBytes : scanner.fragmentBytes = scanner.fragments.flatten.length
  open_ : scanner.finished = false

variable {after scanner : Scanner} {line : List UInt8} {endByte : Nat}

theorem lineOf_eq (h : scanner.fragmentBytes = scanner.fragments.flatten.length)
    (fragment : List UInt8) : scanner.lineOf fragment = scanner.fragments.flatten ++ fragment := by
  rw [Scanner.lineOf]
  split
  · rename_i hnil
    rw [hnil]
    rfl
  · have hflatten : (scanner.fragments ++ if fragment = [] then [] else [fragment]).flatten =
        scanner.fragments.flatten ++ fragment := by
      split
      · rename_i hempty
        rw [hempty, List.append_nil, List.append_nil]
      · rw [List.flatten_append, List.flatten_singleton]
    rw [concatBuffers, hflatten, h, ← List.length_append, List.take_length, Nat.sub_self]
    simp

theorem consumeEventLine_core (scanner : Scanner) (line : List UInt8) (endByte : Nat) :
    (consumeEventLine text R { scanner with fragments := [], fragmentBytes := 0 } line
        endByte).map core =
      consumeEventLine text R scanner.core line endByte := by
  simp only [consumeEventLine, core]
  cases decodeLine text R line with
  | none => rfl
  | some decoded =>
    cases scanner.issue with
    | some issue =>
      dsimp only
      split
      · rfl
      · rfl
    | none =>
      dsimp only
      cases pushRow scanner.events decoded with
      | ok events => rfl
      | error gap =>
        dsimp only
        split
        · rfl
        · rfl

def Quiet (text : JsonText) (R : Rounding) (line : List UInt8) : Prop :=
  ∀ decoded, decodeLine text R line = some decoded → decoded.any isTurnEnd = false

theorem consumeEventLine_cases
    (h : consumeEventLine text R scanner line endByte = .ok after) :
    (∃ decoded events, decodeLine text R line = some decoded ∧ scanner.issue = none ∧
      pushRow scanner.events decoded = .ok events ∧
      after = { scanner with
        eventLine := scanner.eventLine + 1
        events := events
        committedBytes := endByte }) ∨
    (∃ issue, Quiet text R line ∧
      after = { scanner with
        eventLine := scanner.eventLine + 1
        issue := some issue }) := by
  unfold consumeEventLine at h
  cases hdecode : decodeLine text R line with
  | none =>
    simp only [hdecode, Except.ok.injEq] at h
    refine Or.inr ⟨_, ?_, h.symm⟩
    intro decoded hdecoded
    rw [hdecode] at hdecoded
    cases hdecoded
  | some decoded =>
    have hquiet (hend : ¬ decoded.any isTurnEnd = true) : Quiet text R line := by
      intro other hother
      rw [hdecode] at hother
      cases hother
      exact Bool.eq_false_iff.mpr hend
    cases hissue : scanner.issue with
    | some issue =>
      simp only [hdecode, hissue] at h
      split at h
      · cases h
      · rename_i hend
        cases h
        exact Or.inr ⟨issue, hquiet hend, rfl⟩
    | none =>
      cases hpush : pushRow scanner.events decoded with
      | ok events =>
        simp only [hdecode, hissue, hpush, Except.ok.injEq] at h
        exact Or.inl ⟨decoded, events, rfl, rfl, hpush, by rw [← h]⟩
      | error gap =>
        simp only [hdecode, hissue, hpush] at h
        split at h
        · cases h
        · rename_i hend
          cases h
          exact Or.inr ⟨_, hquiet hend, rfl⟩

theorem consumeEventLine_input
    (h : consumeEventLine text R scanner line endByte = .ok after) :
    after.fragments = scanner.fragments ∧ after.fragmentBytes = scanner.fragmentBytes ∧
      after.inputBytes = scanner.inputBytes ∧ after.finished = scanner.finished := by
  rcases consumeEventLine_cases h with ⟨decoded, events, -, -, -, rfl⟩ | ⟨issue, -, rfl⟩
  · exact ⟨rfl, rfl, rfl, rfl⟩
  · exact ⟨rfl, rfl, rfl, rfl⟩

theorem writeLoop_reads (htidy : Tidy scanner) (fragment bytes : List UInt8) (offset : Nat) :
    (scanner.writeLoop text R fragment offset bytes).map
        (·.readingAt [] (offset + bytes.length)) =
      (scanner.readingAt fragment offset).read 0x0A (consumeEventLine text R) bytes := by
  induction bytes generalizing scanner fragment offset with
  | nil =>
    rw [writeLoop, Reading.read_nil]
    split
    · rename_i hempty
      rw [hempty]
      rfl
    · simp [Except.map, readingAt, core]
  | cons byte rest ih =>
    have hoffset : offset + (byte :: rest).length = offset + 1 + rest.length := by
      rw [List.length_cons]
      omega
    rw [writeLoop, hoffset]
    split
    · rename_i hbyte
      rw [hbyte, Reading.read_separator, lineOf_eq htidy.fragmentBytes]
      have hcore := @consumeEventLine_core text R scanner
        (scanner.fragments.flatten ++ fragment) (offset + 1)
      simp only [readingAt]
      rw [← hcore]
      cases hconsume : consumeEventLine text R
          { scanner with fragments := [], fragmentBytes := 0 }
          (scanner.fragments.flatten ++ fragment) (offset + 1) with
      | error failure => rfl
      | ok next =>
        obtain ⟨hfragments, hbytes, -, hfinished⟩ := consumeEventLine_input hconsume
        have hnext : Tidy next := ⟨by rw [hbytes, hfragments]; rfl, hfinished.trans htidy.open_⟩
        have hreading : next.readingAt [] (offset + 1) = ⟨next.core, [], offset + 1⟩ := by
          rw [readingAt, hfragments]
          rfl
        exact (ih hnext [] (offset + 1)).trans (by rw [hreading]; rfl)
    · rename_i hbyte
      rw [Reading.read_cons_of_ne _ _ hbyte, ih htidy]
      simp only [readingAt, List.append_assoc]

theorem writeLoop_tidy {fragment bytes : List UInt8} {offset : Nat}
    (htidy : Tidy scanner) (h : scanner.writeLoop text R fragment offset bytes = .ok after) :
    Tidy after ∧ after.inputBytes = scanner.inputBytes := by
  induction bytes generalizing scanner fragment offset with
  | nil =>
    rw [writeLoop] at h
    split at h
    · cases h
      exact ⟨htidy, rfl⟩
    · cases h
      refine ⟨⟨?_, htidy.open_⟩, rfl⟩
      simp [htidy.fragmentBytes]
  | cons byte rest ih =>
    rw [writeLoop] at h
    split at h
    · cases hconsume : consumeEventLine text R
          { scanner with fragments := [], fragmentBytes := 0 } (scanner.lineOf fragment)
          (offset + 1) with
      | error failure =>
        rw [hconsume] at h
        cases h
      | ok next =>
        rw [hconsume] at h
        obtain ⟨hfragments, hbytes, hinput, hfinished⟩ := consumeEventLine_input hconsume
        obtain ⟨hafter, hafterInput⟩ :=
          ih ⟨by rw [hbytes, hfragments]; rfl, hfinished.trans htidy.open_⟩ h
        exact ⟨hafter, hafterInput.trans hinput⟩
    · exact ih htidy h

theorem write_reads (htidy : Tidy scanner) (chunk : List UInt8) :
    (scanner.write text R chunk).map reading =
      scanner.reading.read 0x0A (consumeEventLine text R) chunk := by
  rw [write, if_neg (by rw [htidy.open_]; decide)]
  have htidied : Tidy { scanner with inputBytes := scanner.inputBytes + chunk.length } :=
    ⟨htidy.fragmentBytes, htidy.open_⟩
  refine Eq.trans ?_ (writeLoop_reads htidied [] chunk scanner.inputBytes)
  cases hloop : writeLoop text R
      { scanner with inputBytes := scanner.inputBytes + chunk.length } [] scanner.inputBytes
      chunk with
  | error failure => rfl
  | ok after =>
    obtain ⟨-, hinput⟩ := writeLoop_tidy htidied hloop
    simp only [Except.map, reading, hinput]

theorem write_tidy {chunk : List UInt8} (htidy : Tidy scanner)
    (h : scanner.write text R chunk = .ok after) : Tidy after := by
  rw [write, if_neg (by rw [htidy.open_]; decide)] at h
  have htidied : Tidy { scanner with inputBytes := scanner.inputBytes + chunk.length } :=
    ⟨htidy.fragmentBytes, htidy.open_⟩
  exact (writeLoop_tidy htidied h).1

theorem create_tidy {record : List UInt8} (h : create text record = .ok scanner) :
    Tidy scanner ∧ scanner.events = [] ∧ scanner.issue = none ∧ scanner.fragments = [] ∧
      scanner.inputBytes = record.length ∧ scanner.committedBytes = record.length := by
  unfold create at h
  split at h
  · cases h
  · cases h
    exact ⟨⟨rfl, rfl⟩, rfl, rfl, rfl, rfl, rfl⟩

theorem writes_read (htidy : Tidy scanner) (chunks : List (List UInt8)) :
    (chunks.foldlM (write text R) scanner).map reading =
      scanner.reading.read 0x0A (consumeEventLine text R) chunks.flatten := by
  induction chunks generalizing scanner with
  | nil => rfl
  | cons chunk chunks ih =>
    rw [List.foldlM_cons, List.flatten_cons, Reading.read_append, ← write_reads htidy]
    cases hwrite : write text R scanner chunk with
    | error failure => rfl
    | ok next => exact ih (write_tidy htidy hwrite)

end Reading

section Chunks

variable (text : JsonText) (R : Rounding)

def scanChunks (headerRecord : List UInt8) (chunks : List (List UInt8)) :
    Except ScanError SessionLogScan :=
  match create text headerRecord with
  | .error failure => .error failure
  | .ok scanner => (chunks.foldlM (write text R) scanner).map finish

theorem scanChunks_reading {headerRecord : List UInt8} {scanner : Scanner}
    (hcreate : create text headerRecord = .ok scanner) (chunks : List (List UInt8)) :
    scanChunks text R headerRecord chunks =
      (scanner.reading.read 0x0A (consumeEventLine text R) chunks.flatten).map
        (·.state.finish) := by
  obtain ⟨htidy, -⟩ := create_tidy hcreate
  rw [scanChunks, hcreate, ← writes_read htidy chunks]
  dsimp only
  cases chunks.foldlM (write text R) scanner with
  | error failure => rfl
  | ok after => rfl

/-- The scan is the same however the bytes after the header record are cut into writes. -/
theorem scanChunks_flatten (headerRecord : List UInt8) (chunks : List (List UInt8)) :
    scanChunks text R headerRecord chunks = scanChunks text R headerRecord [chunks.flatten] := by
  cases hcreate : create text headerRecord with
  | error failure => simp only [scanChunks, hcreate]
  | ok scanner =>
    rw [scanChunks_reading text R hcreate, scanChunks_reading text R hcreate,
      List.flatten_singleton]

end Chunks

end DshKernel.Jsonl
