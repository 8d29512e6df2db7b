import DshKernel.Jsonl.LineReading

/-!
# Damaged logs

After the first damaged line the scanner goes on reading. It gives up only the lines that end no
turn, and refuses the log at the first line that does.
-/

namespace DshKernel.Jsonl

open Js Session Lib List Scanner

section Lines

variable {text : JsonText} {R : Rounding}

theorem numbered_of_pushRow {events decoded after : List Json}
    (h : pushRow events decoded = .ok after) :
    after = events ++ decoded ∧ Numbered events.length decoded := by
  induction decoded generalizing events with
  | nil =>
    cases h
    exact ⟨(append_nil _).symm, trivial⟩
  | cons event rest ih =>
    rw [pushRow] at h
    split at h
    · rename_i hnumber
      obtain ⟨rfl, hrest⟩ := ih h
      rw [length_append, length_singleton] at hrest
      exact ⟨append_assoc _ _ _, hnumber, hrest⟩
    · cases h

variable {lines : List (List UInt8)} {position : Nat} {after scanner : Scanner}

theorem consumeLines_damaged {issue : ScanError} (hissue : scanner.issue = some issue)
    (h : consumeRecords (consumeEventLine text R) scanner position lines = .ok after) :
    after.finish = scanner.finish ∧ ∀ line ∈ lines, Quiet text R line := by
  induction lines generalizing scanner position issue with
  | nil =>
    cases h
    exact ⟨rfl, by simp⟩
  | cons line lines ih =>
    rw [consumeRecords] at h
    cases hconsume : consumeEventLine text R scanner line
        (position + line.length + 1) with
    | error failure =>
      rw [hconsume] at h
      cases h
    | ok next =>
      rw [hconsume] at h
      rcases consumeEventLine_cases hconsume with
        ⟨decoded, events, -, hnone, -, -⟩ | ⟨later, hquiet, hnext⟩
      · rw [hissue] at hnone
        cases hnone
      · subst hnext
        obtain ⟨hfinish, hquiets⟩ := ih rfl h
        exact ⟨hfinish, forall_mem_cons.mpr ⟨hquiet, hquiets⟩⟩

theorem consumeLines_kept
    (hissue : scanner.issue = none) (hcommitted : scanner.committedBytes = position)
    (h : consumeRecords (consumeEventLine text R) scanner position lines = .ok after) :
    ∃ (kept damaged : List (List UInt8)) (rows : List (List Json)), lines = kept ++ damaged ∧
      kept.map (decodeLine text R) = rows.map some ∧
      after.events = scanner.events ++ rows.flatten ∧
      Numbered scanner.events.length rows.flatten ∧
      after.committedBytes = position + (frame 0x0A kept).length ∧
      ∀ line ∈ damaged, Quiet text R line := by
  induction lines generalizing scanner position with
  | nil =>
    cases h
    exact ⟨[], [], [], rfl, rfl, by simp, trivial, by simp [hcommitted], by simp⟩
  | cons line lines ih =>
    rw [consumeRecords] at h
    cases hconsume : consumeEventLine text R scanner line
        (position + line.length + 1) with
    | error failure =>
      rw [hconsume] at h
      cases h
    | ok next =>
      rw [hconsume] at h
      rcases consumeEventLine_cases hconsume with
        ⟨decoded, events, hdecode, -, hpush, hnext⟩ | ⟨issue, hquiet, hnext⟩
      · -- The line is committed, and the others follow it.
        subst hnext
        obtain ⟨rfl, hnumbered⟩ := numbered_of_pushRow hpush
        obtain ⟨kept, damaged, rows, rfl, hrows, hevents, hmore, hbytes, hquiets⟩ :=
          ih (by exact hissue) (by rfl) h
        refine ⟨line :: kept, damaged, decoded :: rows, rfl, ?_, ?_, ?_, ?_, hquiets⟩
        · rw [map_cons, map_cons, hdecode, hrows]
        · rw [hevents, flatten_cons, append_assoc]
        · rw [flatten_cons, numbered_append]
          rw [length_append] at hmore
          exact ⟨hnumbered, hmore⟩
        · rw [hbytes, frame_cons, length_append, length_cons]
          omega
      · -- The damage begins here.
        subst hnext
        obtain ⟨hfinish, hquiets⟩ := consumeLines_damaged rfl h
        refine ⟨[], line :: lines, [], rfl, rfl, ?_, trivial, ?_, ?_⟩
        · rw [flatten_nil, append_nil]
          exact congrArg SessionLogScan.events hfinish
        · rw [frame_nil, length_nil, Nat.add_zero, ← hcommitted]
          exact congrArg SessionLogScan.committedBytes hfinish
        · exact forall_mem_cons.mpr ⟨hquiet, hquiets⟩

end Lines

section Scan

variable (text : JsonText) (R : Rounding)

/-- What a scan that returns says of its file: its events are numbered from 0, they are all the
events of the complete lines of the committed bytes, and no complete line after these ends a
turn. -/
structure FailsClosed (file : List UInt8) (scan : SessionLogScan) : Prop where
  numbered : Numbered 0 scan.events
  committed : ∃ (header : List UInt8) (kept : List (List UInt8)) (rows : List (List Json)),
    file.take scan.committedBytes = header ++ frame 0x0A kept ∧
    scan.committedBytes ≤ file.length ∧ header.getLast? = some 0x0A ∧
    (0x0A : UInt8) ∉ header.dropLast ∧ (∀ line ∈ kept, (0x0A : UInt8) ∉ line) ∧
    kept.map (decodeLine text R) = rows.map some ∧ scan.events = rows.flatten
  damaged : ∀ line ∈ (splitRecords 0x0A (file.drop scan.committedBytes)).1, Quiet text R line

variable {text R}

theorem create_record {record : List UInt8} {scanner : Scanner}
    (h : create text record = .ok scanner) :
    record.getLast? = some 0x0A ∧ (0x0A : UInt8) ∉ record.dropLast := by
  unfold create parseHeaderRecord at h
  split at h
  · cases h
  · rename_i hparse
    split at hparse
    · cases hparse
    · rename_i hrecord
      simp only [not_or, ne_eq, not_not] at hrecord
      exact hrecord

variable {scan : SessionLogScan}

theorem scanChunks_failsClosed {headerRecord : List UInt8} {chunks : List (List UInt8)}
    (h : scanChunks text R headerRecord chunks = .ok scan) :
    FailsClosed text R (headerRecord ++ chunks.flatten) scan := by
  cases hcreate : create text headerRecord with
  | error failure => simp [scanChunks, hcreate] at h
  | ok scanner =>
    rw [scanChunks_reading text R hcreate] at h
    obtain ⟨hlast, hinner⟩ := create_record hcreate
    obtain ⟨-, hevents, hissue, hfragments, hinput, hcommitted⟩ := create_tidy hcreate
    obtain ⟨lines, torn, hbytes, hclean, htorn⟩ := exists_frame 0x0A chunks.flatten
    have hreading : scanner.reading = ⟨scanner.core, [], headerRecord.length⟩ := by
      rw [reading, readingAt, hfragments, hinput]
      rfl
    rw [hreading, hbytes, Reading.read_frame hclean htorn] at h
    cases hconsume : consumeRecords (consumeEventLine text R) scanner.core
        headerRecord.length lines with
    | error failure =>
      rw [hconsume] at h
      cases h
    | ok after =>
      rw [hconsume] at h
      cases h
      obtain ⟨kept, damaged, rows, rfl, hrows, hafter, hnumbered, hlength, hquiet⟩ :=
        consumeLines_kept (by exact hissue) (by exact hcommitted) hconsume
      have hscan : after.events = rows.flatten := by
        rw [hafter]
        simp [core, hevents]
      have hkept : ∀ line ∈ kept, (0x0A : UInt8) ∉ line := fun line hline =>
        hclean line (mem_append_left _ hline)
      have hsplit : headerRecord ++ (frame 0x0A (kept ++ damaged) ++ torn) =
          headerRecord ++ frame 0x0A kept ++ (frame 0x0A damaged ++ torn) := by
        rw [frame_append]
        simp only [append_assoc]
      have hends : after.committedBytes = (headerRecord ++ frame 0x0A kept).length := by
        rw [hlength, length_append]
      constructor
      · have hzero : scanner.core.events.length = 0 := by
          simp [core, hevents]
        rw [hzero] at hnumbered
        change Numbered 0 after.events
        rw [hscan]
        exact hnumbered
      · refine ⟨headerRecord, kept, rows, ?_, ?_, hlast, hinner, hkept, hrows, hscan⟩
        · change take after.committedBytes _ = _
          rw [hbytes, hsplit, hends, take_left]
        · change after.committedBytes ≤ _
          rw [hbytes, hsplit, hends, @List.length_append _ (headerRecord ++ frame 0x0A kept)]
          omega
      · change ∀ line ∈ (splitRecords 0x0A (drop after.committedBytes _)).1, _
        rw [hbytes, hsplit, hends, drop_left, splitRecords_frame ?_ htorn]
        · exact hquiet
        · exact fun line hline => hclean line (mem_append_right _ hline)

theorem exists_scanChunks {file : List UInt8} (h : scanLog text R file = .ok scan) :
    ∃ headerRecord rest, file = headerRecord ++ rest ∧
      scanChunks text R headerRecord [rest] = .ok scan := by
  unfold scanLog at h
  split at h
  · cases h
  · rename_i headerEnd hfind
    refine ⟨file.take (headerEnd + 1), file.drop (headerEnd + 1),
      (take_append_drop _ _).symm, ?_⟩
    rw [scanChunks]
    cases hcreate : create text (file.take (headerEnd + 1)) with
    | error failure =>
      rw [hcreate] at h
      cases h
    | ok scanner =>
      rw [hcreate] at h
      dsimp only at h ⊢
      cases hwrite : scanner.write text R (file.drop (headerEnd + 1)) with
      | error failure =>
        rw [hwrite] at h
        cases h
      | ok after =>
        rw [hwrite] at h
        rw [foldlM_cons, hwrite]
        exact h

/-- A damaged log is refused, or nothing of it that a turn ended is given up. -/
theorem scanLog_failsClosed {file : List UInt8} {scan : SessionLogScan}
    (h : scanLog text R file = .ok scan) : FailsClosed text R file scan := by
  obtain ⟨headerRecord, rest, rfl, hscan⟩ := exists_scanChunks h
  have hclosed := scanChunks_failsClosed hscan
  rwa [flatten_singleton] at hclosed

/-- A line that is no JSON before an event: both are given up, for they end no turn. -/
theorem scanLog_failsClosed_sample :
    FailsClosed sampleText Rounding.nearest
      (sampleStart ++ ascii "?" ++ 0x0A :: (sampleText.stringify plainNote ++ [0x0A]))
      ⟨topLevelHeader.stored.toJson, 0, [], sampleStart.length⟩ :=
  scanLog_failsClosed rfl

end Scan

end DshKernel.Jsonl
