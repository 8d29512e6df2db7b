import DshKernel.Files.ReadWindow

/-!
# Chunks and the whole text

A line that is longer than its cap by more than one unit loses what shows that it is too long when
the last unit kept of it is a carriage return. All other lines are shown as those of the whole text.
-/

namespace DshKernel.Files

open Js Lib List WindowScan

/-! ## One line after another -/

section Scan

variable {request : ReadWindow} {scan : WindowScan}

def WindowScan.takeUnit (request : ReadWindow) (scan : WindowScan) (unit : UInt16) : WindowScan :=
  if unit = lineFeed then scan.flushLine request else scan.appendToLineBuffer request [unit]

theorem take_append_take {α : Type} (n : Nat) (front back : List α) :
    (front.take n ++ back).take n = (front ++ back).take n := by
  rw [take_append, take_append, take_take, Nat.min_self, length_take]
  rcases Nat.le_total n front.length with hle | hle
  · rw [Nat.min_eq_left hle, Nat.sub_self, Nat.sub_eq_zero_of_le hle]
  · rw [Nat.min_eq_right hle]

def WindowScan.Capped (request : ReadWindow) (scan : WindowScan) : Prop :=
  scan.lineBuffer.length ≤ lineBufferCap request

theorem appendToLineBuffer_eq (h : scan.Capped request) (segment : List UInt16) :
    scan.appendToLineBuffer request segment =
      ⟨scan.acc, (scan.lineBuffer ++ segment).take (lineBufferCap request)⟩ := by
  rw [appendToLineBuffer]
  split
  · next hfull =>
    have hlength : scan.lineBuffer.length = lineBufferCap request := Nat.le_antisymm h hfull
    rw [← hlength, take_left]
  · next hroom =>
    apply congrArg (mk scan.acc)
    split
    · rfl
    · next hwithin => exact (take_of_length_le (Nat.le_of_not_lt hwithin)).symm

theorem capped_appendToLineBuffer (h : scan.Capped request) (segment : List UInt16) :
    (scan.appendToLineBuffer request segment).Capped request := by
  rw [appendToLineBuffer_eq h]
  exact length_take_le _ _

theorem capped_flushLine : (scan.flushLine request).Capped request := Nat.zero_le _

theorem appendToLineBuffer_append (h : scan.Capped request) (segment more : List UInt16) :
    (scan.appendToLineBuffer request segment).appendToLineBuffer request more =
      scan.appendToLineBuffer request (segment ++ more) := by
  rw [appendToLineBuffer_eq (capped_appendToLineBuffer h segment), appendToLineBuffer_eq h,
    appendToLineBuffer_eq h, take_append_take, append_assoc]

theorem appendToLineBuffer_nil (h : scan.Capped request) :
    scan.appendToLineBuffer request [] = scan := by
  rw [appendToLineBuffer_eq h, append_nil, take_of_length_le h]

theorem scanChunk_eq (h : scan.Capped request) (segment rest : List UInt16) :
    scanChunk request scan segment rest =
      rest.foldl (takeUnit request) (scan.appendToLineBuffer request segment) := by
  induction rest generalizing scan segment with
  | nil => rfl
  | cons unit rest ih =>
    rw [scanChunk, foldl_cons, takeUnit]
    split
    · rw [ih capped_flushLine, appendToLineBuffer_nil capped_flushLine]
    · rw [ih h, appendToLineBuffer_append h]

theorem capped_takeUnit (h : scan.Capped request) (unit : UInt16) :
    (scan.takeUnit request unit).Capped request := by
  rw [takeUnit]
  split
  · exact capped_flushLine
  · exact capped_appendToLineBuffer h _

theorem capped_foldl (h : scan.Capped request) (text : List UInt16) :
    (text.foldl (takeUnit request) scan).Capped request := by
  induction text generalizing scan with
  | nil => exact h
  | cons unit rest ih => exact ih (capped_takeUnit h unit)

theorem scanChunks_eq (chunks : List (List UInt16)) :
    scanChunks request chunks =
      chunks.flatten.foldl (takeUnit request) ⟨newAccumulator, []⟩ := by
  have hfold : ∀ scan : WindowScan, scan.Capped request →
      chunks.foldl (fun scan chunk => scanChunk request scan [] chunk) scan =
        chunks.flatten.foldl (takeUnit request) scan := by
    induction chunks with
    | nil => exact fun scan _ => rfl
    | cons chunk chunks ih =>
      intro scan h
      rw [foldl_cons, flatten_cons, foldl_append, scanChunk_eq h,
        appendToLineBuffer_nil h]
      exact ih _ (capped_foldl h chunk)
  exact hfold _ (Nat.zero_le _)

def seenLine (request : ReadWindow) (line : List UInt16) : List UInt16 :=
  stripCarriageReturn (line.take (lineBufferCap request))

theorem foldl_line (h : scan.Capped request) {line : List UInt16} (hline : lineFeed ∉ line) :
    line.foldl (takeUnit request) scan = scan.appendToLineBuffer request line := by
  induction line generalizing scan with
  | nil => exact (appendToLineBuffer_nil h).symm
  | cons unit rest ih =>
    rw [mem_cons, not_or] at hline
    rw [foldl_cons, takeUnit, if_neg (Ne.symm hline.1),
      ih (capped_appendToLineBuffer h _) hline.2, appendToLineBuffer_append h]
    rfl

theorem foldl_lines (acc : WindowAccumulator) {lines : List (List UInt16)}
    (hlines : ∀ line ∈ lines, lineFeed ∉ line) :
    (frame lineFeed lines).foldl (takeUnit request) ⟨acc, []⟩ =
      ⟨(lines.map (seenLine request)).foldl (consumeLine request) acc, []⟩ := by
  induction lines generalizing acc with
  | nil => rfl
  | cons line lines ih =>
    obtain ⟨hline, hrest⟩ := forall_mem_cons.mp hlines
    rw [frame_cons, foldl_append, foldl_line (Nat.zero_le _) hline,
      appendToLineBuffer_eq (Nat.zero_le _), foldl_cons, takeUnit, if_pos rfl]
    exact ih _ hrest

theorem buildWindow_eq_finish (chunks : List (List UInt16)) (displayPath : String) :
    buildWindow chunks request displayPath =
      finish (((textLines chunks.flatten).map (seenLine request)).foldl (consumeLine request)
        newAccumulator) request displayPath := by
  obtain ⟨records, torn, htext, hrecords, htorn⟩ := exists_frame lineFeed chunks.flatten
  have hsplit : splitRecords lineFeed chunks.flatten = (records, torn) := by
    rw [htext]
    exact splitRecords_frame hrecords htorn
  have hscan : scanChunks request chunks =
      ⟨(records.map (seenLine request)).foldl (consumeLine request) newAccumulator,
        torn.take (lineBufferCap request)⟩ := by
    rw [scanChunks_eq, htext, foldl_append, foldl_lines _ hrecords,
      foldl_line (Nat.zero_le _) htorn, appendToLineBuffer_eq (Nat.zero_le _)]
    rfl
  simp only [buildWindow, hscan, textLines, hsplit, length_take]
  by_cases hempty : torn = []
  · rw [hempty, if_pos rfl, append_nil, if_neg (by simp)]
  · have hkept : 0 < min (lineBufferCap request) torn.length :=
      Nat.lt_min.mpr ⟨Nat.succ_pos _, length_pos_iff.mpr hempty⟩
    rw [if_neg hempty, if_pos hkept, map_append, foldl_append]
    rfl

end Scan

/-! ## The lines of a window -/

section Consume

variable {request : ReadWindow} {acc : WindowAccumulator}

theorem consumeLines_done (h : acc.truncatedByBytes = true ∨ request.limit ≤ acc.lines.length)
    (lines : List (List UInt16)) :
    lines.foldl (consumeLine request) acc =
      { acc with totalLines := acc.totalLines + lines.length } := by
  induction lines generalizing acc with
  | nil => rfl
  | cons line lines ih =>
    have hcount : consumeLine request acc line = { acc with totalLines := acc.totalLines + 1 } := by
      rw [consumeLine, if_pos (h.imp_right Or.inr)]
    have hrest := @ih { acc with totalLines := acc.totalLines + 1 } h
    rw [foldl_cons, hcount, hrest, length_cons, Nat.add_assoc, Nat.add_comm 1]

theorem consumeLines_before {lines : List (List UInt16)}
    (h : acc.totalLines + lines.length < request.offset) :
    lines.foldl (consumeLine request) acc =
      { acc with totalLines := acc.totalLines + lines.length } := by
  induction lines generalizing acc with
  | nil => rfl
  | cons line lines ih =>
    rw [length_cons] at h
    have hcount : consumeLine request acc line = { acc with totalLines := acc.totalLines + 1 } := by
      rw [consumeLine, if_pos (Or.inr (Or.inl (by omega)))]
    have hrest := @ih { acc with totalLines := acc.totalLines + 1 } (by simp only; omega)
    rw [foldl_cons, hcount, hrest, length_cons, Nat.add_assoc, Nat.add_comm 1]

theorem consumeLines_from (hopen : acc.truncatedByBytes = false)
    (hoffset : request.offset ≤ acc.totalLines + 1) (lines : List (List UInt16)) :
    ∃ bytes, lines.foldl (consumeLine request) acc =
      { lines := acc.lines ++ fitting request.maxBytes acc.outputBytes acc.lines.length
          ((numbered request.maxLineLength (acc.totalLines + 1) lines).take
            (request.limit - acc.lines.length))
        totalLines := acc.totalLines + lines.length
        outputBytes := bytes
        truncatedByBytes := decide ((fitting request.maxBytes acc.outputBytes acc.lines.length
          ((numbered request.maxLineLength (acc.totalLines + 1) lines).take
            (request.limit - acc.lines.length))).length <
              ((numbered request.maxLineLength (acc.totalLines + 1) lines).take
                (request.limit - acc.lines.length)).length) } := by
  induction lines generalizing acc with
  | nil =>
    refine ⟨acc.outputBytes, ?_⟩
    simp [numbered, fitting, ← hopen]
  | cons line lines ih =>
    by_cases hfull : request.limit ≤ acc.lines.length
    · refine ⟨acc.outputBytes, ?_⟩
      rw [consumeLines_done (Or.inr hfull), Nat.sub_eq_zero_of_le hfull]
      simp [fitting, ← hopen]
    · have hroom : request.limit - acc.lines.length = request.limit - (acc.lines.length + 1) + 1 := by
        omega
      have htaken : ¬ (acc.truncatedByBytes = true ∨ acc.totalLines + 1 < request.offset ∨
          request.limit ≤ acc.lines.length) := by
        rw [hopen]
        simp only [Bool.false_eq_true, false_or, not_or]
        omega
      have hnumbered : numbered request.maxLineLength (acc.totalLines + 1) (line :: lines) =
          ⟨acc.totalLines + 1, truncateLine line request.maxLineLength⟩ ::
            numbered request.maxLineLength (acc.totalLines + 1 + 1) lines := rfl
      rw [foldl_cons, hnumbered, hroom, take_succ_cons, fitting, consumeLine,
        if_neg htaken]
      simp only
      split
      · refine ⟨acc.outputBytes, ?_⟩
        rw [consumeLines_done (Or.inl rfl)]
        simp [Nat.add_assoc, Nat.add_comm 1]
      · obtain ⟨bytes, hrest⟩ := @ih
          ⟨acc.lines ++ [⟨acc.totalLines + 1, truncateLine line request.maxLineLength⟩],
            acc.totalLines + 1, acc.outputBytes +
              lineByteSize (truncateLine line request.maxLineLength) acc.lines.length,
            acc.truncatedByBytes⟩ hopen (by simp only; omega)
        refine ⟨bytes, ?_⟩
        simp only [length_append, length_singleton] at hrest
        rw [hrest]
        simp [Nat.add_assoc, Nat.add_comm 1]

theorem numbered_drop (maxLineLength first count : Nat) (lines : List (List UInt16)) :
    (numbered maxLineLength first lines).drop count =
      numbered maxLineLength (first + count) (lines.drop count) := by
  induction count generalizing first lines with
  | zero => rfl
  | succ count ih =>
    cases lines with
    | nil => rfl
    | cons line lines =>
      rw [drop_succ_cons, ← Nat.add_assoc, Nat.add_right_comm, ← ih]
      rfl

theorem length_numbered (maxLineLength first : Nat) (lines : List (List UInt16)) :
    (numbered maxLineLength first lines).length = lines.length := by
  rw [numbered, length_map, length_zipIdx]

theorem finish_eq_windowOf (lines : List (List UInt16)) (displayPath : String) :
    finish (lines.foldl (consumeLine request) newAccumulator) request displayPath =
      windowOf lines request displayPath := by
  by_cases hshort : lines.length < request.offset
  · -- no line is selected
    have hnone : selectLines request lines = [] := by
      have hdrop : (numbered request.maxLineLength 1 lines).drop (request.offset - 1) = [] :=
        drop_eq_nil_of_le (by rw [length_numbered]; omega)
      rw [selectLines, hdrop, take_nil]
    have hbefore := @consumeLines_before request newAccumulator lines
      (by simp only [newAccumulator]; omega)
    rw [hbefore]
    simp only [finish, windowOf, newAccumulator, hnone, fitting, Nat.zero_add, true_and,
      length_nil, Nat.lt_irrefl, decide_false]
  · have hoffset := request.offset_pos
    have htake : (lines.take (request.offset - 1)).length = request.offset - 1 := by
      rw [length_take]
      omega
    have hbefore := @consumeLines_before request newAccumulator
      (lines.take (request.offset - 1)) (by rw [htake]; simp only [newAccumulator]; omega)
    obtain ⟨bytes, hfrom⟩ := @consumeLines_from request
      { newAccumulator with totalLines := request.offset - 1 } rfl
      (by simp only; omega) (lines.drop (request.offset - 1))
    have hselected : (numbered request.maxLineLength (request.offset - 1 + 1)
        (lines.drop (request.offset - 1))).take request.limit = selectLines request lines := by
      rw [selectLines, numbered_drop, Nat.add_comm 1]
    have htotal : request.offset - 1 + (lines.drop (request.offset - 1)).length = lines.length := by
      rw [length_drop]
      omega
    conv => lhs; rw [← take_append_drop (request.offset - 1) lines]
    rw [foldl_append, hbefore, htake]
    simp only [newAccumulator, Nat.zero_add, length_nil, Nat.sub_zero, nil_append,
      hselected, htotal] at hfrom ⊢
    rw [hfrom, finish, windowOf, if_neg (fun h => hshort h.2.1), if_neg (fun h => hshort h.1)]

theorem buildWindow_eq (chunks : List (List UInt16)) (displayPath : String) :
    buildWindow chunks request displayPath =
      windowOf ((textLines chunks.flatten).map (seenLine request)) request displayPath := by
  rw [buildWindow_eq_finish, finish_eq_windowOf]

end Consume

/-! ## A carriage return at the cap -/

def CutAtReturn (request : ReadWindow) (line : List UInt16) : Prop :=
  request.maxLineLength + 1 < line.length ∧ (line)[request.maxLineLength]? = some carriageReturn

def shownText (request : ReadWindow) (line : List UInt16) : List UInt16 :=
  truncateLine (seenLine request line) request.maxLineLength

def wholeText (request : ReadWindow) (line : List UInt16) : List UInt16 :=
  truncateLine (stripCarriageReturn line) request.maxLineLength

section Lines

variable {request : ReadWindow} {line : List UInt16}

theorem take_dropLast {α : Type} {n : Nat} {items : List α} (h : n < items.length) :
    items.dropLast.take n = items.take n := by
  rw [dropLast_eq_take, take_take, Nat.min_eq_left (by omega)]

theorem wholeText_of_long (h : request.maxLineLength + 1 < line.length) :
    wholeText request line =
      line.take request.maxLineLength ++ truncationSuffix request.maxLineLength := by
  rw [wholeText, stripCarriageReturn]
  split
  · rw [truncateLine, if_pos (by rw [length_dropLast]; omega), take_dropLast (by omega)]
  · rw [truncateLine, if_pos (by omega)]

theorem getLast?_take_cap (h : request.maxLineLength + 1 < line.length) :
    (line.take (lineBufferCap request)).getLast? = (line)[request.maxLineLength]? := by
  rw [getLast?_eq_getElem?, length_take, lineBufferCap, Nat.min_eq_left (by omega),
    Nat.add_sub_cancel, getElem?_take_of_lt (Nat.lt_succ_self _)]

theorem shownText_of_cut (h : CutAtReturn request line) :
    shownText request line = line.take request.maxLineLength := by
  have hseen : seenLine request line = line.take request.maxLineLength := by
    rw [seenLine, stripCarriageReturn, if_pos ((getLast?_take_cap h.1).trans h.2),
      dropLast_eq_take, length_take, take_take, lineBufferCap]
    congr 1
    have := h.1
    omega
  rw [shownText, hseen, truncateLine, if_neg (by rw [length_take]; omega)]

theorem wholeText_of_cut (h : CutAtReturn request line) :
    wholeText request line = shownText request line ++ truncationSuffix request.maxLineLength := by
  rw [wholeText_of_long h.1, shownText_of_cut h]

theorem shownText_of_not_cut (h : ¬ CutAtReturn request line) :
    shownText request line = wholeText request line := by
  by_cases hlong : request.maxLineLength + 1 < line.length
  · have hlast : (line.take (lineBufferCap request)).getLast? ≠ some carriageReturn := by
      rw [getLast?_take_cap hlong]
      exact fun hreturn => h ⟨hlong, hreturn⟩
    have hlength : request.maxLineLength < (line.take (lineBufferCap request)).length := by
      rw [length_take, lineBufferCap]
      omega
    rw [wholeText_of_long hlong, shownText, seenLine, stripCarriageReturn, if_neg hlast,
      truncateLine, if_pos hlength, take_take, lineBufferCap, Nat.min_eq_left (Nat.le_succ _)]
  · have hall : line.take (lineBufferCap request) = line :=
      take_of_length_le (Nat.le_of_not_lt hlong)
    rw [shownText, wholeText, seenLine, hall]

theorem truncationSuffix_cons (maxLineLength : Nat) :
    ∃ rest, truncationSuffix maxLineLength = 46 :: rest := by
  have htext : ∃ rest, (s!"... (line truncated to {maxLineLength} chars)").toList = '.' :: rest := by
    rw [String.toList_append, String.toList_append, append_assoc]
    exact ⟨_, rfl⟩
  obtain ⟨rest, hrest⟩ := htext
  refine ⟨rest.flatMap charUnits, ?_⟩
  rw [truncationSuffix, stringUnits, hrest]
  rfl

theorem utf8Length_truncated (text : List UInt16) (maxLineLength : Nat) :
    utf8Length text < utf8Length (text ++ truncationSuffix maxLineLength) := by
  obtain ⟨rest, hrest⟩ := truncationSuffix_cons maxLineLength
  have hapart : ∀ unit ∈ text.getLast?, Apart unit (46 :: rest) := by
    intro unit _
    apply apart_of_not_low
    intro next hnext
    rw [← Option.some.inj hnext]
    rfl
  have hdot : Apart 46 rest := apart_of_not_high rfl
  have hmarker : utf8Length (46 :: rest) = 1 + utf8Length rest := by
    rw [utf8Length, codePoints_cons hdot, map_cons, sum_cons]
    rfl
  rw [hrest, utf8Length_append hapart, hmarker]
  omega

end Lines

section Fitting

variable {request : ReadWindow}

def shownLine (request : ReadWindow) (line : List UInt16 × Nat) : FileTextLine :=
  ⟨line.2, shownText request line.1⟩

def wholeLine (request : ReadWindow) (line : List UInt16 × Nat) : FileTextLine :=
  ⟨line.2, wholeText request line.1⟩

def selected (request : ReadWindow) (text : List UInt16) : List (List UInt16 × Nat) :=
  (((textLines text).zipIdx 1).drop (request.offset - 1)).take request.limit

theorem numbered_map (maxLineLength first : Nat) (view : List UInt16 → List UInt16)
    (lines : List (List UInt16)) :
    numbered maxLineLength first (lines.map view) =
      (lines.zipIdx first).map fun line => ⟨line.2, truncateLine (view line.1) maxLineLength⟩ := by
  induction lines generalizing first with
  | nil => rfl
  | cons line lines ih => exact congrArg _ (ih (first + 1))

theorem selectLines_seen (text : List UInt16) :
    selectLines request ((textLines text).map (seenLine request)) =
      (selected request text).map (shownLine request) := by
  rw [selectLines, numbered_map, selected, map_take, map_drop]
  rfl

theorem selectLines_whole (text : List UInt16) :
    selectLines request ((textLines text).map stripCarriageReturn) =
      (selected request text).map (wholeLine request) := by
  rw [selectLines, numbered_map, selected, map_take, map_drop]
  rfl

theorem lineByteSize_cut {line : List UInt16} (h : CutAtReturn request line) (count : Nat) :
    lineByteSize (shownText request line) count < lineByteSize (wholeText request line) count := by
  have hmarker := utf8Length_truncated (shownText request line) request.maxLineLength
  rw [← wholeText_of_cut h] at hmarker
  exact Nat.add_lt_add_right hmarker _

def CutFits (request : ReadWindow) (bytes count : Nat) (lines : List (List UInt16 × Nat)) : Prop :=
  ∃ index line number, lines[index]? = some (line, number) ∧ CutAtReturn request line ∧
    bytes + sizeFrom count ((lines.take index).map (wholeLine request) ++
      [⟨number, line.take request.maxLineLength⟩]) ≤ request.maxBytes

variable {lines : List (List UInt16 × Nat)} {bytes count : Nat}

theorem CutFits.le
    (h : CutFits request bytes count lines) : bytes ≤ request.maxBytes := by
  obtain ⟨index, line, number, _, _, hfits⟩ := h
  omega

theorem cutFits_cons {line : List UInt16} {number : Nat} :
    CutFits request bytes count ((line, number) :: lines) ↔
      (CutAtReturn request line ∧
        bytes + lineByteSize (line.take request.maxLineLength) count ≤ request.maxBytes) ∨
      CutFits request (bytes + lineByteSize (wholeText request line) count) (count + 1) lines := by
  constructor
  · intro h
    obtain ⟨index, other, place, hother, hcut, hfits⟩ := h
    cases index with
    | zero =>
      cases hother
      exact Or.inl ⟨hcut, hfits⟩
    | succ index =>
      refine Or.inr ⟨index, other, place, hother, hcut, ?_⟩
      rw [Nat.add_assoc]
      exact hfits
  · intro h
    rcases h with ⟨hcut, hfits⟩ | ⟨index, other, place, hother, hcut, hfits⟩
    · exact ⟨0, line, number, rfl, hcut, hfits⟩
    · refine ⟨index + 1, other, place, hother, hcut, ?_⟩
      rw [Nat.add_assoc] at hfits
      exact hfits

theorem fitting_eq_iff (lines : List (List UInt16 × Nat)) (bytes count : Nat) :
    fitting request.maxBytes bytes count (lines.map (shownLine request)) =
        fitting request.maxBytes bytes count (lines.map (wholeLine request)) ↔
      ¬ CutFits request bytes count lines := by
  induction lines generalizing bytes count with
  | nil =>
    refine iff_of_true rfl ?_
    intro h
    obtain ⟨index, line, number, hline, _⟩ := h
    cases hline
  | cons first lines ih =>
    obtain ⟨line, number⟩ := first
    have hshown : (shownLine request (line, number)).text = shownText request line := rfl
    have hwhole : (wholeLine request (line, number)).text = wholeText request line := rfl
    rw [cutFits_cons, map_cons, map_cons, fitting, fitting, hshown, hwhole]
    by_cases hcut : CutAtReturn request line
    · have hless := lineByteSize_cut hcut count
      rw [← shownText_of_cut hcut]
      split
      · -- neither view fits
        next hover =>
        refine iff_of_true (if_pos (by omega)).symm ?_
        intro h
        rcases h with ⟨_, hfits⟩ | hlater
        · omega
        · have := hlater.le
          omega
      · -- the line is shown without its marker, or not at all
        next hroom =>
        refine iff_of_false ?_ (fun h => h (Or.inl ⟨hcut, by omega⟩))
        split
        · simp
        · intro heq
          have htext := congrArg FileTextLine.text (cons.inj heq).1
          rw [hshown, hwhole] at htext
          rw [htext] at hless
          omega
    · have hviews : shownLine request (line, number) = wholeLine request (line, number) := by
        rw [shownLine, wholeLine, shownText_of_not_cut hcut]
      rw [shownText_of_not_cut hcut, hviews]
      split
      · next hover =>
        refine iff_of_true rfl ?_
        intro h
        rcases h with ⟨hreturn, _⟩ | hlater
        · exact hcut hreturn
        · have := hlater.le
          omega
      · rw [cons_inj_right, ih, or_iff_right (fun h => hcut h.1)]

theorem buildWindow_eq_iff (text : List UInt16) (displayPath : String) :
    (∀ chunks, chunks.flatten = text →
        buildWindow chunks request displayPath = wholeWindow text request displayPath) ↔
      ¬ CutFits request 0 0 (selected request text) := by
  have hlengths : ((selected request text).map (shownLine request)).length =
      ((selected request text).map (wholeLine request)).length := by
    rw [length_map, length_map]
  have hwindow : (∀ chunks, chunks.flatten = text →
      buildWindow chunks request displayPath = wholeWindow text request displayPath) ↔
      windowOf ((textLines text).map (seenLine request)) request displayPath =
        windowOf ((textLines text).map stripCarriageReturn) request displayPath := by
    constructor
    · intro h
      rw [← wholeWindow, ← h [text] flatten_singleton, buildWindow_eq,
        flatten_singleton]
    · intro h chunks hchunks
      rw [buildWindow_eq, hchunks, h, wholeWindow]
  rw [hwindow, ← fitting_eq_iff]
  simp only [windowOf, selectLines_seen, selectLines_whole, length_map]
  split
  · next hshort =>
    have hnone : selected request text = [] := by
      have hdrop : ((textLines text).zipIdx 1).drop (request.offset - 1) = [] :=
        drop_eq_nil_of_le (by rw [length_zipIdx]; omega)
      rw [selected, hdrop, take_nil]
    refine iff_of_true rfl ?_
    rw [hnone]
    rfl
  · constructor
    · intro h
      exact congrArg WindowResult.lines (Except.ok.inj h)
    · intro h
      rw [h]

end Fitting

/-! ## Reading on -/

section ReadOn

variable {request : ReadWindow}

def shownLines (request : ReadWindow) (text : List UInt16) : List FileTextLine :=
  ((textLines text).zipIdx 1).map (shownLine request)

theorem fitting_isPrefix (maxBytes bytes count : Nat) (lines : List FileTextLine) :
    fitting maxBytes bytes count lines <+: lines := by
  induction lines generalizing bytes count with
  | nil => exact prefix_rfl
  | cons line lines ih =>
    rw [fitting]
    split
    · exact nil_prefix
    · exact prefix_cons_inj line |>.mpr (ih _ _)

theorem fitting_pos {maxBytes : Nat} {lines : List FileTextLine} (hlines : lines ≠ [])
    (h : ∀ line ∈ lines, utf8Length line.text ≤ maxBytes) :
    0 < (fitting maxBytes 0 0 lines).length := by
  cases lines with
  | nil => exact absurd rfl hlines
  | cons line lines =>
    have hline := h line mem_cons_self
    rw [fitting, if_neg]
    · exact Nat.succ_pos _
    · rw [lineByteSize, if_neg (Nat.lt_irrefl 0)]
      omega

theorem utf8Length_shownText (line : List UInt16) :
    utf8Length (shownText request line) ≤ utf8Length (wholeText request line) := by
  by_cases hcut : CutAtReturn request line
  · rw [wholeText_of_cut hcut]
    exact Nat.le_of_lt (utf8Length_truncated _ _)
  · rw [shownText_of_not_cut hcut]

theorem length_shownLines (text : List UInt16) :
    (shownLines request text).length = (textLines text).length := by
  rw [shownLines, length_map, length_zipIdx]

variable {text : List UInt16} {before fuel : Nat} {chunksAt : Nat → List (List UInt16)}

theorem number_shownLines {index : Nat} {line : FileTextLine}
    (h : (shownLines request text)[index]? = some line) : line.number = index + 1 := by
  rw [shownLines, getElem?_map, getElem?_zipIdx, Option.map_map,
    Option.map_eq_some_iff] at h
  obtain ⟨units, _, rfl⟩ := h
  exact Nat.add_comm 1 index

theorem buildWindow_behind {chunks : List (List UInt16)}
    (hchunks : chunks.flatten = text) (hbefore : before < (textLines text).length)
    (hfit : ∀ line ∈ textLines text, utf8Length (wholeText request line) ≤ request.maxBytes)
    (displayPath : String) :
    ∃ count window, 0 < count ∧ before + count ≤ (textLines text).length ∧
      buildWindow chunks (request.behind before) displayPath = .ok window ∧
      window.lines = ((shownLines request text).drop before).take count ∧
      window.totalLines = (textLines text).length := by
  have hselected : selectLines (request.behind before)
      ((textLines text).map (seenLine (request.behind before))) =
      ((shownLines request text).drop before).take request.limit := by
    rw [selectLines_seen, selected, map_take, map_drop]
    rfl
  have hlength : ((shownLines request text).drop before).length =
      (textLines text).length - before := by
    rw [length_drop, length_shownLines]
  have hnonempty : ((shownLines request text).drop before).take request.limit ≠ [] := by
    have hlimit := request.limit_pos
    apply ne_nil_of_length_pos
    rw [length_take, hlength]
    omega
  have hfits : ∀ line ∈ ((shownLines request text).drop before).take request.limit,
      utf8Length line.text ≤ request.maxBytes := by
    intro line hline
    obtain ⟨entry, hentry, rfl⟩ := mem_map.mp (mem_of_mem_drop (mem_of_mem_take hline))
    have hmem : entry.1 ∈ textLines text := by
      have hmap := mem_map_of_mem (f := Prod.fst) hentry
      rw [zipIdx_map_fst] at hmap
      exact hmap
    exact Nat.le_trans (utf8Length_shownText entry.1) (hfit entry.1 hmem)
  have hshort : ¬ (((textLines text).map (seenLine (request.behind before))).length <
      (request.behind before).offset ∧
        ¬ (((textLines text).map (seenLine (request.behind before))).length = 0 ∧
          (request.behind before).offset = 1)) := by
    rw [length_map]
    intro h
    exact Nat.not_lt.mpr (Nat.succ_le_of_lt hbefore) h.1
  have hwindow := @buildWindow_eq (request.behind before) chunks displayPath
  rw [hchunks, windowOf, if_neg hshort, hselected, length_map] at hwindow
  have hprefix := fitting_isPrefix request.maxBytes 0 0
    (((shownLines request text).drop before).take request.limit)
  have hcount := hprefix.length_le
  rw [length_take, hlength] at hcount
  refine ⟨_, _, fitting_pos hnonempty hfits, by omega, hwindow, ?_, rfl⟩
  apply (prefix_iff_eq_take.mp hprefix).trans
  rw [take_take, Nat.min_eq_left (by omega)]

theorem endLine?_footer {outcome : FileReadOutcome}
    (h : outcome.truncatedByBytes = true →
      lastLine outcome.lines outcome.offset < outcome.totalLines) :
    (footer outcome).endLine? =
      if lastLine outcome.lines outcome.offset < outcome.totalLines then
        some (lastLine outcome.lines outcome.offset)
      else none := by
  simp only [footer]
  split
  · next hcapped => exact (if_pos (h hcapped)).symm
  · split
    · rfl
    · rfl

theorem endLine?_rendered (window : WindowResult) :
    (footer (rendered request window)).endLine? =
      if lastLine window.lines request.offset < window.totalLines then
        some (lastLine window.lines request.offset)
      else none :=
  endLine?_footer fun hcapped => (of_decide_eq_true hcapped).2

theorem lastLine_take {count : Nat} (hpos : 0 < count)
    (hwithin : before + count ≤ (textLines text).length) (offset : Nat) :
    lastLine (((shownLines request text).drop before).take count) offset = before + count := by
  have hindex : before + count - 1 < (shownLines request text).length := by
    rw [length_shownLines]
    omega
  have hlast : (((shownLines request text).drop before).take count).getLast? =
      (shownLines request text)[before + count - 1]? := by
    rw [getLast?_eq_getElem?, length_take, length_drop, length_shownLines,
      Nat.min_eq_left (by omega), getElem?_take_of_lt (by omega), getElem?_drop]
    congr 1
    omega
  have hnumber := number_shownLines (getElem?_eq_getElem hindex)
  rw [lastLine, hlast, getElem?_eq_getElem hindex, Option.map_some, Option.getD_some, hnumber]
  omega

theorem readOn_eq
    (hchunks : ∀ shown, (chunksAt shown).flatten = text)
    (hfit : ∀ line ∈ textLines text, utf8Length (wholeText request line) ≤ request.maxBytes)
    (displayPath : String) (hbefore : before < (textLines text).length)
    (hfuel : (textLines text).length - before < fuel) :
    readOn request chunksAt displayPath fuel before =
      some (.ok ((shownLines request text).drop before)) := by
  induction fuel generalizing before with
  | zero => exact absurd hfuel (Nat.not_lt_zero _)
  | succ fuel ih =>
    obtain ⟨count, window, hpos, hwithin, hwindow, hlines, htotal⟩ :=
      buildWindow_behind (hchunks before) hbefore hfit displayPath
    have hlast := @lastLine_take request _ _ _ hpos hwithin (request.behind before).offset
    rw [← hlines] at hlast
    simp only [readOn, hwindow, endLine?_rendered, hlast, htotal]
    by_cases hend : before + count < (textLines text).length
    · rw [if_pos hend]
      simp only
      rw [ih hend (by omega), hlines, ← drop_drop]
      simp only [Option.map_some, Except.map]
      rw [take_append_drop]
    · rw [if_neg hend]
      simp only
      rw [hlines, take_of_length_le]
      rw [length_drop, length_shownLines]
      omega

theorem readOn_empty
    (hchunks : ∀ shown, (chunksAt shown).flatten = text) (hempty : textLines text = [])
    (displayPath : String) (fuel : Nat) :
    readOn request chunksAt displayPath (fuel + 1) 0 = some (.ok []) := by
  have hwindow := @buildWindow_eq (request.behind 0) (chunksAt 0) displayPath
  rw [hchunks, hempty, map_nil, windowOf, if_neg (fun h => h.2 ⟨rfl, rfl⟩)] at hwindow
  have hnone : selectLines (request.behind 0) [] = [] := take_nil
  simp only [hnone, fitting] at hwindow
  simp only [readOn, hwindow, endLine?_rendered]
  rfl

theorem readOn_all
    (hchunks : ∀ shown, (chunksAt shown).flatten = text)
    (hfit : ∀ line ∈ textLines text, utf8Length (wholeText request line) ≤ request.maxBytes)
    (displayPath : String) (hfuel : (textLines text).length < fuel) :
    readOn request chunksAt displayPath fuel 0 = some (.ok (shownLines request text)) := by
  rcases Nat.eq_zero_or_pos (textLines text).length with hzero | hpos
  · have hempty := length_eq_zero_iff.mp hzero
    obtain ⟨fuel, rfl⟩ : ∃ less, fuel = less + 1 := ⟨fuel - 1, by omega⟩
    rw [readOn_empty hchunks hempty, shownLines, hempty]
    rfl
  · exact readOn_eq hchunks hfit displayPath hpos (by omega)

end ReadOn

/-- Chunked reading shows the window of the whole text exactly if no line that is cut right behind a
carriage return is shown. -/
theorem read_window_agrees (request : ReadWindow) (text : List UInt16) (displayPath : String) :
    ((∀ chunks, chunks.flatten = text →
        buildWindow chunks request displayPath = wholeWindow text request displayPath) ∧
      ((∀ line ∈ textLines text, utf8Length (wholeText request line) ≤ request.maxBytes) →
        ∀ chunksAt : Nat → List (List UInt16), (∀ shown, (chunksAt shown).flatten = text) →
          ∀ fuel, (textLines text).length < fuel →
            readOn request chunksAt displayPath fuel 0 = some (.ok (shownLines request text)))) ↔
    ¬ CutFits request 0 0 (selected request text) := by
  rw [buildWindow_eq_iff, and_iff_left]
  intro hfit chunksAt hchunks fuel hfuel
  exact readOn_all hchunks hfit displayPath hfuel

def narrowWindow : ReadWindow :=
  ⟨1, 1, 2, 100, Nat.one_pos, Nat.one_pos, Nat.two_pos, Nat.succ_pos 99⟩

/-- The line `ab\rcd` is shown as `ab`, without a marker. -/
theorem cut_line_unmarked :
    buildWindow [stringUnits "ab\rcd"] narrowWindow "notes.txt" ≠
      wholeWindow (stringUnits "ab\rcd") narrowWindow "notes.txt" := by
  intro h
  have hagree : ∀ chunks, chunks.flatten = stringUnits "ab\rcd" →
      buildWindow chunks narrowWindow "notes.txt" =
        wholeWindow (stringUnits "ab\rcd") narrowWindow "notes.txt" := by
    intro chunks hchunks
    rw [← h, buildWindow_eq, buildWindow_eq, hchunks, flatten_singleton]
  apply (buildWindow_eq_iff _ _).mp hagree
  refine ⟨0, stringUnits "ab\rcd", 1, by decide, ⟨by decide, by decide⟩, by decide⟩

end DshKernel.Files
