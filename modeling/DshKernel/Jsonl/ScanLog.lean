import DshKernel.Jsonl.HeaderLine
import DshKernel.Jsonl.StoredRecords

/-!
# Scanning a log

The scanner reports the events of the complete lines and the end of the last of them, and
goes on from there when the rest of the log is appended.
-/

namespace DshKernel.Jsonl

open Js Session Lib List Scanner

section Same

theorem get?_of_same {x y v : Json} {key : String} (h : Json.Same x y) (hx : x.WellFormed)
    (hy : y.get? key = some v) : ∃ u, x.get? key = some u ∧ Json.Same u v := by
  cases y with
  | obj ys =>
    cases x with
    | obj xs =>
      simp only [Json.Same, Json.equalBy, Bool.and_eq_true, beq_iff_eq] at h
      obtain ⟨hlength, hfields⟩ := h
      rw [fieldsEqualBy_iff] at hfields
      have hsubset : xs.map Prod.fst ⊆ ys.map Prod.fst := by
        intro name hname
        obtain ⟨field, hfield, rfl⟩ := mem_map.mp hname
        obtain ⟨other, hother, -⟩ := hfields field hfield
        exact mem_map.mpr ⟨_, mem_of_lookup_eq_some hother, rfl⟩
      have hperm := (subperm_of_subset hx.1 hsubset).perm_of_length_le (by simp [hlength])
      have hkey : key ∈ xs.map Prod.fst := by
        rw [hperm.mem_iff]
        exact mem_map.mpr ⟨_, mem_of_lookup_eq_some hy, rfl⟩
      obtain ⟨field, hfield, rfl⟩ := mem_map.mp hkey
      obtain ⟨other, hother, hsame⟩ := hfields field hfield
      have heq : other = v := Option.some.inj (hother.symm.trans hy)
      subst heq
      exact ⟨field.2, lookup_eq_some_of_mem hx.1 hfield, hsame⟩
    | _ => simp [Json.Same, Json.equalBy] at h
  | _ => simp [Json.get?] at hy

variable {decoded events xs ys : List Json}

theorem itemsEqualBy_split {eq : Number → Number → Bool} {zs : List Json}
    (h : Json.itemsEqualBy eq (xs ++ ys) zs = true) :
    Json.itemsEqualBy eq xs (zs.take xs.length) = true ∧
      Json.itemsEqualBy eq ys (zs.drop xs.length) = true := by
  induction xs generalizing zs with
  | nil => exact ⟨by simp [Json.itemsEqualBy], h⟩
  | cons x xs ih =>
    cases zs with
    | nil => simp [Json.itemsEqualBy] at h
    | cons z zs =>
      simp only [cons_append, Json.itemsEqualBy, Bool.and_eq_true] at h
      obtain ⟨htake, hdrop⟩ := ih h.2
      refine ⟨?_, hdrop⟩
      simp only [length_cons, take_succ_cons, Json.itemsEqualBy, Bool.and_eq_true]
      exact ⟨h.1, htake⟩

theorem length_of_same (h : Json.Same (.arr xs) (.arr ys)) : xs.length = ys.length := by
  simp only [Json.Same, Json.equalBy] at h
  induction xs generalizing ys with
  | nil =>
    cases ys with
    | nil => rfl
    | cons y ys => simp [Json.itemsEqualBy] at h
  | cons x xs ih =>
    cases ys with
    | nil => simp [Json.itemsEqualBy] at h
    | cons y ys =>
      simp only [Json.itemsEqualBy, Bool.and_eq_true] at h
      rw [length_cons, length_cons, ih h.2]

/-- The events carry the numbers from `seq` on. -/
def Numbered : Nat → List Json → Prop
  | _, [] => True
  | seq, event :: rest =>
    isNumber (event.get? "seq") (.ofNat seq) = true ∧ Numbered (seq + 1) rest

theorem numbered_of_same {seq : Nat} (hevents : Contiguous seq events)
    (hwellFormed : ∀ event ∈ decoded, event.WellFormed)
    (hsame : Json.Same (.arr decoded) (.arr events)) : Numbered seq decoded := by
  simp only [Json.Same, Json.equalBy] at hsame
  induction decoded generalizing seq events with
  | nil => trivial
  | cons event rest ih =>
    cases events with
    | nil => simp [Json.itemsEqualBy] at hsame
    | cons original more =>
      simp only [Json.itemsEqualBy, Bool.and_eq_true] at hsame
      obtain ⟨hevent, hrest⟩ := forall_mem_cons.mp hwellFormed
      refine ⟨?_, ih hevents.2 hrest hsame.2⟩
      obtain ⟨value, hget, hvalue⟩ := get?_of_same hsame.1 hevent hevents.1.seq_eq
      cases value with
      | num number =>
        have heq : number = .ofNat seq := by
          simpa [Json.Same, Json.equalBy, Json.ofNat] using hvalue
        simp [isNumber, hget, heq]
      | _ => simp [Json.Same, Json.equalBy, Json.ofNat] at hvalue

theorem numbered_append {seq : Nat} {more : List Json} :
    Numbered seq (events ++ more) ↔ Numbered seq events ∧ Numbered (seq + events.length) more := by
  induction events generalizing seq with
  | nil => simp [Numbered]
  | cons event rest ih =>
    have hlength : seq + 1 + rest.length = seq + (rest.length + 1) := by omega
    simp only [cons_append, Numbered, ih, length_cons, and_assoc, hlength]

theorem pushRow_numbered (h : Numbered events.length decoded) :
    pushRow events decoded = .ok (events ++ decoded) := by
  induction decoded generalizing events with
  | nil => simp [pushRow]
  | cons event rest ih =>
    have hrest : Numbered (events ++ [event]).length rest := by simpa using h.2
    rw [pushRow, if_pos h.1, ih hrest, append_assoc]
    rfl

end Same

section Loop

variable {text : JsonText} {R : Rounding}

theorem writeLoop_line {scanner : Scanner} {fragment line rest : List UInt8} {offset : Nat}
    (hline : (0x0A : UInt8) ∉ line) :
    scanner.writeLoop text R fragment offset (line ++ 0x0A :: rest) =
      match consumeEventLine text R { scanner with fragments := [], fragmentBytes := 0 }
          (scanner.lineOf (fragment ++ line)) (offset + line.length + 1) with
      | .error failure => .error failure
      | .ok next => next.writeLoop text R [] (offset + line.length + 1) rest := by
  induction line generalizing fragment offset with
  | nil =>
    rw [nil_append, writeLoop, if_pos rfl, append_nil]
    rfl
  | cons byte line ih =>
    simp only [mem_cons, not_or] at hline
    obtain ⟨hbyte, hrest⟩ := hline
    have hlength : offset + 1 + line.length = offset + (byte :: line).length := by
      rw [length_cons]
      omega
    rw [cons_append, writeLoop, if_neg (Ne.symm hbyte), ih hrest, hlength,
      append_assoc]
    rfl

theorem writeLoop_torn {scanner : Scanner} {fragment torn : List UInt8} {offset : Nat}
    (htorn : (0x0A : UInt8) ∉ torn) :
    ∃ after, scanner.writeLoop text R fragment offset torn = .ok after ∧
      after.finish = scanner.finish := by
  induction torn generalizing fragment offset with
  | nil =>
    rw [writeLoop]
    split
    · exact ⟨scanner, rfl, rfl⟩
    · exact ⟨_, rfl, rfl⟩
  | cons byte torn ih =>
    simp only [mem_cons, not_or] at htorn
    obtain ⟨hbyte, hrest⟩ := htorn
    rw [writeLoop, if_neg (Ne.symm hbyte)]
    exact ih hrest

structure Clean (scanner : Scanner) (offset : Nat) : Prop where
  issue : scanner.issue = none
  fragments : scanner.fragments = []
  committed : scanner.committedBytes = offset

theorem consumeEventLine_decoded {scanner : Scanner} {line : List UInt8} {decoded : List Json}
    {offset endByte : Nat} (hclean : Clean scanner offset)
    (hdecode : decodeLine text R line = some decoded)
    (hnumbered : Numbered scanner.events.length decoded) :
    ∃ after, consumeEventLine text R { scanner with fragments := [], fragmentBytes := 0 }
        line endByte = .ok after ∧ Clean after endByte ∧
      after.finish = { scanner.finish with
        events := scanner.events ++ decoded, committedBytes := endByte } := by
  refine ⟨{ scanner with
    fragments := []
    fragmentBytes := 0
    eventLine := scanner.eventLine + 1
    events := scanner.events ++ decoded
    committedBytes := endByte }, ?_, ?_, rfl⟩
  · simp only [consumeEventLine, hdecode, hclean.issue, pushRow_numbered hnumbered]
  · exact ⟨hclean.issue, rfl, rfl⟩

def Written (text : JsonText) (records : List Json) : Prop :=
  ∀ record ∈ records, ReadsBack record ∧ text.Carries (encodeProvenanceForStorage record)

theorem writeLoop_records {records decoded : List Json} {scanner : Scanner} {offset : Nat}
    {torn : List UInt8} (hdecode : decodeRecords R records = .ok decoded)
    (hwritten : Written text records) (hclean : Clean scanner offset)
    (hnumbered : Numbered scanner.events.length decoded) (htorn : (0x0A : UInt8) ∉ torn) :
    ∃ after, scanner.writeLoop text R [] offset (frame 0x0A (records.map (lineOf text)) ++ torn) =
        .ok after ∧
      after.finish = { scanner.finish with
        events := scanner.events ++ decoded
        committedBytes := offset + (frame 0x0A (records.map (lineOf text))).length } := by
  induction records generalizing scanner offset decoded with
  | nil =>
    cases hdecode
    obtain ⟨after, hafter, hfinish⟩ := @writeLoop_torn text R scanner [] torn offset htorn
    refine ⟨after, hafter, ?_⟩
    rw [hfinish]
    simp [finish, hclean.committed]
  | cons record rest ih =>
    obtain ⟨⟨hreads, hcarries⟩, hrest⟩ := forall_mem_cons.mp hwritten
    simp only [decodeRecords] at hdecode
    cases hrecord : decodeStorageRecord R record with
    | error failure => simp [hrecord] at hdecode
    | ok events =>
      cases hmore : decodeRecords R rest with
      | error failure => simp [hrecord, hmore] at hdecode
      | ok more =>
        simp only [hrecord, hmore, Except.ok.injEq] at hdecode
        subst hdecode
        obtain ⟨hevents, hothers⟩ := numbered_append.mp hnumbered
        have hline := decodeLine_stringify hreads hcarries hrecord
        have hnewline : (0x0A : UInt8) ∉ lineOf text record := hcarries.2
        have hlineOf : scanner.lineOf ([] ++ lineOf text record) = lineOf text record := by
          simp [Scanner.lineOf, hclean.fragments]
        obtain ⟨next, hnext, hnextClean, hnextFinish⟩ :=
          @consumeEventLine_decoded text R scanner (lineOf text record) events offset
            (offset + (lineOf text record).length + 1) hclean hline hevents
        have hnextEvents : next.events = scanner.events ++ events :=
          congrArg SessionLogScan.events hnextFinish
        have hnumberedNext : Numbered next.events.length more := by
          rw [hnextEvents, length_append]
          exact hothers
        obtain ⟨after, hafter, hfinish⟩ := ih hmore hrest hnextClean hnumberedNext
        refine ⟨after, ?_, ?_⟩
        · rw [map_cons, frame_cons, append_assoc, cons_append,
            writeLoop_line hnewline, hlineOf, hnext]
          exact hafter
        · rw [hfinish, hnextFinish, hnextEvents]
          simp only [append_assoc, map_cons, frame_cons, length_append,
            length_cons, SessionLogScan.mk.injEq, true_and]
          omega

end Loop

section Scan

variable {text : JsonText} {R : Rounding} {header : SessionHeader} {cut : Nat}

variable {file start : List UInt8} {events records : List Json} {count seq : Nat}
variable {batches : List (Bool × List Json)}

theorem exists_line_of_headerBytes
    (h : headerBytes text header cut = .ok start) :
    start = text.stringify (headerLine header cut) ++ [0x0A] ∧
      storedCut header cut ≤ maxSafeInteger := by
  unfold headerBytes at h
  split at h
  · cases h
  · rename_i line hline
    cases h
    obtain ⟨rfl, hcut⟩ := headerLine_of_toHeaderLine header cut hline
    exact ⟨rfl, hcut⟩

theorem create_headerBytes (hcut : storedCut header cut ≤ maxSafeInteger)
    (hcarries : text.Carries (headerLine header cut)) :
    create text (text.stringify (headerLine header cut) ++ [0x0A]) = .ok {
      «meta» := header.stored.toJson
      inheritedEventCount := storedCut header cut
      inputBytes := (text.stringify (headerLine header cut) ++ [0x0A]).length
      committedBytes := (text.stringify (headerLine header cut) ++ [0x0A]).length } := by
  have hreads := reads_headerLine header cut
  have hrecord : parseHeaderRecord text (text.stringify (headerLine header cut) ++ [0x0A]) =
      .ok ⟨header.stored.toJson, storedCut header cut⟩ := by
    simp [parseHeaderRecord, hcarries.1, hcarries.2, hreads.refuseForeignFormatVersion,
      hreads.isHeaderLine hcut, hreads.fromHeaderLine hcut]
  simp only [create, hrecord]

theorem findIdx?_newline {line rest : List UInt8} (h : (0x0A : UInt8) ∉ line) :
    (line ++ 0x0A :: rest).findIdx? (· == 0x0A) = some line.length := by
  have hnone : line.findIdx? (· == 0x0A) = none := by
    rw [findIdx?_eq_none_iff]
    intro byte hbyte
    rw [beq_eq_false_iff_ne]
    rintro rfl
    exact h hbyte
  simp [findIdx?_append, hnone, findIdx?_cons]

theorem scanLog_records {start torn : List UInt8} {records decoded : List Json}
    (hstart : headerBytes text header cut = .ok start)
    (hcarries : text.Carries (headerLine header cut))
    (hdecode : decodeRecords R records = .ok decoded) (hwritten : Written text records)
    (hnumbered : Numbered 0 decoded) (htorn : (0x0A : UInt8) ∉ torn) :
    scanLog text R (start ++ (frame 0x0A (records.map (lineOf text)) ++ torn)) =
      .ok ⟨header.stored.toJson, storedCut header cut, decoded,
        start.length + (frame 0x0A (records.map (lineOf text))).length⟩ := by
  obtain ⟨rfl, hcut⟩ := exists_line_of_headerBytes hstart
  have hcreate := create_headerBytes hcut hcarries
  have hfind : (text.stringify (headerLine header cut) ++ [0x0A] ++
      (frame 0x0A (records.map (lineOf text)) ++ torn)).findIdx? (· == 0x0A) =
      some (text.stringify (headerLine header cut)).length := by
    rw [append_assoc]
    exact findIdx?_newline hcarries.2
  have htake : (text.stringify (headerLine header cut) ++ [0x0A] ++
      (frame 0x0A (records.map (lineOf text)) ++ torn)).take
        ((text.stringify (headerLine header cut)).length + 1) =
      text.stringify (headerLine header cut) ++ [0x0A] := by
    apply take_left'
    simp
  have hdrop : (text.stringify (headerLine header cut) ++ [0x0A] ++
      (frame 0x0A (records.map (lineOf text)) ++ torn)).drop
        ((text.stringify (headerLine header cut)).length + 1) =
      frame 0x0A (records.map (lineOf text)) ++ torn := by
    apply drop_left'
    simp
  simp only [scanLog, hfind, htake, hdrop, hcreate, write]
  obtain ⟨after, hafter, hfinish⟩ := @writeLoop_records text R records decoded
    { «meta» := header.stored.toJson
      inheritedEventCount := storedCut header cut
      inputBytes := (text.stringify (headerLine header cut) ++ [0x0A]).length +
        (frame 0x0A (records.map (lineOf text)) ++ torn).length
      committedBytes := (text.stringify (headerLine header cut) ++ [0x0A]).length }
    (text.stringify (headerLine header cut) ++ [0x0A]).length torn hdecode hwritten
    ⟨rfl, rfl, rfl⟩ hnumbered htorn
  rw [if_neg (by decide), hafter]
  simp only [hfinish]
  rfl

theorem decodeRecords_split {xs ys decoded : List Json}
    (h : decodeRecords R (xs ++ ys) = .ok decoded) :
    ∃ first rest, decodeRecords R xs = .ok first ∧ decodeRecords R ys = .ok rest ∧
      decoded = first ++ rest := by
  induction xs generalizing decoded with
  | nil => exact ⟨[], decoded, rfl, h, rfl⟩
  | cons x xs ih =>
    simp only [cons_append, decodeRecords] at h
    cases hx : decodeStorageRecord R x with
    | error failure => simp [hx] at h
    | ok events =>
      cases hmore : decodeRecords R (xs ++ ys) with
      | error failure => simp [hx, hmore] at h
      | ok more =>
        simp only [hx, hmore, Except.ok.injEq] at h
        obtain ⟨first, rest, hfirst, hrest, rfl⟩ := ih hmore
        refine ⟨events ++ first, rest, ?_, hrest, ?_⟩
        · simp only [decodeRecords, hx, hfirst]
        · rw [← h, append_assoc]

theorem restores_take (h : Restores R records events) (count : Nat) :
    ∃ decoded, decodeRecords R (records.take count) = .ok decoded ∧
      (∀ event ∈ decoded, event.WellFormed) ∧
      Json.Same (.arr decoded) (.arr (events.take decoded.length)) := by
  obtain ⟨decoded, hdecoded, hwellFormed, hsame⟩ := h
  rw [← take_append_drop count records] at hdecoded
  obtain ⟨first, rest, hfirst, -, rfl⟩ := decodeRecords_split hdecoded
  exact ⟨first, hfirst, fun event hevent => hwellFormed event (mem_append_left _ hevent),
    (itemsEqualBy_split hsame).1⟩

theorem contiguous_take (h : Contiguous seq events) : Contiguous seq (events.take count) := by
  rw [← take_append_drop count events] at h
  exact (contiguous_append.mp h).1

def logValues (R : Rounding) (batches : List (Bool × List Json)) : List Json :=
  (logRecords R batches).map encodeProvenanceForStorage

def JsonText.RoundTrips (text : JsonText) (values : List Json) : Prop :=
  ∀ value ∈ values, value.WellFormed → value.isLossless = true → text.Carries value

theorem written_logRecords
    (hlog : Contiguous seq (loggedEvents batches)) (htext : text.RoundTrips (logValues R batches)) :
    Written text (logRecords R batches) := by
  intro record hrecord
  have hreads := readsBack_logRecords hlog record hrecord
  exact ⟨hreads, htext _ (mem_map_of_mem hrecord) hreads.wellFormed hreads.lossless⟩

theorem written_append {more : List Json} (hrecords : Written text records)
    (hmore : Written text more) : Written text (records ++ more) :=
  forall_mem_append.mpr ⟨hrecords, hmore⟩

theorem clean_lines (h : Written text records) :
    ∀ line ∈ records.map (lineOf text), (0x0A : UInt8) ∉ line := by
  intro line hline
  obtain ⟨record, hrecord, rfl⟩ := mem_map.mp hline
  exact (h record hrecord).2.2

structure Recovers (text : JsonText) (R : Rounding) (header : SessionHeader) (cut : Nat)
    (records log : List Json) (start file : List UInt8) (scan : SessionLogScan) (count : Nat) : Prop where
  scanned : scanLog text R file = .ok scan
  meta_eq : scan.meta = header.stored.toJson
  inherited : scan.inheritedEventCount = storedCut header cut
  count_le : count ≤ records.length
  lines : ∃ torn, file = start ++ frame 0x0A ((records.take count).map (lineOf text)) ++ torn ∧
    (0x0A : UInt8) ∉ torn ∧ scan.committedBytes + torn.length = file.length
  decoded : decodeRecords R (records.take count) = .ok scan.events
  events : Json.Same (.arr scan.events) (.arr (log.take scan.events.length))

theorem exists_recovers
    (hstart : headerBytes text header cut = .ok start) (hlog : Contiguous 0 (loggedEvents batches))
    (htext : text.RoundTrips (headerLine header cut :: logValues R batches))
    (hcutoff : file <+: start ++ batchesBytes text R batches) (hheader : start <+: file) :
    ∃ scan count, Recovers text R header cut (logRecords R batches) (loggedEvents batches) start file
      scan count := by
  obtain ⟨hline, hvalues⟩ := forall_mem_cons.mp htext
  have hcarries := hline (wellFormed_headerLine header cut) (isLossless_headerLine header cut)
  have hwritten := written_logRecords hlog hvalues
  obtain ⟨body, rfl⟩ := hheader
  rw [prefix_append_right_inj, batchesBytes_eq hlog] at hcutoff
  obtain ⟨count, torn, hcount, hbody, htorn⟩ := prefix_frame (clean_lines hwritten) hcutoff
  rw [← map_take] at hbody
  obtain ⟨decoded, hdecoded, hwellFormed, hsame⟩ := restores_take (restores_logRecords hlog) count
  have hnumbered := numbered_of_same (contiguous_take hlog) hwellFormed hsame
  have hscan := scanLog_records hstart hcarries hdecoded
    (fun record hrecord => hwritten record (mem_of_mem_take hrecord)) hnumbered htorn
  rw [← hbody] at hscan
  refine ⟨_, count, hscan, rfl, rfl, by simpa using hcount, ⟨torn, ?_, htorn, ?_⟩, hdecoded, hsame⟩
  · rw [hbody, append_assoc]
  · rw [hbody]
    simp only [length_append]
    omega

theorem contiguous_drop (h : Contiguous 0 events)
    (hcount : count ≤ events.length) : Contiguous count (events.drop count) := by
  rw [← take_append_drop count events] at h
  have hdrop := (contiguous_append.mp h).2
  rw [length_take, Nat.min_eq_left hcount, Nat.zero_add] at hdrop
  exact hdrop

theorem Recovers.continued {log : List Json}
    {scan : SessionLogScan} {more : List (Bool × List Json)}
    (h : Recovers text R header cut records log start file scan count)
    (hstart : headerBytes text header cut = .ok start)
    (hcarries : text.Carries (headerLine header cut)) (hlog : Contiguous 0 log)
    (hwritten : Written text records) (hrestores : Restores R records log)
    (hmore : loggedEvents more = log.drop scan.events.length)
    (htext : text.RoundTrips (logValues R more)) :
    ∃ whole, scanLog text R (file.take scan.committedBytes ++ batchesBytes text R more) = .ok whole ∧
      whole.meta = header.stored.toJson ∧ whole.inheritedEventCount = storedCut header cut ∧
      Json.Same (.arr whole.events) (.arr log) ∧
      whole.committedBytes = (file.take scan.committedBytes ++ batchesBytes text R more).length := by
  obtain ⟨torn, hfile, -, hlength⟩ := h.lines
  have hle : scan.events.length ≤ log.length := by
    have heq := length_of_same h.events
    rw [length_take] at heq
    omega
  have hlogMore : Contiguous scan.events.length (loggedEvents more) := by
    rw [hmore]
    exact contiguous_drop hlog hle
  have hwrittenMore := written_logRecords hlogMore htext
  obtain ⟨decoded, hdecoded, hwellFormed, hsame⟩ := @restores_logRecords R _ more hlogMore
  obtain ⟨first, hfirst, hfirstWellFormed, -⟩ := restores_take hrestores count
  have hfirstEq : first = scan.events := Except.ok.inj (hfirst.symm.trans h.decoded)
  rw [hfirstEq] at hfirstWellFormed
  have hsameAll : Json.Same (.arr (scan.events ++ decoded)) (.arr log) := by
    have happend := itemsEqualBy_append h.events hsame
    rw [hmore, take_append_drop] at happend
    exact happend
  have hcommitted : file.take scan.committedBytes =
      start ++ frame 0x0A ((records.take count).map (lineOf text)) := by
    rw [hfile]
    apply take_left'
    rw [hfile] at hlength
    simp only [length_append] at hlength ⊢
    omega
  have hwhole := @scanLog_records text R header cut start [] _ _ hstart hcarries (decodeRecords_append h.decoded hdecoded)
    (written_append (fun record hrecord => hwritten record (mem_of_mem_take hrecord)) hwrittenMore)
    (numbered_of_same hlog (forall_mem_append.mpr ⟨hfirstWellFormed, hwellFormed⟩) hsameAll)
    not_mem_nil
  rw [hcommitted, batchesBytes_eq hlogMore, append_assoc, ← frame_append, ← map_append]
  rw [append_nil] at hwhole
  refine ⟨_, hwhole, rfl, rfl, hsameAll, ?_⟩
  rw [length_append]

/-- A file cut anywhere after its header line gives the header and the events of its complete
lines, and can be continued where they end. -/
theorem scanLog_cut {batches : List (Bool × List Json)} {start file : List UInt8}
    (hstart : headerBytes text header cut = .ok start) (hlog : Contiguous 0 (loggedEvents batches))
    (htext : text.RoundTrips (headerLine header cut :: logValues R batches))
    (hcutoff : file <+: start ++ batchesBytes text R batches) (hheader : start <+: file) :
    ∃ scan count, Recovers text R header cut (logRecords R batches) (loggedEvents batches) start file
        scan count ∧
      ∀ more, loggedEvents more = (loggedEvents batches).drop scan.events.length →
        text.RoundTrips (logValues R more) →
        ∃ whole, scanLog text R (file.take scan.committedBytes ++ batchesBytes text R more) = .ok whole ∧
          whole.meta = header.stored.toJson ∧ whole.inheritedEventCount = storedCut header cut ∧
          Json.Same (.arr whole.events) (.arr (loggedEvents batches)) ∧
          whole.committedBytes =
            (file.take scan.committedBytes ++ batchesBytes text R more).length := by
  obtain ⟨scan, count, hrecovers⟩ := exists_recovers hstart hlog htext hcutoff hheader
  refine ⟨scan, count, hrecovers, ?_⟩
  intro more hmore htextMore
  obtain ⟨hline, hvalues⟩ := forall_mem_cons.mp htext
  have hcarries := hline (wellFormed_headerLine header cut) (isLossless_headerLine header cut)
  exact hrecovers.continued hstart hcarries hlog (written_logRecords hlog hvalues)
    (restores_logRecords hlog) hmore htextMore

end Scan

section Examples

def ascii (text : String) : List UInt8 := text.toList.map fun c => UInt8.ofNat c.toNat

def topLevelHeader : SessionHeader where
  version := 0
  id := "s"
  createdAt := 7
  isSeeded := false
  version_eq := rfl
  createdAt_le := by decide
  delegationDepth_le := by simp

def noteEvent (type : String) (sources : List (String × Json)) : Json :=
  .obj ([("type", .str type), ("seq", .ofNat 0), ("time", .ofNat 7), ("data", .obj [])] ++ sources)

def plainNote : Json := noteEvent "note" []

def citingNote : Json := noteEvent "note" [("sourceEventSeqs", .arr [.ofNat 0])]

def taggedNote : Json := noteEvent "text-chunks" []

def sampleTexts : List (Json × List UInt8) :=
  [(headerLine topLevelHeader 0,
      ascii "\x7b\"type\":\"session\",\"version\":0,\"id\":\"s\",\"createdAt\":7,\"delegationDepth\":0\x7d"),
    (plainNote, ascii "\x7b\"type\":\"note\",\"seq\":0,\"time\":7,\"data\":\x7b\x7d\x7d"),
    (citingNote,
      ascii "\x7b\"type\":\"note\",\"seq\":0,\"time\":7,\"data\":\x7b\x7d,\"sourceEventSeqs\":[0]\x7d"),
    (taggedNote, ascii "\x7b\"type\":\"text-chunks\",\"seq\":0,\"time\":7,\"data\":\x7b\x7d\x7d")]

def sampleText : JsonText where
  stringify value := ((sampleTexts.find? fun entry => Json.Same entry.1 value).map Prod.snd).getD []
  parse bytes := (sampleTexts.find? fun entry => entry.2 == bytes).map Prod.fst

def sampleStart : List UInt8 := sampleText.stringify (headerLine topLevelHeader 0) ++ [0x0A]

theorem carries_sampleText : ∀ value ∈ [headerLine topLevelHeader 0, plainNote, citingNote, taggedNote],
    sampleText.Carries value := by
  intro value hvalue
  simp only [mem_cons, not_mem_nil, or_false] at hvalue
  rcases hvalue with rfl | rfl | rfl | rfl
  · exact ⟨rfl, by decide⟩
  · exact ⟨rfl, by decide⟩
  · exact ⟨rfl, by decide⟩
  · exact ⟨rfl, by decide⟩

/-- A header without a delegation depth reads back with one; an event at position 0 that cites
a source, and one whose type is a row tag, are complete lines that are not read back. -/
theorem not_scanLog_sample :
    (∃ scan, scanLog sampleText Rounding.nearest sampleStart = .ok scan ∧
      ¬ Json.Same scan.meta topLevelHeader.toJson) ∧
    (∀ note ∈ [citingNote, taggedNote], ∃ scan,
      scanLog sampleText Rounding.nearest
          (sampleStart ++ batchesBytes sampleText Rounding.nearest [(true, [note])]) = .ok scan ∧
        scan.events = [] ∧ scan.committedBytes = sampleStart.length) := by
  constructor
  · exact ⟨⟨topLevelHeader.stored.toJson, 0, [], sampleStart.length⟩, rfl, by decide⟩
  · intro note hnote
    simp only [mem_cons, not_mem_nil, or_false] at hnote
    rcases hnote with rfl | rfl
    · exact ⟨⟨topLevelHeader.stored.toJson, 0, [], sampleStart.length⟩, rfl, rfl, rfl⟩
    · exact ⟨⟨topLevelHeader.stored.toJson, 0, [], sampleStart.length⟩, rfl, rfl, rfl⟩

theorem scanLog_cut_sample :
    ∃ scan count, Recovers sampleText Rounding.nearest topLevelHeader 0
        (logRecords Rounding.nearest [(true, [plainNote])]) (loggedEvents [(true, [plainNote])])
        sampleStart (sampleStart ++ ascii "\x7b\"type\"") scan count ∧
      ∀ more, loggedEvents more =
          (loggedEvents [(true, [plainNote])]).drop scan.events.length →
        sampleText.RoundTrips (logValues Rounding.nearest more) →
        ∃ whole, scanLog sampleText Rounding.nearest
            ((sampleStart ++ ascii "\x7b\"type\"").take scan.committedBytes ++
              batchesBytes sampleText Rounding.nearest more) = .ok whole ∧
          whole.meta = topLevelHeader.stored.toJson ∧
          whole.inheritedEventCount = storedCut topLevelHeader 0 ∧
          Json.Same (.arr whole.events) (.arr (loggedEvents [(true, [plainNote])])) ∧
          whole.committedBytes = ((sampleStart ++ ascii "\x7b\"type\"").take scan.committedBytes ++
            batchesBytes sampleText Rounding.nearest more).length := by
  have hlog : Contiguous 0 (loggedEvents [(true, [plainNote])]) := by
    refine ⟨⟨⟨?_, rfl, ⟨0, by decide, rfl⟩, rfl⟩, rfl, ?_⟩, trivial⟩
    · simp [plainNote, noteEvent, Json.WellFormed, Json.FieldsWellFormed, Json.ofNat]
    · intro value hvalue
      cases hvalue
  have htext : sampleText.RoundTrips
      (headerLine topLevelHeader 0 :: logValues Rounding.nearest [(true, [plainNote])]) := by
    intro value hvalue _ _
    have hmem : value ∈ [headerLine topLevelHeader 0, plainNote] := hvalue
    exact carries_sampleText value (by
      simp only [mem_cons, not_mem_nil, or_false] at hmem ⊢
      exact hmem.imp_right Or.inl)
  have hcutoff : sampleStart ++ ascii "\x7b\"type\"" <+:
      sampleStart ++ batchesBytes sampleText Rounding.nearest [(true, [plainNote])] := by
    decide
  exact scanLog_cut rfl hlog htext hcutoff (prefix_append _ _)

end Examples

end DshKernel.Jsonl
