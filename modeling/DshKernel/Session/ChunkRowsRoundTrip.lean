import DshKernel.Session.ChunkRowsPack

/-!
# Chunk rows round trip

Whatever the batches a log was packed in, decoding its records gives its events back.
-/

namespace DshKernel.Session

open Js List

section Row

variable {R : Rounding}

theorem isEventSeq_ofNat {n : Nat} (h : n ≤ maxSafeInteger) : isEventSeq (.ofNat n) = some n := by
  simp [isEventSeq, Json.ofNat, Number.ofNat, h]

theorem asSafeInteger_num {time : Integral} (h : time.isSafe = true) :
    asSafeInteger (.num (.integral time)) = some time := by
  simp [asSafeInteger, h]

theorem mapM_asString (texts : List String) :
    (texts.map Json.str).mapM Json.asString = some texts := by
  induction texts with
  | nil => rfl
  | cons text rest ih => simp [mapM_cons, ih, Json.asString]

theorem mapM_asSafeInteger {gaps : List Integral} (h : ∀ gap ∈ gaps, gap.isSafe = true) :
    (gaps.map fun gap => Json.num (.integral gap)).mapM asSafeInteger = some gaps := by
  induction gaps with
  | nil => rfl
  | cons gap rest ih =>
    obtain ⟨hgap, hrest⟩ := forall_mem_cons.mp h
    simp [mapM_cons, ih hrest, asSafeInteger_num hgap]

variable {row : ChunkRow}

theorem dataJson_cases (h : row.shape.Proper) :
    (row.shape.kind ≠ .toolCallDelta ∧ row.shape.call = none ∧ row.dataJson =
      .obj [("turn", .num row.shape.turn), ("step", .num row.shape.step),
        ("index", .num row.shape.index), ("dt", .arr (row.gaps.map fun gap => .num (.integral gap))),
        ("texts", .arr (row.texts.map .str))]) ∨
    (row.shape.kind = .toolCallDelta ∧ ∃ id name, row.shape.call = some ⟨id, name⟩ ∧ row.dataJson =
      .obj ([("turn", .num row.shape.turn), ("step", .num row.shape.step),
        ("index", .num row.shape.index), ("dt", .arr (row.gaps.map fun gap => .num (.integral gap))),
        ("id", .str id)] ++ optional "name" (name.map .str) ++ [("args", .arr (row.texts.map .str))])) := by
  unfold RunShape.Proper at h
  cases hcall : row.shape.call with
  | none =>
    refine Or.inl ⟨fun hkind => by simp [hcall, hkind] at h, rfl, ?_⟩
    simp [ChunkRow.dataJson, hcall]
  | some call =>
    refine Or.inr ⟨h.mp (by simp [hcall]), call.id, call.name, rfl, ?_⟩
    simp [ChunkRow.dataJson, hcall]

theorem validateRowCall_dataJson (h : row.shape.Proper) :
    validateRowCall row.shape.kind.rowType row.shape.kind row.dataJson = .ok row.shape.call := by
  rcases dataJson_cases h with ⟨hkind, hcall, hdata⟩ | ⟨hkind, id, name, hcall, hdata⟩
  · have hkeys : hasExactKeys row.dataJson ["turn", "step", "index", "dt", "texts"] = true := by
      simp [hdata, hasExactKeys, hasOwn, Json.keys, Json.get?, lookup_cons]
    rw [hcall]
    cases hk : row.shape.kind with
    | toolCallDelta => exact absurd hk hkind
    | textDelta => simp [validateRowCall, hkeys]
    | reasoningDelta => simp [validateRowCall, hkeys]
  · have hid : row.dataJson.get? "id" = some (.str id) := by simp [hdata, Json.get?, lookup_cons]
    have hname : row.dataJson.get? "name" = name.map .str := by
      cases name with
      | none => simp [hdata, Json.get?, optional, lookup_cons]
      | some name => simp [hdata, Json.get?, optional, lookup_cons]
    rw [hcall, hkind]
    cases name with
    | none =>
      have hkeys : hasExactKeys row.dataJson ["turn", "step", "index", "id", "dt", "args"] = true := by
        simp [hdata, hasExactKeys, hasOwn, Json.keys, Json.get?, optional]
      simp [validateRowCall, hkeys, hid, hname]
    | some name =>
      have hkeys : hasExactKeys row.dataJson ["turn", "step", "index", "id", "name", "dt", "args"] =
          true := by
        simp [hdata, hasExactKeys, hasOwn, Json.keys, Json.get?, optional]
      simp [validateRowCall, hkeys, hid, hname]

theorem validateRunData_dataJson (tag : String) (h : row.shape.Proper)
    (hgaps : ∀ gap ∈ row.gaps, gap.isSafe = true) :
    validateRunData tag row.dataJson (if row.shape.kind = .toolCallDelta then "args" else "texts") =
      .ok ((row.shape.turn, row.shape.step, row.shape.index), row.first, row.rest) := by
  have hdt := mapM_asSafeInteger hgaps
  have htexts := mapM_asString row.texts
  have hlength : row.gaps.length = (row.rest.map Prod.snd).length := by simp [ChunkRow.gaps]
  have hzip : row.gaps.zip (row.rest.map Prod.snd) = row.rest := by
    rw [ChunkRow.gaps, ← unzip_fst, ← unzip_snd, zip_unzip]
  have hget : row.dataJson.get? "turn" = some (.num row.shape.turn) ∧
      row.dataJson.get? "step" = some (.num row.shape.step) ∧
      row.dataJson.get? "index" = some (.num row.shape.index) ∧
      row.dataJson.get? "dt" = some (.arr (row.gaps.map fun gap => .num (.integral gap))) ∧
      row.dataJson.get? (if row.shape.kind = .toolCallDelta then "args" else "texts") =
        some (.arr (row.texts.map .str)) := by
    rcases dataJson_cases h with ⟨hkind, -, hdata⟩ | ⟨hkind, id, name, -, hdata⟩
    · simp [hkind, hdata, Json.get?, lookup_cons]
    · cases name with
      | none => simp [hkind, hdata, Json.get?, optional, lookup_cons]
      | some name => simp [hkind, hdata, Json.get?, optional, lookup_cons]
  obtain ⟨hturn, hstep, hindex, hdtGet, hpayload⟩ := hget
  simp only [validateRunData, hturn, hstep, hindex, hdtGet, hpayload, Option.bind_some, Json.asArray,
    htexts, hdt]
  simp [ChunkRow.texts, hlength, hzip]

structure ChunkRow.Valid (R : Rounding) (row : ChunkRow) : Prop where
  proper : row.shape.Proper
  seqs : row.seq0 + row.rest.length ≤ maxSafeInteger
  time0 : row.time0.isSafe = true
  gaps : ∀ gap ∈ row.gaps, gap.isSafe = true
  times : timesStaySafe R row.time0 row.gaps = true

theorem isObject_dataJson (row : ChunkRow) : row.dataJson.isObject = true := by
  unfold ChunkRow.dataJson
  cases row.shape.call with
  | none => rfl
  | some call => rfl

theorem validateRow_toJson (h : row.Valid R) :
    validateRow R row.toJson row.shape.kind = .ok row := by
  have hseq : isEventSeq (.ofNat row.seq0) = some row.seq0 :=
    isEventSeq_ofNat (by have := h.seqs; omega)
  have hroom : ¬ maxSafeInteger < row.seq0 + row.rest.length := by
    have := h.seqs
    omega
  have htimes := h.times
  unfold ChunkRow.gaps at htimes
  have hkeys : hasExactKeys row.toJson ["type", "seq0", "time0", "data"] = true := by
    simp [ChunkRow.toJson, hasExactKeys, hasOwn, Json.keys, Json.get?, lookup_cons]
  have hseqGet : row.toJson.get? "seq0" = some (.ofNat row.seq0) := rfl
  have htimeGet : row.toJson.get? "time0" = some (.num (.integral row.time0)) := rfl
  have hdataGet : row.toJson.get? "data" = some row.dataJson := rfl
  simp [validateRow, hkeys, hseqGet, htimeGet, hdataGet, hseq, asSafeInteger_num h.time0,
    Option.filter, isObject_dataJson, validateRowCall_dataJson h.proper,
    validateRunData_dataJson _ h.proper h.gaps, hroom, htimes]

theorem rowKind_rowType (kind : DeltaKind) : rowKind kind.rowType = some kind := by
  cases kind with
  | textDelta => rfl
  | reasoningDelta => rfl
  | toolCallDelta => rfl

theorem decodeStorageRecord_row (h : row.Valid R) :
    decodeStorageRecord R row.toJson = .ok (expandRow R row) := by
  have htype : (row.toJson.get? "type").bind Json.asString = some row.shape.kind.rowType := rfl
  simp [decodeStorageRecord, htype, rowKind_rowType, validateRow_toJson h]

end Row

section Batches

variable {R : Rounding}

structure Storable (event : Json) : Prop where
  wellFormed : event.WellFormed
  lossless : event.isLossless = true
  seq : ∃ n, n ≤ maxSafeInteger ∧ event.get? "seq" = some (.ofNat n)
  notRow : ((event.get? "type").bind Json.asString).bind rowKind = none

variable {event : Json} {events xs ys : List Json} {run : List DeltaEvent}

theorem Storable.decodeStorageRecord (h : Storable event) :
    decodeStorageRecord R event = .ok [event] := by
  obtain ⟨n, hn, hseq⟩ := h.seq
  have hread : isEventSeq (.num (.ofNat n)) = some n := isEventSeq_ofNat hn
  simp [Session.decodeStorageRecord, h.notRow, hseq, Json.ofNat, hread]

theorem decodeRecords_append {more : List Json} (hxs : decodeRecords R xs = .ok events)
    (hys : decodeRecords R ys = .ok more) : decodeRecords R (xs ++ ys) = .ok (events ++ more) := by
  induction xs generalizing events with
  | nil =>
    cases hxs
    exact hys
  | cons value rest ih =>
    simp only [decodeRecords] at hxs
    cases hvalue : decodeStorageRecord R value with
    | error failure => simp [hvalue] at hxs
    | ok first =>
      cases hrest : decodeRecords R rest with
      | error failure => simp [hvalue, hrest] at hxs
      | ok others =>
        simp only [hvalue, hrest, Except.ok.injEq] at hxs
        subst hxs
        simp only [cons_append, decodeRecords, hvalue, ih hrest, append_assoc]

theorem itemsEqualBy_append {eq : Number → Number → Bool} {xs' ys' : List Json}
    (h : Json.itemsEqualBy eq xs ys = true) (h' : Json.itemsEqualBy eq xs' ys' = true) :
    Json.itemsEqualBy eq (xs ++ xs') (ys ++ ys') = true := by
  induction xs generalizing ys with
  | nil =>
    cases ys with
    | nil => exact h'
    | cons y ys => simp [Json.itemsEqualBy] at h
  | cons x xs ih =>
    cases ys with
    | nil => simp [Json.itemsEqualBy] at h
    | cons y ys =>
      simp only [cons_append, Json.itemsEqualBy, Bool.and_eq_true] at h ⊢
      exact ⟨h.1, ih h.2⟩

def Decodes (R : Rounding) (records : List StorageRecord) (events : List Json) : Prop :=
  ∃ decoded, decodeRecords R (records.map StorageRecord.toJson) = .ok decoded ∧
    (∀ event ∈ decoded, event.WellFormed) ∧ Json.Same (.arr decoded) (.arr events)

theorem decodes_nil : Decodes R [] [] := ⟨[], rfl, by simp, rfl⟩

theorem Decodes.append {records records' : List StorageRecord} {events' : List Json}
    (h : Decodes R records events) (h' : Decodes R records' events') :
    Decodes R (records ++ records') (events ++ events') := by
  obtain ⟨decoded, hdecoded, hwellFormed, hsame⟩ := h
  obtain ⟨decoded', hdecoded', hwellFormed', hsame'⟩ := h'
  refine ⟨decoded ++ decoded', ?_, ?_, itemsEqualBy_append hsame hsame'⟩
  · rw [map_append]
    exact decodeRecords_append hdecoded hdecoded'
  · exact forall_mem_append.mpr ⟨hwellFormed, hwellFormed'⟩

theorem Storable.decodes (h : Storable event) : Decodes R [.event event] [event] := by
  refine ⟨[event], ?_, by simpa using h.wellFormed, ?_⟩
  · simp [decodeRecords, StorageRecord.toJson, h.decodeStorageRecord]
  · have hsame : Json.equalBy (· == ·) event event = true := Json.Same.refl h.wellFormed
    simp [Json.Same, Json.equalBy, Json.itemsEqualBy, hsame]

theorem decodes_events {events : List Json} (h : ∀ event ∈ events, Storable event) :
    Decodes R (events.map .event) events := by
  induction events with
  | nil => exact decodes_nil
  | cons event rest ih =>
    obtain ⟨hevent, hrest⟩ := forall_mem_cons.mp h
    exact hevent.decodes.append (ih hrest)

theorem same_members (h : ∀ delta ∈ run, ReadAs delta.event delta) :
    Json.Same (.arr (run.map DeltaEvent.member)) (.arr (run.map DeltaEvent.event)) := by
  induction run with
  | nil => rfl
  | cons delta rest ih =>
    obtain ⟨hdelta, hrest⟩ := forall_mem_cons.mp h
    have hfirst : Json.equalBy (· == ·) delta.member delta.event = true := hdelta.same
    have hothers := ih hrest
    simp only [Json.Same, Json.equalBy, map_cons, Json.itemsEqualBy, Bool.and_eq_true] at hothers ⊢
    exact ⟨hfirst, hothers⟩

theorem wellFormed_chunkJson (shape : RunShape) (text : String) :
    (chunkJson shape text).WellFormed := by
  unfold chunkJson
  cases shape.call with
  | none => simp [Json.WellFormed, Json.FieldsWellFormed]
  | some call =>
    obtain ⟨id, name⟩ := call
    cases name with
    | none => simp [Json.WellFormed, Json.FieldsWellFormed, optional]
    | some name => simp [Json.WellFormed, Json.FieldsWellFormed, optional]

theorem wellFormed_memberEvent (shape : RunShape) (seq : Nat) (time : Integral) (text : String) :
    (memberEvent shape seq time text).WellFormed := by
  have hchunk := wellFormed_chunkJson shape text
  simp [memberEvent, memberData, Json.WellFormed, Json.FieldsWellFormed, Json.ofNat, hchunk]

theorem buildRow_spec {first : DeltaEvent} {rest : List DeltaEvent} (hrun : IsRun R first rest)
    (hmembers : ∀ delta ∈ first :: rest, Member delta) :
    (buildRow R first rest).Valid R ∧
      expandRow R (buildRow R first rest) = (first :: rest).map DeltaEvent.member := by
  obtain ⟨hfirst, hrest⟩ := forall_mem_cons.mp hmembers
  obtain ⟨hexpand, htimes, hgaps, hroom⟩ := runGaps_spec hrun hfirst hrest
  refine ⟨⟨hfirst.read.proper, hroom, hfirst.read.time, hgaps, htimes⟩, ?_⟩
  simp only [expandRow, buildRow, hexpand, map_cons]
  rfl

def RunOk (R : Rounding) : List DeltaEvent → Prop
  | [] => True
  | first :: rest => IsRun R first rest

theorem decodes_flushRun (hrun : RunOk R run)
    (hmembers : ∀ delta ∈ run, Member delta) (hstorable : ∀ delta ∈ run, Storable delta.event) :
    Decodes R (flushRun R run) (run.map DeltaEvent.event) := by
  cases run with
  | nil => exact decodes_nil
  | cons first rest =>
    by_cases hlong : MIN_RUN ≤ (first :: rest).length
    · obtain ⟨hvalid, hexpand⟩ := buildRow_spec hrun hmembers
      refine ⟨(first :: rest).map DeltaEvent.member, ?_, ?_,
        same_members fun delta hdelta => (hmembers delta hdelta).read⟩
      · have hdecode := decodeStorageRecord_row hvalid
        simp only [flushRun, hlong, if_true, map_cons, map_nil, StorageRecord.toJson,
          decodeRecords, hdecode, hexpand, append_nil]
      · intro event hevent
        obtain ⟨delta, -, rfl⟩ := mem_map.mp hevent
        exact wellFormed_memberEvent _ _ _ _
    · have hflush : flushRun R (first :: rest) =
          ((first :: rest).map DeltaEvent.event).map .event := by
        simp only [flushRun, hlong, if_false, map_map]
        rfl
      rw [hflush]
      apply decodes_events
      intro event hevent
      obtain ⟨delta, hdelta, rfl⟩ := mem_map.mp hevent
      exact hstorable delta hdelta

theorem getLast?_cons_eq_getLastD {α : Type} (first : α) (rest : List α) :
    (first :: rest).getLast? = some (rest.getLastD first) := by
  rw [getLast?_cons, getLastD_eq_getLast?]

theorem runOk_snoc {last delta : DeltaEvent} (hrun : RunOk R run)
    (hlast : run.getLast? = some last) (hkind : delta.shape.kind = last.shape.kind)
    (hcontinues : continues R last delta = true) : RunOk R (run ++ [delta]) := by
  cases run with
  | nil => simp at hlast
  | cons first rest =>
    rw [getLast?_cons_eq_getLastD] at hlast
    cases hlast
    exact isRun_snoc hrun hkind hcontinues

theorem packLoop_induction {Q : List StorageRecord → List Json → Prop}
    (happend : ∀ {records records' events events'}, Q records events → Q records' events' →
      Q (records ++ records') (events ++ events'))
    (hverbatim : ∀ event, Storable event → Q [.event event] [event])
    (hflushed : ∀ run, RunOk R run → (∀ delta ∈ run, Member delta) →
      (∀ delta ∈ run, Storable delta.event) → Q (flushRun R run) (run.map DeltaEvent.event))
    {events : List Json} {run : List DeltaEvent} (hrun : RunOk R run)
    (hmembers : ∀ delta ∈ run, Member delta) (hrunEvents : ∀ delta ∈ run, Storable delta.event)
    (hevents : ∀ event ∈ events, Storable event) :
    Q (packLoop R run events) (run.map DeltaEvent.event ++ events) := by
  induction events generalizing run with
  | nil =>
    rw [append_nil]
    exact hflushed run hrun hmembers hrunEvents
  | cons event rest ih =>
    obtain ⟨hevent, hrest⟩ := forall_mem_cons.mp hevents
    have hflush := hflushed run hrun hmembers hrunEvents
    cases hclassify : classify event with
    | none =>
      simp only [packLoop, hclassify]
      have hempty := @ih [] trivial (by simp) (by simp) hrest
      exact happend hflush (happend (hverbatim event hevent) hempty)
    | some delta =>
      have hread := readAs_of_classify hclassify
      have heq : delta.event = event := hread.event_eq
      have hdelta : Member delta := ⟨by rw [heq]; exact hread, by rw [heq]; exact hevent.lossless⟩
      have hdeltaEvent : Storable delta.event := by rw [heq]; exact hevent
      have hsingle : Q (packLoop R [delta] rest) (event :: rest) := by
        have hnext := @ih [delta] trivial (by simpa using hdelta) (by simpa using hdeltaEvent) hrest
        simpa [heq] using hnext
      cases hlast : run.getLast? with
      | none =>
        rw [getLast?_eq_none_iff] at hlast
        subst hlast
        simpa [packLoop, hclassify] using hsingle
      | some last =>
        simp only [packLoop, hclassify, hlast]
        split
        · rename_i hcond
          simp only [Bool.and_eq_true, beq_iff_eq] at hcond
          have hgrown := @ih (run ++ [delta]) (runOk_snoc hrun hlast hcond.1 hcond.2)
            (by simpa [or_imp, forall_and] using ⟨hmembers, hdelta⟩)
            (by simpa [or_imp, forall_and] using ⟨hrunEvents, hdeltaEvent⟩) hrest
          simpa [heq] using hgrown
        · exact happend hflush hsingle

theorem decodes_packChunkRuns (h : ∀ event ∈ events, Storable event) :
    Decodes R (packChunkRuns R events) events :=
  @packLoop_induction R (Decodes R) Decodes.append (fun _ hevent => hevent.decodes)
    (fun _ hrun hmembers hstorable => decodes_flushRun hrun hmembers hstorable) events [] trivial
    (by simp) (by simp) h

theorem decodes_batches {batches : List (List Json)}
    (h : ∀ event ∈ batches.flatten, Storable event) :
    Decodes R (batches.map (packChunkRuns R)).flatten batches.flatten := by
  induction batches with
  | nil => exact decodes_nil
  | cons batch rest ih =>
    rw [flatten_cons] at h
    refine Decodes.append ?_ ?_
    · exact decodes_packChunkRuns fun event hevent => h event (mem_append_left _ hevent)
    · exact ih fun event hevent => h event (mem_append_right _ hevent)

end Batches

end DshKernel.Session
