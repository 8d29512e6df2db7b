import DshKernel.Jsonl.Format
import DshKernel.Lib.Framing
import DshKernel.Session.ChunkRowsRoundTrip

/-!
# What is written for a batch

Every record of a batch is lossless JSON, so its line carries it, and the line decodes to
the events that the record stands for.
-/

namespace DshKernel.Jsonl

open Js Session List

section Rows

variable {R : Rounding}

variable {rest : List DeltaEvent}

theorem runGaps_int {prev : DeltaEvent} (hrun : IsRun R prev rest)
    (hprev : Member prev) (hrest : ∀ delta ∈ rest, Member delta) :
    ∀ gap ∈ (runGaps R prev rest).map Prod.fst, ∃ z, gap = .int z := by
  induction rest generalizing prev with
  | nil => simp [runGaps]
  | cons next rest ih =>
    obtain ⟨-, hcontinues, hrun⟩ := hrun
    obtain ⟨hnext, hothers⟩ := forall_mem_cons.mp hrest
    obtain ⟨⟨x, hx⟩, -⟩ := hprev.numbers
    obtain ⟨⟨y, hy⟩, -⟩ := hnext.numbers
    have hgap : (Integral.sub R next.time prev.time).isSafe = true := by
      simp only [continues, Bool.and_eq_true] at hcontinues
      exact hcontinues.1.1.1.1.2
    have hxSafe := hprev.read.time
    have hySafe := hnext.read.time
    simp only [runGaps, map_cons, forall_mem_cons]
    refine ⟨?_, ih hrun hnext hothers⟩
    rw [hx, hy] at hgap ⊢
    rw [hx] at hxSafe
    rw [hy] at hySafe
    exact ⟨y - x, (add_sub_of_isSafe hxSafe hySafe hgap).1⟩

structure LosslessRow (row : ChunkRow) : Prop where
  proper : row.shape.Proper
  turn : row.shape.turn.isLossless = true
  step : row.shape.step.isLossless = true
  index : row.shape.index.isLossless = true
  time0 : ∃ z, row.time0 = .int z
  gaps : ∀ gap ∈ row.gaps, ∃ z, gap = .int z

theorem losslessRow_buildRow {first : DeltaEvent} (hrun : IsRun R first rest)
    (hmembers : ∀ delta ∈ first :: rest, Member delta) : LosslessRow (buildRow R first rest) := by
  obtain ⟨hfirst, hrest⟩ := forall_mem_cons.mp hmembers
  obtain ⟨htime, hturn, hstep, hindex⟩ := hfirst.numbers
  exact ⟨hfirst.read.proper, hturn, hstep, hindex, htime, runGaps_int hrun hfirst hrest⟩

theorem isLossless_gaps {gaps : List Integral} (h : ∀ gap ∈ gaps, ∃ z, gap = .int z) :
    Json.itemsLossless (gaps.map fun gap => .num (.integral gap)) = true := by
  rw [Json.itemsLossless_iff]
  intro item hitem
  obtain ⟨gap, hgap, rfl⟩ := mem_map.mp hitem
  obtain ⟨z, rfl⟩ := h gap hgap
  rfl

theorem isLossless_strings (texts : List String) : Json.itemsLossless (texts.map .str) = true := by
  rw [Json.itemsLossless_iff]
  intro item hitem
  obtain ⟨text, -, rfl⟩ := mem_map.mp hitem
  rfl

variable {row : ChunkRow}

theorem LosslessRow.dataJson (h : LosslessRow row) :
    row.dataJson.isLossless = true ∧ row.dataJson.WellFormed := by
  have hgaps := isLossless_gaps h.gaps
  have htexts := isLossless_strings row.texts
  have hgapsWellFormed : Json.ItemsWellFormed (row.gaps.map fun gap => .num (.integral gap)) := by
    rw [Json.itemsWellFormed_iff]
    intro item hitem
    obtain ⟨gap, -, rfl⟩ := mem_map.mp hitem
    trivial
  have htextsWellFormed : Json.ItemsWellFormed (row.texts.map .str) := by
    rw [Json.itemsWellFormed_iff]
    intro item hitem
    obtain ⟨text, -, rfl⟩ := mem_map.mp hitem
    trivial
  rcases dataJson_cases h.proper with ⟨-, -, hdata⟩ | ⟨-, id, name, -, hdata⟩
  · rw [hdata]
    simp [Json.isLossless, Json.fieldsLossless, h.turn, h.step, h.index, hgaps, htexts,
      Json.WellFormed, Json.FieldsWellFormed, hgapsWellFormed, htextsWellFormed, -map_map]
  · rw [hdata]
    cases name with
    | none =>
      simp [Json.isLossless, Json.fieldsLossless, h.turn, h.step, h.index, hgaps, htexts, Session.optional,
        Json.WellFormed, Json.FieldsWellFormed, hgapsWellFormed, htextsWellFormed, -map_map]
    | some name =>
      simp [Json.isLossless, Json.fieldsLossless, h.turn, h.step, h.index, hgaps, htexts, Session.optional,
        Json.WellFormed, Json.FieldsWellFormed, hgapsWellFormed, htextsWellFormed, -map_map]

theorem LosslessRow.toJson (h : LosslessRow row) :
    row.toJson.isLossless = true ∧ row.toJson.WellFormed := by
  obtain ⟨hlossless, hwellFormed⟩ := h.dataJson
  obtain ⟨z, hz⟩ := h.time0
  constructor
  · simp [ChunkRow.toJson, Json.isLossless, Json.fieldsLossless, Json.ofNat, Number.ofNat,
      Number.isLossless, hz, hlossless]
  · simp [ChunkRow.toJson, Json.WellFormed, Json.FieldsWellFormed, Json.ofNat, hwellFormed]

theorem mem_packChunkRuns {events : List Json} (h : ∀ event ∈ events, Storable event) :
    ∀ record ∈ packChunkRuns R events, (∃ event ∈ events, record = .event event) ∨
      ∃ row, record = .row row ∧ LosslessRow row := by
  refine @packLoop_induction R (fun records events => ∀ record ∈ records,
    (∃ event ∈ events, record = .event event) ∨ ∃ row, record = .row row ∧ LosslessRow row)
    ?_ ?_ ?_ events [] trivial (by simp) (by simp) h
  · intro records records' events events' hrecords hrecords' record hrecord
    rcases mem_append.mp hrecord with hmem | hmem
    · rcases hrecords record hmem with ⟨event, hevent, rfl⟩ | hrow
      · exact Or.inl ⟨event, mem_append_left _ hevent, rfl⟩
      · exact Or.inr hrow
    · rcases hrecords' record hmem with ⟨event, hevent, rfl⟩ | hrow
      · exact Or.inl ⟨event, mem_append_right _ hevent, rfl⟩
      · exact Or.inr hrow
  · intro event _ record hrecord
    rw [mem_singleton] at hrecord
    exact Or.inl ⟨event, mem_singleton_self event, hrecord⟩
  · intro run hrun hmembers _ record hrecord
    cases run with
    | nil => simp [flushRun] at hrecord
    | cons first rest =>
      rw [flushRun] at hrecord
      split at hrecord
      · rw [mem_singleton] at hrecord
        exact Or.inr ⟨_, hrecord, losslessRow_buildRow hrun hmembers⟩
      · obtain ⟨delta, hdelta, rfl⟩ := mem_map.mp hrecord
        exact Or.inl ⟨delta.event, mem_map_of_mem hdelta, rfl⟩

end Rows

section Provenance

/-- What a log holds at a position: a storable event with that seq, whose sources, if any,
are at most as many seqs. -/
structure StoredEvent (seq : Nat) (event : Json) : Prop where
  storable : Storable event
  seq_eq : event.get? "seq" = some (.ofNat seq)
  sources : ∀ value, event.get? "sourceEventSeqs" = some value →
    ∃ seqs : List Nat, value = .arr (seqs.map .ofNat) ∧ (∀ source ∈ seqs, source ≤ maxSafeInteger) ∧
      seqs.length ≤ seq

variable {event : Json} {seq : Nat}

theorem StoredEvent.seq_le (h : StoredEvent seq event) : seq ≤ maxSafeInteger := by
  obtain ⟨n, hn, hget⟩ := h.storable.seq
  have heq := hget.symm.trans h.seq_eq
  simp only [Option.some.injEq, Json.ofNat, Json.num.injEq, Number.ofNat, Number.integral.injEq,
    Integral.int.injEq] at heq
  omega

/-- The events are at the positions from `seq` on. -/
def Contiguous : Nat → List Json → Prop
  | _, [] => True
  | seq, event :: rest => StoredEvent seq event ∧ Contiguous (seq + 1) rest

theorem contiguous_append {events more : List Json} :
    Contiguous seq (events ++ more) ↔ Contiguous seq events ∧ Contiguous (seq + events.length) more := by
  induction events generalizing seq with
  | nil => simp [Contiguous]
  | cons event rest ih =>
    have hlength : seq + 1 + rest.length = seq + (rest.length + 1) := by omega
    simp only [cons_append, Contiguous, ih, length_cons, and_assoc, hlength]

theorem exists_storedEvent {events : List Json} (h : Contiguous seq events)
    (hmem : event ∈ events) : ∃ position, StoredEvent position event := by
  induction events generalizing seq with
  | nil => simp at hmem
  | cons first rest ih =>
    rcases mem_cons.mp hmem with rfl | hrest
    · exact ⟨seq, h.1⟩
    · exact ih h.2 hrest

variable {seqs : List Nat} {record value : Json} {fields : List (String × Json)} {key : String}

theorem asSeqs_ofNat (h : ∀ seq ∈ seqs, seq ≤ maxSafeInteger) :
    asSeqs (.arr (seqs.map .ofNat)) = some seqs := by
  have hitems : (seqs.map Json.ofNat).mapM isEventSeq = some seqs := by
    induction seqs with
    | nil => rfl
    | cons seq rest ih =>
      obtain ⟨hseq, hrest⟩ := forall_mem_cons.mp h
      simp [mapM_cons, isEventSeq_ofNat hseq, ih hrest]
  simp [asSeqs, Json.asArray, hitems]

theorem lookup_replace (other : String) :
    (fields.map fun field => if field.1 = key then (key, value) else field).lookup other =
      if other = key then (fields.lookup key).map fun _ => value else fields.lookup other := by
  induction fields with
  | nil => simp
  | cons field rest ih =>
    obtain ⟨name, old⟩ := field
    by_cases hname : name = key
    · subst hname
      by_cases hother : other = name
      · simp [hother]
      · simp [lookup_cons, hother, beq_false_of_ne hother, ih]
    · by_cases hother : other = key
      · subst hother
        have hne : (other == name) = false := beq_false_of_ne (Ne.symm hname)
        simp [lookup_cons, hname, hne, ih]
      · simp [lookup_cons, hname, hother, ih]

theorem replaceField_replaceField {old : Json}
    (hwellFormed : record.WellFormed) (hold : record.get? key = some old) :
    replaceField (replaceField record key value) key old = record := by
  cases record with
  | obj fields =>
    simp only [replaceField, map_map]
    congr 1
    have hlookup : ∀ field ∈ fields, field.1 = key → field = (key, old) := by
      intro field hfield hname
      have hfound := Lib.lookup_eq_some_of_mem hwellFormed.1 hfield
      rw [hname] at hfound
      have hsame : some field.2 = some old := hfound.symm.trans hold
      obtain ⟨name, found⟩ := field
      cases hname
      cases hsame
      rfl
    refine (map_congr_left ?_).trans (map_id _)
    intro field hfield
    by_cases hname : field.1 = key
    · simp [hlookup field hfield hname]
    · simp [hname]
  | _ => simp [Json.get?] at hold

structure ReadsBack (record : Json) : Prop where
  expand : expandProvenanceFromStorage (encodeProvenanceForStorage record) = .ok record
  wellFormed : (encodeProvenanceForStorage record).WellFormed
  lossless : (encodeProvenanceForStorage record).isLossless = true

theorem encodeProvenanceForStorage_eq_self
    (h : record.get? "sourceEventSeqs" = none) : encodeProvenanceForStorage record = record := by
  simp [encodeProvenanceForStorage, h]

theorem readsBack_of_none
    (h : (Json.obj fields).get? "sourceEventSeqs" = none) (hwellFormed : (Json.obj fields).WellFormed)
    (hlossless : (Json.obj fields).isLossless = true) : ReadsBack (.obj fields) := by
  have hencode := encodeProvenanceForStorage_eq_self h
  refine ⟨?_, by rwa [hencode], by rwa [hencode]⟩
  rw [hencode]
  simp only [expandProvenanceFromStorage, h]

theorem get?_replaceField (other : String) :
    (replaceField record key value).get? other =
      if other = key then (record.get? key).map fun _ => value else record.get? other := by
  cases record with
  | obj fields => exact lookup_replace other
  | _ => simp [replaceField, Json.get?]

theorem map_fst_replace (fields : List (String × Json)) (key : String) (value : Json) :
    (fields.map fun field => if field.1 = key then (key, value) else field).map Prod.fst =
      fields.map Prod.fst := by
  rw [map_map]
  apply map_congr_left
  intro field _
  by_cases h : field.1 = key
  · simp [h]
  · simp [h]

theorem wellFormed_replaceField (hrecord : record.WellFormed)
    (hvalue : value.WellFormed) : (replaceField record key value).WellFormed := by
  cases record with
  | obj fields =>
    refine ⟨by rw [map_fst_replace]; exact hrecord.1, ?_⟩
    rw [Json.fieldsWellFormed_iff]
    intro field hfield
    obtain ⟨old, hold, rfl⟩ := mem_map.mp hfield
    split
    · exact hvalue
    · exact Json.fieldsWellFormed_iff.mp hrecord.2 old hold
  | _ => exact hrecord

theorem isLossless_replaceField
    (hrecord : record.isLossless = true) (hvalue : value.isLossless = true) :
    (replaceField record key value).isLossless = true := by
  cases record with
  | obj fields =>
    show Json.fieldsLossless _ = true
    rw [Json.fieldsLossless_iff]
    intro field hfield
    obtain ⟨old, hold, rfl⟩ := mem_map.mp hfield
    split
    · exact hvalue
    · exact Json.fieldsLossless_iff.mp hrecord old hold
  | _ => exact hrecord

theorem lossless_encodedSeq (entry : EncodedSeq) :
    entry.toJson.isLossless = true ∧ entry.toJson.WellFormed := by
  cases entry with
  | single seq => exact ⟨rfl, trivial⟩
  | range first last => exact ⟨rfl, trivial, trivial, trivial⟩

theorem expandProvenanceFromStorage_obj {stored : Json} (hseq : seq ≤ maxSafeInteger)
    (hseqGet : (Json.obj fields).get? "seq" = some (.ofNat seq))
    (hstored : (Json.obj fields).get? "sourceEventSeqs" = some stored)
    (hdecode : decodeSeqRanges stored seq = .ok seqs) :
    expandProvenanceFromStorage (.obj fields) =
      .ok (replaceField (.obj fields) "sourceEventSeqs" (.arr (seqs.map .ofNat))) := by
  have hread : asSafeInteger (.ofNat seq) = some (.int seq) := by
    apply asSafeInteger_num
    rw [Integral.isSafe_iff]
    exact hseq
  have hnonneg : ¬ (seq : Int) < 0 := by omega
  simp only [expandProvenanceFromStorage, hstored, hseqGet, Option.bind_some, hread,
    Integral.toInt_int, hnonneg, if_false, Int.toNat_natCast, hdecode]

theorem StoredEvent.readsBack (h : StoredEvent seq event) : ReadsBack event := by
  have hwellFormed := h.storable.wellFormed
  have hlossless := h.storable.lossless
  cases event with
  | obj fields =>
    cases hsources : (Json.obj fields).get? "sourceEventSeqs" with
    | none => exact readsBack_of_none hsources hwellFormed hlossless
    | some value =>
      obtain ⟨seqs, rfl, hsafe, hroom⟩ := h.sources value hsources
      have hseq := h.seq_eq
      have hencode : encodeProvenanceForStorage (.obj fields) =
          replaceField (.obj fields) "sourceEventSeqs"
            (.arr ((encodeSeqRanges seqs).map EncodedSeq.toJson)) := by
        simp [encodeProvenanceForStorage, hsources, asSeqs_ofNat hsafe]
      have hseqGet := @get?_replaceField (.obj fields)
        (.arr ((encodeSeqRanges seqs).map EncodedSeq.toJson)) "sourceEventSeqs" "seq"
      rw [if_neg (by decide), hseq] at hseqGet
      have hsourcesGet := @get?_replaceField (.obj fields)
        (.arr ((encodeSeqRanges seqs).map EncodedSeq.toJson)) "sourceEventSeqs" "sourceEventSeqs"
      rw [if_pos rfl, hsources, Option.map_some] at hsourcesGet
      refine ⟨?_, ?_, ?_⟩
      · have hexpand := expandProvenanceFromStorage_obj h.seq_le hseqGet hsourcesGet
          (decodeSeqRanges_encodeSeqRanges hsafe hroom)
        rw [hencode]
        refine hexpand.trans ?_
        congr 1
        exact replaceField_replaceField hwellFormed hsources
      · rw [hencode]
        apply wellFormed_replaceField hwellFormed
        show Json.ItemsWellFormed _
        rw [Json.itemsWellFormed_iff]
        intro item hitem
        obtain ⟨entry, -, rfl⟩ := mem_map.mp hitem
        exact (lossless_encodedSeq entry).2
      · rw [hencode]
        apply isLossless_replaceField hlossless
        show Json.itemsLossless _ = true
        rw [Json.itemsLossless_iff]
        intro item hitem
        obtain ⟨entry, -, rfl⟩ := mem_map.mp hitem
        exact (lossless_encodedSeq entry).1
  | _ => exact absurd h.seq_eq (by simp [Json.get?])

end Provenance

section Batches

variable {R : Rounding} {text : JsonText}

theorem LosslessRow.readsBack {row : ChunkRow} (h : LosslessRow row) : ReadsBack row.toJson := by
  obtain ⟨hlossless, hwellFormed⟩ := h.toJson
  exact readsBack_of_none (by simp [Json.get?, lookup_cons]) hwellFormed hlossless

variable {events : List Json} {seq : Nat} {batches : List (Bool × List Json)}

theorem readsBack_batchRecords {packChunks : Bool}
    (h : Contiguous seq events) : ∀ record ∈ batchRecords R packChunks events, ReadsBack record := by
  intro record hrecord
  unfold batchRecords at hrecord
  split at hrecord
  · obtain ⟨packed, hpacked, rfl⟩ := mem_map.mp hrecord
    have hstorable : ∀ event ∈ events, Storable event := by
      intro event hevent
      obtain ⟨position, hposition⟩ := exists_storedEvent h hevent
      exact hposition.storable
    rcases mem_packChunkRuns hstorable packed hpacked with ⟨event, hevent, rfl⟩ | ⟨row, rfl, hrow⟩
    · obtain ⟨position, hposition⟩ := exists_storedEvent h hevent
      exact hposition.readsBack
    · exact hrow.readsBack
  · obtain ⟨position, hposition⟩ := exists_storedEvent h hrecord
    exact hposition.readsBack

theorem decodeLine_stringify {record : Json} (h : ReadsBack record)
    (hcarries : text.Carries (encodeProvenanceForStorage record))
    (hdecode : decodeStorageRecord R record = .ok events) :
    decodeLine text R (text.stringify (encodeProvenanceForStorage record)) = some events := by
  simp only [decodeLine, hcarries.1, h.expand, hdecode]

def logRecords (R : Rounding) (batches : List (Bool × List Json)) : List Json :=
  batches.flatMap fun batch => batchRecords R batch.1 batch.2

def loggedEvents (batches : List (Bool × List Json)) : List Json := batches.flatMap Prod.snd

def lineOf (text : JsonText) (record : Json) : List UInt8 :=
  text.stringify (encodeProvenanceForStorage record)

theorem readsBack_logRecords
    (h : Contiguous seq (loggedEvents batches)) :
    ∀ record ∈ logRecords R batches, ReadsBack record := by
  induction batches generalizing seq with
  | nil => simp [logRecords]
  | cons batch rest ih =>
    rw [loggedEvents, flatMap_cons, contiguous_append] at h
    intro record hrecord
    rw [logRecords, flatMap_cons, mem_append] at hrecord
    rcases hrecord with hbatch | hrest
    · exact readsBack_batchRecords h.1 record hbatch
    · exact ih h.2 record hrest

def Restores (R : Rounding) (records events : List Json) : Prop :=
  ∃ decoded, decodeRecords R records = .ok decoded ∧ (∀ event ∈ decoded, event.WellFormed) ∧
    Json.Same (.arr decoded) (.arr events)

theorem restores_batchRecords {packChunks : Bool} {seq : Nat} {events : List Json}
    (h : Contiguous seq events) : Restores R (batchRecords R packChunks events) events := by
  have hstorable : ∀ event ∈ events, Storable event := by
    intro event hevent
    obtain ⟨position, hposition⟩ := exists_storedEvent h hevent
    exact hposition.storable
  unfold batchRecords
  split
  · exact decodes_packChunkRuns hstorable
  · have hdecodes := @decodes_events R events hstorable
    simpa [Decodes, Restores, map_map, Function.comp_def, StorageRecord.toJson] using hdecodes

theorem Restores.append {records records' events' : List Json}
    (h : Restores R records events) (h' : Restores R records' events') :
    Restores R (records ++ records') (events ++ events') := by
  obtain ⟨decoded, hdecoded, hwellFormed, hsame⟩ := h
  obtain ⟨decoded', hdecoded', hwellFormed', hsame'⟩ := h'
  exact ⟨decoded ++ decoded', decodeRecords_append hdecoded hdecoded',
    forall_mem_append.mpr ⟨hwellFormed, hwellFormed'⟩, itemsEqualBy_append hsame hsame'⟩

theorem restores_logRecords {seq : Nat} {batches : List (Bool × List Json)}
    (h : Contiguous seq (loggedEvents batches)) :
    Restores R (logRecords R batches) (loggedEvents batches) := by
  induction batches generalizing seq with
  | nil => exact ⟨[], rfl, by simp, rfl⟩
  | cons batch rest ih =>
    rw [loggedEvents, flatMap_cons, contiguous_append] at h
    exact (restores_batchRecords h.1).append (ih h.2)

theorem batchRecords_ne_nil {packChunks : Bool} {seq : Nat} {events : List Json}
    (h : Contiguous seq events) (hne : events ≠ []) : batchRecords R packChunks events ≠ [] := by
  intro hnil
  obtain ⟨decoded, hdecoded, -, hsame⟩ := @restores_batchRecords R packChunks seq events h
  rw [hnil] at hdecoded
  cases hdecoded
  cases events with
  | nil => exact hne rfl
  | cons event rest => simp [Json.Same, Json.equalBy, Json.itemsEqualBy] at hsame

theorem batchesBytes_eq
    (h : Contiguous seq (loggedEvents batches)) :
    batchesBytes text R batches = Lib.frame 0x0A ((logRecords R batches).map (lineOf text)) := by
  induction batches generalizing seq with
  | nil => rfl
  | cons batch rest ih =>
    rw [loggedEvents, flatMap_cons, contiguous_append] at h
    rw [batchesBytes, flatMap_cons, logRecords, flatMap_cons, map_append,
      Lib.frame_append]
    have hrest := ih h.2
    rw [batchesBytes, logRecords] at hrest
    rw [hrest]
    congr 1
    split
    · rename_i hempty
      rw [hempty]
      simp [batchRecords, packChunkRuns, packLoop, flushRun]
    · rename_i hne
      have hrecords := @batchRecords_ne_nil R batch.1 seq batch.2 h.1 hne
      apply Lib.intercalate_append_separator
      simpa using hrecords

end Batches

end DshKernel.Jsonl
