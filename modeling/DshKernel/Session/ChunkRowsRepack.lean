import DshKernel.Session.ChunkRowsRoundTrip

/-!
# Rows pack again

The members of an accepted row pack into that row, unless the row holds a number that
packing never writes.
-/

namespace DshKernel.Session

open Js List ChunkRow

section Repack

variable {R : Rounding}

variable {items : List Json} {row : ChunkRow} {shape : RunShape}

theorem eq_map_of_mapM_asString {texts : List String}
    (h : items.mapM Json.asString = some texts) : items = texts.map .str := by
  induction items generalizing texts with
  | nil =>
    cases h
    rfl
  | cons item rest ih =>
    rw [mapM_cons] at h
    obtain ⟨text, htext, h⟩ := Option.bind_eq_some_iff.mp h
    obtain ⟨others, hothers, h⟩ := Option.bind_eq_some_iff.mp h
    cases h
    have hitem : some item = some (.str text) :=
      asString_eq_some (by simpa using htext)
    rw [ih hothers, Option.some.inj hitem, map_cons]

theorem eq_map_of_mapM_asSafeInteger {gaps : List Integral}
    (h : items.mapM asSafeInteger = some gaps) :
    items = gaps.map (fun gap => .num (.integral gap)) ∧ ∀ gap ∈ gaps, gap.isSafe = true := by
  induction items generalizing gaps with
  | nil =>
    cases h
    exact ⟨rfl, by simp⟩
  | cons item rest ih =>
    rw [mapM_cons] at h
    obtain ⟨gap, hgap, h⟩ := Option.bind_eq_some_iff.mp h
    obtain ⟨others, hothers, h⟩ := Option.bind_eq_some_iff.mp h
    cases h
    obtain ⟨hitem, hsafe⟩ := asSafeInteger_eq_some hgap
    obtain ⟨hrest, hrestSafe⟩ := ih hothers
    exact ⟨by rw [hrest, hitem, map_cons], forall_mem_cons.mpr ⟨hsafe, hrestSafe⟩⟩

theorem asArray_eq_some {value : Option Json}
    (h : value.bind Json.asArray = some items) : value = some (.arr items) := by
  cases value with
  | none => simp at h
  | some value =>
    cases value with
    | arr other => simpa [Json.asArray] using h
    | _ => simp [Json.asArray] at h

structure RunData (data : Json) (payloadKey : String) (turn step index : Number)
    (first : String) (rest : List (Integral × String)) : Prop where
  turn : data.get? "turn" = some (.num turn)
  step : data.get? "step" = some (.num step)
  index : data.get? "index" = some (.num index)
  dt : data.get? "dt" = some (.arr (rest.map fun member => .num (.integral member.1)))
  payload : data.get? payloadKey = some (.arr ((first :: rest.map Prod.snd).map .str))
  gaps : ∀ gap ∈ rest.map Prod.fst, gap.isSafe = true

theorem runData_of_validateRunData {tag payloadKey first : String} {data : Json}
    {turn step index : Number} {rest : List (Integral × String)}
    (h : validateRunData tag data payloadKey = .ok ((turn, step, index), first, rest)) :
    RunData data payloadKey turn step index first rest := by
  unfold validateRunData at h
  split at h
  · rename_i turn' step' index' hturn hstep hindex
    split at h
    · rename_i first' texts hpayload
      split at h
      · cases h
      · rename_i gaps hdt
        split at h
        · cases h
        · rename_i hlength
          have hlength := Decidable.of_not_not hlength
          obtain ⟨payload, hpayloadGet, hpayload⟩ := Option.bind_eq_some_iff.mp hpayload
          obtain ⟨dt, hdtGet, hdt⟩ := Option.bind_eq_some_iff.mp hdt
          obtain ⟨hdtEq, hgaps⟩ := eq_map_of_mapM_asSafeInteger hdt
          have hpayloadEq := eq_map_of_mapM_asString hpayload
          cases h
          have hfst : (gaps.zip texts).map Prod.fst = gaps :=
            map_fst_zip (Nat.le_of_eq hlength)
          have hsnd : (gaps.zip texts).map Prod.snd = texts :=
            map_snd_zip (Nat.le_of_eq hlength.symm)
          refine ⟨hturn, hstep, hindex, ?_, ?_, by rwa [hfst]⟩
          · rw [asArray_eq_some hdtGet, hdtEq, ← hfst, map_map]
            simp [hfst]
          · rw [asArray_eq_some hpayloadGet, hpayloadEq, hsnd]
    · cases h
  · cases h

theorem same_arr_map {α : Type} (items : List α) {f : α → Json} (h : ∀ item, Json.Same (f item) (f item)) :
    Json.Same (.arr (items.map f)) (.arr (items.map f)) := by
  induction items with
  | nil => rfl
  | cons item rest ih =>
    have hitem : Json.equalBy (· == ·) (f item) (f item) = true := h item
    simp only [Json.Same, Json.equalBy, map_cons, Json.itemsEqualBy, Bool.and_eq_true] at ih ⊢
    exact ⟨hitem, ih⟩

theorem same_dataJson {kind : DeltaKind} {data : Json} {call : Option ToolCallIdentity}
    {turn step index : Number} {first : String} {rest : List (Integral × String)} {seq0 : Nat}
    {time0 : Integral} (hcall : validateRowCall kind.rowType kind data = .ok call)
    (hdata : RunData data (if kind = .toolCallDelta then "args" else "texts") turn step index first rest) :
    (RunShape.mk kind turn step index call).Proper ∧
      Json.Same (mk ⟨kind, turn, step, index, call⟩ seq0 time0 first rest).dataJson data := by
  have hdt : Json.Same (.arr (rest.map fun member => .num (.integral member.1)))
      (.arr (rest.map fun member => .num (.integral member.1))) :=
    same_arr_map rest fun member => same_num _
  have hpayload : Json.Same (.arr ((first :: rest.map Prod.snd).map .str))
      (.arr ((first :: rest.map Prod.snd).map .str)) :=
    same_arr_map _ same_str
  have hdtEq : (rest.map fun member => Json.num (.integral member.1)) =
      (rest.map Prod.fst).map fun gap => Json.num (.integral gap) := by
    rw [map_map]
    rfl
  rw [hdtEq] at hdt
  have hdtGet := hdata.dt
  rw [hdtEq] at hdtGet
  have hpayloadGet := hdata.payload
  by_cases hkind : kind = .toolCallDelta
  · subst hkind
    rw [if_pos rfl] at hpayloadGet
    simp only [validateRowCall] at hcall
    split at hcall
    · cases hcall
    · rename_i hkeys
      simp only [Bool.and_eq_true, Bool.not_eq_true', not_and, Bool.not_eq_false] at hkeys
      split at hcall
      · rename_i id name hid hname
        cases hcall
        have hexact : hasExactKeys data ["turn", "step", "index", "id", "name", "dt", "args"] = true := by
          apply Decidable.of_not_not
          intro hnot
          have hmem := mem_of_hasExactKeys (hkeys (by simpa using hnot)) (by decide) hname
          simp at hmem
        refine ⟨by simp [RunShape.Proper], same_obj_of_hasExactKeys ?_ (by simp) ?_⟩
        · rw [← hexact]
          have hperm : ["turn", "step", "index", "dt", "id", "name", "args"].Perm
            ["turn", "step", "index", "id", "name", "dt", "args"] := by decide
          exact hasExactKeys_perm hperm
        · simp [-map_map, -map_cons, optional, hdata.turn, hdata.step, hdata.index, hdtGet,
            hid, hname, hpayloadGet, same_num, same_str, hdt, hpayload, gaps, texts]
      · rename_i id hid hname
        cases hcall
        have hexact : hasExactKeys data ["turn", "step", "index", "id", "dt", "args"] = true := by
          apply hkeys
          cases hwith : hasExactKeys data ["turn", "step", "index", "id", "name", "dt", "args"] with
          | false => rfl
          | true =>
            simp [hasExactKeys, hasOwn, hname] at hwith
        refine ⟨by simp [RunShape.Proper], same_obj_of_hasExactKeys ?_ (by simp) ?_⟩
        · rw [← hexact]
          have hperm : ["turn", "step", "index", "dt", "id", "args"].Perm
            ["turn", "step", "index", "id", "dt", "args"] := by decide
          exact hasExactKeys_perm hperm
        · simp [-map_map, -map_cons, optional, hdata.turn, hdata.step, hdata.index, hdtGet,
            hid, hpayloadGet, same_num, same_str, hdt, hpayload, gaps, texts]
      · cases hcall
  · rw [if_neg hkind] at hpayloadGet
    unfold validateRowCall at hcall
    split at hcall
    · exact absurd rfl hkind
    split at hcall
    · cases hcall
    rename_i hkeys
    cases hcall
    have hkeys : hasExactKeys data ["turn", "step", "index", "dt", "texts"] = true := by
      simpa using hkeys
    refine ⟨by simpa [RunShape.Proper] using hkind, same_obj_of_hasExactKeys hkeys (by simp) ?_⟩
    simp [-map_map, -map_cons, hdata.turn, hdata.step, hdata.index, hdtGet, hpayloadGet,
      same_num, hdt, hpayload, gaps, texts]

theorem validateRow_sound {value : Json} {kind : DeltaKind}
    (htype : value.get? "type" = some (.str kind.rowType)) (h : validateRow R value kind = .ok row) :
    row.Valid R ∧ row.shape.kind = kind ∧ Json.Same row.toJson value := by
  unfold validateRow at h
  dsimp only at h
  split at h
  · cases h
  rename_i hkeys
  split at h
  · cases h
  rename_i seq0 hseq
  split at h
  · cases h
  rename_i time0 htime
  split at h
  · cases h
  rename_i data hdata
  split at h
  · cases h
  rename_i call hcall
  split at h
  · cases h
  rename_i turn step index first rest hrun
  split at h
  · cases h
  rename_i hroom
  split at h
  · cases h
  rename_i htimes
  cases h
  have hread := runData_of_validateRunData hrun
  obtain ⟨hproper, hsame⟩ := @same_dataJson kind data call turn step index first rest seq0 time0
    hcall hread
  obtain ⟨seqValue, hseqGet, hseqRead⟩ := Option.bind_eq_some_iff.mp hseq
  obtain ⟨timeValue, htimeGet, htimeRead⟩ := Option.bind_eq_some_iff.mp htime
  obtain ⟨rfl, -⟩ := isEventSeq_eq_some hseqRead
  obtain ⟨rfl, htimeSafe⟩ := asSafeInteger_eq_some htimeRead
  have hdataGet : value.get? "data" = some data := (Option.filter_eq_some_iff.mp hdata).1
  refine ⟨⟨hproper, ?_, htimeSafe, hread.gaps, ?_⟩, rfl, ?_⟩
  · exact Nat.le_of_not_lt hroom
  · simpa [gaps] using htimes
  · refine same_obj_of_hasExactKeys (by simpa using hkeys) (by simp) ?_
    simp [htype, hseqGet, htimeGet, hdataGet, same_num, same_str, hsame, Json.ofNat]

/-- A row of numbers that packing writes: it never writes a gap of `-0`, and never packs
members whose place is not a number. -/
structure ChunkRow.Canonical (row : ChunkRow) : Prop where
  turn : row.shape.turn ≠ .nan
  step : row.shape.step ≠ .nan
  index : row.shape.index ≠ .nan
  gaps : .negZero ∉ row.gaps

theorem classifyChunk_chunkJson (h : shape.Proper) (text : String) :
    (chunkJson shape text).get? "index" = some (.num shape.index) ∧
      classifyChunk (chunkJson shape text) = some (shape.kind, shape.call, text) := by
  unfold RunShape.Proper at h
  cases hcall : shape.call with
  | none =>
    cases hkind : shape.kind with
    | toolCallDelta => simp [hcall, hkind] at h
    | textDelta =>
      simp [chunkJson, hcall, hkind, Json.get?, classifyChunk, DeltaKind.chunkType, lookup_cons,
        hasExactKeys, hasOwn, Json.keys]
    | reasoningDelta =>
      simp [chunkJson, hcall, hkind, Json.get?, classifyChunk, DeltaKind.chunkType, lookup_cons,
        hasExactKeys, hasOwn, Json.keys]
  | some call =>
    have hkind : shape.kind = .toolCallDelta := h.mp (by simp [hcall])
    obtain ⟨id, name⟩ := call
    cases name with
    | none =>
      simp [chunkJson, hcall, hkind, Json.get?, classifyChunk, DeltaKind.chunkType, lookup_cons,
        hasExactKeys, hasOwn, Json.keys, optional]
    | some name =>
      simp [chunkJson, hcall, hkind, Json.get?, classifyChunk, DeltaKind.chunkType, lookup_cons,
        hasExactKeys, hasOwn, Json.keys, optional]

def memberDelta (shape : RunShape) (seq : Nat) (time : Integral) (text : String) : DeltaEvent :=
  ⟨memberEvent shape seq time text, shape, seq, time, text⟩

theorem classify_memberEvent {seq : Nat} {time : Integral} (h : shape.Proper)
    (hseq : seq ≤ maxSafeInteger) (htime : time.isSafe = true) (text : String) :
    classify (memberEvent shape seq time text) = some (memberDelta shape seq time text) := by
  obtain ⟨hindex, hchunk⟩ := classifyChunk_chunkJson h text
  have hkeys : hasExactKeys (memberEvent shape seq time text) ["type", "seq", "time", "data"] = true := by
    simp [memberEvent, hasExactKeys, hasOwn, Json.keys, Json.get?, lookup_cons]
  have htypeGet : (memberEvent shape seq time text).get? "type" = some (.str "assistant/chunk") := rfl
  have hseqGet : (memberEvent shape seq time text).get? "seq" = some (.ofNat seq) := rfl
  have htimeGet : (memberEvent shape seq time text).get? "time" = some (.num (.integral time)) := rfl
  have hdataGet : (memberEvent shape seq time text).get? "data" = some (memberData shape text) := rfl
  have hdataKeys : hasExactKeys (memberData shape text) ["turn", "step", "chunk"] = true := by
    simp [memberData, hasExactKeys, hasOwn, Json.keys, Json.get?, lookup_cons]
  have hturnGet : (memberData shape text).get? "turn" = some (.num shape.turn) := rfl
  have hstepGet : (memberData shape text).get? "step" = some (.num shape.step) := rfl
  have hchunkGet : (memberData shape text).get? "chunk" = some (chunkJson shape text) := rfl
  have hobject : (memberData shape text).isObject = true := rfl
  simp [classify, hkeys, htypeGet, hseqGet, htimeGet, hdataGet, Json.asString, isEventSeq_ofNat hseq,
    asSafeInteger_num htime, hdataKeys, hobject, hturnGet, hstepGet, hchunkGet, hindex, hchunk,
    memberDelta]

/-- Going over a gap and back is exact, unless the gap is `-0`. -/
theorem sub_add_of_isSafe {time gap : Integral} (htime : time.isSafe = true)
    (hgap : gap.isSafe = true) (hne : gap ≠ .negZero) (hnext : (Integral.add R time gap).isSafe = true) :
    Integral.sub R (Integral.add R time gap) time = gap := by
  have hroom := (Integral.isSafe_add_iff R htime hgap).mp hnext
  rw [Integral.isSafe_iff] at hgap
  cases gap with
  | negZero => exact absurd rfl hne
  | int g =>
    simp only [Integral.toInt_int] at hroom hgap
    cases time with
    | negZero =>
      simp only [Integral.add, Integral.sub, Integral.neg]
      rw [R.exact _ (by omega), Int.add_zero]
    | int x =>
      simp only [Integral.toInt_int] at hroom
      by_cases hzero : x = 0
      · subst hzero
        simp only [Integral.add, Integral.sub, Integral.neg, if_true]
        rw [R.exact _ (by omega), Int.zero_add]
      · simp only [Integral.add, Integral.sub, Integral.neg, hzero, if_false]
        rw [R.exact (x + g) (by omega), R.exact _ (by omega)]
        congr 1
        omega

/-- The members after the one at `seq` and `time`. -/
def restDeltas (R : Rounding) (shape : RunShape) :
    Nat → Integral → List (Integral × String) → List DeltaEvent
  | _, _, [] => []
  | seq, time, (gap, text) :: rest =>
    memberDelta shape (seq + 1) (Integral.add R time gap) text ::
      restDeltas R shape (seq + 1) (Integral.add R time gap) rest

/-- Where the members after the one at `seq` and `time` can be packed. -/
structure Packable (R : Rounding) (seq : Nat) (time : Integral) (rest : List (Integral × String)) :
    Prop where
  seqs : seq + rest.length ≤ maxSafeInteger
  safe : time.isSafe = true
  gaps : ∀ gap ∈ rest.map Prod.fst, gap.isSafe = true ∧ gap ≠ .negZero
  times : timesStaySafe R time (rest.map Prod.fst) = true

theorem Packable.head {seq : Nat} {time gap : Integral} {text : String}
    {rest : List (Integral × String)} (h : Packable R seq time ((gap, text) :: rest)) :
    Integral.sub R (Integral.add R time gap) time = gap ∧ gap.isSafe = true ∧
      Packable R (seq + 1) (Integral.add R time gap) rest := by
  have hseqs := h.seqs
  have htimes := h.times
  obtain ⟨hgap, hgaps⟩ := forall_mem_cons.mp h.gaps
  simp only [map_cons, timesStaySafe, Bool.and_eq_true] at htimes
  refine ⟨sub_add_of_isSafe h.safe hgap.1 hgap.2 htimes.1, hgap.1, ?_⟩
  refine ⟨?_, htimes.1, hgaps, htimes.2⟩
  rw [length_cons] at hseqs
  omega

theorem runGaps_restDeltas {shape : RunShape} {seq : Nat} {time : Integral} {text : String}
    {rest : List (Integral × String)} (h : Packable R seq time rest) :
    runGaps R (memberDelta shape seq time text) (restDeltas R shape seq time rest) = rest := by
  induction rest generalizing seq time text with
  | nil => rfl
  | cons member rest ih =>
    obtain ⟨gap, next⟩ := member
    obtain ⟨hsub, -, hrest⟩ := h.head
    simp only [restDeltas, runGaps, ih hrest]
    simp only [memberDelta, hsub]

theorem packLoop_expandRest {shape : RunShape} {seq : Nat} {time : Integral} {text : String}
    {rest : List (Integral × String)} {run : List DeltaEvent} (hproper : shape.Proper)
    (hturn : shape.turn ≠ .nan) (hstep : shape.step ≠ .nan) (hindex : shape.index ≠ .nan)
    (h : Packable R seq time rest) (hlast : run.getLast? = some (memberDelta shape seq time text)) :
    packLoop R run (expandRest R shape seq time rest) =
      flushRun R (run ++ restDeltas R shape seq time rest) := by
  induction rest generalizing seq time text run with
  | nil => simp [expandRest, packLoop, restDeltas]
  | cons member rest ih =>
    obtain ⟨gap, next⟩ := member
    obtain ⟨hsub, hgap, hrest⟩ := h.head
    have hseq : seq + 1 ≤ maxSafeInteger := by
      have := hrest.seqs
      omega
    have hcontinues : continues R (memberDelta shape seq time text)
        (memberDelta shape (seq + 1) (Integral.add R time gap) next) = true := by
      simp [continues, memberDelta, hsub, hgap, Number.strictEq_self_of_ne_nan hturn,
        Number.strictEq_self_of_ne_nan hstep, Number.strictEq_self_of_ne_nan hindex]
    have hkind : ((memberDelta shape (seq + 1) (Integral.add R time gap) next).shape.kind ==
        (memberDelta shape seq time text).shape.kind) = true := by
      simp [memberDelta]
    rw [expandRest, packLoop, classify_memberEvent hproper hseq hrest.safe next]
    simp only [hlast, hkind, hcontinues, Bool.and_self, if_true]
    have hsnoc : (run ++ [memberDelta shape (seq + 1) (Integral.add R time gap) next]).getLast? =
        some (memberDelta shape (seq + 1) (Integral.add R time gap) next) := by simp
    rw [ih hrest hsnoc, append_assoc]
    rfl

theorem packChunkRuns_expandRow (hvalid : row.Valid R) (hlong : MIN_RUN ≤ row.texts.length)
    (hcanonical : row.Canonical) : packChunkRuns R (expandRow R row) = [.row row] := by
  have hpackable : Packable R row.seq0 row.time0 row.rest := by
    refine ⟨hvalid.seqs, hvalid.time0, ?_, hvalid.times⟩
    intro gap hgap
    refine ⟨hvalid.gaps gap hgap, ?_⟩
    intro hzero
    exact hcanonical.gaps (hzero ▸ hgap)
  have hseq : row.seq0 ≤ maxSafeInteger := by
    have := hvalid.seqs
    omega
  have hloop := @packLoop_expandRest R row.shape row.seq0 row.time0 row.first row.rest
    [memberDelta row.shape row.seq0 row.time0 row.first] hvalid.proper hcanonical.turn
    hcanonical.step hcanonical.index hpackable rfl
  have hlength : ∀ seq time rest, (restDeltas R row.shape seq time rest).length = rest.length := by
    intro seq time rest
    induction rest generalizing seq time with
    | nil => rfl
    | cons member rest ih =>
      obtain ⟨gap, text⟩ := member
      simp [restDeltas, ih]
  have hruns : MIN_RUN ≤ (memberDelta row.shape row.seq0 row.time0 row.first ::
      restDeltas R row.shape row.seq0 row.time0 row.rest).length := by
    rw [length_cons, hlength]
    simpa [texts] using hlong
  have hgaps := @runGaps_restDeltas R row.shape row.seq0 row.time0 row.first row.rest hpackable
  rw [packChunkRuns, expandRow, packLoop, classify_memberEvent hvalid.proper hseq hvalid.time0]
  simp only [getLast?_nil]
  rw [hloop, singleton_append, flushRun, if_pos hruns, buildRow, hgaps]
  rfl

end Repack

/-- Packing loses nothing, whatever the batches, and an accepted row of three members or
more is the packing of its members. -/
theorem packChunkRuns_lossless (R : Rounding) :
    (∀ batches : List (List Json), (∀ event ∈ batches.flatten, Storable event) →
      Decodes R (batches.map (packChunkRuns R)).flatten batches.flatten) ∧
    (∀ (value : Json) (kind : DeltaKind) (row : ChunkRow),
      value.get? "type" = some (.str kind.rowType) → validateRow R value kind = .ok row →
      MIN_RUN ≤ row.texts.length → row.Canonical →
      ∃ record, packChunkRuns R (expandRow R row) = [record] ∧ Json.Same record.toJson value) := by
  constructor
  · intro batches hbatches
    exact decodes_batches hbatches
  · intro value kind row htype hrow hlong hcanonical
    obtain ⟨hvalid, -, hsame⟩ := validateRow_sound htype hrow
    exact ⟨.row row, packChunkRuns_expandRow hvalid hlong hcanonical, hsame⟩

def textRow (index : Number) (gap : Integral) : ChunkRow :=
  ⟨⟨.textDelta, .ofNat 1, .ofNat 1, index, none⟩, 0, .int 5, "a", [(gap, "b"), (.int 0, "c")]⟩

theorem textRow_accepted (index : Number) (gap : Integral) (hgap : gap = .int 0 ∨ gap = .negZero) :
    validateRow Rounding.nearest (textRow index gap).toJson .textDelta = .ok (textRow index gap) := by
  apply validateRow_toJson
  rcases hgap with rfl | rfl
  · exact ⟨by simp [RunShape.Proper, textRow], by simp [textRow, maxSafeInteger], rfl,
      by simp [textRow, gaps, Integral.isSafe], rfl⟩
  · exact ⟨by simp [RunShape.Proper, textRow], by simp [textRow, maxSafeInteger], rfl,
      by simp [textRow, gaps, Integral.isSafe], rfl⟩

/-- The validator accepts a gap of `-0` and an index of `NaN`; neither row is what its
members pack into. -/
theorem not_repacks_textRow :
    (validateRow Rounding.nearest (textRow (.ofNat 0) .negZero).toJson .textDelta =
        .ok (textRow (.ofNat 0) .negZero) ∧
      packChunkRuns Rounding.nearest (expandRow Rounding.nearest (textRow (.ofNat 0) .negZero)) =
        [.row (textRow (.ofNat 0) (.int 0))] ∧
      ¬ Json.Same (textRow (.ofNat 0) (.int 0)).toJson (textRow (.ofNat 0) .negZero).toJson) ∧
    (validateRow Rounding.nearest (textRow .nan (.int 0)).toJson .textDelta =
        .ok (textRow .nan (.int 0)) ∧
      packChunkRuns Rounding.nearest (expandRow Rounding.nearest (textRow .nan (.int 0))) =
        (expandRow Rounding.nearest (textRow .nan (.int 0))).map .event) := by
  refine ⟨⟨textRow_accepted _ _ (Or.inr rfl), ?_, ?_⟩, textRow_accepted _ _ (Or.inl rfl), ?_⟩
  · rfl
  · decide
  · rfl

theorem packChunkRuns_lossless_textRow :
    Decodes Rounding.nearest
        ([expandRow Rounding.nearest (textRow (.ofNat 0) (.int 0))].map
          (packChunkRuns Rounding.nearest)).flatten
        (expandRow Rounding.nearest (textRow (.ofNat 0) (.int 0))) ∧
      ∃ record, packChunkRuns Rounding.nearest
          (expandRow Rounding.nearest (textRow (.ofNat 0) (.int 0))) = [record] ∧
        Json.Same record.toJson (textRow (.ofNat 0) (.int 0)).toJson := by
  have hlossless := packChunkRuns_lossless Rounding.nearest
  constructor
  · have hbatch := hlossless.1 [expandRow Rounding.nearest (textRow (.ofNat 0) (.int 0))]
    apply hbatch
    intro event hevent
    have hmem : event ∈ [memberEvent (textRow (.ofNat 0) (.int 0)).shape 0 (.int 5) "a",
        memberEvent (textRow (.ofNat 0) (.int 0)).shape 1 (.int 5) "b",
        memberEvent (textRow (.ofNat 0) (.int 0)).shape 2 (.int 5) "c"] := hevent
    simp only [mem_cons, not_mem_nil, or_false] at hmem
    rcases hmem with rfl | rfl | rfl
    · exact ⟨by simp [textRow, memberEvent, memberData, chunkJson, Json.WellFormed,
        Json.FieldsWellFormed, Json.ofNat], rfl, ⟨0, by decide, rfl⟩, rfl⟩
    · exact ⟨by simp [textRow, memberEvent, memberData, chunkJson, Json.WellFormed,
        Json.FieldsWellFormed, Json.ofNat], rfl, ⟨1, by decide, rfl⟩, rfl⟩
    · exact ⟨by simp [textRow, memberEvent, memberData, chunkJson, Json.WellFormed,
        Json.FieldsWellFormed, Json.ofNat], rfl, ⟨2, by decide, rfl⟩, rfl⟩
  · exact hlossless.2 _ .textDelta _ rfl (textRow_accepted _ _ (Or.inl rfl)) (by decide)
      ⟨by decide, by decide, by decide, by decide⟩

end DshKernel.Session
