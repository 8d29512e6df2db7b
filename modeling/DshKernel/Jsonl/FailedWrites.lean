import DshKernel.Jsonl.StoredLogs
import DshKernel.Jsonl.WriteOutcomes

/-!
# Writes that fail

A rejected write leaves the log as it was, and the same batch can be written again, unless an
operation failed after the write had taken effect.
-/

namespace DshKernel.Jsonl

open Js Lib Faulty List

section Failures

variable {backend : Backend} {header : SessionHeader} {cut : Nat} {start : List UInt8}
  {batches : List (Bool × List Json)} {events : List Json} {isMaterialized : Bool}
  {state after : StoreState} {schedule : Schedule FileOp Nat} {random : String}

structure Held (backend : Backend) (start : List UInt8) (batches : List (Bool × List Json))
    (isMaterialized : Bool) (state : StoreState) : Prop where
  log : state.get? (logPath backend backend.compression) =
    if isMaterialized then some (logBytes backend start batches) else none
  opposite : state.get? (logPath backend backend.compression.opposite) = none
  unwritten : isMaterialized = false → batches = []

def ReadsAs (backend : Backend) (state : StoreState) (events : List Json) : Prop :=
  ∃ scan, storedLog backend state = some (.ok scan) ∧ Json.Same (.arr scan.events) (.arr events)

def Undone (backend : Backend) (header : SessionHeader) (cut : Nat) (log events : List Json)
    (isMaterialized : Bool) (state after : StoreState) : Prop :=
  storedLog backend after = storedLog backend state ∧
    ∀ random, after.get? (tempPath backend random) = none →
      ∃ last, (persistBatch backend header events isMaterialized cut random).run (fun _ => none) after =
          (.ok (), last) ∧ ReadsAs backend last (log ++ events)

/-- An operation fails after the write has taken effect: the close of the handle of an append whose
bytes are synced, or the sync of the directory in which the first file has been linked. -/
def FailsAfterCommit (backend : Backend) (isMaterialized : Bool) (schedule : Schedule FileOp Nat)
    (random : String) (state : StoreState) : Prop :=
  if isMaterialized then (∀ op ∈ appendOps, schedule op = none) ∧ schedule .closeLog ≠ none
  else state.get? (tempPath backend random) = none ∧
    (∀ op ∈ publishOps backend.platform, schedule op = none) ∧
    ∃ op ∈ durableOps backend.platform, schedule op ≠ none

theorem logBytes_concat :
    logBytes backend start (batches ++ [(backend.packChunks, events)]) =
      logBytes backend start batches ++ encodeBatch backend events := by
  unfold logBytes
  rw [flatMap_append, append_assoc, flatMap_singleton]
  rfl

theorem loggedEvents_concat :
    loggedEvents (batches ++ [(backend.packChunks, events)]) = loggedEvents batches ++ events := by
  unfold loggedEvents
  rw [flatMap_append, flatMap_singleton]

theorem Logged.init (h : Logged backend header cut start (batches ++ [(backend.packChunks, events)])) :
    Logged backend header cut start batches where
  start := h.start
  filled batch hbatch := h.filled batch (mem_append_left _ hbatch)
  contiguous := by
    have hall := h.contiguous
    rw [loggedEvents_concat] at hall
    exact (contiguous_append.mp hall).1
  texts := by
    intro value hvalue
    apply h.texts
    rcases mem_cons.mp hvalue with rfl | hvalue
    · exact mem_cons_self
    · apply mem_cons_of_mem
      unfold logValues logRecords at hvalue ⊢
      rw [flatMap_append, map_append]
      exact mem_append_left _ hvalue

theorem Logged.events_ne_nil
    (h : Logged backend header cut start (batches ++ [(backend.packChunks, events)])) : events ≠ [] :=
  h.filled (backend.packChunks, events) (mem_append_right _ mem_cons_self)

theorem encodeMaterialization_logged
    (h : Logged backend header cut start [(backend.packChunks, events)]) :
    encodeMaterialization backend header cut events =
      .ok (logBytes backend start [(backend.packChunks, events)]) := by
  have hne : events ≠ [] := h.filled (backend.packChunks, events) mem_cons_self
  unfold encodeMaterialization
  rw [h.start]
  dsimp only
  rw [if_neg hne]
  unfold logBytes
  rw [flatMap_singleton]
  rfl

theorem readsAs_logged (hcodec : backend.compression = .zstd → Compresses backend)
    (h : Logged backend header cut start batches)
    (hlog : state.get? (logPath backend backend.compression) = some (logBytes backend start batches)) :
    ReadsAs backend state (loggedEvents batches) := by
  obtain ⟨scan, hscan, hsame⟩ := readStoredLog_logged hcodec h
  refine ⟨scan, ?_, hsame⟩
  unfold storedLog
  rw [hlog, Option.map_some, hscan]

theorem storedLog_congr
    (h : after.get? (logPath backend backend.compression) = state.get? (logPath backend backend.compression)) :
    storedLog backend after = storedLog backend state := by
  unfold storedLog
  rw [h]

theorem ReadsAs.ne {log : List Json} (h : ReadsAs backend state log)
    (hmore : ReadsAs backend after (log ++ events)) (hne : events ≠ []) :
    storedLog backend after ≠ storedLog backend state := by
  intro heq
  obtain ⟨scan, hscan, hsame⟩ := h
  obtain ⟨other, hother, hlonger⟩ := hmore
  rw [heq, hscan] at hother
  cases hother
  have hlength := (length_of_same hsame).symm.trans (length_of_same hlonger)
  rw [length_append] at hlength
  have hpos := length_pos_iff.mpr hne
  omega

section Append

theorem append_retry (hcodec : backend.compression = .zstd → Compresses backend)
    (h : Logged backend header cut start (batches ++ [(backend.packChunks, events)]))
    (hlog : state.get? (logPath backend backend.compression) = some (logBytes backend start batches)) :
    ∃ last, (persistBatch backend header events true cut random).run (fun _ => none) state = (.ok (), last) ∧
      ReadsAs backend last (loggedEvents batches ++ events) := by
  have hworks : RollbackWorks fun _ => none := fun _ _ => rfl
  have houtcome := @appendLines_outcome backend _ _ _ events hworks hlog
  change ∃ last, (appendLines backend events).run (fun _ => none) state = (.ok (), last) ∧ _
  generalize hrun : (appendLines backend events).run (fun _ => none) state = result at houtcome
  cases houtcome with
  | stored hops hafter =>
    refine ⟨_, rfl, ?_⟩
    rw [← loggedEvents_concat]
    apply readsAs_logged hcodec h
    rw [logBytes_concat]
    exact hafter
  | undone hfails hafter =>
    obtain ⟨op, -, hfails⟩ := hfails
    exact absurd rfl hfails
  | kept hops hfails hafter => exact absurd rfl hfails

theorem append_undoes_iff (hcodec : backend.compression = .zstd → Compresses backend)
    (h : Logged backend header cut start (batches ++ [(backend.packChunks, events)]))
    (hheld : Held backend start batches true state) (hrollback : RollbackWorks schedule) :
    (∀ error after, (persistBatch backend header events true cut random).run schedule state =
        (.error error, after) →
      Undone backend header cut (loggedEvents batches) events true state after) ↔
    ¬FailsAfterCommit backend true schedule random state := by
  have hlog : state.get? (logPath backend backend.compression) = some (logBytes backend start batches) :=
    hheld.log
  have houtcome := @appendLines_outcome backend _ _ _ events hrollback hlog
  change (∀ error after, (appendLines backend events).run schedule state = (.error error, after) → _) ↔ _
  generalize (appendLines backend events).run schedule state = result at houtcome
  cases houtcome with
  | stored hops hafter =>
    refine iff_of_true ?_ ?_
    · intro error after heq
      cases heq
    · rintro ⟨-, hfails⟩
      exact hfails (hops _ mem_cons_self)
  | undone hfails hafter =>
    refine iff_of_true ?_ ?_
    · intro error after heq
      cases heq
      have hsame := hafter.trans hlog.symm
      exact ⟨storedLog_congr hsame, fun random _ => append_retry hcodec h hafter⟩
    · rintro ⟨hops, -⟩
      obtain ⟨op, hop, hfails⟩ := hfails
      exact hfails (hops op hop)
  | kept hops hfails hafter =>
    refine iff_of_false ?_ (fun hnot => hnot ⟨hops, hfails⟩)
    intro hall
    have hbefore := readsAs_logged hcodec h.init hlog
    have hstored := readsAs_logged hcodec h (logBytes_concat ▸ hafter)
    rw [loggedEvents_concat] at hstored
    exact hbefore.ne hstored h.events_ne_nil (hall _ _ rfl).1

end Append

section Materialize

theorem materialize_retry (hcodec : backend.compression = .zstd → Compresses backend)
    (h : Logged backend header cut start [(backend.packChunks, events)]) (hclear : Clear backend state)
    (hfresh : state.get? (tempPath backend random) = none) :
    ∃ last, (persistBatch backend header events false cut random).run (fun _ => none) state = (.ok (), last) ∧
      ReadsAs backend last events := by
  have houtcome := @materialize_outcome backend random _ (fun _ => none) state _ _ _
    (encodeMaterialization_logged h) hclear
  change ∃ last, (materialize backend header cut events random).run (fun _ => none) state = (.ok (), last) ∧ _
  generalize (materialize backend header cut events random).run (fun _ => none) state = result at houtcome
  cases houtcome with
  | stored hops hafter =>
    refine ⟨_, rfl, ?_⟩
    have hreads := readsAs_logged hcodec h hafter
    unfold loggedEvents at hreads
    rw [flatMap_singleton] at hreads
    exact hreads
  | undone hfails hafter =>
    obtain ⟨op, -, hfails⟩ := hfails hfresh
    exact absurd rfl hfails
  | kept hfresh hops hfails hafter =>
    obtain ⟨op, -, hfails⟩ := hfails
    exact absurd rfl hfails

theorem materialize_undoes_iff (hcodec : backend.compression = .zstd → Compresses backend)
    (h : Logged backend header cut start (batches ++ [(backend.packChunks, events)]))
    (hheld : Held backend start batches false state) :
    (∀ error after, (persistBatch backend header events false cut random).run schedule state =
        (.error error, after) →
      Undone backend header cut (loggedEvents batches) events false state after) ↔
    ¬FailsAfterCommit backend false schedule random state := by
  obtain rfl := hheld.unwritten rfl
  have hclear : Clear backend state := ⟨hheld.log, hheld.opposite⟩
  have houtcome := @materialize_outcome backend random _ schedule state _ _ _
    (encodeMaterialization_logged h) hclear
  have hnone : storedLog backend state = none := by
    unfold storedLog
    rw [hclear.1]
    rfl
  change (∀ error after, (materialize backend header cut events random).run schedule state =
    (.error error, after) → _) ↔ _
  generalize (materialize backend header cut events random).run schedule state = result at houtcome
  cases houtcome with
  | stored hops hafter =>
    refine iff_of_true ?_ ?_
    · intro error after heq
      cases heq
    · rintro ⟨-, -, op, hop, hfails⟩
      exact hfails (hops op (mem_append_right _ hop))
  | undone hfails hafter =>
    refine iff_of_true ?_ ?_
    · intro error after heq
      cases heq
      have hsame := hafter.1.trans hclear.1.symm
      exact ⟨storedLog_congr hsame, fun random hfresh => materialize_retry hcodec h hafter hfresh⟩
    · rintro ⟨hfresh, hops, -⟩
      obtain ⟨op, hop, hfails⟩ := hfails hfresh
      exact hfails (hops op hop)
  | kept hfresh hops hfails hafter =>
    refine iff_of_false ?_ (fun hnot => hnot ⟨hfresh, hops, hfails⟩)
    intro hall
    have hstored := (hall _ _ rfl).1
    rw [hnone] at hstored
    obtain ⟨scan, hscan, -⟩ := readsAs_logged hcodec h hafter
    cases hscan.symm.trans hstored

end Materialize

/-- A rejected write leaves the log as it was, and the batch can be written again and is then stored
once, exactly when no operation fails after the write has taken effect. -/
theorem persistBatch_undoes_iff (hcodec : backend.compression = .zstd → Compresses backend)
    (h : Logged backend header cut start (batches ++ [(backend.packChunks, events)]))
    (hheld : Held backend start batches isMaterialized state) (hrollback : RollbackWorks schedule) :
    (∀ error after, (persistBatch backend header events isMaterialized cut random).run schedule state =
        (.error error, after) →
      Undone backend header cut (loggedEvents batches) events isMaterialized state after) ↔
    ¬FailsAfterCommit backend isMaterialized schedule random state := by
  cases isMaterialized with
  | true => exact append_undoes_iff hcodec h hheld hrollback
  | false => exact materialize_undoes_iff hcodec h hheld

end Failures

section Examples

def sampleBackend : Backend where
  text := sampleText
  rounding := Rounding.nearest
  packChunks := true
  compression := .none
  platform := .posix
  dir := "d"
  compress body := body
  decompress := some
  decompressPrefix := some

theorem logged_sample : Logged sampleBackend topLevelHeader 0 sampleStart [(true, [plainNote])] where
  start := rfl
  filled batch hbatch := by
    rw [mem_singleton.mp hbatch]
    exact cons_ne_nil _ _
  contiguous := by
    refine ⟨⟨⟨?_, rfl, ⟨0, by decide, rfl⟩, rfl⟩, rfl, ?_⟩, trivial⟩
    · simp [plainNote, noteEvent, Json.WellFormed, Json.FieldsWellFormed, Json.ofNat]
    · intro value hvalue
      cases hvalue
  texts := by
    intro value hvalue _ _
    have hmem : value ∈ [headerLine topLevelHeader 0, plainNote] := hvalue
    refine carries_sampleText value ?_
    simp only [mem_cons, not_mem_nil, or_false] at hmem ⊢
    exact hmem.imp_right Or.inl

def headerOnly : StoreState :=
  (StoreState.mk .empty false).put (logPath sampleBackend .none) sampleStart

def onlyFails (op : FileOp) : Schedule FileOp Nat := fun other => if other = op then some 0 else none

theorem held_headerOnly : Held sampleBackend sampleStart [] true headerOnly where
  log := rfl
  opposite := rfl
  unwritten := nofun

theorem rollbackWorks_sample : RollbackWorks (onlyFails .syncLog) := by
  unfold RollbackWorks
  decide

theorem persistBatch_undoes_sample :
    (∀ error after, (persistBatch sampleBackend topLevelHeader [plainNote] true 0 "r").run
        (onlyFails .syncLog) headerOnly = (.error error, after) →
      Undone sampleBackend topLevelHeader 0 (loggedEvents []) [plainNote] true headerOnly after) ↔
    ¬FailsAfterCommit sampleBackend true (onlyFails .syncLog) "r" headerOnly :=
  persistBatch_undoes_iff nofun logged_sample held_headerOnly rollbackWorks_sample

/-- The handle of an append that fails to close, and the directory that fails to sync once the first
file is linked in it: both writes are rejected and both are read. -/
theorem not_persistBatch_undone :
    (RollbackWorks (onlyFails .closeLog) ∧ RollbackWorks (onlyFails (.syncDir .session))) ∧
    (∃ after, (persistBatch sampleBackend topLevelHeader [plainNote] true 0 "r").run
        (onlyFails .closeLog) headerOnly = (.error (.io .closeLog), after) ∧
      storedLog sampleBackend after ≠ storedLog sampleBackend headerOnly) ∧
    ∃ after, (persistBatch sampleBackend topLevelHeader [plainNote] false 0 "r").run
        (onlyFails (.syncDir .session)) {} = (.error (.io (.syncDir .session)), after) ∧
      storedLog sampleBackend after ≠ none ∧
      ((persistBatch sampleBackend topLevelHeader [plainNote] false 0 "q").run
        (fun _ => none) after).1 = .error .refused := by
  refine ⟨⟨?_, ?_⟩, ⟨_, rfl, ?_⟩, _, rfl, ?_, rfl⟩
  · unfold RollbackWorks
    decide
  · unfold RollbackWorks
    decide
  · intro heq
    have hcount := congrArg (Option.map (Except.map fun scan => scan.events.length)) heq
    cases hcount
  · intro heq
    cases heq

end Examples

end DshKernel.Jsonl
