import DshKernel.Session.Session

/-!
# The log of a live session

What holds of every session of a process: its manager tracks its log, its message cache is
the projection of a surface it went through, and its events passed the checks of `append`.
-/

namespace DshKernel.Session

open Js SurfaceManager List

section Live

variable {log : List EventObject} {manager : SurfaceManager} {nextRef : Nat}

structure Live (log : List EventObject) (manager : SurfaceManager) (nextRef : Nat) : Prop where
  tracks : ∃ heap, Tracks heap log manager
  log_lt : ∀ object ∈ log, object.ref < nextRef
  pending_lt : ∀ pending ∈ manager.pendingPlan, pending.object.ref < nextRef

theorem tracks_congr {heap heap' : Nat → SessionEvent} (h : Tracks heap log manager)
    (hlog : ∀ object ∈ log, heap' object.ref = heap object.ref)
    (hpending : ∀ pending ∈ manager.pendingPlan,
      heap' pending.object.ref = heap pending.object.ref) : Tracks heap' log manager where
  objects := by
    intro object hobject
    rw [hlog object hobject]
    exact h.objects object hobject
  base := h.base
  accepted := h.accepted
  behind := h.behind
  folded := h.folded
  pending := by
    intro pending hmem
    rw [hpending pending hmem]
    exact h.pending pending hmem

theorem live_create : Live [] (SurfaceManager.create 0) 0 where
  tracks := ⟨fun _ => ⟨0, .nan, .endSeed, none, none, false⟩, tracks_create _⟩
  log_lt := by simp
  pending_lt := by simp [SurfaceManager.create]

variable {pending : PendingPlan}

theorem mem_pendingPlan_processDelta
    (h : pending ∈ (processDelta log manager).2.pendingPlan) : pending ∈ manager.pendingPlan := by
  have hloop : ∀ (rest : List EventObject) (manager : SurfaceManager),
      pending ∈ (processDeltaLoop log rest manager).2.pendingPlan →
        pending ∈ manager.pendingPlan := by
    intro rest
    induction rest with
    | nil => exact fun _ h => h
    | cons object rest ih =>
      intro manager h
      simp only [processDeltaLoop] at h
      cases hnext : foldNext log manager object with
      | error message =>
        rw [hnext] at h
        exact h
      | ok state =>
        rw [hnext] at h
        exact (Option.filter_eq_some_iff.mp (ih _ h)).1
  exact hloop _ manager h

theorem mem_pendingPlan_validateNext {object : EventObject}
    (h : pending ∈ (validateNext log manager object).2.pendingPlan) :
    pending.object = object ∨ pending ∈ manager.pendingPlan := by
  have hdelta := @mem_pendingPlan_processDelta log manager pending
  unfold validateNext at h
  revert h hdelta
  rcases processDelta log manager with ⟨message | ⟨⟩, next⟩
  · exact fun h hdelta => Or.inr (hdelta h)
  · intro h hdelta
    simp only at h
    cases hseq : SessionSeq (next.baseSeq + log.length) with
    | error message =>
      rw [hseq] at h
      exact Or.inr (hdelta h)
    | ok expectedSeq =>
      rw [hseq] at h
      simp only at h
      cases hplan : planSurfaceEvent next.state object.event expectedSeq (events log)
          next.baseSeq with
      | error message =>
        rw [hplan] at h
        exact Or.inr (hdelta h)
      | ok plan =>
        rw [hplan] at h
        cases h
        exact Or.inl rfl

theorem mem_pendingPlan_readNodes
    (h : pending ∈ (readNodes log manager).2.pendingPlan) : pending ∈ manager.pendingPlan := by
  apply @mem_pendingPlan_processDelta log
  unfold readNodes at h
  revert h
  rcases processDelta log manager with ⟨message | ⟨⟩, next⟩
  · exact fun h => h
  · exact fun h => h

theorem mem_pendingPlan_readReplaceGeneration
    (h : pending ∈ (readReplaceGeneration log manager).2.pendingPlan) :
    pending ∈ manager.pendingPlan := by
  apply @mem_pendingPlan_processDelta log
  unfold readReplaceGeneration at h
  revert h
  rcases processDelta log manager with ⟨message | ⟨⟩, next⟩
  · exact fun h => h
  · exact fun h => h

namespace Live

theorem folds (h : Live log manager nextRef) :
    ∃ state replacements, Folds (events log) state replacements := by
  obtain ⟨_, htracks⟩ := h.tracks
  exact htracks.accepted

theorem exists_heap (h : Live log manager nextRef) (event : SessionEvent) :
    ∃ heap, Tracks heap log manager ∧ heap nextRef = event := by
  obtain ⟨heap, htracks⟩ := h.tracks
  refine ⟨fun ref => if ref = nextRef then event else heap ref, tracks_congr htracks ?_ ?_, by simp⟩
  · intro object hobject
    have hlt := h.log_lt object hobject
    exact if_neg (Nat.ne_of_lt hlt)
  · intro pending hpending
    have hlt := h.pending_lt pending hpending
    exact if_neg (Nat.ne_of_lt hlt)

theorem validateNext (h : Live log manager nextRef) (event : SessionEvent) :
    Live log (validateNext log manager ⟨nextRef, event⟩).2 (nextRef + 1) where
  tracks := by
    obtain ⟨heap, htracks, hheap⟩ := h.exists_heap event
    exact ⟨heap, validateNext_tracks htracks hheap.symm⟩
  log_lt := fun object hobject => Nat.lt_succ_of_lt (h.log_lt object hobject)
  pending_lt := by
    intro pending hpending
    rcases mem_pendingPlan_validateNext hpending with hobject | hold
    · rw [hobject]
      exact Nat.lt_succ_self nextRef
    · exact Nat.lt_succ_of_lt (h.pending_lt pending hold)

theorem push (h : Live log manager nextRef) {event : SessionEvent}
    (hok : (SurfaceManager.validateNext log manager ⟨nextRef, event⟩).1 = .ok ()) :
    Live (log ++ [⟨nextRef, event⟩])
      (SurfaceManager.validateNext log manager ⟨nextRef, event⟩).2 (nextRef + 1) where
  tracks := by
    obtain ⟨heap, htracks, hheap⟩ := h.exists_heap event
    refine ⟨heap, tracks_push (validateNext_tracks htracks hheap.symm) hheap.symm ?_⟩
    obtain ⟨state, replacements, hfold⟩ := htracks.accepted
    rw [validateNext_eq htracks hfold] at hok
    cases hstep : foldSurfaceStep (events log) event state with
    | error message => simp [hstep] at hok
    | ok plan =>
      obtain ⟨hle, hplan⟩ := foldSurfaceStep_eq_ok.mp hstep
      rw [events_append]
      exact ⟨_, _, hfold.snoc hle hplan⟩
  log_lt := by
    intro object hobject
    rcases mem_append.mp hobject with hobject | hobject
    · exact Nat.lt_succ_of_lt (h.log_lt object hobject)
    · rw [mem_singleton.mp hobject]
      exact Nat.lt_succ_self nextRef
  pending_lt := (h.validateNext event).pending_lt

/-- What the full fold accepts, `validateNext` accepts. -/
theorem validateNext_eq_ok (h : Live log manager nextRef) {event : SessionEvent}
    (hnext : ∃ state replacements,
      Folds (events log ++ [event]) state replacements) :
    (SurfaceManager.validateNext log manager ⟨nextRef, event⟩).1 = .ok () := by
  obtain ⟨heap, htracks⟩ := h.tracks
  obtain ⟨state, replacements, hfold⟩ := htracks.accepted
  obtain ⟨_, _, hnext⟩ := hnext
  have hfull := hnext.foldSurface_eq
  rw [hfold.foldSurface_snoc] at hfull
  rw [validateNext_eq htracks hfold]
  cases hstep : foldSurfaceStep (events log) event state with
  | error message => simp [hstep] at hfull
  | ok plan => rfl

theorem readNodes (h : Live log manager nextRef) :
    Live log (SurfaceManager.readNodes log manager).2 nextRef where
  tracks := by
    obtain ⟨heap, htracks⟩ := h.tracks
    exact ⟨heap, readNodes_tracks htracks⟩
  log_lt := h.log_lt
  pending_lt := fun pending hpending => h.pending_lt pending (mem_pendingPlan_readNodes hpending)

theorem readReplaceGeneration (h : Live log manager nextRef) :
    Live log (SurfaceManager.readReplaceGeneration log manager).2 nextRef where
  tracks := by
    obtain ⟨heap, htracks⟩ := h.tracks
    exact ⟨heap, readReplaceGeneration_tracks htracks⟩
  log_lt := h.log_lt
  pending_lt := fun pending hpending =>
    h.pending_lt pending (mem_pendingPlan_readReplaceGeneration hpending)

end Live

end Live

section Lossless

theorem isLossless_toJson (event : SessionEvent) :
    event.toJson.isLossless = (event.time.isLossless && event.data.toJson.isLossless &&
      event.sourceEventSeqs.all Json.isLossless && event.surfaceOp.all Json.isLossless) := by
  have hflag : Json.fieldsLossless (flag "ignorable" event.ignorable) = true := by
    cases event.ignorable <;> rfl
  simp only [SessionEvent.toJson, Json.isLossless, fieldsLossless_append, fieldsLossless_optional,
    hflag, Json.fieldsLossless, Json.ofNat, Number.ofNat, Number.isLossless, Bool.and_true,
    Bool.true_and]

end Lossless

section Seed

variable {restored : Bool} {index : Nat} {source : SessionEvent} {seeded next : SeededLog}

structure SeedOk (restored : Bool) (index : Nat) (source : SessionEvent) : Prop where
  lossless : restored = false → source.toJson.isLossless = true
  supported : source.type ≠ "request/header-delta"
  seq_eq : source.seq = index
  seq_le : source.seq ≤ maxSafeInteger
  time : source.time.isSafeInteger = true
  reloadable : Reloadable source.data

theorem adoptSeedEvent_eq_ok :
    adoptSeedEvent restored index source seeded = .ok next ↔
      SeedOk restored index source ∧
        (validateNext seeded.log seeded.manager ⟨seeded.nextRef, source⟩).1 = .ok () ∧
        next = ⟨seeded.log ++ [⟨seeded.nextRef, source⟩],
          (validateNext seeded.log seeded.manager ⟨seeded.nextRef, source⟩).2,
          seeded.nextRef + 1⟩ := by
  constructor
  · intro h
    unfold adoptSeedEvent at h
    cases hsnapshot : !restored && source.toJson.snapshotJsonValue.isNone with
    | true => simp [hsnapshot] at h
    | false =>
      simp only [hsnapshot, Bool.false_eq_true, if_false] at h
      cases henvelope : assertSessionEventEnvelope source.toJson index with
      | error message => simp [henvelope] at h
      | ok =>
        obtain ⟨hsupported, hle, htime, hreloadable⟩ :=
          assertSessionEventEnvelope_eq_ok.mp henvelope
        have hheader : assertSupportedRequestHeader source.type source.data.toJson
            s!"seed event at index {index}" = .ok () :=
          assertSupportedRequestHeader_eq_ok.mpr hsupported
        simp only [henvelope, hheader] at h
        by_cases hseq : source.seq = index
        · simp only [hseq, ne_eq, not_true_eq_false, if_false] at h
          have hlossless : restored = false → source.toJson.isLossless = true := by
            rintro rfl
            simpa [Json.snapshotJsonValue] using hsnapshot
          refine ⟨⟨hlossless, hsupported, hseq, hle, htime, hreloadable⟩, ?_⟩
          revert h
          rcases validateNext seeded.log seeded.manager ⟨seeded.nextRef, source⟩ with
            ⟨message | ⟨⟩, manager⟩
          · simp
          · intro h
            exact ⟨rfl, (Except.ok.inj h).symm⟩
        · simp [hseq] at h
  · rintro ⟨hok, hvalid, rfl⟩
    have hsnapshot : (!restored && source.toJson.snapshotJsonValue.isNone) = false := by
      cases restored with
      | true => rfl
      | false => simp [Json.snapshotJsonValue, hok.lossless rfl]
    have henvelope : assertSessionEventEnvelope source.toJson index = .ok () :=
      assertSessionEventEnvelope_eq_ok.mpr ⟨hok.supported, hok.seq_le, hok.time, hok.reloadable⟩
    have hheader : assertSupportedRequestHeader source.type source.data.toJson
        s!"seed event at index {index}" = .ok () :=
      assertSupportedRequestHeader_eq_ok.mpr hok.supported
    simp only [adoptSeedEvent, hsnapshot, henvelope, hheader, hok.seq_eq]
    revert hvalid
    rcases validateNext seeded.log seeded.manager ⟨seeded.nextRef, source⟩ with
      ⟨message | ⟨⟩, manager⟩
    · simp
    · simp

variable {rest : List SessionEvent}

theorem adoptSeed_sound {last : SeededLog} (h : adoptSeed restored index rest seeded = .ok last)
    (hlive : Live seeded.log seeded.manager seeded.nextRef) :
    Live last.log last.manager last.nextRef ∧
      events last.log = events seeded.log ++ rest ∧
      ∀ (i : Nat) (hi : i < rest.length), SeedOk restored (index + i) rest[i] := by
  induction rest generalizing index seeded with
  | nil =>
    cases h
    exact ⟨hlive, (append_nil _).symm, by simp⟩
  | cons source rest ih =>
    simp only [adoptSeed] at h
    cases hevent : adoptSeedEvent restored index source seeded with
    | error message => simp [hevent] at h
    | ok next =>
      simp only [hevent] at h
      obtain ⟨hok, hvalid, rfl⟩ := adoptSeedEvent_eq_ok.mp hevent
      obtain ⟨hlast, hevents, hrest⟩ := ih h (hlive.push hvalid)
      refine ⟨hlast, ?_, ?_⟩
      · rw [hevents, events_append]
        simp [events]
      · intro i hi
        cases i with
        | zero => exact hok
        | succ i =>
          have hi' : i < rest.length := by simpa using hi
          have heq : index + (i + 1) = index + 1 + i := by omega
          rw [heq]
          exact hrest i hi'

theorem adoptSeed_complete
    (hlive : Live seeded.log seeded.manager seeded.nextRef)
    (hok : ∀ (i : Nat) (hi : i < rest.length), SeedOk restored (index + i) rest[i])
    (hfold : ∃ state replacements,
      Folds (events seeded.log ++ rest) state replacements) :
    ∃ last, adoptSeed restored index rest seeded = .ok last := by
  induction rest generalizing index seeded with
  | nil => exact ⟨seeded, rfl⟩
  | cons source rest ih =>
    obtain ⟨state, replacements, hfold⟩ := hfold
    have hnext : ∃ state' replacements',
        Folds (events seeded.log ++ [source]) state' replacements' := by
      have htake := hfold.take ((events seeded.log).length + 1)
      rwa [take_length_add_append, take_succ_cons, take_zero] at htake
    have hvalid := hlive.validateNext_eq_ok hnext
    have hevent := adoptSeedEvent_eq_ok.mpr ⟨hok 0 (by simp), hvalid, rfl⟩
    simp only [Nat.add_zero, getElem_cons_zero] at hevent
    simp only [adoptSeed, hevent]
    refine ih (hlive.push hvalid) ?_ ?_
    · intro i hi
      have heq : index + 1 + i = index + (i + 1) := by omega
      rw [heq]
      exact hok (i + 1) (by simpa using hi)
    · refine ⟨state, replacements, ?_⟩
      rw [events_append]
      simpa [events] using hfold

end Seed

section Cache

variable {log : List SessionEvent} {state : SurfaceFoldState}
variable {replacements : List SurfaceFoldReplacement}

theorem Folds.nodes_isPrefix (h : Folds log state replacements) :
    ∀ {n : Nat} {state' : SurfaceFoldState} {replacements' : List SurfaceFoldReplacement},
      n ≤ log.length → Folds (log.take n) state' replacements' →
      state'.replaceGeneration ≤ state.replaceGeneration ∧
        (state'.replaceGeneration = state.replaceGeneration → state'.nodes <+: state.nodes) := by
  induction h with
  | nil =>
    intro n state' replacements' hn h'
    rw [take_nil] at h'
    obtain ⟨rfl, -⟩ := Folds.nil.unique h'
    exact ⟨Nat.le_refl _, fun _ => prefix_refl _⟩
  | @snoc log state replacements event plan hfold hle hplan ih =>
    intro n state' replacements' hn h'
    by_cases hlast : n ≤ log.length
    · rw [take_append_of_le_length hlast] at h'
      obtain ⟨hgeneration, hnodes⟩ := ih hlast h'
      have hstep := (isReplacementSurfaceEvent_of_plan hplan).2
      refine ⟨by omega, ?_⟩
      intro heq
      have hnone : (applySurfacePlan state plan).2.toList.length = 0 := by omega
      have hbefore : state'.nodes <+: state.nodes := hnodes (by omega)
      cases plan with
      | none => exact hbefore
      | some plan =>
        cases plan with
        | append seq => exact hbefore.trans (prefix_append _ _)
        | replace seq startSeq endSeq range => simp [applySurfacePlan] at hnone
    · rw [take_of_length_le (by rw [length_append, length_singleton]; omega)] at h'
      obtain ⟨rfl, -⟩ := (hfold.snoc hle hplan).unique h'
      exact ⟨Nat.le_refl _, fun _ => prefix_refl _⟩

def surfaceMessages (events : List SessionEvent) (nodes : List Nat) : List Message :=
  nodes.filterMap (Session.projectNode events)

theorem surfaceMessages_append {nodes : List Nat} (more : List SessionEvent)
    (h : ∀ seq ∈ nodes, seq < log.length) :
    surfaceMessages (log ++ more) nodes = surfaceMessages log nodes := by
  induction nodes with
  | nil => rfl
  | cons seq rest ih =>
    have hseq : seq < log.length := h seq mem_cons_self
    have hproject : Session.projectNode (log ++ more) seq = Session.projectNode log seq := by
      simp only [Session.projectNode, getElem?_append_left hseq]
    have hrest := ih fun seq hmem => h seq (mem_cons_of_mem _ hmem)
    unfold surfaceMessages at hrest ⊢
    rw [filterMap_cons, filterMap_cons, hproject, hrest]

/-- The cache holds the messages of a surface that the log went through. -/
def Cached (s : Session) : Prop :=
  ∃ n state replacements, n ≤ s.log.length ∧ Folds (s.events.take n) state replacements ∧
    s.derivedNodes = state.nodes.length ∧ s.derivedGeneration = state.replaceGeneration ∧
    s.derived = surfaceMessages s.events state.nodes

end Cache

structure Admitted (event : SessionEvent) : Prop where
  lossless : event.toJson.isLossless = true
  supported : event.type ≠ "request/header-delta"
  time : event.time.isSafeInteger = true

def HeaderAccepted (platform : Platform) (header : Json) : Prop :=
  validateSessionHeader platform (headerId header) header = .ok header ∧
    ∀ now, snapshotSessionHeader platform (headerId header) (some header) now = .ok header

structure Sound (platform : Platform) (s : Session) : Prop where
  live : Live s.log s.manager s.nextRef
  admitted : ∀ event ∈ s.events, Admitted event
  cached : Cached s
  header : HeaderAccepted platform s.header
  inherited_le : s.inheritedEventCount ≤ s.log.length ∧ s.inheritedEventCount ≤ maxSafeInteger
  inherited_eq : isSeeded s.header = false → s.inheritedEventCount = 0

section Construction

variable {platform : Platform} {s next : Session}

variable {header : Except String Json} {seed : Option (List SessionEvent)} {supplied : Option Nat}

theorem finish_eq_ok {seeded : SeededLog} :
    Session.finish header seed supplied seeded = .ok s ↔
      seeded.log.length ≤ maxSafeInteger ∧ ∃ validHeader, header = .ok validHeader ∧
        (isSeeded validHeader = true → seed.isSome = true ∧ supplied.isSome = true) ∧
        supplied.getD 0 ≤ maxSafeInteger ∧
        (isSeeded validHeader = false → supplied.getD 0 = 0) ∧
        supplied.getD 0 ≤ seeded.log.length ∧
        s = ⟨seeded.log, seeded.manager, seeded.nextRef, validHeader, supplied.getD 0,
          seeded.log.length, [], 0, 0⟩ := by
  unfold Session.finish
  by_cases hlength : seeded.log.length ≤ maxSafeInteger
  · simp only [SessionLogOffset, hlength, if_true, true_and]
    cases header with
    | error message => simp
    | ok header =>
      simp only [Except.ok.injEq, exists_eq_left']
      by_cases hcount : supplied.getD 0 ≤ maxSafeInteger
      · by_cases hbound : supplied.getD 0 ≤ seeded.log.length
        · have hnot : ¬ seeded.log.length < supplied.getD 0 := by omega
          cases hseeded : isSeeded header with
          | true =>
            cases seed with
            | none => simp
            | some seed =>
              cases supplied with
              | none => simp
              | some supplied =>
                simp only [Option.getD_some] at hcount hbound hnot
                simp only [hcount, hbound, hnot, Option.getD_some, Option.isNone_some,
                  Option.isSome_some, Bool.and_false, Bool.false_eq_true, if_false, if_true,
                  Bool.not_true, Bool.false_and, Except.ok.injEq, and_self, implies_true,
                  reduceCtorEq, false_implies, true_and]
                exact eq_comm
          | false =>
            by_cases hzero : supplied.getD 0 = 0
            · simp only [hzero, Nat.zero_le, if_true, Bool.false_and, Bool.false_eq_true, if_false,
                Bool.not_false, Bool.true_and, bne_self_eq_false, Nat.not_lt_zero, Except.ok.injEq,
                false_implies, implies_true, true_and]
              exact eq_comm
            · simp [hcount, hzero]
        · have hlt : seeded.log.length < supplied.getD 0 := by omega
          simp only [hcount, hbound, hlt, if_true, false_and, and_false, iff_false]
          split
          · simp
          · split
            · simp
            · split
              · simp
              · simp
      · simp only [hcount, if_false, false_and, and_false, iff_false]
        split
        · simp
        · split
          · simp
          · simp
  · simp [SessionLogOffset, hlength]

/-- An `append` either leaves the log alone, or logs an event that passed its checks. -/
theorem append_cases (hlive : Live s.log s.manager s.nextRef) (data : EventData)
    (opts : SurfaceIntent) (now : Clock) (veto : Option String) :
    (∃ message manager nextRef, s.append data opts now veto =
        (.error message, { s with manager, nextRef }) ∧ Live s.log manager nextRef) ∨
      ∃ event manager, s.append data opts now veto =
          (.ok event, { s with
            log := s.log ++ [⟨s.nextRef, event⟩], manager, nextRef := s.nextRef + 1 }) ∧
        Live (s.log ++ [⟨s.nextRef, event⟩]) manager (s.nextRef + 1) ∧ Admitted event ∧
        event = ⟨s.log.length, .ofInt now.millis, data, opts.sourceEventSeqs, opts.surfaceOp,
          false⟩ := by
  unfold Session.append
  cases hdata : data.toJson.isLossless with
  | false => exact Or.inl ⟨_, s.manager, s.nextRef, by rfl, hlive⟩
  | true =>
    cases hheader : assertSupportedRequestHeader data.type data.toJson
        s!"session event \"{data.type}\"" with
    | error message => exact Or.inl ⟨message, s.manager, s.nextRef, by rfl, hlive⟩
    | ok =>
      cases hopts : opts.sourceEventSeqs.all Json.isLossless &&
          opts.surfaceOp.all Json.isLossless with
      | false => exact Or.inl ⟨_, s.manager, s.nextRef, by rfl, hlive⟩
      | true =>
        by_cases hle : s.log.length ≤ maxSafeInteger
        · simp only [Bool.not_true, Bool.false_eq_true, if_false, SessionSeq, hle, if_true]
          have hvalidated := hlive.validateNext
            ⟨s.log.length, .ofInt now.millis, data, opts.sourceEventSeqs, opts.surfaceOp, false⟩
          have hpush := @Live.push _ _ _ hlive
            ⟨s.log.length, .ofInt now.millis, data, opts.sourceEventSeqs, opts.surfaceOp, false⟩
          revert hvalidated hpush
          rcases validateNext s.log s.manager ⟨s.nextRef, ⟨s.log.length, .ofInt now.millis, data,
            opts.sourceEventSeqs, opts.surfaceOp, false⟩⟩ with ⟨message | ⟨⟩, manager⟩
          · intro hvalidated _
            exact Or.inl ⟨message, manager, _, rfl, hvalidated⟩
          · intro hvalidated hpush
            cases veto with
            | some message => exact Or.inl ⟨message, manager, _, rfl, hvalidated⟩
            | none =>
              refine Or.inr ⟨_, manager, rfl, hpush rfl, ⟨?_, ?_, ?_⟩, rfl⟩
              · rw [isLossless_toJson]
                simpa [hdata, Number.ofInt, Number.isLossless] using hopts
              · exact assertSupportedRequestHeader_eq_ok.mp hheader
              · have hrange := now.inRange
                simp only [Number.ofInt, Number.isSafeInteger, Integral.isSafe_iff,
                  Integral.toInt_int, maxSafeInteger]
                omega
        · simp only [Bool.not_true, Bool.false_eq_true, if_false, SessionSeq, hle]
          exact Or.inl ⟨_, s.manager, s.nextRef, rfl, hlive⟩

theorem events_eq (s : Session) : s.events = events s.log := rfl

@[simp] theorem length_events (s : Session) : s.events.length = s.log.length := by
  simp [events_eq]

theorem Cached.push (hcached : Cached s) {object : EventObject} {manager : SurfaceManager}
    {nextRef : Nat} : Cached { s with log := s.log ++ [object], manager, nextRef } := by
  obtain ⟨n, state, replacements, hn, hfold, hnodes, hgeneration, hderived⟩ := hcached
  have hlt : ∀ seq ∈ state.nodes, seq < s.events.length := by
    intro seq hseq
    have hseq' := hfold.nodes_lt seq hseq
    rw [length_take] at hseq'
    omega
  refine ⟨n, state, replacements, ?_, ?_, hnodes, hgeneration, ?_⟩
  · rw [length_append]
    omega
  · show Folds ((events (s.log ++ [object])).take n) state replacements
    rw [events_append, take_append_of_le_length (by simpa using hn)]
    exact hfold
  · show s.derived = surfaceMessages (events (s.log ++ [object])) state.nodes
    rw [hderived, events_append]
    exact (surfaceMessages_append _ hlt).symm

theorem deriveMessages_eq (hlive : Live s.log s.manager s.nextRef) (hcached : Cached s)
    {state : SurfaceFoldState} {replacements : List SurfaceFoldReplacement}
    (hfold : Folds s.events state replacements) :
    ∃ manager, s.deriveMessages = (.ok (surfaceMessages s.events state.nodes),
        { s with
          manager
          derived := surfaceMessages s.events state.nodes
          derivedNodes := state.nodes.length
          derivedGeneration := state.replaceGeneration }) ∧
      Live s.log manager s.nextRef := by
  have hlive' := hlive.readNodes
  have hlive'' := hlive'.readReplaceGeneration
  obtain ⟨heap, htracks⟩ := hlive.tracks
  have hnodes := readNodes_eq htracks hfold
  have hgeneration := readReplaceGeneration_eq (readNodes_tracks htracks) hfold
  refine ⟨_, ?_, hlive''⟩
  unfold Session.deriveMessages
  rw [show readNodes s.log s.manager = (.ok state.nodes, (readNodes s.log s.manager).2) from
    Prod.ext hnodes rfl]
  simp only
  rw [show readReplaceGeneration s.log (readNodes s.log s.manager).2 = (.ok state.replaceGeneration,
    (readReplaceGeneration s.log (readNodes s.log s.manager).2).2) from Prod.ext hgeneration rfl]
  simp only
  have hderived : ((if state.replaceGeneration ≠ s.derivedGeneration then [] else s.derived) ++
      (state.nodes.drop (if state.replaceGeneration ≠ s.derivedGeneration then 0
        else s.derivedNodes)).filterMap (Session.projectNode s.events)) =
        surfaceMessages s.events state.nodes := by
    by_cases hstale : state.replaceGeneration ≠ s.derivedGeneration
    · simp only [hstale, if_true, nil_append, drop_zero, ne_eq, not_false_eq_true]
      rfl
    · simp only [hstale, if_false]
      obtain ⟨n, state', replacements', hn, hfold', hlength, hgen, hcache⟩ := hcached
      obtain ⟨-, hsame⟩ := hfold.nodes_isPrefix (by simpa using hn) hfold'
      obtain ⟨more, hmore⟩ := hsame (by
        rw [← hgen]
        exact (Decidable.of_not_not hstale).symm)
      rw [hcache, hlength, ← hmore, drop_left]
      simp only [surfaceMessages, filterMap_append]
  rw [hderived]

theorem Sound.append (h : Sound platform s) (data : EventData) (opts : SurfaceIntent)
    (now : Clock) (veto : Option String) : Sound platform (s.append data opts now veto).2 := by
  rcases append_cases h.live data opts now veto with
    ⟨message, manager, nextRef, heq, hlive⟩ | ⟨event, manager, heq, hlive, hadmitted, -⟩
  · rw [heq]
    exact ⟨hlive, h.admitted, h.cached, h.header, h.inherited_le, h.inherited_eq⟩
  · rw [heq]
    refine ⟨hlive, ?_, h.cached.push, h.header, ?_, h.inherited_eq⟩
    · intro other hother
      have hother' : other ∈ s.events ++ [event] := by
        simpa [events_eq, events] using hother
      rcases mem_append.mp hother' with hother | hother
      · exact h.admitted other hother
      · rw [mem_singleton.mp hother]
        exact hadmitted
    · refine ⟨Nat.le_trans h.inherited_le.1 ?_, h.inherited_le.2⟩
      simp

theorem Sound.deriveMessages (h : Sound platform s) : Sound platform s.deriveMessages.2 := by
  obtain ⟨state, replacements, hfold⟩ := h.live.folds
  obtain ⟨manager, heq, hlive⟩ := deriveMessages_eq h.live h.cached hfold
  rw [heq]
  refine ⟨hlive, h.admitted, ?_, h.header, h.inherited_le, h.inherited_eq⟩
  refine ⟨s.log.length, state, replacements, Nat.le_refl _, ?_, rfl, rfl, rfl⟩
  have hall : s.events.take s.log.length = s.events := take_of_length_le (by simp)
  show Folds (s.events.take s.log.length) state replacements
  rw [hall]
  exact hfold

theorem sound_finish {seeded : SeededLog}
    (hfinish : Session.finish header seed supplied seeded = .ok s)
    (hlive : Live seeded.log seeded.manager seeded.nextRef)
    (hadmitted : ∀ event ∈ events seeded.log, Admitted event)
    (hheader : ∀ validHeader, header = .ok validHeader → HeaderAccepted platform validHeader) :
    Sound platform s ∧ s.log = seeded.log := by
  obtain ⟨-, validHeader, hvalid, -, hcount, hzero, hbound, rfl⟩ := finish_eq_ok.mp hfinish
  refine ⟨⟨hlive, hadmitted, ?_, hheader validHeader hvalid, ⟨hbound, hcount⟩, hzero⟩, rfl⟩
  exact ⟨0, createFoldState, [], Nat.zero_le _, Folds.nil, rfl, rfl, rfl⟩

theorem markSeed_eq_ok {now : Clock} (h : s.markSeed now = .ok next) :
    next = s ∨ next = (s.append .endSeed {} now none).2 := by
  unfold Session.markSeed at h
  split at h
  · exact Or.inl (Except.ok.inj h).symm
  · revert h
    rcases s.append .endSeed {} now none with ⟨message | event, s'⟩
    · intro h
      cases h
    · intro h
      exact Or.inr (Except.ok.inj h).symm

theorem sound_create {id : String} {header : Option Json} {now : Clock}
    (h : Session.create platform id seed header supplied now = .ok s) : Sound platform s := by
  unfold Session.create Session.build at h
  cases hseed : adoptSeed false 0 (seed.getD []) {} with
  | error message => simp [hseed] at h
  | ok seeded =>
    simp only [hseed] at h
    obtain ⟨hlive, hevents, hok⟩ := adoptSeed_sound hseed live_create
    have hadmitted : ∀ event ∈ events seeded.log, Admitted event := by
      intro event hevent
      rw [hevents] at hevent
      obtain ⟨i, hi, rfl⟩ := mem_iff_getElem.mp (show event ∈ seed.getD [] from hevent)
      have hseedOk := hok i hi
      exact ⟨hseedOk.lossless rfl, hseedOk.supported, hseedOk.time⟩
    have hheader : ∀ validHeader,
        snapshotSessionHeader platform id header now.millis = .ok validHeader →
          HeaderAccepted platform validHeader := by
      intro validHeader hvalid
      have hid := headerId_of_validateSessionHeader (snapshotSessionHeader_again hvalid).1
      unfold HeaderAccepted
      rw [hid]
      exact snapshotSessionHeader_again hvalid
    cases hfinish : Session.finish (snapshotSessionHeader platform id header now.millis) seed
        supplied seeded with
    | error message => simp [hfinish] at h
    | ok built =>
      simp only [hfinish] at h
      obtain ⟨hsound, -⟩ := sound_finish hfinish hlive hadmitted hheader
      cases seed with
      | none =>
        cases h
        exact hsound
      | some seed =>
        rcases markSeed_eq_ok h with rfl | rfl
        · exact hsound
        · exact hsound.append _ _ _ _

theorem Reachable.sound (h : Reachable platform s) : Sound platform s := by
  induction h with
  | create hcreate => exact sound_create hcreate
  | append data opts now veto _ ih => exact ih.append data opts now veto
  | deriveMessages _ ih => exact ih.deriveMessages

end Construction

end DshKernel.Session
