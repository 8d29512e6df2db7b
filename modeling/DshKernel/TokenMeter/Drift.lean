import DshKernel.TokenMeter.SurfaceTokens

/-!
# Drift of the running totals

A replacement that no event has metered moves the price of the surface but no running total. What
all of these have moved is the drift of a log: a running total is the price less the drift.
-/

namespace DshKernel.TokenMeter

open Js Session

structure DriftFold where
  nodes : List MeterSurfaceNode := []
  metered : Bool := false
  drift : Int := 0

section Folds

variable (R : Runtime)

/-- What an event adds to the drift when it turns `nodes` into `next`. -/
def unmeteredGrowth (nodes next : List MeterSurfaceNode) (metered : Bool) (event : SessionEvent) :
    Int :=
  if isReplacementSurfaceEvent event && !metered then
    surfaceTokens next - surfaceTokens nodes
  else 0

def driftEvent (fold : DriftFold) (event : SessionEvent) : Except String DriftFold :=
  match meterEvent R fold.nodes event with
  | .error message => .error message
  | .ok nodes => .ok {
      nodes
      metered := isMetering event
      drift := fold.drift + unmeteredGrowth fold.nodes nodes fold.metered event }

def driftSurface (log : List SessionEvent) : Except String DriftFold :=
  log.foldlM (driftEvent R) {}

/-- Every metering event has its declared payload, whose count is the price of the range that it
names on the surface at that point. -/
structure DeclaresPrices (log : List SessionEvent) : Prop where
  declared : ∀ event ∈ log, isMetering event = true →
    (shadowPriceClaim event.data.toJson).isSome = true
  priced : ∀ before event after claim, log = before ++ event :: after →
    isMetering event = true → shadowPriceClaim event.data.toJson = some claim →
    ∀ nodes startIdx endIdx, meterSurface R before = .ok nodes →
      (nodes.map (·.seq)).idxOf? claim.start = some startIdx →
      (nodes.map (·.seq)).idxOf? claim.end = some endIdx →
      claim.tokens = removedTokens nodes startIdx endIdx

end Folds

def KeepsClaims (log : List SessionEvent) : Prop :=
  ∀ before event after claim, log = before ++ event :: after →
    armedClaim before = some claim → isReplacementSurfaceEvent event = true →
    surfaceOpOf event = .ok (some (.replace claim.start claim.end))

section Steps

variable {R : Runtime} {log : List SessionEvent} {event : SessionEvent}
  {nodes : List MeterSurfaceNode} {state : SurfaceFoldState}

theorem DeclaresPrices.of_concat (h : DeclaresPrices R (log ++ [event])) : DeclaresPrices R log := by
  constructor
  · intro earlier hmem
    exact h.declared earlier (List.mem_append_left _ hmem)
  · intro before earlier after claim heq
    apply h.priced before earlier (after ++ [event]) claim
    rw [heq, List.append_assoc, List.cons_append]

theorem KeepsClaims.of_concat (h : KeepsClaims (log ++ [event])) : KeepsClaims log := by
  intro before earlier after claim heq
  apply h before earlier (after ++ [event]) claim
  rw [heq, List.append_assoc, List.cons_append]

theorem isReplacementSurfaceEvent_of_ok_replace {startSeq endSeq : Nat}
    (h : surfaceOpOf event = .ok (some (.replace startSeq endSeq))) :
    isReplacementSurfaceEvent event = true := by
  obtain ⟨hsurface, happend, -⟩ := replace_fields h
  simp [isReplacementSurfaceEvent, hsurface, happend]

theorem DeclaresPrices.price_of_armed (h : DeclaresPrices R log) {claim : ShadowPriceClaim}
    (harmed : armedClaim log = some claim) (hmeter : meterSurface R log = .ok nodes)
    {startIdx endIdx : Nat} (hstart : (nodes.map (·.seq)).idxOf? claim.start = some startIdx)
    (hend : (nodes.map (·.seq)).idxOf? claim.end = some endIdx) :
    claim.tokens = removedTokens nodes startIdx endIdx := by
  rcases List.eq_nil_or_concat log with rfl | ⟨before, event, rfl⟩
  · cases harmed
  rw [List.concat_eq_append] at *
  rw [armedClaim_concat] at harmed
  cases hmetering : isMetering event with
  | false => simp [hmetering] at harmed
  | true =>
    rw [hmetering, if_pos rfl] at harmed
    have hoff : isSurfaceEvent event = false := by
      cases hsurface : isSurfaceEvent event with
      | false => rfl
      | true =>
        rw [not_isMetering_of_isSurfaceEvent hsurface] at hmetering
        cases hmetering
    refine h.priced before event [] claim rfl hmetering harmed nodes startIdx endIdx ?_ hstart hend
    unfold meterSurface at hmeter ⊢
    rw [List.foldlM_append] at hmeter
    cases hbefore : before.foldlM (meterEvent R) [] with
    | error message =>
      rw [hbefore] at hmeter
      cases hmeter
    | ok earlier =>
      rw [hbefore] at hmeter
      have hsame : meterEvent R earlier event = .ok nodes :=
        (bind_pure (meterEvent R earlier event)).symm.trans hmeter
      rw [meterEvent, hoff] at hsame
      exact hsame

/-- What one accepted event does: the bounded fold moves by the difference of the two sums, but
for what goes into the drift. -/
def StepDrifts (R : Runtime) (log : List SessionEvent) (nodes : List MeterSurfaceNode)
    (event : SessionEvent) (seqs : List Nat) : Prop :=
  ∃ nodes', meterEvent R nodes event = .ok nodes' ∧ nodes'.map (·.seq) = seqs ∧
    foldSurfaceProjection R (armedClaim log) event =
      .ok ⟨surfaceTokens nodes' - surfaceTokens nodes -
        unmeteredGrowth nodes nodes' (armedClaim log).isSome event, armedClaim (log ++ [event])⟩

theorem StepAgrees.drifts {seqs : List Nat} (h : StepAgrees R log nodes event seqs)
    (hmetered : (isReplacementSurfaceEvent event && !(armedClaim log).isSome) = false) :
    StepDrifts R log nodes event seqs := by
  obtain ⟨nodes', hmeter, hseqs, hfold⟩ := h
  refine ⟨nodes', hmeter, hseqs, ?_⟩
  rw [unmeteredGrowth, hmetered, hfold]
  simp

theorem stepDrifts_unmetered {startSeq endSeq : Nat} {range : SurfaceRange}
    (harmed : armedClaim log = none) (hseqs : nodes.map (·.seq) = state.nodes)
    (hop : surfaceOpOf event = .ok (some (.replace startSeq endSeq)))
    (hrange : replacementRange state startSeq endSeq = .ok range) :
    StepDrifts R log nodes event
      (state.nodes.take range.startIdx ++ event.seq :: state.nodes.drop (range.endIdx + 1)) := by
  obtain ⟨nodes', hmeter, hseqs', -⟩ := @meterEvent_replace R _ _ _ _ _ _ hseqs hop hrange
  obtain ⟨hsurface, happend, -⟩ := replace_fields hop
  have hmetering := not_isMetering_of_isSurfaceEvent hsurface
  refine ⟨nodes', hmeter, hseqs', ?_⟩
  rw [armedClaim_concat, harmed, unmeteredGrowth, isReplacementSurfaceEvent_of_ok_replace hop]
  simp [foldSurfaceProjection, hmetering, hsurface, happend]

theorem stepDrifts_of_plan (hprices : DeclaresPrices R (log ++ [event]))
    (hclaims : KeepsClaims (log ++ [event])) (hmeter : meterSurface R log = .ok nodes)
    (hseqs : nodes.map (·.seq) = state.nodes) {plan : Option SurfacePlan}
    (hplan : planSurfaceEvent state event log.length log 0 = .ok plan) :
    StepDrifts R log nodes event (applySurfacePlan state plan).1.nodes := by
  obtain ⟨hseq, hcases⟩ := planSurfaceEvent_cases hplan
  rcases hcases with ⟨rfl, hop⟩ | ⟨rfl, hop, -⟩ | ⟨startSeq, endSeq, range, rfl, hop, hrange, -, -⟩
  · have hoff := not_isSurfaceEvent_of_ok_none hop
    apply (stepAgrees_offSurface (hprices.declared event (by simp)) hop hseqs).drifts
    simp [isReplacementSurfaceEvent, hoff]
  · have happend := (isAppendOp_of_ok_append hop).2
    rw [← hseq]
    apply (stepAgrees_append hop hseqs).drifts
    simp [isReplacementSurfaceEvent, happend]
  · rw [← hseq]
    cases harmed : armedClaim log with
    | none => exact stepDrifts_unmetered harmed hseqs hop hrange
    | some claim =>
      have hcovers := hclaims log event [] claim rfl harmed
        (isReplacementSurfaceEvent_of_ok_replace hop)
      rw [hop] at hcovers
      cases hcovers
      obtain ⟨hstartIdx, hendIdx, -, -⟩ := replacementRange_ok hrange
      rw [← hseqs] at hstartIdx hendIdx
      have htokens := hprices.of_concat.price_of_armed harmed hmeter hstartIdx hendIdx
      apply (stepAgrees_replace harmed hseqs hop hrange htokens).drifts
      simp [harmed]

end Steps

/-- The folds of a log beside the nodes of its surface: none throws, and the running totals are
the price of the surface less the drift. -/
structure Drifts (R : Runtime) (log : List SessionEvent) (seqs : List Nat) (fold : DriftFold)
    (breakdown : ContextBreakdownState) (pressure : ContextPressureState) : Prop where
  positional : meterSurface R log = .ok fold.nodes
  foldsDrift : driftSurface R log = .ok fold
  foldsBreakdown : foldContextBreakdown R log = .ok breakdown
  foldsPressure : foldContextPressure R log = .ok pressure
  nodeSeqs : fold.nodes.map (·.seq) = seqs
  metered : fold.metered = (armedClaim log).isSome
  messageTokens : breakdown.messageTokens = surfaceTokens fold.nodes - fold.drift
  pressureTokens : pressure.surfaceTokens = surfaceTokens fold.nodes - fold.drift
  breakdownClaim : breakdown.claim = armedClaim log
  pressureClaim : pressure.claim = armedClaim log

section Runs

variable {R : Runtime} {log : List SessionEvent} {event : SessionEvent} {seqs seqs' : List Nat}
  {fold : DriftFold} {breakdown : ContextBreakdownState} {pressure : ContextPressureState}

theorem Drifts.concat (h : Drifts R log seqs fold breakdown pressure)
    (hdeclared : isMetering event = true → (shadowPriceClaim event.data.toJson).isSome = true)
    (hstep : StepDrifts R log fold.nodes event seqs') :
    ∃ fold breakdown pressure, Drifts R (log ++ [event]) seqs' fold breakdown pressure := by
  obtain ⟨nodes', hmeter, hseqs, hfold⟩ := hstep
  have hbreakdownFold := hfold
  rw [← h.breakdownClaim] at hbreakdownFold
  have hpressureFold := hfold
  rw [← h.pressureClaim] at hpressureFold
  obtain ⟨breakdown', hbreakdown, hmessages, hclaim⟩ := applyContextBreakdown_ok hbreakdownFold
  obtain ⟨pressure', hpressure, htokens, hclaim'⟩ := applyContextPressure_ok hpressureFold
  have hdrift : driftEvent R fold event = .ok {
      nodes := nodes'
      metered := isMetering event
      drift := fold.drift + unmeteredGrowth fold.nodes nodes' fold.metered event } := by
    rw [driftEvent, hmeter]
  refine ⟨_, breakdown', pressure', {
    positional := foldlM_concat h.positional hmeter
    foldsDrift := foldlM_concat h.foldsDrift hdrift
    foldsBreakdown := foldlM_concat h.foldsBreakdown hbreakdown
    foldsPressure := foldlM_concat h.foldsPressure hpressure
    nodeSeqs := hseqs
    metered := ?_
    messageTokens := ?_
    pressureTokens := ?_
    breakdownClaim := hclaim
    pressureClaim := hclaim' }⟩
  · show isMetering event = _
    rw [armedClaim_concat]
    cases hmetering : isMetering event with
    | false => rfl
    | true => exact (hdeclared hmetering).symm
  · rw [hmessages, h.messageTokens, h.breakdownClaim, ← h.metered]
    show (surfaceTokens fold.nodes - fold.drift + (surfaceTokens nodes' -
      surfaceTokens fold.nodes - _) : Int) = surfaceTokens nodes' - (fold.drift + _)
    omega
  · rw [htokens, h.pressureTokens, h.pressureClaim, ← h.metered]
    show (surfaceTokens fold.nodes - fold.drift + (surfaceTokens nodes' -
      surfaceTokens fold.nodes - _) : Int) = surfaceTokens nodes' - (fold.drift + _)
    omega

theorem exists_drifts {state : SurfaceFoldState} {replacements : List SurfaceFoldReplacement}
    (h : Folds log state replacements) (hprices : DeclaresPrices R log)
    (hclaims : KeepsClaims log) :
    ∃ fold breakdown pressure, Drifts R log state.nodes fold breakdown pressure := by
  induction h with
  | nil => exact ⟨{}, {}, {}, ⟨rfl, rfl, rfl, rfl, rfl, rfl, rfl, rfl, rfl, rfl⟩⟩
  | @snoc log state replacements event plan _ _ hplan ih =>
    obtain ⟨fold, breakdown, pressure, hdrifts⟩ := ih hprices.of_concat hclaims.of_concat
    exact hdrifts.concat (hprices.declared event (by simp))
      (stepDrifts_of_plan hprices hclaims hdrifts.positional hdrifts.nodeSeqs hplan)

end Runs

end DshKernel.TokenMeter
