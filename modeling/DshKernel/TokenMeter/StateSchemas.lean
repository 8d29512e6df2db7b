import DshKernel.TokenMeter.Drift
import DshKernel.TokenMeter.UsageReports
import Mathlib.Data.List.Induction

/-!
# The states against their schemas

The three token states keep to their schemas at every event of a log: each event brings amounts that
these admit, and no metered replacement takes off more than there is.
-/

namespace DshKernel.TokenMeter

open Js Session List

/-- `z.number().int().nonnegative()` on an exact count -/
def tokenCount (value : Int) : Bool := decide (0 ≤ value ∧ value ≤ maxSafeInteger)

/-- `z.number().int().positive()` -/
def positiveInt (value : Number) : Bool := nonnegativeInt value && decide (0 < value.toInt)

def sessionSeq (seq : Nat) : Bool := decide (seq ≤ maxSafeInteger)

def claimSchema (claim : ShadowPriceClaim) : Bool :=
  sessionSeq claim.start && sessionSeq claim.end && tokenCount claim.tokens

def contextBreakdownStateSchema (state : ContextBreakdownState) : Bool :=
  tokenCount state.systemTokens && tokenCount state.toolsTokens && tokenCount state.messageTokens
    && state.claim.all claimSchema

def contextPressureStateSchema (state : ContextPressureState) : Bool :=
  state.contextWindow.all positiveInt && state.pressureTokens.all nonnegativeInt
    && tokenCount state.surfaceTokens && state.sampledSurfaceTokens.all tokenCount
    && state.claim.all claimSchema

def windowFits (event : SessionEvent) : Bool :=
  match event.data with
  | .requestContext context => context.contextWindow.all positiveInt
  | _ => true

def claimFits (event : SessionEvent) : Bool :=
  !isMetering event || (shadowPriceClaim event.data.toJson).all fun claim => tokenCount claim.tokens

section Events

variable (R : Runtime)

def headerFits (event : SessionEvent) : Bool :=
  match event.data with
  | .requestHeader data =>
    tokenCount (estimateSystemTokens (canonicalHeader data.header))
      && tokenCount (estimateToolsTokens R.stringify (canonicalHeader data.header))
  | _ => true

def pressureFits (event : SessionEvent) : Bool :=
  (usageOf event).all fun usage => nonnegativeInt (pressureFrom R usage)

def eventFits (event : SessionEvent) : Bool :=
  headerFits R event && windowFits event && pressureFits R event && claimFits event
    && (reportOf event).all reportFits

def StatesPass (A : Arithmetic) (log : List SessionEvent) : Prop :=
  ∃ breakdown pressure, foldContextBreakdown R log = .ok breakdown ∧
    foldContextPressure R log = .ok pressure ∧
    contextBreakdownStateSchema breakdown = true ∧ contextPressureStateSchema pressure = true ∧
    tokenUsageStateSchema (foldTokenUsage A log) = true

def Balanced (log : List SessionEvent) : Prop :=
  ∀ fold, driftSurface R log = .ok fold →
    tokenCount (surfaceTokens fold.nodes - fold.drift) = true

structure Accountable (log : List SessionEvent) : Prop where
  claims : KeepsClaims log
  events : ∀ event ∈ log, eventFits R event = true
  balance : ∀ n, Balanced R (log.take n)
  sums : ∀ n, SumsFit (usageReports (log.take n))

end Events

section Steps

variable {R : Runtime} {event : SessionEvent} {claim : ShadowPriceClaim}

theorem isEventSeq_le {value : Json} {seq : Nat} (h : isEventSeq value = some seq) :
    seq ≤ maxSafeInteger := by
  unfold isEventSeq at h
  split at h
  · split at h
    · rename_i hz
      cases h
      exact hz.2
    · cases h
  · cases h

theorem claimSchema_of_shadowPriceClaim {data : Json} (h : shadowPriceClaim data = some claim) :
    claimSchema claim = tokenCount claim.tokens := by
  unfold shadowPriceClaim at h
  split at h
  · split at h
    · rename_i startSeq endSeq hstart hend
      cases h
      obtain ⟨startValue, -, hstartSeq⟩ := Option.bind_eq_some_iff.mp hstart
      obtain ⟨endValue, -, hendSeq⟩ := Option.bind_eq_some_iff.mp hend
      simp [claimSchema, sessionSeq, isEventSeq_le hstartSeq, isEventSeq_le hendSeq]
    · cases h
  · cases h

variable {before : Option ShadowPriceClaim} {fold : SurfaceTokensFold}

theorem foldSurfaceProjection_claim
    (h : foldSurfaceProjection R before event = .ok fold) :
    fold.claim = if isMetering event then shadowPriceClaim event.data.toJson else none := by
  unfold foldSurfaceProjection at h
  dsimp only at h
  cases hmetering : isMetering event with
  | true =>
    rw [hmetering, if_pos rfl] at h
    cases hclaim : shadowPriceClaim event.data.toJson with
    | none =>
      rw [hclaim] at h
      cases h
    | some claim =>
      rw [hclaim] at h
      cases h
      rfl
  | false =>
    rw [hmetering, if_neg Bool.false_ne_true] at h
    rw [if_neg Bool.false_ne_true]
    split at h
    · cases h
      rfl
    · split at h
      · cases h
        rfl
      · split at h
        · cases h
          rfl
        · split at h
          · cases h
            rfl
          · cases h

theorem all_claimSchema
    (h : foldSurfaceProjection R before event = .ok fold) :
    fold.claim.all claimSchema = claimFits event := by
  rw [foldSurfaceProjection_claim h, claimFits]
  cases isMetering event with
  | false => rfl
  | true =>
    cases hclaim : shadowPriceClaim event.data.toJson with
    | none => rfl
    | some claim => simp [claimSchema_of_shadowPriceClaim hclaim]

theorem covers_of_ok {startSeq endSeq : Nat}
    (hop : surfaceOpOf event = .ok (some (.replace startSeq endSeq)))
    (h : foldSurfaceProjection R (some claim) event = .ok fold) :
    startSeq = claim.start ∧ endSeq = claim.end := by
  obtain ⟨hsurface, happend, startValue, endValue, hstart, hend, hstartSeq, hendSeq⟩ :=
    replace_fields hop
  have hmetering := not_isMetering_of_isSurfaceEvent hsurface
  by_cases hcovers : startSeq = claim.start ∧ endSeq = claim.end
  · exact hcovers
  · have hfails : (seqIs (some startValue) claim.start && seqIs (some endValue) claim.end) =
        false := by
      rw [eq_of_isEventSeq hstartSeq, eq_of_isEventSeq hendSeq]
      simp only [seqIs, Number.strictEq_ofNat, Bool.and_eq_false_iff, beq_eq_false_iff_ne]
      by_cases hstartSeq : startSeq = claim.start
      · exact Or.inr fun heq => hcovers ⟨hstartSeq, heq.symm⟩
      · exact Or.inl fun heq => hstartSeq heq.symm
    simp [foldSurfaceProjection, hmetering, hsurface, happend, hstart, hend, hfails] at h

theorem breakdown_passes_iff {state next : ContextBreakdownState}
    (hpass : contextBreakdownStateSchema state = true)
    (h : applyContextBreakdown R state event = .ok next) :
    contextBreakdownStateSchema next = true ↔
      headerFits R event = true ∧ claimFits event = true ∧
        tokenCount next.messageTokens = true := by
  unfold applyContextBreakdown at h
  cases hfold : foldSurfaceProjection R state.claim event with
  | error message =>
    rw [hfold] at h
    cases h
  | ok fold =>
    rw [hfold] at h
    cases h
    unfold contextBreakdownStateSchema at hpass ⊢
    rw [Bool.and_eq_true, Bool.and_eq_true, Bool.and_eq_true] at hpass ⊢
    rw [all_claimSchema hfold]
    obtain ⟨⟨⟨hsystem, htools⟩, -⟩, -⟩ := hpass
    unfold headerFits
    cases event.data with
    | requestHeader data =>
      simp only [Option.map_some, Option.getD_some, Bool.and_eq_true]
      constructor
      · rintro ⟨⟨hheader, hmessages⟩, hclaim⟩
        exact ⟨hheader, hclaim, hmessages⟩
      · rintro ⟨hheader, hclaim, hmessages⟩
        exact ⟨⟨hheader, hmessages⟩, hclaim⟩
    | _ =>
      simp only [Option.map_none, Option.getD_none, hsystem, htools, true_and]
      exact And.comm

theorem pressure_passes_iff {state next : ContextPressureState}
    (hpass : contextPressureStateSchema state = true)
    (h : applyContextPressure R state event = .ok next) :
    contextPressureStateSchema next = true ↔
      windowFits event = true ∧ pressureFits R event = true ∧ claimFits event = true ∧
        tokenCount next.surfaceTokens = true := by
  unfold applyContextPressure at h
  cases hfold : foldSurfaceProjection R state.claim event with
  | error message =>
    rw [hfold] at h
    cases h
  | ok fold =>
    rw [hfold] at h
    cases h
    unfold contextPressureStateSchema at hpass ⊢
    rw [Bool.and_eq_true, Bool.and_eq_true, Bool.and_eq_true, Bool.and_eq_true] at hpass ⊢
    rw [all_claimSchema hfold]
    obtain ⟨⟨⟨⟨hwindow, hpressure⟩, hsurface⟩, hsampled⟩, -⟩ := hpass
    unfold windowFits pressureFits sampleUsage
    cases usageOf event with
    | none =>
      cases event.data with
      | requestContext context =>
        simp only [hpressure, hsampled, Option.all_none, and_true, true_and]
        exact ⟨fun ⟨⟨hfits, htokens⟩, hclaim⟩ => ⟨hfits, hclaim, htokens⟩,
          fun ⟨hfits, hclaim, htokens⟩ => ⟨⟨hfits, htokens⟩, hclaim⟩⟩
      | _ =>
        simp only [hwindow, hpressure, hsampled, Option.all_none, and_true, true_and]
        exact And.comm
    | some usage =>
      cases event.data with
      | requestContext context =>
        simp only [Option.all_some, hsurface, and_true]
        exact ⟨fun ⟨⟨⟨hfits, hcount⟩, htokens⟩, hclaim⟩ => ⟨hfits, hcount, hclaim, htokens⟩,
          fun ⟨hfits, hcount, hclaim, htokens⟩ => ⟨⟨⟨hfits, hcount⟩, htokens⟩, hclaim⟩⟩
      | _ =>
        simp only [hwindow, Option.all_some, hsurface, and_true, true_and]
        exact ⟨fun ⟨⟨hcount, htokens⟩, hclaim⟩ => ⟨hcount, hclaim, htokens⟩,
          fun ⟨hcount, hclaim, htokens⟩ => ⟨⟨hcount, htokens⟩, hclaim⟩⟩

end Steps

section Runs

variable {R : Runtime} {A : Arithmetic} {log : List SessionEvent} {event : SessionEvent}

theorem forall_take_concat {α : Type} {P : List α → Prop} (items : List α) (item : α) :
    (∀ n, P ((items ++ [item]).take n)) ↔ (∀ n, P (items.take n)) ∧ P (items ++ [item]) := by
  constructor
  · intro h
    constructor
    · intro n
      rcases Nat.lt_or_ge items.length n with hlt | hge
      · rw [take_of_length_le (by omega)]
        have hwhole := h items.length
        rwa [take_left] at hwhole
      · have hn := h n
        rwa [take_append_of_le_length hge] at hn
    · have hwhole := h (items.length + 1)
      rwa [take_of_length_le (by simp)] at hwhole
  · rintro ⟨hearlier, hwhole⟩ n
    rcases Nat.lt_or_ge items.length n with hlt | hge
    · rwa [take_of_length_le (by simp; omega)]
    · rw [take_append_of_le_length hge]
      exact hearlier n

theorem keepsClaims_nil : KeepsClaims [] := by
  intro before event after claim heq
  have hlength := congrArg length heq
  simp at hlength

theorem KeepsClaims.concat (h : KeepsClaims log)
    (hlast : ∀ claim, armedClaim log = some claim → isReplacementSurfaceEvent event = true →
      surfaceOpOf event = .ok (some (.replace claim.start claim.end))) :
    KeepsClaims (log ++ [event]) := by
  intro before earlier after claim heq
  rcases eq_nil_or_concat after with rfl | ⟨rest, last, rfl⟩
  · obtain ⟨rfl, hevent⟩ := append_inj' heq rfl
    cases hevent
    exact hlast claim
  · have heq' : log ++ [event] = (before ++ earlier :: rest) ++ [last] := by
      rw [heq]
      simp
    obtain ⟨hlog, -⟩ := append_inj' heq' rfl
    exact h before earlier rest claim hlog

theorem accountable_concat :
    Accountable R (log ++ [event]) ↔ Accountable R log ∧ KeepsClaims (log ++ [event]) ∧
      eventFits R event = true ∧ Balanced R (log ++ [event]) ∧
      SumsFit (usageReports (log ++ [event])) := by
  constructor
  · intro h
    obtain ⟨hbalance, hbalanced⟩ := (forall_take_concat log event).mp h.balance
    obtain ⟨hsums, hsum⟩ :=
      (forall_take_concat (P := fun log => SumsFit (usageReports log)) log event).mp h.sums
    refine ⟨⟨h.claims.of_concat, ?_, hbalance, hsums⟩, h.claims, ?_, hbalanced, hsum⟩
    · intro earlier hmem
      exact h.events earlier (mem_append_left _ hmem)
    · exact h.events event (by simp)
  · rintro ⟨h, hclaims, hfits, hbalanced, hsum⟩
    refine ⟨hclaims, ?_, (forall_take_concat log event).mpr ⟨h.balance, hbalanced⟩,
      (forall_take_concat (P := fun log => SumsFit (usageReports log)) log event).mpr
        ⟨h.sums, hsum⟩⟩
    intro earlier hmem
    rcases mem_append.mp hmem with hearlier | hlast
    · exact h.events earlier hearlier
    · rw [mem_singleton.mp hlast]
      exact hfits

theorem tracks_of_pass
    (h : ∀ n, tokenUsageStateSchema (foldTokenUsage A (log.take n)) = true) :
    Tracks (usageReports log) (foldTokenUsage A log) := by
  induction log using reverseRecOn with
  | nil =>
    refine ⟨rfl, ?_, ?_⟩
    · intro bucket
      cases bucket <;> rfl
    · intro buckets hmem
      cases hmem
  | append_singleton log event ih =>
    obtain ⟨hearlier, hwhole⟩ := (forall_take_concat
      (P := fun log => tokenUsageStateSchema (foldTokenUsage A log) = true) log event).mp h
    have hpass := hearlier log.length
    rw [take_length] at hpass
    unfold foldTokenUsage usageReports at *
    rw [foldl_append] at hwhole ⊢
    rw [foldl_append]
    exact ((ih hearlier).step hpass event).2 hwhole

theorem mem_eventFits_iff :
    eventFits R event = true ↔ headerFits R event = true ∧ windowFits event = true ∧
      pressureFits R event = true ∧ claimFits event = true ∧
      (reportOf event).all reportFits = true := by
  simp [eventFits, and_assoc]

theorem statesPass_concat_iff {seqs seqs' : List Nat} {fold fold' : DriftFold}
    {breakdown breakdown' : ContextBreakdownState} {pressure pressure' : ContextPressureState}
    (hpass : ∀ n, StatesPass R A (log.take n)) (h : Drifts R log seqs fold breakdown pressure)
    (h' : Drifts R (log ++ [event]) seqs' fold' breakdown' pressure') :
    StatesPass R A (log ++ [event]) ↔ eventFits R event = true ∧ Balanced R (log ++ [event]) ∧
      SumsFit (usageReports (log ++ [event])) := by
  have hlast := hpass log.length
  rw [take_length] at hlast
  obtain ⟨before, before', hbreakdown, hpressure, hbreakdownPass, hpressurePass, husagePass⟩ :=
    hlast
  cases h.foldsBreakdown.symm.trans hbreakdown
  cases h.foldsPressure.symm.trans hpressure
  have hbreakdownStep : applyContextBreakdown R breakdown event = .ok breakdown' := by
    have hfold := h'.foldsBreakdown
    unfold foldContextBreakdown at hfold hbreakdown
    rw [foldlM_append, hbreakdown] at hfold
    exact (bind_pure (applyContextBreakdown R breakdown event)).symm.trans hfold
  have hpressureStep : applyContextPressure R pressure event = .ok pressure' := by
    have hfold := h'.foldsPressure
    unfold foldContextPressure at hfold hpressure
    rw [foldlM_append, hpressure] at hfold
    exact (bind_pure (applyContextPressure R pressure event)).symm.trans hfold
  have husage : foldTokenUsage A (log ++ [event]) =
      applyTokenUsage A (foldTokenUsage A log) event := by
    simp [foldTokenUsage]
  have hreports : usageReports (log ++ [event]) = (usageReports log).event event := by
    simp [usageReports]
  have htracks : Tracks (usageReports log) (foldTokenUsage A log) := by
    apply tracks_of_pass
    intro n
    obtain ⟨-, -, -, -, -, -, hn⟩ := hpass n
    exact hn
  have hbreakdownIff := breakdown_passes_iff hbreakdownPass hbreakdownStep
  have hpressureIff := pressure_passes_iff hpressurePass hpressureStep
  have husageIff := (htracks.step (A := A) husagePass event).1
  rw [h'.messageTokens] at hbreakdownIff
  rw [h'.pressureTokens] at hpressureIff
  have hbalanced : Balanced R (log ++ [event]) ↔
      tokenCount (surfaceTokens fold'.nodes - fold'.drift) = true := by
    constructor
    · intro hall
      exact hall fold' h'.foldsDrift
    · intro hcount other hother
      cases h'.foldsDrift.symm.trans hother
      exact hcount
  rw [mem_eventFits_iff, hbalanced, hreports]
  constructor
  · rintro ⟨_, _, hother, hother', hpassed, hpassed', husagePassed⟩
    cases h'.foldsBreakdown.symm.trans hother
    cases h'.foldsPressure.symm.trans hother'
    rw [husage] at husagePassed
    obtain ⟨hheader, hclaim, hcount⟩ := hbreakdownIff.mp hpassed
    obtain ⟨hwindow, hprompt, -, -⟩ := hpressureIff.mp hpassed'
    obtain ⟨hreport, hsums⟩ := husageIff.mp husagePassed
    exact ⟨⟨hheader, hwindow, hprompt, hclaim, hreport⟩, hcount, hsums⟩
  · rintro ⟨⟨hheader, hwindow, hprompt, hclaim, hreport⟩, hcount, hsums⟩
    refine ⟨_, _, h'.foldsBreakdown, h'.foldsPressure,
      hbreakdownIff.mpr ⟨hheader, hclaim, hcount⟩,
      hpressureIff.mpr ⟨hwindow, hprompt, hclaim, hcount⟩, ?_⟩
    rw [husage]
    exact husageIff.mpr ⟨hreport, hsums⟩

variable {state : SurfaceFoldState}

theorem keepsClaims_of_pass {seqs : List Nat} {fold : DriftFold}
    {breakdown : ContextBreakdownState} {pressure : ContextPressureState}
    {plan : Option SurfacePlan} (hclaims : KeepsClaims log)
    (h : Drifts R log seqs fold breakdown pressure)
    (hplan : planSurfaceEvent state event log.length log 0 = .ok plan)
    (hpass : StatesPass R A (log ++ [event])) : KeepsClaims (log ++ [event]) := by
  apply hclaims.concat
  intro claim harmed hreplacement
  obtain ⟨after, -, hafter, -, -, -, -⟩ := hpass
  have hbreakdown := h.foldsBreakdown
  unfold foldContextBreakdown at hafter hbreakdown
  rw [foldlM_append, hbreakdown] at hafter
  have hstep : applyContextBreakdown R breakdown event = .ok after :=
    (bind_pure (applyContextBreakdown R breakdown event)).symm.trans hafter
  unfold applyContextBreakdown at hstep
  rw [h.breakdownClaim, harmed] at hstep
  obtain ⟨-, hcases⟩ := planSurfaceEvent_cases hplan
  rcases hcases with ⟨-, hop⟩ | ⟨-, hop, -⟩ | ⟨startSeq, endSeq, range, -, hop, -, -, -⟩
  · simp [isReplacementSurfaceEvent, not_isSurfaceEvent_of_ok_none hop] at hreplacement
  · simp [isReplacementSurfaceEvent, (isAppendOp_of_ok_append hop).2] at hreplacement
  · cases hfold : foldSurfaceProjection R (some claim) event with
    | error message =>
      rw [hfold] at hstep
      cases hstep
    | ok fold =>
      obtain ⟨hstart, hend⟩ := covers_of_ok hop hfold
      rw [hop, hstart, hend]

theorem states_pass_iff_of_folds
    {replacements : List SurfaceFoldReplacement} (h : Folds log state replacements)
    (hprices : DeclaresPrices R log) : (∀ n, StatesPass R A (log.take n)) ↔ Accountable R log := by
  induction h with
  | nil =>
    constructor
    · intro _
      refine ⟨keepsClaims_nil, by simp, ?_, ?_⟩
      · intro n fold hfold
        rw [take_nil] at hfold
        cases hfold
        decide
      · intro n bucket
        rw [take_nil]
        cases bucket <;> decide
    · intro _ n
      rw [take_nil]
      exact ⟨{}, {}, rfl, rfl, by decide, by decide, rfl⟩
  | @snoc log state replacements event plan hfolds hle hplan ih =>
    have ih := ih hprices.of_concat
    have hnext := Folds.snoc hfolds hle hplan
    rw [forall_take_concat, accountable_concat, ← ih]
    apply and_congr_right
    intro hpass
    obtain ⟨fold, breakdown, pressure, hdrifts⟩ :=
      exists_drifts hfolds hprices.of_concat (ih.mp hpass).claims
    constructor
    · intro hlast
      have hclaims := keepsClaims_of_pass (ih.mp hpass).claims hdrifts hplan hlast
      obtain ⟨_, _, _, hdrifts'⟩ := exists_drifts hnext hprices hclaims
      exact ⟨hclaims, (statesPass_concat_iff hpass hdrifts hdrifts').mp hlast⟩
    · rintro ⟨hclaims, hlast⟩
      obtain ⟨_, _, _, hdrifts'⟩ := exists_drifts hnext hprices hclaims
      exact (statesPass_concat_iff hpass hdrifts hdrifts').mpr hlast

end Runs

/-- Where metering events declare the prices of their ranges, every state passes its schema at every
event exactly when each event brings admitted amounts and no sum leaves what the schemas admit. -/
theorem states_pass_iff (R : Runtime) (A : Arithmetic) (log : List SessionEvent)
    (result : SurfaceFoldResult) (haccepted : foldSurface log = .ok result)
    (hprices : DeclaresPrices R log) : (∀ n, StatesPass R A (log.take n)) ↔ Accountable R log := by
  obtain ⟨state, hfolds, -⟩ := exists_folds_of_foldSurface haccepted
  exact states_pass_iff_of_folds hfolds hprices

theorem declaresPrices_of_four {R : Runtime} {first second metering last : SessionEvent}
    {claim : ShadowPriceClaim} (hfirst : isMetering first = false)
    (hsecond : isMetering second = false) (hlast : isMetering last = false)
    (hclaim : shadowPriceClaim metering.data.toJson = some claim)
    (hprice : ∀ nodes startIdx endIdx, meterSurface R [first, second] = .ok nodes →
      (nodes.map (·.seq)).idxOf? claim.start = some startIdx →
      (nodes.map (·.seq)).idxOf? claim.end = some endIdx →
      claim.tokens = removedTokens nodes startIdx endIdx) :
    DeclaresPrices R [first, second, metering, last] := by
  constructor
  · intro event hmem hmetering
    simp only [mem_cons, not_mem_nil, or_false] at hmem
    rcases hmem with rfl | rfl | rfl | rfl
    · simp [hfirst] at hmetering
    · simp [hsecond] at hmetering
    · simp [hclaim]
    · simp [hlast] at hmetering
  · intro before event after other heq hmetering hother
    rcases before with _ | ⟨_, _ | ⟨_, _ | ⟨_, _ | ⟨_, before⟩⟩⟩⟩
    · cases heq
      simp [hfirst] at hmetering
    · cases heq
      simp [hsecond] at hmetering
    · cases heq
      cases hclaim.symm.trans hother
      exact hprice
    · cases heq
      simp [hlast] at hmetering
    · simp at heq

theorem declaresPrices_summarizedLog : DeclaresPrices plainRuntime summarizedLog := by
  apply declaresPrices_of_four rfl rfl rfl rfl
  intro nodes startIdx endIdx hmeter hstart hend
  cases hmeter
  cases hstart
  cases hend
  rfl

theorem states_pass_iff_summarizedLog :
    (∀ n, StatesPass plainRuntime Arithmetic.nearest (summarizedLog.take n)) ↔
      Accountable plainRuntime summarizedLog :=
  states_pass_iff plainRuntime Arithmetic.nearest summarizedLog ⟨[3], [⟨3, 0, 1, [0, 1]⟩]⟩ rfl
    declaresPrices_summarizedLog

theorem summary_notMem_coreEventTypes : "compaction/summary" ∉ coreEventTypes := by decide

/-- A message that is replaced by a longer one without a price, and then by a short one with the
price of the longer. -/
def expandedLog : List SessionEvent :=
  [saidAt 0 "Hi" (.str "append") none,
    saidAt 1 "The quick brown fox jumps over the lazy dog."
      (.obj [("op", .str "replace"), ("start", .ofNat 0), ("end", .ofNat 0)])
      (some (.arr [.ofNat 0])),
    { seq := 2
      time := .ofNat 0
      data := .extension ⟨"compaction/summary", summary_notMem_coreEventTypes⟩ (.obj [
        ("shadowedRange", .obj [("start", .ofNat 1), ("end", .ofNat 1)]),
        ("shadowedTokenCount", .ofNat 19)]) },
    saidAt 3 "Ok" (.obj [("op", .str "replace"), ("start", .ofNat 1), ("end", .ofNat 1)])
      (some (.arr [.ofNat 1]))]

theorem declaresPrices_expandedLog : DeclaresPrices plainRuntime expandedLog := by
  apply declaresPrices_of_four rfl rfl rfl rfl
  intro nodes startIdx endIdx hmeter hstart hend
  cases hmeter
  cases hstart
  cases hend
  rfl

/-- The running total is one below zero after the second replacement. -/
theorem expandedLog_leaves_schema :
    ∃ result breakdown, foldSurface expandedLog = .ok result ∧
      DeclaresPrices plainRuntime expandedLog ∧
      foldContextBreakdown plainRuntime expandedLog = .ok breakdown ∧
      breakdown.messageTokens = -1 ∧ contextBreakdownStateSchema breakdown = false :=
  ⟨⟨[3], [⟨1, 0, 0, [0]⟩, ⟨3, 1, 1, [1]⟩]⟩, ⟨0, 0, -1, none⟩, rfl, declaresPrices_expandedLog,
    rfl, rfl, by decide⟩

end DshKernel.TokenMeter
