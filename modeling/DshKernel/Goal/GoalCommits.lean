import DshKernel.Goal.GoalService
import DshKernel.Goal.ProjectionFold
import DshKernel.Goal.ProjectionFold

/-!
# What the goal service commits

A legal state is one that the service can have built. A request that is accepted on it moves the
goal in one of a few ways, and the fold takes each of them.
-/

namespace DshKernel.Goal

open Js

/-! ## Legal states -/

structure GoalSnapshot.Valid (goal : GoalSnapshot) : Prop where
  id : goal.id ≠ ""
  objective : isNormalized goal.objective = true
  revision : 1 ≤ goal.revision
  cap : 1 ≤ goal.maxGoalRounds ∧ goal.maxGoalRounds ≤ maxSafeInteger
  blocked : goal.blockedReason.isSome = decide (goal.phase = .blocked)
  reason : ∀ reason ∈ goal.blockedReason,
    isLowerKebab reason.code = true ∧ isNormalized reason.message = true

structure GoalProjection.Legal (bound : Nat) (current : GoalProjection) : Prop where
  goal : current.goal.Valid
  revision : current.goal.revision ≤ bound
  rounds : current.roundsStarted ≤ current.goal.maxGoalRounds
  times : current.createdAt ≤ current.updatedAt ∧ current.updatedAt ≤ 8640000000000000

structure GoalProjectionState.Legal (bound : Nat) (state : GoalProjectionState) : Prop where
  failure : state.failure = none
  ids : ∀ id ∈ state.seenGoalIds, id ≠ ""
  nodup : state.seenGoalIds.Nodup
  current : ∀ current ∈ state.current, current.Legal bound ∧ current.goal.id ∈ state.seenGoalIds

theorem legal_init : GoalProjectionState.init.Legal 0 where
  failure := rfl
  ids := fun id h => by cases h
  nodup := List.nodup_nil
  current := fun current h => by cases h

theorem GoalProjectionState.Legal.mono {bound more : Nat} {state : GoalProjectionState}
    (h : state.Legal bound) (hle : bound ≤ more) : state.Legal more where
  failure := h.failure
  ids := h.ids
  nodup := h.nodup
  current := fun current hcurrent => by
    obtain ⟨hlegal, hseen⟩ := h.current current hcurrent
    exact ⟨{ hlegal with revision := hlegal.revision.trans hle }, hseen⟩

variable {field text : String} {value : Nat}

theorem isNormalized_trimText (h : trimText text ≠ "") : isNormalized (trimText text) = true := by
  have htwice : trimText (trimText text) = trimText text := by
    simp only [trimText, String.toList_ofList, trim_trim]
  simp [isNormalized, htwice, h]

theorem ne_empty_of_isNormalized (h : isNormalized text = true) : text ≠ "" := by
  rintro rfl
  simp [isNormalized, trimText, trim, trimEnd] at h

theorem GoalProjectionState.Legal.restore {bound : Nat} {state : GoalProjectionState}
    (h : state.Legal bound) (hbound : bound ≤ maxSafeInteger) : restore state = some state := by
  have hrefined : refined state = true := by
    rw [refined, Option.all_eq_true]
    intro current hcurrent
    obtain ⟨hlegal, hseen⟩ := h.current current hcurrent
    simp [hseen, hlegal.times.1, hlegal.rounds]
  have hcurrent : ∀ current ∈ state.current, current.Storable := by
    intro current hcurrent
    obtain ⟨hlegal, -⟩ := h.current current hcurrent
    obtain ⟨hcreated, hupdated⟩ := hlegal.times
    have hsafe : 8640000000000000 ≤ maxSafeInteger := by decide
    exact
      { id := hlegal.goal.id
        objective := ne_empty_of_isNormalized hlegal.goal.objective
        revision := ⟨hlegal.goal.revision, hlegal.revision.trans hbound⟩
        cap := hlegal.goal.cap
        rounds := hlegal.rounds.trans hlegal.goal.cap.2
        times := ⟨by omega, by omega⟩ }
  have hfailure : ∀ message ∈ state.failure, message ≠ "" := by
    rw [h.failure]
    intro message hmessage
    cases hmessage
  rw [restore_eq hcurrent h.ids h.nodup hfailure, if_pos hrefined]

/-! ## Decoding what is valid -/

theorem positiveInteger_of_le (hpos : 1 ≤ value)
    (hsafe : value ≤ maxSafeInteger) : positiveInteger value field = .ok value := by
  rw [positiveInteger, if_neg (by omega)]

theorem nonNegativeInteger_of_le (hsafe : value ≤ maxSafeInteger) :
    nonNegativeInteger value field = .ok value := by
  rw [nonNegativeInteger, if_neg (by omega)]

theorem decodeSnapshot_of_valid {goal : GoalSnapshot} (h : goal.Valid)
    (hrevision : goal.revision ≤ maxSafeInteger) : decodeSnapshot goal = .ok goal := by
  rcases goal with ⟨id, revision, objective, phase, reason, cap⟩
  obtain ⟨hid, hobjective, hpos, hcap, hblocked, hreason⟩ := h
  simp only [decodeSnapshot, hid, hobjective, hblocked, if_false, Bool.not_true, Bool.false_eq_true,
    ne_eq, not_true_eq_false, positiveInteger_of_le hpos hrevision,
    positiveInteger_of_le hcap.1 hcap.2]
  cases reason with
  | none => rfl
  | some reason =>
    obtain ⟨hcode, hmessage⟩ := hreason reason rfl
    have hdecode : decodeBlockReason reason = .ok reason := by
      simp [decodeBlockReason, hcode, hmessage]
    simp only [hdecode]
    rfl

theorem decodeGoalChange_of_valid {operation : SnapshotOperation} {goal : GoalSnapshot}
    {rounds created updated : Nat} (h : goal.Valid) (hrevision : goal.revision ≤ maxSafeInteger)
    (hrounds : rounds ≤ maxSafeInteger) (htimes : created ≤ updated) (hupdated : updated ≤ maxSafeInteger) :
    decodeGoalChange (.snapshot ⟨operation, goal, rounds, created, updated⟩) =
      .ok (.snapshot ⟨operation, goal, rounds, created, updated⟩) := by
  simp only [decodeGoalChange, nonNegativeInteger_of_le (htimes.trans hupdated),
    nonNegativeInteger_of_le hupdated, nonNegativeInteger_of_le hrounds,
    decodeSnapshot_of_valid h hrevision]
  have hnot : ¬ updated < created := by omega
  simp only [bind, Except.bind, hnot, if_false]
  rfl

/-! ## What a request commits -/

inductive Moves (current : GoalProjection) : SnapshotOperation → GoalSnapshot → Prop where
  | edit {objective : String} {cap : Nat} (hobjective : isNormalized objective = true)
      (hcap : 1 ≤ cap ∧ cap ≤ maxSafeInteger) (hrounds : current.roundsStarted ≤ cap) :
      Moves current .edit { current.goal with
        revision := current.goal.revision + 1
        objective := objective
        maxGoalRounds := cap }
  | pause (hphase : current.goal.phase = .active) :
      Moves current .pause (withPhase current.goal .paused)
  | complete (hphase : current.goal.phase ≠ .complete) :
      Moves current .complete (withPhase current.goal .complete)
  | resume (hphase : current.goal.phase ≠ .complete)
      (hrounds : current.roundsStarted < current.goal.maxGoalRounds) :
      Moves current .resume (withPhase current.goal .active)
  | block {reason : GoalBlockReason} (hphase : current.goal.phase = .active)
      (hcode : isLowerKebab reason.code = true) (hmessage : isNormalized reason.message = true) :
      Moves current .block { withPhase current.goal .blocked with blockedReason := some reason }

inductive Commits (state : GoalProjectionState) : Commit → Prop where
  | create {goal : GoalSnapshot} (clock : Clock) (activation : GoalActivation)
      (hfree : ∀ current ∈ state.current, current.goal.phase = .complete) (hvalid : goal.Valid)
      (hfirst : goal.revision = 1) (hphase : goal.phase = .active)
      (hfresh : goal.id ∉ state.seenGoalIds) :
      Commits state ⟨.snapshot ⟨.create, goal, 0, clock.now, clock.now⟩, activation⟩
  | move {current : GoalProjection} {operation : SnapshotOperation} {goal : GoalSnapshot}
      (clock : Clock) (activation : GoalActivation) (hcurrent : state.current = some current)
      (hmoves : Moves current operation goal) :
      Commits state (commitCurrent clock current operation goal activation)
  | clear {current : GoalProjection} (clock : Clock) (activation : GoalActivation)
      (hcurrent : state.current = some current) :
      Commits state ⟨.clear ⟨current.goal.id, current.goal.revision + 1⟩
        (nextMutationTime clock current), activation⟩

theorem of_bind_ok {E A B : Type} {x : Except E A} {f : A → Except E B} {result : B}
    (h : x >>= f = .ok result) : ∃ value, x = .ok value ∧ f value = .ok result := by
  cases x with
  | error failure => cases h
  | ok value => exact ⟨value, rfl, h⟩

section
variable {state : GoalProjectionState} {current : Option GoalProjection} {found : GoalProjection}
variable {activation : GoalActivation} {clock : Clock} {ref : GoalRef} {committed : Commit}

theorem of_currentState (h : currentState state = .ok current) : state.current = current := by
  unfold currentState at h
  cases hfailure : state.failure with
  | some failure =>
    rw [hfailure] at h
    cases h
  | none =>
    rw [hfailure] at h
    cases h
    rfl

theorem of_expectCurrent (h : expectCurrent current ref = .ok found) : current = some found := by
  cases current with
  | none => cases h
  | some current =>
    simp only [expectCurrent] at h
    split at h
    · cases h
    · cases h
      rfl

theorem of_expected {B : Type} {f : GoalProjection → Except ServiceError B} {result : B}
    (h : (do f (← expectCurrent (← currentState state) ref)) = .ok result) :
    ∃ found, state.current = some found ∧ f found = .ok result := by
  obtain ⟨current, hcurrent, h⟩ := of_bind_ok h
  obtain ⟨found, hfound, h⟩ := of_bind_ok h
  refine ⟨found, ?_, h⟩
  rw [of_currentState hcurrent, of_expectCurrent hfound]

theorem of_resolveMaxGoalRounds {value : Number} {cap : Nat}
    (h : resolveMaxGoalRounds value = .ok cap) :
    1 ≤ cap ∧ cap ≤ maxSafeInteger ∧ value.toInt = cap := by
  unfold resolveMaxGoalRounds at h
  split at h
  · cases h
  · rename_i hsafe
    cases h
    have hpos : 1 ≤ value.toInt := by omega
    have hinteger : value.isSafeInteger = true := by
      cases hnot : value.isSafeInteger with
      | true => rfl
      | false =>
        rw [hnot] at hsafe
        exact absurd (.inl rfl) hsafe
    have hle : value.toInt.natAbs ≤ maxSafeInteger := by
      cases value with
      | integral number => exact of_decide_eq_true hinteger
      | _ => cases hinteger
    refine ⟨by omega, by omega, by omega⟩

theorem of_resolveObjective {value objective : String} (h : resolveObjective value = .ok objective) :
    isNormalized objective = true := by
  unfold resolveObjective at h
  split at h
  · cases h
  · rename_i hne
    cases h
    exact isNormalized_trimText hne

theorem of_resolveBlockReason {given reason : GoalBlockReason}
    (h : resolveBlockReason given = .ok reason) :
    isLowerKebab reason.code = true ∧ isNormalized reason.message = true := by
  unfold resolveBlockReason at h
  split at h
  · cases h
  · rename_i hfine
    cases h
    constructor
    · by_contra hcode
      exact hfine (.inl (by simpa using hcode))
    · exact isNormalized_trimText fun hempty => hfine (.inr hempty)

theorem commits_create {defaultMaxGoalRounds : Nat} {uuid : String} {request : CreateGoalRequest}
    (hfresh : "goal-" ++ uuid ∉ state.seenGoalIds)
    (h : create state clock defaultMaxGoalRounds uuid request = .ok committed) :
    Commits state committed := by
  obtain ⟨objective, hobjective, h⟩ := of_bind_ok h
  obtain ⟨cap, hcap, h⟩ := of_bind_ok h
  obtain ⟨current, hcurrent, h⟩ := of_bind_ok h
  obtain ⟨hpos, hsafe, -⟩ := of_resolveMaxGoalRounds hcap
  have hvalid : (⟨"goal-" ++ uuid, 1, objective, .active, none, cap⟩ : GoalSnapshot).Valid :=
    { id := fun hempty => by
        have hlength := congrArg String.length hempty
        rw [String.length_append] at hlength
        have hprefix : "goal-".length = 5 := rfl
        have hnone : "".length = 0 := rfl
        omega
      objective := of_resolveObjective hobjective
      revision := Nat.le_refl 1
      cap := ⟨hpos, hsafe⟩
      blocked := rfl
      reason := fun reason hreason => by cases hreason }
  have hstate := of_currentState hcurrent
  cases current with
  | none =>
    cases h
    refine .create clock .armed ?_ hvalid rfl rfl hfresh
    rw [hstate]
    intro current hcurrent
    cases hcurrent
  | some current =>
    simp only at h
    by_cases hphase : current.goal.phase = .complete
    · rw [if_neg (not_not_intro hphase)] at h
      cases h
      refine .create clock .armed ?_ hvalid rfl rfl hfresh
      rw [hstate]
      intro other hother
      cases hother
      exact hphase
    · rw [if_pos hphase] at h
      cases h

theorem commits_transition {operation : SnapshotOperation} {allowed : List GoalPhase}
    {phase : GoalPhase} (hmoves : ∀ current : GoalProjection, current.goal.phase ∈ allowed →
      Moves current operation (withPhase current.goal phase))
    (h : transition state clock ref operation allowed phase activation = .ok committed) :
    Commits state committed := by
  obtain ⟨found, hfound, h⟩ := of_expected h
  simp only at h
  by_cases hallowed : found.goal.phase ∈ allowed
  · rw [if_neg (not_not_intro hallowed)] at h
    cases h
    exact .move clock activation hfound (hmoves found hallowed)
  · rw [if_pos hallowed] at h
    cases h

theorem commits_pause (h : pause state clock ref = .ok committed) : Commits state committed := by
  apply commits_transition _ h
  intro current hallowed
  exact .pause (List.mem_singleton.mp hallowed)

theorem commits_complete (h : complete state clock ref = .ok committed) : Commits state committed := by
  apply commits_transition _ h
  intro current hallowed
  apply Moves.complete
  intro hphase
  rw [hphase] at hallowed
  simp at hallowed

theorem commits_resume (h : resume state activation clock ref = .ok committed) :
    Commits state committed := by
  obtain ⟨found, hfound, h⟩ := of_expected h
  simp only at h
  by_cases hallowed : found.goal.phase ∈ [GoalPhase.active, .paused, .blocked]
  · rw [if_neg (not_not_intro hallowed)] at h
    by_cases harmed : found.goal.phase = .active ∧ activation = .armed
    · rw [if_pos harmed] at h
      cases h
    · rw [if_neg harmed] at h
      by_cases hrounds : found.goal.maxGoalRounds ≤ found.roundsStarted
      · rw [if_pos hrounds] at h
        cases h
      · rw [if_neg hrounds] at h
        cases h
        refine .move clock .armed hfound (.resume ?_ (by omega))
        intro hphase
        rw [hphase] at hallowed
        simp at hallowed
  · rw [if_pos hallowed] at h
    cases h

theorem commits_block {reason : GoalBlockReason} (h : block state clock ref reason = .ok committed) :
    Commits state committed := by
  obtain ⟨found, hfound, h⟩ := of_expected h
  simp only at h
  by_cases hphase : found.goal.phase = .active
  · rw [if_neg (not_not_intro hphase)] at h
    obtain ⟨fine, hfine, h⟩ := of_bind_ok h
    cases h
    obtain ⟨hcode, hmessage⟩ := of_resolveBlockReason hfine
    exact .move clock .disarmed hfound (.block hphase hcode hmessage)
  · rw [if_pos hphase] at h
    cases h

theorem commits_clear (h : clear state clock ref = .ok committed) : Commits state committed := by
  obtain ⟨found, hfound, h⟩ := of_expected h
  cases h
  exact .clear clock .disarmed hfound

theorem commits_edit {bound : Nat} {request : EditGoalRequest} (hlegal : state.Legal bound)
    (hkeeps : ∀ current ∈ state.current, ∀ value ∈ request.maxGoalRounds,
      (current.roundsStarted : Int) ≤ value.toInt)
    (h : edit state activation clock ref request = .ok committed) : Commits state committed := by
  obtain ⟨found, hfound, h⟩ := of_expected h
  obtain ⟨hfoundLegal, -⟩ := hlegal.current found hfound
  simp only at h
  by_cases hempty : request.objective = none ∧ request.maxGoalRounds = none
  · rw [if_pos hempty] at h
    cases h
  · rw [if_neg hempty] at h
    obtain ⟨objective, hobjective, h⟩ := of_bind_ok h
    obtain ⟨cap, hcap, h⟩ := of_bind_ok h
    cases h
    have hnormal : isNormalized objective = true := by
      cases hrequest : request.objective with
      | none =>
        rw [hrequest] at hobjective
        cases hobjective
        exact hfoundLegal.goal.objective
      | some value =>
        rw [hrequest] at hobjective
        exact of_resolveObjective hobjective
    have hfits : (1 ≤ cap ∧ cap ≤ maxSafeInteger) ∧ found.roundsStarted ≤ cap := by
      cases hrequest : request.maxGoalRounds with
      | none =>
        rw [hrequest] at hcap
        cases hcap
        exact ⟨hfoundLegal.goal.cap, hfoundLegal.rounds⟩
      | some value =>
        rw [hrequest] at hcap
        obtain ⟨hpos, hsafe, hvalue⟩ := of_resolveMaxGoalRounds hcap
        have hle := hkeeps found hfound value hrequest
        exact ⟨⟨hpos, hsafe⟩, by omega⟩
    exact .move clock activation hfound (.edit hnormal hfits.1 hfits.2)

end

/-! ## The fold takes what is committed -/

section
variable {current : GoalProjection} {operation : SnapshotOperation} {goal : GoalSnapshot} {bound : Nat}

theorem Moves.valid (h : Moves current operation goal) (hlegal : current.Legal bound) :
    goal.Valid ∧ current.roundsStarted ≤ goal.maxGoalRounds := by
  obtain ⟨hid, hobjective, hpos, hcap, hblocked, hreason⟩ := hlegal.goal
  cases h with
  | edit hobjective hcap hrounds =>
    exact ⟨⟨hid, hobjective, Nat.succ_le_succ (Nat.zero_le _), hcap, hblocked, hreason⟩, hrounds⟩
  | block hphase hcode hmessage =>
    refine ⟨⟨hid, hobjective, Nat.succ_le_succ (Nat.zero_le _), hcap, rfl, ?_⟩, hlegal.rounds⟩
    intro reason hreason
    cases hreason
    exact ⟨hcode, hmessage⟩
  | _ =>
    refine ⟨⟨hid, hobjective, Nat.succ_le_succ (Nat.zero_le _), hcap, rfl, ?_⟩, hlegal.rounds⟩
    intro reason hreason
    cases hreason

theorem Moves.identity (h : Moves current operation goal) :
    goal.id = current.goal.id ∧ goal.revision = current.goal.revision + 1 ∧ operation ≠ .create := by
  cases h with
  | _ => exact ⟨rfl, rfl, fun hcreate => by cases hcreate⟩

theorem Moves.validTransition {state : GoalProjectionState} (h : Moves current operation goal)
    (hcurrent : state.current = some current) (clock : Clock) :
    validateSnapshotTransition (goalFoldState state)
      ⟨operation, goal, current.roundsStarted, current.createdAt, nextMutationTime clock current⟩
      current.goal = .ok () := by
  have hadvance : requireNextRevision current.goal ⟨goal.id, goal.revision⟩ operation.text = .ok () := by
    obtain ⟨hid, hrevision, -⟩ := h.identity
    simp [requireNextRevision, hid, hrevision]
  have htime : ¬ nextMutationTime clock current < current.updatedAt :=
    Nat.not_lt.mpr (Nat.le_max_right _ _)
  have hcreated : (goalFoldState state).createdAt = some current.createdAt := by
    simp [goalFoldState, hcurrent]
  have hupdated : (goalFoldState state).updatedAt = some current.updatedAt := by
    simp [goalFoldState, hcurrent]
  have hrounds : (goalFoldState state).roundsStarted = current.roundsStarted := by
    simp [goalFoldState, hcurrent]
  simp only [validateSnapshotTransition, hadvance, hcreated, hupdated, hrounds, htime, ne_eq,
    not_true_eq_false, false_or, if_false, bind, Except.bind]
  cases h with
  | edit hobjective hcap hrounds => simp [pure, Except.pure]
  | pause hphase => simp [requireSameDefinition, withPhase, hphase, pure, Except.pure]
  | complete hphase => simp [requireSameDefinition, withPhase, hphase, pure, Except.pure]
  | resume hphase hbudget =>
    have hleft : ¬ current.goal.maxGoalRounds ≤ current.roundsStarted := by omega
    simp [requireSameDefinition, withPhase, hphase, hleft, pure, Except.pure]
  | block hphase hcode hmessage =>
    simp [requireSameDefinition, withPhase, hphase, pure, Except.pure]

end

section
variable {state : GoalProjectionState} {bound seq : Nat}

theorem applyGoalProjection_create {goal : GoalSnapshot} {clock : Clock} (hlegal : state.Legal bound)
    (hvalid : goal.Valid) (hfirst : goal.revision = 1) (hphase : goal.phase = .active)
    (hfree : ∀ current ∈ state.current, current.goal.phase = .complete)
    (hfresh : goal.id ∉ state.seenGoalIds) :
    applyGoalProjection state
        ⟨seq, .goalChange (.snapshot ⟨.create, goal, 0, clock.now, clock.now⟩)⟩ =
      ⟨some ⟨goal, 0, clock.now, clock.now⟩, state.seenGoalIds ++ [goal.id], none⟩ := by
  have hsafe : clock.now ≤ maxSafeInteger := clock.valid.trans (by decide)
  have hdecode := @decodeGoalChange_of_valid .create goal 0 clock.now clock.now hvalid
    (by rw [hfirst]; decide) (Nat.zero_le _) (Nat.le_refl clock.now) hsafe
  apply applyGoalProjection_of_ok hlegal.failure rfl
  have hnone : ¬ ∃ current ∈ (goalFoldState state).goal, current.phase ≠ .complete := by
    rintro ⟨current, hcurrent, hne⟩
    obtain ⟨projection, hprojection, rfl⟩ := Option.map_eq_some_iff.mp hcurrent
    exact hne (hfree projection hprojection)
  have htaken : applyGoalChange (goalFoldState state)
      (.snapshot ⟨.create, goal, 0, clock.now, clock.now⟩) =
      .ok ({ goalFoldState state with seenGoalIds := state.seenGoalIds ++ [goal.id] }.withSnapshot
        ⟨.create, goal, 0, clock.now, clock.now⟩) := by
    simp only [applyGoalChange, if_true]
    rw [if_neg]
    · rfl
    · rintro (h | h | h | h | h)
      · exact h hfirst
      · exact h hphase
      · exact h rfl
      · exact hnone h
      · exact hfresh h
  simp only [applyGoalEvent, hdecode, bind, Except.bind, htaken]
  rfl

theorem applyGoalProjection_move {current : GoalProjection} {operation : SnapshotOperation}
    {goal : GoalSnapshot} {clock : Clock} (hlegal : state.Legal bound) (hbound : bound < maxSafeInteger)
    (hcurrent : state.current = some current) (hmoves : Moves current operation goal) :
    applyGoalProjection state ⟨seq, .goalChange (.snapshot
        ⟨operation, goal, current.roundsStarted, current.createdAt, nextMutationTime clock current⟩)⟩ =
      ⟨some ⟨goal, current.roundsStarted, current.createdAt, nextMutationTime clock current⟩,
        state.seenGoalIds, none⟩ := by
  obtain ⟨hcurrentLegal, -⟩ := hlegal.current current hcurrent
  obtain ⟨hvalid, -⟩ := hmoves.valid hcurrentLegal
  obtain ⟨-, hrevision, hcreate⟩ := hmoves.identity
  have htimes := hcurrentLegal.times
  have hlast : 8640000000000000 ≤ maxSafeInteger := by decide
  have hnow : nextMutationTime clock current ≤ 8640000000000000 := max_le clock.valid htimes.2
  have hlater : current.updatedAt ≤ nextMutationTime clock current := le_max_right _ _
  have hold := hcurrentLegal.revision
  have hdecode := @decodeGoalChange_of_valid operation goal current.roundsStarted current.createdAt
    (nextMutationTime clock current) hvalid (by omega)
    (hcurrentLegal.rounds.trans hcurrentLegal.goal.cap.2) (htimes.1.trans hlater) (by omega)
  have hgoal : (goalFoldState state).goal = some current.goal := by
    simp [goalFoldState, hcurrent]
  have htaken : applyGoalChange (goalFoldState state) (.snapshot
      ⟨operation, goal, current.roundsStarted, current.createdAt, nextMutationTime clock current⟩) =
      .ok ((goalFoldState state).withSnapshot
        ⟨operation, goal, current.roundsStarted, current.createdAt, nextMutationTime clock current⟩) := by
    simp only [applyGoalChange, if_neg hcreate, hgoal, hmoves.validTransition hcurrent]
    rfl
  apply applyGoalProjection_of_ok hlegal.failure rfl
  simp only [applyGoalEvent, hdecode, bind, Except.bind, htaken]
  rfl

theorem applyGoalProjection_clear {current : GoalProjection} {clock : Clock}
    (hlegal : state.Legal bound) (hbound : bound < maxSafeInteger)
    (hcurrent : state.current = some current) :
    applyGoalProjection state ⟨seq, .goalChange (.clear ⟨current.goal.id, current.goal.revision + 1⟩
        (nextMutationTime clock current))⟩ = ⟨none, state.seenGoalIds, none⟩ := by
  obtain ⟨hcurrentLegal, -⟩ := hlegal.current current hcurrent
  have hlast : 8640000000000000 ≤ maxSafeInteger := by decide
  have hnow : nextMutationTime clock current ≤ 8640000000000000 :=
    max_le clock.valid hcurrentLegal.times.2
  have hlater : ¬ nextMutationTime clock current < current.updatedAt :=
    Nat.not_lt.mpr (Nat.le_max_right _ _)
  have hold := hcurrentLegal.revision
  have hdecode : decodeGoalChange (.clear ⟨current.goal.id, current.goal.revision + 1⟩
      (nextMutationTime clock current)) = .ok (.clear ⟨current.goal.id, current.goal.revision + 1⟩
      (nextMutationTime clock current)) := by
    simp only [decodeGoalChange, decodeRef, hcurrentLegal.goal.id, if_false,
      positiveInteger_of_le (show 1 ≤ current.goal.revision + 1 by omega)
        (show current.goal.revision + 1 ≤ maxSafeInteger by omega),
      nonNegativeInteger_of_le (hnow.trans hlast)]
    rfl
  have hgoal : (goalFoldState state).goal = some current.goal := by
    simp [goalFoldState, hcurrent]
  have hupdated : (goalFoldState state).updatedAt = some current.updatedAt := by
    simp [goalFoldState, hcurrent]
  have hnext : requireNextRevision current.goal ⟨current.goal.id, current.goal.revision + 1⟩ "clear" =
      .ok () := by
    simp [requireNextRevision]
  apply applyGoalProjection_of_ok hlegal.failure rfl
  simp only [applyGoalEvent, hdecode, bind, Except.bind, applyGoalChange, hgoal, hnext, hupdated,
    if_neg hlater]
  rfl

theorem applyGoalProjection_round {current : GoalProjection} {source : GoalMessageSource}
    (hlegal : state.Legal bound) (hbound : bound < maxSafeInteger)
    (hcurrent : state.current = some current) (hphase : current.goal.phase = .active)
    (hid : source.goalId = current.goal.id) (hrevision : source.revision = current.goal.revision)
    (hround : source.round = current.roundsStarted + 1)
    (hcap : source.round ≤ current.goal.maxGoalRounds) :
    applyGoalProjection state ⟨seq, .userMessage (some source)⟩ =
      { state with current := some { current with roundsStarted := source.round } } := by
  obtain ⟨hcurrentLegal, -⟩ := hlegal.current current hcurrent
  obtain ⟨-, hsafe⟩ := hcurrentLegal.goal.cap
  have hpos := hcurrentLegal.goal.revision
  have hold := hcurrentLegal.revision
  have hsource : goalSource source = .ok source := by
    rw [goalSource, if_neg]
    rintro (h | h | h | h | h)
    · exact hcurrentLegal.goal.id (hid.symm.trans h)
    · omega
    · omega
    · omega
    · omega
  have hgoal : (goalFoldState state).goal = some current.goal := by
    simp [goalFoldState, hcurrent]
  have hrounds : (goalFoldState state).roundsStarted = current.roundsStarted := by
    simp [goalFoldState, hcurrent]
  have hrefused : ¬ (current.goal.phase ≠ .active ∨ source.goalId ≠ current.goal.id ∨
      source.revision ≠ current.goal.revision ∨ source.round ≠ current.roundsStarted + 1 ∨
      current.goal.maxGoalRounds < source.round) := by
    rintro (h | h | h | h | h)
    · exact h hphase
    · exact h hid
    · exact h hrevision
    · exact h hround
    · omega
  apply applyGoalProjection_of_ok hlegal.failure rfl
  simp only [applyGoalEvent, hsource, bind, Except.bind, hgoal, hrounds, if_neg hrefused]
  rcases state with ⟨projection, seen, failure⟩
  cases hcurrent
  have hfailure : failure = none := hlegal.failure
  rw [hfailure]
  rfl

end

end DshKernel.Goal
