import DshKernel.Goal.GoalProjection

/-!
# The projection follows the strict fold

Without a refusal the state of the projection is the state of the strict fold, but for the last
reference, which no later event reads.
-/

namespace DshKernel.Goal

def GoalFoldState.forget (state : GoalFoldState) : GoalFoldState := { state with lastRef := none }

structure GoalFoldState.Consistent (state : GoalFoldState) : Prop where
  createdAt : state.createdAt.isSome = state.goal.isSome
  updatedAt : state.updatedAt.isSome = state.goal.isSome
  rounds : state.goal = none → state.roundsStarted = 0

def Follows (state : GoalProjectionState) : Except String GoalFoldState → Prop
  | .ok folded => state.failure = none ∧ folded.forget = goalFoldState state
  | .error _ => state.failure ≠ none

theorem map_ite_error {A B : Type} {p : Prop} [Decidable p] {message : String} {x y : A} {f : A → B}
    (h : f x = f y) : (if p then Except.error message else Except.ok x).map f =
      (if p then Except.error message else Except.ok y).map f := by
  split
  · rfl
  · exact congrArg Except.ok h

theorem validateSnapshotTransition_forget (state : GoalFoldState) (change : GoalSnapshotChange)
    (current : GoalSnapshot) :
    validateSnapshotTransition state.forget change current =
      validateSnapshotTransition state change current := rfl

theorem applyGoalChange_forget (state : GoalFoldState) (change : GoalChange) :
    (applyGoalChange state.forget change).map GoalFoldState.forget =
      (applyGoalChange state change).map GoalFoldState.forget := by
  rcases state with ⟨goal, rounds, created, updated, last, seen⟩
  cases change with
  | clear cleared clearedAt => rfl
  | snapshot change =>
    simp only [applyGoalChange, GoalFoldState.forget]
    split
    · exact map_ite_error rfl
    · cases goal with
      | none => rfl
      | some current =>
        have hsame := validateSnapshotTransition_forget ⟨some current, rounds, created, updated, last, seen⟩
          change current
        simp only [GoalFoldState.forget] at hsame
        simp only [hsame]
        cases validateSnapshotTransition ⟨some current, rounds, created, updated, last, seen⟩ change current with
        | error message => rfl
        | ok _ => rfl

theorem applyGoalEvent_forget (state : GoalFoldState) (event : GoalEvent) :
    (applyGoalEvent state.forget event).map GoalFoldState.forget =
      (applyGoalEvent state event).map GoalFoldState.forget := by
  rcases event with ⟨seq, body⟩
  cases body with
  | other => rfl
  | goalChange data =>
    simp only [applyGoalEvent]
    cases decodeGoalChange data with
    | error message => rfl
    | ok change => exact applyGoalChange_forget state change
  | userMessage source =>
    cases source with
    | none => rfl
    | some source =>
      simp only [applyGoalEvent]
      cases goalSource source with
      | error message => rfl
      | ok source =>
        rcases state with ⟨goal, rounds, created, updated, last, seen⟩
        cases goal with
        | none => rfl
        | some current =>
          exact map_ite_error rfl

/-! ## Consistency -/

theorem consistent_withSnapshot (state : GoalFoldState) (change : GoalSnapshotChange) :
    (state.withSnapshot change).Consistent :=
  ⟨rfl, rfl, fun h => by cases h⟩

theorem consistent_applyGoalChange {state next : GoalFoldState} {change : GoalChange}
    (h : applyGoalChange state change = .ok next) : next.Consistent := by
  cases change with
  | clear cleared clearedAt =>
    simp only [applyGoalChange] at h
    cases hgoal : state.goal with
    | none =>
      simp only [hgoal] at h
      cases h
    | some current =>
      simp only [hgoal] at h
      cases hnext : requireNextRevision current cleared "clear" with
      | error message =>
        rw [hnext] at h
        cases h
      | ok _ =>
        rw [hnext] at h
        cases hupdated : state.updatedAt with
        | none =>
          simp only [hupdated] at h
          cases h
        | some updatedAt =>
          simp only [hupdated] at h
          by_cases hlt : clearedAt < updatedAt
          · rw [if_pos hlt] at h
            cases h
          · rw [if_neg hlt] at h
            cases h
            exact ⟨rfl, rfl, fun _ => rfl⟩
  | snapshot change =>
    simp only [applyGoalChange] at h
    split at h
    · split at h
      · cases h
      · cases h
        exact consistent_withSnapshot _ change
    · cases hgoal : state.goal with
      | none =>
        simp only [hgoal] at h
        cases h
      | some current =>
        simp only [hgoal] at h
        cases hvalid : validateSnapshotTransition state change current with
        | error message =>
          rw [hvalid] at h
          cases h
        | ok _ =>
          rw [hvalid] at h
          cases h
          exact consistent_withSnapshot _ change

theorem consistent_applyGoalEvent {state next : GoalFoldState} {event : GoalEvent}
    (hstate : state.Consistent) (h : applyGoalEvent state event = .ok next) : next.Consistent := by
  rcases event with ⟨seq, body⟩
  cases body with
  | other =>
    cases h
    exact hstate
  | goalChange data =>
    simp only [applyGoalEvent] at h
    cases hdata : decodeGoalChange data with
    | error message =>
      rw [hdata] at h
      cases h
    | ok change =>
      rw [hdata] at h
      exact consistent_applyGoalChange h
  | userMessage source =>
    cases source with
    | none =>
      cases h
      exact hstate
    | some source =>
      simp only [applyGoalEvent] at h
      cases hsource : goalSource source with
      | error message =>
        rw [hsource] at h
        cases h
      | ok source =>
        rw [hsource] at h
        cases hgoal : state.goal with
        | none =>
          simp only [hgoal] at h
          cases h
        | some current =>
          simp only [hgoal, bind, Except.bind, pure, Except.pure] at h
          split at h
          · cases h
          · cases h
            have hcreated := hstate.createdAt
            have hupdated := hstate.updatedAt
            rw [hgoal] at hcreated hupdated
            exact ⟨hcreated, hupdated, fun hnone => by cases hnone⟩

theorem consistent_goalFoldState (state : GoalProjectionState) : (goalFoldState state).Consistent := by
  rcases state with ⟨current, ids, failure⟩
  cases current with
  | none => exact ⟨rfl, rfl, fun _ => rfl⟩
  | some current => exact ⟨rfl, rfl, fun h => by cases h⟩

theorem goalProjectionState_of_consistent {state : GoalFoldState} (h : state.Consistent) :
    ∃ next, goalProjectionState state = .ok next ∧ next.failure = none ∧
      state.forget = goalFoldState next := by
  rcases state with ⟨goal, rounds, created, updated, last, seen⟩
  obtain ⟨hcreated, hupdated, hrounds⟩ := h
  cases goal with
  | none =>
    cases created with
    | some createdAt => cases hcreated
    | none =>
      cases updated with
      | some updatedAt => cases hupdated
      | none =>
        refine ⟨_, rfl, rfl, ?_⟩
        have hzero : rounds = 0 := hrounds rfl
        rw [hzero]
        rfl
  | some goal =>
    cases created with
    | none => cases hcreated
    | some createdAt =>
      cases updated with
      | none => cases hupdated
      | some updatedAt => exact ⟨_, rfl, rfl, rfl⟩

/-! ## One event and a log -/

theorem applyGoalEvent_of_not_owned {state : GoalFoldState} {event : GoalEvent}
    (h : event.body.isOwned = false) : applyGoalEvent state event = .ok state := by
  rcases event with ⟨seq, body⟩
  cases body with
  | other => rfl
  | goalChange data => cases h
  | userMessage source =>
    cases source with
    | none => rfl
    | some source => cases h

theorem applyGoalProjection_failed {state : GoalProjectionState} (h : state.failure ≠ none)
    (event : GoalEvent) : applyGoalProjection state event = state := by
  have hsome : state.failure.isSome = true := Option.isSome_iff_ne_none.mpr h
  simp [applyGoalProjection, hsome]

section
variable {state next : GoalProjectionState} {event : GoalEvent} {message : String}

theorem applyGoalProjection_of_ok (hfailure : state.failure = none) (howned : event.body.isOwned = true)
    (h : applyGoalEvent (goalFoldState state) event >>= goalProjectionState = .ok next) :
    applyGoalProjection state event = next := by
  rw [applyGoalProjection, if_neg (by simp [hfailure, howned]), h]

theorem failure_of_error (hfailure : state.failure = none) (howned : event.body.isOwned = true)
    (h : applyGoalEvent (goalFoldState state) event = .error message) :
    (applyGoalProjection state event).failure ≠ none := by
  rw [applyGoalProjection, if_neg (by simp [hfailure, howned]), h]
  intro hnone
  cases hnone

end

theorem follows_applyGoalEvent {state : GoalProjectionState} {folded : GoalFoldState}
    (h : Follows state (.ok folded)) (event : GoalEvent) :
    Follows (applyGoalProjection state event) (applyGoalEvent folded event) := by
  obtain ⟨hfailure, hforget⟩ := h
  cases howned : event.body.isOwned with
  | false =>
    have hsame : applyGoalProjection state event = state := by simp [applyGoalProjection, howned]
    rw [hsame, applyGoalEvent_of_not_owned howned]
    exact ⟨hfailure, hforget⟩
  | true =>
    have hmap := applyGoalEvent_forget folded event
    rw [hforget] at hmap
    cases hstrict : applyGoalEvent folded event with
    | error message =>
      rw [hstrict] at hmap
      cases hloose : applyGoalEvent (goalFoldState state) event with
      | ok next =>
        rw [hloose] at hmap
        cases hmap
      | error message =>
        exact failure_of_error hfailure howned hloose
    | ok strict =>
      rw [hstrict] at hmap
      cases hloose : applyGoalEvent (goalFoldState state) event with
      | error message =>
        rw [hloose] at hmap
        cases hmap
      | ok loose =>
        rw [hloose] at hmap
        have hsame : loose.forget = strict.forget := Except.ok.inj hmap
        obtain ⟨next, hnext, hnone, hback⟩ := goalProjectionState_of_consistent
          (consistent_applyGoalEvent (consistent_goalFoldState state) hloose)
        have hresult : applyGoalProjection state event = next := by
          apply applyGoalProjection_of_ok hfailure howned
          rw [hloose]
          exact hnext
        rw [hresult]
        exact ⟨hnone, hsame.symm.trans hback⟩

theorem foldl_failed {state : GoalProjectionState} (h : state.failure ≠ none) (log : List GoalEvent) :
    log.foldl applyGoalProjection state = state := by
  induction log with
  | nil => rfl
  | cons event rest ih =>
    rw [List.foldl_cons, applyGoalProjection_failed h]
    exact ih

theorem follows_foldl (log : List GoalEvent) {state : GoalProjectionState} {folded : GoalFoldState}
    (h : Follows state (.ok folded)) :
    Follows (log.foldl applyGoalProjection state) (log.foldlM applyGoalEvent folded) := by
  induction log generalizing state folded with
  | nil => exact h
  | cons event rest ih =>
    have hstep := follows_applyGoalEvent h event
    rw [List.foldl_cons, List.foldlM_cons]
    cases hnext : applyGoalEvent folded event with
    | error message =>
      rw [hnext] at hstep
      rw [foldl_failed hstep]
      exact hstep
    | ok next =>
      rw [hnext] at hstep
      exact ih hstep

theorem follows_init : Follows .init (.ok emptyGoalFoldState) := ⟨rfl, rfl⟩

end DshKernel.Goal
