import DshKernel.Goal.GoalFold
import DshKernel.Js.Json
import Mathlib.Data.Option.Basic

/-!
# The goal projection and its checkpoints

The projection folds the same events and keeps its first refusal instead of throwing it. Its state
is stored as JSON, and a stored state is read back through a schema of its own.
-/

namespace DshKernel.Goal

open Js

structure GoalProjection where
  goal : GoalSnapshot
  roundsStarted : Nat
  createdAt : Nat
  updatedAt : Nat
  deriving DecidableEq

structure GoalProjectionState where
  current : Option GoalProjection
  seenGoalIds : List String
  failure : Option String
  deriving DecidableEq

/-- `init` of the projection -/
def GoalProjectionState.init : GoalProjectionState := ⟨none, [], none⟩

def goalFoldState (state : GoalProjectionState) : GoalFoldState where
  goal := state.current.map (·.goal)
  roundsStarted := state.current.elim 0 (·.roundsStarted)
  createdAt := state.current.map (·.createdAt)
  updatedAt := state.current.map (·.updatedAt)
  lastRef := none
  seenGoalIds := state.seenGoalIds

def goalProjectionState (state : GoalFoldState) : Except String GoalProjectionState :=
  match state.goal with
  | none => .ok ⟨none, state.seenGoalIds, none⟩
  | some goal =>
    match state.createdAt, state.updatedAt with
    | some createdAt, some updatedAt =>
      .ok ⟨some ⟨goal, state.roundsStarted, createdAt, updatedAt⟩, state.seenGoalIds, none⟩
    | _, _ => .error "current goal fold lacks timestamps"

def GoalEventBody.isOwned : GoalEventBody → Bool
  | .goalChange _ => true
  | .userMessage source => source.isSome
  | .other => false

def applyGoalProjection (state : GoalProjectionState) (event : GoalEvent) : GoalProjectionState :=
  if state.failure.isSome || !event.body.isOwned then state
  else
    match applyGoalEvent (goalFoldState state) event >>= goalProjectionState with
    | .ok next => next
    | .error message =>
      { state with failure := some s!"goal replay failed at session event {event.seq}: {message}" }

/-! ## The stored state -/

def GoalBlockReason.toJson (reason : GoalBlockReason) : Json :=
  .obj [("code", .str reason.code), ("message", .str reason.message)]

def GoalSnapshot.toJson (goal : GoalSnapshot) : Json :=
  .obj ([("id", .str goal.id), ("revision", .ofNat goal.revision),
    ("objective", .str goal.objective), ("phase", .str goal.phase.text),
    ("maxGoalRounds", .ofNat goal.maxGoalRounds)] ++
    (goal.blockedReason.map fun reason => ("blockedReason", reason.toJson)).toList)

def GoalProjection.toJson (current : GoalProjection) : Json :=
  .obj [("goal", current.goal.toJson), ("roundsStarted", .ofNat current.roundsStarted),
    ("createdAt", .ofNat current.createdAt), ("updatedAt", .ofNat current.updatedAt)]

def GoalProjectionState.toJson (state : GoalProjectionState) : Json :=
  .obj [("current", state.current.elim .null GoalProjection.toJson),
    ("seenGoalIds", .arr (state.seenGoalIds.map .str)),
    ("failure", state.failure.elim .null .str)]

/-! ## The schema -/

/-- `zod.string().min(1)` -/
def nonEmptyString (value : Json) : Option String :=
  value.asString.bind fun text => if text = "" then none else some text

/-- `zod.number().int()` with a least value; only safe integers pass. -/
def integerFrom (least : Nat) (value : Json) : Option Nat :=
  value.asNumber.bind fun number =>
    if number.isSafeInteger ∧ (least : Int) ≤ number.toInt then some number.toInt.toNat else none

/-- `zod.number()`, of which the natural numbers are read. -/
def timeValue (value : Json) : Option Nat :=
  value.asNumber.bind fun
    | .integral number => if 0 ≤ number.toInt then some number.toInt.toNat else none
    | _ => none

def parsePhase (value : Json) : Option GoalPhase :=
  value.asString.bind fun text =>
    [GoalPhase.active, .paused, .blocked, .complete].find? fun phase => phase.text = text

def parseBlockedReason (value : Json) : Option GoalBlockReason := do
  let code ← value.get? "code" >>= Json.asString
  let message ← value.get? "message" >>= Json.asString
  return ⟨code, message⟩

/-- `.optional()` -/
def optionalField {A : Type} (read : Json → Option A) : Option Json → Option (Option A)
  | none => some none
  | some value => (read value).map some

def parseGoal (value : Json) : Option GoalSnapshot := do
  let id ← value.get? "id" >>= nonEmptyString
  let revision ← value.get? "revision" >>= integerFrom 1
  let objective ← value.get? "objective" >>= nonEmptyString
  let phase ← value.get? "phase" >>= parsePhase
  let blockedReason ← optionalField parseBlockedReason (value.get? "blockedReason")
  let maxGoalRounds ← value.get? "maxGoalRounds" >>= integerFrom 1
  return ⟨id, revision, objective, phase, blockedReason, maxGoalRounds⟩

def parseProjection (value : Json) : Option GoalProjection := do
  let goal ← value.get? "goal" >>= parseGoal
  let roundsStarted ← value.get? "roundsStarted" >>= integerFrom 0
  let createdAt ← value.get? "createdAt" >>= timeValue
  let updatedAt ← value.get? "updatedAt" >>= timeValue
  return ⟨goal, roundsStarted, createdAt, updatedAt⟩

/-- A value or `null` -/
def nullable {A : Type} (read : Json → Option A) : Json → Option (Option A)
  | .null => some none
  | value => (read value).map some

def refined (state : GoalProjectionState) : Bool :=
  state.current.all fun current =>
    state.seenGoalIds.contains current.goal.id && decide (current.createdAt ≤ current.updatedAt) &&
      decide (current.roundsStarted ≤ current.goal.maxGoalRounds)

/-- `goalProjectionStateSchema` -/
def parseState (value : Json) : Option GoalProjectionState := do
  guard (value.keys.all fun key => key ∈ ["current", "seenGoalIds", "failure"])
  let current ← value.get? "current" >>= nullable parseProjection
  let seenGoalIds ← value.get? "seenGoalIds" >>= Json.asArray >>= List.mapM nonEmptyString
  guard seenGoalIds.Nodup
  let failure ← value.get? "failure" >>= nullable nonEmptyString
  let state : GoalProjectionState := ⟨current, seenGoalIds, failure⟩
  guard (refined state)
  return state

def restore (state : GoalProjectionState) : Option GoalProjectionState :=
  (Json.snapshotJsonValue state.toJson).bind parseState

/-! ## What the schema takes -/

structure GoalProjection.Storable (current : GoalProjection) : Prop where
  id : current.goal.id ≠ ""
  objective : current.goal.objective ≠ ""
  revision : 1 ≤ current.goal.revision ∧ current.goal.revision ≤ maxSafeInteger
  cap : 1 ≤ current.goal.maxGoalRounds ∧ current.goal.maxGoalRounds ≤ maxSafeInteger
  rounds : current.roundsStarted ≤ maxSafeInteger
  times : current.createdAt ≤ maxSafeInteger ∧ current.updatedAt ≤ maxSafeInteger

theorem integerFrom_ofNat {least n : Nat} (hleast : least ≤ n) (hsafe : n ≤ maxSafeInteger) :
    integerFrom least (.ofNat n) = some n := by
  simp only [integerFrom, Json.ofNat, Json.asNumber, Option.bind_some]
  rw [if_pos]
  · rfl
  · refine ⟨?_, ?_⟩
    · exact decide_eq_true hsafe
    · simpa [Number.toInt, Number.ofNat, Integral.toInt] using hleast

theorem timeValue_ofNat (n : Nat) : timeValue (.ofNat n) = some n := by
  simp [timeValue, Json.ofNat, Json.asNumber, Number.ofNat, Integral.toInt]

theorem nonEmptyString_str {text : String} (h : text ≠ "") : nonEmptyString (.str text) = some text := by
  simp [nonEmptyString, Json.asString, h]

theorem parsePhase_text (phase : GoalPhase) : parsePhase (.str phase.text) = some phase := by
  cases phase <;> rfl

theorem optionalField_toJson (reason : Option GoalBlockReason) :
    optionalField parseBlockedReason (reason.map GoalBlockReason.toJson) = some reason := by
  cases reason with
  | none => rfl
  | some reason => rfl

theorem get?_goal (goal : GoalSnapshot) :
    goal.toJson.get? "id" = some (.str goal.id) ∧
    goal.toJson.get? "revision" = some (.ofNat goal.revision) ∧
    goal.toJson.get? "objective" = some (.str goal.objective) ∧
    goal.toJson.get? "phase" = some (.str goal.phase.text) ∧
    goal.toJson.get? "maxGoalRounds" = some (.ofNat goal.maxGoalRounds) ∧
    goal.toJson.get? "blockedReason" = goal.blockedReason.map GoalBlockReason.toJson := by
  refine ⟨rfl, rfl, rfl, rfl, rfl, ?_⟩
  rcases goal with ⟨id, revision, objective, phase, blockedReason, maxGoalRounds⟩
  cases blockedReason with
  | none => rfl
  | some reason => rfl

theorem parseGoal_toJson {current : GoalProjection} (h : current.Storable) :
    parseGoal current.goal.toJson = some current.goal := by
  obtain ⟨hid, hrevision, hobjective, hphase, hcap, hreason⟩ := get?_goal current.goal
  simp only [parseGoal, hid, hrevision, hobjective, hphase, hcap, hreason, Option.bind_eq_bind,
    Option.bind_some, nonEmptyString_str h.id, nonEmptyString_str h.objective, parsePhase_text,
    integerFrom_ofNat h.revision.1 h.revision.2, integerFrom_ofNat h.cap.1 h.cap.2,
    optionalField_toJson, Option.pure_def]

theorem parseProjection_toJson {current : GoalProjection} (h : current.Storable) :
    parseProjection current.toJson = some current := by
  have hgoal : current.toJson.get? "goal" = some current.goal.toJson := rfl
  have hrounds : current.toJson.get? "roundsStarted" = some (.ofNat current.roundsStarted) := rfl
  have hcreated : current.toJson.get? "createdAt" = some (.ofNat current.createdAt) := rfl
  have hupdated : current.toJson.get? "updatedAt" = some (.ofNat current.updatedAt) := rfl
  simp only [parseProjection, hgoal, hrounds, hcreated, hupdated, Option.bind_eq_bind,
    Option.bind_some, parseGoal_toJson h, integerFrom_ofNat (Nat.zero_le _) h.rounds,
    timeValue_ofNat, Option.pure_def]

theorem mapM_nonEmptyString {ids : List String} (h : ∀ id ∈ ids, id ≠ "") :
    (ids.map Json.str).mapM nonEmptyString = some ids := by
  induction ids with
  | nil => rfl
  | cons id rest ih =>
    have hrest := ih fun other hother => h other (List.mem_cons_of_mem _ hother)
    simp [List.mapM_cons, nonEmptyString_str (h id List.mem_cons_self), hrest]

theorem isLossless_toJson (state : GoalProjectionState) : state.toJson.isLossless = true := by
  have hids : Json.itemsLossless (state.seenGoalIds.map .str) = true := by
    apply Json.itemsLossless_iff.mpr
    intro item hitem
    obtain ⟨id, -, rfl⟩ := List.mem_map.mp hitem
    rfl
  rcases state with ⟨current, ids, failure⟩
  rcases current with _ | ⟨⟨id, revision, objective, phase, reason, cap⟩, rounds, created, updated⟩
  · cases failure <;>
      simp [GoalProjectionState.toJson, Json.isLossless, Json.fieldsLossless, hids]
  · cases failure <;> cases reason <;>
      simp [GoalProjectionState.toJson, GoalProjection.toJson, GoalSnapshot.toJson,
        GoalBlockReason.toJson, Json.isLossless, Json.fieldsLossless, Json.ofNat, Number.ofNat,
        Number.isLossless, hids]

theorem restore_eq {state : GoalProjectionState} (hcurrent : ∀ current ∈ state.current, current.Storable)
    (hids : ∀ id ∈ state.seenGoalIds, id ≠ "") (hnodup : state.seenGoalIds.Nodup)
    (hfailure : ∀ message ∈ state.failure, message ≠ "") :
    restore state = if refined state then some state else none := by
  have hkeys : (state.toJson.keys.all fun key => key ∈ ["current", "seenGoalIds", "failure"]) = true := by
    rfl
  have hreadCurrent : (state.toJson.get? "current").bind (nullable parseProjection) =
      some state.current := by
    rcases state with ⟨current, ids, failure⟩
    cases current with
    | none => rfl
    | some current =>
      have hread : (parseProjection current.toJson).map some = some (some current) := by
        rw [parseProjection_toJson (hcurrent current rfl)]
        rfl
      exact hread
  have hreadIds : (state.toJson.get? "seenGoalIds").bind Json.asArray =
      some (state.seenGoalIds.map Json.str) := rfl
  have hreadFailure : (state.toJson.get? "failure").bind (nullable nonEmptyString) =
      some state.failure := by
    rcases state with ⟨current, ids, failure⟩
    cases failure with
    | none => rfl
    | some message =>
      have hread : (nonEmptyString (.str message)).map some = some (some message) := by
        rw [nonEmptyString_str (hfailure message rfl)]
        rfl
      exact hread
  rw [restore, (Json.snapshotJsonValue_eq_some).mpr ⟨isLossless_toJson state, rfl⟩, Option.bind_some]
  simp only [parseState, hkeys, guard_true, Option.bind_eq_bind, hreadCurrent, hreadIds, hreadFailure,
    Option.bind_some, mapM_nonEmptyString hids, hnodup, Option.pure_def]
  cases hrefined : refined state with
  | true => rfl
  | false => rfl

end DshKernel.Goal
