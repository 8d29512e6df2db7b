import DshKernel.Js.Json

/-!
# Session headers

The creation metadata of a session is validated as the plain value it was stored as, and
kept as that value.
-/

namespace DshKernel.Session

open Js

/-- What the checks use of the platform: `isAbsolute` of paths, and `String(value)`. -/
structure Platform where
  isAbsolute : String → Bool
  toText : Option Json → String

def SESSION_FORMAT_VERSION : Nat := 0

/-- A number that is a safe integer and not below zero; `-0` is one. -/
def isNonNegativeSafeInteger : Json → Bool
  | .num (.integral value) => value.isSafe && decide (0 ≤ value.toInt)
  | _ => false

/-- `value === number` -/
def isNumber (value : Option Json) (number : Number) : Bool :=
  match value with
  | some (.num value) => value.strictEq number
  | _ => false

/-- The checks of `validateSessionHeader` up to the identity: the message of the first one
that throws. -/
def headerIdentityProblem (platform : Platform) (id : String) (input : Json) : Option String :=
  let version := platform.toText (input.get? "version")
  let found := platform.toText (input.get? "id")
  if !input.isObject || input.isArray then some "session header is not a plain JSON record"
  else if (input.get? "seedLength").isSome then
    some "session header has invalid field \"seedLength\""
  else if !isNumber (input.get? "version") (.ofNat SESSION_FORMAT_VERSION) then
    some s!"session header version must be {SESSION_FORMAT_VERSION}, got {version}"
  else if (input.get? "id").bind Json.asString != some id then
    some s!"session header id \"{found}\" does not match session id \"{id}\""
  else none

def headerFieldProblem (platform : Platform) (input : Json) : Option String :=
  let cwd := platform.toText (input.get? "cwd")
  if !(input.get? "createdAt").any isNonNegativeSafeInteger then
    some "session header createdAt must be a non-negative safe integer"
  else if (input.get? "cwd").any fun value => value.asString.isNone then
    some "session header cwd must be a string"
  else if (input.get? "cwd").any fun value => value.asString.any (!platform.isAbsolute ·) then
    some s!"session header cwd must be an absolute path, got \"{cwd}\""
  else if (input.get? "parentSession").any fun value => value.asString.isNone then
    some "session header parentSession must be a string"
  else if ((input.get? "isSeeded").bind Json.asBool).isNone then
    some "session header isSeeded must be a boolean"
  else if (input.get? "origin").any fun value => value.asString != some "subagent" then
    some "session header origin must be \"subagent\""
  else if (input.get? "delegationDepth").any fun value => !isNonNegativeSafeInteger value then
    some "session header delegationDepth must be a non-negative safe integer"
  else if (input.get? "agentPreset").any fun value => value.asString.isNone then
    some "session header agentPreset must be a string"
  else none

def validateSessionHeader (platform : Platform) (id : String) (input : Json) :
    Except String Json :=
  match headerIdentityProblem platform id input with
  | some message => .error message
  | none =>
    match headerFieldProblem platform input with
    | some message => .error message
    | none => .ok input

def defaultHeader (id : String) (now : Int) : Json :=
  .obj [("version", .ofNat SESSION_FORMAT_VERSION), ("id", .str id), ("createdAt", .ofInt now),
    ("isSeeded", .bool false)]

def snapshotSessionHeader (platform : Platform) (id : String) (source : Option Json) (now : Int) :
    Except String Json :=
  match (source.getD (defaultHeader id now)).snapshotJsonValue with
  | none => .error "session header is not losslessly JSON-serializable"
  | some snapshot => validateSessionHeader platform id snapshot

/-- `header.isSeeded` -/
def isSeeded (header : Json) : Bool := (header.get? "isSeeded").bind Json.asBool == some true

/-- `header.id` -/
def headerId (header : Json) : String := ((header.get? "id").bind Json.asString).getD ""

variable {header input : Json} {platform : Platform} {id : String}

theorem validateSessionHeader_eq_ok :
    validateSessionHeader platform id input = .ok header ↔
      headerIdentityProblem platform id input = none ∧ headerFieldProblem platform input = none ∧
        input = header := by
  unfold validateSessionHeader
  cases headerIdentityProblem platform id input with
  | some message => simp
  | none =>
    cases headerFieldProblem platform input with
    | some message => simp
    | none => simp

theorem snapshotSessionHeader_again {source : Option Json} {now : Int}
    (h : snapshotSessionHeader platform id source now = .ok header) :
    validateSessionHeader platform id header = .ok header ∧
      ∀ later, snapshotSessionHeader platform id (some header) later = .ok header := by
  unfold snapshotSessionHeader at h
  cases hsnapshot : (source.getD (defaultHeader id now)).snapshotJsonValue with
  | none => simp [hsnapshot] at h
  | some snapshot =>
    simp only [hsnapshot] at h
    obtain ⟨-, -, heq⟩ := validateSessionHeader_eq_ok.mp h
    subst heq
    obtain ⟨hlossless, heq⟩ := Json.snapshotJsonValue_eq_some.mp hsnapshot
    subst heq
    refine ⟨h, ?_⟩
    intro later
    simp only [snapshotSessionHeader, Option.getD_some, Json.snapshotJsonValue, hlossless, if_true]
    exact h

theorem headerId_of_validateSessionHeader
    (h : validateSessionHeader platform id input = .ok header) : headerId header = id := by
  obtain ⟨hidentity, -, rfl⟩ := validateSessionHeader_eq_ok.mp h
  have hid : (input.get? "id").bind Json.asString = some id := by
    by_cases heq : (input.get? "id").bind Json.asString = some id
    · exact heq
    · have hne : ((input.get? "id").bind Json.asString != some id) = true := by simpa using heq
      simp only [headerIdentityProblem, hne, if_true] at hidentity
      split at hidentity
      · cases hidentity
      · split at hidentity
        · cases hidentity
        · split at hidentity
          · cases hidentity
          · cases hidentity
  simp [headerId, hid]

end DshKernel.Session
