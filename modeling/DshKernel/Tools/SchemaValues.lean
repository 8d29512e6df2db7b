import DshKernel.Tools.JsonSchema

/-!
# Validating values against a schema

`validateJsonSchemaValue` is a machine with a stack of frames, one for each schema node it is inside
of. On a schema that says something it ends, and reports nothing exactly when the value satisfies
what the schema says.
-/

namespace DshKernel.Tools

open Js Lib List Schema

/-- `diagnosticPath` -/
def diagnosticPath (path : String) : String := if path = "" then "arguments" else path

/-- `propertyPath` -/
def propertyPath (path key : String) : String := if path = "" then key else s!"{path}.{key}"

structure ValueChild where
  node : Raw
  value : Json
  path : String

inductive FrameKind where
  | oneOf
  | object
  | array
  deriving DecidableEq

inductive FramePhase where
  | start
  | children
  deriving DecidableEq

structure ValueFrame where
  node : Raw
  value : Json
  path : String
  catches : Bool := false
  phase : FramePhase := .start
  kind : Option FrameKind := none
  children : List ValueChild := []
  childIndex : Nat := 0
  violations : List String := []
  tailViolations : List String := []
  /-- `matches` -/
  matchCount : Nat := 0

def valueFrame (child : ValueChild) : ValueFrame :=
  { node := child.node, value := child.value, path := child.path }

def losslessValueViolation (path : String) : List String :=
  [s!"\"{diagnosticPath path}\" must be a lossless JSON value"]

def toScalar : Json → Raw
  | .null => .null
  | .bool value => .bool value
  | .num value => .num value
  | .str value => .str value
  | _ => .other

section Validator

variable (stringify : Heap → Raw → String) (heap : Heap)

/-- `checkScalarValue`; `none` is an exception. -/
def checkScalarValue (node : OrderedMap String Raw) (value : Json) (path : String) :
    Option (List String) :=
  let allowed := ownOrUndefined node "enum"
  let among : Option Bool :=
    if allowed = .undefined then some true
    else (heap.plainArray? allowed).map fun entries =>
      entries.any fun entry => scalarSameValueZero entry (toScalar value)
  match among with
  | none => none
  | some false => some [s!"\"{diagnosticPath path}\" must be one of {stringify heap allowed}"]
  | some true =>
    match node.get? "const" with
    | none => some []
    | some const =>
      if scalarStrictEq (toScalar value) const then some []
      else some [s!"\"{diagnosticPath path}\" must be {stringify heap const}"]

def checkScalarNode (node : OrderedMap String Raw) (value : Json) (path : String) :
    JsonSchemaScalarType → Option (List String)
  | .string =>
    match value with
    | .str _ => checkScalarValue stringify heap node value path
    | _ => some [s!"\"{diagnosticPath path}\" must be a string"]
  | .number =>
    match value with
    | .num number =>
      if number.isLossless then checkScalarValue stringify heap node value path
      else some [s!"\"{diagnosticPath path}\" must be a finite JSON number"]
    | _ => some [s!"\"{diagnosticPath path}\" must be a number"]
  | .integer =>
    match value with
    | .num number =>
      if isJsonInteger number then checkScalarValue stringify heap node value path
      else some [s!"\"{diagnosticPath path}\" must be an integer"]
    | _ => some [s!"\"{diagnosticPath path}\" must be an integer"]
  | .boolean =>
    match value with
    | .bool _ => checkScalarValue stringify heap node value path
    | _ => some [s!"\"{diagnosticPath path}\" must be a boolean"]
  | .null =>
    match value with
    | .null => checkScalarValue stringify heap node value path
    | _ => some [s!"\"{diagnosticPath path}\" must be null"]

inductive FrameStep where
  | goOn (frame : ValueFrame)
  | descend (frame : ValueFrame) (child : ValueChild)
  | finish (result : List String)
  | throw (frame : ValueFrame)

/-- The properties that a node declares; `none` is an exception. -/
def declaredProperties (node : OrderedMap String Raw) : Option (List (String × Raw)) :=
  match ownOrUndefined node "properties" with
  | .undefined => some []
  | .null => some []
  | properties => (heap.record? properties).map fun found => found.2.entries

/-- The names that a node requires; `none` is an exception. -/
def requiredNames (node : OrderedMap String Raw) : Option (List String) :=
  match ownOrUndefined node "required" with
  | .undefined => some []
  | .null => some []
  | required =>
    (heap.plainArray? required).bind fun entries => entries.mapM fun entry =>
      match entry with
      | .str key => some key
      | _ => none

def startObject (frame : ValueFrame) (node : OrderedMap String Raw) : FrameStep :=
  match frame.value with
  | .obj fields =>
    match declaredProperties heap node, requiredNames heap node with
    | some properties, some required =>
      .goOn { frame with
        kind := some .object
        children := properties.filterMap fun entry =>
          (fields.lookup entry.1).map fun value =>
            ⟨entry.2, value, propertyPath frame.path entry.1⟩
        childIndex := 0
        violations := (required.filter fun key => (fields.lookup key).isNone).map fun key =>
          s!"missing required property \"{propertyPath frame.path key}\""
        tailViolations :=
          if node.get? "additionalProperties" = some (.bool false) then
            ((fields.map Prod.fst).filter fun key => !(properties.map Prod.fst).contains key).map
              fun key => s!"\"{propertyPath frame.path key}\" is not a declared property "
                ++ "(additionalProperties: false)"
          else []
        phase := .children }
    | _, _ => .throw frame
  | _ => .finish [s!"\"{diagnosticPath frame.path}\" must be an object"]

def startArray (frame : ValueFrame) (node : OrderedMap String Raw) : FrameStep :=
  match frame.value with
  | .arr entries =>
    .goOn { frame with
      kind := some .array
      children :=
        match ownOrUndefined node "items" with
        | .undefined => []
        | items => entries.mapIdx fun index entry => ⟨items, entry, s!"{frame.path}[{index}]"⟩
      childIndex := 0
      violations := []
      phase := .children }
  | _ => .finish [s!"\"{diagnosticPath frame.path}\" must be an array"]

def nodeType? : Raw → Option JsonSchemaType
  | .str name => schemaType? name
  | _ => none

/-- A frame in its phase `start`. A node that is no record, or whose fields are not of their
declared types, is outside what the function is given; reading it throws. -/
def startFrame (frame : ValueFrame) : FrameStep :=
  match heap.record? frame.node with
  | none => .throw frame
  | some (_, node) =>
    let nodeType := ownOrUndefined node "type"
    let frame := { frame with catches := nodeType == .undefined || (nodeType? nodeType).isSome }
    if ownOrUndefined node "oneOf" ≠ .undefined then
      match heap.plainArray? (ownOrUndefined node "oneOf") with
      | none => .throw frame
      | some branches =>
        .goOn { frame with
          kind := some .oneOf
          children := branches.map fun branch => ⟨branch, frame.value, frame.path⟩
          childIndex := 0
          matchCount := 0
          phase := .children }
    else if nodeType = .undefined then
      .finish (if frame.value.isLossless then [] else losslessValueViolation frame.path)
    else
      match nodeType? nodeType with
      | none => .throw frame
      | some .object => startObject heap frame node
      | some .array => startArray frame node
      | some (.scalar type) =>
        match checkScalarNode stringify heap node frame.value frame.path type with
        | none => .throw frame
        | some result => .finish result

def finishFrame (frame : ValueFrame) : List String :=
  if frame.kind = some .oneOf then
    if frame.matchCount = 1 then []
    else [s!"\"{diagnosticPath frame.path}\" must match exactly one oneOf branch "
      ++ s!"(matched {frame.matchCount})"]
  else if frame.violations ++ frame.tailViolations ≠ [] then
    frame.violations ++ frame.tailViolations
  else if frame.value.isLossless then []
  else if frame.kind = some .object then
    [s!"\"{diagnosticPath frame.path}\" must be a lossless JSON object"]
  else [s!"\"{diagnosticPath frame.path}\" must be a dense lossless JSON array"]

def frameStep (frame : ValueFrame) : FrameStep :=
  match frame.phase with
  | .children =>
    match frame.children[frame.childIndex]? with
    | some child => .descend { frame with childIndex := frame.childIndex + 1 } child
    | none => .finish (finishFrame frame)
  | .start => startFrame stringify heap frame

structure Validation where
  frames : List ValueFrame
  rootResult : Option (List String) := none

def ValueFrame.receive (parent : ValueFrame) (result : List String) : ValueFrame :=
  if parent.kind = some .oneOf then
    if result = [] then { parent with matchCount := parent.matchCount + 1 } else parent
  else { parent with violations := parent.violations ++ result }

/-- `receive` -/
def receive (result : List String) (state : Validation) : Validation :=
  match state.frames with
  | [] => { state with rootResult := some result }
  | parent :: rest => { state with frames := parent.receive result :: rest }

/-- The `catch` of the loop; `none` when no frame catches. -/
def caught (frames : List ValueFrame) (rootResult : Option (List String)) : Option Validation :=
  match frames.dropWhile fun frame => !frame.catches with
  | [] => none
  | failed :: rest => some (receive (losslessValueViolation failed.path) ⟨rest, rootResult⟩)

/-- One turn of the loop; `none` when an exception leaves the function. -/
def validationStep (frame : ValueFrame) (rest : List ValueFrame)
    (rootResult : Option (List String)) : Option Validation :=
  match frameStep stringify heap frame with
  | .goOn frame => some ⟨frame :: rest, rootResult⟩
  | .descend frame child => some ⟨valueFrame child :: frame :: rest, rootResult⟩
  | .finish result => some (receive result ⟨rest, rootResult⟩)
  | .throw frame => caught (frame :: rest) rootResult

inductive Validated where
  | returned (violations : List String)
  | thrown
  deriving DecidableEq

/-- The loop of `checkValue`, at most `fuel` turns of it. -/
def runValidation (path : String) : Nat → Validation → Option Validated
  | _, ⟨[], rootResult⟩ =>
    some (.returned (rootResult.getD (losslessValueViolation path)))
  | 0, ⟨_ :: _, _⟩ => none
  | fuel + 1, ⟨frame :: rest, rootResult⟩ =>
    match validationStep stringify heap frame rest rootResult with
    | none => some .thrown
    | some later => runValidation path fuel later

/-- `validateJsonSchemaValue` -/
def validateJsonSchemaValue (fuel : Nat) (schema : Raw) (value : Json) (path : String) :
    Option Validated :=
  runValidation stringify heap path fuel ⟨[valueFrame ⟨schema, value, path⟩], none⟩

end Validator

section Scalars

variable {stringify : Heap → Raw → String} {heap : Heap}

variable {entry : Raw}

theorem scalarStrictEq_iff {value expected : Json} (hentry : ScalarDenoted entry expected)
    (hvalue : value.isLossless = true) :
    scalarStrictEq (toScalar value) entry = true ↔ value.Same expected := by
  obtain ⟨hscalar, hlossless⟩ := hentry
  cases entry with
  | undefined => cases hscalar
  | ref id => cases hscalar
  | other => cases hscalar
  | null =>
    cases hscalar
    cases value <;> simp [toScalar, scalarStrictEq, Json.Same, Json.equalBy]
  | bool b =>
    cases hscalar
    cases value <;> simp [toScalar, scalarStrictEq, Json.Same, Json.equalBy]
  | str s =>
    cases hscalar
    cases value <;> simp [toScalar, scalarStrictEq, Json.Same, Json.equalBy]
  | num n =>
    cases hscalar
    cases value with
    | num m =>
      simp only [toScalar, scalarStrictEq, Json.Same, Json.equalBy]
      rw [Number.strictEq_iff_of_isLossless hvalue hlossless, beq_iff_eq]
    | _ => simp [toScalar, scalarStrictEq, Json.Same, Json.equalBy]

theorem strictEq_comm (a b : Number) : a.strictEq b = b.strictEq a := by
  cases a with
  | integral x =>
    cases b with
    | integral y =>
      simp only [Number.strictEq, Integral.strictEq]
      exact Bool.beq_comm
    | _ => simp [Number.strictEq]
  | fractional bits =>
    cases b with
    | fractional other =>
      simp only [Number.strictEq]
      exact Bool.beq_comm
    | _ => simp [Number.strictEq]
  | infinity negative =>
    cases b with
    | infinity other =>
      simp only [Number.strictEq]
      exact Bool.beq_comm
    | _ => simp [Number.strictEq]
  | nan => cases b <;> simp [Number.strictEq]

theorem scalarSameValueZero_iff {value expected : Json}
    (hentry : ScalarDenoted entry expected) (hvalue : value.isLossless = true) :
    scalarSameValueZero entry (toScalar value) = true ↔ value.Same expected := by
  rw [← scalarStrictEq_iff hentry hvalue]
  have hcomm : scalarStrictEq entry (toScalar value) = scalarStrictEq (toScalar value) entry := by
    obtain ⟨hscalar, -⟩ := hentry
    cases entry with
    | undefined => cases hscalar
    | ref id => cases hscalar
    | other => cases hscalar
    | num n =>
      cases value with
      | num m => exact strictEq_comm n m
      | _ => simp [toScalar, scalarStrictEq]
    | _ =>
      cases value <;> simp [toScalar, scalarStrictEq, Bool.beq_comm]
  have hnan : (entry == Raw.num .nan) = false := by
    obtain ⟨hscalar, hlossless⟩ := hentry
    cases entry with
    | num n =>
      cases hscalar
      cases n with
      | nan => cases hlossless
      | _ => simp
    | _ => simp
  rw [scalarSameValueZero, hnan, hcomm]
  simp

theorem any_sameValueZero_iff {entries : List Raw} {values : List Json} {value : Json}
    (hentries : List.Forall₂ ScalarDenoted entries values) (hvalue : value.isLossless = true) :
    (entries.any fun entry => scalarSameValueZero entry (toScalar value)) = true ↔
      ∃ expected ∈ values, value.Same expected := by
  induction hentries with
  | nil => simp
  | cons hhead htail ih =>
    rw [any_cons, Bool.or_eq_true, ih, scalarSameValueZero_iff hhead hvalue]
    simp

theorem checkScalarValue_iff {node : OrderedMap String Raw} {allowed : Option (List Json)}
    {const : Option Json} {value : Json} {path : String}
    (hallowed : AllowedDenoted heap (node.get? "enum") allowed)
    (hconst : ConstDenoted (node.get? "const") const) (hvalue : value.isLossless = true) :
    ∃ result, checkScalarValue stringify heap node value path = some result ∧
      (result = [] ↔ (∀ values, allowed = some values → ∃ entry ∈ values, value.Same entry) ∧
        ∀ expected, const = some expected → value.Same expected) := by
  have hlast : ∃ result,
      (match node.get? "const" with
        | none => some []
        | some const =>
          if scalarStrictEq (toScalar value) const then some []
          else some [s!"\"{diagnosticPath path}\" must be {stringify heap const}"]) = some result ∧
      (result = [] ↔ ∀ expected, const = some expected → value.Same expected) := by
    cases hget : node.get? "const" with
    | none =>
      rw [hget] at hconst
      cases const with
      | none => exact ⟨[], rfl, by simp⟩
      | some expected => cases hconst
    | some entry =>
      rw [hget] at hconst
      cases const with
      | none => cases hconst
      | some expected =>
        have hiff := scalarStrictEq_iff hconst hvalue
        by_cases hsame : scalarStrictEq (toScalar value) entry = true
        · refine ⟨[], by simp [hsame], ?_⟩
          simpa using hiff.mp hsame
        · refine ⟨_, if_neg hsame, ?_⟩
          simpa using fun h => hsame (hiff.mpr h)
  cases hget : node.get? "enum" with
  | none =>
    rw [hget] at hallowed
    cases allowed with
    | some values => cases hallowed
    | none =>
      obtain ⟨result, hresult, hiff⟩ := hlast
      refine ⟨result, ?_, by simpa using hiff⟩
      simpa [checkScalarValue, ownOrUndefined, hget] using hresult
  | some list =>
    rw [hget] at hallowed
    cases allowed with
    | none => cases hallowed
    | some values =>
      obtain ⟨entries, hentries, hdenoted⟩ := hallowed
      have hdefined : list ≠ .undefined := by
        rintro rfl
        cases hentries
      have hany := any_sameValueZero_iff hdenoted hvalue
      by_cases hmember : (entries.any fun entry => scalarSameValueZero entry (toScalar value)) = true
      · obtain ⟨result, hresult, hiff⟩ := hlast
        refine ⟨result, ?_, ?_⟩
        · simpa [checkScalarValue, ownOrUndefined, hget, hdefined, hentries, hmember] using hresult
        · rw [hiff]
          constructor
          · intro h
            refine ⟨?_, h⟩
            rintro _ ⟨⟩
            exact hany.mp hmember
          · exact fun h => h.2
      · refine ⟨[s!"\"{diagnosticPath path}\" must be one of {stringify heap list}"], ?_, ?_⟩
        · simp [checkScalarValue, ownOrUndefined, hget, hdefined, hentries, hmember]
        · constructor
          · intro h
            cases h
          · intro h
            exact absurd (hany.mpr (h.1 values rfl)) hmember

theorem checkScalarNode_iff {node : OrderedMap String Raw} {type : JsonSchemaScalarType}
    {allowed : Option (List Json)} {const : Option Json} {value : Json} {path : String}
    (hallowed : AllowedDenoted heap (node.get? "enum") allowed)
    (hconst : ConstDenoted (node.get? "const") const) (hvalue : value.isLossless = true) :
    ∃ result, checkScalarNode stringify heap node value path type = some result ∧
      (result = [] ↔ (scalar type allowed const).Accepts value) := by
  obtain ⟨result, hresult, hiff⟩ :=
    @checkScalarValue_iff stringify heap node allowed const value path hallowed hconst hvalue
  have hchecked : type.Holds value →
      (result = [] ↔ (scalar type allowed const).Accepts value) := by
    intro hholds
    rw [hiff, Schema.Accepts]
    exact ⟨fun h => ⟨hholds, h⟩, fun h => h.2⟩
  have hrejected : ∀ message : String, ¬ type.Holds value →
      ([message] = [] ↔ (scalar type allowed const).Accepts value) := by
    intro message hnot
    rw [Schema.Accepts]
    constructor
    · intro h
      cases h
    · intro h
      exact absurd h.1 hnot
  cases type with
  | string =>
    cases value with
    | str s => exact ⟨result, hresult, hchecked ⟨s, rfl⟩⟩
    | _ => exact ⟨_, rfl, hrejected _ (by simp [JsonSchemaScalarType.Holds])⟩
  | number =>
    cases value with
    | num n =>
      have hlossless : n.isLossless = true := hvalue
      exact ⟨result, by simpa [checkScalarNode, hlossless] using hresult, hchecked ⟨n, rfl⟩⟩
    | _ => exact ⟨_, rfl, hrejected _ (by simp [JsonSchemaScalarType.Holds])⟩
  | integer =>
    cases value with
    | num n =>
      cases n with
      | integral z =>
        cases z with
        | int z => exact ⟨result, hresult, hchecked ⟨.int z, rfl⟩⟩
        | negZero => cases hvalue
      | _ => exact ⟨_, rfl, hrejected _ (by simp [JsonSchemaScalarType.Holds])⟩
    | _ => exact ⟨_, rfl, hrejected _ (by simp [JsonSchemaScalarType.Holds])⟩
  | boolean =>
    cases value with
    | bool b => exact ⟨result, hresult, hchecked ⟨b, rfl⟩⟩
    | _ => exact ⟨_, rfl, hrejected _ (by simp [JsonSchemaScalarType.Holds])⟩
  | null =>
    cases value with
    | null => exact ⟨result, hresult, hchecked rfl⟩
    | _ => exact ⟨_, rfl, hrejected _ (by simp [JsonSchemaScalarType.Holds])⟩

end Scalars

section Frames

variable {stringify : Heap → Raw → String} {heap : Heap}

def Leads (stringify : Heap → Raw → String) (heap : Heap) (s t : Validation) : Prop :=
  ∃ turns, ∀ path fuel,
    runValidation stringify heap path (fuel + turns) s = runValidation stringify heap path fuel t

theorem Leads.refl (s : Validation) : Leads stringify heap s s := ⟨0, fun _ _ => rfl⟩

theorem Leads.trans {s t u : Validation} (h : Leads stringify heap s t)
    (h' : Leads stringify heap t u) : Leads stringify heap s u := by
  obtain ⟨m, hm⟩ := h
  obtain ⟨n, hn⟩ := h'
  refine ⟨n + m, ?_⟩
  intro path fuel
  rw [← Nat.add_assoc, hm, hn]

variable {rest : List ValueFrame} {rootResult : Option (List String)} {frame : ValueFrame}
variable {result : List String} {child : ValueChild}

theorem leads_of_step {later : Validation}
    (h : validationStep stringify heap frame rest rootResult = some later) :
    Leads stringify heap ⟨frame :: rest, rootResult⟩ later := by
  refine ⟨1, ?_⟩
  intro path fuel
  rw [runValidation, h]

/-- The frame of a child ends with a result that is empty exactly when `P` holds, whatever is below
it. -/
def Judged (stringify : Heap → Raw → String) (heap : Heap) (child : ValueChild) (P : Prop) : Prop :=
  ∃ result, (result = [] ↔ P) ∧ ∀ rest rootResult,
    Leads stringify heap ⟨valueFrame child :: rest, rootResult⟩ (receive result ⟨rest, rootResult⟩)

theorem leads_child (hphase : frame.phase = .children)
    (hchild : frame.children[frame.childIndex]? = some child)
    (hlead : ∀ rest rootResult, Leads stringify heap ⟨valueFrame child :: rest, rootResult⟩
      (receive result ⟨rest, rootResult⟩)) :
    Leads stringify heap ⟨frame :: rest, rootResult⟩
      ⟨{ frame with childIndex := frame.childIndex + 1 }.receive result :: rest, rootResult⟩ := by
  have hstep : validationStep stringify heap frame rest rootResult =
      some ⟨valueFrame child :: { frame with childIndex := frame.childIndex + 1 } :: rest,
        rootResult⟩ := by
    simp [validationStep, frameStep, hphase, hchild]
  exact (leads_of_step hstep).trans (hlead _ _)

theorem leads_violations {todo : List ValueChild} {props : List Prop}
    (hjudged : List.Forall₂ (Judged stringify heap) todo props) {frame : ValueFrame}
    (hphase : frame.phase = .children) (hkind : frame.kind ≠ some .oneOf) {done : List ValueChild}
    (hchildren : frame.children = done ++ todo) (hindex : frame.childIndex = done.length) :
    ∃ more, (more = [] ↔ ∀ p ∈ props, p) ∧ ∀ rest rootResult,
      Leads stringify heap ⟨frame :: rest, rootResult⟩
        ⟨{ frame with childIndex := frame.children.length
                      violations := frame.violations ++ more } :: rest, rootResult⟩ := by
  induction hjudged generalizing frame done with
  | nil =>
    refine ⟨[], by simp, ?_⟩
    intro rest rootResult
    have hsame : { frame with childIndex := frame.children.length
                              violations := frame.violations ++ [] } = frame := by
      have hlength : frame.children.length = frame.childIndex := by
        rw [hchildren, hindex, append_nil]
      simp [hlength]
    rw [hsame]
    exact .refl _
  | @cons child p todo props hhead htail ih =>
    obtain ⟨result, hresult, hlead⟩ := hhead
    let next := { frame with childIndex := frame.childIndex + 1 }.receive result
    have hnext : next = { frame with childIndex := frame.childIndex + 1
                                     violations := frame.violations ++ result } := by
      simp [next, ValueFrame.receive, hkind]
    obtain ⟨more, hmore, hrun⟩ := @ih next (by rw [hnext]; exact hphase) (by rw [hnext]; exact hkind)
      (done ++ [child]) (by rw [hnext]; simp [hchildren]) (by rw [hnext]; simp [hindex])
    refine ⟨result ++ more, ?_, ?_⟩
    · rw [append_eq_nil_iff, hresult, hmore]
      exact (@List.forall_mem_cons Prop (fun q => q) p props).symm
    · intro rest rootResult
      have hchild : frame.children[frame.childIndex]? = some child := by
        rw [hchildren, hindex]
        simp
      refine (leads_child hphase hchild hlead).trans ?_
      have hlast := hrun rest rootResult
      rw [hnext] at hlast
      simpa [next, hnext, ValueFrame.receive, hkind, append_assoc] using hlast

variable {branches : List Schema} {entries : List (String × Raw)}

theorem leads_matches {value : Json} {todo : List ValueChild}
    (hjudged : List.Forall₂
      (fun child (branch : Schema) => Judged stringify heap child (branch.Accepts value)) todo branches)
    {frame : ValueFrame} (hphase : frame.phase = .children) (hkind : frame.kind = some .oneOf)
    {done : List ValueChild} (hchildren : frame.children = done ++ todo)
    (hindex : frame.childIndex = done.length) :
    ∃ count, (count = 0 ↔ NoneAccepts branches value) ∧ (count = 1 ↔ ExactlyOneAccepts branches value) ∧
      ∀ rest rootResult, Leads stringify heap ⟨frame :: rest, rootResult⟩
        ⟨{ frame with childIndex := frame.children.length
                      matchCount := frame.matchCount + count } :: rest, rootResult⟩ := by
  induction hjudged generalizing frame done with
  | nil =>
    refine ⟨0, by simp [NoneAccepts], by simp [ExactlyOneAccepts], ?_⟩
    intro rest rootResult
    have hsame : { frame with childIndex := frame.children.length
                              matchCount := frame.matchCount + 0 } = frame := by
      have hlength : frame.children.length = frame.childIndex := by
        rw [hchildren, hindex, append_nil]
      simp [hlength]
    rw [hsame]
    exact .refl _
  | @cons child branch todo branches hhead htail ih =>
    obtain ⟨result, hresult, hlead⟩ := hhead
    have hchild : frame.children[frame.childIndex]? = some child := by
      rw [hchildren, hindex]
      simp
    by_cases hempty : result = []
    · have haccepts := hresult.mp hempty
      let next := { frame with childIndex := frame.childIndex + 1
                               matchCount := frame.matchCount + 1 }
      obtain ⟨count, hnone, -, hrun⟩ := @ih next hphase hkind (done ++ [child])
        (by simp [next, hchildren]) (by simp [next, hindex])
      refine ⟨count + 1, ?_, ?_, ?_⟩
      · simp [NoneAccepts, haccepts]
      · simp [ExactlyOneAccepts, haccepts, hnone]
      · intro rest rootResult
        refine (leads_child hphase hchild hlead).trans ?_
        have hlast := hrun rest rootResult
        simpa [next, ValueFrame.receive, hkind, hempty, Nat.add_comm, Nat.add_left_comm,
          Nat.add_assoc] using hlast
    · have hrejects : ¬ branch.Accepts value := fun h => hempty (hresult.mpr h)
      let next := { frame with childIndex := frame.childIndex + 1 }
      obtain ⟨count, hnone, hone, hrun⟩ := @ih next hphase hkind (done ++ [child])
        (by simp [next, hchildren]) (by simp [next, hindex])
      refine ⟨count, ?_, ?_, ?_⟩
      · simp [NoneAccepts, hrejects, hnone]
      · simp [ExactlyOneAccepts, hrejects, hone]
      · intro rest rootResult
        refine (leads_child hphase hchild hlead).trans ?_
        have hlast := hrun rest rootResult
        simpa [next, ValueFrame.receive, hkind, hempty] using hlast

theorem judged_of_finish {P : Prop} (hresult : result = [] ↔ P)
    (hstart : startFrame stringify heap (valueFrame child) = .finish result) :
    Judged stringify heap child P := by
  refine ⟨result, hresult, ?_⟩
  intro rest rootResult
  have hphase : (valueFrame child).phase = .start := rfl
  apply leads_of_step
  simp [validationStep, frameStep, hphase, hstart]

theorem leads_finish {frame : ValueFrame} {rest : List ValueFrame}
    {rootResult : Option (List String)} (hphase : frame.phase = .children)
    (hindex : frame.childIndex = frame.children.length) :
    Leads stringify heap ⟨frame :: rest, rootResult⟩
      (receive (finishFrame frame) ⟨rest, rootResult⟩) := by
  apply leads_of_step
  have hnone : frame.children[frame.childIndex]? = none := by
    rw [hindex]
    exact getElem?_eq_none (Nat.le_refl _)
  simp [validationStep, frameStep, hphase, hnone]

theorem leads_start
    (hstart : startFrame stringify heap (valueFrame child) = .goOn frame) :
    Leads stringify heap ⟨valueFrame child :: rest, rootResult⟩ ⟨frame :: rest, rootResult⟩ := by
  have hphase : (valueFrame child).phase = .start := rfl
  apply leads_of_step
  simp [validationStep, frameStep, hphase, hstart]

theorem judged_of_container {props : List Prop}
    (hstart : startFrame stringify heap (valueFrame child) = .goOn frame)
    (hphase : frame.phase = .children) (hkind : frame.kind ≠ some .oneOf)
    (hindex : frame.childIndex = 0) (hvalue : frame.value.isLossless = true)
    (hjudged : List.Forall₂ (Judged stringify heap) frame.children props) :
    Judged stringify heap child
      ((frame.violations = [] ∧ ∀ p ∈ props, p) ∧ frame.tailViolations = []) := by
  obtain ⟨more, hmore, hrun⟩ := @leads_violations _ _ _ _ hjudged frame hphase hkind [] rfl hindex
  let last := { frame with childIndex := frame.children.length
                           violations := frame.violations ++ more }
  have hfinish : ∀ rest rootResult,
      Leads stringify heap ⟨valueFrame child :: rest, rootResult⟩
        (receive (finishFrame last) ⟨rest, rootResult⟩) := by
    intro rest rootResult
    refine (leads_start hstart).trans ((hrun rest rootResult).trans ?_)
    exact @leads_finish _ _ last rest rootResult hphase rfl
  refine ⟨finishFrame last, ?_, hfinish⟩
  rw [← hmore, ← append_eq_nil_iff, ← append_eq_nil_iff]
  simp only [finishFrame, last, hkind, if_false, hvalue, if_true]
  split
  · rename_i hne
    exact ⟨fun h => absurd h hne, fun h => absurd h hne⟩
  · rename_i heq
    exact ⟨fun _ => not_not.mp heq, fun _ => rfl⟩

theorem judged_of_oneOf
    {value : Json} (hstart : startFrame stringify heap (valueFrame child) = .goOn frame)
    (hphase : frame.phase = .children) (hkind : frame.kind = some .oneOf)
    (hindex : frame.childIndex = 0) (hcount : frame.matchCount = 0)
    (hjudged : List.Forall₂
      (fun child (branch : Schema) => Judged stringify heap child (branch.Accepts value))
      frame.children branches) :
    Judged stringify heap child (ExactlyOneAccepts branches value) := by
  obtain ⟨count, -, hone, hrun⟩ :=
    @leads_matches _ _ _ _ _ hjudged frame hphase hkind [] rfl hindex
  let last := { frame with childIndex := frame.children.length
                           matchCount := frame.matchCount + count }
  refine ⟨finishFrame last, ?_, ?_⟩
  · rw [← hone]
    simp only [finishFrame, last, hkind, if_true, hcount, Nat.zero_add]
    split
    · rename_i heq
      exact ⟨fun _ => heq, fun _ => rfl⟩
    · rename_i hne
      exact ⟨nofun, fun h => absurd h hne⟩
  · intro rest rootResult
    refine (leads_start hstart).trans ((hrun rest rootResult).trans ?_)
    exact @leads_finish _ _ last rest rootResult hphase rfl

theorem nodeType?_name (type : JsonSchemaType) : nodeType? (.str type.name) = some type := by
  cases type with
  | object => rfl
  | array => rfl
  | scalar type => cases type <;> rfl

theorem declaredProperties_eq {node : OrderedMap String Raw}
    (h : PropertyEntries heap (node.get? "properties") entries) :
    declaredProperties heap node = some entries := by
  cases hget : node.get? "properties" with
  | none =>
    rw [hget] at h
    simp [declaredProperties, ownOrUndefined, hget, show entries = [] from h]
  | some properties =>
    rw [hget] at h
    obtain ⟨id, declared, hrecord, rfl⟩ := h
    obtain ⟨rfl, hid⟩ := Heap.record?_eq_some.mp hrecord
    simp [declaredProperties, ownOrUndefined, hget, hrecord]

theorem mapM_strings (required : List String) :
    ((required.map Raw.str).mapM fun entry =>
      match entry with
      | .str key => some key
      | _ => none) = some required := by
  induction required with
  | nil => rfl
  | cons key rest ih => simp [ih]

theorem requiredNames_eq {node : OrderedMap String Raw} {required : List String}
    (h : RequiredDenoted heap (node.get? "required") required) :
    requiredNames heap node = some required := by
  cases hget : node.get? "required" with
  | none =>
    rw [hget] at h
    simp [requiredNames, ownOrUndefined, hget, show required = [] from h]
  | some list =>
    rw [hget] at h
    obtain ⟨id, rfl, hid⟩ := Heap.plainArray?_eq_some.mp h
    simp only [requiredNames, ownOrUndefined, hget, Option.getD_some]
    rw [show heap.plainArray? (.ref id) = some (required.map .str) from h]
    exact mapM_strings required

theorem closed_iff {node : OrderedMap String Raw} {closed : Bool}
    (h : ClosedDenoted (node.get? "additionalProperties") closed) :
    node.get? "additionalProperties" = some (.bool false) ↔ closed = true := by
  cases hget : node.get? "additionalProperties" with
  | none =>
    rw [hget] at h
    simp [show closed = false from h]
  | some additional =>
    rw [hget] at h
    rw [show additional = .bool (!closed) from h]
    simp

theorem map_fst_of_denoted {properties : List (String × Schema)}
    (h : PropertiesDenoted heap properties entries) :
    entries.map Prod.fst = properties.map Prod.fst := by
  induction properties generalizing entries with
  | nil =>
    cases h
    rfl
  | cons property rest ih =>
    obtain ⟨node, later, rfl, -, hlater⟩ := h
    simp [ih hlater]

theorem lookup_isNone_iff {fields : List (String × Json)} {key : String} :
    (fields.lookup key).isNone = true ↔ key ∉ fields.map Prod.fst := by
  rw [Option.isNone_iff_eq_none, lookup_eq_none_iff]
  simp only [bne_iff_ne, mem_map, not_exists, not_and]
  constructor
  · intro h field hfield heq
    exact h field hfield heq.symm
  · intro h field hfield heq
    exact h field hfield heq.symm

section Denoted

variable {node : Raw} {value : Json} {path : String} {id : Nat} {fields : OrderedMap String Raw}

def typedFrame (node : Raw) (value : Json) (path : String) : ValueFrame :=
  { valueFrame ⟨node, value, path⟩ with catches := true }

theorem startFrame_typed {type : JsonSchemaType} (hrecord : heap.record? node = some (id, fields))
    (htype : fields.get? "type" = some (.str type.name)) (honeOf : fields.get? "oneOf" = none) :
    startFrame stringify heap (valueFrame ⟨node, value, path⟩) =
      match type with
      | .object => startObject heap (typedFrame node value path) fields
      | .array => startArray (typedFrame node value path) fields
      | .scalar type =>
        match checkScalarNode stringify heap fields value path type with
        | none => .throw (typedFrame node value path)
        | some result => .finish result := by
  have hnode : (valueFrame ⟨node, value, path⟩).node = node := rfl
  simp only [startFrame, hnode, hrecord, ownOrUndefined, htype, honeOf, Option.getD_some,
    Option.getD_none, nodeType?_name, Option.isSome_some, Bool.or_true, ne_eq, not_true_eq_false,
    if_false, reduceCtorEq]
  cases type <;> rfl

theorem judged_scalar {type : JsonSchemaScalarType} {allowed : Option (List Json)}
    {const : Option Json} (h : (scalar type allowed const).DenotedBy heap node)
    (hvalue : value.isLossless = true) :
    Judged stringify heap ⟨node, value, path⟩ ((scalar type allowed const).Accepts value) := by
  obtain ⟨id, fields, hrecord, htype, honeOf, hallowed, hconst⟩ := h
  obtain ⟨result, hresult, hiff⟩ :=
    @checkScalarNode_iff stringify heap fields type allowed const value path hallowed hconst hvalue
  apply judged_of_finish hiff
  rw [startFrame_typed hrecord htype honeOf]
  simp only [hresult]

theorem judged_any (h : any.DenotedBy heap node) (hvalue : value.isLossless = true) :
    Judged stringify heap ⟨node, value, path⟩ (any.Accepts value) := by
  obtain ⟨id, fields, hrecord, htype, honeOf⟩ := h
  have hresult : ([] : List String) = [] ↔ any.Accepts value := by simp [Schema.Accepts]
  apply judged_of_finish hresult
  have hnode : (valueFrame ⟨node, value, path⟩).node = node := rfl
  have hheld : (valueFrame ⟨node, value, path⟩).value = value := rfl
  simp [startFrame, hnode, hheld, hrecord, ownOrUndefined, htype, honeOf, hvalue]

def propertyChild (fields : List (String × Json)) (path : String) (entry : String × Raw) :
    Option ValueChild :=
  (fields.lookup entry.1).map fun value => ⟨entry.2, value, propertyPath path entry.1⟩

theorem judged_array {items : Schema} (h : (array items).DenotedBy heap node)
    (hvalue : value.isLossless = true)
    (hitems : ∀ item entry label, items.DenotedBy heap item → entry.isLossless = true →
      Judged stringify heap ⟨item, entry, label⟩ (items.Accepts entry)) :
    Judged stringify heap ⟨node, value, path⟩ ((array items).Accepts value) := by
  obtain ⟨id, fields, hrecord, htype, honeOf, hdenoted⟩ := h
  cases value with
  | arr entries =>
    have hentries := Json.itemsLossless_iff.mp hvalue
    rcases hdenoted with ⟨hnone, rfl⟩ | ⟨item, hsome, hitem⟩
    · have hstart : startFrame stringify heap (valueFrame ⟨node, .arr entries, path⟩) =
          .goOn { typedFrame node (.arr entries) path with
            kind := some .array, phase := .children } := by
        rw [startFrame_typed hrecord htype honeOf]
        simp [startArray, typedFrame, valueFrame, ownOrUndefined, hnone]
      have hjudged := judged_of_container hstart rfl (by simp) rfl hvalue .nil
      simpa [Schema.Accepts, typedFrame, valueFrame] using hjudged
    · have hstart : startFrame stringify heap (valueFrame ⟨node, .arr entries, path⟩) =
          .goOn { typedFrame node (.arr entries) path with
            kind := some .array
            children := entries.mapIdx fun index entry => ⟨item, entry, s!"{path}[{index}]"⟩
            phase := .children } := by
        have hdefined : item ≠ .undefined := by
          rintro rfl
          cases items <;> obtain ⟨_, _, hrecord, -⟩ := hitem <;> cases hrecord
        rw [startFrame_typed hrecord htype honeOf]
        simp [startArray, typedFrame, valueFrame, ownOrUndefined, hsome]
      have hlist : List.Forall₂ (Judged stringify heap)
          (entries.mapIdx fun index entry => ⟨item, entry, s!"{path}[{index}]"⟩)
          (entries.map items.Accepts) := by
        apply forall₂_iff_get.mpr
        refine ⟨by simp, ?_⟩
        intro index hindex hindex'
        simp only [get_eq_getElem, getElem_mapIdx, getElem_map]
        exact hitems item _ _ hitem (hentries _ (getElem_mem _))
      have hmeaning : (array items).Accepts (.arr entries) ↔
          (([] : List String) = [] ∧ ∀ p ∈ entries.map items.Accepts, p) ∧
            ([] : List String) = [] := by
        rw [@List.forall_mem_map _ _ items.Accepts entries fun p => p]
        simp [Schema.Accepts]
      rw [hmeaning]
      exact judged_of_container hstart rfl (by simp) rfl hvalue hlist
  | _ =>
    refine judged_of_finish ?_ (startFrame_typed hrecord htype honeOf)
    simp [Schema.Accepts]

theorem judged_object {properties : List (String × Schema)} {required : List String} {closed : Bool}
    (h : (object properties required closed).DenotedBy heap node)
    (hvalue : value.isLossless = true)
    (hproperties : ∀ entries fields path, PropertiesDenoted heap properties entries →
      (∀ field ∈ fields, field.2.isLossless = true) →
      ∃ props, List.Forall₂ (Judged stringify heap) (entries.filterMap (propertyChild fields path))
          props ∧ ((∀ p ∈ props, p) ↔ PropertiesAccept properties fields)) :
    Judged stringify heap ⟨node, value, path⟩
      ((object properties required closed).Accepts value) := by
  obtain ⟨id, node', hrecord, htype, honeOf, ⟨entries, hentries, hdenoted⟩, hrequired, hclosed⟩ := h
  cases value with
  | obj fields =>
    obtain ⟨props, hjudged, hprops⟩ :=
      hproperties entries fields path hdenoted (Json.fieldsLossless_iff.mp hvalue)
    have hstart : startFrame stringify heap (valueFrame ⟨node, .obj fields, path⟩) =
        .goOn { typedFrame node (.obj fields) path with
          kind := some .object
          children := entries.filterMap (propertyChild fields path)
          violations := (required.filter fun key => (fields.lookup key).isNone).map fun key =>
            s!"missing required property \"{propertyPath path key}\""
          tailViolations :=
            if node'.get? "additionalProperties" = some (.bool false) then
              ((fields.map Prod.fst).filter fun key => !(entries.map Prod.fst).contains key).map
                fun key => s!"\"{propertyPath path key}\" is not a declared property "
                  ++ "(additionalProperties: false)"
            else []
          phase := .children } := by
      rw [startFrame_typed hrecord htype honeOf]
      simp only [startObject, typedFrame, valueFrame, declaredProperties_eq hentries,
        requiredNames_eq hrequired]
      rfl
    have hall := judged_of_container hstart rfl (by simp) rfl hvalue hjudged
    have hmissing : ((required.filter fun key => (fields.lookup key).isNone).map fun key =>
        s!"missing required property \"{propertyPath path key}\"") = [] ↔
        ∀ key ∈ required, key ∈ fields.map Prod.fst := by
      rw [map_eq_nil_iff, filter_eq_nil_iff]
      refine forall_congr' fun key => forall_congr' fun _ => ?_
      rw [lookup_isNone_iff, not_not]
    have hundeclared : (if node'.get? "additionalProperties" = some (.bool false) then
        ((fields.map Prod.fst).filter fun key => !(entries.map Prod.fst).contains key).map
          fun key => s!"\"{propertyPath path key}\" is not a declared property "
            ++ "(additionalProperties: false)"
        else []) = [] ↔
        (closed = true → ∀ key ∈ fields.map Prod.fst, key ∈ properties.map Prod.fst) := by
      rw [map_fst_of_denoted hdenoted]
      by_cases hfalse : node'.get? "additionalProperties" = some (.bool false)
      · rw [if_pos hfalse, map_eq_nil_iff, filter_eq_nil_iff]
        have hshut := (closed_iff hclosed).mp hfalse
        simp [hshut]
      · rw [if_neg hfalse]
        have hopen : closed ≠ true := fun h => hfalse ((closed_iff hclosed).mpr h)
        simp [hopen]
    have hmeaning : (object properties required closed).Accepts (.obj fields) ↔
        ((∀ key ∈ required, key ∈ fields.map Prod.fst) ∧ ∀ p ∈ props, p) ∧
          (closed = true → ∀ key ∈ fields.map Prod.fst, key ∈ properties.map Prod.fst) := by
      rw [hprops, Schema.Accepts]
      constructor
      · rintro ⟨_, ⟨⟩, hkeys, haccept, hshut⟩
        exact ⟨⟨hkeys, haccept⟩, hshut⟩
      · rintro ⟨⟨hkeys, haccept⟩, hshut⟩
        exact ⟨fields, rfl, hkeys, haccept, hshut⟩
    rw [hmeaning, ← hmissing, ← hundeclared]
    exact hall
  | _ =>
    refine judged_of_finish ?_ (startFrame_typed hrecord htype honeOf)
    simp [Schema.Accepts]

end Denoted

mutual

theorem judged_of_denoted : ∀ (schema : Schema) (node : Raw) (value : Json) (path : String),
    schema.DenotedBy heap node → value.isLossless = true →
      Judged stringify heap ⟨node, value, path⟩ (schema.Accepts value)
  | .any, _, _, _, h, hvalue => judged_any h hvalue
  | .scalar _ _ _, _, _, _, h, hvalue => judged_scalar h hvalue
  | .array items, _, _, _, h, hvalue =>
    judged_array h hvalue fun item entry label => judged_of_denoted items item entry label
  | .object properties _ _, _, _, _, h, hvalue =>
    judged_object h hvalue fun entries fields path =>
      judged_of_properties properties entries fields path
  | .oneOf branches, node, value, path, h, hvalue => by
    obtain ⟨id, fields, hrecord, htype, list, nodes, honeOf, hlist, hdenoted⟩ := h
    have hdefined : list ≠ .undefined := by
      rintro rfl
      cases hlist
    have hjudged := judged_of_branches branches nodes value path hdenoted hvalue
    rw [Schema.Accepts]
    have hstart : startFrame stringify heap (valueFrame ⟨node, value, path⟩) =
        .goOn { typedFrame node value path with
          kind := some .oneOf
          children := nodes.map fun branch => ⟨branch, value, path⟩
          phase := .children } := by
      simp [startFrame, hrecord, ownOrUndefined, htype, honeOf, hdefined, hlist, valueFrame,
        typedFrame]
    exact judged_of_oneOf hstart rfl rfl rfl rfl hjudged

theorem judged_of_properties : ∀ (properties : List (String × Schema)) (entries : List (String × Raw))
    (fields : List (String × Json)) (path : String), PropertiesDenoted heap properties entries →
      (∀ field ∈ fields, field.2.isLossless = true) →
      ∃ props, List.Forall₂ (Judged stringify heap) (entries.filterMap (propertyChild fields path))
          props ∧ ((∀ p ∈ props, p) ↔ PropertiesAccept properties fields)
  | [], entries, fields, path, h, _ => by
    cases h
    exact ⟨[], .nil, by simp [PropertiesAccept]⟩
  | (key, schema) :: rest, entries, fields, path, h, hfields => by
    obtain ⟨node, later, rfl, hschema, hlater⟩ := h
    obtain ⟨props, hjudged, hprops⟩ := judged_of_properties rest later fields path hlater hfields
    cases hget : fields.lookup key with
    | none =>
      refine ⟨props, ?_, ?_⟩
      · simpa [propertyChild, hget] using hjudged
      · simp [PropertiesAccept, hprops, hget]
    | some value =>
      have hvalue := hfields _ (mem_of_lookup_eq_some hget)
      refine ⟨schema.Accepts value :: props, ?_, ?_⟩
      · have hhead := judged_of_denoted schema node value (propertyPath path key) hschema hvalue
        simpa [propertyChild, hget] using List.Forall₂.cons hhead hjudged
      · rw [@List.forall_mem_cons Prop (fun q => q), hprops]
        simp [PropertiesAccept, hget]

theorem judged_of_branches : ∀ (branches : List Schema) (nodes : List Raw) (value : Json)
    (path : String), BranchesDenoted heap branches nodes → value.isLossless = true →
      List.Forall₂
        (fun child (branch : Schema) => Judged stringify heap child (branch.Accepts value))
        (nodes.map fun branch => ⟨branch, value, path⟩) branches
  | [], nodes, _, _, h, _ => by
    cases h
    exact .nil
  | branch :: rest, nodes, value, path, h, hvalue => by
    obtain ⟨node, later, rfl, hbranch, hlater⟩ := h
    exact .cons (judged_of_denoted branch node value path hbranch hvalue)
      (judged_of_branches rest later value path hlater hvalue)

end

theorem validate_of_denoted {schema : Schema} {node : Raw} {value : Json}
    (h : schema.DenotedBy heap node) (hvalue : value.isLossless = true) (path : String) :
    ∃ violations turns, (∀ fuel, turns ≤ fuel →
      validateJsonSchemaValue stringify heap fuel node value path = some (.returned violations)) ∧
      (violations = [] ↔ schema.Accepts value) := by
  obtain ⟨result, hresult, hlead⟩ :=
    @judged_of_denoted stringify heap schema node value path h hvalue
  obtain ⟨turns, hturns⟩ := hlead [] none
  refine ⟨result, turns, ?_, hresult⟩
  intro fuel hfuel
  obtain ⟨more, rfl⟩ := Nat.exists_eq_add_of_le' hfuel
  rw [validateJsonSchemaValue, hturns]
  cases more <;> rfl

/-- A supported schema has a meaning. Of a JSON value, validation ends, and it reports nothing
exactly when the value satisfies that meaning. -/
theorem validateJsonSchemaValue_iff {schema : Raw} (h : Supported heap schema) :
    (∃ meaning : Schema, meaning.DenotedBy heap schema) ∧
      ∀ meaning : Schema, meaning.DenotedBy heap schema →
        ∀ value : Json, value.isLossless = true → ∀ path, ∃ violations turns,
          (∀ fuel, turns ≤ fuel →
            validateJsonSchemaValue stringify heap fuel schema value path =
              some (.returned violations)) ∧
          (violations = [] ↔ meaning.Accepts value) :=
  ⟨h.denoted, fun _ hmeaning _ hvalue path => validate_of_denoted hmeaning hvalue path⟩

end Frames

def sharedSchemaHeap : Heap :=
  [.record ⟨[("oneOf", .ref 1)], by decide⟩,
    .array [.ref 2, .ref 5],
    .record ⟨[("type", .str "object"), ("properties", .ref 3), ("required", .ref 4),
      ("additionalProperties", .bool false)], by decide⟩,
    .record ⟨[("__proto__", .ref 6)], by decide⟩,
    .array [.str "__proto__"],
    .record ⟨[("type", .str "array"), ("items", .ref 6)], by decide⟩,
    .record ⟨[("type", .str "string"), ("enum", .ref 7)], by decide⟩,
    .array [.str "a", .str "b"]]

theorem supported_sharedSchemaHeap : Supported sharedSchemaHeap (.ref 0) :=
  ⟨20, by decide⟩

theorem validateJsonSchemaValue_iff_sharedSchemaHeap :
    ∃ meaning : Schema, meaning.DenotedBy sharedSchemaHeap (.ref 0) ∧
      ∃ violations turns, (∀ fuel, turns ≤ fuel →
        validateJsonSchemaValue (fun _ _ => "[\"a\",\"b\"]") sharedSchemaHeap fuel (.ref 0)
          (.obj [("__proto__", .str "a")]) "value" = some (.returned violations)) ∧
        (violations = [] ↔ meaning.Accepts (.obj [("__proto__", .str "a")])) := by
  obtain ⟨⟨meaning, hmeaning⟩, hvalid⟩ :=
    @validateJsonSchemaValue_iff (fun _ _ => "[\"a\",\"b\"]") sharedSchemaHeap (.ref 0)
      supported_sharedSchemaHeap
  exact ⟨meaning, hmeaning, hvalid meaning hmeaning _ (by decide) "value"⟩

end DshKernel.Tools
