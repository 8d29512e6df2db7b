import DshKernel.Js.Heap
import DshKernel.Lib.TaskStack
import Mathlib.Data.List.Forall2
import Mathlib.Tactic.ByContra

/-!
# The enforced JSON Schema subset

`assertSupportedJsonSchema` walks an untrusted schema and collects what is outside the subset. What
it accepts is a finite tree with a meaning of its own.
-/

namespace DshKernel.Tools

open Js Lib List

inductive JsonSchemaScalarType where
  | string
  | number
  | integer
  | boolean
  | null
  deriving DecidableEq, Repr

inductive JsonSchemaType where
  | object
  | array
  | scalar (type : JsonSchemaScalarType)
  deriving DecidableEq, Repr

def JsonSchemaType.name : JsonSchemaType → String
  | .object => "object"
  | .array => "array"
  | .scalar .string => "string"
  | .scalar .number => "number"
  | .scalar .integer => "integer"
  | .scalar .boolean => "boolean"
  | .scalar .null => "null"

/-- `SCHEMA_TYPES` -/
def schemaTypes : List JsonSchemaType :=
  [.object, .array, .scalar .string, .scalar .number, .scalar .integer, .scalar .boolean,
    .scalar .null]

/-- `SCHEMA_TYPES.join('/')` -/
def schemaTypeNames : String := "/".intercalate (schemaTypes.map (·.name))

def schemaType? (name : String) : Option JsonSchemaType :=
  schemaTypes.find? fun type => type.name == name

/-- `CONSTRAINT_KEYWORDS` -/
def constraintKeywords : List String :=
  ["type", "oneOf", "properties", "required", "additionalProperties", "items", "enum", "const"]

/-- `ANNOTATION_KEYWORDS` -/
def annotationKeywords : List String := ["description", "title", "default", "examples"]

/-- `ONE_OF_SIBLING_KEYWORDS` -/
def oneOfSiblingKeywords : List String :=
  ["properties", "required", "additionalProperties", "items", "enum", "const"]

/-- `Number.isInteger` of a number that JSON carries -/
def isJsonInteger : Number → Bool
  | .integral (.int _) => true
  | _ => false

/-- `scalarMatches` -/
def scalarMatches : JsonSchemaScalarType → Raw → Bool
  | .string, .str _ => true
  | .number, .num value => value.isLossless
  | .integer, .num value => isJsonInteger value
  | .boolean, .bool _ => true
  | .null, .null => true
  | _, _ => false

/-- `===` of two scalars -/
def scalarStrictEq : Raw → Raw → Bool
  | .num a, .num b => a.strictEq b
  | .other, _ => false
  | a, b => a == b

/-- The comparison of `includes`, for which `NaN` is itself. -/
def scalarSameValueZero (a b : Raw) : Bool :=
  scalarStrictEq a b || (a == .num .nan && b == .num .nan)

section Walk

variable (heap : Heap)

inductive SchemaWalkTask where
  | enter (node : Raw) (path : String)
  | leave (node : Nat)
  | oneOfTail (node : OrderedMap String Raw) (path : String)
  | objectTail (node : OrderedMap String Raw) (path : String) (properties : Raw)

structure SchemaWalk where
  violations : List String := []
  seen : List Nat := []

def SchemaWalk.push (walk : SchemaWalk) (violations : List String) : SchemaWalk :=
  { walk with violations := walk.violations ++ violations }

def keywordViolations (node : OrderedMap String Raw) (path : String) : List String :=
  node.keys.flatMap fun key =>
    if constraintKeywords.contains key then []
    else if annotationKeywords.contains key then
      if heap.isJsonValue (ownOrUndefined node key) then []
      else [s!"{path}.{key} annotation must be lossless JSON data"]
    else
      [s!"{path}.{key} is not a supported keyword (subset: type/oneOf/properties/required/"
        ++ "additionalProperties/items/enum/const + annotations)"]

def textViolations (node : OrderedMap String Raw) (path key : String) : List String :=
  match node.get? key with
  | none => []
  | some (.str _) => []
  | some _ => [s!"{path}.{key} must be a string"]

/-- The keywords that need `type` or `oneOf` or exclude the latter. -/
def siblingViolations (node : OrderedMap String Raw) (path reason : String) : List String :=
  (oneOfSiblingKeywords.filter (hasOwn node)).map fun key => s!"{path}.{key} {reason}"

/-- `allowedFor` -/
def allowedFor : List (String × (JsonSchemaType → Bool)) :=
  [("properties", (· == .object)), ("required", (· == .object)),
    ("additionalProperties", (· == .object)), ("items", (· == .array)),
    ("enum", fun type => type != .object && type != .array),
    ("const", fun type => type != .object && type != .array)]

def misplacedViolations (node : OrderedMap String Raw) (path : String) (type : JsonSchemaType) :
    List String :=
  (allowedFor.filter fun entry => hasOwn node entry.1 && !entry.2 type).map fun entry =>
    s!"{path}.{entry.1} is not supported on type \"{type.name}\""

def requiredViolations (node : OrderedMap String Raw) (path : String) (properties : Raw) :
    List String :=
  if hasOwn node "required" then
    match heap.plainArray? (ownOrUndefined node "required") with
    | none => [s!"{path}.required must be an array of strings"]
    | some required =>
      if required.any fun entry => match entry with | .str _ => false | _ => true then
        [s!"{path}.required must be an array of strings"]
      else
        let declared := ((heap.record? properties).map Prod.snd).getD .empty
        required.flatMap fun entry => match entry with
          | .str key =>
            if hasOwn declared key then []
            else [s!"{path}.required names \"{key}\" which is not in properties"]
          | _ => []
  else []

/-- `checkObjectSchemaTail` -/
def checkObjectSchemaTail (node : OrderedMap String Raw) (path : String) (properties : Raw) :
    List String :=
  requiredViolations heap node path properties ++
    match node.get? "additionalProperties" with
    | none => []
    | some (.bool _) => []
    | some _ => [s!"{path}.additionalProperties must be a boolean"]

def isEnumOf (type : JsonSchemaScalarType) (allowed : Raw) : Bool :=
  match heap.plainArray? allowed with
  | some entries => !entries.isEmpty && entries.all (scalarMatches type)
  | none => false

def literalViolations (node : OrderedMap String Raw) (path : String) (type : JsonSchemaScalarType) :
    List String :=
  let allowed := ownOrUndefined node "enum"
  let enumValid := isEnumOf heap type allowed
  let declaredConst := ownOrUndefined node "const"
  (if hasOwn node "enum" && !enumValid then
    [s!"{path}.enum must be a non-empty array of {(JsonSchemaType.scalar type).name} values"]
  else []) ++
  if hasOwn node "const" then
    if !scalarMatches type declaredConst then
      [s!"{path}.const must be a {(JsonSchemaType.scalar type).name} value"]
    else if enumValid && !((heap.plainArray? allowed).getD []).any fun entry =>
        scalarSameValueZero entry declaredConst then
      [s!"{path}.const must be one of {path}.enum when both are declared"]
    else []
  else []

/-- What an entered node defers, and its violations, by its `type`. -/
def typedTasks (node : OrderedMap String Raw) (path : String) : JsonSchemaType →
    List SchemaWalkTask × List String
  | .object =>
    let properties := ownOrUndefined node "properties"
    let tail : SchemaWalkTask := .objectTail node path properties
    if hasOwn node "properties" then
      match heap.record? properties with
      | none => ([tail], [s!"{path}.properties must be an object of schemas"])
      | some (_, declared) =>
        (declared.entries.map (fun entry => .enter entry.2 s!"{path}.properties.{entry.1}") ++ [tail],
          [])
    else ([tail], [])
  | .array =>
    match node.get? "items" with
    | some items => ([.enter items s!"{path}.items"], [])
    | none => ([], [])
  | .scalar type => ([], literalViolations heap node path type)

def schemaTasks (node : OrderedMap String Raw) (path : String) :
    List SchemaWalkTask × List String :=
  match node.get? "type", node.get? "oneOf" with
  | some _, some _ => ([], [s!"{path} cannot declare both type and oneOf"])
  | none, none => ([], siblingViolations node path "requires type or oneOf")
  | none, some oneOf =>
    match heap.plainArray? oneOf with
    | some branches =>
      if branches.length < 2 then
        ([.oneOfTail node path], [s!"{path}.oneOf must be an array of at least two schemas"])
      else
        (branches.mapIdx (fun index branch => .enter branch s!"{path}.oneOf[{index}]") ++
          [.oneOfTail node path], [])
    | none => ([.oneOfTail node path], [s!"{path}.oneOf must be an array of at least two schemas"])
  | some type, none =>
    match type with
    | .str name =>
      match schemaType? name with
      | some type =>
        let (tasks, violations) := typedTasks heap node path type
        (tasks, misplacedViolations node path type ++ violations)
      | none =>
        ([], [s!"{path}.type must be one of {schemaTypeNames}"])
    | type =>
      if heap.isArray type then
        ([], [s!"{path}.type must be a single type string (type arrays are not supported)"])
      else ([], [s!"{path}.type must be one of {schemaTypeNames}"])

/-- One turn of the loop of `checkSchemaNode`. -/
def walkSchemaTask : SchemaWalkTask → SchemaWalk → Except Empty (List SchemaWalkTask × SchemaWalk)
  | .leave node, walk => .ok ([], { walk with seen := walk.seen.filter (· != node) })
  | .oneOfTail node path, walk =>
    .ok ([], walk.push (siblingViolations node path "is not supported beside oneOf"))
  | .objectTail node path properties, walk =>
    .ok ([], walk.push (checkObjectSchemaTail heap node path properties))
  | .enter node path, walk =>
    match heap.record? node with
    | none => .ok ([], walk.push [s!"{path} must be a schema object"])
    | some (id, fields) =>
      if walk.seen.contains id then .ok ([], walk.push [s!"{path} is circular"])
      else
        let (tasks, violations) := schemaTasks heap fields path
        .ok (tasks ++ [.leave id],
          { violations := walk.violations ++ (keywordViolations heap fields path ++
              textViolations fields path "description" ++ textViolations fields path "title" ++
              violations)
            seen := id :: walk.seen })

/-- `checkSchemaNode` and `assertSupportedJsonSchema`: the violations of a schema, none of which is
what the assertion demands. -/
def checkSchemaNode (fuel : Nat) (root : Raw) (rootPath : String) : Option (List String) :=
  match runTasks (walkSchemaTask heap) fuel [.enter root rootPath] {} with
  | some (.ok walk) => some walk.violations
  | _ => none

/-- `assertSupportedJsonSchema` returns. -/
def Supported (schema : Raw) : Prop := ∃ fuel, checkSchemaNode heap fuel schema "schema" = some []

end Walk

/-- What a supported schema says. An object's properties are in property order; without `items` an
array holds anything. -/
inductive Schema where
  | any
  | scalar (type : JsonSchemaScalarType) (allowed : Option (List Json)) (const : Option Json)
  | object (properties : List (String × Schema)) (required : List String) (closed : Bool)
  | array (items : Schema)
  | oneOf (branches : List Schema)

def JsonSchemaScalarType.Holds : JsonSchemaScalarType → Json → Prop
  | .string, value => ∃ s, value = .str s
  | .number, value => ∃ n, value = .num n
  | .integer, value => ∃ z, value = .num (.integral z)
  | .boolean, value => ∃ b, value = .bool b
  | .null, value => value = .null

mutual

def Schema.Accepts : Schema → Json → Prop
  | .any, _ => True
  | .scalar type allowed const, value =>
    type.Holds value ∧ (∀ entries, allowed = some entries → ∃ entry ∈ entries, value.Same entry) ∧
      ∀ expected, const = some expected → value.Same expected
  | .object properties required closed, value =>
    ∃ fields, value = .obj fields ∧ (∀ key ∈ required, key ∈ fields.map Prod.fst) ∧
      PropertiesAccept properties fields ∧
      (closed = true → ∀ key ∈ fields.map Prod.fst, key ∈ properties.map Prod.fst)
  | .array items, value => ∃ entries, value = .arr entries ∧ ∀ entry ∈ entries, items.Accepts entry
  | .oneOf branches, value => ExactlyOneAccepts branches value

def PropertiesAccept : List (String × Schema) → List (String × Json) → Prop
  | [], _ => True
  | (key, schema) :: rest, fields =>
    (∀ value, fields.lookup key = some value → schema.Accepts value) ∧ PropertiesAccept rest fields

def NoneAccepts : List Schema → Json → Prop
  | [], _ => True
  | branch :: rest, value => ¬ branch.Accepts value ∧ NoneAccepts rest value

def ExactlyOneAccepts : List Schema → Json → Prop
  | [], _ => False
  | branch :: rest, value =>
    branch.Accepts value ∧ NoneAccepts rest value ∨
      ¬ branch.Accepts value ∧ ExactlyOneAccepts rest value

end

section Denotation

variable (heap : Heap)

def ScalarDenoted (entry : Raw) (value : Json) : Prop :=
  entry.scalar? = some value ∧ value.isLossless = true

def AllowedDenoted : Option Raw → Option (List Json) → Prop
  | none, none => True
  | some list, some values =>
    ∃ entries, heap.plainArray? list = some entries ∧ List.Forall₂ ScalarDenoted entries values
  | _, _ => False

def ConstDenoted : Option Raw → Option Json → Prop
  | none, none => True
  | some entry, some value => ScalarDenoted entry value
  | _, _ => False

def PropertyEntries : Option Raw → List (String × Raw) → Prop
  | none, entries => entries = []
  | some properties, entries =>
    ∃ id declared, heap.record? properties = some (id, declared) ∧ entries = declared.entries

def RequiredDenoted : Option Raw → List String → Prop
  | none, required => required = []
  | some list, required => heap.plainArray? list = some (required.map .str)

def ClosedDenoted : Option Raw → Bool → Prop
  | none, closed => closed = false
  | some additional, closed => additional = .bool (!closed)

end Denotation

mutual

/-- The record at `node` is a schema and says `schema`. -/
def Schema.DenotedBy (heap : Heap) : Schema → Raw → Prop
  | .any, node =>
    ∃ id fields, heap.record? node = some (id, fields) ∧ fields.get? "type" = none ∧
      fields.get? "oneOf" = none
  | .scalar type allowed const, node =>
    ∃ id fields, heap.record? node = some (id, fields) ∧
      fields.get? "type" = some (.str (JsonSchemaType.scalar type).name) ∧
      fields.get? "oneOf" = none ∧ AllowedDenoted heap (fields.get? "enum") allowed ∧
      ConstDenoted (fields.get? "const") const
  | .object properties required closed, node =>
    ∃ id fields, heap.record? node = some (id, fields) ∧
      fields.get? "type" = some (.str JsonSchemaType.object.name) ∧ fields.get? "oneOf" = none ∧
      (∃ entries, PropertyEntries heap (fields.get? "properties") entries ∧
        PropertiesDenoted heap properties entries) ∧
      RequiredDenoted heap (fields.get? "required") required ∧
      ClosedDenoted (fields.get? "additionalProperties") closed
  | .array items, node =>
    ∃ id fields, heap.record? node = some (id, fields) ∧
      fields.get? "type" = some (.str JsonSchemaType.array.name) ∧ fields.get? "oneOf" = none ∧
      ((fields.get? "items" = none ∧ items = .any) ∨
        ∃ item, fields.get? "items" = some item ∧ items.DenotedBy heap item)
  | .oneOf branches, node =>
    ∃ id fields, heap.record? node = some (id, fields) ∧ fields.get? "type" = none ∧
      ∃ list nodes, fields.get? "oneOf" = some list ∧ heap.plainArray? list = some nodes ∧
        BranchesDenoted heap branches nodes

def PropertiesDenoted (heap : Heap) : List (String × Schema) → List (String × Raw) → Prop
  | [], entries => entries = []
  | (key, schema) :: rest, entries =>
    ∃ node later, entries = (key, node) :: later ∧ schema.DenotedBy heap node ∧
      PropertiesDenoted heap rest later

def BranchesDenoted (heap : Heap) : List Schema → List Raw → Prop
  | [], nodes => nodes = []
  | branch :: rest, nodes =>
    ∃ node later, nodes = node :: later ∧ branch.DenotedBy heap node ∧
      BranchesDenoted heap rest later

end

section Accepted

variable {heap : Heap}

theorem schemaType?_eq_some {name : String} {type : JsonSchemaType} (h : schemaType? name = some type) :
    name = type.name := by
  have hname := find?_some h
  exact (beq_iff_eq.mp hname).symm

variable {fuel : Nat} {final walk : SchemaWalk} {node properties : Raw} {path : String}
variable {fields : OrderedMap String Raw} {type : JsonSchemaScalarType}

theorem clean_of_runTasks {tasks : List SchemaWalkTask}
    (h : runTasks (walkSchemaTask heap) fuel tasks walk = some (.ok final))
    (hclean : final.violations = []) : walk.violations = [] := by
  by_contra hdirty
  have hfinal : final.violations ≠ [] := by
    refine @runTasks_preserves _ _ _ _ (fun walk => walk.violations ≠ []) ?_ _ _ _ _ h hdirty
    intro task s deferred later hact hs
    cases task with
    | leave node =>
      cases hact
      exact hs
    | oneOfTail node path =>
      cases hact
      exact append_ne_nil_of_left_ne_nil hs _
    | objectTail node path properties =>
      cases hact
      exact append_ne_nil_of_left_ne_nil hs _
    | enter node path =>
      simp only [walkSchemaTask] at hact
      split at hact
      · cases hact
        exact append_ne_nil_of_left_ne_nil hs _
      · split at hact
        · cases hact
          exact append_ne_nil_of_left_ne_nil hs _
        · cases hact
          exact append_ne_nil_of_left_ne_nil hs _
  exact hfinal hclean

theorem enter_clean
    (h : runTasks (walkSchemaTask heap) fuel [.enter node path] walk = some (.ok final))
    (hclean : final.violations = []) :
    ∃ id fields left later, heap.record? node = some (id, fields) ∧ left < fuel ∧
      (schemaTasks heap fields path).2 = [] ∧
      runTasks (walkSchemaTask heap) left ((schemaTasks heap fields path).1 ++ [.leave id]) later =
        some (.ok final) := by
  obtain ⟨left, deferred, later, hfuel, hact, hrest⟩ := runTasks_cons_ok.mp h
  have hlater := clean_of_runTasks hrest hclean
  simp only [walkSchemaTask] at hact
  split at hact
  · cases hact
    simp [SchemaWalk.push] at hlater
  · rename_i id fields hrecord
    split at hact
    · cases hact
      simp [SchemaWalk.push] at hlater
    · cases hact
      simp only [append_eq_nil_iff] at hlater
      exact ⟨id, fields, left, _, hrecord, by omega, hlater.2.2, by simpa using hrest⟩

inductive CleanForm (heap : Heap) (fields : OrderedMap String Raw) (path : String) : Prop where
  | any (htype : fields.get? "type" = none) (honeOf : fields.get? "oneOf" = none)
  | oneOf (list : Raw) (branches : List Raw) (htype : fields.get? "type" = none)
      (honeOf : fields.get? "oneOf" = some list) (hlist : heap.plainArray? list = some branches)
      (htasks : ∀ branch ∈ branches, ∃ label,
        .enter branch label ∈ (schemaTasks heap fields path).1)
  | typed (type : JsonSchemaType) (htype : fields.get? "type" = some (.str type.name))
      (honeOf : fields.get? "oneOf" = none)
      (htasks : (schemaTasks heap fields path).1 = (typedTasks heap fields path type).1)
      (hclean : (typedTasks heap fields path type).2 = [])

theorem cleanForm_of_schemaTasks
    (hclean : (schemaTasks heap fields path).2 = []) : CleanForm heap fields path := by
  cases htype : fields.get? "type" with
  | none =>
    cases honeOf : fields.get? "oneOf" with
    | none => exact .any htype honeOf
    | some list =>
      simp only [schemaTasks, htype, honeOf] at hclean
      split at hclean
      · rename_i branches hlist
        split at hclean
        · simp at hclean
        · rename_i hlength
          refine .oneOf list branches htype honeOf hlist ?_
          intro branch hmem
          obtain ⟨index, hindex, rfl⟩ := getElem_of_mem hmem
          refine ⟨s!"{path}.oneOf[{index}]", ?_⟩
          simp only [schemaTasks, htype, honeOf, hlist, if_neg hlength]
          refine mem_append_left _ ?_
          exact mem_mapIdx.mpr ⟨index, hindex, rfl⟩
      · simp at hclean
  | some type =>
    cases honeOf : fields.get? "oneOf" with
    | some list => simp [schemaTasks, htype, honeOf] at hclean
    | none =>
      cases type with
      | str name =>
        cases hknown : schemaType? name with
        | none => simp [schemaTasks, htype, honeOf, hknown] at hclean
        | some type =>
          have hname := schemaType?_eq_some hknown
          simp only [schemaTasks, htype, honeOf, hknown, append_eq_nil_iff] at hclean
          refine .typed type (hname ▸ htype) honeOf ?_ hclean.2
          simp only [schemaTasks, htype, honeOf, hknown]
      | _ =>
        simp only [schemaTasks, htype, honeOf] at hclean
        split at hclean
        · simp at hclean
        · simp at hclean

theorem scalarDenoted_of_matches {entry : Raw}
    (h : scalarMatches type entry = true) : ∃ value, ScalarDenoted entry value ∧ type.Holds value := by
  cases type with
  | string =>
    cases entry with
    | str s => exact ⟨.str s, ⟨rfl, rfl⟩, s, rfl⟩
    | _ => cases h
  | number =>
    cases entry with
    | num n => exact ⟨.num n, ⟨rfl, h⟩, n, rfl⟩
    | _ => cases h
  | integer =>
    cases entry with
    | num n =>
      cases n with
      | integral z =>
        cases z with
        | int z => exact ⟨.num (.integral (.int z)), ⟨rfl, rfl⟩, .int z, rfl⟩
        | negZero => cases h
      | _ => cases h
    | _ => cases h
  | boolean =>
    cases entry with
    | bool b => exact ⟨.bool b, ⟨rfl, rfl⟩, b, rfl⟩
    | _ => cases h
  | null =>
    cases entry with
    | null => exact ⟨.null, ⟨rfl, rfl⟩, rfl⟩
    | _ => cases h

theorem scalarsDenoted_of_matches {entries : List Raw}
    (h : ∀ entry ∈ entries, scalarMatches type entry = true) :
    ∃ values, List.Forall₂ ScalarDenoted entries values := by
  induction entries with
  | nil => exact ⟨[], .nil⟩
  | cons entry rest ih =>
    obtain ⟨value, hvalue, -⟩ := scalarDenoted_of_matches (h entry mem_cons_self)
    obtain ⟨values, hvalues⟩ := ih fun later hlater => h later (mem_cons_of_mem _ hlater)
    exact ⟨value :: values, .cons hvalue hvalues⟩

theorem literals_denoted (hclean : literalViolations heap fields path type = []) :
    ∃ allowed const, AllowedDenoted heap (fields.get? "enum") allowed ∧
      ConstDenoted (fields.get? "const") const := by
  simp only [literalViolations, append_eq_nil_iff] at hclean
  obtain ⟨henum, hconst⟩ := hclean
  have hallowed : ∃ allowed, AllowedDenoted heap (fields.get? "enum") allowed := by
    cases hget : fields.get? "enum" with
    | none => exact ⟨none, trivial⟩
    | some list =>
      simp only [hasOwn, ownOrUndefined, hget, Option.isSome_some, Option.getD_some, Bool.true_and]
        at henum
      split at henum
      · cases henum
      · rename_i hvalid
        simp only [isEnumOf] at hvalid
        split at hvalid
        · rename_i entries hentries
          simp only [Bool.not_eq_true', Bool.not_eq_false, Bool.and_eq_true, all_eq_true]
            at hvalid
          obtain ⟨values, hvalues⟩ := scalarsDenoted_of_matches hvalid.2
          exact ⟨some values, entries, hentries, hvalues⟩
        · simp at hvalid
  have hdeclared : ∃ const, ConstDenoted (fields.get? "const") const := by
    cases hget : fields.get? "const" with
    | none => exact ⟨none, trivial⟩
    | some entry =>
      simp only [hasOwn, ownOrUndefined, hget, Option.isSome_some, Option.getD_some] at hconst
      split at hconst
      · split at hconst
        · cases hconst
        · rename_i hmatches
          simp only [Bool.not_eq_true', Bool.not_eq_false] at hmatches
          obtain ⟨value, hvalue, -⟩ := scalarDenoted_of_matches hmatches
          exact ⟨some value, hvalue⟩
      · rename_i hfalse
        exact absurd trivial hfalse
  obtain ⟨allowed, hallowed⟩ := hallowed
  obtain ⟨const, hconst⟩ := hdeclared
  exact ⟨allowed, const, hallowed, hconst⟩

theorem required_denoted
    (hclean : requiredViolations heap fields path properties = []) :
    ∃ required, RequiredDenoted heap (fields.get? "required") required := by
  cases hget : fields.get? "required" with
  | none => exact ⟨[], rfl⟩
  | some list =>
    simp only [requiredViolations, hasOwn, ownOrUndefined, hget, Option.isSome_some,
      Option.getD_some, if_true] at hclean
    split at hclean
    · cases hclean
    · rename_i entries hentries
      split at hclean
      · cases hclean
      · rename_i hstrings
        have hmap : ∃ required : List String, entries = required.map .str := by
          clear hclean hentries
          induction entries with
          | nil => exact ⟨[], rfl⟩
          | cons entry rest ih =>
            cases entry with
            | str key =>
              obtain ⟨required, hrequired⟩ := ih (by simpa using hstrings)
              exact ⟨key :: required, by rw [hrequired]; rfl⟩
            | _ => simp at hstrings
        obtain ⟨required, rfl⟩ := hmap
        exact ⟨required, hentries⟩

theorem objectTail_denoted
    (hclean : checkObjectSchemaTail heap fields path properties = []) :
    ∃ required closed, RequiredDenoted heap (fields.get? "required") required ∧
      ClosedDenoted (fields.get? "additionalProperties") closed := by
  simp only [checkObjectSchemaTail, append_eq_nil_iff] at hclean
  obtain ⟨required, hrequired⟩ := required_denoted hclean.1
  cases hget : fields.get? "additionalProperties" with
  | none => exact ⟨required, false, hrequired, rfl⟩
  | some additional =>
    cases additional with
    | bool isOpen => exact ⟨required, !isOpen, hrequired, by simp [ClosedDenoted]⟩
    | _ =>
      rw [hget] at hclean
      cases hclean.2

theorem branches_denoted {nodes : List Raw}
    (h : ∀ node ∈ nodes, ∃ schema : Schema, schema.DenotedBy heap node) :
    ∃ branches, BranchesDenoted heap branches nodes := by
  induction nodes with
  | nil => exact ⟨[], rfl⟩
  | cons node rest ih =>
    obtain ⟨branch, hbranch⟩ := h node mem_cons_self
    obtain ⟨branches, hbranches⟩ := ih fun later hlater => h later (mem_cons_of_mem _ hlater)
    exact ⟨branch :: branches, node, rest, rfl, hbranch, hbranches⟩

theorem properties_denoted {entries : List (String × Raw)}
    (h : ∀ entry ∈ entries, ∃ schema : Schema, schema.DenotedBy heap entry.2) :
    ∃ properties, PropertiesDenoted heap properties entries := by
  induction entries with
  | nil => exact ⟨[], rfl⟩
  | cons entry rest ih =>
    obtain ⟨schema, hschema⟩ := h entry mem_cons_self
    obtain ⟨properties, hproperties⟩ :=
      ih fun later hlater => h later (mem_cons_of_mem _ hlater)
    exact ⟨(entry.1, schema) :: properties, entry.2, rest, rfl, hschema, hproperties⟩

theorem denoted_of_enter
    (h : runTasks (walkSchemaTask heap) fuel [.enter node path] walk = some (.ok final))
    (hclean : final.violations = []) : ∃ schema : Schema, schema.DenotedBy heap node := by
  induction fuel using Nat.strongRecOn generalizing node path walk final with
  | _ fuel ih =>
    obtain ⟨id, fields, left, later, hrecord, hless, hform, hrest⟩ := enter_clean h hclean
    have hbelow : ∀ child label, .enter child label ∈ (schemaTasks heap fields path).1 →
        ∃ schema : Schema, schema.DenotedBy heap child := by
      intro child label hmem
      obtain ⟨used, more, before, after, rest, hle, hone, hlast⟩ :=
        runTasks_mem hrest (mem_append_left _ hmem)
      exact ih used (by omega) hone (clean_of_runTasks hlast hclean)
    cases cleanForm_of_schemaTasks hform with
    | any htype honeOf => exact ⟨.any, id, fields, hrecord, htype, honeOf⟩
    | oneOf list nodes htype honeOf hlist htasks =>
      obtain ⟨branches, hbranches⟩ := branches_denoted fun node hnode => by
        obtain ⟨label, hmem⟩ := htasks node hnode
        exact hbelow node label hmem
      exact ⟨.oneOf branches, id, fields, hrecord, htype, list, nodes, honeOf, hlist, hbranches⟩
    | typed type htype honeOf htasks htyped =>
      cases type with
      | scalar type =>
        obtain ⟨allowed, const, hallowed, hconst⟩ := literals_denoted htyped
        exact ⟨.scalar type allowed const, id, fields, hrecord, htype, honeOf, hallowed, hconst⟩
      | array =>
        cases hitems : fields.get? "items" with
        | none => exact ⟨.array .any, id, fields, hrecord, htype, honeOf, .inl ⟨hitems, rfl⟩⟩
        | some item =>
          have hmem : .enter item s!"{path}.items" ∈ (schemaTasks heap fields path).1 := by
            rw [htasks]
            simp [typedTasks, hitems]
          obtain ⟨items, hdenoted⟩ := hbelow item _ hmem
          exact ⟨.array items, id, fields, hrecord, htype, honeOf, .inr ⟨item, hitems, hdenoted⟩⟩
      | object =>
        have htail : .objectTail fields path (ownOrUndefined fields "properties") ∈
            (schemaTasks heap fields path).1 := by
          rw [htasks]
          simp only [typedTasks]
          split
          · split
            · simp
            · simp
          · simp
        obtain ⟨used, more, before, after, rest, hle, hone, hlast⟩ :=
          runTasks_mem hrest (mem_append_left _ htail)
        obtain ⟨_, _, _, -, hact, hdone⟩ := runTasks_cons_ok.mp hone
        cases hact
        have hafter := clean_of_runTasks hdone (clean_of_runTasks hlast hclean)
        obtain ⟨required, closed, hrequired, hclosed⟩ :=
          objectTail_denoted (append_eq_nil_iff.mp hafter).2
        have hproperties : ∃ entries properties,
            PropertyEntries heap (fields.get? "properties") entries ∧
              PropertiesDenoted heap properties entries := by
          cases hget : fields.get? "properties" with
          | none => exact ⟨[], [], rfl, rfl⟩
          | some record =>
            have hown : hasOwn fields "properties" = true := by simp [hasOwn, hget]
            have hread : ownOrUndefined fields "properties" = record := by
              simp [ownOrUndefined, hget]
            simp only [typedTasks, hown, if_true, hread] at htyped htasks
            split at htyped
            · cases htyped
            · rename_i id declared hdeclared
              simp only [hdeclared] at htasks
              obtain ⟨properties, hdenoted⟩ := properties_denoted fun entry hentry =>
                hbelow entry.2 s!"{path}.properties.{entry.1}" (by
                  rw [htasks]
                  exact mem_append_left _ (mem_map_of_mem hentry))
              exact ⟨declared.entries, properties, ⟨id, declared, hdeclared, rfl⟩, hdenoted⟩
        obtain ⟨entries, properties, hentries, hdenoted⟩ := hproperties
        exact ⟨.object properties required closed, id, fields, hrecord, htype, honeOf,
          ⟨entries, hentries, hdenoted⟩, hrequired, hclosed⟩

theorem Supported.denoted {schema : Raw} (h : Supported heap schema) :
    ∃ meaning : Schema, meaning.DenotedBy heap schema := by
  obtain ⟨fuel, hfuel⟩ := h
  simp only [checkSchemaNode] at hfuel
  split at hfuel
  · rename_i walk hrun
    exact denoted_of_enter hrun (Option.some.inj hfuel)
  · cases hfuel

end Accepted

end DshKernel.Tools
