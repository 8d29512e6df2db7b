import DshKernel.Tools.SchemaValues

/-!
# Compiling author schemas

`runSchemaCompiler` turns the schema language of tool authors into JSON Schema. It works on the
heap: a node is installed where it belongs before its parts are compiled, and is filled in later.
-/

namespace DshKernel.Tools

open Js Lib JsonSchemaType

inductive NodeDestination where
  | root
  | property (target : Nat) (key : String)
  | item (target : Nat)
  | oneOf (target index : Nat)

inductive PropertyMapDestination where
  | root
  | object (target : Nat)

inductive CompileTask where
  | value (input : Raw) (path : String) (allowRequired : Bool) (destination : NodeDestination)
  | propertyMap (input : Raw) (path : String) (destination : PropertyMapDestination)
  | property (property : Raw) (path key : String) (properties required : Nat)
  | propertyMapTail (required : Nat) (destination : PropertyMapDestination)
  | leave (input : Nat)

/-- The heap, the ancestors, and the holders of the two kinds of root: a node, and a property map
with its `required`. -/
structure Compilation where
  heap : Heap
  seen : List Nat := []
  rootNode : Option Raw := none
  rootMap : Option (Raw × Option Raw) := none

/-- `ANNOTATION_KEYS` -/
def annotationKeys : List String := ["description", "title", "default", "examples"]

/-- `copyAnnotations` -/
def copyAnnotations (source target : OrderedMap String Raw) : OrderedMap String Raw :=
  annotationKeys.foldl (fun target key => match source.get? key with
    | some value => target.set key value
    | none => target) target

/-- `assertAuthorKeys` -/
def assertAuthorKeys (source : OrderedMap String Raw) (path : String) (allowed : List String) :
    Except String Unit :=
  match source.keys.find? fun key => !allowed.contains key with
  | some key => .error s!"{path}.{key} is not supported by the value schema DSL"
  | none => .ok ()

/-- `assignCompiledNode` -/
def assignCompiledNode (destination : NodeDestination) (node : Raw) (c : Compilation) :
    Compilation :=
  match destination with
  | .root => { c with rootNode := some node }
  | .property target key => { c with heap := c.heap.setField target key node }
  | .item target => { c with heap := c.heap.setField target "items" node }
  | .oneOf target index => { c with heap := c.heap.setItem target index node }

/-- `assignCompiledPropertyMap` -/
def assignCompiledPropertyMap (destination : PropertyMapDestination) (properties : Raw)
    (c : Compilation) : Compilation :=
  match destination with
  | .root => { c with rootMap := some (properties, none) }
  | .object target => { c with heap := c.heap.setField target "properties" properties }

def assignRequired (destination : PropertyMapDestination) (required : Raw) (c : Compilation) :
    Compilation :=
  match destination with
  | .root => { c with rootMap := c.rootMap.map fun found => (found.1, some required) }
  | .object target => { c with heap := c.heap.setField target "required" required }

/-- What a node holds when its turn ends, the arrays allocated with it, and what it defers. -/
structure NodeForm where
  fields : OrderedMap String Raw
  arrays : List HeapObject := []
  tasks : List CompileTask := []

section Forms

variable (heap : Heap) (input : OrderedMap String Raw) (path : String) (authorKeys : List String)
  (node : Nat)

def oneOfForm : Except String NodeForm :=
  match assertAuthorKeys input path (authorKeys ++ ["oneOf", "type"]) with
  | .error message => .error message
  | .ok () =>
    if hasOwn input "type" then .error s!"{path} cannot declare both type and oneOf"
    else
      match heap.plainArray? (ownOrUndefined input "oneOf") with
      | none => .error s!"{path}.oneOf must be an array of at least two value schemas"
      | some branches =>
        .ok {
          fields := copyAnnotations input (OrderedMap.empty.set "oneOf" (.ref (node + 1)))
          arrays := [.array []]
          tasks := branches.mapIdx fun index branch =>
            .value branch s!"{path}.oneOf[{index}]" false (.oneOf (node + 1) index) }

def jsonForm : Except String NodeForm :=
  match assertAuthorKeys input path (authorKeys ++ ["type"]) with
  | .error message => .error message
  | .ok () => .ok { fields := copyAnnotations input .empty }

def objectForm : Except String NodeForm :=
  match assertAuthorKeys input path (authorKeys ++ ["type", "properties", "additionalProperties"])
    with
  | .error message => .error message
  | .ok () =>
    match ownOrUndefined input "additionalProperties" with
    | .bool additional =>
      .ok {
        fields := (copyAnnotations input (OrderedMap.empty.set "type" (.str "object"))).set
          "additionalProperties" (.bool additional)
        tasks := match input.get? "properties" with
          | some properties => [.propertyMap properties s!"{path}.properties" (.object node)]
          | none => [] }
    | _ => .error s!"{path}.additionalProperties must be explicitly true or false"

def arrayForm : Except String NodeForm :=
  match assertAuthorKeys input path (authorKeys ++ ["type", "items"]) with
  | .error message => .error message
  | .ok () =>
    .ok {
      fields := copyAnnotations input (OrderedMap.empty.set "type" (.str "array"))
      tasks := match input.get? "items" with
        | some items => [.value items s!"{path}.items" false (.item node)]
        | none => [] }

/-- The declared `const`, after whatever a node holds. -/
def withConst (fields : OrderedMap String Raw) : OrderedMap String Raw :=
  match input.get? "const" with
  | some const => fields.set "const" const
  | none => fields

def scalarForm (type : JsonSchemaScalarType) : Except String NodeForm :=
  match assertAuthorKeys input path (authorKeys ++ ["type", "enum", "const"]) with
  | .error message => .error message
  | .ok () =>
    let fields := copyAnnotations input
      (OrderedMap.empty.set "type" (.str (scalar type).name))
    match input.get? "enum" with
    | none => .ok { fields := withConst input fields }
    | some allowed =>
      match heap.plainArray? allowed with
      | none => .error s!"{path}.enum must be a non-empty array of scalar values"
      | some entries =>
        .ok {
          fields := withConst input (fields.set "enum" (.ref (node + 1)))
          arrays := [.array entries] }

def nodeForm : Except String NodeForm :=
  if hasOwn input "oneOf" then oneOfForm heap input path authorKeys node
  else if ownOrUndefined input "type" = .str "json" then jsonForm input path authorKeys
  else
    match nodeType? (ownOrUndefined input "type") with
    | some .object => objectForm input path authorKeys node
    | some .array => arrayForm input path authorKeys node
    | some (.scalar type) => scalarForm heap input path authorKeys node type
    | none =>
      .error (s!"{path}.type must be string/number/integer/boolean/null/array/object/json, "
        ++ "or use oneOf")

end Forms

def compileValue (input : Raw) (path : String) (allowRequired : Bool)
    (destination : NodeDestination) (c : Compilation) :
    Except String (List CompileTask × Compilation) :=
  match c.heap.record? input with
  | none => .error s!"{path} must be a value schema object"
  | some (id, fields) =>
    if c.seen.contains id then .error s!"{path} is circular"
    else
      let node := c.heap.length
      let authorKeys := annotationKeys ++ if allowRequired then ["required"] else []
      match nodeForm c.heap fields path authorKeys node with
      | .error message => .error message
      | .ok form =>
        let assigned := assignCompiledNode destination (.ref node) c
        .ok (form.tasks ++ [.leave id],
          { assigned with
            heap := assigned.heap ++ .record form.fields :: form.arrays
            seen := id :: c.seen })

def compileMap (input : Raw) (path : String) (destination : PropertyMapDestination)
    (c : Compilation) : Except String (List CompileTask × Compilation) :=
  match c.heap.record? input with
  | none => .error s!"{path} must be an object of value schemas"
  | some (id, fields) =>
    if c.seen.contains id then .error s!"{path} is circular"
    else
      let properties := c.heap.length
      let required := c.heap.length + 1
      let assigned := assignCompiledPropertyMap destination (.ref properties) c
      .ok (fields.entries.map (fun entry =>
            .property entry.2 s!"{path}.{entry.1}" entry.1 properties required) ++
          [.propertyMapTail required destination, .leave id],
        { assigned with
          heap := assigned.heap ++ [.record .empty, .array []]
          seen := id :: c.seen })

def compileProperty (property : Raw) (path key : String) (properties required : Nat)
    (c : Compilation) : Except String (List CompileTask × Compilation) :=
  let deferred := [CompileTask.value property path true (.property properties key)]
  match c.heap.record? property with
  | none => .error s!"{path} must be a value schema object"
  | some (_, fields) =>
    match fields.get? "required" with
    | none => .ok (deferred, c)
    | some (.bool true) => .ok (deferred, { c with heap := c.heap.pushItem required (.str key) })
    | some _ => .error s!"{path}.required must be true when present"

def compileMapTail (required : Nat) (destination : PropertyMapDestination) (c : Compilation) :
    Compilation :=
  match c.heap[required]? with
  | some (.array (_ :: _)) => assignRequired destination (.ref required) c
  | _ => c

/-- One turn of the loop of `runSchemaCompiler`. -/
def compileTask : CompileTask → Compilation → Except String (List CompileTask × Compilation)
  | .leave input, c => .ok ([], { c with seen := c.seen.filter (· != input) })
  | .propertyMapTail required destination, c => .ok ([], compileMapTail required destination c)
  | .property property path key properties required, c =>
    compileProperty property path key properties required c
  | .propertyMap input path destination, c => compileMap input path destination c
  | .value input path allowRequired destination, c =>
    compileValue input path allowRequired destination c

/-- `assertSupportedJsonSchema` on a compiled schema -/
def assertCompiled (fuel : Nat) (heap : Heap) (schema : Raw) :
    Option (Except (List String) (Heap × Raw)) :=
  match checkSchemaNode heap fuel schema "schema" with
  | none => none
  | some [] => some (.ok (heap, schema))
  | some violations => some (.error violations)

/-- `valueSchemaSpecToJsonSchema` -/
def valueSchemaSpecToJsonSchema (fuel : Nat) (heap : Heap) (spec : Raw) :
    Option (Except (List String) (Heap × Raw)) :=
  match runTasks compileTask fuel [.value spec "schema" false .root] { heap } with
  | none => none
  | some (.error message) => some (.error [message])
  | some (.ok c) =>
    match c.rootNode with
    | none => some (.error ["schema did not compile"])
    | some schema => assertCompiled fuel c.heap schema

def parameterRoot (properties : Raw) (required : Option Raw) : OrderedMap String Raw :=
  let fields := (OrderedMap.empty.set "type" (.str "object")).set "properties" properties
  match required with
  | some required => fields.set "required" required
  | none => fields

/-- `parameterSchemaSpecToJsonSchema` -/
def parameterSchemaSpecToJsonSchema (fuel : Nat) (heap : Heap) (spec : Raw) :
    Option (Except (List String) (Heap × Raw)) :=
  match runTasks compileTask fuel [.propertyMap spec "parameters" .root] { heap } with
  | none => none
  | some (.error message) => some (.error [message])
  | some (.ok c) =>
    match c.rootMap with
    | none => some (.error ["parameters did not compile"])
    | some (properties, required) =>
      assertCompiled fuel (c.heap ++ [.record (parameterRoot properties required)])
        (.ref c.heap.length)

/-- What an author schema says. Each property has its name and whether it is required. -/
inductive ValueSchemaSpec where
  | json
  | scalar (type : JsonSchemaScalarType) (allowed : Option (List Raw)) (const : Option Raw)
  | object (properties : List (String × Bool × ValueSchemaSpec)) (additional : Bool)
  | anyArray
  | array (items : ValueSchemaSpec)
  | oneOf (branches : List ValueSchemaSpec)

def IsLiteral (literal : Raw) (value : Json) : Prop :=
  ∃ expected, literal.scalar? = some expected ∧ value.Same expected

mutual

def ValueSchemaSpec.Accepts : ValueSchemaSpec → Json → Prop
  | .json, _ => True
  | .scalar type allowed const, value =>
    type.Holds value ∧ (∀ entries, allowed = some entries → ∃ entry ∈ entries, IsLiteral entry value) ∧
      ∀ literal, const = some literal → IsLiteral literal value
  | .object properties additional, value =>
    ∃ fields, value = .obj fields ∧ SpecPropertiesAccept properties fields ∧
      (additional = false → ∀ key ∈ fields.map Prod.fst, key ∈ properties.map Prod.fst)
  | .anyArray, value => ∃ entries, value = .arr entries
  | .array items, value => ∃ entries, value = .arr entries ∧ ∀ entry ∈ entries, items.Accepts entry
  | .oneOf branches, value => ExactlyOneSpecAccepts branches value

def SpecPropertiesAccept :
    List (String × Bool × ValueSchemaSpec) → List (String × Json) → Prop
  | [], _ => True
  | (key, required, spec) :: rest, fields =>
    (∀ value, fields.lookup key = some value → spec.Accepts value) ∧
      (required = true → key ∈ fields.map Prod.fst) ∧ SpecPropertiesAccept rest fields

def NoSpecAccepts : List ValueSchemaSpec → Json → Prop
  | [], _ => True
  | branch :: rest, value => ¬ branch.Accepts value ∧ NoSpecAccepts rest value

def ExactlyOneSpecAccepts : List ValueSchemaSpec → Json → Prop
  | [], _ => False
  | branch :: rest, value =>
    branch.Accepts value ∧ NoSpecAccepts rest value ∨
      ¬ branch.Accepts value ∧ ExactlyOneSpecAccepts rest value

end

/-- The `enum` of an author schema. -/
def SpecAllowed (heap : Heap) : Option Raw → Option (List Raw) → Prop
  | none, allowed => allowed = none
  | some list, allowed => ∃ entries, heap.plainArray? list = some entries ∧ allowed = some entries

mutual

/-- The record at `input` is an author schema and says `spec`. -/
def ValueSchemaSpec.DenotedBy (heap : Heap) : ValueSchemaSpec → Raw → Prop
  | .json, input =>
    ∃ id fields, heap.record? input = some (id, fields) ∧
      fields.get? "type" = some (.str "json") ∧ fields.get? "oneOf" = none
  | .scalar type allowed const, input =>
    ∃ id fields, heap.record? input = some (id, fields) ∧
      fields.get? "type" = some (.str (scalar type).name) ∧
      fields.get? "oneOf" = none ∧ SpecAllowed heap (fields.get? "enum") allowed ∧
      fields.get? "const" = const
  | .object properties additional, input =>
    ∃ id fields, heap.record? input = some (id, fields) ∧
      fields.get? "type" = some (.str object.name) ∧ fields.get? "oneOf" = none ∧
      fields.get? "additionalProperties" = some (.bool additional) ∧
      ∃ entries, PropertyEntries heap (fields.get? "properties") entries ∧
        SpecPropertiesDenoted heap properties entries
  | .anyArray, input =>
    ∃ id fields, heap.record? input = some (id, fields) ∧
      fields.get? "type" = some (.str array.name) ∧ fields.get? "oneOf" = none ∧
      fields.get? "items" = none
  | .array items, input =>
    ∃ id fields, heap.record? input = some (id, fields) ∧
      fields.get? "type" = some (.str array.name) ∧ fields.get? "oneOf" = none ∧
      ∃ item, fields.get? "items" = some item ∧ items.DenotedBy heap item
  | .oneOf branches, input =>
    ∃ id fields, heap.record? input = some (id, fields) ∧ fields.get? "type" = none ∧
      ∃ list inputs, fields.get? "oneOf" = some list ∧ heap.plainArray? list = some inputs ∧
        SpecBranchesDenoted heap branches inputs

def SpecPropertiesDenoted (heap : Heap) :
    List (String × Bool × ValueSchemaSpec) → List (String × Raw) → Prop
  | [], entries => entries = []
  | (key, required, spec) :: rest, entries =>
    ∃ input later, entries = (key, input) :: later ∧ spec.DenotedBy heap input ∧
      (∃ id fields, heap.record? input = some (id, fields) ∧
        fields.get? "required" = if required then some (.bool true) else none) ∧
      SpecPropertiesDenoted heap rest later

def SpecBranchesDenoted (heap : Heap) : List ValueSchemaSpec → List Raw → Prop
  | [], inputs => inputs = []
  | branch :: rest, inputs =>
    ∃ input later, inputs = input :: later ∧ branch.DenotedBy heap input ∧
      SpecBranchesDenoted heap rest later

end

/-- The two languages of authors: one schema, or the properties of an implicit open object. -/
inductive AuthorForm where
  | value
  | parameters

def AuthorForm.compile : AuthorForm → Nat → Heap → Raw → Option (Except (List String) (Heap × Raw))
  | .value => valueSchemaSpecToJsonSchema
  | .parameters => parameterSchemaSpecToJsonSchema

def AuthorForm.Says : AuthorForm → Heap → Raw → ValueSchemaSpec → Prop
  | .value, heap, input, spec => spec.DenotedBy heap input
  | .parameters, heap, input, spec =>
    ∃ id fields properties, heap.record? input = some (id, fields) ∧
      SpecPropertiesDenoted heap properties fields.entries ∧ spec = .object properties true

def requiredOf (properties : List (String × Bool × ValueSchemaSpec)) : List String :=
  (properties.filter fun property => property.2.1).map Prod.fst

/-- A record from `lo` on. -/
def RecordAt (heap : Heap) (lo : Nat) (node : Raw) (fields : OrderedMap String Raw) : Prop :=
  ∃ id, node = .ref id ∧ lo ≤ id ∧ heap[id]? = some (.record fields)

def ArrayAt (heap : Heap) (lo : Nat) (list : Raw) (items : List Raw) : Prop :=
  ∃ id, list = .ref id ∧ lo ≤ id ∧ heap[id]? = some (.array items)

/-- The `enum` of a compiled node. -/
def CompiledAllowed (heap : Heap) (lo : Nat) : Option Raw → Option (List Raw) → Prop
  | none, allowed => allowed = none
  | some list, allowed => ∃ entries, ArrayAt heap lo list entries ∧ allowed = some entries

/-- The `required` of a compiled node, which an empty one does not have. -/
def CompiledRequired (heap : Heap) (lo : Nat) : Option Raw → List String → Prop
  | none, required => required = []
  | some list, required => ArrayAt heap lo list (required.map .str)

/-- The `properties` of a compiled node. -/
def CompiledEntries (heap : Heap) (lo : Nat) : Option Raw → List (String × Raw) → Prop
  | none, entries => entries = []
  | some properties, entries =>
    ∃ fields, RecordAt heap lo properties fields ∧ entries = fields.entries

/-- The `additionalProperties` of a compiled node; the implicit root of parameters, which is open, has
none. -/
def CompiledAdditional : Option Raw → Bool → Prop
  | none, additional => additional = true
  | some flag, additional => flag = .bool additional

mutual

/-- The record at `node`, with all that belongs to it from `lo` on, is what `spec` compiles to. -/
def ValueSchemaSpec.CompiledAt (heap : Heap) (lo : Nat) : ValueSchemaSpec → Raw → Prop
  | .json, node =>
    ∃ fields, RecordAt heap lo node fields ∧ fields.get? "type" = none ∧ fields.get? "oneOf" = none
  | .scalar type allowed const, node =>
    ∃ fields, RecordAt heap lo node fields ∧
      fields.get? "type" = some (.str (scalar type).name) ∧
      fields.get? "oneOf" = none ∧ CompiledAllowed heap lo (fields.get? "enum") allowed ∧
      fields.get? "const" = const
  | .object properties additional, node =>
    ∃ fields, RecordAt heap lo node fields ∧
      fields.get? "type" = some (.str object.name) ∧ fields.get? "oneOf" = none ∧
      CompiledAdditional (fields.get? "additionalProperties") additional ∧
      CompiledRequired heap lo (fields.get? "required") (requiredOf properties) ∧
      ∃ entries, CompiledEntries heap lo (fields.get? "properties") entries ∧
        PropertiesCompiledAt heap lo properties entries
  | .anyArray, node =>
    ∃ fields, RecordAt heap lo node fields ∧
      fields.get? "type" = some (.str array.name) ∧ fields.get? "oneOf" = none ∧
      fields.get? "items" = none
  | .array items, node =>
    ∃ fields, RecordAt heap lo node fields ∧
      fields.get? "type" = some (.str array.name) ∧ fields.get? "oneOf" = none ∧
      ∃ item, fields.get? "items" = some item ∧ items.CompiledAt heap lo item
  | .oneOf branches, node =>
    ∃ fields, RecordAt heap lo node fields ∧ fields.get? "type" = none ∧
      ∃ list nodes, fields.get? "oneOf" = some list ∧ ArrayAt heap lo list nodes ∧
        BranchesCompiledAt heap lo branches nodes

def PropertiesCompiledAt (heap : Heap) (lo : Nat) :
    List (String × Bool × ValueSchemaSpec) → List (String × Raw) → Prop
  | [], entries => entries = []
  | (key, _, spec) :: rest, entries =>
    ∃ node later, entries = (key, node) :: later ∧ spec.CompiledAt heap lo node ∧
      PropertiesCompiledAt heap lo rest later

def BranchesCompiledAt (heap : Heap) (lo : Nat) : List ValueSchemaSpec → List Raw → Prop
  | [], nodes => nodes = []
  | branch :: rest, nodes =>
    ∃ node later, nodes = node :: later ∧ branch.CompiledAt heap lo node ∧
      BranchesCompiledAt heap lo rest later

end

section Stability

variable {heap later : Heap} {lo lo' : Nat}

/-- The later heap holds the cells from `lo` on as they were. -/
def Same (heap later : Heap) (lo : Nat) : Prop :=
  ∀ id, lo ≤ id → ∀ object, heap[id]? = some object → later[id]? = some object

theorem RecordAt.mono {node : Raw} {fields : OrderedMap String Raw} (h : RecordAt heap lo node fields)
    (hsame : Same heap later lo) (hlo : lo' ≤ lo) : RecordAt later lo' node fields := by
  obtain ⟨id, rfl, hid, hcell⟩ := h
  exact ⟨id, rfl, by omega, hsame id hid _ hcell⟩

theorem ArrayAt.mono {list : Raw} {items : List Raw} (h : ArrayAt heap lo list items)
    (hsame : Same heap later lo) (hlo : lo' ≤ lo) : ArrayAt later lo' list items := by
  obtain ⟨id, rfl, hid, hcell⟩ := h
  exact ⟨id, rfl, by omega, hsame id hid _ hcell⟩

theorem CompiledAllowed.mono {list : Option Raw} {allowed : Option (List Raw)}
    (h : CompiledAllowed heap lo list allowed) (hsame : Same heap later lo) (hlo : lo' ≤ lo) :
    CompiledAllowed later lo' list allowed := by
  cases list with
  | none => exact h
  | some list =>
    obtain ⟨entries, hentries, hallowed⟩ := h
    exact ⟨entries, hentries.mono hsame hlo, hallowed⟩

theorem CompiledRequired.mono {list : Option Raw} {required : List String}
    (h : CompiledRequired heap lo list required) (hsame : Same heap later lo) (hlo : lo' ≤ lo) :
    CompiledRequired later lo' list required := by
  cases list with
  | none => exact h
  | some list => exact ArrayAt.mono h hsame hlo

theorem CompiledEntries.mono {properties : Option Raw} {entries : List (String × Raw)}
    (h : CompiledEntries heap lo properties entries) (hsame : Same heap later lo) (hlo : lo' ≤ lo) :
    CompiledEntries later lo' properties entries := by
  cases properties with
  | none => exact h
  | some properties =>
    obtain ⟨fields, hrecord, hentries⟩ := h
    exact ⟨fields, hrecord.mono hsame hlo, hentries⟩

mutual

theorem ValueSchemaSpec.CompiledAt.mono : ∀ (spec : ValueSchemaSpec) (node : Raw),
    spec.CompiledAt heap lo node → Same heap later lo → lo' ≤ lo → spec.CompiledAt later lo' node
  | .json, _, ⟨fields, hrecord, h⟩, hsame, hlo => ⟨fields, hrecord.mono hsame hlo, h⟩
  | .scalar _ _ _, _, ⟨fields, hrecord, htype, honeOf, hallowed, hconst⟩, hsame, hlo =>
    ⟨fields, hrecord.mono hsame hlo, htype, honeOf, hallowed.mono hsame hlo, hconst⟩
  | .object properties _, _,
      ⟨fields, hrecord, htype, honeOf, hadditional, hrequired, entries, hentries, hproperties⟩,
      hsame, hlo =>
    ⟨fields, hrecord.mono hsame hlo, htype, honeOf, hadditional, hrequired.mono hsame hlo, entries,
      hentries.mono hsame hlo, PropertiesCompiledAt.mono properties entries hproperties hsame hlo⟩
  | .anyArray, _, ⟨fields, hrecord, h⟩, hsame, hlo => ⟨fields, hrecord.mono hsame hlo, h⟩
  | .array items, _, ⟨fields, hrecord, htype, honeOf, item, hitem, hcompiled⟩, hsame, hlo =>
    ⟨fields, hrecord.mono hsame hlo, htype, honeOf, item, hitem,
      ValueSchemaSpec.CompiledAt.mono items item hcompiled hsame hlo⟩
  | .oneOf branches, _, ⟨fields, hrecord, htype, list, nodes, honeOf, hlist, hbranches⟩, hsame, hlo =>
    ⟨fields, hrecord.mono hsame hlo, htype, list, nodes, honeOf, hlist.mono hsame hlo,
      BranchesCompiledAt.mono branches nodes hbranches hsame hlo⟩

theorem PropertiesCompiledAt.mono : ∀ (properties : List (String × Bool × ValueSchemaSpec))
    (entries : List (String × Raw)), PropertiesCompiledAt heap lo properties entries →
      Same heap later lo → lo' ≤ lo → PropertiesCompiledAt later lo' properties entries
  | [], _, h, _, _ => h
  | (_, _, spec) :: rest, _, ⟨node, more, heq, hspec, hmore⟩, hsame, hlo =>
    ⟨node, more, heq, ValueSchemaSpec.CompiledAt.mono spec node hspec hsame hlo,
      PropertiesCompiledAt.mono rest more hmore hsame hlo⟩

theorem BranchesCompiledAt.mono : ∀ (branches : List ValueSchemaSpec) (nodes : List Raw),
    BranchesCompiledAt heap lo branches nodes → Same heap later lo → lo' ≤ lo →
      BranchesCompiledAt later lo' branches nodes
  | [], _, h, _, _ => h
  | branch :: rest, _, ⟨node, more, heq, hbranch, hmore⟩, hsame, hlo =>
    ⟨node, more, heq, ValueSchemaSpec.CompiledAt.mono branch node hbranch hsame hlo,
      BranchesCompiledAt.mono rest more hmore hsame hlo⟩

end

end Stability

end DshKernel.Tools
