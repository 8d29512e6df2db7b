import DshKernel.Tools.AuthorSchema

/-!
# What the schema compiler makes of an author schema

The compiled node means what the author schema means. A run of the compiler on one node writes to
where the node is installed and to new cells, and to nothing else.
-/

namespace DshKernel.Tools

open Js Lib OrderedMap JsonSchemaType Heap

section Meaning

variable {heap : Heap} {lo : Nat}

theorem RecordAt.record? {node : Raw} {fields : OrderedMap String Raw}
    (h : RecordAt heap lo node fields) : ∃ id, heap.record? node = some (id, fields) := by
  obtain ⟨id, rfl, -, hcell⟩ := h
  exact ⟨id, Heap.record?_eq_some.mpr ⟨rfl, hcell⟩⟩

theorem ArrayAt.plainArray? {list : Raw} {items : List Raw} (h : ArrayAt heap lo list items) :
    heap.plainArray? list = some items := by
  obtain ⟨id, rfl, -, hcell⟩ := h
  exact Heap.plainArray?_eq_some.mpr ⟨id, rfl, hcell⟩

theorem schemaTypeName_injective {a b : JsonSchemaType} (h : a.name = b.name) : a = b := by
  have ha := nodeType?_name a
  rw [h, nodeType?_name b] at ha
  exact (Option.some.inj ha).symm

section Inversion

variable {schema : Schema} {node : Raw} {id : Nat} {fields : OrderedMap String Raw}

theorem denoted_untyped (h : schema.DenotedBy heap node) (hrecord : heap.record? node = some (id, fields))
    (htype : fields.get? "type" = none) :
    (fields.get? "oneOf" = none ∧ schema = .any) ∨
      ∃ branches list nodes, schema = .oneOf branches ∧ fields.get? "oneOf" = some list ∧
        heap.plainArray? list = some nodes ∧ BranchesDenoted heap branches nodes := by
  cases schema with
  | any =>
    obtain ⟨_, _, hfound, -, honeOf⟩ := h
    cases hrecord.symm.trans hfound
    exact .inl ⟨honeOf, rfl⟩
  | oneOf branches =>
    obtain ⟨_, _, hfound, -, list, nodes, honeOf, hlist, hbranches⟩ := h
    cases hrecord.symm.trans hfound
    exact .inr ⟨branches, list, nodes, rfl, honeOf, hlist, hbranches⟩
  | scalar type allowed const =>
    obtain ⟨_, _, hfound, hsome, -⟩ := h
    cases hrecord.symm.trans hfound
    cases htype.symm.trans hsome
  | array items =>
    obtain ⟨_, _, hfound, hsome, -⟩ := h
    cases hrecord.symm.trans hfound
    cases htype.symm.trans hsome
  | object properties required closed =>
    obtain ⟨_, _, hfound, hsome, -⟩ := h
    cases hrecord.symm.trans hfound
    cases htype.symm.trans hsome

def Schema.type? : Schema → Option JsonSchemaType
  | .scalar type _ _ => some (.scalar type)
  | .object _ _ _ => some .object
  | .array _ => some .array
  | _ => none

theorem denoted_typed (h : schema.DenotedBy heap node) (hrecord : heap.record? node = some (id, fields))
    {type : JsonSchemaType} (htype : fields.get? "type" = some (.str type.name)) :
    schema.type? = some type := by
  have hname : ∀ other : JsonSchemaType, fields.get? "type" = some (.str other.name) →
      some other = some type := by
    intro other hother
    have heq := Option.some.inj (hother.symm.trans htype)
    rw [schemaTypeName_injective (Raw.str.inj heq)]
  cases schema with
  | any =>
    obtain ⟨_, _, hfound, hnone, -⟩ := h
    cases hrecord.symm.trans hfound
    cases hnone.symm.trans htype
  | oneOf branches =>
    obtain ⟨_, _, hfound, hnone, -⟩ := h
    cases hrecord.symm.trans hfound
    cases hnone.symm.trans htype
  | scalar other allowed const =>
    obtain ⟨_, _, hfound, hsome, -⟩ := h
    cases hrecord.symm.trans hfound
    exact hname _ hsome
  | array items =>
    obtain ⟨_, _, hfound, hsome, -⟩ := h
    cases hrecord.symm.trans hfound
    exact hname _ hsome
  | object properties required closed =>
    obtain ⟨_, _, hfound, hsome, -⟩ := h
    cases hrecord.symm.trans hfound
    exact hname _ hsome

end Inversion

theorem isLiteral_iff {literal : Raw} {expected value : Json} (h : ScalarDenoted literal expected) :
    IsLiteral literal value ↔ value.Same expected := by
  constructor
  · rintro ⟨other, hother, hsame⟩
    cases h.1.symm.trans hother
    exact hsame
  · exact fun hsame => ⟨expected, h.1, hsame⟩

theorem exists_isLiteral_iff {entries : List Raw} {values : List Json} {value : Json}
    (h : List.Forall₂ ScalarDenoted entries values) :
    (∃ entry ∈ entries, IsLiteral entry value) ↔ ∃ expected ∈ values, value.Same expected := by
  induction h with
  | nil => simp
  | cons hhead htail ih => simp [ih, isLiteral_iff hhead]

theorem literals_iff {allowed : Option (List Raw)} {const : Option Raw}
    {values : Option (List Json)} {expected : Option Json} {fields : OrderedMap String Raw}
    {value : Json} (hallowed : CompiledAllowed heap lo (fields.get? "enum") allowed)
    (hconst : fields.get? "const" = const)
    (hvalues : AllowedDenoted heap (fields.get? "enum") values)
    (hexpected : ConstDenoted (fields.get? "const") expected) :
    ((∀ list, values = some list → ∃ entry ∈ list, value.Same entry) ∧
        ∀ literal, expected = some literal → value.Same literal) ↔
      (∀ entries, allowed = some entries → ∃ entry ∈ entries, IsLiteral entry value) ∧
        ∀ literal, const = some literal → IsLiteral literal value := by
  refine and_congr ?_ ?_
  · cases hget : fields.get? "enum" with
    | none =>
      rw [hget] at hallowed hvalues
      cases values with
      | some list => cases hvalues
      | none =>
        cases hallowed
        simp
    | some list =>
      rw [hget] at hallowed hvalues
      obtain ⟨entries, hentries, rfl⟩ := hallowed
      cases values with
      | none => cases hvalues
      | some values =>
        obtain ⟨others, hothers, hdenoted⟩ := hvalues
        cases hentries.plainArray?.symm.trans hothers
        have hiff := @exists_isLiteral_iff entries values value hdenoted
        simpa using hiff.symm
  · rw [← hconst]
    cases hget : fields.get? "const" with
    | none =>
      rw [hget] at hexpected
      cases expected with
      | some literal => cases hexpected
      | none => simp
    | some literal =>
      rw [hget] at hexpected
      cases expected with
      | none => cases hexpected
      | some expected => simpa using (isLiteral_iff hexpected).symm

theorem required_eq {list : Option Raw} {required names : List String}
    (hcompiled : CompiledRequired heap lo list names) (hdenoted : RequiredDenoted heap list required) :
    required = names := by
  cases list with
  | none =>
    cases hcompiled
    exact hdenoted
  | some list =>
    have hsame := hcompiled.plainArray?.symm.trans hdenoted
    exact (List.map_injective_iff.mpr (fun a b h => Raw.str.inj h) (Option.some.inj hsame)).symm

theorem closed_eq {flag : Option Raw} {additional closed : Bool}
    (hcompiled : CompiledAdditional flag additional) (hdenoted : ClosedDenoted flag closed) :
    closed = !additional := by
  cases flag with
  | none =>
    cases hcompiled
    exact hdenoted
  | some flag =>
    have hbool := Raw.bool.inj (hcompiled.symm.trans hdenoted)
    rw [hbool, Bool.not_not]

theorem entries_eq {record : Option Raw} {entries others : List (String × Raw)}
    (hcompiled : CompiledEntries heap lo record entries) (hdenoted : PropertyEntries heap record others) :
    others = entries := by
  cases record with
  | none =>
    cases hcompiled
    exact hdenoted
  | some record =>
    obtain ⟨fields, hrecord, rfl⟩ := hcompiled
    obtain ⟨id, hid⟩ := hrecord.record?
    obtain ⟨other, declared, hdeclared, rfl⟩ := hdenoted
    cases hid.symm.trans hdeclared
    rfl

variable {properties : List (String × Bool × ValueSchemaSpec)}

theorem map_fst_of_compiled
    {entries : List (String × Raw)} (h : PropertiesCompiledAt heap lo properties entries) :
    entries.map Prod.fst = properties.map Prod.fst := by
  induction properties generalizing entries with
  | nil =>
    cases h
    rfl
  | cons property rest ih =>
    obtain ⟨node, later, rfl, -, hlater⟩ := h
    simp [ih hlater]

theorem mem_fields_of_required
    {fields : List (String × Json)} :
    (∀ key ∈ requiredOf properties, key ∈ fields.map Prod.fst) ↔
      ∀ property ∈ properties, property.2.1 = true → property.1 ∈ fields.map Prod.fst := by
  simp only [requiredOf, List.forall_mem_map, List.mem_filter, and_imp]

mutual

theorem accepts_iff : ∀ (spec : ValueSchemaSpec) (schema : Schema) (node : Raw) (value : Json),
    spec.CompiledAt heap lo node → schema.DenotedBy heap node →
      (schema.Accepts value ↔ spec.Accepts value)
  | .json, schema, node, value, ⟨fields, hrecord, htype, honeOf⟩, hdenoted => by
    obtain ⟨id, hid⟩ := hrecord.record?
    rcases denoted_untyped hdenoted hid htype with ⟨-, rfl⟩ | ⟨_, _, _, -, hsome, -⟩
    · simp [Schema.Accepts, ValueSchemaSpec.Accepts]
    · cases honeOf.symm.trans hsome
  | .scalar type allowed const, schema, node, value,
      ⟨fields, hrecord, htype, honeOf, hallowed, hconst⟩, hdenoted => by
    obtain ⟨id, hid⟩ := hrecord.record?
    have hkind := denoted_typed hdenoted hid htype
    cases schema with
    | scalar other values expected =>
      cases hkind
      obtain ⟨_, _, hfound, -, -, hvalues, hexpected⟩ := hdenoted
      cases hid.symm.trans hfound
      rw [Schema.Accepts, ValueSchemaSpec.Accepts, literals_iff hallowed hconst hvalues hexpected]
    | _ => cases hkind
  | .object properties additional, schema, node, value,
      ⟨fields, hrecord, htype, honeOf, hadditional, hrequired, entries, hentries, hproperties⟩,
      hdenoted => by
    obtain ⟨id, hid⟩ := hrecord.record?
    have hkind := denoted_typed hdenoted hid htype
    cases schema with
    | object schemas required closed =>
      obtain ⟨_, _, hfound, -, -, ⟨others, hothers, hschemas⟩, hnames, hclosed⟩ := hdenoted
      cases hid.symm.trans hfound
      cases entries_eq hentries hothers
      cases required_eq hrequired hnames
      have hshut := closed_eq hadditional hclosed
      have hsame : schemas.map Prod.fst = properties.map Prod.fst := by
        rw [← map_fst_of_denoted hschemas]
        exact map_fst_of_compiled hproperties
      rw [Schema.Accepts, ValueSchemaSpec.Accepts]
      refine exists_congr fun members => and_congr Iff.rfl ?_
      rw [← and_assoc, mem_fields_of_required,
        properties_accept_iff properties schemas entries members hproperties hschemas, hsame, hshut]
      cases additional <;> simp
    | _ => cases hkind
  | .anyArray, schema, node, value, ⟨fields, hrecord, htype, honeOf, hitems⟩, hdenoted => by
    obtain ⟨id, hid⟩ := hrecord.record?
    have hkind := denoted_typed hdenoted hid htype
    cases schema with
    | array items =>
      obtain ⟨_, _, hfound, -, -, hdenoted⟩ := hdenoted
      cases hid.symm.trans hfound
      rcases hdenoted with ⟨-, rfl⟩ | ⟨item, hsome, -⟩
      · simp [Schema.Accepts, ValueSchemaSpec.Accepts]
      · cases hitems.symm.trans hsome
    | _ => cases hkind
  | .array items, schema, node, value, ⟨fields, hrecord, htype, honeOf, item, hitem, hcompiled⟩,
      hdenoted => by
    obtain ⟨id, hid⟩ := hrecord.record?
    have hkind := denoted_typed hdenoted hid htype
    cases schema with
    | array schema =>
      obtain ⟨_, _, hfound, -, -, hdenoted⟩ := hdenoted
      cases hid.symm.trans hfound
      rcases hdenoted with ⟨hnone, -⟩ | ⟨again, hagain, hschema⟩
      · cases hnone.symm.trans hitem
      · cases hitem.symm.trans hagain
        rw [Schema.Accepts, ValueSchemaSpec.Accepts]
        refine exists_congr fun entries => and_congr Iff.rfl ?_
        refine forall_congr' fun entry => forall_congr' fun _ => ?_
        exact accepts_iff items schema item entry hcompiled hschema
    | _ => cases hkind
  | .oneOf branches, schema, node, value,
      ⟨fields, hrecord, htype, list, nodes, honeOf, hlist, hcompiled⟩, hdenoted => by
    obtain ⟨id, hid⟩ := hrecord.record?
    rcases denoted_untyped hdenoted hid htype with
      ⟨hnone, -⟩ | ⟨schemas, again, others, rfl, hagain, hothers, hschemas⟩
    · cases hnone.symm.trans honeOf
    · cases honeOf.symm.trans hagain
      cases hlist.plainArray?.symm.trans hothers
      rw [Schema.Accepts, ValueSchemaSpec.Accepts]
      exact (branches_accept_iff branches schemas nodes value hcompiled hschemas).2

theorem properties_accept_iff : ∀ (properties : List (String × Bool × ValueSchemaSpec))
    (schemas : List (String × Schema)) (entries : List (String × Raw))
    (fields : List (String × Json)), PropertiesCompiledAt heap lo properties entries →
      PropertiesDenoted heap schemas entries →
      (((∀ property ∈ properties, property.2.1 = true → property.1 ∈ fields.map Prod.fst) ∧
          PropertiesAccept schemas fields) ↔ SpecPropertiesAccept properties fields)
  | [], schemas, entries, fields, hcompiled, hdenoted => by
    cases hcompiled
    cases schemas with
    | nil => simp [PropertiesAccept, SpecPropertiesAccept]
    | cons schema rest =>
      obtain ⟨_, _, heq, -⟩ := hdenoted
      cases heq
  | (key, required, spec) :: rest, schemas, entries, fields, ⟨node, later, heq, hspec, hlater⟩,
      hdenoted => by
    cases heq
    cases schemas with
    | nil => cases hdenoted
    | cons property schemas =>
      obtain ⟨_, _, heq, hschema, hrest⟩ := hdenoted
      cases heq
      have hhead := fun value => accepts_iff spec property.2 node value hspec hschema
      have htail := properties_accept_iff rest schemas later fields hlater hrest
      rw [PropertiesAccept, SpecPropertiesAccept, ← htail, List.forall_mem_cons]
      simp only [hhead]
      constructor
      · rintro ⟨⟨hname, hnames⟩, hvalue, hvalues⟩
        exact ⟨hvalue, hname, hnames, hvalues⟩
      · rintro ⟨hvalue, hname, hnames, hvalues⟩
        exact ⟨⟨hname, hnames⟩, hvalue, hvalues⟩

theorem branches_accept_iff : ∀ (branches : List ValueSchemaSpec) (schemas : List Schema)
    (nodes : List Raw) (value : Json), BranchesCompiledAt heap lo branches nodes →
      BranchesDenoted heap schemas nodes →
      (NoneAccepts schemas value ↔ NoSpecAccepts branches value) ∧
        (ExactlyOneAccepts schemas value ↔ ExactlyOneSpecAccepts branches value)
  | [], schemas, nodes, value, hcompiled, hdenoted => by
    cases hcompiled
    cases schemas with
    | nil => simp [NoneAccepts, NoSpecAccepts, ExactlyOneAccepts, ExactlyOneSpecAccepts]
    | cons schema rest =>
      obtain ⟨_, _, heq, -⟩ := hdenoted
      cases heq
  | branch :: rest, schemas, nodes, value, ⟨node, later, heq, hbranch, hlater⟩, hdenoted => by
    cases heq
    cases schemas with
    | nil => cases hdenoted
    | cons schema schemas =>
      obtain ⟨_, _, heq, hschema, hrest⟩ := hdenoted
      cases heq
      have hhead := accepts_iff branch schema node value hbranch hschema
      obtain ⟨hnone, hone⟩ := branches_accept_iff rest schemas later value hlater hrest
      rw [NoneAccepts, NoSpecAccepts, ExactlyOneAccepts, ExactlyOneSpecAccepts, hhead, hnone, hone]
      exact ⟨Iff.rfl, Iff.rfl⟩

end

end Meaning

section Run

variable {heap : Heap}

def Kept (heap : Heap) (c : Compilation) : Prop :=
  heap.length ≤ c.heap.length ∧ ∀ id, id < heap.length → c.heap[id]? = heap[id]?

/-- From one compilation to a later one, the cells of the first but for `except` are unchanged, and
so are the holders. -/
structure Unchanged (except : List Nat) (c later : Compilation) : Prop where
  length : c.heap.length ≤ later.heap.length
  cells : ∀ id, id < c.heap.length → id ∉ except → later.heap[id]? = c.heap[id]?
  rootNode : later.rootNode = c.rootNode
  rootMap : later.rootMap = c.rootMap

theorem Unchanged.refl (except : List Nat) (c : Compilation) : Unchanged except c c :=
  ⟨Nat.le_refl _, fun _ _ _ => rfl, rfl, rfl⟩

variable {except : List Nat}

variable {c next : Compilation} {destination : NodeDestination}

theorem Unchanged.trans {a b : Compilation} (h : Unchanged except a b)
    (h' : Unchanged except b c) : Unchanged except a c where
  length := Nat.le_trans h.length h'.length
  cells id hid hother := by
    rw [h'.cells id (Nat.lt_of_lt_of_le hid h.length) hother, h.cells id hid hother]
  rootNode := h'.rootNode.trans h.rootNode
  rootMap := h'.rootMap.trans h.rootMap

theorem Unchanged.kept {later : Compilation} (h : Unchanged except c later)
    (hkept : Kept heap c) (hfresh : ∀ id ∈ except, heap.length ≤ id) : Kept heap later := by
  refine ⟨Nat.le_trans hkept.1 h.length, ?_⟩
  intro id hid
  have hother : id ∉ except := by
    intro hmem
    have hle := hfresh id hmem
    omega
  rw [h.cells id (Nat.lt_of_lt_of_le hid hkept.1) hother, hkept.2 id hid]

/-- Cells from `lo` on stay when all that is written to is below. -/
theorem Unchanged.same {later : Compilation} (h : Unchanged except c later)
    {lo : Nat} (hbelow : ∀ id ∈ except, id < lo) : Same c.heap later.heap lo := by
  intro id hid object hobject
  have hother : id ∉ except := by
    intro hmem
    have hlt := hbelow id hmem
    omega
  have hlt := (List.getElem?_eq_some_iff.mp hobject).1
  rw [h.cells id hlt hother, hobject]

def NodeDestination.targets : NodeDestination → List Nat
  | .root => []
  | .property target _ => [target]
  | .item target => [target]
  | .oneOf target _ => [target]

def PropertyMapDestination.targets : PropertyMapDestination → List Nat
  | .root => []
  | .object target => [target]

@[simp] theorem length_assignCompiledNode {node : Raw} :
    (assignCompiledNode destination node c).heap.length = c.heap.length := by
  cases destination <;> simp [assignCompiledNode]

@[simp] theorem length_assignCompiledPropertyMap {destination : PropertyMapDestination}
    {properties : Raw} :
    (assignCompiledPropertyMap destination properties c).heap.length = c.heap.length := by
  cases destination <;> simp [assignCompiledPropertyMap]

theorem cell_assignCompiledNode {node : Raw} {id : Nat} (h : id ∉ destination.targets) :
    (assignCompiledNode destination node c).heap[id]? = c.heap[id]? := by
  cases destination with
  | root => rfl
  | property target key => exact getElem?_setField_of_ne (by simpa [NodeDestination.targets] using h)
  | item target => exact getElem?_setField_of_ne (by simpa [NodeDestination.targets] using h)
  | oneOf target index =>
    exact getElem?_setItem_of_ne (by simpa [NodeDestination.targets] using h)

/-- A run on one node: below its first new cell, the heap afterwards is the one in which the node
has been installed. -/
structure Installed (base c later : Compilation) : Prop where
  length : c.heap.length < later.heap.length
  cells : ∀ id, id < c.heap.length → later.heap[id]? = base.heap[id]?
  rootNode : later.rootNode = base.rootNode
  rootMap : later.rootMap = base.rootMap

def ValueCompiles (heap : Heap) (fuel : Nat) : Prop :=
  ∀ input path allowRequired destination c later,
    runTasks compileTask fuel [.value input path allowRequired destination] c = some (.ok later) →
    Kept heap c → input.Within heap.length →
    (∀ id ∈ destination.targets, heap.length ≤ id ∧ id < c.heap.length) →
    ∃ spec : ValueSchemaSpec, spec.DenotedBy heap input ∧
      spec.CompiledAt later.heap c.heap.length (.ref c.heap.length) ∧
      Installed (assignCompiledNode destination (.ref c.heap.length) c) c later

theorem Installed.unchanged {node : Raw} {later : Compilation}
    (h : Installed (assignCompiledNode destination node c) c later)
    (hroot : destination ≠ .root) : Unchanged destination.targets c later where
  length := Nat.le_of_lt h.length
  cells id hid hother := (h.cells id hid).trans (cell_assignCompiledNode hother)
  rootNode := by
    rw [h.rootNode]
    cases destination <;> first | rfl | exact absurd rfl hroot
  rootMap := by
    rw [h.rootMap]
    cases destination <;> rfl

theorem branches_compile {fuel : Nat} (ih : ∀ less, less ≤ fuel → ValueCompiles heap less)
    {target : Nat} {label : Nat → String} {inputs : List Raw} {done : List Raw}
    {c later : Compilation}
    (hrun : runTasks compileTask fuel (inputs.mapIdx fun index input =>
      .value input (label (done.length + index)) false (.oneOf target (done.length + index))) c =
        some (.ok later))
    (hkept : Kept heap c) (hinputs : ∀ input ∈ inputs, input.Within heap.length)
    (htarget : heap.length ≤ target ∧ target < c.heap.length)
    (hcell : c.heap[target]? = some (.array done)) :
    ∃ branches nodes, SpecBranchesDenoted heap branches inputs ∧
      BranchesCompiledAt later.heap c.heap.length branches nodes ∧
      later.heap[target]? = some (.array (done ++ nodes)) ∧ Unchanged [target] c later := by
  induction inputs generalizing done c fuel with
  | nil =>
    simp only [List.mapIdx_nil, runTasks_nil, Option.some.injEq, Except.ok.injEq] at hrun
    subst hrun
    exact ⟨[], [], rfl, rfl, by simpa using hcell, .refl _ _⟩
  | cons input rest ihrest =>
    rw [List.mapIdx_cons] at hrun
    obtain ⟨used, left, mid, hsum, hfirst, hlast⟩ :=
      @runTasks_append _ _ _ _ [_] _ fuel c later hrun
    obtain ⟨branch, hdenoted, hcompiled, hinstalled⟩ := ih used (by omega) _ _ _ _ _ _ hfirst hkept
      (hinputs input List.mem_cons_self) (by simpa [NodeDestination.targets] using htarget)
    have hunchanged : Unchanged [target] c mid := hinstalled.unchanged nofun
    have hmid : mid.heap[target]? = some (.array (done ++ [.ref c.heap.length])) := by
      rw [hinstalled.cells target htarget.2]
      exact getElem?_setItem_self hcell
    have hfresh : ∀ id ∈ [target], heap.length ≤ id := by simpa using htarget.1
    have hbelow : ∀ id ∈ [target], id < c.heap.length := by simpa using htarget.2
    have hindex : ∀ index, (done ++ [Raw.ref c.heap.length]).length + index =
        done.length + (index + 1) := by
      intro index
      simp only [List.length_append, List.length_cons, List.length_nil]
      omega
    obtain ⟨branches, nodes, hrest, hnodes, hcell', hafter⟩ :=
      @ihrest left (fun less hless => ih less (by omega)) (done ++ [.ref c.heap.length]) mid
        (by simp only [hindex]; exact hlast) (hunchanged.kept hkept hfresh)
        (fun input hinput => hinputs input (List.mem_cons_of_mem _ hinput))
        ⟨htarget.1, Nat.lt_of_lt_of_le htarget.2 hunchanged.length⟩ hmid
    refine ⟨branch :: branches, .ref c.heap.length :: nodes, ⟨input, rest, rfl, hdenoted, hrest⟩,
      ⟨_, nodes, rfl, ?_, ?_⟩, ?_, hunchanged.trans hafter⟩
    · exact ValueSchemaSpec.CompiledAt.mono branch _ hcompiled (hafter.same hbelow) (Nat.le_refl _)
    · exact BranchesCompiledAt.mono branches nodes hnodes (fun _ _ _ h => h) hunchanged.length
    · rw [hcell', List.append_assoc]
      rfl

theorem Kept.record? (h : Kept heap c) {input : Raw}
    (hwithin : input.Within heap.length) : c.heap.record? input = heap.record? input := by
  cases input with
  | ref id => simp only [Heap.record?, h.2 id hwithin]
  | _ => rfl

theorem Kept.plainArray? (h : Kept heap c) {input : Raw}
    (hwithin : input.Within heap.length) : c.heap.plainArray? input = heap.plainArray? input := by
  cases input with
  | ref id => simp only [Heap.plainArray?, h.2 id hwithin]
  | _ => rfl

theorem compileProperty_ok {property : Raw} {path key : String} {properties required : Nat}
    {deferred : List CompileTask}
    (h : compileProperty property path key properties required c = .ok (deferred, next)) :
    ∃ isRequired : Bool,
      (∃ id fields, c.heap.record? property = some (id, fields) ∧
        fields.get? "required" = if isRequired then some (.bool true) else none) ∧
      deferred = [.value property path true (.property properties key)] ∧
      next = if isRequired then { c with heap := c.heap.pushItem required (.str key) } else c := by
  simp only [compileProperty] at h
  split at h
  · cases h
  · rename_i id fields hrecord
    split at h
    · rename_i hnone
      cases h
      exact ⟨false, ⟨id, fields, hrecord, hnone⟩, rfl, rfl⟩
    · rename_i hsome
      cases h
      exact ⟨true, ⟨id, fields, hrecord, hsome⟩, rfl, rfl⟩
    · cases h

theorem properties_compile {fuel : Nat} (ih : ∀ less, less ≤ fuel → ValueCompiles heap less)
    {properties required : Nat} {label : String → String} {entries : List (String × Raw)}
    {declared : OrderedMap String Raw} {names : List Raw} {c later : Compilation}
    (hrun : runTasks compileTask fuel (entries.map fun entry =>
      .property entry.2 (label entry.1) entry.1 properties required) c = some (.ok later))
    (hkept : Kept heap c) (hentries : ∀ entry ∈ entries, entry.2.Within heap.length)
    (hproperties : heap.length ≤ properties ∧ properties < c.heap.length)
    (hrequired : heap.length ≤ required ∧ required < c.heap.length) (hne : required ≠ properties)
    (hrecord : c.heap[properties]? = some (.record declared))
    (harray : c.heap[required]? = some (.array names)) (hnodup : (entries.map Prod.fst).Nodup)
    (hnew : ∀ key ∈ entries.map Prod.fst, key ∉ declared.keys) :
    ∃ specs nodes declared', SpecPropertiesDenoted heap specs entries ∧
      PropertiesCompiledAt later.heap c.heap.length specs nodes ∧
      later.heap[properties]? = some (.record declared') ∧
      declared'.entries = declared.entries ++ nodes ∧
      later.heap[required]? = some (.array (names ++ (requiredOf specs).map .str)) ∧
      Unchanged [properties, required] c later := by
  induction entries generalizing declared names c fuel with
  | nil =>
    simp only [List.map_nil, runTasks_nil, Option.some.injEq, Except.ok.injEq] at hrun
    subst hrun
    exact ⟨[], [], declared, rfl, rfl, hrecord, by simp, by simpa [requiredOf] using harray,
      .refl _ _⟩
  | cons entry rest ihrest =>
    obtain ⟨key, input⟩ := entry
    obtain ⟨used, left, mid, hsum, hfirst, hlast⟩ :=
      @runTasks_append _ _ _ _ [_] _ fuel c later hrun
    obtain ⟨more, deferred, next, hused, hact, hvalue⟩ := runTasks_cons_ok.mp hfirst
    obtain ⟨isRequired, ⟨id, fields, hfound, hflag⟩, rfl, rfl⟩ := compileProperty_ok hact
    have hwithin : input.Within heap.length := hentries (key, input) List.mem_cons_self
    rw [hkept.record? hwithin] at hfound
    generalize hc : (if isRequired then { c with heap := c.heap.pushItem required (.str key) } else c)
      = next at hvalue
    have hpushed : Unchanged [properties, required] c next := by
      rw [← hc]
      cases isRequired with
      | false => exact .refl _ _
      | true =>
        refine ⟨by simp, ?_, rfl, rfl⟩
        intro id _ hother
        exact getElem?_pushItem_of_ne (by simp_all)
    have hlength : next.heap.length = c.heap.length := by
      rw [← hc]
      cases isRequired <;> simp
    have hfresh : ∀ id ∈ [properties, required], heap.length ≤ id := by
      simp [hproperties.1, hrequired.1]
    have hbelow : ∀ id ∈ [properties, required], id < c.heap.length := by
      simp [hproperties.2, hrequired.2]
    obtain ⟨spec, hdenoted, hcompiled, hinstalled⟩ := ih more (by omega) _ _ _ _ _ _ hvalue
      (hpushed.kept hkept hfresh) hwithin
      (by simpa [NodeDestination.targets, hlength] using hproperties)
    rw [hlength] at hcompiled
    have hrecord' : next.heap[properties]? = some (.record declared) := by
      rw [← hc]
      cases isRequired with
      | false => exact hrecord
      | true => exact (getElem?_pushItem_of_ne (Ne.symm hne)).trans hrecord
    have harray' : next.heap[required]? =
        some (.array (names ++ if isRequired then [.str key] else [])) := by
      rw [← hc]
      cases isRequired with
      | false => simpa using harray
      | true => exact getElem?_pushItem_self harray
    have hcellP : mid.heap[properties]? =
        some (.record (declared.set key (.ref next.heap.length))) := by
      rw [hinstalled.cells properties (by rw [hlength]; exact hproperties.2)]
      exact getElem?_setField_self hrecord'
    have hcellR : mid.heap[required]? =
        some (.array (names ++ if isRequired then [.str key] else [])) := by
      rw [hinstalled.cells required (by rw [hlength]; exact hrequired.2)]
      exact (getElem?_setField_of_ne hne).trans harray'
    have hone : Unchanged [properties, required] next mid := by
      have hunchanged : Unchanged [properties] next mid := hinstalled.unchanged nofun
      refine ⟨hunchanged.length, ?_, hunchanged.rootNode, hunchanged.rootMap⟩
      intro id hid hother
      exact hunchanged.cells id hid (by simp_all)
    have hmid := hpushed.trans hone
    have hkey : key ∉ declared.keys := hnew key List.mem_cons_self
    have hset := @OrderedMap.entries_set_of_not_mem _ _ _ declared key (.ref next.heap.length) hkey
    rw [List.map_cons, List.nodup_cons] at hnodup
    have hkeys : ∀ other ∈ rest.map Prod.fst,
        other ∉ (declared.set key (.ref next.heap.length)).keys := by
      intro other hother hmem
      rw [keys, hset, List.map_append, List.mem_append] at hmem
      rcases hmem with hold | hadded
      · exact hnew other (List.mem_cons_of_mem _ hother) hold
      · have heq : other = key := by simpa using hadded
        exact hnodup.1 (heq ▸ hother)
    obtain ⟨specs, nodes, declared', hrest, hnodes, hP, hentries', hR, hafter⟩ :=
      @ihrest left (fun less hless => ih less (by omega)) (declared.set key (.ref next.heap.length))
        (names ++ if isRequired then [.str key] else []) mid hlast (hmid.kept hkept hfresh)
        (fun entry hentry => hentries entry (List.mem_cons_of_mem _ hentry))
        ⟨hproperties.1, Nat.lt_of_lt_of_le hproperties.2 hmid.length⟩
        ⟨hrequired.1, Nat.lt_of_lt_of_le hrequired.2 hmid.length⟩ hcellP hcellR hnodup.2 hkeys
    refine ⟨(key, isRequired, spec) :: specs, (key, .ref next.heap.length) :: nodes, declared',
      ⟨input, rest, rfl, hdenoted, ⟨id, fields, hfound, hflag⟩, hrest⟩, ⟨_, nodes, rfl, ?_, ?_⟩, hP,
      ?_, ?_, hmid.trans hafter⟩
    · rw [hlength]
      exact ValueSchemaSpec.CompiledAt.mono spec _ hcompiled (hafter.same hbelow) (Nat.le_refl _)
    · exact PropertiesCompiledAt.mono specs nodes hnodes (fun _ _ _ h => h) hmid.length
    · rw [hentries', hset, List.append_assoc]
      rfl
    · rw [hR]
      cases isRequired <;> simp [requiredOf]

def installedMap (destination : PropertyMapDestination) (specs : List (String × Bool × ValueSchemaSpec))
    (c : Compilation) : Compilation :=
  let assigned := assignCompiledPropertyMap destination (.ref c.heap.length) c
  if requiredOf specs = [] then assigned
  else assignRequired destination (.ref (c.heap.length + 1)) assigned

theorem compileMapTail_eq {required : Nat} {destination : PropertyMapDestination}
    {names : List String} (h : c.heap[required]? = some (.array (names.map .str))) :
    compileMapTail required destination c =
      if names = [] then c else assignRequired destination (.ref required) c := by
  cases names with
  | nil => simp [compileMapTail, h]
  | cons name rest => simp [compileMapTail, h]

theorem map_compiles {fuel : Nat} (ih : ∀ less, less < fuel → ValueCompiles heap less)
    (hclosed : ∀ object ∈ heap, object.Within heap.length) {input : Raw} {path : String}
    {destination : PropertyMapDestination} {c later : Compilation}
    (hrun : runTasks compileTask fuel [.propertyMap input path destination] c = some (.ok later))
    (hkept : Kept heap c) (hwithin : input.Within heap.length)
    (htargets : ∀ id ∈ destination.targets, heap.length ≤ id ∧ id < c.heap.length) :
    ∃ id fields specs declared, heap.record? input = some (id, fields) ∧
      SpecPropertiesDenoted heap specs fields.entries ∧
      later.heap[c.heap.length]? = some (.record declared) ∧
      PropertiesCompiledAt later.heap c.heap.length specs declared.entries ∧
      later.heap[c.heap.length + 1]? = some (.array ((requiredOf specs).map .str)) ∧
      Installed (installedMap destination specs c) c later := by
  obtain ⟨left, deferred, next, hfuel, hact, hrest⟩ := runTasks_cons_ok.mp hrun
  simp only [compileTask, compileMap, hkept.record? hwithin] at hact
  split at hact
  · cases hact
  rename_i id fields hrecord
  split at hact
  · cases hact
  generalize hassigned : assignCompiledPropertyMap destination (.ref c.heap.length) c = assigned
    at hact
  have hlength : assigned.heap.length = c.heap.length := by
    rw [← hassigned]
    exact length_assignCompiledPropertyMap
  cases hact
  have hwhole : runTasks compileTask left (fields.entries.map (fun entry => CompileTask.property entry.2
      s!"{path}.{entry.1}" entry.1 c.heap.length (c.heap.length + 1)) ++
        [.propertyMapTail (c.heap.length + 1) destination, .leave id])
      { assigned with heap := assigned.heap ++ [.record .empty, .array []], seen := id :: c.seen } =
        some (.ok later) := by simpa using hrest
  obtain ⟨used, more, mid, hsum, hproperties, htail⟩ := runTasks_append hwhole
  have hfields : ∀ entry ∈ fields.entries, entry.2.Within heap.length := by
    obtain ⟨rfl, hcell⟩ := Heap.record?_eq_some.mp hrecord
    exact hclosed (.record fields) (List.mem_of_getElem? hcell)
  have hassignedKept : ∀ id, id < heap.length → assigned.heap[id]? = heap[id]? := by
    intro id hid
    rw [← hkept.2 id hid, ← hassigned]
    cases destination with
    | root => rfl
    | object target =>
      have hfresh := htargets target List.mem_cons_self
      exact getElem?_setField_of_ne (by omega)
  obtain ⟨specs, nodes, declared, hdenoted, hcompiled, hP, hentries, hR, hunchanged⟩ :=
    @properties_compile heap used (fun less hless => ih less (by omega)) c.heap.length
      (c.heap.length + 1) (fun key => s!"{path}.{key}") fields.entries .empty [] _ mid hproperties
      ⟨by simp [hlength]; have := hkept.1; omega, fun id hid => by
        rw [List.getElem?_append_left (by have := hkept.1; omega)]
        exact hassignedKept id hid⟩
      hfields ⟨hkept.1, by simp [hlength]⟩ ⟨by have := hkept.1; omega, by simp [hlength]⟩ (by omega)
      (by rw [List.getElem?_append_right (by omega)]; simp [hlength])
      (by rw [List.getElem?_append_right (by omega)]; simp [hlength])
      fields.nodup (by simp [keys])
  simp only [entries_empty, List.nil_append] at hentries hR
  obtain ⟨last, _, after, hmore, hact, hleave⟩ := runTasks_cons_ok.mp htail
  simp only [compileTask, Except.ok.injEq, Prod.mk.injEq] at hact
  obtain ⟨rfl, hafter⟩ := hact
  obtain ⟨_, _, _, -, hact, hdone⟩ := runTasks_cons_ok.mp hleave
  simp only [compileTask, Except.ok.injEq, Prod.mk.injEq] at hact
  obtain ⟨rfl, rfl⟩ := hact
  simp only [List.append_nil, runTasks_nil, Option.some.injEq, Except.ok.injEq] at hdone
  rw [compileMapTail_eq hR] at hafter
  subst hdone
  have hstays : ∀ id, c.heap.length ≤ id → after.heap[id]? = mid.heap[id]? := by
    intro id hid
    rw [← hafter]
    split
    · rfl
    · cases destination with
      | root => rfl
      | object target =>
        have hbelow := htargets target List.mem_cons_self
        exact getElem?_setField_of_ne (by omega)
  have hcells : ∀ id, id < c.heap.length → mid.heap[id]? = assigned.heap[id]? := by
    intro id hid
    rw [hunchanged.cells id (by simp [hlength]; omega) (by simp; omega)]
    exact List.getElem?_append_left (by omega)
  have hfinal : installedMap destination specs c =
      if requiredOf specs = [] then assigned
      else assignRequired destination (.ref (c.heap.length + 1)) assigned := by
    rw [installedMap, hassigned]
  refine ⟨id, fields, specs, declared, hrecord, hdenoted, (hstays _ (Nat.le_refl _)).trans hP, ?_,
    (hstays _ (by omega)).trans hR, ?_, ?_, ?_, ?_⟩
  · rw [hentries]
    refine PropertiesCompiledAt.mono specs nodes hcompiled ?_ (by simp [hlength])
    intro id hid object hobject
    rw [← hobject]
    refine hstays id ?_
    simp only [List.length_append, hlength] at hid
    omega
  · have hgrown := hunchanged.length
    have hsame : after.heap.length = mid.heap.length := by
      rw [← hafter]
      split
      · rfl
      · cases destination <;> simp [assignRequired]
    simp only [List.length_append, hlength, List.length_cons, List.length_nil] at hgrown
    simp only [hsame]
    omega
  · intro id hid
    rw [hfinal, ← hafter]
    split
    · exact hcells id hid
    · cases destination with
      | root => exact hcells id hid
      | object target => exact getElem?_setField_congr (hcells id hid)
  · rw [hfinal, ← hafter]
    split
    · exact hunchanged.rootNode
    · cases destination <;> exact hunchanged.rootNode
  · rw [hfinal, ← hafter]
    split
    · exact hunchanged.rootMap
    · cases destination with
      | root => exact congrArg (Option.map fun found => (found.1, some _)) hunchanged.rootMap
      | object target => exact hunchanged.rootMap

section Form

variable {input : OrderedMap String Raw} {path : String} {authorKeys : List String} {node : Nat}

variable {key : String}

theorem get?_copyAnnotations {source target : OrderedMap String Raw}
    (h : key ∉ annotationKeys) : (copyAnnotations source target).get? key = target.get? key := by
  unfold copyAnnotations
  generalize annotationKeys = annotations at h
  induction annotations generalizing target with
  | nil => rfl
  | cons annotation rest ih =>
    rw [List.mem_cons, not_or] at h
    rw [List.foldl_cons, ih h.2]
    split
    · rw [get?_set, if_neg h.1]
    · rfl

inductive FormOf (heap : Heap) (input : OrderedMap String Raw) (path : String) (node : Nat)
    (form : NodeForm) : Prop where
  | oneOf (list : Raw) (branches : List Raw) (htype : input.get? "type" = none)
      (honeOf : input.get? "oneOf" = some list) (hlist : heap.plainArray? list = some branches)
      (hform : form.fields.get? "type" = none ∧ form.fields.get? "oneOf" = some (.ref (node + 1)))
      (harrays : form.arrays = [.array []])
      (htasks : form.tasks = branches.mapIdx fun index branch =>
        .value branch s!"{path}.oneOf[{index}]" false (.oneOf (node + 1) index))
  | json (htype : input.get? "type" = some (.str "json")) (honeOf : input.get? "oneOf" = none)
      (hform : form.fields.get? "type" = none ∧ form.fields.get? "oneOf" = none)
      (harrays : form.arrays = []) (htasks : form.tasks = [])
  | object (additional : Bool) (htype : input.get? "type" = some (.str object.name))
      (honeOf : input.get? "oneOf" = none)
      (hadditional : input.get? "additionalProperties" = some (.bool additional))
      (hform : form.fields.get? "type" = some (.str object.name) ∧
        form.fields.get? "oneOf" = none ∧
        form.fields.get? "additionalProperties" = some (.bool additional) ∧
        form.fields.get? "properties" = none ∧ form.fields.get? "required" = none)
      (harrays : form.arrays = [])
      (htasks : form.tasks = match input.get? "properties" with
        | some properties => [.propertyMap properties s!"{path}.properties" (.object node)]
        | none => [])
  | array (htype : input.get? "type" = some (.str array.name))
      (honeOf : input.get? "oneOf" = none)
      (hform : form.fields.get? "type" = some (.str array.name) ∧
        form.fields.get? "oneOf" = none ∧ form.fields.get? "items" = none)
      (harrays : form.arrays = [])
      (htasks : form.tasks = match input.get? "items" with
        | some items => [.value items s!"{path}.items" false (.item node)]
        | none => [])
  | scalar (type : JsonSchemaScalarType) (allowed : Option (List Raw))
      (htype : input.get? "type" = some (.str (scalar type).name))
      (honeOf : input.get? "oneOf" = none) (hallowed : SpecAllowed heap (input.get? "enum") allowed)
      (hform : form.fields.get? "type" = some (.str (scalar type).name) ∧
        form.fields.get? "oneOf" = none ∧
        form.fields.get? "enum" = allowed.map (fun _ => .ref (node + 1)) ∧
        form.fields.get? "const" = input.get? "const")
      (harrays : form.arrays = allowed.toList.map .array) (htasks : form.tasks = [])

theorem nodeType?_eq_some {raw : Raw} {type : JsonSchemaType} (h : nodeType? raw = some type) :
    raw = .str type.name := by
  cases raw with
  | str name => rw [schemaType?_eq_some h]
  | _ => cases h

theorem get?_of_ownOrUndefined {fields : OrderedMap String Raw} {value : Raw}
    (h : ownOrUndefined fields key = value) (hdefined : value ≠ .undefined) :
    fields.get? key = some value := by
  cases hget : fields.get? key with
  | none =>
    rw [ownOrUndefined, hget] at h
    exact absurd h.symm hdefined
  | some found =>
    rw [ownOrUndefined, hget] at h
    rw [← h]
    rfl

section Cases

variable {form : NodeForm}

theorem formOf_oneOfForm (honeOf : (input.get? "oneOf").isSome = true)
    (h : oneOfForm heap input path authorKeys node = .ok form) : FormOf heap input path node form := by
  unfold oneOfForm at h
  split at h
  · cases h
  split at h
  · cases h
  rename_i htype
  split at h
  · cases h
  rename_i branches hlist
  cases h
  obtain ⟨list, honeOf⟩ := Option.isSome_iff_exists.mp honeOf
  rw [ownOrUndefined, honeOf] at hlist
  refine .oneOf list branches (by simpa [hasOwn] using htype) honeOf hlist ⟨?_, ?_⟩ rfl rfl
  · rw [get?_copyAnnotations (by decide), get?_set]
    rfl
  · rw [get?_copyAnnotations (by decide), get?_set]
    rfl

variable (honeOf : input.get? "oneOf" = none)
include honeOf

theorem formOf_jsonForm (htype : input.get? "type" = some (.str "json"))
    (h : jsonForm input path authorKeys = .ok form) : FormOf heap input path node form := by
  unfold jsonForm at h
  split at h
  · cases h
  cases h
  refine .json htype honeOf ⟨?_, ?_⟩ rfl rfl
  · rw [get?_copyAnnotations (by decide)]
    rfl
  · rw [get?_copyAnnotations (by decide)]
    rfl

theorem formOf_objectForm (htype : input.get? "type" = some (.str object.name))
    (h : objectForm input path authorKeys node = .ok form) : FormOf heap input path node form := by
  have hbase : ∀ key, key ∉ annotationKeys → ∀ additional, key ≠ "additionalProperties" →
      ((copyAnnotations input (empty.set "type" (.str "object"))).set
        "additionalProperties" (.bool additional)).get? key =
          if key = "type" then some (.str "object") else none := by
    intro key hkey additional hother
    rw [get?_set, if_neg hother, get?_copyAnnotations hkey, get?_set]
    rfl
  unfold objectForm at h
  split at h
  · cases h
  split at h
  · rename_i additional hadditional
    cases h
    refine .object additional htype honeOf (get?_of_ownOrUndefined hadditional (by simp))
      ⟨?_, ?_, ?_, ?_, ?_⟩ rfl rfl
    · exact hbase _ (by decide) _ (by decide)
    · exact hbase _ (by decide) _ (by decide)
    · rw [get?_set, if_pos rfl]
    · exact hbase _ (by decide) _ (by decide)
    · exact hbase _ (by decide) _ (by decide)
  · cases h

theorem formOf_arrayForm (htype : input.get? "type" = some (.str array.name))
    (h : arrayForm input path authorKeys node = .ok form) : FormOf heap input path node form := by
  have hbase : ∀ key, key ∉ annotationKeys →
      (copyAnnotations input (empty.set "type" (.str "array"))).get? key =
        if key = "type" then some (.str "array") else none := by
    intro key hkey
    rw [get?_copyAnnotations hkey, get?_set]
    rfl
  unfold arrayForm at h
  split at h
  · cases h
  cases h
  refine .array htype honeOf ⟨?_, ?_, ?_⟩ rfl rfl
  · exact hbase _ (by decide)
  · exact hbase _ (by decide)
  · exact hbase _ (by decide)

omit honeOf in
theorem get?_withConst {fields : OrderedMap String Raw} {key : String} (hkey : key ≠ "const") :
    (withConst input fields).get? key = fields.get? key := by
  unfold withConst
  split
  · rw [get?_set, if_neg hkey]
  · rfl

omit honeOf in
theorem get?_const_withConst {fields : OrderedMap String Raw} (hnone : fields.get? "const" = none) :
    (withConst input fields).get? "const" = input.get? "const" := by
  unfold withConst
  split
  · rename_i const hget
    rw [get?_set, if_pos rfl, hget]
  · rename_i hget
    rw [hnone, hget]

theorem formOf_scalarForm {type : JsonSchemaScalarType}
    (htype : input.get? "type" = some (.str (scalar type).name))
    (h : scalarForm heap input path authorKeys node type = .ok form) :
    FormOf heap input path node form := by
  have hbase : ∀ key, key ∉ annotationKeys → (copyAnnotations input
      (empty.set "type" (.str (scalar type).name))).get? key =
        if key = "type" then some (.str (scalar type).name) else none := by
    intro key hkey
    rw [get?_copyAnnotations hkey, get?_set]
    rfl
  unfold scalarForm at h
  split at h
  · cases h
  dsimp only at h
  split at h
  · rename_i hget
    cases h
    refine .scalar type none htype honeOf (by rw [hget]; rfl) ⟨?_, ?_, ?_, ?_⟩ rfl rfl
    · rw [get?_withConst (by decide), hbase _ (by decide), if_pos rfl]
    · rw [get?_withConst (by decide), hbase _ (by decide), if_neg (by decide)]
    · rw [get?_withConst (by decide), hbase _ (by decide), if_neg (by decide)]
      rfl
    · exact get?_const_withConst (by rw [hbase _ (by decide), if_neg (by decide)])
  · rename_i list hget
    split at h
    · cases h
    rename_i entries hentries
    cases h
    refine .scalar type (some entries) htype honeOf (by rw [hget]; exact ⟨entries, hentries, rfl⟩)
      ⟨?_, ?_, ?_, ?_⟩ rfl rfl
    · rw [get?_withConst (by decide), get?_set, if_neg (by decide), hbase _ (by decide),
        if_pos rfl]
    · rw [get?_withConst (by decide), get?_set, if_neg (by decide), hbase _ (by decide),
        if_neg (by decide)]
    · rw [get?_withConst (by decide), get?_set, if_pos rfl]
      rfl
    · apply get?_const_withConst
      rw [get?_set, if_neg (by decide), hbase _ (by decide), if_neg (by decide)]

end Cases

theorem formOf_of_nodeForm {form : NodeForm} (h : nodeForm heap input path authorKeys node = .ok form) :
    FormOf heap input path node form := by
  unfold nodeForm at h
  split at h
  · rename_i hown
    exact formOf_oneOfForm hown h
  rename_i hown
  have honeOf : input.get? "oneOf" = none := by simpa [hasOwn] using hown
  have hdeclared : ∀ {type : JsonSchemaType}, nodeType? (ownOrUndefined input "type") = some type →
      input.get? "type" = some (.str type.name) := fun htype =>
    get?_of_ownOrUndefined (nodeType?_eq_some htype) (by simp)
  split at h
  · rename_i htype
    exact formOf_jsonForm honeOf (get?_of_ownOrUndefined htype (by simp)) h
  split at h
  · rename_i htype
    exact formOf_objectForm honeOf (hdeclared htype) h
  · rename_i htype
    exact formOf_arrayForm honeOf (hdeclared htype) h
  · rename_i type htype
    exact formOf_scalarForm honeOf (hdeclared htype) h
  · cases h

end Form

theorem Unchanged.installed {base later : Compilation}
    {cells : List HeapObject} (h : Unchanged except next later)
    (hnext : next.heap = base.heap ++ cells) (hcells : cells ≠ [])
    (hlength : base.heap.length = c.heap.length) (hfresh : ∀ id ∈ except, c.heap.length ≤ id)
    (hroot : next.rootNode = base.rootNode) (hmap : next.rootMap = base.rootMap) :
    Installed base c later := by
  have hgrown : base.heap.length < next.heap.length := by
    rw [hnext, List.length_append]
    have := List.length_pos_iff.mpr hcells
    omega
  refine ⟨by have := h.length; omega, ?_, h.rootNode.trans hroot, h.rootMap.trans hmap⟩
  intro id hid
  have hother : id ∉ except := by
    intro hmem
    have hle := hfresh id hmem
    omega
  rw [h.cells id (by omega) hother, hnext]
  exact List.getElem?_append_left (by omega)

theorem Installed.unchangedMap {target : Nat} {specs : List (String × Bool × ValueSchemaSpec)}
    {later : Compilation} (h : Installed (installedMap (.object target) specs c) c later) :
    Unchanged [target] c later where
  length := Nat.le_of_lt h.length
  cells id hid hother := by
    have hne : id ≠ target := by simpa using hother
    rw [h.cells id hid, installedMap]
    split
    · exact getElem?_setField_of_ne hne
    · exact (getElem?_setField_of_ne hne).trans (getElem?_setField_of_ne hne)
  rootNode := by
    rw [h.rootNode, installedMap]
    split <;> rfl
  rootMap := by
    rw [h.rootMap, installedMap]
    split <;> rfl

theorem cell_installedMap {target : Nat} {specs : List (String × Bool × ValueSchemaSpec)}
    {c : Compilation} {fields : OrderedMap String Raw}
    (hcell : c.heap[target]? = some (.record fields)) (hrequired : fields.get? "required" = none) :
    ∃ filled, (installedMap (.object target) specs c).heap[target]? = some (.record filled) ∧
      filled.get? "properties" = some (.ref c.heap.length) ∧
      filled.get? "required" =
        (if requiredOf specs = [] then none else some (.ref (c.heap.length + 1))) ∧
      ∀ key, key ≠ "properties" → key ≠ "required" → filled.get? key = fields.get? key := by
  have hset := @Heap.getElem?_setField_self c.heap target "properties" (.ref c.heap.length) fields hcell
  rw [installedMap]
  by_cases hnames : requiredOf specs = []
  · rw [if_pos hnames, if_pos hnames]
    refine ⟨_, hset, by rw [get?_set, if_pos rfl], ?_, ?_⟩
    · rw [get?_set, if_neg (by decide), hrequired]
    · intro key hproperties _
      rw [get?_set, if_neg hproperties]
  · rw [if_neg hnames, if_neg hnames]
    refine ⟨_, getElem?_setField_self hset, ?_, by rw [get?_set, if_pos rfl], ?_⟩
    · rw [get?_set, if_neg (by decide), get?_set, if_pos rfl]
    · intro key hproperties hrequired
      rw [get?_set, if_neg hrequired, get?_set, if_neg hproperties]

theorem runTasks_leave {tasks : List CompileTask} {fuel id : Nat} {later : Compilation}
    (h : runTasks compileTask fuel (tasks ++ [.leave id]) c = some (.ok later)) :
    ∃ used mid, used ≤ fuel ∧ runTasks compileTask used tasks c = some (.ok mid) ∧
      later = { mid with seen := later.seen } := by
  obtain ⟨used, left, mid, hsum, htasks, hleave⟩ := runTasks_append h
  obtain ⟨_, _, _, -, hact, hdone⟩ := runTasks_cons_ok.mp hleave
  simp only [compileTask, Except.ok.injEq, Prod.mk.injEq] at hact
  obtain ⟨rfl, rfl⟩ := hact
  simp only [List.append_nil, runTasks_nil, Option.some.injEq, Except.ok.injEq] at hdone
  subst hdone
  exact ⟨used, mid, by omega, htasks, rfl⟩

theorem value_compiles (hclosed : ∀ object ∈ heap, object.Within heap.length) (fuel : Nat) :
    ValueCompiles heap fuel := by
  induction fuel using Nat.strongRecOn with
  | _ fuel ih =>
    intro input path allowRequired destination c later hrun hkept hwithin htargets
    obtain ⟨left, deferred, next, hfuel, hact, hrest⟩ := runTasks_cons_ok.mp hrun
    simp only [compileTask, compileValue, hkept.record? hwithin] at hact
    split at hact
    · cases hact
    rename_i id fields hrecord
    split at hact
    · cases hact
    split at hact
    · cases hact
    rename_i form hnode
    generalize hbase : assignCompiledNode destination (.ref c.heap.length) c = base at hact ⊢
    have hlength : base.heap.length = c.heap.length := by
      rw [← hbase]
      exact length_assignCompiledNode
    simp only [Except.ok.injEq, Prod.mk.injEq] at hact
    obtain ⟨rfl, rfl⟩ := hact
    rw [List.append_nil] at hrest
    obtain ⟨used, mid, hused, htasks, hlast⟩ := runTasks_leave hrest
    have hsub : ∀ less, less ≤ used → ValueCompiles heap less := fun less hless => ih less (by omega)
    generalize hnext : ({ base with
      heap := base.heap ++ .record form.fields :: form.arrays, seen := id :: c.seen } : Compilation) =
        next at htasks
    have hheap : next.heap = base.heap ++ .record form.fields :: form.arrays := by rw [← hnext]
    have hroot : next.rootNode = base.rootNode := by rw [← hnext]
    have hmap : next.rootMap = base.rootMap := by rw [← hnext]
    have hcell : next.heap[c.heap.length]? = some (.record form.fields) := by
      rw [hheap, List.getElem?_append_right (by omega)]
      simp [hlength]
    have hlong : c.heap.length < next.heap.length := by
      rw [hheap]
      simp [hlength]
    have hkeptNext : Kept heap next := by
      refine ⟨by have := hkept.1; omega, ?_⟩
      intro other hother
      have hsize := hkept.1
      have htarget : other ∉ destination.targets := by
        intro hmem
        have := (htargets other hmem).1
        omega
      rw [hheap, List.getElem?_append_left (by omega), ← hkept.2 other hother, ← hbase]
      exact cell_assignCompiledNode htarget
    have hfields : ∀ key value, fields.get? key = some value → value.Within heap.length := by
      intro key value hget
      obtain ⟨rfl, hfound⟩ := Heap.record?_eq_some.mp hrecord
      exact hclosed (.record fields) (List.mem_of_getElem? hfound) (key, value)
        (get?_eq_some.mp hget)
    have hinstalled : ∀ except, (∀ id ∈ except, c.heap.length ≤ id) → Unchanged except next mid →
        Installed base c later := by
      intro except hfresh hunchanged
      have hmid : Installed base c mid :=
        hunchanged.installed hheap nofun hlength hfresh hroot hmap
      rw [hlast]
      exact ⟨hmid.length, hmid.cells, hmid.rootNode, hmid.rootMap⟩
    have hstop : form.tasks = [] → mid = next := by
      intro hnone
      rw [hnone, runTasks_nil] at htasks
      exact (Except.ok.inj (Option.some.inj htasks)).symm
    have hheapLater : later.heap = mid.heap := by rw [hlast]
    rw [hheapLater]
    cases formOf_of_nodeForm hnode with
    | json htype honeOf hform harrays hnone =>
      cases hstop hnone
      exact ⟨.json, ⟨id, fields, hrecord, htype, honeOf⟩,
        ⟨form.fields, ⟨_, rfl, Nat.le_refl _, hcell⟩, hform⟩,
        hinstalled [] nofun (.refl _ _)⟩
    | scalar type allowed htype honeOf hallowed hform harrays hnone =>
      cases hstop hnone
      have hallowed' : SpecAllowed heap (fields.get? "enum") allowed := by
        cases hget : fields.get? "enum" with
        | none => rwa [hget] at hallowed
        | some list =>
          rw [hget] at hallowed
          obtain ⟨entries, hentries, rfl⟩ := hallowed
          rw [hkept.plainArray? (hfields _ _ hget)] at hentries
          exact ⟨entries, hentries, rfl⟩
      refine ⟨.scalar type allowed (fields.get? "const"),
        ⟨id, fields, hrecord, htype, honeOf, hallowed', rfl⟩,
        ⟨form.fields, ⟨_, rfl, Nat.le_refl _, hcell⟩, hform.1, hform.2.1, ?_, hform.2.2.2⟩,
        hinstalled [] nofun (.refl _ _)⟩
      rw [hform.2.2.1]
      cases allowed with
      | none => rfl
      | some entries =>
        refine ⟨entries, ⟨_, rfl, Nat.le_succ _, ?_⟩, rfl⟩
        rw [hheap, List.getElem?_append_right (by omega), harrays]
        simp [hlength]
    | array htype honeOf hform harrays hdeferred =>
      cases hget : fields.get? "items" with
      | none =>
        rw [hget] at hdeferred
        cases hstop hdeferred
        exact ⟨.anyArray, ⟨id, fields, hrecord, htype, honeOf, hget⟩,
          ⟨form.fields, ⟨_, rfl, Nat.le_refl _, hcell⟩, hform⟩, hinstalled [] nofun (.refl _ _)⟩
      | some item =>
        rw [hget] at hdeferred
        simp only [hdeferred] at htasks
        obtain ⟨items, hdenoted, hcompiled, hitem⟩ := hsub used (Nat.le_refl _) _ _ _ _ _ _ htasks
          hkeptNext (hfields _ _ hget) (by simpa [NodeDestination.targets] using ⟨hkept.1, hlong⟩)
        have hunchanged : Unchanged [c.heap.length] next mid := hitem.unchanged nofun
        have hfilled : mid.heap[c.heap.length]? =
            some (.record (form.fields.set "items" (.ref next.heap.length))) := by
          rw [hitem.cells _ hlong]
          exact getElem?_setField_self hcell
        refine ⟨.array items, ⟨id, fields, hrecord, htype, honeOf, item, hget, hdenoted⟩,
          ⟨_, ⟨_, rfl, Nat.le_refl _, hfilled⟩, ?_, ?_, .ref next.heap.length, ?_, ?_⟩,
          hinstalled _ (by simp) hunchanged⟩
        · rw [get?_set, if_neg (by decide), hform.1]
        · rw [get?_set, if_neg (by decide), hform.2.1]
        · rw [get?_set, if_pos rfl]
        · exact ValueSchemaSpec.CompiledAt.mono items _ hcompiled (fun _ _ _ h => h)
            (Nat.le_of_lt hlong)
    | object additional htype honeOf hadditional hform harrays hdeferred =>
      obtain ⟨hftype, hfoneOf, hfadditional, hfproperties, hfrequired⟩ := hform
      cases hget : fields.get? "properties" with
      | none =>
        rw [hget] at hdeferred
        cases hstop hdeferred
        refine ⟨.object [] additional,
          ⟨id, fields, hrecord, htype, honeOf, hadditional, [], by rw [hget]; rfl, rfl⟩,
          ⟨form.fields, ⟨_, rfl, Nat.le_refl _, hcell⟩, hftype, hfoneOf, ?_, ?_, [], ?_, rfl⟩,
          hinstalled [] nofun (.refl _ _)⟩
        · rw [hfadditional]
          rfl
        · rw [hfrequired]
          rfl
        · rw [hfproperties]
          rfl
      | some properties =>
        rw [hget] at hdeferred
        simp only [hdeferred] at htasks
        obtain ⟨mapId, mapFields, specs, declared, hmapRecord, hdenoted, hP, hcompiled, hR, hinner⟩ :=
          @map_compiles heap used (fun less hless => hsub less (by omega)) hclosed _ _ _ next mid htasks
            hkeptNext (hfields _ _ hget)
            (by simpa [PropertyMapDestination.targets] using ⟨hkept.1, hlong⟩)
        have hunchanged : Unchanged [c.heap.length] next mid := hinner.unchangedMap
        obtain ⟨filled, hfilled, hfillP, hfillR, hfillOther⟩ :=
          @cell_installedMap c.heap.length specs next form.fields hcell hfrequired
        have hnodeCell : mid.heap[c.heap.length]? = some (.record filled) :=
          (hinner.cells _ hlong).trans hfilled
        refine ⟨.object specs additional,
          ⟨id, fields, hrecord, htype, honeOf, hadditional, mapFields.entries,
            by rw [hget]; exact ⟨mapId, mapFields, hmapRecord, rfl⟩, hdenoted⟩,
          ⟨filled, ⟨_, rfl, Nat.le_refl _, hnodeCell⟩, ?_, ?_, ?_, ?_, declared.entries, ?_, ?_⟩,
          hinstalled _ (by simp) hunchanged⟩
        · rw [hfillOther _ (by decide) (by decide), hftype]
        · rw [hfillOther _ (by decide) (by decide), hfoneOf]
        · rw [hfillOther _ (by decide) (by decide), hfadditional]
          rfl
        · rw [hfillR]
          split
          · assumption
          · exact ⟨_, rfl, by omega, hR⟩
        · rw [hfillP]
          exact ⟨declared, ⟨_, rfl, by omega, hP⟩, rfl⟩
        · exact PropertiesCompiledAt.mono specs _ hcompiled (fun _ _ _ h => h) (Nat.le_of_lt hlong)
    | oneOf list branches htype honeOf hlist hform harrays hdeferred =>
      rw [hdeferred] at htasks
      rw [hkept.plainArray? (hfields _ _ honeOf)] at hlist
      have hbranchesCell : next.heap[c.heap.length + 1]? = some (.array []) := by
        rw [hheap, List.getElem?_append_right (by omega), harrays]
        simp [hlength]
      have hinputs : ∀ input ∈ branches, input.Within heap.length := by
        obtain ⟨listId, rfl, hfound⟩ := Heap.plainArray?_eq_some.mp hlist
        exact hclosed (.array branches) (List.mem_of_getElem? hfound)
      have hlonger : c.heap.length + 1 < next.heap.length :=
        (List.getElem?_eq_some_iff.mp hbranchesCell).1
      obtain ⟨specs, nodes, hdenoted, hcompiled, hfilled, hunchanged⟩ :=
        @branches_compile heap used hsub (c.heap.length + 1) (fun index => s!"{path}.oneOf[{index}]")
          branches [] next mid (by simpa using htasks) hkeptNext hinputs
          ⟨by have := hkept.1; omega, hlonger⟩ hbranchesCell
      have hnodeCell : mid.heap[c.heap.length]? = some (.record form.fields) := by
        rw [hunchanged.cells _ hlong (by simp), hcell]
      refine ⟨.oneOf specs, ⟨id, fields, hrecord, htype, list, branches, honeOf, hlist, hdenoted⟩,
        ⟨form.fields, ⟨_, rfl, Nat.le_refl _, hnodeCell⟩, hform.1, _, nodes, hform.2,
          ⟨_, rfl, Nat.le_succ _, hfilled⟩, ?_⟩, hinstalled _ (by simp) hunchanged⟩
      exact BranchesCompiledAt.mono specs nodes hcompiled (fun _ _ _ h => h) (Nat.le_of_lt hlong)

end Run

section Unique

variable {heap : Heap}

/-- The `type` that an author schema declares: one of JSON Schema, or `json`. -/
def ValueSchemaSpec.label : ValueSchemaSpec → Option (Option JsonSchemaType)
  | .json => some none
  | .scalar type _ _ => some (some (.scalar type))
  | .object _ _ => some (some .object)
  | .anyArray => some (some .array)
  | .array _ => some (some .array)
  | .oneOf _ => none

def labelName : Option JsonSchemaType → String
  | none => "json"
  | some type => type.name

theorem json_ne_name (type : JsonSchemaType) : "json" ≠ type.name := by
  cases type with
  | object => decide
  | array => decide
  | scalar type => cases type <;> decide

theorem labelName_injective {a b : Option JsonSchemaType} (h : labelName a = labelName b) : a = b := by
  cases a with
  | none =>
    cases b with
    | none => rfl
    | some type => exact absurd h (json_ne_name type)
  | some type =>
    cases b with
    | none => exact absurd h.symm (json_ne_name type)
    | some other => rw [schemaTypeName_injective h]

theorem label_of_denoted {spec : ValueSchemaSpec} {input : Raw} {id : Nat}
    {fields : OrderedMap String Raw} (h : spec.DenotedBy heap input)
    (hrecord : heap.record? input = some (id, fields)) :
    fields.get? "type" = spec.label.map fun label => .str (labelName label) := by
  cases spec <;> obtain ⟨_, _, hfound, htype, -⟩ := h <;> cases hrecord.symm.trans hfound <;>
    exact htype

variable {a b : ValueSchemaSpec}

theorem label_unique {input : Raw} (ha : a.DenotedBy heap input)
    (hb : b.DenotedBy heap input) : a.label = b.label := by
  have hrecord : ∃ id fields, heap.record? input = some (id, fields) := by
    cases a <;> obtain ⟨id, fields, hfound, -⟩ := ha <;> exact ⟨id, fields, hfound⟩
  obtain ⟨id, fields, hrecord⟩ := hrecord
  have hsame := (label_of_denoted ha hrecord).symm.trans (label_of_denoted hb hrecord)
  exact Option.map_injective (fun _ _ h => labelName_injective (Raw.str.inj h)) hsame

theorem specAllowed_unique {list : Option Raw} {a b : Option (List Raw)}
    (ha : SpecAllowed heap list a) (hb : SpecAllowed heap list b) : a = b := by
  cases list with
  | none =>
    cases ha
    cases hb
    rfl
  | some list =>
    obtain ⟨entries, hentries, rfl⟩ := ha
    obtain ⟨others, hothers, rfl⟩ := hb
    cases hentries.symm.trans hothers
    rfl

theorem propertyEntries_unique {record : Option Raw} {a b : List (String × Raw)}
    (ha : PropertyEntries heap record a) (hb : PropertyEntries heap record b) : a = b := by
  cases record with
  | none =>
    cases ha
    cases hb
    rfl
  | some record =>
    obtain ⟨id, declared, hdeclared, rfl⟩ := ha
    obtain ⟨_, _, hothers, rfl⟩ := hb
    cases hdeclared.symm.trans hothers
    rfl

mutual

theorem denoted_unique : ∀ (a b : ValueSchemaSpec) (input : Raw), a.DenotedBy heap input →
    b.DenotedBy heap input → a = b
  | .json, b, input, ha, hb => by
    have hlabel := label_unique ha hb
    cases b with
    | json => rfl
    | _ => cases hlabel
  | .scalar type allowed const, b, input, ha, hb => by
    have hlabel := label_unique ha hb
    cases b with
    | scalar type' allowed' const' =>
      obtain ⟨_, _, hfound, -, -, hallowed, hconst⟩ := ha
      obtain ⟨_, _, hfound', -, -, hallowed', hconst'⟩ := hb
      cases hfound.symm.trans hfound'
      cases hlabel
      cases specAllowed_unique hallowed hallowed'
      cases hconst.symm.trans hconst'
      rfl
    | _ => cases hlabel
  | .object properties additional, b, input, ha, hb => by
    have hlabel := label_unique ha hb
    cases b with
    | object properties' additional' =>
      obtain ⟨_, _, hfound, -, -, hflag, entries, hentries, hproperties⟩ := ha
      obtain ⟨_, _, hfound', -, -, hflag', entries', hentries', hproperties'⟩ := hb
      cases hfound.symm.trans hfound'
      cases propertyEntries_unique hentries hentries'
      cases hflag.symm.trans hflag'
      rw [properties_unique properties properties' entries hproperties hproperties']
    | _ => cases hlabel
  | .anyArray, b, input, ha, hb => by
    have hlabel := label_unique ha hb
    cases b with
    | anyArray => rfl
    | array items =>
      obtain ⟨_, _, hfound, -, -, hnone⟩ := ha
      obtain ⟨_, _, hfound', -, -, item, hsome, -⟩ := hb
      cases hfound.symm.trans hfound'
      cases hnone.symm.trans hsome
    | _ => cases hlabel
  | .array items, b, input, ha, hb => by
    have hlabel := label_unique ha hb
    cases b with
    | anyArray =>
      obtain ⟨_, _, hfound, -, -, item, hsome, -⟩ := ha
      obtain ⟨_, _, hfound', -, -, hnone⟩ := hb
      cases hfound.symm.trans hfound'
      cases hnone.symm.trans hsome
    | array items' =>
      obtain ⟨_, _, hfound, -, -, item, hsome, hitems⟩ := ha
      obtain ⟨_, _, hfound', -, -, item', hsome', hitems'⟩ := hb
      cases hfound.symm.trans hfound'
      cases hsome.symm.trans hsome'
      rw [denoted_unique items items' item hitems hitems']
    | _ => cases hlabel
  | .oneOf branches, b, input, ha, hb => by
    have hlabel := label_unique ha hb
    cases b with
    | oneOf branches' =>
      obtain ⟨_, _, hfound, -, list, inputs, honeOf, hlist, hbranches⟩ := ha
      obtain ⟨_, _, hfound', -, list', inputs', honeOf', hlist', hbranches'⟩ := hb
      cases hfound.symm.trans hfound'
      cases honeOf.symm.trans honeOf'
      cases hlist.symm.trans hlist'
      rw [branches_unique branches branches' inputs hbranches hbranches']
    | _ => cases hlabel

theorem properties_unique : ∀ (a b : List (String × Bool × ValueSchemaSpec))
    (entries : List (String × Raw)), SpecPropertiesDenoted heap a entries →
      SpecPropertiesDenoted heap b entries → a = b
  | [], b, entries, ha, hb => by
    cases ha
    cases b with
    | nil => rfl
    | cons property rest =>
      obtain ⟨_, _, heq, -⟩ := hb
      cases heq
  | (key, required, spec) :: rest, b, entries, ⟨input, later, heq, hspec, hrequired, hlater⟩, hb => by
    cases heq
    cases b with
    | nil => cases hb
    | cons property rest' =>
      obtain ⟨_, _, heq, hspec', hrequired', hlater'⟩ := hb
      cases heq
      obtain ⟨_, _, hfound, hflag⟩ := hrequired
      obtain ⟨_, _, hfound', hflag'⟩ := hrequired'
      cases hfound.symm.trans hfound'
      have hsame : required = property.2.1 := by
        have hflags := hflag.symm.trans hflag'
        cases hleft : required with
        | false =>
          cases hright : property.2.1 with
          | false => rfl
          | true => simp [hleft, hright] at hflags
        | true =>
          cases hright : property.2.1 with
          | false => simp [hleft, hright] at hflags
          | true => rfl
      rw [denoted_unique spec property.2.2 input hspec hspec', hsame,
        properties_unique rest rest' later hlater hlater']

theorem branches_unique : ∀ (a b : List ValueSchemaSpec) (inputs : List Raw),
    SpecBranchesDenoted heap a inputs → SpecBranchesDenoted heap b inputs → a = b
  | [], b, inputs, ha, hb => by
    cases ha
    cases b with
    | nil => rfl
    | cons branch rest =>
      obtain ⟨_, _, heq, -⟩ := hb
      cases heq
  | branch :: rest, b, inputs, ⟨input, later, heq, hbranch, hlater⟩, hb => by
    cases heq
    cases b with
    | nil => cases hb
    | cons branch' rest' =>
      obtain ⟨_, _, heq, hbranch', hlater'⟩ := hb
      cases heq
      rw [denoted_unique branch branch' input hbranch hbranch',
        branches_unique rest rest' later hlater hlater']

end

theorem says_unique {form : AuthorForm} {input : Raw}
    (ha : form.Says heap input a) (hb : form.Says heap input b) : a = b := by
  cases form with
  | value => exact denoted_unique a b input ha hb
  | parameters =>
    obtain ⟨_, _, properties, hfound, hproperties, rfl⟩ := ha
    obtain ⟨_, _, properties', hfound', hproperties', rfl⟩ := hb
    cases hfound.symm.trans hfound'
    rw [properties_unique properties properties' _ hproperties hproperties']

end Unique

section Compiled

variable {graph : Graph} {fuel : Nat} {later : Heap} {schema : Raw}

theorem assertCompiled_ok {heap : Heap} {root : Raw}
    (h : assertCompiled fuel heap root = some (.ok (later, schema))) :
    later = heap ∧ schema = root ∧ Supported heap root := by
  simp only [assertCompiled] at h
  split at h
  · cases h
  · rename_i hclean
    cases h
    exact ⟨rfl, rfl, fuel, hclean⟩
  · cases h

theorem compiled_value
    (h : valueSchemaSpecToJsonSchema fuel graph.heap graph.root = some (.ok (later, schema))) :
    Supported later schema ∧ ∃ spec : ValueSchemaSpec, spec.DenotedBy graph.heap graph.root ∧
      spec.CompiledAt later graph.heap.length schema := by
  simp only [valueSchemaSpecToJsonSchema] at h
  split at h
  · cases h
  · cases h
  rename_i c hrun
  obtain ⟨spec, hdenoted, hcompiled, hinstalled⟩ := value_compiles graph.closed fuel _ _ _ _ _ _ hrun
    ⟨Nat.le_refl _, fun _ _ => rfl⟩ graph.within nofun
  rw [hinstalled.rootNode] at h
  obtain ⟨rfl, rfl, hsupported⟩ := assertCompiled_ok h
  exact ⟨hsupported, spec, hdenoted, hcompiled⟩

variable {required : Option Raw} {properties : Raw}

theorem get?_parameterRoot {key : String}
    (hkey : key ≠ "required") : (parameterRoot properties required).get? key =
      if key = "properties" then some properties
      else if key = "type" then some (.str "object") else none := by
  have hbase : ((empty.set "type" (.str "object")).set "properties" properties).get? key =
      if key = "properties" then some properties
      else if key = "type" then some (.str "object") else none := by
    rw [get?_set, get?_set]
    rfl
  cases required with
  | none => exact hbase
  | some required =>
    rw [parameterRoot, get?_set, if_neg hkey]
    exact hbase

theorem get?_required_parameterRoot :
    (parameterRoot properties required).get? "required" = required := by
  cases required with
  | none =>
    simp only [parameterRoot]
    rw [get?_set, if_neg (by decide), get?_set, if_neg (by decide)]
    rfl
  | some required => rw [parameterRoot, get?_set, if_pos rfl]

theorem compiled_parameters
    (h : parameterSchemaSpecToJsonSchema fuel graph.heap graph.root = some (.ok (later, schema))) :
    Supported later schema ∧ ∃ spec : ValueSchemaSpec,
      AuthorForm.parameters.Says graph.heap graph.root spec ∧
        spec.CompiledAt later graph.heap.length schema := by
  simp only [parameterSchemaSpecToJsonSchema] at h
  split at h
  · cases h
  · cases h
  rename_i c hrun
  obtain ⟨id, fields, specs, declared, hrecord, hdenoted, hP, hcompiled, hR, hinstalled⟩ :=
    @map_compiles graph.heap fuel (fun less _ => value_compiles graph.closed less) graph.closed _ _ _ _
      c hrun ⟨Nat.le_refl _, fun _ _ => rfl⟩ graph.within nofun
  have hmap : c.rootMap = some (.ref graph.heap.length,
      if requiredOf specs = [] then none else some (.ref (graph.heap.length + 1))) := by
    rw [hinstalled.rootMap, installedMap]
    split <;> rfl
  rw [hmap] at h
  obtain ⟨rfl, rfl, hsupported⟩ := assertCompiled_ok h
  have hsame : ∀ root : HeapObject, Same c.heap (c.heap ++ [root]) graph.heap.length := by
    intro root id _ object hobject
    rw [List.getElem?_append_left (List.getElem?_eq_some_iff.mp hobject).1, hobject]
  refine ⟨hsupported, .object specs true, ⟨id, fields, specs, hrecord, hdenoted, rfl⟩, _,
    ⟨_, rfl, Nat.le_of_lt hinstalled.length, List.getElem?_concat_length⟩, ?_, ?_, ?_, ?_, declared.entries, ?_,
    PropertiesCompiledAt.mono specs _ hcompiled (hsame _) (Nat.le_refl _)⟩
  · exact get?_parameterRoot (by decide)
  · exact get?_parameterRoot (by decide)
  · rw [get?_parameterRoot (by decide)]
    rfl
  · rw [get?_required_parameterRoot]
    split
    · assumption
    · exact ArrayAt.mono ⟨_, rfl, Nat.le_succ _, hR⟩ (hsame _) (Nat.le_refl _)
  · rw [get?_parameterRoot (by decide)]
    exact ⟨declared, RecordAt.mono ⟨_, rfl, Nat.le_refl _, hP⟩ (hsame _) (Nat.le_refl _), rfl⟩

variable {stringify : Heap → Raw → String}

/-- An author schema that compiles has a meaning, and validation of a JSON value against the
compiled form ends and reports nothing exactly when the value is in the meaning. -/
theorem compiled_schema_iff {form : AuthorForm}
    (h : form.compile fuel graph.heap graph.root = some (.ok (later, schema))) :
    Supported later schema ∧ (∃ spec, form.Says graph.heap graph.root spec) ∧
      ∀ spec, form.Says graph.heap graph.root spec →
        ∀ value : Json, value.isLossless = true → ∀ path, ∃ violations turns,
          (∀ fuel, turns ≤ fuel →
            validateJsonSchemaValue stringify later fuel schema value path =
              some (.returned violations)) ∧
          (violations = [] ↔ spec.Accepts value) := by
  have hcompiled : Supported later schema ∧ ∃ spec, form.Says graph.heap graph.root spec ∧
      spec.CompiledAt later graph.heap.length schema := by
    cases form with
    | value => exact compiled_value h
    | parameters => exact compiled_parameters h
  obtain ⟨hsupported, spec, hsays, hcompiled⟩ := hcompiled
  refine ⟨hsupported, ⟨spec, hsays⟩, ?_⟩
  intro other hother value hvalue path
  cases says_unique hsays hother
  obtain ⟨meaning, hmeaning⟩ := hsupported.denoted
  obtain ⟨violations, turns, hreturned, haccepts⟩ := validate_of_denoted hmeaning hvalue path
  exact ⟨violations, turns, hreturned,
    haccepts.trans (accepts_iff spec meaning schema value hcompiled hmeaning)⟩

end Compiled

/-- Parameters `__proto__` and `tags`, whose schemas share the one of a string. -/
def sharedSpecs : Graph where
  heap :=
    [.record ⟨[("__proto__", .ref 1), ("tags", .ref 2)], by decide⟩,
      .record ⟨[("oneOf", .ref 3), ("required", .bool true)], by decide⟩,
      .record ⟨[("type", .str "array"), ("items", .ref 4)], by decide⟩,
      .array [.ref 4, .ref 5],
      .record ⟨[("type", .str "string"), ("enum", .ref 6)], by decide⟩,
      .record ⟨[("type", .str "object"), ("additionalProperties", .bool false)], by decide⟩,
      .array [.str "a", .str "b"]]
  root := .ref 0
  closed := by decide
  within := by decide

def compiles : Option (Except (List String) (Heap × Raw)) → Bool
  | some (.ok _) => true
  | _ => false

theorem exists_of_compiles {result : Option (Except (List String) (Heap × Raw))}
    (h : compiles result = true) : ∃ later schema, result = some (.ok (later, schema)) := by
  match result with
  | some (.ok compiled) => exact ⟨compiled.1, compiled.2, rfl⟩
  | some (.error _) => cases h
  | none => cases h

theorem compiled_schema_iff_sharedSpecs : ∃ later schema,
    AuthorForm.parameters.compile 60 sharedSpecs.heap sharedSpecs.root =
      some (.ok (later, schema)) ∧
    Supported later schema ∧
    (∃ spec, AuthorForm.parameters.Says sharedSpecs.heap sharedSpecs.root spec ∧
      ∃ violations turns, (∀ fuel, turns ≤ fuel →
        validateJsonSchemaValue (fun _ _ => "[\"a\",\"b\"]") later fuel schema
          (.obj [("__proto__", .str "a")]) "arguments" = some (.returned violations)) ∧
        (violations = [] ↔ spec.Accepts (.obj [("__proto__", .str "a")]))) := by
  obtain ⟨later, schema, hcompile⟩ := exists_of_compiles
    (show compiles (AuthorForm.parameters.compile 60 sharedSpecs.heap sharedSpecs.root) = true by
      decide)
  obtain ⟨hsupported, ⟨spec, hsays⟩, hvalid⟩ :=
    @compiled_schema_iff sharedSpecs 60 later schema (fun _ _ => "[\"a\",\"b\"]") .parameters hcompile
  exact ⟨later, schema, hcompile, hsupported, spec, hsays, hvalid spec hsays _ (by decide) _⟩

end DshKernel.Tools
