import DshKernel.Values.WalkRuns

/-!
# Snapshots

The walk ends on every graph. It rejects a graph exactly when a cycle or a value that is not
lossless JSON can be reached, and otherwise its copy is a tree that reads as the graph unfolds.
-/

namespace DshKernel.Values

open Js Lib Relation List Option ObjectNode

section Unfolding

variable {heap : ObjectHeap}

variable {items : List Raw} {fields : List (String × Raw)} {json : Json} {ancestors : List Nat}
variable {budget id : Nat} {above below value : Raw} {node : ObjectNode}

theorem itemsUnfold_iff {jsons : List Json} :
    ItemsUnfold heap items jsons ↔ List.Forall₂ (Unfolds heap) items jsons := by
  induction items generalizing jsons with
  | nil =>
    cases jsons with
    | nil => simp [ItemsUnfold]
    | cons json jsons => simp [ItemsUnfold]
  | cons item items ih =>
    cases jsons with
    | nil => simp [ItemsUnfold]
    | cons json jsons => rw [ItemsUnfold, ih, forall₂_cons]

theorem fieldsUnfold_iff {jsons : List (String × Json)} :
    FieldsUnfold heap fields jsons ↔
      List.Forall₂ (fun field json => field.1 = json.1 ∧ Unfolds heap field.2 json.2) fields
        jsons := by
  induction fields generalizing jsons with
  | nil =>
    cases jsons with
    | nil => simp [FieldsUnfold]
    | cons json jsons => simp [FieldsUnfold]
  | cons field fields ih =>
    cases jsons with
    | nil => simp [FieldsUnfold]
    | cons json jsons => rw [FieldsUnfold, ih, forall₂_cons, and_assoc]

theorem unfolds_of_scalar
    (hscalar : ∀ id, value ≠ .ref id) (h : unfoldBelow heap budget ancestors value = some json) :
    Unfolds heap value json := by
  cases value with
  | num n =>
    rw [unfoldBelow] at h
    split at h
    · rename_i hlossless
      cases h
      exact ⟨rfl, hlossless⟩
    · cases h
  | ref id => exact (hscalar id rfl).elim
  | undefined =>
    rw [unfoldBelow] at h
    cases h
  | other =>
    rw [unfoldBelow] at h
    cases h
  | _ =>
    rw [unfoldBelow] at h
    cases h
    rfl

theorem unfolds_of_unfoldBelow
    (h : unfoldBelow heap budget ancestors value = some json) : Unfolds heap value json := by
  induction budget generalizing ancestors value json with
  | zero =>
    by_cases hscalar : ∀ id, value ≠ .ref id
    · exact unfolds_of_scalar hscalar h
    · simp only [ne_eq, not_forall, not_not] at hscalar
      obtain ⟨id, rfl⟩ := hscalar
      cases h
  | succ budget ih =>
    by_cases hscalar : ∀ id, value ≠ .ref id
    · exact unfolds_of_scalar hscalar h
    · simp only [ne_eq, not_forall, not_not] at hscalar
      obtain ⟨id, rfl⟩ := hscalar
      rw [unfoldBelow] at h
      split at h
      · cases h
      cases hnode : heap[id]? with
      | none =>
        rw [hnode] at h
        cases h
      | some node =>
        rw [hnode] at h
        dsimp only at h
        by_cases harray : node.isArray = true
        · rw [if_pos harray] at h
          obtain ⟨items, hitems, hmap⟩ := bind_eq_some_iff.mp h
          obtain ⟨jsons, hjsons, rfl⟩ := map_eq_some_iff.mp hmap
          refine ⟨id, node, items, rfl, hnode, (items?_eq_some harray).mp hitems, ?_⟩
          exact itemsUnfold_iff.mpr ((mapM_eq_some_iff.mp hjsons).imp fun _ _ => ih)
        · rw [if_neg harray] at h
          obtain ⟨fields, hfields, hmap⟩ := bind_eq_some_iff.mp h
          obtain ⟨jsons, hjsons, rfl⟩ := map_eq_some_iff.mp hmap
          refine ⟨id, node, fields, rfl, hnode,
            (fields?_eq_some (Bool.eq_false_iff.mpr harray)).mp hfields, ?_⟩
          refine fieldsUnfold_iff.mpr ((mapM_eq_some_iff.mp hjsons).imp ?_)
          intro field json hfield
          obtain ⟨below, hbelow, rfl⟩ := map_eq_some_iff.mp hfield
          exact ⟨rfl, ih hbelow⟩

/-! ## What is rejected -/

theorem Rejectable.of_child (hchild : Child heap above below)
    (h : Rejectable heap below) : Rejectable heap above := by
  obtain ⟨reached, hreaches, hbad⟩ := h
  exact ⟨reached, ReflTransGen.head hchild hreaches, hbad⟩

theorem ObjectNode.IsArrayOf.child
    (hnode : heap[id]? = some node) (h : node.IsArrayOf items) {item : Raw} (hmem : item ∈ items) :
    Child heap (.ref id) item := by
  obtain ⟨index, hindex, rfl⟩ := mem_iff_getElem.mp hmem
  obtain ⟨property, hproperty, -, hvalue⟩ := own?_eq_some.mp (h.items index hindex)
  exact ⟨id, node, property, rfl, hnode, hproperty, hvalue⟩

theorem ObjectNode.IsRecordOf.child
    (hnode : heap[id]? = some node) (h : node.IsRecordOf fields) {field : String × Raw}
    (hmem : field ∈ fields) : Child heap (.ref id) field.2 := by
  refine ⟨id, node, fieldProperty field, rfl, hnode, ?_, rfl⟩
  rw [h.properties]
  exact mem_map_of_mem hmem

theorem notLossless_of_scalar
    (hscalar : ∀ id, value ≠ .ref id) (h : unfoldBelow heap budget ancestors value = none) :
    NotLossless heap value := by
  cases value with
  | num n =>
    rw [unfoldBelow] at h
    split at h
    · cases h
    · rename_i hlossless
      exact Bool.eq_false_iff.mpr hlossless
  | ref id => exact (hscalar id rfl).elim
  | undefined => trivial
  | other => trivial
  | _ =>
    rw [unfoldBelow] at h
    cases h

theorem rejectable_of_cycle (h : TransGen (Child heap) value value) :
    Rejectable heap value := ⟨value, ReflTransGen.refl, Or.inr h⟩

theorem rejectable_of_unfoldBelow
    (hclosed : ∀ node ∈ heap, ∀ property ∈ node.properties, property.value.Within heap.length)
    (hnodup : ancestors.Nodup)
    (hwithin : ∀ id ∈ ancestors, id < heap.length) (hbudget : heap.length ≤ budget + ancestors.length)
    (hpath : ∀ id ∈ ancestors, TransGen (Child heap) (.ref id) value)
    (hvalue : value.Within heap.length) (h : unfoldBelow heap budget ancestors value = none) :
    Rejectable heap value := by
  induction budget generalizing ancestors value with
  | zero =>
    by_cases hscalar : ∀ id, value ≠ .ref id
    · exact ⟨value, ReflTransGen.refl, Or.inl (notLossless_of_scalar hscalar h)⟩
    · simp only [ne_eq, not_forall, not_not] at hscalar
      obtain ⟨id, rfl⟩ := hscalar
      exact rejectable_of_cycle
        (hpath id (mem_of_all_visited hnodup hwithin (by omega) hvalue))
  | succ budget ih =>
    by_cases hscalar : ∀ id, value ≠ .ref id
    · exact ⟨value, ReflTransGen.refl, Or.inl (notLossless_of_scalar hscalar h)⟩
    · simp only [ne_eq, not_forall, not_not] at hscalar
      obtain ⟨id, rfl⟩ := hscalar
      by_cases hmet : id ∈ ancestors
      · exact rejectable_of_cycle (hpath id hmet)
      have hnode : heap[id]? = some (heap.get ⟨id, hvalue⟩) := getElem?_eq_getElem hvalue
      generalize heap.get ⟨id, hvalue⟩ = node at hnode
      -- the recursion below finds what is to be rejected, on a path longer by this object
      have hbelow : ∀ below, Child heap (.ref id) below →
          unfoldBelow heap budget (id :: ancestors) below = none → Rejectable heap (.ref id) := by
        intro below hchild hnone
        apply Rejectable.of_child hchild
        apply ih (nodup_cons.mpr ⟨hmet, hnodup⟩) (forall_mem_cons.mpr ⟨hvalue, hwithin⟩)
          (by rw [length_cons]; omega) _ _ hnone
        · intro other hother
          rcases mem_cons.mp hother with rfl | hother
          · exact TransGen.single hchild
          · exact (hpath other hother).tail hchild
        · obtain ⟨_, found, property, heq, hfound, hproperty, rfl⟩ := hchild
          cases heq
          exact hclosed found (mem_of_getElem? hfound) property hproperty
      rw [unfoldBelow, if_neg hmet, hnode] at h
      dsimp only at h
      by_cases harray : node.isArray = true
      · rw [if_pos harray] at h
        cases hitems : node.items? with
        | none =>
          refine ⟨.ref id, ReflTransGen.refl, Or.inl ?_⟩
          intro found hfound
          rw [hnode] at hfound
          cases hfound
          constructor
          · intro items hitemsOf
            rw [(items?_eq_some harray).mpr hitemsOf] at hitems
            cases hitems
          · intro fields hfieldsOf
            rw [hfieldsOf.isArray] at harray
            cases harray
        | some items =>
          rw [hitems, bind_some, map_eq_none_iff] at h
          obtain ⟨item, hmem, hnone⟩ := mapM_eq_none_iff.mp h
          have harrayOf := (items?_eq_some harray).mp hitems
          exact hbelow item (harrayOf.child hnode hmem) hnone
      · have hrecord := Bool.eq_false_iff.mpr harray
        rw [if_neg harray] at h
        cases hfields : node.fields? with
        | none =>
          refine ⟨.ref id, ReflTransGen.refl, Or.inl ?_⟩
          intro found hfound
          rw [hnode] at hfound
          cases hfound
          constructor
          · intro items hitemsOf
            exact harray hitemsOf.isArray
          · intro fields hfieldsOf
            rw [(fields?_eq_some hrecord).mpr hfieldsOf] at hfields
            cases hfields
        | some fields =>
          rw [hfields, bind_some, map_eq_none_iff] at h
          obtain ⟨field, hmem, hnone⟩ := mapM_eq_none_iff.mp h
          rw [map_eq_none_iff] at hnone
          have hrecordOf := (fields?_eq_some hrecord).mp hfields
          exact hbelow field.2 (hrecordOf.child hnode hmem) hnone

/-! ## What unfolds -/

theorem exists_unfolds_of_child (h : Unfolds heap above json) (hchild : Child heap above below) :
    ∃ inner, Unfolds heap below inner ∧ sizeOf inner < sizeOf json := by
  obtain ⟨id, node, property, rfl, hnode, hproperty, rfl⟩ := hchild
  cases json with
  | null => cases h
  | bool b => cases h
  | num n => cases h.1
  | str s => cases h
  | arr jsons =>
    obtain ⟨other, found, items, hid, hfound, harray, hitems⟩ := h
    cases hid
    rw [hnode] at hfound
    cases hfound
    have hkey : property.key ∈ node.keys := mem_map_of_mem hproperty
    obtain ⟨index, hindex, hname⟩ := (harray.keys _).mp hkey
    rw [← harray.length] at hindex
    have hvalue : items[index] = property.value := by
      have hown := own?_eq_some.mpr ⟨property, hproperty, hname, rfl⟩
      rw [harray.items index hindex] at hown
      exact Option.some.inj hown
    obtain ⟨hlength, hget⟩ := forall₂_iff_get.mp (itemsUnfold_iff.mp hitems)
    have hunfolds := hget index hindex (hlength ▸ hindex)
    rw [get_eq_getElem, hvalue] at hunfolds
    refine ⟨_, hunfolds, ?_⟩
    have hsize := sizeOf_lt_of_mem (get_mem jsons ⟨index, hlength ▸ hindex⟩)
    rw [Json.arr.sizeOf_spec]
    omega
  | obj jsons =>
    obtain ⟨other, found, fields, hid, hfound, hrecord, hfields⟩ := h
    cases hid
    rw [hnode] at hfound
    cases hfound
    rw [hrecord.properties] at hproperty
    obtain ⟨field, hfield, rfl⟩ := mem_map.mp hproperty
    obtain ⟨index, hindex, rfl⟩ := mem_iff_getElem.mp hfield
    obtain ⟨hlength, hget⟩ := forall₂_iff_get.mp (fieldsUnfold_iff.mp hfields)
    refine ⟨_, (hget index hindex (hlength ▸ hindex)).2, ?_⟩
    have hsize := sizeOf_lt_of_mem (get_mem jsons ⟨index, hlength ▸ hindex⟩)
    have hfieldSize : sizeOf (jsons.get ⟨index, hlength ▸ hindex⟩).2 <
        sizeOf (jsons.get ⟨index, hlength ▸ hindex⟩) := by
      generalize jsons.get ⟨index, hlength ▸ hindex⟩ = json
      obtain ⟨key, inner⟩ := json
      show sizeOf inner < sizeOf (key, inner)
      rw [Prod.mk.sizeOf_spec]
      omega
    rw [Json.obj.sizeOf_spec]
    omega

theorem not_notLossless_of_unfolds (h : Unfolds heap value json) : ¬ NotLossless heap value := by
  intro hbad
  cases json with
  | null =>
    rw [show value = .null from h] at hbad
    exact hbad
  | bool b =>
    rw [show value = .bool b from h] at hbad
    exact hbad
  | str s =>
    rw [show value = .str s from h] at hbad
    exact hbad
  | num n =>
    rw [h.1, NotLossless, h.2] at hbad
    cases hbad
  | arr jsons =>
    obtain ⟨id, node, items, rfl, hnode, harray, -⟩ := h
    exact (hbad node hnode).1 items harray
  | obj jsons =>
    obtain ⟨id, node, fields, rfl, hnode, hrecord, -⟩ := h
    exact (hbad node hnode).2 fields hrecord

theorem exists_unfolds_of_transGen (h : Unfolds heap above json)
    (hpath : TransGen (Child heap) above below) :
    ∃ inner, Unfolds heap below inner ∧ sizeOf inner < sizeOf json := by
  induction hpath with
  | single hchild => exact exists_unfolds_of_child h hchild
  | tail _ hchild ih =>
    obtain ⟨mid, hmid, hmidSize⟩ := ih
    obtain ⟨inner, hinner, hsize⟩ := exists_unfolds_of_child hmid hchild
    exact ⟨inner, hinner, by omega⟩

theorem not_transGen_of_unfolds (h : Unfolds heap value json) :
    ¬ TransGen (Child heap) value value := by
  intro hcycle
  have hall : ∀ size json, Unfolds heap value json → sizeOf json ≤ size → False := by
    intro size
    induction size with
    | zero =>
      intro json hunfolds hle
      obtain ⟨inner, -, hsize⟩ := exists_unfolds_of_transGen hunfolds hcycle
      omega
    | succ size ih =>
      intro json hunfolds hle
      obtain ⟨inner, hinner, hsize⟩ := exists_unfolds_of_transGen hunfolds hcycle
      exact ih inner hinner (by omega)
  exact hall _ json h (Nat.le_refl _)

theorem not_rejectable_of_unfolds (h : Unfolds heap value json) : ¬ Rejectable heap value := by
  rintro ⟨reached, hreaches, hbad⟩
  have hreached : ∃ inner, Unfolds heap reached inner := by
    rcases reflTransGen_iff_eq_or_transGen.mp hreaches with rfl | hpath
    · exact ⟨json, h⟩
    · obtain ⟨inner, hinner, -⟩ := exists_unfolds_of_transGen h hpath
      exact ⟨inner, hinner⟩
  obtain ⟨inner, hinner⟩ := hreached
  rcases hbad with hbad | hcycle
  · exact not_notLossless_of_unfolds hinner hbad
  · exact not_transGen_of_unfolds hinner hcycle

end Unfolding

/-! ## The two uses of the walk -/

theorem walkJsonValue_ends (graph : ObjectGraph) (detach : Bool) :
    TaskEnds graph.heap detach {} (.visit graph.root (if detach then some .root else none))
      (if detach then some .root else none)
      (unfoldBelow graph.heap graph.heap.length [] graph.root) := by
  apply follows graph.heap.length [] nodup_nil (fun _ h => nomatch h) (Nat.le_refl _) _ _ _ rfl
  cases detach with
  | false => exact ⟨rfl, fun _ h => nomatch h⟩
  | true =>
    refine ⟨rfl, ?_⟩
    rintro place hplace
    cases hplace
    trivial

/-- The walk ends on every graph. A graph is rejected exactly when a cycle or a value that is not
lossless JSON can be reached; the snapshot of any other is a tree of its JSON. -/
theorem snapshot_exact (graph : ObjectGraph) :
    ∃ enough, ∀ fuel ≥ enough, ∃ result,
      snapshotJsonValue graph.heap fuel graph.root = some result ∧
      isJsonValue graph.heap fuel graph.root = some result.isSome ∧
      (result = none ↔ Rejectable graph.heap graph.root) ∧
      ∀ value targets, result = some (value, targets) →
        ∃ json, Unfolds graph.heap graph.root json ∧
          Tree targets 0 targets.length value json := by
  have hdetached := walkJsonValue_ends graph true
  have htested := walkJsonValue_ends graph false
  cases hunfold : unfoldBelow graph.heap graph.heap.length [] graph.root with
  | none =>
    rw [hunfold] at hdetached htested
    obtain ⟨detached, hdetached⟩ := hdetached
    obtain ⟨tested, htested⟩ := htested
    refine ⟨max detached tested, ?_⟩
    intro fuel hfuel
    have hsnapshot := runTasks_mono hdetached (Nat.le_trans (Nat.le_max_left _ _) hfuel)
    have htest := runTasks_mono htested (Nat.le_trans (Nat.le_max_right _ _) hfuel)
    refine ⟨none, ?_, ?_, ⟨fun _ => ?_, fun _ => rfl⟩, fun _ _ h => nomatch h⟩
    · exact congrArg (Option.map _) hsnapshot
    · exact congrArg (Option.map _) htest
    · exact rejectable_of_unfoldBelow graph.closed nodup_nil (fun _ h => nomatch h)
        (Nat.le_refl _) (fun _ h => nomatch h) graph.within hunfold
  | some json =>
    rw [hunfold] at hdetached htested
    obtain ⟨final, item, ⟨detached, hdetached⟩, hvisited⟩ := hdetached
    obtain ⟨tested, _, ⟨testedFuel, htested⟩, _⟩ := htested
    refine ⟨max detached testedFuel, ?_⟩
    intro fuel hfuel
    have hsnapshot := runTasks_mono hdetached (Nat.le_trans (Nat.le_max_left _ _) hfuel)
    have htest := runTasks_mono htested (Nat.le_trans (Nat.le_max_right _ _) hfuel)
    have hunfolds := unfolds_of_unfoldBelow hunfold
    refine ⟨some (item, final.targets), ?_, ?_, ⟨(fun h => nomatch h), fun h => ?_⟩, ?_⟩
    · have hroot : final.root = some item := hvisited.agrees.root
      have hread : final.root.map (fun root => (root, final.targets)) =
          some (item, final.targets) := by
        rw [hroot, map_some]
      exact (congrArg (Option.map _) hsnapshot).trans (congrArg some hread)
    · exact congrArg (Option.map _) htest
    · exact (not_rejectable_of_unfolds hunfolds h).elim
    · intro value targets h
      cases h
      exact ⟨json, hunfolds, hvisited.tree rfl⟩

/-- A record whose properties are both the object at `1`. -/
def twoOf (prototype : Prototype) : ObjectNode where
  isArray := false
  length := 0
  prototype := prototype
  properties := [⟨.str "a", true, .ref 1⟩, ⟨.str "__proto__", true, .ref 1⟩]
  nodup := by decide

def arrayOf (item : Raw) : ObjectNode where
  isArray := true
  length := 1
  prototype := .intrinsicArray
  properties := [⟨indexKey 0, true, item⟩]
  nodup := nodup_singleton _

example : isJsonValue [twoOf .null, arrayOf .null] 20 (.ref 0) = some true := by decide

example : isJsonValue [twoOf .null, arrayOf (.ref 0)] 20 (.ref 0) = some false := by decide

end DshKernel.Values
