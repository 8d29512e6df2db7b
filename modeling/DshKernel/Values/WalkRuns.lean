import DshKernel.Values.Copies
import DshKernel.Values.Unfolding

/-!
# The walk carries out the recursion

A visit ends as the recursion says: with an error where that gives nothing, else with a copy of what
it gives at the destination.
-/

namespace DshKernel.Values

open Js Lib Ends

structure Visited (detach : Bool) (destination : Option SnapshotDestination)
    (state final : WalkState) (value : Raw) (json : Json) : Prop where
  agrees : Agrees state.targets.length final (state.assign destination value)
  grows : state.targets.length ≤ final.targets.length
  kept : detach = false → final.targets = state.targets
  tree : detach = true →
    Tree final.targets state.targets.length final.targets.length value json

structure AllVisited (detach : Bool) (destinations : List (Option SnapshotDestination))
    (state final : WalkState) (values : List Raw) (jsons : List Json) : Prop where
  length : values.length = destinations.length
  agrees : Agrees state.targets.length final (assignAll state (destinations.zip values))
  grows : state.targets.length ≤ final.targets.length
  kept : detach = false → final.targets = state.targets
  trees : detach = true →
    ItemTrees final.targets state.targets.length final.targets.length values jsons

section Visits

variable (heap : ObjectHeap) (detach : Bool)

def TaskEnds (state : WalkState) (task : JsonWalkTask)
    (destination : Option SnapshotDestination) : Option Json → Prop
  | none => Ends (performTask heap detach) [task] state (.error ())
  | some json => ∃ final item, Ends (performTask heap detach) [task] state (.ok final) ∧
      Visited detach destination state final item json

def TasksEnd (state : WalkState) (tasks : List JsonWalkTask)
    (destinations : List (Option SnapshotDestination)) : Option (List Json) → Prop
  | none => Ends (performTask heap detach) tasks state (.error ())
  | some jsons => ∃ final items, Ends (performTask heap detach) tasks state (.ok final) ∧
      AllVisited detach destinations state final items jsons

variable {heap detach} {state final : WalkState} {destination : Option SnapshotDestination}

variable {json : Json} {size : Nat} {value : Raw} {jsons : List Json} {items : List Raw}

theorem Visited.leaf (hfits : Fits detach size destination)
    (htree : ∀ targets first, Tree targets first first value json) :
    Visited detach destination state (state.assign destination value) value json := by
  refine ⟨⟨rfl, rfl, fun _ _ => rfl⟩, Nat.le_of_eq length_assign.symm, ?_, ?_⟩
  · rintro rfl
    rw [assign_of_not_detach hfits]
  · intro _
    rw [length_assign]
    exact htree _ _

theorem TaskEnds.of_visit {task : JsonWalkTask} {result : Option Json}
    (hact : performTask heap detach task state = .ok ([.visit value destination], state))
    (h : TaskEnds heap detach state (.visit value destination) destination result) :
    TaskEnds heap detach state task destination result := by
  cases result with
  | none => exact cons hact h
  | some json =>
    obtain ⟨final, item, hends, hvisited⟩ := h
    exact ⟨final, item, cons hact hends, hvisited⟩

theorem AllVisited.cons {mid : WalkState} {destinations : List (Option SnapshotDestination)}
    {item : Raw} (hsize : size ≤ state.targets.length)
    (hfits : ∀ other ∈ destinations, Fits detach size other)
    (hfirst : Visited detach destination state mid item json)
    (hrest : AllVisited detach destinations mid final items jsons) :
    AllVisited detach (destination :: destinations) state final (item :: items)
      (json :: jsons) := by
  refine ⟨by rw [List.length_cons, List.length_cons, hrest.length], ?_,
    Nat.le_trans hfirst.grows hrest.grows, ?_, ?_⟩
  · exact (hrest.agrees.mono hfirst.grows).trans hfirst.agrees.assignAll
  · intro hdetach
    exact (hrest.kept hdetach).trans (hfirst.kept hdetach)
  · intro hdetach
    refine ⟨mid.targets.length, (hfirst.tree hdetach).congr ?_, hrest.trees hdetach⟩
    -- later assignments go to a target that was there before
    intro id hlow hhigh
    rw [hrest.agrees.targets id hhigh]
    have hkept : ∀ (assignments : List (Option SnapshotDestination × Raw)) (start : WalkState),
        (∀ assignment ∈ assignments, Fits detach size assignment.1) →
        (assignAll start assignments).targets[id]? = start.targets[id]? := by
      intro assignments
      induction assignments with
      | nil => exact fun _ _ => rfl
      | cons assignment assignments ih =>
        intro start hall
        have htail := ih (start.assign assignment.1 assignment.2)
          (fun other hmem => hall other (List.mem_cons_of_mem _ hmem))
        exact htail.trans (getElem?_assign (hall assignment List.mem_cons_self)
          (Nat.le_trans hsize hlow))
    apply hkept
    intro assignment hmem
    exact hfits _ (List.of_mem_zip hmem).1

theorem tasksEnd {Name : Type} {names : List Name} {task : Name → JsonWalkTask}
    {place : Name → Option SnapshotDestination} {result : Name → Option Json}
    {ancestors : List Nat} (hfits : ∀ name ∈ names, Fits detach size (place name))
    (htask : ∀ name ∈ names, ∀ state : WalkState, state.ancestors = ancestors →
      size ≤ state.targets.length →
        TaskEnds heap detach state (task name) (place name) (result name))
    (hancestors : state.ancestors = ancestors) (hsize : size ≤ state.targets.length) :
    TasksEnd heap detach state (names.map task) (names.map place) (names.mapM result) := by
  induction names generalizing state with
  | nil =>
    refine ⟨state, [], nil state, rfl, ⟨rfl, rfl, fun _ _ => rfl⟩, Nat.le_refl _,
      fun _ => rfl, fun _ => rfl⟩
  | cons name names ih =>
    have hfirst := htask name List.mem_cons_self state hancestors hsize
    rw [List.mapM_cons, List.map_cons, List.map_cons]
    cases hresult : result name with
    | none =>
      rw [hresult] at hfirst
      exact append_error hfirst (names.map task)
    | some json =>
      rw [hresult] at hfirst
      obtain ⟨mid, item, hends, hvisited⟩ := hfirst
      have hmid : mid.ancestors = ancestors :=
        hvisited.agrees.ancestors.trans (ancestors_assign.trans hancestors)
      have hrest := ih (fun other hmem => hfits other (List.mem_cons_of_mem _ hmem))
        (fun other hmem => htask other (List.mem_cons_of_mem _ hmem)) hmid
        (Nat.le_trans hsize hvisited.grows)
      cases hjsons : names.mapM result with
      | none =>
        rw [hjsons] at hrest
        exact append hends hrest
      | some jsons =>
        rw [hjsons] at hrest
        obtain ⟨final, items, hendsRest, hvisitedRest⟩ := hrest
        refine ⟨final, item :: items, append hends hendsRest, ?_⟩
        refine AllVisited.cons hsize ?_ hvisited hvisitedRest
        intro other hmem
        obtain ⟨name', hname', rfl⟩ := List.mem_map.mp hmem
        exact hfits name' (List.mem_cons_of_mem _ hname')

/-! ## Inside of an object -/

theorem enter_detached (hfits : Fits true state.targets.length destination) (id : Nat)
    (new : HeapObject) :
    (state.enter true destination id new).targets.length = state.targets.length + 1 ∧
      (state.enter true destination id new).targets[state.targets.length]? = some new ∧
      Agrees state.targets.length
        { state.enter true destination id new with ancestors := state.ancestors }
        (state.assign destination (.ref state.targets.length)) := by
  have hagrees : Agrees state.targets.length { state with targets := state.targets ++ [new] }
      state := ⟨rfl, rfl, fun id hid => List.getElem?_append_left hid⟩
  refine ⟨?_, ?_, ?_⟩
  · exact length_assign.trans List.length_append
  · exact (getElem?_assign hfits (Nat.le_refl _)).trans List.getElem?_concat_length
  · exact ⟨(@ancestors_assign state destination (.ref state.targets.length)).symm,
      hagrees.assign.root, hagrees.assign.targets⟩

theorem ancestors_enter (id : Nat) (new : HeapObject) :
    (state.enter detach destination id new).ancestors = id :: state.ancestors := by
  cases detach with
  | false => rfl
  | true => exact congrArg (List.cons id) ancestors_assign

theorem Visited.inside {places : List (Option SnapshotDestination)} {id : Nat} {new : HeapObject}
    (hfits : Fits detach state.targets.length destination)
    (h : AllVisited detach places (state.enter detach destination id new) final items jsons)
    (hinto : ∀ place ∈ places, ∀ inside, place = some inside →
      inside.Into state.targets.length)
    (htree : detach = true →
      final.targets[state.targets.length]? =
        (assignAll (state.enter detach destination id new) (places.zip items)).targets[
          state.targets.length]? →
      ItemTrees final.targets (state.targets.length + 1) final.targets.length items jsons →
      Tree final.targets state.targets.length final.targets.length
        (.ref state.targets.length) json) :
    Visited detach destination state { final with ancestors := state.ancestors }
      (.ref state.targets.length) json := by
  have hassigned : ∀ assignment ∈ places.zip items, ∀ inside, assignment.1 = some inside →
      inside.Into state.targets.length :=
    fun assignment hmem => hinto _ (List.of_mem_zip hmem).1
  obtain ⟨hroot, hothers⟩ := @assignAll_into (state.enter detach destination id new) _ _ hassigned
  cases detach with
  | false =>
    have hnone := @assign_of_not_detach state _ destination (.ref state.targets.length) hfits
    refine ⟨?_, h.grows, h.kept, (fun hdetach => nomatch hdetach)⟩
    rw [hnone]
    refine ⟨rfl, h.agrees.root.trans hroot, ?_⟩
    intro other _
    exact congrArg (fun targets : Heap => targets[other]?) (h.kept rfl)
  | true =>
    obtain ⟨hlength, -, hagrees⟩ := enter_detached hfits id new
    have hgrows := h.grows
    rw [hlength] at hgrows
    refine ⟨⟨hagrees.ancestors, (h.agrees.root.trans hroot).trans hagrees.root, ?_⟩,
      Nat.le_of_succ_le hgrows, (fun hdetach => nomatch hdetach), ?_⟩
    · intro other hother
      have hbefore := h.agrees.targets other (by rw [hlength]; omega)
      exact hbefore.trans ((hothers other (by omega)).trans (hagrees.targets other hother))
    · intro hdetach
      apply htree hdetach
      · exact h.agrees.targets _ (by rw [hlength]; omega)
      · rw [← hlength]
        exact h.trees hdetach

section Inside

variable {node : ObjectNode} {id budget : Nat} {ancestors : List Nat}

/-- Visits inside of `ancestors` end as the recursion says. -/
def Follows (heap : ObjectHeap) (detach : Bool) (ancestors : List Nat)
    (below : Raw → Option Json) : Prop :=
  ∀ (state : WalkState) (value : Raw) (destination : Option SnapshotDestination),
    state.ancestors = ancestors → Fits detach state.targets.length destination →
      TaskEnds heap detach state (.visit value destination) destination (below value)

theorem Fits.mono {size more : Nat} (h : Fits detach size destination) (hle : size ≤ more) :
    Fits detach more destination := by
  refine ⟨h.isSome, ?_⟩
  intro place hplace
  have hbelow := h.below place hplace
  cases place with
  | root => trivial
  | array target index => exact Nat.lt_of_lt_of_le hbelow hle
  | object target key => exact Nat.lt_of_lt_of_le hbelow hle

variable {new : HeapObject} {below : Raw → Option Json}

theorem fits_inside {place : Nat → SnapshotDestination}
    (hfits : Fits detach state.targets.length destination)
    (hinto : (place state.targets.length).Into state.targets.length) :
    Fits detach (state.enter detach destination id new).targets.length
      ((state.target detach).map place) := by
  cases detach with
  | false => exact ⟨rfl, fun _ h => nomatch h⟩
  | true =>
    refine ⟨rfl, ?_⟩
    rintro inside hinside
    cases hinside
    rw [(enter_detached hfits id new).1]
    cases hplace : place state.targets.length with
    | root => trivial
    | array target index =>
      rw [hplace] at hinto
      exact Nat.lt_succ_of_le (Nat.le_of_eq hinto)
    | object target key =>
      rw [hplace] at hinto
      exact Nat.lt_succ_of_le (Nat.le_of_eq hinto)

theorem TaskEnds.of_inside {task : JsonWalkTask} {tasks : List JsonWalkTask}
    {places : List (Option SnapshotDestination)} {results : Option (List Json)}
    {read : List Json → Json}
    (hact : performTask heap detach task state =
      .ok (tasks ++ [.leave id], state.enter detach destination id new))
    (h : TasksEnd heap detach (state.enter detach destination id new) tasks places results)
    (hvisited : ∀ final items jsons, results = some jsons →
      AllVisited detach places (state.enter detach destination id new) final items jsons →
      Visited detach destination state { final with ancestors := state.ancestors }
        (.ref state.targets.length) (read jsons)) :
    TaskEnds heap detach state task destination (results.map read) := by
  cases results with
  | none =>
    apply cons hact
    rw [List.append_nil]
    exact append_error h _
  | some jsons =>
    obtain ⟨final, items, hends, hall⟩ := h
    refine ⟨_, _, ?_, hvisited final items jsons rfl hall⟩
    apply cons hact
    rw [List.append_nil]
    apply append hends
    have hleft : final.ancestors.erase id = state.ancestors := by
      rw [hall.agrees.ancestors, ancestors_assignAll, ancestors_enter, List.erase_cons_head]
    have hleave : performTask heap detach (.leave id) final =
        .ok ([], { final with ancestors := state.ancestors }) := by
      rw [performTask, hleft]
    exact cons hleave (nil _)

theorem visitArray_ends (hnode : heap[id]? = some node) (harray : node.isArray = true)
    (hnew : id ∉ state.ancestors) (hfits : Fits detach state.targets.length destination)
    (hbelow : Follows heap detach (id :: state.ancestors) below) :
    TaskEnds heap detach state (.visit (.ref id) destination) destination
      (node.items?.bind fun items => (items.mapM below).map .arr) := by
  have hvisit : performTask heap detach (.visit (.ref id) destination) state =
      visitArray detach id node destination state := by
    rw [performTask, if_neg hnew, hnode]
    exact if_pos harray
  by_cases hchecks : node.hasPlainArrayPrototype = true ∧ node.arrayKeyCount = node.length + 1
  · have hact : performTask heap detach (.visit (.ref id) destination) state = .ok
        ((List.range node.length).map (fun index =>
            .arrayItem id index (state.target detach)) ++ [.leave id],
          state.enter detach destination id (.array [])) := by
      rw [hvisit, visitArray, if_neg (by simp [hchecks.1]), if_neg (by simp [hchecks.2])]
    have hitems : (node.items?.bind fun items => (items.mapM below).map Json.arr) =
        ((List.range node.length).mapM fun index =>
          (node.own? (indexKey index)).bind below).map .arr := by
      rw [ObjectNode.items?, if_pos hchecks, mapM_bind]
      cases (List.range node.length).mapM fun index => node.own? (indexKey index) with
      | none => rfl
      | some items => rfl
    rw [hitems]
    have hinside : ∀ index, Fits detach
        (state.enter detach destination id (.array [])).targets.length
        ((state.target detach).map fun target => .array target index) :=
      fun index => fits_inside hfits rfl
    apply TaskEnds.of_inside hact
    · refine tasksEnd (fun index _ => hinside index) ?_ (ancestors_enter _ _) (Nat.le_refl _)
      intro index _ inner hancestors hsize
      have hread : (heap[id]?.bind fun node => node.own? (indexKey index)) =
          node.own? (indexKey index) := by
        rw [hnode, Option.bind_some]
      cases hown : node.own? (indexKey index) with
      | none =>
        apply fails
        rw [performTask, hread, hown]
      | some value =>
        apply TaskEnds.of_visit
        · rw [performTask, hread, hown]
        · exact hbelow inner value _ hancestors ((hinside index).mono hsize)
    · intro final items jsons _ hall
      apply Visited.inside hfits hall
      · intro place hplace inside hsome
        obtain ⟨index, -, rfl⟩ := List.mem_map.mp hplace
        obtain ⟨target, htarget, rfl⟩ := Option.map_eq_some_iff.mp hsome
        cases detach with
        | false => cases htarget
        | true =>
          cases htarget
          rfl
      · rintro rfl hat htrees
        have hlength : node.length = items.length := by
          rw [hall.length, List.length_map, List.length_range]
        have hfilled := getElem?_assignAll_items hlength (enter_detached hfits id (.array [])).2.1
        refine ⟨items, rfl, hat.trans ?_, htrees⟩
        rw [List.range_eq_range']
        exact hfilled
  · have hnone : node.items? = none := if_neg hchecks
    rw [hnone]
    apply fails
    rw [hvisit, visitArray]
    by_cases hprototype : node.hasPlainArrayPrototype = true
    · rw [if_neg (by simp [hprototype]), if_pos]
      exact fun hcount => hchecks ⟨hprototype, hcount⟩
    · rw [if_pos (by simp [hprototype])]

theorem visitObject_ends (hnode : heap[id]? = some node) (harray : node.isArray = false)
    (hnew : id ∉ state.ancestors) (hfits : Fits detach state.targets.length destination)
    (hbelow : Follows heap detach (id :: state.ancestors) below) :
    TaskEnds heap detach state (.visit (.ref id) destination) destination
      (node.fields?.bind fun fields =>
        (fields.mapM fun field => (below field.2).map (Prod.mk field.1)).map .obj) := by
  have hvisit : performTask heap detach (.visit (.ref id) destination) state =
      visitObject detach id node destination state := by
    rw [performTask, if_neg hnew, hnode]
    exact if_neg (by rw [harray]; exact Bool.false_ne_true)
  by_cases hprototype : node.hasPlainObjectPrototype = true
  · cases hkeys : node.enumerableStringKeys with
    | none =>
      have hnone : node.fields? = none := by
        rw [ObjectNode.fields?, if_pos hprototype, hkeys, Option.map_none]
      rw [hnone]
      apply fails
      rw [hvisit, visitObject, if_neg (by simp [hprototype]), hkeys]
    | some keys =>
      have hact : performTask heap detach (.visit (.ref id) destination) state = .ok
          (keys.map (fun key => .objectProperty id key (state.target detach)) ++ [.leave id],
            state.enter detach destination id (.record OrderedMap.empty)) := by
        rw [hvisit, visitObject, if_neg (by simp [hprototype]), hkeys]
      have hfields : (node.fields?.bind fun fields =>
          (fields.mapM fun field => (below field.2).map (Prod.mk field.1)).map Json.obj) =
            (keys.mapM fun key => below ((node.own? (.str key)).getD .undefined)).map
              fun jsons => .obj (keys.zip jsons) := by
        rw [ObjectNode.fields?, if_pos hprototype, hkeys, Option.map_some, Option.bind_some,
          mapM_fields, Option.map_map]
        rfl
      rw [hfields]
      have hinside : ∀ key, Fits detach
          (state.enter detach destination id (.record OrderedMap.empty)).targets.length
          ((state.target detach).map fun target => .object target key) :=
        fun key => fits_inside hfits rfl
      apply TaskEnds.of_inside hact
      · refine tasksEnd (fun key _ => hinside key) ?_ (ancestors_enter _ _) (Nat.le_refl _)
        intro key _ inner hancestors hsize
        apply TaskEnds.of_visit
        · rw [performTask, hnode, Option.bind_some]
        · exact hbelow inner _ _ hancestors ((hinside key).mono hsize)
      · intro final items jsons _ hall
        apply Visited.inside hfits hall
        · intro place hplace inside hsome
          obtain ⟨key, -, rfl⟩ := List.mem_map.mp hplace
          obtain ⟨target, htarget, rfl⟩ := Option.map_eq_some_iff.mp hsome
          cases detach with
          | false => cases htarget
          | true =>
            cases htarget
            rfl
        · rintro rfl hat htrees
          have hlength : keys.length = items.length := by
            rw [hall.length, List.length_map]
          obtain ⟨fields, hentries, hfilled⟩ := @getElem?_assignAll_fields _ _ keys items _
            (ObjectNode.nodup_enumerableStringKeys hkeys)
            (enter_detached hfits id (.record OrderedMap.empty)).2.1
          refine ⟨fields, rfl, hat.trans hfilled, ?_⟩
          rw [hentries]
          exact fieldTrees_of_items hlength htrees
  · have hnone : node.fields? = none := if_neg hprototype
    rw [hnone]
    apply fails
    rw [hvisit, visitObject, if_pos (by simp [hprototype])]

end Inside

theorem mem_of_all_visited {ancestors : List Nat} (hnodup : ancestors.Nodup)
    (hwithin : ∀ id ∈ ancestors, id < heap.length) (hall : heap.length ≤ ancestors.length) {id : Nat}
    (hid : id < heap.length) : id ∈ ancestors := by
  have hsubset : ancestors ⊆ List.range heap.length := by
    intro other hother
    exact List.mem_range.mpr (hwithin other hother)
  have hperm := (List.subperm_of_subset hnodup hsubset).perm_of_length_le
    (by rw [List.length_range]; exact hall)
  exact hperm.mem_iff.mpr (List.mem_range.mpr hid)

theorem visitScalar_ends {budget : Nat} {ancestors : List Nat}
    (hscalar : ∀ id, value ≠ .ref id) (hfits : Fits detach state.targets.length destination) :
    TaskEnds heap detach state (.visit value destination) destination
      (unfoldBelow heap budget ancestors value) := by
  have hleaf : ∀ json, performTask heap detach (.visit value destination) state =
      .ok ([], state.assign destination value) →
      (∀ targets first, Tree targets first first value json) →
      TaskEnds heap detach state (.visit value destination) destination (some json) :=
    fun json hact htree => ⟨_, _, cons hact (nil _), Visited.leaf hfits htree⟩
  cases value with
  | undefined =>
    rw [unfoldBelow]
    exact fails rfl []
  | other =>
    rw [unfoldBelow]
    exact fails rfl []
  | null =>
    rw [unfoldBelow]
    exact hleaf _ rfl fun _ _ => ⟨rfl, rfl⟩
  | bool b =>
    rw [unfoldBelow]
    exact hleaf _ rfl fun _ _ => ⟨rfl, rfl⟩
  | str s =>
    rw [unfoldBelow]
    exact hleaf _ rfl fun _ _ => ⟨rfl, rfl⟩
  | num n =>
    rw [unfoldBelow]
    by_cases hlossless : n.isLossless = true
    · rw [if_pos hlossless]
      apply hleaf
      · rw [performTask, if_pos hlossless]
      · exact fun _ _ => ⟨rfl, rfl⟩
    · rw [if_neg hlossless]
      apply fails
      rw [performTask, if_neg hlossless]
  | ref id => exact (hscalar id rfl).elim

theorem follows (budget : Nat) : ∀ ancestors : List Nat, ancestors.Nodup →
    (∀ id ∈ ancestors, id < heap.length) → heap.length ≤ budget + ancestors.length →
    Follows heap detach ancestors (unfoldBelow heap budget ancestors) := by
  induction budget with
  | zero =>
    intro ancestors hnodup hwithin hbudget state value destination hancestors hfits
    by_cases hscalar : ∀ id, value ≠ .ref id
    · exact visitScalar_ends hscalar hfits
    · simp only [ne_eq, not_forall, not_not] at hscalar
      obtain ⟨id, rfl⟩ := hscalar
      apply fails
      rw [performTask, hancestors]
      by_cases hid : id < heap.length
      · rw [if_pos (mem_of_all_visited hnodup hwithin (by omega) hid)]
      · rw [List.getElem?_eq_none (by omega)]
        split <;> rfl
  | succ budget ih =>
    intro ancestors hnodup hwithin hbudget state value destination hancestors hfits
    by_cases hscalar : ∀ id, value ≠ .ref id
    · exact visitScalar_ends hscalar hfits
    · simp only [ne_eq, not_forall, not_not] at hscalar
      obtain ⟨id, rfl⟩ := hscalar
      subst hancestors
      rw [unfoldBelow]
      by_cases hmet : id ∈ state.ancestors
      · rw [if_pos hmet]
        apply fails
        rw [performTask, if_pos hmet]
      · rw [if_neg hmet]
        cases hnode : heap[id]? with
        | none =>
          apply fails
          rw [performTask, if_neg hmet, hnode]
        | some node =>
          have hid : id < heap.length := (List.getElem?_eq_some_iff.mp hnode).1
          have hbelow := ih (id :: state.ancestors) (List.nodup_cons.mpr ⟨hmet, hnodup⟩)
            (List.forall_mem_cons.mpr ⟨hid, hwithin⟩) (by rw [List.length_cons]; omega)
          dsimp only
          by_cases harray : node.isArray = true
          · rw [if_pos harray]
            exact visitArray_ends hnode harray hmet hfits hbelow
          · rw [if_neg harray]
            exact visitObject_ends hnode (Bool.eq_false_iff.mpr harray) hmet hfits hbelow

end Visits

end DshKernel.Values
