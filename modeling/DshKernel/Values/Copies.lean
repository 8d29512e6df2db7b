import DshKernel.Values.Walk

/-!
# Copies on the heap of targets

A copy takes a stretch of the heap of its own: its objects are laid out in the order in which they
were met, each held by one place only.
-/

namespace DshKernel.Values

open Js Lib List

section Trees

variable (targets : Heap)

mutual

/-- The targets from `first` up to `last` are those of the value, a tree that reads as the JSON
value. -/
def Tree : Nat → Nat → Raw → Json → Prop
  | first, last, value, .null => last = first ∧ value = .null
  | first, last, value, .bool b => last = first ∧ value = .bool b
  | first, last, value, .num n => last = first ∧ value = .num n
  | first, last, value, .str s => last = first ∧ value = .str s
  | first, last, value, .arr jsons => ∃ items, value = .ref first ∧
      targets[first]? = some (.array items) ∧ ItemTrees (first + 1) last items jsons
  | first, last, value, .obj jsons => ∃ fields, value = .ref first ∧
      targets[first]? = some (.record fields) ∧ FieldTrees (first + 1) last fields.entries jsons

def ItemTrees : Nat → Nat → List Raw → List Json → Prop
  | first, last, [], [] => last = first
  | first, last, item :: items, json :: jsons =>
    ∃ mid, Tree first mid item json ∧ ItemTrees mid last items jsons
  | _, _, _, _ => False

def FieldTrees : Nat → Nat → List (String × Raw) → List (String × Json) → Prop
  | first, last, [], [] => last = first
  | first, last, field :: fields, json :: jsons =>
    field.1 = json.1 ∧ ∃ mid, Tree first mid field.2 json.2 ∧ FieldTrees mid last fields jsons
  | _, _, _, _ => False

end

end Trees

section TreeFacts

variable {targets later : Heap}

mutual

theorem Tree.first_le {first last : Nat} {value : Raw} :
    ∀ {json : Json}, Tree targets first last value json → first ≤ last
  | .null, h => Nat.le_of_eq h.1.symm
  | .bool _, h => Nat.le_of_eq h.1.symm
  | .num _, h => Nat.le_of_eq h.1.symm
  | .str _, h => Nat.le_of_eq h.1.symm
  | .arr _, h => by
    obtain ⟨items, -, -, hitems⟩ := h
    exact Nat.le_of_succ_le (ItemTrees.first_le hitems)
  | .obj _, h => by
    obtain ⟨fields, -, -, hfields⟩ := h
    exact Nat.le_of_succ_le (FieldTrees.first_le hfields)

theorem ItemTrees.first_le {first last : Nat} : ∀ {items : List Raw} {jsons : List Json},
    ItemTrees targets first last items jsons → first ≤ last
  | [], [], h => Nat.le_of_eq h.symm
  | _ :: _, _ :: _, ⟨_, htree, htrees⟩ =>
    Nat.le_trans (Tree.first_le htree) (ItemTrees.first_le htrees)

theorem FieldTrees.first_le {first last : Nat} :
    ∀ {fields : List (String × Raw)} {jsons : List (String × Json)},
      FieldTrees targets first last fields jsons → first ≤ last
  | [], [], h => Nat.le_of_eq h.symm
  | _ :: _, (_, _) :: _, ⟨_, _, htree, htrees⟩ =>
    Nat.le_trans (Tree.first_le htree) (FieldTrees.first_le htrees)

end

mutual

theorem Tree.congr {first last : Nat} {value : Raw} : ∀ {json : Json},
    Tree targets first last value json →
    (∀ id, first ≤ id → id < last → later[id]? = targets[id]?) →
    Tree later first last value json
  | .null, h, _ => h
  | .bool _, h, _ => h
  | .num _, h, _ => h
  | .str _, h, _ => h
  | .arr _, ⟨items, hvalue, hat, hitems⟩, hsame =>
    have hle := hitems.first_le
    ⟨items, hvalue, (hsame first (Nat.le_refl _) hle).trans hat,
      hitems.congr fun id hlow => hsame id (Nat.le_of_succ_le hlow)⟩
  | .obj _, ⟨fields, hvalue, hat, hfields⟩, hsame =>
    have hle := hfields.first_le
    ⟨fields, hvalue, (hsame first (Nat.le_refl _) hle).trans hat,
      hfields.congr fun id hlow => hsame id (Nat.le_of_succ_le hlow)⟩

theorem ItemTrees.congr {first last : Nat} : ∀ {items : List Raw} {jsons : List Json},
    ItemTrees targets first last items jsons →
    (∀ id, first ≤ id → id < last → later[id]? = targets[id]?) →
    ItemTrees later first last items jsons
  | [], [], h, _ => h
  | _ :: _, _ :: _, ⟨mid, htree, htrees⟩, hsame =>
    ⟨mid, htree.congr fun id hlow hhigh => hsame id hlow (Nat.lt_of_lt_of_le hhigh htrees.first_le),
      htrees.congr fun id hlow => hsame id (Nat.le_trans htree.first_le hlow)⟩

theorem FieldTrees.congr {first last : Nat} :
    ∀ {fields : List (String × Raw)} {jsons : List (String × Json)},
      FieldTrees targets first last fields jsons →
      (∀ id, first ≤ id → id < last → later[id]? = targets[id]?) →
      FieldTrees later first last fields jsons
  | [], [], h, _ => h
  | _ :: _, (_, _) :: _, ⟨hkey, mid, htree, htrees⟩, hsame =>
    ⟨hkey, mid,
      htree.congr fun id hlow hhigh => hsame id hlow (Nat.lt_of_lt_of_le hhigh htrees.first_le),
      htrees.congr fun id hlow => hsame id (Nat.le_trans htree.first_le hlow)⟩

end

theorem fieldTrees_of_items {keys : List String} {first last : Nat} {values : List Raw}
    {jsons : List Json} (hlength : keys.length = values.length)
    (h : ItemTrees targets first last values jsons) :
    FieldTrees targets first last (keys.zip values) (keys.zip jsons) := by
  induction keys generalizing first values jsons with
  | nil =>
    obtain rfl : values = [] := length_eq_zero_iff.mp hlength.symm
    cases jsons with
    | nil => exact h
    | cons json jsons => exact h.elim
  | cons key keys ih =>
    cases values with
    | nil => cases hlength
    | cons value values =>
      cases jsons with
      | nil => exact h.elim
      | cons json jsons =>
        obtain ⟨mid, htree, htrees⟩ := h
        exact ⟨rfl, mid, htree, ih (Nat.succ.inj hlength) htrees⟩

end TreeFacts

/-! ## Assignments -/

def SnapshotDestination.Below (size : Nat) : SnapshotDestination → Prop
  | .root => True
  | .array target _ => target < size
  | .object target _ => target < size

def SnapshotDestination.Into (container : Nat) : SnapshotDestination → Prop
  | .root => False
  | .array target _ => target = container
  | .object target _ => target = container

structure Fits (detach : Bool) (size : Nat) (destination : Option SnapshotDestination) : Prop where
  isSome : destination.isSome = detach
  below : ∀ place, destination = some place → place.Below size

/-- The states agree apart from targets past the first `size`. -/
structure Agrees (size : Nat) (state other : WalkState) : Prop where
  ancestors : state.ancestors = other.ancestors
  root : state.root = other.root
  targets : ∀ id < size, state.targets[id]? = other.targets[id]?

theorem Agrees.trans {size : Nat} {a b c : WalkState} (h : Agrees size a b)
    (h' : Agrees size b c) : Agrees size a c :=
  ⟨h.ancestors.trans h'.ancestors, h.root.trans h'.root,
    fun id hid => (h.targets id hid).trans (h'.targets id hid)⟩

theorem Agrees.mono {size less : Nat} {a b : WalkState} (h : Agrees size a b) (hle : less ≤ size) :
    Agrees less a b :=
  ⟨h.ancestors, h.root, fun id hid => h.targets id (Nat.lt_of_lt_of_le hid hle)⟩

theorem getElem?_setItem_congr {heap later : Heap} {id index other : Nat} {value : Raw}
    (h : later[other]? = heap[other]?) :
    (later.setItem id index value)[other]? = (heap.setItem id index value)[other]? := by
  by_cases hother : other = id
  · subst hother
    rw [Heap.setItem, Heap.setItem, getElem?_modify_eq, getElem?_modify_eq, h]
  · rw [Heap.getElem?_setItem_of_ne hother, Heap.getElem?_setItem_of_ne hother, h]

section Assign

variable {state other : WalkState} {detach : Bool} {size : Nat}
variable {destination : Option SnapshotDestination} {value : Raw}

@[simp] theorem ancestors_assign : (state.assign destination value).ancestors = state.ancestors := by
  rcases destination with _ | _ | _ | _ <;> rfl

@[simp] theorem length_assign :
    (state.assign destination value).targets.length = state.targets.length := by
  rcases destination with _ | _ | _ | _
  · rfl
  · rfl
  · exact Heap.length_setItem
  · exact Heap.length_setField

theorem Agrees.assign (h : Agrees size state other) :
    Agrees size (state.assign destination value) (other.assign destination value) := by
  rcases destination with _ | _ | _ | _
  · exact h
  · exact ⟨h.ancestors, rfl, h.targets⟩
  · exact ⟨h.ancestors, h.root, fun id hid => getElem?_setItem_congr (h.targets id hid)⟩
  · exact ⟨h.ancestors, h.root, fun id hid => Heap.getElem?_setField_congr (h.targets id hid)⟩

theorem getElem?_assign (h : Fits detach size destination) {id : Nat} (hid : size ≤ id) :
    (state.assign destination value).targets[id]? = state.targets[id]? := by
  rcases destination with _ | _ | ⟨target, index⟩ | ⟨target, key⟩
  · rfl
  · rfl
  · have hbelow : target < size := h.below _ rfl
    exact Heap.getElem?_setItem_of_ne (by omega)
  · have hbelow : target < size := h.below _ rfl
    exact Heap.getElem?_setField_of_ne (by omega)

theorem assign_of_not_detach (h : Fits false size destination) :
    state.assign destination value = state := by
  cases destination with
  | none => rfl
  | some place => cases h.isSome

end Assign

/-! ## Filling a target -/

def assignAll (state : WalkState) (assignments : List (Option SnapshotDestination × Raw)) :
    WalkState :=
  assignments.foldl (fun state assignment => state.assign assignment.1 assignment.2) state

section AssignAll

variable {state other : WalkState} {size : Nat}
variable {assignments : List (Option SnapshotDestination × Raw)}

theorem Agrees.assignAll (h : Agrees size state other) :
    Agrees size (assignAll state assignments) (assignAll other assignments) := by
  induction assignments generalizing state other with
  | nil => exact h
  | cons assignment assignments ih => exact ih h.assign

theorem getElem?_assignAll_items {target : Nat} {values : List Raw} {built : List Raw} {count : Nat}
    (hcount : count = values.length) (h : state.targets[target]? = some (.array built)) :
    (assignAll state (((range' built.length count).map fun index =>
        some (SnapshotDestination.array target index)).zip values)).targets[target]? =
      some (.array (built ++ values)) := by
  induction values generalizing state built count with
  | nil =>
    subst hcount
    rw [append_nil]
    exact h
  | cons value values ih =>
    subst hcount
    rw [length_cons, range'_succ, map_cons, zip_cons_cons]
    have hset : (state.assign (some (.array target built.length)) value).targets[target]? =
        some (.array (built ++ [value])) := Heap.getElem?_setItem_self h
    have hrest := ih rfl hset
    rw [length_append, length_singleton, append_assoc] at hrest
    exact hrest

theorem getElem?_assignAll_fields {target : Nat} {keys : List String} {values : List Raw}
    {built : OrderedMap String Raw} (hnodup : (built.keys ++ keys).Nodup)
    (h : state.targets[target]? = some (.record built)) :
    ∃ fields : OrderedMap String Raw, fields.entries = built.entries ++ keys.zip values ∧
      (assignAll state ((keys.map fun key =>
        some (SnapshotDestination.object target key)).zip values)).targets[target]? =
          some (.record fields) := by
  induction keys generalizing state values built with
  | nil => exact ⟨built, by rw [zip_nil_left, append_nil], h⟩
  | cons key keys ih =>
    cases values with
    | nil => exact ⟨built, by rw [zip_nil_right, append_nil], h⟩
    | cons value values =>
      have hkey : key ∉ built.keys := by
        intro hmem
        exact (nodup_append.mp hnodup).2.2 key hmem key mem_cons_self rfl
      have hentries := OrderedMap.entries_set_of_not_mem (v := value) hkey
      have hkeys : (built.set key value).keys = built.keys ++ [key] := by
        rw [OrderedMap.keys, hentries, map_append]
        rfl
      have hset : (state.assign (some (.object target key)) value).targets[target]? =
          some (.record (built.set key value)) := Heap.getElem?_setField_self h
      obtain ⟨fields, hfields, hat⟩ := ih (by rw [hkeys, append_assoc]; exact hnodup) hset
      refine ⟨fields, ?_, hat⟩
      rw [hfields, hentries, append_assoc]
      rfl

theorem assignAll_into {container : Nat}
    (h : ∀ assignment ∈ assignments, ∀ place, assignment.1 = some place → place.Into container) :
    (assignAll state assignments).root = state.root ∧
      ∀ id ≠ container, (assignAll state assignments).targets[id]? = state.targets[id]? := by
  induction assignments generalizing state with
  | nil => exact ⟨rfl, fun _ _ => rfl⟩
  | cons assignment assignments ih =>
    obtain ⟨hroot, htargets⟩ := @ih (state.assign assignment.1 assignment.2)
      (fun other hmem => h other (mem_cons_of_mem _ hmem))
    obtain ⟨destination, value⟩ := assignment
    have hinto := h (destination, value) mem_cons_self
    rcases destination with _ | _ | ⟨target, index⟩ | ⟨target, key⟩
    · exact ⟨hroot, htargets⟩
    · exact (hinto _ rfl).elim
    · obtain rfl : target = container := hinto _ rfl
      exact ⟨hroot, fun id hne => (htargets id hne).trans (Heap.getElem?_setItem_of_ne hne)⟩
    · obtain rfl : target = container := hinto _ rfl
      exact ⟨hroot, fun id hne => (htargets id hne).trans (Heap.getElem?_setField_of_ne hne)⟩

@[simp] theorem ancestors_assignAll : (assignAll state assignments).ancestors = state.ancestors := by
  induction assignments generalizing state with
  | nil => rfl
  | cons assignment assignments ih =>
    exact (@ih (state.assign assignment.1 assignment.2)).trans ancestors_assign

end AssignAll

end DshKernel.Values
