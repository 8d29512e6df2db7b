import DshKernel.DeepSeek.TranslateSteps
import DshKernel.Lib.PositionMap

/-!
# Runs of the translation

The state of a run tells the groups of the fragments, and the chunks that were yielded are a legal
stream of the blocks of that state.
-/

namespace DshKernel.DeepSeek

open Js Lib Session Llm

section Reads

def blockGroups (read : List Fragment) : List (List Fragment) := groups Fragment.slot read

def blockOf (group : List Fragment) : OpenBlock :=
  group.foldl (fun block fragment => fragment.absorb block)
    { kind := (group.head?.map Fragment.kind).getD .text }

def Stable (group : List Fragment) : Prop :=
  ∀ fragment ∈ group, (∀ id ∈ fragment.id, (blockOf group).callId = some id) ∧
    ∀ name ∈ fragment.name, (blockOf group).name = some name

structure Reads (state : TranslateState) (read : List Fragment) : Prop where
  order : state.order = (blockGroups read).map blockOf
  refs : ∀ fragment, refOf state fragment =
    fragment.slot.bind fun slot => position Fragment.slot slot (blockGroups read)
  stable : ∀ group ∈ blockGroups read, Stable group

variable {state next : TranslateState} {read : List Fragment} {fragment : Fragment}
  {chunks : List StreamChunk} {group : List Fragment}

theorem blockOf_concat (h : group ≠ []) : blockOf (group ++ [fragment]) = fragment.absorb (blockOf group) := by
  obtain ⟨first, rest, rfl⟩ := List.exists_cons_of_ne_nil h
  unfold blockOf
  rw [List.foldl_append]
  rfl

theorem blockOf_singleton (fragment : Fragment) :
    blockOf [fragment] = fragment.absorb { kind := fragment.kind } := rfl

theorem kind_foldl_absorb (group : List Fragment) (block : OpenBlock) :
    (group.foldl (fun block fragment => fragment.absorb block) block).kind = block.kind := by
  induction group generalizing block with
  | nil => rfl
  | cons first rest ih => rw [List.foldl_cons, ih]; rfl

theorem Stable.concat (h : Stable group) (hne : group ≠ []) (hsuits : Suits fragment (blockOf group)) :
    Stable (group ++ [fragment]) := by
  intro member hmember
  rw [blockOf_concat hne]
  unfold Fragment.absorb
  dsimp only
  rcases List.mem_append.mp hmember with hold | hnew
  · obtain ⟨hid, hname⟩ := h member hold
    refine ⟨fun id hmem => ?_, fun name hmem => ?_⟩
    · have hheld := hid id hmem
      cases hnew : fragment.id with
      | none => exact hheld
      | some given =>
        rw [hsuits.1 given hnew id hheld]
        rfl
    · have hheld := hname name hmem
      cases hnew : fragment.name with
      | none => exact hheld
      | some given =>
        rw [hsuits.2 given hnew name hheld]
        rfl
  · rw [List.mem_singleton.mp hnew]
    refine ⟨fun id hmem => ?_, fun name hmem => ?_⟩
    · rw [Option.mem_def.mp hmem]
      rfl
    · rw [Option.mem_def.mp hmem]
      rfl

theorem stable_singleton (fragment : Fragment) : Stable [fragment] := by
  intro member hmember
  rw [List.mem_singleton.mp hmember, blockOf_singleton]
  refine ⟨fun id hmem => ?_, fun name hmem => ?_⟩
  · unfold Fragment.absorb
    dsimp only
    rw [Option.mem_def.mp hmem]
    rfl
  · unfold Fragment.absorb
    dsimp only
    rw [Option.mem_def.mp hmem]
    rfl

namespace Reads

theorem length_eq (h : Reads state read) : state.order.length = (blockGroups read).length := by
  rw [h.order, List.length_map]

theorem group_of_ref (h : Reads state read) {place : Nat} (href : refOf state fragment = some place) :
    ∃ group first rest, (blockGroups read)[place]? = some group ∧ group = first :: rest ∧
      first.slot = fragment.slot := by
  rw [h.refs] at href
  obtain ⟨slot, hslot, hposition⟩ := Option.bind_eq_some_iff.mp href
  unfold position at hposition
  obtain ⟨hlt, hhead, -⟩ := List.findIdx?_eq_some_iff_getElem.mp hposition
  obtain ⟨first, hfirst, hkey⟩ := (Option.any_eq_true _ _).mp hhead
  obtain ⟨rest, hrest⟩ := List.head?_eq_some_iff.mp hfirst
  refine ⟨_, first, rest, List.getElem?_eq_getElem hlt, hrest, ?_⟩
  rw [hslot]
  exact beq_iff_eq.mp hkey

theorem remembered (h : Reads state read) : Remembered state := by
  intro fragment place href
  obtain ⟨group, -, -, hgroup, -⟩ := h.group_of_ref href
  rw [h.length_eq]
  exact (List.getElem?_eq_some_iff.mp hgroup).1

theorem kind_of_slot {first fragment : Fragment} (h : first.slot = fragment.slot)
    (hsome : fragment.slot.isSome = true) : first.kind = fragment.kind := by
  cases first with
  | reasoning text =>
    cases fragment with
    | reasoning other => rfl
    | content other => cases h
    | call key id name arguments => cases key <;> cases h
  | content text =>
    cases fragment with
    | reasoning other => cases h
    | content other => rfl
    | call key id name arguments => cases key <;> cases h
  | call key id name arguments =>
    cases fragment with
    | reasoning other => cases key <;> cases h
    | content other => cases key <;> cases h
    | call other _ _ _ => rfl

theorem block_of_ref (h : Reads state read) {place : Nat} {block : OpenBlock}
    (href : refOf state fragment = some place) (hblock : state.order[place]? = some block) :
    ∃ group, (blockGroups read)[place]? = some group ∧ group ≠ [] ∧ blockOf group = block ∧
      block.kind = fragment.kind := by
  obtain ⟨group, first, rest, hgroup, rfl, hslot⟩ := h.group_of_ref href
  rw [h.order, List.getElem?_map, hgroup] at hblock
  obtain rfl := Option.some.inj hblock
  refine ⟨_, hgroup, List.cons_ne_nil _ _, rfl, ?_⟩
  have hsome : fragment.slot.isSome = true := by
    rw [h.refs] at href
    obtain ⟨slot, hfound, -⟩ := Option.bind_eq_some_iff.mp href
    rw [hfound]
    rfl
  unfold blockOf
  rw [kind_foldl_absorb, ← kind_of_slot hslot hsome]
  rfl

theorem refOf_order (state : TranslateState) (order : List OpenBlock) (fragment : Fragment) :
    refOf { state with order } fragment = refOf state fragment := by
  cases fragment <;> rfl

theorem refOf_remember (h : refOf state fragment = none) (place : Nat) (other : Fragment) :
    refOf (remember state place fragment) other =
      (refOf state other).or
        (other.slot.bind fun slot => if fragment.slot = some slot then some place else none) := by
  cases fragment with
  | reasoning text =>
    have hnone : state.reasoningBlock = none := h
    cases other with
    | reasoning other => simp [refOf, remember, Fragment.slot, hnone]
    | content other => simp [refOf, remember, Fragment.slot]
    | call key id name arguments => cases key <;> simp [refOf, remember, Fragment.slot]
  | content text =>
    have hnone : state.textBlock = none := h
    cases other with
    | reasoning other => simp [refOf, remember, Fragment.slot]
    | content other => simp [refOf, remember, Fragment.slot, hnone]
    | call key id name arguments => cases key <;> simp [refOf, remember, Fragment.slot]
  | call key id name arguments =>
    cases other with
    | reasoning other => cases key <;> simp [refOf, remember, Fragment.slot]
    | content other => cases key <;> simp [refOf, remember, Fragment.slot]
    | call other _ _ _ =>
      cases key with
      | none => cases other <;> simp [refOf, remember, Fragment.slot]
      | some key =>
        cases other with
        | none => simp [refOf, remember, Fragment.slot]
        | some other =>
          by_cases heq : key = other
          · subst heq
            simp [refOf, remember, Fragment.slot, List.lookup_append]
          · simp [refOf, remember, Fragment.slot, List.lookup_append, List.lookup_cons, heq,
              beq_false_of_ne (Ne.symm heq)]

theorem step_known (h : Reads state read) {place : Nat} {block : OpenBlock}
    (href : refOf state fragment = some place) (hblock : state.order[place]? = some block)
    (hsuits : Suits fragment block) :
    Reads { state with order := state.order.set place (fragment.absorb block) } (read ++ [fragment]) := by
  obtain ⟨group, hgroup, hne, rfl, -⟩ := h.block_of_ref href hblock
  have hgroups : blockGroups (read ++ [fragment]) =
      (blockGroups read).modify place (· ++ [fragment]) := by
    rw [h.refs] at href
    unfold blockGroups at href ⊢
    rw [groups_concat, addTo, href]
  have hset : (blockGroups read).modify place (· ++ [fragment]) =
      (blockGroups read).set place (group ++ [fragment]) := by
    obtain ⟨hlt, rfl⟩ := List.getElem?_eq_some_iff.mp hgroup
    exact modify_eq_set hlt _
  refine ⟨?_, ?_, ?_⟩
  · rw [hgroups, hset, List.map_set, blockOf_concat hne, ← h.order]
  · intro other
    rw [hgroups]
    refine (h.refs other).trans ?_
    congr 1
    funext slot
    exact (position_modify (groups_ne_nil read) place).symm
  · intro member hmember
    rw [hgroups, hset] at hmember
    rcases List.mem_or_eq_of_mem_set hmember with hold | rfl
    · exact h.stable member hold
    · exact (h.stable group (List.mem_of_getElem? hgroup)).concat hne hsuits

theorem step_opened (h : Reads state read) (href : refOf state fragment = none) :
    Reads { remember state state.order.length fragment with
      order := state.order ++ [fragment.absorb { kind := fragment.kind }] } (read ++ [fragment]) := by
  have hgroups : blockGroups (read ++ [fragment]) = blockGroups read ++ [[fragment]] := by
    rw [h.refs] at href
    unfold blockGroups at href ⊢
    rw [groups_concat, addTo, href]
  refine ⟨?_, ?_, ?_⟩
  · rw [hgroups, List.map_append, ← h.order]
    rfl
  · intro other
    rw [hgroups]
    apply (refOf_order _ _ other).trans
    rw [refOf_remember href, h.refs other, h.length_eq]
    cases other.slot with
    | none => rfl
    | some slot => exact position_append.symm
  · intro member hmember
    rw [hgroups] at hmember
    rcases List.mem_append.mp hmember with hold | hnew
    · exact h.stable member hold
    · rw [List.mem_singleton.mp hnew]
      exact stable_singleton fragment

theorem step (h : Reads state read) (habsorbs : Absorbs state fragment chunks next) :
    Reads next (read ++ [fragment]) := by
  cases habsorbs with
  | known href hblock hsuits => exact h.step_known href hblock hsuits
  | opened href hlength => exact h.step_opened href

theorem empty : Reads {} [] where
  order := by
    unfold blockGroups
    rw [groups_nil]
    rfl
  refs := by
    intro fragment
    unfold blockGroups
    rw [groups_nil]
    cases fragment with
    | reasoning text => rfl
    | content text => rfl
    | call key id name arguments => cases key <;> rfl
  stable := by
    intro group hgroup
    unfold blockGroups at hgroup
    rw [groups_nil] at hgroup
    cases hgroup

end Reads

end Reads

end DshKernel.DeepSeek
