import DshKernel.Scope.LayerRuns
import Mathlib.Data.List.Basic

/-!
# What scopes see

Bindings, moves, registrations and disposals in any order: the chains stay without cycles, the view
of a scope is what is registered along its chain at that moment, and events go up the chain.
-/

namespace DshKernel.Scope

open Lib List

section Registered

variable {κ ν μ V : Type} [DecidableEq κ] [DecidableEq ν] [DecidableEq μ]

def namedEntries (active : List (Registration κ ν μ V)) (scope : Option κ) (table : ν) :
    List (String × V) :=
  (active.filter fun registration => decide (registration.scope = scope)).filterMap
    (·.namedEntry table)

def anonymousValues (active : List (Registration κ ν μ V)) (scope : Option κ) (table : μ) : List V :=
  ((active.filter fun registration => decide (registration.scope = scope)).filterMap
    (·.anonymousEntry table)).map Prod.snd

def nearest (active : List (Registration κ ν μ V)) (chain : List κ) (table : ν) (name : String) :
    Option V :=
  (chain.findSome? fun key => (namedEntries active (some key) table).lookup name).or
    ((namedEntries active none table).lookup name)

end Registered

namespace ScopedLayers

variable {κ ν μ V : Type} [DecidableEq κ]

def namedTable (store : ScopedLayers κ ν μ V) (scope : Option κ) (table : ν) : List (String × V) :=
  ((store.layerOf scope).map fun layer =>
    ((store.layers layer).named table).current.entries).getD []

def anonymousTable (store : ScopedLayers κ ν μ V) (scope : Option κ) (table : μ) : List V :=
  ((store.layerOf scope).map fun layer =>
    ((store.layers layer).anonymous table).current.entries.map Prod.snd).getD []

def chainValues (store : ScopedLayers κ ν μ V) (parents : ScopeParents κ) (scope : Option κ)
    (table : μ) : List V :=
  (store.chainLayers parents scope).flatMap fun layer =>
    (layer.anonymous table).current.entries.map Prod.snd

section Views

variable {store : ScopedLayers κ ν μ V} {parents : ScopeParents κ} {scope : Option κ}

theorem get?_foldl_setAll (pick : ν) (layers : List (Layer ν μ V)) (merged : OrderedMap String V)
    (name : String) :
    (layers.foldl (fun merged layer => merged.setAll (layer.named pick).current.entries) merged).get?
        name =
      (layers.reverse.findSome? fun layer => (layer.named pick).current.get? name).or
        (merged.get? name) := by
  induction layers generalizing merged with
  | nil => rfl
  | cons layer rest ih =>
    rw [foldl_cons, ih, OrderedMap.get?_setAll (layer.named pick).current.nodup,
      reverse_cons, findSome?_append, findSome?_singleton, Option.or_assoc]
    rfl

theorem get?_merge (pick : ν) (name : String) :
    (store.merge parents scope pick).get? name =
      ((scopeChainOf parents scope).findSome? fun key =>
        (store.namedTable (some key) pick).lookup name).or
        ((store.namedTable none pick).lookup name) := by
  have hlayer : ∀ key : κ,
      (((store.scopedLayers.get? key).map store.layers).bind fun layer =>
        (layer.named pick).current.get? name) = (store.namedTable (some key) pick).lookup name := by
    intro key
    simp only [namedTable, layerOf]
    cases store.scopedLayers.get? key with
    | none => rfl
    | some layer => rfl
  rw [merge, get?_foldl_setAll, chainLayers, filterMap_reverse, reverse_reverse,
    OrderedMap.get?_setAll (store.globalLayer.named pick).current.nodup]
  congr 1
  · rw [← head?_filterMap, ← head?_filterMap, filterMap_filterMap]
    simp only [hlayer]
  · change Option.or _ none = _
    rw [Option.or_none]
    rfl

theorem chainValues_eq (table : μ) :
    store.chainValues parents scope table =
      (scopeChainOf parents scope).reverse.flatMap fun key =>
        store.anonymousTable (some key) table := by
  unfold chainValues chainLayers
  induction (scopeChainOf parents scope).reverse with
  | nil => rfl
  | cons key rest ih =>
    rw [flatMap_cons, ← ih]
    simp only [anonymousTable, layerOf]
    cases hlayer : store.scopedLayers.get? key with
    | none => simp [hlayer]
    | some layer => simp [hlayer]

variable [DecidableEq ν] [DecidableEq μ] {active : List (Registration κ ν μ V)}

theorem Holds.absent (h : store.Holds active) (habsent : store.layerOf scope = none) :
    active.filter (fun registration => decide (registration.scope = scope)) = [] := by
  rw [filter_eq_nil_iff]
  intro registration hmem hscope
  rw [decide_eq_true_iff] at hscope
  obtain ⟨layer, hlayer, -⟩ := h.effects registration hmem
  rw [hscope, habsent] at hlayer
  cases hlayer

theorem Holds.namedTable_eq (h : store.Holds active) (scope : Option κ) (table : ν) :
    store.namedTable scope table = namedEntries active scope table := by
  unfold namedTable namedEntries
  cases hlayer : store.layerOf scope with
  | none =>
    rw [h.absent hlayer]
    rfl
  | some layer => exact ((h.layers scope layer hlayer).named table).current

theorem Holds.anonymousTable_eq (h : store.Holds active) (scope : Option κ) (table : μ) :
    store.anonymousTable scope table = anonymousValues active scope table := by
  unfold anonymousTable anonymousValues
  cases hlayer : store.layerOf scope with
  | none =>
    rw [h.absent hlayer]
    rfl
  | some layer =>
    exact congrArg (map Prod.snd) ((h.layers scope layer hlayer).anonymous table).current

end Views

end ScopedLayers

structure World (κ σ ν μ V : Type) [DecidableEq κ] where
  parents : ScopeParents κ := .empty
  bindings : List κ := []
  stores : σ → ScopedLayers κ ν μ V := fun _ => {}

variable {κ σ ν μ V : Type} [DecidableEq κ] [DecidableEq σ] [DecidableEq ν] [DecidableEq μ]
  [Fintype ν] [Fintype μ]

/-- The worlds that calls in any order lead to, with the registrations that are active in each
store. A notification that throws is followed by the disposal of its effect. -/
inductive Run (duplicateError : σ → String → String) :
    World κ σ ν μ V → (σ → List (Registration κ ν μ V)) → Prop where
  | start : Run duplicateError {} fun _ => []
  | bind {world : World κ σ ν μ V} {active : σ → List (Registration κ ν μ V)}
      {parents : ScopeParents κ} (before : Run duplicateError world active) (key parent : κ)
      (hok : bindScopeParent world.parents key parent = .ok parents) :
      Run duplicateError { world with parents := parents, bindings := world.bindings ++ [key] } active
  | rebind {world : World κ σ ν μ V} {active : σ → List (Registration κ ν μ V)}
      {parents : ScopeParents κ} (before : Run duplicateError world active) (key next : κ)
      (hbinding : key ∈ world.bindings)
      (hok : linkScopeParent world.parents key next = .ok parents) :
      Run duplicateError { world with parents := parents } active
  | register {world : World κ σ ν μ V} {active : σ → List (Registration κ ν μ V)}
      {changed : ScopedLayers κ ν μ V} {id : Nat} (before : Run duplicateError world active)
      (store : σ) (scope : Option κ) (contribution : Contribution ν μ V)
      (hok : (world.stores store).effect (duplicateError store) scope (.ok contribution) =
        (changed, .ok id)) :
      Run duplicateError { world with stores := Function.update world.stores store changed }
        (Function.update active store (active store ++ [⟨id, scope, contribution⟩]))
  | refused {world : World κ σ ν μ V} {active : σ → List (Registration κ ν μ V)}
      {changed : ScopedLayers κ ν μ V} {error : String} (before : Run duplicateError world active)
      (store : σ) (scope : Option κ) (action : Except String (Contribution ν μ V))
      (herror : (world.stores store).effect (duplicateError store) scope action =
        (changed, .error error)) :
      Run duplicateError { world with stores := Function.update world.stores store changed } active
  | dispose {world : World κ σ ν μ V} {active : σ → List (Registration κ ν μ V)}
      (before : Run duplicateError world active) (store : σ) (id : Nat) :
      Run duplicateError
        { world with stores :=
            Function.update world.stores store ((world.stores store).dispose id) }
        (Function.update active store
          ((active store).filter fun registration => decide (registration.id ≠ id)))

variable {duplicateError : σ → String → String} {world : World κ σ ν μ V}
  {active : σ → List (Registration κ ν μ V)}

theorem Run.holds (run : Run duplicateError world active) (store : σ) :
    (world.stores store).Holds (active store) := by
  induction run generalizing store with
  | start => exact .initial
  | bind _ _ _ _ ih => exact ih store
  | rebind _ _ _ _ _ ih => exact ih store
  | register _ at_ scope contribution hok ih =>
    by_cases hat : store = at_
    · subst hat
      simp only [Function.update_self]
      obtain ⟨own, hown, hholds⟩ := (ih store).effect_ok hok
      cases hown
      exact hholds
    · simp only [Function.update_of_ne hat]
      exact ih store
  | refused _ at_ scope action herror ih =>
    by_cases hat : store = at_
    · subst hat
      simp only [Function.update_self]
      exact (ih store).effect_error herror
    · simp only [Function.update_of_ne hat]
      exact ih store
  | @dispose world active _ at_ id ih =>
    by_cases hat : store = at_
    · subst hat
      simp only [Function.update_self]
      by_cases hactive : ∃ registration ∈ active store, registration.id = id
      · obtain ⟨registration, hmem, rfl⟩ := hactive
        exact (ih store).dispose hmem
      · have hnone : ∀ registration ∈ active store, registration.id ≠ id := fun registration hmem hid =>
          hactive ⟨registration, hmem, hid⟩
        rw [(ih store).dispose_of_not_active hnone, filter_eq_self.mpr]
        · exact ih store
        · intro registration hmem
          simpa using hnone registration hmem
    · simp only [Function.update_of_ne hat]
      exact ih store

/-- After any calls the view of each scope is what is registered along its chain, each disposal
takes out one registration, and a targeted event reaches the listeners of the chain. -/
theorem scopes_exact (run : Run duplicateError world active) :
    (∀ key, ¬ Relation.TransGen (ChildOf (scopeParentOf world.parents)) key key) ∧
    (∀ store scope chain, Ancestry (scopeParentOf world.parents) scope chain →
      (∀ table name, ((world.stores store).merge world.parents scope table).get? name =
        nearest (active store) chain table name) ∧
      ∀ table, (world.stores store).anonymousTable none table ++
          (world.stores store).chainValues world.parents scope table =
        anonymousValues (active store) none table ++
          chain.reverse.flatMap fun key => anonymousValues (active store) (some key) table) ∧
    (∀ store, ((active store).map (·.id)).Nodup ∧
      (∀ registration ∈ active store, ∀ scope,
        (∀ table, ((world.stores store).dispose registration.id).namedTable scope table =
          namedEntries ((active store).filter fun other => decide (other.id ≠ registration.id))
            scope table) ∧
        ∀ table, ((world.stores store).dispose registration.id).anonymousTable scope table =
          anonymousValues ((active store).filter fun other => decide (other.id ≠ registration.id))
            scope table) ∧
      ∀ id, (∀ registration ∈ active store, registration.id ≠ id) →
        (world.stores store).dispose id = world.stores store) ∧
    ∀ {γ : Type} (baseFilter : Option (γ → Bool)) (key : Option κ) (listener : Listener κ γ),
      reaches world.parents (scopeTarget baseFilter key) listener = true ↔
        listener.isGlobal = true ∨
          (∀ admits, baseFilter = some admits → admits listener.ctx = true) ∧
          ∀ tag, listener.scopeOf = some tag → ∃ target, key = some target ∧
            Relation.ReflTransGen (ChildOf (scopeParentOf world.parents)) target tag := by
  refine ⟨scopeParentOf_acyclic world.parents, ?_, ?_, ?_⟩
  · intro store scope chain hchain
    have hholds := run.holds store
    rw [hchain.unique (scopeChainOf_ancestry world.parents scope)]
    refine ⟨?_, ?_⟩
    · intro table name
      rw [ScopedLayers.get?_merge, nearest]
      simp only [hholds.namedTable_eq]
    · intro table
      rw [ScopedLayers.chainValues_eq]
      simp only [hholds.anonymousTable_eq]
  · intro store
    have hholds := run.holds store
    refine ⟨hholds.ids, ?_, fun id hnone => hholds.dispose_of_not_active hnone⟩
    intro registration hmem scope
    have hdisposed := hholds.dispose hmem
    exact ⟨hdisposed.namedTable_eq scope, hdisposed.anonymousTable_eq scope⟩
  · intro γ baseFilter key listener
    rw [reaches_iff]
    have hchain : ∀ tag, tag ∈ scopeChainOf world.parents key ↔ ∃ target, key = some target ∧
        Relation.ReflTransGen (ChildOf (scopeParentOf world.parents)) target tag := by
      intro tag
      cases key with
      | none =>
        have hnil : scopeChainOf world.parents none = [] := rfl
        simp [hnil]
      | some key => simp [mem_scopeChainOf]
    simp only [hchain]

/-- A scope within another that shadows the name of a global entry. -/
theorem scopes_exact_shadowed :
    ∃ (world : World Nat Unit Unit Unit Nat) (active : Unit → List (Registration Nat Unit Unit Nat)),
      (∀ name, ((world.stores ()).merge world.parents (some 1) ()).get? name =
        nearest (active ()) [1, 0] () name) ∧ nearest (active ()) [1, 0] () "search" = some 8 := by
  have begun : Run (fun _ name => name) ({} : World Nat Unit Unit Unit Nat) fun _ => [] := .start
  have run := Run.register (Run.register (Run.bind begun 1 0 rfl)
    () none (.named () "search" 7) rfl) () (some 0) (.named () "search" 8) rfl
  exact ⟨_, _, fun name => ((scopes_exact run).2.1 () (some 1) [1, 0] (.link (.link .root))).1 () name,
    rfl⟩

/-- An event targeted at a scope reaches a listener without a tag, which no chain has. -/
theorem untagged_reached :
    ¬ ∀ (parents : ScopeParents Nat) (target : Nat) (listener : Listener Nat Unit),
      reaches parents (scopeTarget none (some target)) listener = true ↔
        ∃ tag, listener.scopeOf = some tag ∧ tag ∈ scopeChainOf parents (some target) := by
  intro hclaim
  obtain ⟨tag, htag, -⟩ := (hclaim .empty 0 ⟨none, (), false⟩).mp rfl
  cases htag

end DshKernel.Scope
