import DshKernel.Lib.ParentForest
import Mathlib.Tactic.ByContra

/-!
# Chains of scopes

The enclosing scope of each scope key, the binding that may move it, and the routing of events
along the chain.
-/

namespace DshKernel.Scope

open Lib

variable {κ : Type} [DecidableEq κ]

/-- `scopeParents`, whose links every consumer walks to the root. -/
structure ScopeParents (κ : Type) [DecidableEq κ] where
  table : OrderedMap κ κ
  forest : Forest table.get?

namespace ScopeParents

def empty : ScopeParents κ := ⟨.empty, .of_roots fun _ => rfl⟩

end ScopeParents

def scopeParentOf (parents : ScopeParents κ) (key : κ) : Option κ := parents.table.get? key

/-- The walk ends, so that one step more than there are links is enough for it. -/
def scopeChainOf (parents : ScopeParents κ) (key : Option κ) : List κ :=
  walk parents.table.get? (parents.table.keys.length + 1) key

theorem scopeChainOf_ancestry (parents : ScopeParents κ) (key : Option κ) :
    Ancestry (scopeParentOf parents) key (scopeChainOf parents key) := by
  have hchain : ∃ chain, Ancestry parents.table.get? key chain := by
    cases key with
    | none => exact ⟨[], .root⟩
    | some key => exact parents.forest key
  obtain ⟨chain, hchain⟩ := hchain
  have hlength : chain.length ≤ parents.table.keys.length + 1 := by
    apply hchain.length_le
    intro key hparent
    by_contra hkey
    exact hparent (OrderedMap.get?_eq_none.mpr hkey)
  rw [scopeChainOf, hchain.walk_eq hlength]
  exact hchain

theorem mem_scopeChainOf {parents : ScopeParents κ} {key above : κ} :
    above ∈ scopeChainOf parents (some key) ↔
      Relation.ReflTransGen (ChildOf (scopeParentOf parents)) key above :=
  (scopeChainOf_ancestry parents (some key)).mem_iff_reaches

def linkScopeParent (parents : ScopeParents κ) (key parent : κ) : Except String (ScopeParents κ) :=
  if h : key ∈ scopeChainOf parents (some parent) then
    .error "dsh-scope: scope parent link would form a cycle"
  else
    .ok ⟨parents.table.set key parent,
      parents.forest.link (scopeChainOf_ancestry parents (some parent)) h
        (by rw [OrderedMap.get?_set, if_pos rfl])
        (fun other hother => by rw [OrderedMap.get?_set, if_neg hother])⟩

def bindScopeParent (parents : ScopeParents κ) (key parent : κ) : Except String (ScopeParents κ) :=
  if (scopeParentOf parents key).isSome then
    .error ("dsh-scope: scope key is already bound to a parent; " ++
      "re-linking requires the binding returned by the original bind")
  else linkScopeParent parents key parent

section Links

variable {parents parents' : ScopeParents κ} {key parent : κ}

theorem scopeParentOf_acyclic (parents : ScopeParents κ) (key : κ) :
    ¬ Relation.TransGen (ChildOf (scopeParentOf parents)) key key :=
  parents.forest.acyclic key

end Links

structure Listener (κ γ : Type) where
  /-- The nearest scope tag that the context inherits. -/
  scopeOf : Option κ
  /-- What the filter of the subject looks at. -/
  ctx : γ
  /-- Registered with `{ global: true }`. -/
  isGlobal : Bool := false

/-- The receiver built by `scopeTarget`: the filter of the subject, if it has one, and the key. -/
structure Carrier (κ γ : Type) where
  baseFilter : Option (γ → Bool)
  key : Option κ

def scopeTarget {γ : Type} (baseFilter : Option (γ → Bool)) (key : Option κ) : Carrier κ γ :=
  ⟨baseFilter, key⟩

/-- `carrier[Context.filter](ctx)`, which walks the chain when the event is dispatched. -/
def Carrier.filter {γ : Type} (parents : ScopeParents κ) (carrier : Carrier κ γ)
    (listener : Listener κ γ) : Bool :=
  if carrier.baseFilter.any fun admits => !admits listener.ctx then false
  else
    match listener.scopeOf with
    | none => true
    | some tag => (scopeChainOf parents carrier.key).contains tag

/-- Whether `dispatch` keeps the hook of a listener. -/
def reaches {γ : Type} (parents : ScopeParents κ) (carrier : Carrier κ γ)
    (listener : Listener κ γ) : Bool :=
  listener.isGlobal || carrier.filter parents listener

theorem reaches_iff {γ : Type} {parents : ScopeParents κ} {baseFilter : Option (γ → Bool)}
    {key : Option κ} {listener : Listener κ γ} :
    reaches parents (scopeTarget baseFilter key) listener = true ↔
      listener.isGlobal = true ∨
        (∀ admits, baseFilter = some admits → admits listener.ctx = true) ∧
        ∀ tag, listener.scopeOf = some tag → tag ∈ scopeChainOf parents key := by
  have hbase : (baseFilter.any fun admits => !admits listener.ctx) = false ↔
      ∀ admits, baseFilter = some admits → admits listener.ctx = true := by
    cases baseFilter with
    | none => simp
    | some admits => simp
  have htag : (match listener.scopeOf with
      | none => true
      | some tag => (scopeChainOf parents key).contains tag) = true ↔
      ∀ tag, listener.scopeOf = some tag → tag ∈ scopeChainOf parents key := by
    cases listener.scopeOf with
    | none => simp
    | some tag => simp
  simp only [reaches, Bool.or_eq_true, Carrier.filter, scopeTarget]
  rw [← hbase, ← htag]
  by_cases hrefused : (baseFilter.any fun admits => !admits listener.ctx) = true
  · simp [hrefused]
  · rw [Bool.not_eq_true] at hrefused
    simp only [hrefused, Bool.false_eq_true, if_false, true_and]

end DshKernel.Scope
