import DshKernel.Js.Utf16
import DshKernel.Scope.ScopeChain
import DshKernel.Tools.Registry

/-!
# What the scopes of a chain see

Registrations, restrictions and presentations of any scope, in any order: the view of a scope is
what it registers itself, and of what it inherits that which every layer of its chain admits.
-/

namespace DshKernel.Tools

open Js Lib Scope List Registry OrderedMap

section Layers

def ToolLayer.isEmpty (layer : ToolLayer) : Bool :=
  layer.tools.isEmpty && layer.restrictions.isEmpty && layer.mode.isNone

namespace Registry

def layerAt (registry : Registry) : Option Nat → Option ToolLayer
  | none => some registry.globalLayer
  | some key => registry.scopedLayers.lookup key

def putLayer (registry : Registry) (scope : Option Nat) (layer : ToolLayer) : Registry :=
  match scope with
  | none => { registry with globalLayer := layer }
  | some key =>
    let others := registry.scopedLayers.filter fun entry => decide (entry.1 ≠ key)
    { registry with scopedLayers := if layer.isEmpty then others else (key, layer) :: others }

end Registry

end Layers

structure ToolView where
  visible : OrderedMap String ToolDefinition
  knownNames : List String
  restrictableNames : List String

structure ToolRuntime where
  registry : Registry
  parents : ScopeParents Nat := .empty

namespace ToolRuntime

variable (runtime : ToolRuntime)

def chain (scope : Option Nat) : Tools.Scope := (scopeChainOf runtime.parents scope).reverse

def view (scope : Option Nat) : ToolView :=
  let layers := runtime.registry.chainLayers (runtime.chain scope)
  let own := scope.bind fun key => runtime.registry.scopedLayers.lookup key
  let enclosing := runtime.registry.chainLayers
    ((runtime.chain scope).filter fun key => decide (some key ≠ scope))
  let inherited := enclosing.foldl (fun inherited layer => inherited.setAll layer.tools)
    (empty.setAll runtime.registry.globalLayer.tools)
  let ownTools := (own.map (·.tools)).getD []
  let admitted := inherited.entries.filter fun entry => layers.all (·.admits entry.1)
  let visible := (empty.setAll admitted).setAll ownTools
  { visible :=
      if runtime.registry.modeFor (runtime.chain scope) ≠ .native then
        visible.set runCodeName runtime.registry.transport
      else visible
    knownNames := (inherited.setAll ownTools).keys
    restrictableNames := inherited.keys }

def duplicateError (scope : Option Nat) (name : String) : String :=
  match scope with
  | none => s!"tool \"{name}\" is already registered (for a per-agent variant, " ++
      "register through that agent's `agent.ctx` instead)"
  | some _ => s!"tool \"{name}\" is already registered in this scope"

def register (scope : Option Nat) (definition : ToolDefinition) : Except String ToolRuntime :=
  let name := definition.name
  if name = runCodeName then
    .error (s!"tool name \"{runCodeName}\" is reserved for the PTC mode presentation transport " ++
      "and cannot be registered or shadowed")
  else
    let layer := (runtime.registry.layerAt scope).getD {}
    if (layer.tools.lookup name).isSome then .error (duplicateError scope name)
    else
      .ok { runtime with
        registry := runtime.registry.putLayer scope
          { layer with tools := layer.tools ++ [(name, definition)] } }

def quoted (name : String) : String := "\"" ++ name ++ "\""

/-- `[...known].sort()` -/
def sortedNames (names : List String) : List String :=
  names.mergeSort fun a b => decide (stringUnits a ≤ stringUnits b)

def restrict (scope : Option Nat) (filter : ToolRestriction) : Except String ToolRuntime :=
  if scope = none then
    .error ("tools.restrict() requires a scoped context (agent.ctx): a context-global restriction " ++
      "would mask every agent — deny the tool for the intended agent instead")
  else if filter.allow = none ∧ filter.deny = none then
    .error ("tools.restrict(\x7b\x7d) is a no-op: pass `allow` and/or `deny` (an empty filter is " ++
      "almost always a materialized-empty-config bug)")
  else
    let names := filter.allow.getD [] ++ filter.deny.getD []
    if names.contains runCodeName then
      .error (s!"tools.restrict() cannot name reserved PTC mode presentation transport " ++
        s!"\"{runCodeName}\"; restrict end-capability tools instead")
    else
      let known := (runtime.view scope).restrictableNames
      let unknown := names.filter fun name => !known.contains name
      if 0 < unknown.length then
        let plural := if 1 < unknown.length then "s" else ""
        let listed := ", ".intercalate (sortedNames known)
        let shown := if listed = "" then "(none)" else listed
        .error (s!"tools.restrict() names unknown global tool{plural} " ++
          ", ".intercalate (unknown.map quoted) ++ s!"; known global tools: {shown}")
      else
        let layer := (runtime.registry.layerAt scope).getD {}
        .ok { runtime with
          registry := runtime.registry.putLayer scope
            { layer with restrictions := layer.restrictions ++ [filter] } }

def modeName : ToolPresentationMode → String
  | .native => "native"
  | .ptc => "ptc"
  | .both => "both"

def presentAs (scope : Option Nat) (mode : ToolPresentationMode) : Except String ToolRuntime :=
  if scope = none then
    .error ("tools.presentAs() requires a scoped context (agent.ctx): a context-global " ++
      "presentation is the `mode` config field on the tools row")
  else
    let layer := (runtime.registry.layerAt scope).getD {}
    match layer.mode with
    | some declared =>
      .error (s!"tools.presentAs(\"{modeName mode}\") conflicts with \"{modeName declared}\" " ++
        "already declared for this scope; one composition selects one presentation")
    | none =>
      .ok { runtime with
        registry := runtime.registry.putLayer scope { layer with mode := some mode } }

inductive Disposal where
  | tool (name : String)
  | restriction (index : Nat)
  | presentation

def Disposal.apply (layer : ToolLayer) : Disposal → ToolLayer
  | .tool name =>
    { layer with tools := layer.tools.filter fun entry => decide (entry.1 ≠ name) }
  | .restriction index => { layer with restrictions := layer.restrictions.eraseIdx index }
  | .presentation => { layer with mode := none }

def dispose (scope : Option Nat) (disposal : Disposal) : ToolRuntime :=
  match runtime.registry.layerAt scope with
  | none => runtime
  | some layer =>
    { runtime with registry := runtime.registry.putLayer scope (disposal.apply layer) }

end ToolRuntime

/-- The runtimes that calls in any order lead to. A call that throws changes nothing. -/
inductive Run (transport : ToolDefinition) (defaultMode : ToolPresentationMode) :
    ToolRuntime → Prop where
  | start : Run transport defaultMode ⟨{ transport, defaultMode }, .empty⟩
  | register {runtime next : ToolRuntime} (before : Run transport defaultMode runtime)
      (scope : Option Nat) (definition : ToolDefinition)
      (hok : runtime.register scope definition = .ok next) : Run transport defaultMode next
  | restrict {runtime next : ToolRuntime} (before : Run transport defaultMode runtime)
      (scope : Option Nat) (filter : ToolRestriction)
      (hok : runtime.restrict scope filter = .ok next) : Run transport defaultMode next
  | presentAs {runtime next : ToolRuntime} (before : Run transport defaultMode runtime)
      (scope : Option Nat) (mode : ToolPresentationMode)
      (hok : runtime.presentAs scope mode = .ok next) : Run transport defaultMode next
  | dispose {runtime : ToolRuntime} (before : Run transport defaultMode runtime)
      (scope : Option Nat) (disposal : ToolRuntime.Disposal) :
      Run transport defaultMode (runtime.dispose scope disposal)
  | bind {runtime : ToolRuntime} {parents : ScopeParents Nat}
      (before : Run transport defaultMode runtime) (key parent : Nat)
      (hok : bindScopeParent runtime.parents key parent = .ok parents) :
      Run transport defaultMode { runtime with parents := parents }
  | rebind {runtime : ToolRuntime} {parents : ScopeParents Nat}
      (before : Run transport defaultMode runtime) (key parent : Nat)
      (hok : linkScopeParent runtime.parents key parent = .ok parents) :
      Run transport defaultMode { runtime with parents := parents }

section WellFormed

variable {registry : Registry} {layer : ToolLayer} {name : String}

/-- What registration keeps up in every layer: one tool under each name, and none under that of
the transport. -/
structure ToolLayer.WellFormed (layer : ToolLayer) : Prop where
  nodup : (layer.tools.map Prod.fst).Nodup
  reserved : runCodeName ∉ layer.tools.map Prod.fst

def Registry.WellFormed (registry : Registry) : Prop :=
  ∀ scope layer, registry.layerAt scope = some layer → layer.WellFormed

theorem lookup_eq_none_of_not_mem {V : Type} {entries : List (String × V)}
    (h : name ∉ entries.map Prod.fst) : entries.lookup name = none := by
  rw [Option.eq_none_iff_forall_ne_some]
  intro found hfound
  exact h (mem_map_of_mem (mem_of_lookup_eq_some hfound))

theorem lookup_filter_ne {V : Type} (entries : List (Nat × V)) (key other : Nat) :
    (entries.filter fun entry => decide (entry.1 ≠ key)).lookup other =
      if other = key then none else entries.lookup other := by
  rw [lookup_filter fun at_ => decide (at_ ≠ key)]
  by_cases hother : other = key
  · simp [hother]
  · simp [hother]

theorem layerAt_putLayer {scope other : Option Nat} {found : ToolLayer}
    (h : (registry.putLayer scope layer).layerAt other = some found) :
    found = layer ∨ registry.layerAt other = some found := by
  cases scope with
  | none =>
    cases other with
    | none => exact Or.inl (Option.some.inj h).symm
    | some key => exact Or.inr h
  | some key =>
    cases other with
    | none => exact Or.inr h
    | some at_ =>
      simp only [layerAt, putLayer] at h
      by_cases hempty : layer.isEmpty
      · rw [if_pos hempty, lookup_filter_ne] at h
        split at h
        · cases h
        · exact Or.inr h
      · rw [if_neg hempty, lookup_cons] at h
        by_cases hat : at_ = key
        · subst hat
          simp only [beq_self_eq_true] at h
          exact Or.inl (Option.some.inj h).symm
        · rw [beq_false_of_ne hat] at h
          simp only [lookup_filter_ne, if_neg hat] at h
          exact Or.inr h

theorem Registry.WellFormed.putLayer (h : registry.WellFormed) (hlayer : layer.WellFormed)
    (scope : Option Nat) : (registry.putLayer scope layer).WellFormed := by
  intro other found hfound
  rcases layerAt_putLayer hfound with heq | hkept
  · rw [heq]
    exact hlayer
  · exact h other found hkept

theorem ToolLayer.WellFormed.empty : ({} : ToolLayer).WellFormed := ⟨nodup_nil, not_mem_nil⟩

theorem Registry.WellFormed.layerAt (h : registry.WellFormed) (scope : Option Nat) :
    ((registry.layerAt scope).getD {}).WellFormed := by
  cases hlayer : registry.layerAt scope with
  | none => exact .empty
  | some layer => exact h scope layer hlayer

theorem ToolLayer.WellFormed.add (h : layer.WellFormed) {definition : ToolDefinition}
    (hname : name ≠ runCodeName) (hfresh : layer.tools.lookup name = none) :
    ({ layer with tools := layer.tools ++ [(name, definition)] } : ToolLayer).WellFormed := by
  have hnew : name ∉ layer.tools.map Prod.fst := by
    intro hmem
    obtain ⟨entry, hentry, hkey⟩ := mem_map.mp hmem
    have hmem' : (name, entry.2) ∈ layer.tools := by
      rw [← hkey]
      exact hentry
    have hfound := lookup_eq_some_of_mem h.nodup hmem'
    rw [hfresh] at hfound
    cases hfound
  constructor
  · simp only [map_append, map_cons, map_nil]
    apply nodup_append.mpr
    refine ⟨h.nodup, by simp, ?_⟩
    intro key hkey other hother
    rw [mem_singleton] at hother
    subst hother
    intro heq
    exact hnew (heq ▸ hkey)
  · simp only [map_append, map_cons, map_nil, mem_append, mem_singleton]
    rintro (hold | hsame)
    · exact h.reserved hold
    · exact hname hsame.symm

theorem ToolLayer.WellFormed.dispose (h : layer.WellFormed) (disposal : ToolRuntime.Disposal) :
    (disposal.apply layer).WellFormed := by
  cases disposal with
  | tool name =>
    have hsub : ((layer.tools.filter fun entry => decide (entry.1 ≠ name)).map Prod.fst).Sublist
        (layer.tools.map Prod.fst) := filter_sublist.map _
    exact ⟨hsub.nodup h.nodup, fun hmem => h.reserved (hsub.subset hmem)⟩
  | restriction index => exact ⟨h.nodup, h.reserved⟩
  | presentation => exact ⟨h.nodup, h.reserved⟩

variable {transport : ToolDefinition} {defaultMode : ToolPresentationMode} {runtime : ToolRuntime}

theorem Run.wellFormed (run : Run transport defaultMode runtime) : runtime.registry.WellFormed := by
  induction run with
  | start =>
    intro scope layer hlayer
    cases scope with
    | none =>
      cases hlayer
      exact .empty
    | some key => cases hlayer
  | @register runtime next before scope definition hok ih =>
    unfold ToolRuntime.register at hok
    simp only at hok
    split at hok
    · cases hok
    · rename_i hname
      split at hok
      · cases hok
      · rename_i hfresh
        cases hok
        have hnone : ((runtime.registry.layerAt scope).getD {}).tools.lookup definition.name = none :=
          Option.not_isSome_iff_eq_none.mp hfresh
        exact ih.putLayer ((ih.layerAt scope).add hname hnone) scope
  | @restrict runtime next before scope filter hok ih =>
    unfold ToolRuntime.restrict at hok
    simp only at hok
    split at hok
    · cases hok
    · split at hok
      · cases hok
      · split at hok
        · cases hok
        · split at hok
          · cases hok
          · cases hok
            have hlayer := ih.layerAt scope
            apply ih.putLayer
            exact ⟨hlayer.nodup, hlayer.reserved⟩
  | @presentAs runtime next before scope mode hok ih =>
    unfold ToolRuntime.presentAs at hok
    simp only at hok
    split at hok
    · cases hok
    · split at hok
      · cases hok
      · cases hok
        have hlayer := ih.layerAt scope
        apply ih.putLayer
        exact ⟨hlayer.nodup, hlayer.reserved⟩
  | @dispose runtime before scope disposal ih =>
    unfold ToolRuntime.dispose
    split
    · exact ih
    · rename_i layer hlayer
      exact ih.putLayer ((ih scope layer hlayer).dispose disposal) scope
  | bind _ _ _ _ ih => exact ih
  | rebind _ _ _ _ ih => exact ih

end WellFormed

section Views

variable {runtime : ToolRuntime} {name : String}

namespace ToolRuntime

def own (runtime : ToolRuntime) (scope : Option Nat) (name : String) : Option ToolDefinition :=
  (scope.bind fun key => runtime.registry.scopedLayers.lookup key).bind (·.tools.lookup name)

def restrictionsAdmit (runtime : ToolRuntime) (scope : Option Nat) (name : String) : Bool :=
  (scope.bind fun key => runtime.registry.scopedLayers.lookup key).all (·.admits name)

def chainAdmits (runtime : ToolRuntime) (scope : Option Nat) (name : String) : Bool :=
  (scopeChainOf runtime.parents scope).all fun key => runtime.restrictionsAdmit (some key) name

def sees (runtime : ToolRuntime) (scope : Option Nat) (name : String) : Option ToolDefinition :=
  (runtime.view scope).visible.get? name

end ToolRuntime

theorem scopeChainOf_none (parents : ScopeParents Nat) : scopeChainOf parents none = [] := by
  have hchain := scopeChainOf_ancestry parents none
  exact hchain.unique .root

theorem scopeChainOf_some (parents : ScopeParents Nat) (key : Nat) :
    scopeChainOf parents (some key) = key :: scopeChainOf parents (scopeParentOf parents key) :=
  (scopeChainOf_ancestry parents (some key)).unique
    (.link (scopeChainOf_ancestry parents (scopeParentOf parents key)))

theorem chain_some (runtime : ToolRuntime) (key : Nat) :
    runtime.chain (some key) =
      runtime.chain (scopeParentOf runtime.parents key) ++ [key] := by
  rw [ToolRuntime.chain, scopeChainOf_some, reverse_cons]
  rfl

theorem chain_filter (runtime : ToolRuntime) (scope : Option Nat) :
    ((runtime.chain scope).filter fun key => decide (some key ≠ scope)) =
      (runtime.chain scope).dropLast := by
  cases scope with
  | none => simp [ToolRuntime.chain, scopeChainOf_none]
  | some key =>
    have hnodup := (scopeChainOf_ancestry runtime.parents (some key)).nodup
    rw [scopeChainOf_some, nodup_cons] at hnodup
    rw [chain_some, dropLast_concat, filter_append, filter_eq_self.mpr]
    · simp
    · intro above habove
      rw [ToolRuntime.chain, mem_reverse] at habove
      have hne : above ≠ key := fun heq => hnodup.1 (heq ▸ habove)
      simpa using hne

theorem peek_chain (runtime : ToolRuntime) (scope : Option Nat) :
    runtime.registry.peek (runtime.chain scope) =
      scope.bind fun key => runtime.registry.scopedLayers.lookup key := by
  cases scope with
  | none => simp [ToolRuntime.chain, scopeChainOf_none, peek]
  | some key => simp [chain_some, peek]

theorem get?_foldl_setAll (layers : List ToolLayer)
    (hlayers : ∀ layer ∈ layers, layer.WellFormed) (inherited : OrderedMap String ToolDefinition) :
    (layers.foldl (fun inherited layer => inherited.setAll layer.tools) inherited).get? name =
      (layers.reverse.findSome? (·.tools.lookup name)).or (inherited.get? name) := by
  induction layers generalizing inherited with
  | nil => rfl
  | cons layer rest ih =>
    rw [forall_mem_cons] at hlayers
    rw [foldl_cons, ih hlayers.2, get?_setAll hlayers.1.nodup, reverse_cons,
      findSome?_append, findSome?_singleton, Option.or_assoc]

theorem chainLayers_wellFormed (h : runtime.registry.WellFormed) (scope : Tools.Scope) :
    ∀ layer ∈ runtime.registry.chainLayers scope, layer.WellFormed := by
  intro layer hlayer
  obtain ⟨key, -, hkey⟩ := mem_filterMap.mp hlayer
  exact h (some key) layer hkey

theorem sees_eq_get (h : runtime.registry.WellFormed) (scope : Option Nat) (name : String) :
    runtime.sees scope name = runtime.registry.get name (runtime.chain scope) := by
  simp only [ToolRuntime.sees, ToolRuntime.view, Registry.get, chain_filter, peek_chain]
  generalize hown : (scope.bind fun key => runtime.registry.scopedLayers.lookup key) = own
  generalize hinherited : (runtime.registry.chainLayers (runtime.chain scope).dropLast).foldl
    (fun inherited layer => inherited.setAll layer.tools)
    (empty.setAll runtime.registry.globalLayer.tools) = inherited
  generalize hlayers : runtime.registry.chainLayers (runtime.chain scope) = layers
  have hlookup : inherited.get? name = runtime.registry.inherited (runtime.chain scope) name := by
    rw [← hinherited, get?_foldl_setAll _ (chainLayers_wellFormed h _),
      get?_setAll (h none _ rfl).nodup]
    change Option.or _ (Option.or _ none) = _
    rw [Option.or_none]
    rfl
  have hadmitted : ((inherited.entries.filter fun entry => layers.all (·.admits entry.1)).map
      Prod.fst).Nodup := (filter_sublist.map Prod.fst).nodup inherited.nodup
  have hownNodup : (((own.map (·.tools)).getD []).map Prod.fst).Nodup := by
    cases own with
    | none => exact nodup_nil
    | some layer =>
      cases scope with
      | none => cases hown
      | some key => exact (h (some key) layer hown).nodup
  have hownTools : ((own.map (·.tools)).getD []).lookup name = own.bind (·.tools.lookup name) := by
    cases own <;> rfl
  have hvisible : ((empty.setAll
      (inherited.entries.filter fun entry => layers.all (·.admits entry.1))).setAll
        ((own.map (·.tools)).getD [])).get? name =
      (own.bind (·.tools.lookup name)).or
        (if layers.all (·.admits name) then
          runtime.registry.inherited (runtime.chain scope) name else none) := by
    rw [get?_setAll hownNodup, get?_setAll hadmitted, hownTools,
      lookup_filter fun name => layers.all (·.admits name)]
    change Option.or _ (Option.or (if _ then inherited.get? name else none) none) = _
    rw [Option.or_none, hlookup]
  by_cases hmode : runtime.registry.modeFor (runtime.chain scope) ≠ .native
  · rw [if_pos hmode, get?_set, hvisible]
    simp only [hmode, ne_eq, not_false_eq_true, true_and]
  · have hboth : ¬(runtime.registry.modeFor (runtime.chain scope) ≠ .native ∧ name = runCodeName) :=
      fun hboth => hmode hboth.1
    rw [if_neg hmode, hvisible, if_neg hboth]

theorem chainAdmits_eq (runtime : ToolRuntime) (scope : Option Nat) (name : String) :
    (runtime.registry.chainLayers (runtime.chain scope)).all (·.admits name) =
      runtime.chainAdmits scope name := by
  rw [chainLayers, ToolRuntime.chain, ToolRuntime.chainAdmits, filterMap_reverse,
    all_reverse]
  induction scopeChainOf runtime.parents scope with
  | nil => rfl
  | cons key rest ih =>
    rw [all_cons, ← ih, filterMap_cons, ToolRuntime.restrictionsAdmit, Option.bind_some]
    cases runtime.registry.scopedLayers.lookup key with
    | none => simp
    | some layer => simp

theorem chainAdmits_some (runtime : ToolRuntime) (key : Nat) (name : String) :
    runtime.chainAdmits (some key) name =
      (runtime.restrictionsAdmit (some key) name &&
        runtime.chainAdmits (scopeParentOf runtime.parents key) name) := by
  rw [ToolRuntime.chainAdmits, scopeChainOf_some, all_cons]
  rfl

theorem inherited_some (runtime : ToolRuntime) (key : Nat) (name : String) :
    runtime.registry.inherited (runtime.chain (some key)) name =
      (runtime.own (scopeParentOf runtime.parents key) name).or
        (runtime.registry.inherited (runtime.chain (scopeParentOf runtime.parents key)) name) := by
  rw [inherited, chain_some, dropLast_concat]
  cases hparent : scopeParentOf runtime.parents key with
  | none =>
    simp [ToolRuntime.chain, scopeChainOf_none, ToolRuntime.own, chainLayers,
      inherited]
  | some parent =>
    rw [inherited, chain_some, dropLast_concat, chainLayers,
      filterMap_append, reverse_append, findSome?_append, Option.or_assoc]
    congr 1
    simp only [ToolRuntime.own, Option.bind_some, filterMap_cons, filterMap_nil]
    cases runtime.registry.scopedLayers.lookup parent with
    | none => rfl
    | some layer => simp

theorem sees_of_ne (h : runtime.registry.WellFormed) (scope : Option Nat)
    (hname : name ≠ runCodeName) :
    runtime.sees scope name = (runtime.own scope name).or
      (if runtime.chainAdmits scope name then
        runtime.registry.inherited (runtime.chain scope) name else none) := by
  rw [sees_eq_get h, Registry.get, if_neg fun hboth => hname hboth.2, peek_chain, chainAdmits_eq]
  rfl

theorem sees_some (h : runtime.registry.WellFormed) (key : Nat) (hname : name ≠ runCodeName) :
    runtime.sees (some key) name = (runtime.own (some key) name).or
      (if runtime.chainAdmits (some key) name then
        runtime.sees (scopeParentOf runtime.parents key) name else none) := by
  rw [sees_of_ne h _ hname]
  congr 1
  by_cases hadmits : runtime.chainAdmits (some key) name
  · have hparent : runtime.chainAdmits (scopeParentOf runtime.parents key) name = true := by
      rw [chainAdmits_some, Bool.and_eq_true] at hadmits
      exact hadmits.2
    rw [if_pos hadmits, if_pos hadmits, inherited_some, sees_of_ne h _ hname, if_pos hparent]
  · rw [if_neg hadmits, if_neg hadmits]

theorem own_runCodeName (h : runtime.registry.WellFormed) (scope : Option Nat) :
    runtime.own scope runCodeName = none := by
  cases scope with
  | none => rfl
  | some key =>
    rw [ToolRuntime.own, Option.bind_some]
    cases hlayer : runtime.registry.scopedLayers.lookup key with
    | none => rfl
    | some layer => exact lookup_eq_none_of_not_mem (h (some key) layer hlayer).reserved

theorem sees_runCodeName (h : runtime.registry.WellFormed) (scope : Option Nat) :
    runtime.sees scope runCodeName =
      if runtime.registry.modeFor (runtime.chain scope) ≠ .native then
        some runtime.registry.transport else none := by
  rw [sees_eq_get h, Registry.get, peek_chain]
  by_cases hmode : runtime.registry.modeFor (runtime.chain scope) ≠ .native
  · rw [if_pos ⟨hmode, rfl⟩, if_pos hmode]
  · have hboth : ¬(runtime.registry.modeFor (runtime.chain scope) ≠ .native ∧
        runCodeName = runCodeName) := fun hboth => hmode hboth.1
    have hinherited : runtime.registry.inherited (runtime.chain scope) runCodeName = none := by
      rw [inherited, lookup_eq_none_of_not_mem (h none _ rfl).reserved, Option.or_none,
        findSome?_eq_none_iff]
      intro layer hlayer
      rw [mem_reverse] at hlayer
      exact lookup_eq_none_of_not_mem (chainLayers_wellFormed h _ layer hlayer).reserved
    have hown := own_runCodeName h scope
    rw [ToolRuntime.own] at hown
    rw [if_neg hboth, if_neg hmode, hown, hinherited, ite_self]
    rfl

/-- After any calls a scope sees its own tools, and those of its parent's that every restriction of
the chain admits, its parent's own ones included; no scope below widens a restriction. -/
theorem view_composes {transport : ToolDefinition} {defaultMode : ToolPresentationMode}
    (run : Run transport defaultMode runtime) :
    (∀ scope, runtime.sees scope runCodeName =
      if runtime.registry.modeFor (runtime.chain scope) ≠ .native then
        some runtime.registry.transport else none) ∧
    ∀ name, name ≠ runCodeName →
      runtime.sees none name = runtime.registry.globalLayer.tools.lookup name ∧
      ∀ key,
        runtime.sees (some key) name = (runtime.own (some key) name).or
          (if runtime.restrictionsAdmit (some key) name ∧
              runtime.chainAdmits (scopeParentOf runtime.parents key) name then
            runtime.sees (scopeParentOf runtime.parents key) name else none) ∧
        (runtime.sees (some key) name = (runtime.own (some key) name).or
            (if runtime.restrictionsAdmit (some key) name then
              runtime.sees (scopeParentOf runtime.parents key) name else none) ↔
          ¬(runtime.own (some key) name = none ∧ runtime.restrictionsAdmit (some key) name ∧
            (runtime.own (scopeParentOf runtime.parents key) name).isSome ∧
            runtime.chainAdmits (scopeParentOf runtime.parents key) name = false)) ∧
        ∀ below, key ∈ scopeChainOf runtime.parents (some below) →
          runtime.restrictionsAdmit (some key) name = false →
          runtime.own (some below) name = none → runtime.sees (some below) name = none := by
  have h := run.wellFormed
  refine ⟨sees_runCodeName h, ?_⟩
  intro name hname
  refine ⟨?_, ?_⟩
  · have hadmits : runtime.chainAdmits none name = true := by
      rw [ToolRuntime.chainAdmits, scopeChainOf_none]
      rfl
    rw [sees_of_ne h _ hname, if_pos hadmits, inherited, ToolRuntime.chain,
      scopeChainOf_none]
    rfl
  intro key
  have hsees : runtime.sees (some key) name = (runtime.own (some key) name).or
      (if runtime.restrictionsAdmit (some key) name ∧
          runtime.chainAdmits (scopeParentOf runtime.parents key) name then
        runtime.sees (scopeParentOf runtime.parents key) name else none) := by
    rw [sees_some h key hname, chainAdmits_some]
    simp only [Bool.and_eq_true]
  refine ⟨hsees, ?_, ?_⟩
  · rw [hsees]
    cases hown : runtime.own (some key) name with
    | some tool => simp
    | none =>
      by_cases hadmits : runtime.restrictionsAdmit (some key) name
      · by_cases hchain : runtime.chainAdmits (scopeParentOf runtime.parents key) name
        · simp [hadmits, hchain]
        · have hparent := sees_of_ne h (scopeParentOf runtime.parents key) hname
          rw [if_neg hchain, Option.or_none] at hparent
          rw [hparent]
          cases runtime.own (scopeParentOf runtime.parents key) name with
          | none => simp [hadmits, hchain]
          | some tool => simp [hadmits, hchain]
      · simp [hadmits]
  · intro below hbelow hmasked hown
    have hchain : runtime.chainAdmits (some below) name = false := by
      rw [ToolRuntime.chainAdmits, all_eq_false]
      exact ⟨key, hbelow, by rw [hmasked]; exact Bool.false_ne_true⟩
    rw [sees_of_ne h _ hname, hown, hchain]
    rfl

def searchTool (key : Nat) : ToolDefinition := ⟨key, "search", .null, false, false⟩

def runCodeTool : ToolDefinition := ⟨0, runCodeName, .null, false, false⟩

/-- A scope that registers a tool of its own and denies the global one of that name, and a scope
within it. -/
def shadowingRuntime : ToolRuntime where
  registry :=
    { globalLayer := { tools := [("search", searchTool 1)] }
      scopedLayers :=
        [(0, { tools := [("search", searchTool 2)], restrictions := [{ deny := some ["search"] }] })]
      transport := runCodeTool }
  parents := (linkScopeParent .empty 1 0).toOption.getD .empty

theorem shadowingRuntime_run : Run runCodeTool .native shadowingRuntime :=
  .bind (.restrict (.register (.register .start none (searchTool 1) rfl) (some 0) (searchTool 2) rfl)
    (some 0) { deny := some ["search"] } rfl) 1 0 rfl

theorem view_composes_shadowing :
    shadowingRuntime.sees (some 0) "search" = (shadowingRuntime.own (some 0) "search").or
      (if shadowingRuntime.restrictionsAdmit (some 0) "search" ∧
          shadowingRuntime.chainAdmits (scopeParentOf shadowingRuntime.parents 0) "search" then
        shadowingRuntime.sees (scopeParentOf shadowingRuntime.parents 0) "search" else none) :=
  (((view_composes shadowingRuntime_run).2 "search" (by decide)).2 0).1

/-- A scope sees the tool that it registers itself, and a scope within it, which restricts nothing
and registers nothing, does not. -/
theorem own_tool_masked_below :
    Run runCodeTool .native shadowingRuntime ∧
    scopeParentOf shadowingRuntime.parents 1 = some 0 ∧
    shadowingRuntime.registry.layerAt (some 1) = none ∧
    (shadowingRuntime.own (some 0) "search").map (·.key) = some 2 ∧
    (shadowingRuntime.sees (some 0) "search").map (·.key) = some 2 ∧
    (shadowingRuntime.sees (some 1) "search").map (·.key) = none := by
  refine ⟨shadowingRuntime_run, rfl, rfl, rfl, rfl, rfl⟩

end Views

end DshKernel.Tools
