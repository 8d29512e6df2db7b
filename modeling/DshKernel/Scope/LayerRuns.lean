import DshKernel.Scope.LayerStore

/-!
# What layered stores hold

Over every order of registrations and disposals the tables of a store hold the active
registrations, one by one and in their order, and the view of a scope is made up of those along
its chain.
-/

namespace DshKernel.Scope

open Lib

section Filtering

variable {α η V : Type} {items : List α} {entry : α → Option (η × V)} {keep : α → Bool}

theorem filterMap_filter_of_none (hnone : ∀ item ∈ items, keep item = false → entry item = none) :
    (items.filter keep).filterMap entry = items.filterMap entry := by
  rw [List.filterMap_filter]
  apply List.filterMap_congr
  intro item hitem
  cases hkeep : keep item with
  | true => rfl
  | false =>
    rw [hnone item hitem hkeep]
    rfl

theorem filter_filterMap_of_key [DecidableEq η] {key : η}
    (hnodup : ((items.filterMap entry).map Prod.fst).Nodup) (hone : ∃ item ∈ items,
      keep item = false ∧ ∃ value, entry item = some (key, value))
    (hother : ∀ item ∈ items, ∀ other ∈ items, keep item = false → keep other = false →
      item = other) :
    (items.filterMap entry).filter (fun found => decide (found.1 ≠ key)) =
      (items.filter keep).filterMap entry := by
  obtain ⟨dropped, hdropped, hkeep, value, hvalue⟩ := hone
  rw [← List.filterMap_eq_filter, List.filterMap_filterMap, List.filterMap_filter]
  have hkeys : ∀ item ∈ items, ∀ found, entry item = some (key, found) → item = dropped := by
    clear hother
    intro item hitem found hfound
    induction items with
    | nil => simp at hitem
    | cons first rest ih =>
      have hlater : ∀ later ∈ rest, ∀ v, entry later = some (key, v) →
          key ∈ (rest.filterMap entry).map Prod.fst := fun later hmem v hv =>
        List.mem_map.mpr ⟨(key, v), List.mem_filterMap.mpr ⟨later, hmem, hv⟩, rfl⟩
      rcases List.mem_cons.mp hitem with hitem | hitem
      · rcases List.mem_cons.mp hdropped with hdropped | hdropped
        · rw [hitem, hdropped]
        · rw [hitem] at hfound
          rw [List.filterMap_cons_some hfound, List.map_cons, List.nodup_cons] at hnodup
          exact absurd (hlater dropped hdropped value hvalue) hnodup.1
      · rcases List.mem_cons.mp hdropped with hdropped | hdropped
        · rw [hdropped] at hvalue
          rw [List.filterMap_cons_some hvalue, List.map_cons, List.nodup_cons] at hnodup
          exact absurd (hlater item hitem found hfound) hnodup.1
        · refine ih ?_ hdropped hitem
          cases hfirst : entry first with
          | none => rwa [List.filterMap_cons_none hfirst] at hnodup
          | some head =>
            rw [List.filterMap_cons_some hfirst, List.map_cons, List.nodup_cons] at hnodup
            exact hnodup.2
  apply List.filterMap_congr
  intro item hitem
  cases hentry : entry item with
  | none => cases keep item <;> rfl
  | some found =>
    obtain ⟨k, v⟩ := found
    by_cases hk : k = key
    · subst hk
      rw [hkeys item hitem v hentry, hkeep]
      simp [Option.guard]
    · have hkept : keep item = true := by
        cases hgone : keep item with
        | true => rfl
        | false =>
          rw [hother item hitem dropped hdropped hgone hkeep, hvalue] at hentry
          cases hentry
          exact absurd rfl hk
      simp [Option.guard, hk, hkept]

end Filtering

structure Entries.Holds {η V : Type} (table : Entries η V) (entries : List (η × V)) : Prop where
  current : table.current.entries = entries
  drained : ∀ generation, generation ≠ table.data → (table.maps generation).entries = []

namespace Entries.Holds

variable {η V : Type} {table : Entries η V} {entries : List (η × V)} {key : η}

theorem initial : ({} : Entries η V).Holds [] := ⟨rfl, fun _ _ => rfl⟩

theorem nodup (h : table.Holds entries) : (entries.map Prod.fst).Nodup := by
  rw [← h.current]
  exact table.current.nodup

variable [DecidableEq η]

theorem add (h : table.Holds entries) (value : V) (hfresh : key ∉ entries.map Prod.fst) :
    (table.add key value).Holds (entries ++ [(key, value)]) := by
  have hcurrent := h.current
  refine ⟨?_, ?_⟩
  · change (if table.data = table.data then (table.maps table.data).set key value
      else table.maps table.data).entries = _
    rw [if_pos rfl, OrderedMap.entries_set_of_not_mem, ← hcurrent]
    · rfl
    · rw [← hcurrent] at hfresh
      exact hfresh
  · intro generation hgeneration
    have hold : generation ≠ table.data := hgeneration
    change (if generation = table.data then _ else table.maps generation).entries = _
    rw [if_neg hold]
    exact h.drained generation hold

theorem undo (h : table.Holds entries) :
    (table.undo table.data key).Holds (entries.filter fun entry => decide (entry.1 ≠ key)) := by
  have hleft : ((table.maps table.data).delete key).entries =
      entries.filter fun entry => decide (entry.1 ≠ key) := by
    rw [← h.current]
    rfl
  unfold Entries.undo
  cases hempty : ((table.maps table.data).delete key).entries.isEmpty with
  | true =>
    rw [List.isEmpty_iff] at hempty
    simp only [hempty, List.isEmpty_nil, Bool.true_and, decide_true, if_true]
    refine ⟨?_, ?_⟩
    · change (if table.data + 1 = table.data then _ else table.maps (table.data + 1)).entries = _
      rw [if_neg (by omega), h.drained _ (by omega), ← hleft, hempty]
    · intro generation hgeneration
      dsimp only
      by_cases hold : generation = table.data
      · rw [if_pos hold, hempty]
      · rw [if_neg hold, h.drained generation hold]
  | false =>
    simp only [hempty, Bool.false_and, Bool.false_eq_true, if_false]
    refine ⟨?_, ?_⟩
    · change (if table.data = table.data then _ else table.maps table.data).entries = _
      rw [if_pos rfl, hleft]
    · intro generation hgeneration
      dsimp only at hgeneration ⊢
      rw [if_neg hgeneration, h.drained generation hgeneration]

theorem undo_data (h : table.Holds entries) {other : η × V} (hother : other ∈ entries)
    (hkey : other.1 ≠ key) : (table.undo table.data key).data = table.data := by
  have hleft : other ∈ ((table.maps table.data).delete key).entries := by
    rw [OrderedMap.mem_entries_delete]
    refine ⟨?_, hkey⟩
    have hcurrent := h.current
    rw [← hcurrent] at hother
    exact hother
  have hempty : ((table.maps table.data).delete key).entries.isEmpty = false := by
    cases hentries : ((table.maps table.data).delete key).entries with
    | nil =>
      rw [hentries] at hleft
      simp at hleft
    | cons first rest => rfl
  simp [Entries.undo, hempty]

end Entries.Holds

structure Registration (κ ν μ V : Type) where
  id : Nat
  scope : Option κ
  contribution : Contribution ν μ V

namespace Registration

variable {κ ν μ V : Type}

theorem eq_of_id_eq {held : List (Registration κ ν μ V)} {registration other : Registration κ ν μ V}
    (hids : (held.map (·.id)).Nodup) (hmem : registration ∈ held) (hother : other ∈ held)
    (hid : registration.id = other.id) : registration = other :=
  List.inj_on_of_nodup_map hids hmem hother hid

variable [DecidableEq ν] [DecidableEq μ]

def namedEntry (table : ν) (registration : Registration κ ν μ V) : Option (String × V) :=
  match registration.contribution with
  | .named other name value => if other = table then some (name, value) else none
  | .anonymous _ _ => none

def anonymousEntry (table : μ) (registration : Registration κ ν μ V) : Option (Nat × V) :=
  match registration.contribution with
  | .named _ _ _ => none
  | .anonymous other value => if other = table then some (registration.id, value) else none

end Registration

structure Layer.Holds {κ ν μ V : Type} [DecidableEq ν] [DecidableEq μ] (layer : Layer ν μ V)
    (held : List (Registration κ ν μ V)) : Prop where
  named : ∀ table, (layer.named table).Holds (held.filterMap (·.namedEntry table))
  anonymous : ∀ table, (layer.anonymous table).Holds (held.filterMap (·.anonymousEntry table))

namespace Layer

variable {κ ν μ V : Type} [DecidableEq ν] [DecidableEq μ]
variable {layer changed : Layer ν μ V} {held : List (Registration κ ν μ V)}
  {registration other : Registration κ ν μ V} {duplicateError : String → String}

theorem Holds.initial : ({} : Layer ν μ V).Holds ([] : List (Registration κ ν μ V)) :=
  ⟨fun _ => .initial, fun _ => .initial⟩

theorem Holds.contribute (h : layer.Holds held)
    (hfresh : ∀ other ∈ held, other.id ≠ registration.id)
    (hok : layer.contribute duplicateError registration.id registration.contribution = .ok changed) :
    changed.Holds (held ++ [registration]) ∧
      ∀ symbol contribution, changed.undoOf symbol contribution = layer.undoOf symbol contribution := by
  obtain ⟨id, scope, contribution⟩ := registration
  cases contribution with
  | named table name value =>
    simp only [Layer.contribute, NamedEntries.insert] at hok
    cases hget : (layer.named table).current.get? name with
    | some found => simp [hget] at hok
    | none =>
      simp only [hget, Option.isSome_none, Bool.false_eq_true, if_false, Except.ok.injEq] at hok
      subst hok
      have hkey : name ∉ (held.filterMap (·.namedEntry table)).map Prod.fst := by
        rw [← (h.named table).current]
        exact OrderedMap.get?_eq_none.mp hget
      refine ⟨⟨?_, ?_⟩, ?_⟩
      · intro at_
        by_cases hat : at_ = table
        · subst hat
          have hadd := (h.named at_).add value hkey
          simpa [setNamed, Registration.namedEntry] using hadd
        · have hsame := h.named at_
          simpa [setNamed, Registration.namedEntry, hat, Ne.symm hat] using hsame
      · intro at_
        have hsame := h.anonymous at_
        simpa [setNamed, Registration.anonymousEntry] using hsame
      · intro symbol contribution
        cases contribution with
        | named at_ name' value' =>
          by_cases hat : at_ = table
          · subst hat
            simp [undoOf, setNamed, Entries.add]
          · simp [undoOf, setNamed, hat]
        | anonymous at_ value' => rfl
  | anonymous table value =>
    simp only [Layer.contribute, AnonymousEntries.append, Except.ok.injEq] at hok
    subst hok
    have hkey : id ∉ (held.filterMap (·.anonymousEntry table)).map Prod.fst := by
      intro hmem
      obtain ⟨entry, hentry, hid⟩ := List.mem_map.mp hmem
      obtain ⟨other, hother, hsome⟩ := List.mem_filterMap.mp hentry
      obtain ⟨otherId, otherScope, contribution⟩ := other
      cases contribution with
      | named at_ name value' => cases hsome
      | anonymous at_ value' =>
        simp only [Registration.anonymousEntry, Option.ite_none_right_eq_some,
          Option.some.injEq] at hsome
        refine hfresh _ hother ?_
        rw [← hid, ← hsome.2]
    refine ⟨⟨?_, ?_⟩, ?_⟩
    · intro at_
      have hsame := h.named at_
      simpa [setAnonymous, Registration.namedEntry] using hsame
    · intro at_
      by_cases hat : at_ = table
      · subst hat
        have hadd := (h.anonymous at_).add value hkey
        simpa [setAnonymous, Registration.anonymousEntry] using hadd
      · have hsame := h.anonymous at_
        simpa [setAnonymous, Registration.anonymousEntry, hat, Ne.symm hat] using hsame
    · intro symbol contribution
      cases contribution with
      | named at_ name value' => rfl
      | anonymous at_ value' =>
        by_cases hat : at_ = table
        · subst hat
          simp [undoOf, setAnonymous, Entries.add]
        · simp [undoOf, setAnonymous, hat]

theorem Holds.undo (h : layer.Holds held) (hids : (held.map (·.id)).Nodup)
    (hmem : registration ∈ held) :
    (layer.undo (layer.undoOf registration.id registration.contribution)).Holds
        (held.filter fun other => decide (other.id ≠ registration.id)) ∧
      ∀ other ∈ held, other.id ≠ registration.id →
        (layer.undo (layer.undoOf registration.id registration.contribution)).undoOf other.id
            other.contribution = layer.undoOf other.id other.contribution := by
  have hdropped : ∀ item ∈ held, decide (item.id ≠ registration.id) = false →
      item = registration := fun item hitem hdrop =>
    Registration.eq_of_id_eq hids hitem hmem (by simpa using hdrop)
  have hkeep : decide (registration.id ≠ registration.id) = false := by simp
  -- A table to which the registration gave nothing keeps what it holds.
  have hframeNamed : ∀ table, registration.namedEntry table = none →
      (held.filter fun other => decide (other.id ≠ registration.id)).filterMap
        (·.namedEntry table) = held.filterMap (·.namedEntry table) := fun table hnone =>
    filterMap_filter_of_none fun item hitem hdrop => by rw [hdropped item hitem hdrop, hnone]
  have hframeAnonymous : ∀ table, registration.anonymousEntry table = none →
      (held.filter fun other => decide (other.id ≠ registration.id)).filterMap
        (·.anonymousEntry table) = held.filterMap (·.anonymousEntry table) := fun table hnone =>
    filterMap_filter_of_none fun item hitem hdrop => by rw [hdropped item hitem hdrop, hnone]
  have hone : ∀ item ∈ held, ∀ item' ∈ held, decide (item.id ≠ registration.id) = false →
      decide (item'.id ≠ registration.id) = false → item = item' := by
    intro item hitem item' hitem' hdrop hdrop'
    rw [hdropped item hitem hdrop, hdropped item' hitem' hdrop']
  cases hcontribution : registration.contribution with
  | named table name value =>
    have hentry : registration.namedEntry table = some (name, value) := by
      simp [Registration.namedEntry, hcontribution]
    refine ⟨⟨?_, ?_⟩, ?_⟩
    · intro at_
      by_cases hat : at_ = table
      · subst hat
        rw [← filter_filterMap_of_key (h.named at_).nodup
          ⟨registration, hmem, hkeep, value, hentry⟩ hone]
        simpa [undoOf, Layer.undo, setNamed] using (h.named at_).undo
      · rw [hframeNamed at_ (by simp [Registration.namedEntry, hcontribution, Ne.symm hat])]
        simpa [undoOf, Layer.undo, setNamed, hat] using h.named at_
    · intro at_
      rw [hframeAnonymous at_ (by simp [Registration.anonymousEntry, hcontribution])]
      simpa [undoOf, Layer.undo, setNamed] using h.anonymous at_
    · intro other hother hid
      cases hkind : other.contribution with
      | anonymous at_ value' => rfl
      | named at_ name' value' =>
        by_cases hat : at_ = table
        · subst hat
          have hotherEntry : other.namedEntry at_ = some (name', value') := by
            simp [Registration.namedEntry, hkind]
          have hin : (name', value') ∈ held.filterMap (·.namedEntry at_) :=
            List.mem_filterMap.mpr ⟨other, hother, hotherEntry⟩
          have hname : name' ≠ name := by
            intro hsame
            have hleft : (name', value') ∈ (held.filter fun other =>
                decide (other.id ≠ registration.id)).filterMap (·.namedEntry at_) :=
              List.mem_filterMap.mpr ⟨other, List.mem_filter.mpr ⟨hother, by simpa using hid⟩,
                hotherEntry⟩
            rw [← filter_filterMap_of_key (h.named at_).nodup
              ⟨registration, hmem, hkeep, value, hentry⟩ hone] at hleft
            simp [hsame] at hleft
          have hdata := (h.named at_).undo_data hin hname
          simp [undoOf, Layer.undo, setNamed, hdata]
        · simp [undoOf, Layer.undo, setNamed, hat]
  | anonymous table value =>
    have hentry : registration.anonymousEntry table = some (registration.id, value) := by
      simp [Registration.anonymousEntry, hcontribution]
    refine ⟨⟨?_, ?_⟩, ?_⟩
    · intro at_
      rw [hframeNamed at_ (by simp [Registration.namedEntry, hcontribution])]
      simpa [undoOf, Layer.undo, setAnonymous] using h.named at_
    · intro at_
      by_cases hat : at_ = table
      · subst hat
        rw [← filter_filterMap_of_key (h.anonymous at_).nodup
          ⟨registration, hmem, hkeep, value, hentry⟩ hone]
        simpa [undoOf, Layer.undo, setAnonymous] using (h.anonymous at_).undo
      · rw [hframeAnonymous at_ (by simp [Registration.anonymousEntry, hcontribution, Ne.symm hat])]
        simpa [undoOf, Layer.undo, setAnonymous, hat] using h.anonymous at_
    · intro other hother hid
      cases hkind : other.contribution with
      | named at_ name' value' => rfl
      | anonymous at_ value' =>
        by_cases hat : at_ = table
        · subst hat
          have hin : (other.id, value') ∈ held.filterMap (·.anonymousEntry at_) :=
            List.mem_filterMap.mpr ⟨other, hother, by simp [Registration.anonymousEntry, hkind]⟩
          have hdata := (h.anonymous at_).undo_data hin hid
          simp [undoOf, Layer.undo, setAnonymous, hdata]
        · simp [undoOf, Layer.undo, setAnonymous, hat]

theorem Holds.eq_nil [Fintype ν] [Fintype μ] (h : layer.Holds held)
    (hempty : layer.isEmpty = true) : held = [] := by
  obtain ⟨hnamed, hanonymous⟩ := Bool.and_eq_true_iff.mp hempty
  rw [decide_eq_true_iff] at hnamed hanonymous
  cases held with
  | nil => rfl
  | cons first rest =>
    exfalso
    cases hcontribution : first.contribution with
    | named table name value =>
      have hentries := hnamed table
      rw [Entries.isEmpty, (h.named table).current, List.filterMap_cons_some
        (b := (name, value)) (by simp [Registration.namedEntry, hcontribution])] at hentries
      cases hentries
    | anonymous table value =>
      have hentries := hanonymous table
      rw [Entries.isEmpty, (h.anonymous table).current, List.filterMap_cons_some
        (b := (first.id, value)) (by simp [Registration.anonymousEntry, hcontribution])] at hentries
      cases hentries

end Layer

/-- The store holds these registrations: each layer in use those of its scope, each with the undo
that takes it out again. -/
structure ScopedLayers.Holds {κ ν μ V : Type} [DecidableEq κ] [DecidableEq ν] [DecidableEq μ]
    (store : ScopedLayers κ ν μ V) (held : List (Registration κ ν μ V)) : Prop where
  ids : (held.map (·.id)).Nodup
  effects : ∀ registration ∈ held, ∃ layer, store.layerOf registration.scope = some layer ∧
    store.effects[registration.id]? = some ⟨registration.scope, layer,
      (store.layers layer).undoOf registration.id registration.contribution, true⟩
  active : ∀ id made, store.effects[id]? = some made → made.active = true →
    ∃ registration ∈ held, registration.id = id
  layers : ∀ scope layer, store.layerOf scope = some layer →
    (store.layers layer).Holds (held.filter fun registration => decide (registration.scope = scope))
  distinct : ∀ scope scope' layer, store.layerOf scope = some layer →
    store.layerOf scope' = some layer → scope = scope'
  created : ∀ scope layer, store.layerOf scope = some layer → layer < store.created

namespace ScopedLayers

variable {κ ν μ V : Type} [DecidableEq κ] [DecidableEq ν] [DecidableEq μ]
variable {store : ScopedLayers κ ν μ V} {held : List (Registration κ ν μ V)} {scope : Option κ}
  {layer : Nat} {duplicateError : String → String}

theorem Holds.initial : ({} : ScopedLayers κ ν μ V).Holds [] := by
  have hlayerOf : ∀ scope layer, ({} : ScopedLayers κ ν μ V).layerOf scope = some layer →
      scope = none ∧ layer = 0 := by
    intro scope layer h
    cases scope with
    | none => exact ⟨rfl, (Option.some.inj h).symm⟩
    | some key => cases h
  refine ⟨List.nodup_nil, ?_, ?_, ?_, ?_, ?_⟩
  · intro registration hmem
    simp at hmem
  · intro id made hmade
    simp at hmade
  · intro scope layer _
    exact Layer.Holds.initial
  · intro scope scope' layer h h'
    rw [(hlayerOf scope layer h).1, (hlayerOf scope' layer h').1]
  · intro scope layer h
    rw [(hlayerOf scope layer h).2]
    exact Nat.one_pos

theorem Holds.layerFor (h : store.Holds held) (scope : Option κ) :
    (store.layerFor scope).1.Holds held ∧
      (store.layerFor scope).1.layerOf scope = some (store.layerFor scope).2.1 ∧
      (store.layerFor scope).1.effects = store.effects := by
  unfold ScopedLayers.layerFor
  cases scope with
  | none => exact ⟨h, rfl, rfl⟩
  | some key =>
    dsimp only
    cases hget : store.scopedLayers.get? key with
    | some layer => exact ⟨h, hget, rfl⟩
    | none =>
      dsimp only
      have hnew : ∀ scope layer,
          ({ store with
              layers := fun other => if other = store.created then {} else store.layers other
              created := store.created + 1
              scopedLayers := store.scopedLayers.set key store.created } :
            ScopedLayers κ ν μ V).layerOf scope = some layer →
          scope = some key ∧ layer = store.created ∨
            store.layerOf scope = some layer ∧ layer ≠ store.created := by
        intro scope layer hlayer
        cases scope with
        | none => exact .inr ⟨hlayer, by have := h.created none layer hlayer; omega⟩
        | some other =>
          change (store.scopedLayers.set key store.created).get? other = some layer at hlayer
          rw [OrderedMap.get?_set] at hlayer
          by_cases hother : other = key
          · rw [if_pos hother] at hlayer
            exact .inl ⟨by rw [hother], (Option.some.inj hlayer).symm⟩
          · rw [if_neg hother] at hlayer
            exact .inr ⟨hlayer, by have := h.created (some other) layer hlayer; omega⟩
      have hnone : ∀ registration ∈ held, registration.scope ≠ some key := by
        intro registration hmem hscope
        obtain ⟨layer, hlayer, -⟩ := h.effects registration hmem
        rw [hscope] at hlayer
        cases hget.symm.trans hlayer
      refine ⟨⟨h.ids, ?_, h.active, ?_, ?_, ?_⟩, ?_, rfl⟩
      · intro registration hmem
        dsimp only
        obtain ⟨layer, hlayer, heffect⟩ := h.effects registration hmem
        have hold : layer ≠ store.created := by have := h.created _ layer hlayer; omega
        refine ⟨layer, ?_, ?_⟩
        · cases hscope : registration.scope with
          | none => rwa [hscope] at hlayer
          | some other =>
            have hother : other ≠ key := fun heq => hnone registration hmem (by rw [hscope, heq])
            change (store.scopedLayers.set key store.created).get? other = some layer
            rw [OrderedMap.get?_set, if_neg hother]
            rwa [hscope] at hlayer
        · rw [if_neg hold]
          exact heffect
      · intro scope layer hlayer
        rcases hnew scope layer hlayer with ⟨hscope, hcreated⟩ | ⟨hlayer, hold⟩
        · subst hscope
          dsimp only
          rw [if_pos hcreated, List.filter_eq_nil_iff.mpr]
          · exact Layer.Holds.initial
          · intro registration hmem
            simpa using hnone registration hmem
        · dsimp only
          rw [if_neg hold]
          exact h.layers scope layer hlayer
      · intro scope scope' layer hlayer hlayer'
        rcases hnew scope layer hlayer with ⟨hscope, hcreated⟩ | ⟨hlayer, hold⟩
        · rcases hnew scope' layer hlayer' with ⟨hscope', -⟩ | ⟨-, hold'⟩
          · rw [hscope, hscope']
          · exact absurd hcreated hold'
        · rcases hnew scope' layer hlayer' with ⟨-, hcreated'⟩ | ⟨hlayer', -⟩
          · exact absurd hcreated' hold
          · exact h.distinct scope scope' layer hlayer hlayer'
      · intro scope layer hlayer
        dsimp only
        rcases hnew scope layer hlayer with ⟨-, hcreated⟩ | ⟨hlayer, -⟩
        · omega
        · have := h.created scope layer hlayer
          omega
      · change (store.scopedLayers.set key store.created).get? key = some store.created
        rw [OrderedMap.get?_set, if_pos rfl]

theorem Holds.id_lt (h : store.Holds held) {registration : Registration κ ν μ V}
    (hmem : registration ∈ held) : registration.id < store.effects.length := by
  obtain ⟨layer, -, heffect⟩ := h.effects registration hmem
  exact (List.getElem?_eq_some_iff.mp heffect).1

theorem Holds.setLayer {held' : List (Registration κ ν μ V)} {changed : Layer ν μ V}
    {effects : List (LayerEffect κ ν μ)} (h : store.Holds held)
    (hlayer : store.layerOf scope = some layer) (hids : (held'.map (·.id)).Nodup)
    (hchanged : changed.Holds
      (held'.filter fun registration => decide (registration.scope = scope)))
    (hothers : ∀ other, other ≠ scope →
      held'.filter (fun registration => decide (registration.scope = other)) =
        held.filter fun registration => decide (registration.scope = other))
    (heffects : ∀ registration ∈ held', ∃ layer', store.layerOf registration.scope = some layer' ∧
      effects[registration.id]? = some ⟨registration.scope, layer',
        (if layer' = layer then changed else store.layers layer').undoOf registration.id
          registration.contribution, true⟩)
    (hactive : ∀ id made, effects[id]? = some made → made.active = true →
      ∃ registration ∈ held', registration.id = id) :
    ({ store with
        layers := fun other => if other = layer then changed else store.layers other
        effects := effects } : ScopedLayers κ ν μ V).Holds held' := by
  refine ⟨hids, heffects, hactive, ?_, h.distinct, h.created⟩
  intro scope' layer' hlayer'
  dsimp only
  have hlayerOf : store.layerOf scope' = some layer' := hlayer'
  by_cases hscope : scope' = scope
  · rw [hscope, hlayer] at hlayerOf
    rw [if_pos (Option.some.inj hlayerOf).symm, hscope]
    exact hchanged
  · have hother : layer' ≠ layer := by
      intro heq
      rw [heq] at hlayerOf
      exact hscope (h.distinct scope' scope layer hlayerOf hlayer)
    rw [if_neg hother, hothers scope' hscope]
    exact h.layers scope' layer' hlayerOf

variable [Fintype ν] [Fintype μ]

theorem Holds.reclaim (h : store.Holds held) (hlayer : store.layerOf scope = some layer) :
    (store.reclaim scope layer).Holds held := by
  unfold ScopedLayers.reclaim
  cases scope with
  | none => exact h
  | some key =>
    dsimp only
    split
    · rename_i hempty
      have hnil := (h.layers (some key) layer hlayer).eq_nil hempty
      rw [List.filter_eq_nil_iff] at hnil
      have hkeeps : ∀ scope layer, ({ store with scopedLayers := store.scopedLayers.delete key } :
          ScopedLayers κ ν μ V).layerOf scope = some layer → store.layerOf scope = some layer := by
        intro scope layer hfound
        cases scope with
        | none => exact hfound
        | some other =>
          change (store.scopedLayers.delete key).get? other = some layer at hfound
          rw [OrderedMap.get?_delete] at hfound
          split at hfound
          · cases hfound
          · exact hfound
      refine ⟨h.ids, ?_, h.active, ?_, ?_, ?_⟩
      · intro registration hmem
        obtain ⟨found, hfound, heffect⟩ := h.effects registration hmem
        refine ⟨found, ?_, heffect⟩
        have hscope : registration.scope ≠ some key := by simpa using hnil registration hmem
        cases hregistration : registration.scope with
        | none => rwa [hregistration] at hfound
        | some other =>
          have hother : other ≠ key := fun heq => hscope (by rw [hregistration, heq])
          change (store.scopedLayers.delete key).get? other = some found
          rw [OrderedMap.get?_delete, if_neg hother]
          rwa [hregistration] at hfound
      · intro scope layer hfound
        exact h.layers scope layer (hkeeps scope layer hfound)
      · intro scope scope' layer hfound hfound'
        exact h.distinct scope scope' layer (hkeeps _ _ hfound) (hkeeps _ _ hfound')
      · intro scope layer hfound
        exact h.created scope layer (hkeeps _ _ hfound)
    · exact h

variable {action : Except String (Contribution ν μ V)} {store' : ScopedLayers κ ν μ V}

theorem Holds.effect_ok {id : Nat} (h : store.Holds held)
    (hok : store.effect duplicateError scope action = (store', .ok id)) :
    ∃ contribution, action = .ok contribution ∧ store'.Holds (held ++ [⟨id, scope, contribution⟩]) := by
  obtain ⟨hbase, hlayer, -⟩ := h.layerFor scope
  unfold ScopedLayers.effect at hok
  generalize store.layerFor scope = found at hbase hlayer hok
  obtain ⟨base, layer, isNew⟩ := found
  dsimp only at hbase hlayer hok
  cases action with
  | error error => cases hok
  | ok contribution =>
    dsimp only at hok
    cases hchange : (base.layers layer).contribute duplicateError base.effects.length contribution with
    | error error =>
      rw [hchange] at hok
      cases hok
    | ok changed =>
      rw [hchange] at hok
      cases hok
      refine ⟨contribution, rfl, ?_⟩
      have hfresh : ∀ registration ∈ held, registration.id ≠ base.effects.length := by
        intro registration hmem
        have := hbase.id_lt hmem
        omega
      obtain ⟨hholds, hundo⟩ := @Layer.Holds.contribute κ ν μ V _ _ _ _ _
        ⟨base.effects.length, scope, contribution⟩ _ (hbase.layers scope layer hlayer)
        (fun other hother => hfresh other (List.mem_of_mem_filter hother)) hchange
      apply hbase.setLayer hlayer
      · rw [List.map_append]
        refine List.nodup_append.mpr ⟨hbase.ids, by simp, ?_⟩
        intro id hid other hother heq
        obtain ⟨registration, hmem, rfl⟩ := List.mem_map.mp hid
        simp only [List.map_cons, List.map_nil, List.mem_singleton] at hother
        exact hfresh registration hmem (heq.trans hother)
      · simpa [List.filter_append] using hholds
      · intro other hother
        simp [List.filter_append, Ne.symm hother]
      · intro registration hmem
        rcases List.mem_append.mp hmem with hmem | hmem
        · obtain ⟨found, hfound, heffect⟩ := hbase.effects registration hmem
          refine ⟨found, hfound, ?_⟩
          rw [List.getElem?_append_left (hbase.id_lt hmem), heffect]
          split
          · rename_i heq
            rw [hundo, heq]
          · rfl
        · rw [List.mem_singleton] at hmem
          subst hmem
          refine ⟨layer, hlayer, ?_⟩
          rw [List.getElem?_concat_length, if_pos rfl, hundo]
      · intro id made hmade hmadeActive
        by_cases hid : id < base.effects.length
        · rw [List.getElem?_append_left hid] at hmade
          obtain ⟨registration, hmem, heq⟩ := hbase.active id made hmade hmadeActive
          exact ⟨registration, List.mem_append_left _ hmem, heq⟩
        · have hlast := (List.getElem?_eq_some_iff.mp hmade).1
          rw [List.length_append, List.length_singleton] at hlast
          exact ⟨_, List.mem_append_right _ (List.mem_singleton_self _), by dsimp only; omega⟩

theorem Holds.effect_error {error : String} (h : store.Holds held)
    (herror : store.effect duplicateError scope action = (store', .error error)) :
    store'.Holds held := by
  obtain ⟨hbase, hlayer, -⟩ := h.layerFor scope
  unfold ScopedLayers.effect at herror
  generalize store.layerFor scope = found at hbase hlayer herror
  obtain ⟨base, layer, isNew⟩ := found
  dsimp only at hbase hlayer herror
  have hleft : (if isNew then base.reclaim scope layer else base).Holds held := by
    split
    · exact hbase.reclaim hlayer
    · exact hbase
  cases action with
  | error own =>
    cases herror
    exact hleft
  | ok contribution =>
    dsimp only at herror
    cases hchange : (base.layers layer).contribute duplicateError base.effects.length contribution with
    | error own =>
      rw [hchange] at herror
      cases herror
      exact hleft
    | ok changed =>
      rw [hchange] at herror
      cases herror

theorem Holds.dispose {registration : Registration κ ν μ V} (h : store.Holds held)
    (hmem : registration ∈ held) :
    (store.dispose registration.id).Holds
      (held.filter fun other => decide (other.id ≠ registration.id)) := by
  obtain ⟨layer, hlayer, heffect⟩ := h.effects registration hmem
  have hin : registration ∈ held.filter
      fun other => decide (other.scope = registration.scope) :=
    List.mem_filter.mpr ⟨hmem, by simp⟩
  have hids : ((held.filter fun other => decide (other.scope = registration.scope)).map
      (·.id)).Nodup := h.ids.sublist (List.filter_sublist.map _)
  obtain ⟨hundone, hundo⟩ := (h.layers registration.scope layer hlayer).undo hids hin
  unfold ScopedLayers.dispose
  rw [heffect]
  dsimp only
  rw [if_pos rfl]
  refine Holds.reclaim ?_ hlayer
  apply h.setLayer hlayer
  · exact h.ids.sublist (List.filter_sublist.map _)
  · rw [List.filter_filter] at hundone ⊢
    refine cast ?_ hundone
    congr 2
    funext other
    rw [Bool.and_comm]
  · intro other hother
    rw [List.filter_filter]
    apply List.filter_congr
    intro item hitem
    by_cases hscope : item.scope = other
    · have hid : item.id ≠ registration.id := by
        intro heq
        rw [Registration.eq_of_id_eq h.ids hitem hmem heq] at hscope
        exact hother hscope.symm
      simp [hscope, hid]
    · simp [hscope]
  · intro other hother
    obtain ⟨hother, hid⟩ := List.mem_filter.mp hother
    rw [decide_eq_true_iff] at hid
    obtain ⟨found, hfound, hmade⟩ := h.effects other hother
    refine ⟨found, hfound, ?_⟩
    rw [List.getElem?_set_ne (Ne.symm hid), hmade]
    split
    · rename_i heq
      have hscope : other.scope = registration.scope :=
        h.distinct _ _ layer (by rw [← heq]; exact hfound) hlayer
      rw [hundo other (List.mem_filter.mpr ⟨hother, by simp [hscope]⟩) hid, heq]
    · rfl
  · intro id made hmade hmadeActive
    by_cases hid : id = registration.id
    · subst hid
      rw [List.getElem?_set_self (h.id_lt hmem)] at hmade
      cases hmade
      cases hmadeActive
    · rw [List.getElem?_set_ne (Ne.symm hid)] at hmade
      obtain ⟨other, hother, heq⟩ := h.active id made hmade hmadeActive
      exact ⟨other, List.mem_filter.mpr ⟨hother, by simpa [heq] using hid⟩, heq⟩

theorem Holds.dispose_of_not_active {id : Nat} (h : store.Holds held)
    (hnone : ∀ registration ∈ held, registration.id ≠ id) : store.dispose id = store := by
  unfold ScopedLayers.dispose
  cases hmade : store.effects[id]? with
  | none => rfl
  | some made =>
    dsimp only
    split
    · rename_i hactive
      obtain ⟨registration, hmem, hid⟩ := h.active id made hmade hactive
      exact absurd hid (hnone registration hmem)
    · rfl

end ScopedLayers

end DshKernel.Scope
