import DshKernel.Settings.JsonData

/-!
# Sections of the settings document

How a write computes the next section of its namespace: a patch that is merged, a section that
replaces the stored one, or edits that are addressed by paths.
-/

namespace DshKernel.Settings

open Js Lib List

/-- `{ ...fields, [key]: value }` -/
def setField : Fields → String → Json → Fields
  | [], key, value => [(key, value)]
  | (other, old) :: rest, key, value =>
    if other = key then (key, value) :: rest else (other, old) :: setField rest key value

/-- `const { [key]: _removed, ...kept } = fields` -/
def removeField (fields : Fields) (key : String) : Fields :=
  fields.filter fun field => decide (field.1 ≠ key)

mutual

/-- Layer `upper` onto `under`: objects merge, every other value replaces the lower layer. -/
def mergeLayers : Json → Json → Json
  | .obj under, .obj upper => .obj (mergeFields under upper)
  | _, upper => upper

def mergeFields : Fields → Fields → Fields
  | merged, [] => merged
  | merged, (key, value) :: rest =>
    mergeFields (setField merged key (match merged.lookup key with
      | some old => mergeLayers old value
      | none => value)) rest

end

/-- `SettingsPathOp`, where an edit without a value unsets. -/
structure PathOp where
  path : List String
  value : Option Json

def applyPathOp (fields : Fields) : List String → Option Json → Except String Fields
  | [], none => .ok []
  | [], some (.obj value) => .ok value
  | [], some _ => .error "settings mutate: setting the section root requires a plain object"
  | [head], some value => .ok (setField fields head value)
  | [head], none => .ok (removeField fields head)
  | head :: next :: rest, value =>
    match fields.lookup head with
    | some (.obj child) =>
      match applyPathOp child (next :: rest) value with
      | .error error => .error error
      | .ok changed => .ok (setField fields head (.obj changed))
    | _ =>
      match value with
      | none => .ok fields
      | some value =>
        match applyPathOp [] (next :: rest) (some value) with
        | .error error => .error error
        | .ok changed => .ok (setField fields head (.obj changed))

inductive WriteInput where
  | merge (patch : Fields)
  | replace (next : Fields)
  | mutate (ops : List PathOp)

def nextSection (current : Fields) : WriteInput → Except String Fields
  | .merge patch => .ok (mergeFields current patch)
  | .replace next => .ok next
  | .mutate ops => ops.foldlM (fun fields op => applyPathOp fields op.path op.value) current

/-- `section(ns)` of a stored value: absent, an object, or malformed. -/
def readSection (ns : String) : Option Json → Except String (Option Fields)
  | none => .ok none
  | some (.obj fields) => .ok (some fields)
  | some _ => .error ("settings section \"" ++ ns ++ "\" must be an object of keys")

section Fields

variable {fields : Fields} {key other : String} {value : Json}

theorem lookup_setField : (setField fields key value).lookup other =
    if other = key then some value else fields.lookup other := by
  induction fields with
  | nil =>
    rw [setField, lookup_cons]
    by_cases h : other = key
    · simp [h]
    · rw [beq_false_of_ne h, if_neg h]
  | cons field rest ih =>
    obtain ⟨k, v⟩ := field
    rw [setField]
    by_cases hk : k = key
    · subst hk
      rw [if_pos rfl, lookup_cons, lookup_cons]
      by_cases h : other = k
      · simp [h]
      · rw [beq_false_of_ne h, if_neg h]
    · rw [if_neg hk, lookup_cons, lookup_cons, ih]
      by_cases h : other = k
      · subst h
        simp [hk]
      · rw [beq_false_of_ne h]

theorem lookup_removeField : (removeField fields key).lookup other =
    if other = key then none else fields.lookup other := by
  induction fields with
  | nil => simp [removeField]
  | cons field rest ih =>
    obtain ⟨k, v⟩ := field
    by_cases hk : k = key
    · subst hk
      have hskip : removeField ((k, v) :: rest) k = removeField rest k := by simp [removeField]
      rw [hskip, ih, lookup_cons]
      by_cases h : other = k
      · simp [h]
      · rw [beq_false_of_ne h]
    · have hkeep : removeField ((k, v) :: rest) key = (k, v) :: removeField rest key := by
        simp [removeField, hk]
      rw [hkeep, lookup_cons, lookup_cons, ih]
      by_cases h : other = k
      · subst h
        simp [hk]
      · rw [beq_false_of_ne h]

theorem keys_setField : ∀ k, k ∈ (setField fields key value).map Prod.fst ↔
    k = key ∨ k ∈ fields.map Prod.fst := by
  intro k
  rw [← lookup_isSome_iff, ← lookup_isSome_iff, lookup_setField]
  by_cases h : k = key
  · simp [h]
  · simp [h]

theorem nodup_setField (h : (fields.map Prod.fst).Nodup) :
    ((setField fields key value).map Prod.fst).Nodup := by
  induction fields with
  | nil => simp [setField]
  | cons field rest ih =>
    obtain ⟨k, v⟩ := field
    rw [map_cons, nodup_cons] at h
    rw [setField]
    by_cases hk : k = key
    · subst hk
      rw [if_pos rfl, map_cons, nodup_cons]
      exact h
    · rw [if_neg hk, map_cons, nodup_cons, keys_setField]
      exact ⟨fun hmem => hmem.elim hk h.1, ih h.2⟩

theorem mem_setField {field : String × Json} (hmem : field ∈ setField fields key value) :
    field = (key, value) ∨ field ∈ fields := by
  induction fields with
  | nil => exact .inl (mem_singleton.mp hmem)
  | cons first rest ih =>
    obtain ⟨k, v⟩ := first
    rw [setField] at hmem
    split at hmem
    · exact (mem_cons.mp hmem).imp_right (mem_cons_of_mem _)
    · rcases mem_cons.mp hmem with heq | hrest
      · rw [heq]
        exact .inr mem_cons_self
      · exact (ih hrest).imp_right (mem_cons_of_mem _)

theorem data_setField (h : Data (.obj fields)) (hkey : key ≠ "__proto__") (hvalue : Data value) :
    Data (.obj (setField fields key value)) := by
  cases h with
  | obj hnodup hproto hfields =>
  refine .obj (nodup_setField hnodup) ?_ ?_
  · rw [keys_setField]
    exact fun hmem => hmem.elim (Ne.symm hkey) hproto
  · intro field hmem
    rcases mem_setField hmem with rfl | hold
    · exact hvalue
    · exact hfields field hold

theorem data_removeField (h : Data (.obj fields)) : Data (.obj (removeField fields key)) := by
  cases h with
  | obj hnodup hproto hfields =>
  have hsublist : (removeField fields key).Sublist fields := filter_sublist
  refine .obj (hnodup.sublist (hsublist.map _)) ?_ fun field hmem => hfields field (hsublist.subset hmem)
  exact fun hmem => hproto ((hsublist.map _).subset hmem)

theorem data_nil : Data (.obj []) := .obj nodup_nil (by simp) (by simp)

end Fields

theorem data_mergeLayers {under upper : Json} (hunder : Data under) (hupper : Data upper) :
    Data (mergeLayers under upper) := by
  induction hupper generalizing under with
  | null => cases under <;> exact .null
  | bool value => cases under <;> exact .bool value
  | num hnan hfinite => cases under <;> exact .num hnan hfinite
  | str value => cases under <;> exact .str value
  | arr h => cases under <;> exact .arr h
  | @obj fields hnodup hproto hfields ih =>
    cases under with
    | obj under =>
      rw [mergeLayers]
      clear hnodup
      induction fields generalizing under with
      | nil => exact hunder
      | cons field rest ihFields =>
        obtain ⟨key, value⟩ := field
        rw [map_cons, mem_cons, not_or] at hproto
        rw [mergeFields]
        refine ihFields hproto.2 (fun field hmem => hfields field (mem_cons_of_mem _ hmem))
          (fun field hmem => ih field (mem_cons_of_mem _ hmem)) _
          (data_setField hunder (Ne.symm hproto.1) ?_)
        cases hlookup : under.lookup key with
        | none => exact hfields (key, value) mem_cons_self
        | some old => exact ih (key, value) mem_cons_self (hunder.lookup hlookup)
    | _ => exact .obj hnodup hproto hfields

def PathOp.IsData (op : PathOp) : Prop :=
  "__proto__" ∉ op.path ∧ ∀ value, op.value = some value → Data value

theorem data_applyPathOp {path : List String} {value : Option Json} {fields changed : Fields}
    (h : Data (.obj fields)) (hpath : "__proto__" ∉ path)
    (hvalue : ∀ data, value = some data → Data data)
    (hok : applyPathOp fields path value = .ok changed) : Data (.obj changed) := by
  induction path generalizing fields changed with
  | nil =>
    cases value with
    | none =>
      cases hok
      exact data_nil
    | some value =>
      cases value with
      | obj value =>
        cases hok
        exact hvalue _ rfl
      | _ => cases hok
  | cons head rest ih =>
    rw [mem_cons, not_or] at hpath
    cases rest with
    | nil =>
      cases value with
      | none =>
        cases hok
        exact data_removeField h
      | some value =>
        cases hok
        exact data_setField h (Ne.symm hpath.1) (hvalue value rfl)
    | cons next rest =>
      have hset : ∀ inner innerChanged, Data (.obj inner) →
          applyPathOp inner (next :: rest) value = .ok innerChanged →
          Data (.obj (setField fields head (.obj innerChanged))) := fun inner innerChanged hinner hinnerOk =>
        data_setField h (Ne.symm hpath.1) (ih hinner hpath.2 hinnerOk)
      rw [applyPathOp.eq_def] at hok
      dsimp only at hok
      split at hok
      · rename_i child hchild
        cases hinner : applyPathOp child (next :: rest) value with
        | error error =>
          rw [hinner] at hok
          cases hok
        | ok innerChanged =>
          rw [hinner] at hok
          cases hok
          exact hset child innerChanged (h.lookup hchild) hinner
      · cases value with
        | none =>
          cases hok
          exact h
        | some value =>
          dsimp only at hok
          cases hinner : applyPathOp [] (next :: rest) (some value) with
          | error error =>
            rw [hinner] at hok
            cases hok
          | ok innerChanged =>
            rw [hinner] at hok
            cases hok
            exact hset [] innerChanged data_nil hinner

def WriteInput.IsData : WriteInput → Prop
  | .merge patch => Data (.obj patch)
  | .replace next => Data (.obj next)
  | .mutate ops => ∀ op ∈ ops, op.IsData

theorem data_nextSection {current next : Fields} {input : WriteInput} (h : Data (.obj current))
    (hinput : input.IsData) (hok : nextSection current input = .ok next) : Data (.obj next) := by
  cases input with
  | merge patch =>
    cases hok
    have hmerged := data_mergeLayers h hinput
    rwa [mergeLayers] at hmerged
  | replace replaced =>
    cases hok
    exact hinput
  | mutate ops =>
    rw [nextSection] at hok
    have hops : ∀ op ∈ ops, op.IsData := hinput
    clear hinput
    induction ops generalizing current with
    | nil =>
      cases hok
      exact h
    | cons op rest ih =>
      rw [foldlM_cons] at hok
      cases hop : applyPathOp current op.path op.value with
      | error error =>
        rw [hop] at hok
        cases hok
      | ok changed =>
        rw [hop] at hok
        obtain ⟨hpath, hvalue⟩ := hops op mem_cons_self
        exact ih (data_applyPathOp h hpath hvalue hop) hok
          fun other hmem => hops other (mem_cons_of_mem _ hmem)

end DshKernel.Settings
