import DshKernel.Lib.OrderedMap
import Mathlib.Data.List.Basic
import Mathlib.Data.List.Nodup

/-!
# The redaction of secrets

A value that goes over a wire leaves out the fields that its schema declares secret, and goes with
the list of their positions.
-/

namespace DshKernel.Settings

open Lib List

/-- A leaf is neither a list nor a plain object. -/
inductive SettingsValue (α : Type) where
  | undefined
  | leaf (value : α)
  | array (items : List (SettingsValue α))
  | record (fields : List (String × SettingsValue α))

/-- A node is `secret` by its role, whatever its type. Unions, intersections, transforms and plain
types are `other`, with the schemas that they hold; a container without an inner schema holds such a
node. -/
inductive SchemaNode where
  | secret
  | object (dict : List (String × SchemaNode))
  | dict (inner : SchemaNode)
  | array (inner : SchemaNode)
  | other (branches : List SchemaNode)

structure RedactedSecret where
  path : List String
  set : Bool

structure RedactedValue (α : Type) where
  value : SettingsValue α
  secrets : List RedactedSecret

section Walk

variable {α : Type} (inherited : String → Option (SettingsValue α))

namespace SettingsValue

def isUndefined : SettingsValue α → Bool
  | undefined => true
  | _ => false

def isRecord : SettingsValue α → Bool
  | record _ => true
  | _ => false

/-- `Object.entries(value)`, of a record. -/
def fields : SettingsValue α → List (String × SettingsValue α)
  | record entries => entries
  | _ => []

def own (value : SettingsValue α) (key : String) : SettingsValue α :=
  (value.fields.lookup key).getD undefined

/-- `source?.[key]`, which finds what every object inherits. -/
def member (value : SettingsValue α) (key : String) : SettingsValue α :=
  if value.isRecord then ((value.fields.lookup key).or (inherited key)).getD undefined else undefined

def item : SettingsValue α → Nat → SettingsValue α
  | array items, index => items[index]?.getD undefined
  | _, _ => undefined

end SettingsValue

/-- `key in properties` -/
def isProperty (dict : List (String × SchemaNode)) (key : String) : Bool :=
  (dict.lookup key).isSome || (inherited key).isSome

/-- `rebuilt[key] = value` for the entries; `__proto__` becomes no field. -/
def assignAll (rebuilt : OrderedMap String (SettingsValue α)) (entries : List (String × SettingsValue α)) :
    OrderedMap String (SettingsValue α) :=
  rebuilt.setAll (entries.filter fun entry => entry.1 != "__proto__")

/-- The fields that are left. -/
def present (walked : List (String × RedactedValue α)) : List (String × SettingsValue α) :=
  (walked.filter fun field => !field.2.value.isUndefined).map fun field => (field.1, field.2.value)

mutual

def walk : SchemaNode → SettingsValue α → List String → RedactedValue α
  | .secret, value, path => ⟨.undefined, [⟨path, !value.isUndefined⟩]⟩
  | .object dict, value, path =>
    let kept := assignAll .empty (value.fields.filter fun field => !isProperty inherited dict field.1)
    let walked := walkProperties dict value path
    let rebuilt := assignAll kept (present walked)
    ⟨if !value.isRecord && rebuilt.entries.isEmpty then value else .record rebuilt.entries,
      walked.flatMap fun field => field.2.secrets⟩
  | .dict inner, value, path =>
    if value.isRecord then
      let walked := value.fields.map fun field =>
        (field.1, walk inner field.2 (path ++ [field.1]))
      ⟨.record (assignAll .empty (present walked)).entries, walked.flatMap fun field => field.2.secrets⟩
    else ⟨value, []⟩
  | .array inner, .array items, path =>
    let walked := items.mapIdx fun index entry => walk inner entry (path ++ [toString index])
    ⟨.array (walked.map RedactedValue.value), walked.flatMap RedactedValue.secrets⟩
  | .array _, value, _ => ⟨value, []⟩
  | .other _, value, _ => ⟨value, []⟩

/-- The properties of an object schema. -/
def walkProperties : List (String × SchemaNode) → SettingsValue α → List String →
    List (String × RedactedValue α)
  | [], _, _ => []
  | (key, child) :: rest, value, path =>
    (key, walk child (value.member inherited key) (path ++ [key])) :: walkProperties rest value path

end

def redactSecrets (schema : SchemaNode) (value : SettingsValue α) : RedactedValue α :=
  walk inherited schema value []

end Walk

section Positions

variable {α : Type}

inductive PathStep where
  | key (name : String)
  | index (position : Nat)

def PathStep.text : PathStep → String
  | .key name => name
  | .index position => toString position

def SettingsValue.atStep (value : SettingsValue α) : PathStep → SettingsValue α
  | .key name => value.own name
  | .index position => value.item position

/-- What stands at a position; `undefined` where there is nothing. -/
def readAt : SettingsValue α → List PathStep → SettingsValue α
  | value, [] => value
  | value, step :: rest => readAt (value.atStep step) rest

/-- The schema of a field or item, with what stands there: a property has one even when it is unset, an
entry or an item only where the value has it. -/
def under : SchemaNode → SettingsValue α → PathStep → Option (SchemaNode × SettingsValue α)
  | .object dict, value, .key name => (dict.lookup name).map fun child => (child, value.own name)
  | .dict inner, value, .key name => (value.fields.lookup name).map fun entry => (inner, entry)
  | .array inner, .array items, .index position => items[position]?.map fun entry => (inner, entry)
  | _, _, _ => none

/-- The positions of secrets; those under a union, an intersection or a transform only when these
are followed. -/
inductive SecretAt (follows : Prop) : SchemaNode → SettingsValue α → List PathStep → Prop where
  | here {value : SettingsValue α} : SecretAt follows .secret value []
  | down {schema child : SchemaNode} {value part : SettingsValue α} {step : PathStep}
      {steps : List PathStep} : under schema value step = some (child, part) →
      SecretAt follows child part steps → SecretAt follows schema value (step :: steps)
  | branch {branches : List SchemaNode} {node : SchemaNode} {value : SettingsValue α}
      {steps : List PathStep} : follows → node ∈ branches → SecretAt follows node value steps →
      SecretAt follows (.other branches) value steps

/-- Two values that differ at most in what is in them. -/
def SameTop : SettingsValue α → SettingsValue α → Prop
  | .undefined, .undefined => True
  | .leaf a, .leaf b => a = b
  | .array xs, .array ys => xs.length = ys.length
  | .record _, .record _ => True
  | _, _ => False

/-- No object holds a key twice. -/
def SettingsValue.WellFormed (value : SettingsValue α) : Prop :=
  ∀ steps, ((readAt value steps).fields.map Prod.fst).Nodup

inductive SchemaNode.WellFormed : SchemaNode → Prop where
  | secret : SchemaNode.WellFormed .secret
  | object {dict : List (String × SchemaNode)} : (dict.map Prod.fst).Nodup →
      (∀ entry ∈ dict, entry.2.WellFormed) → SchemaNode.WellFormed (.object dict)
  | dict {inner : SchemaNode} : inner.WellFormed → SchemaNode.WellFormed (.dict inner)
  | array {inner : SchemaNode} : inner.WellFormed → SchemaNode.WellFormed (.array inner)
  | other {branches : List SchemaNode} : SchemaNode.WellFormed (.other branches)

/-- No name on the path is one that every object inherits. -/
def Plain (inherited : String → Option (SettingsValue α)) (steps : List PathStep) : Prop :=
  ∀ name, .key name ∈ steps → inherited name = none ∧ name ≠ "__proto__"

end Positions

section Rebuilt

variable {α : Type} {inherited : String → Option (SettingsValue α)} {key : String}
  {rebuilt : OrderedMap String (SettingsValue α)} {walked : List (String × RedactedValue α)}

theorem get?_assignAll {entries : List (String × SettingsValue α)} (hnodup : (entries.map Prod.fst).Nodup)
    (hkey : key ≠ "__proto__") :
    (assignAll rebuilt entries).get? key = (entries.lookup key).or (rebuilt.get? key) := by
  have hsub : ((entries.filter fun entry => entry.1 != "__proto__").map Prod.fst).Nodup :=
    hnodup.sublist (filter_sublist.map Prod.fst)
  rw [assignAll, OrderedMap.get?_setAll hsub, lookup_filter (· != "__proto__"), if_pos (bne_iff_ne.mpr hkey)]

theorem keys_present : (present walked).map Prod.fst =
    (walked.filter fun field => !field.2.value.isUndefined).map Prod.fst := by
  rw [present, map_map]
  rfl

theorem nodup_present (hnodup : (walked.map Prod.fst).Nodup) : ((present walked).map Prod.fst).Nodup := by
  rw [keys_present]
  exact hnodup.sublist (filter_sublist.map Prod.fst)

theorem lookup_present_none (hmem : key ∉ walked.map Prod.fst) : (present walked).lookup key = none := by
  rw [lookup_eq_none_iff_not_mem, keys_present]
  exact fun h => hmem ((filter_sublist.map Prod.fst).subset h)

/-- A field is left with what it was redacted to. -/
theorem getD_lookup_present (hnodup : (walked.map Prod.fst).Nodup) {result : RedactedValue α}
    (h : walked.lookup key = some result) :
    ((present walked).lookup key).getD .undefined = result.value := by
  induction walked with
  | nil => cases h
  | cons field rest ih =>
    obtain ⟨name, found⟩ := field
    obtain ⟨hnew, hrest⟩ := nodup_cons.mp hnodup
    rw [lookup_cons] at h
    cases hundefined : found.value.isUndefined with
    | true =>
      have hpresent : present ((name, found) :: rest) = present rest := by
        simp [present, hundefined]
      rw [hpresent]
      by_cases hkey : key = name
      · rw [hkey, beq_self_eq_true] at h
        cases h
        rw [hkey, lookup_present_none hnew]
        cases hvalue : result.value with
        | undefined => rfl
        | leaf _ | array _ | record _ =>
          rw [hvalue] at hundefined
          cases hundefined
      · rw [beq_false_of_ne hkey] at h
        exact ih hrest h
    | false =>
      have hpresent : present ((name, found) :: rest) = (name, found.value) :: present rest := by
        simp [present, hundefined]
      rw [hpresent, lookup_cons]
      by_cases hkey : key = name
      · rw [hkey, beq_self_eq_true] at h ⊢
        cases h
        rfl
      · rw [beq_false_of_ne hkey] at h ⊢
        exact ih hrest h

theorem walkProperties_eq (dict : List (String × SchemaNode)) (value : SettingsValue α)
    (path : List String) : walkProperties inherited dict value path =
      dict.map fun entry =>
        (entry.1, walk inherited entry.2 (value.member inherited entry.1) (path ++ [entry.1])) := by
  induction dict with
  | nil => rfl
  | cons entry rest ih => rw [map_cons, walkProperties, ih]

end Rebuilt

section Values

variable {α : Type} {inherited : String → Option (SettingsValue α)} {key : String}
  {dict : List (String × SchemaNode)} {schema child : SchemaNode} {value part : SettingsValue α}
  {path : List String} {step : PathStep} {steps : List PathStep}

theorem sameTop_refl (value : SettingsValue α) : SameTop value value := by
  cases value <;> simp [SameTop]

theorem readAt_undefined (steps : List PathStep) :
    readAt (.undefined : SettingsValue α) steps = .undefined := by
  induction steps with
  | nil => rfl
  | cons step rest ih => cases step <;> exact ih

theorem member_eq_own (hkey : inherited key = none) (value : SettingsValue α) :
    value.member inherited key = value.own key := by
  unfold SettingsValue.member
  rw [hkey, Option.or_none]
  cases value <;> rfl

theorem keys_walkProperties :
    (walkProperties inherited dict value path).map Prod.fst = dict.map Prod.fst := by
  rw [walkProperties_eq, map_map]
  rfl

/-- Under an object schema what is no record is left as it is. -/
theorem walk_object_of_not_record (h : ∀ entry ∈ dict, ∀ path : List String,
    (walk inherited entry.2 .undefined path).value = .undefined) (hrecord : value.isRecord = false) :
    (walk inherited (.object dict) value path).value = value := by
  have hpresent : present (walkProperties inherited dict value path) = [] := by
    rw [present, map_eq_nil_iff, filter_eq_nil_iff, walkProperties_eq]
    intro field hfield
    obtain ⟨entry, hentry, rfl⟩ := mem_map.mp hfield
    show ¬(!(walk inherited entry.2 (value.member inherited entry.1) _).value.isUndefined) = true
    rw [SettingsValue.member, hrecord, if_neg Bool.false_ne_true, h entry hentry]
    exact Bool.false_ne_true
  rw [walk, hpresent]
  cases value with
  | record fields => cases hrecord
  | undefined | leaf _ | array _ => rfl

theorem walk_undefined (h : schema.WellFormed) (path : List String) :
    (walk inherited schema .undefined path).value = .undefined := by
  induction h generalizing path with
  | object hdict hchildren ih => exact walk_object_of_not_record ih rfl
  | secret | dict | array | other => rfl

theorem SchemaNode.WellFormed.under (h : schema.WellFormed)
    (hunder : under schema value step = some (child, part)) :
    child.WellFormed ∧ part = value.atStep step := by
  unfold Settings.under at hunder
  split at hunder
  · obtain ⟨found, hfound, heq⟩ := Option.map_eq_some_iff.mp hunder
    cases heq
    cases h with
    | object hdict hchildren => exact ⟨hchildren _ (mem_of_lookup_eq_some hfound), rfl⟩
  · obtain ⟨found, hfound, heq⟩ := Option.map_eq_some_iff.mp hunder
    cases heq
    cases h with
    | dict hinner =>
      refine ⟨hinner, ?_⟩
      rw [SettingsValue.atStep, SettingsValue.own, hfound]
      rfl
  · obtain ⟨found, hfound, heq⟩ := Option.map_eq_some_iff.mp hunder
    cases heq
    cases h with
    | array hinner =>
      refine ⟨hinner, ?_⟩
      rw [SettingsValue.atStep, SettingsValue.item, hfound]
      rfl
  · cases hunder

theorem own_walk_object (hdict : (dict.map Prod.fst).Nodup) {fields : List (String × SettingsValue α)}
    (hfields : (fields.map Prod.fst).Nodup) (hkey : inherited key = none ∧ key ≠ "__proto__") :
    (walk inherited (.object dict) (.record fields) path).value.own key =
      match dict.lookup key with
      | some child =>
        (walk inherited child ((SettingsValue.record fields).own key) (path ++ [key])).value
      | none => (SettingsValue.record fields).own key := by
  have hwalked : ((walkProperties inherited dict (.record fields) path).map Prod.fst).Nodup := by
    rw [keys_walkProperties]
    exact hdict
  have hkept : ((fields.filter fun field => !isProperty inherited dict field.1).map Prod.fst).Nodup :=
    hfields.sublist (filter_sublist.map Prod.fst)
  have hown : (walk inherited (.object dict) (.record fields) path).value.own key =
      (((present (walkProperties inherited dict (.record fields) path)).lookup key).or
        (if !isProperty inherited dict key then fields.lookup key else none)).getD .undefined := by
    rw [walk]
    show ((assignAll (assignAll .empty _) _).get? key).getD .undefined = _
    rw [get?_assignAll (nodup_present hwalked) hkey.2]
    show (Option.or _ ((assignAll .empty (fields.filter _)).get? key)).getD .undefined = _
    rw [get?_assignAll hkept hkey.2, lookup_filter fun name => !isProperty inherited dict name,
      show (OrderedMap.empty : OrderedMap String (SettingsValue α)).get? key = none from rfl,
      Option.or_none]
  have hlookup : (walkProperties inherited dict (.record fields) path).lookup key =
      (dict.lookup key).map fun child =>
        walk inherited child ((SettingsValue.record fields).member inherited key) (path ++ [key]) := by
    rw [walkProperties_eq]
    exact lookup_map_value (fun name child =>
      walk inherited child ((SettingsValue.record fields).member inherited name) (path ++ [name])) dict
  rw [member_eq_own hkey.1] at hlookup
  rw [hown, isProperty, hkey.1]
  cases hchild : dict.lookup key with
  | some child =>
    rw [hchild] at hlookup
    exact (congrArg (Option.getD · _) (Option.or_none ..)).trans (getD_lookup_present hwalked hlookup)
  | none =>
    have hmem := lookup_eq_none_iff_not_mem.mp hchild
    rw [lookup_present_none (keys_walkProperties ▸ hmem)]
    rfl

theorem own_walk_dict {inner : SchemaNode} {fields : List (String × SettingsValue α)}
    (hfields : (fields.map Prod.fst).Nodup) (hkey : key ≠ "__proto__") :
    (walk inherited (.dict inner) (.record fields) path).value.own key =
      ((fields.lookup key).map fun entry =>
        (walk inherited inner entry (path ++ [key])).value).getD .undefined := by
  have hkeys : (fields.map fun field =>
      (field.1, walk inherited inner field.2 (path ++ [field.1]))).map Prod.fst = fields.map Prod.fst := by
    rw [map_map]
    rfl
  have hlookup := @lookup_map_value String _ _ key _
    (fun name entry => walk inherited inner entry (path ++ [name])) fields
  rw [walk]
  show ((assignAll .empty (present (fields.map _))).get? key).getD .undefined = _
  rw [get?_assignAll (nodup_present (hkeys ▸ hfields)) hkey,
    show (OrderedMap.empty : OrderedMap String (SettingsValue α)).get? key = none from rfl, Option.or_none]
  cases hentry : fields.lookup key with
  | some entry =>
    rw [hentry] at hlookup
    exact getD_lookup_present (hkeys ▸ hfields) hlookup
  | none =>
    rw [lookup_present_none (hkeys ▸ lookup_eq_none_iff_not_mem.mp hentry)]
    rfl

/-- Below a node that is no secret stands what is redacted there, or what stood there before. -/
theorem atStep_walk (h : schema.WellFormed) (hvalue : value.WellFormed) (hsecret : schema ≠ .secret)
    (hplain : Plain inherited [step]) :
    (walk inherited schema value path).value.atStep step =
      match under schema value step with
      | some (child, part) => (walk inherited child part (path ++ [step.text])).value
      | none => value.atStep step := by
  cases h with
  | secret => exact absurd rfl hsecret
  | @object dict hdict hchildren =>
    have hnone : ∀ entry ∈ dict, ∀ path : List String,
        (walk inherited entry.2 .undefined path).value = .undefined :=
      fun entry hentry => walk_undefined (hchildren entry hentry)
    cases step with
    | index position =>
      cases hrecord : value.isRecord with
      | false =>
        rw [walk_object_of_not_record hnone hrecord]
        rfl
      | true =>
        cases value with
        | record fields => rfl
        | undefined | leaf _ | array _ => cases hrecord
    | key name =>
      cases value with
      | record fields =>
        have hown := @own_walk_object _ inherited name dict path hdict fields (hvalue [])
          (hplain name mem_cons_self)
        rw [under]
        cases hchild : dict.lookup name <;> rw [hchild] at hown <;> exact hown
      | undefined | leaf _ | array _ =>
        rw [walk_object_of_not_record hnone rfl, under]
        cases hchild : dict.lookup name with
        | none => rfl
        | some child => exact (hnone _ (mem_of_lookup_eq_some hchild) _).symm
  | @dict inner hinner =>
    cases value with
    | undefined | leaf _ | array _ => cases step <;> rfl
    | record fields =>
      cases step with
      | index position => rfl
      | key name =>
        have hown := @own_walk_dict _ inherited name path inner fields (hvalue [])
          (hplain name mem_cons_self).2
        have hbefore : (SettingsValue.record fields).atStep (.key name) =
            (fields.lookup name).getD .undefined := rfl
        rw [hbefore, under, SettingsValue.atStep, hown, SettingsValue.fields]
        cases fields.lookup name <;> rfl
  | @array inner hinner =>
    cases value with
    | undefined | leaf _ | record _ => cases step <;> rfl
    | array items =>
      cases step with
      | key name => rfl
      | index position =>
        have hbefore : (SettingsValue.array items).atStep (.index position) =
            items[position]?.getD .undefined := rfl
        rw [hbefore, under, walk, SettingsValue.atStep, SettingsValue.item, getElem?_map,
          getElem?_mapIdx]
        cases items[position]? <;> rfl
  | other => rfl

theorem sameTop_walk (h : schema.WellFormed) (hsecret : schema ≠ .secret) :
    SameTop (walk inherited schema value path).value value := by
  cases h with
  | secret => exact absurd rfl hsecret
  | object hdict hchildren =>
    cases value with
    | record fields => trivial
    | undefined | leaf _ | array _ =>
      rw [walk_object_of_not_record (fun entry hentry => walk_undefined (hchildren entry hentry)) rfl]
      exact sameTop_refl _
  | dict => cases value <;> simp [walk, SettingsValue.isRecord, SameTop]
  | array => cases value <;> simp [walk, SameTop]
  | other => exact sameTop_refl _

theorem SettingsValue.WellFormed.atStep (h : value.WellFormed) (step : PathStep) :
    (value.atStep step).WellFormed :=
  fun steps => h (step :: steps)

theorem Plain.head (h : Plain inherited (step :: steps)) : Plain inherited [step] :=
  fun name hname => h name (mem_cons.mpr (.inl (mem_singleton.mp hname)))

theorem Plain.tail (h : Plain inherited (step :: steps)) : Plain inherited steps :=
  fun name hname => h name (mem_cons_of_mem _ hname)

/-- A declared secret is removed. -/
theorem readAt_walk_of_secretAt (hat : SecretAt False schema value steps) (h : schema.WellFormed)
    (hvalue : value.WellFormed) (hplain : Plain inherited steps) :
    readAt (walk inherited schema value path).value steps = .undefined := by
  induction hat generalizing path with
  | here => rfl
  | @down schema child value part step steps hunder hat ih =>
    obtain ⟨hchild, rfl⟩ := h.under hunder
    have hsecret : schema ≠ .secret := by
      rintro rfl
      cases step <;> cases hunder
    rw [readAt, atStep_walk h hvalue hsecret hplain.head, hunder]
    exact ih hchild (hvalue.atStep step) hplain.tail
  | branch hfollows => exact hfollows.elim

/-- What is no declared secret, nor part of one, is kept. -/
theorem sameTop_readAt_walk (h : schema.WellFormed) (hvalue : value.WellFormed)
    (hplain : Plain inherited steps)
    (hfree : ∀ before, before <+: steps → ¬SecretAt False schema value before) :
    SameTop (readAt (walk inherited schema value path).value steps) (readAt value steps) := by
  have hsecret : schema ≠ .secret := by
    rintro rfl
    exact hfree [] nil_prefix .here
  induction steps generalizing schema value path with
  | nil => exact sameTop_walk h hsecret
  | cons step rest ih =>
    rw [readAt, readAt, atStep_walk h hvalue hsecret hplain.head]
    cases hunder : under schema value step with
    | none => exact sameTop_refl _
    | some found =>
      obtain ⟨child, part⟩ := found
      obtain ⟨hchild, rfl⟩ := h.under hunder
      have hrest : ∀ before, before <+: rest → ¬SecretAt False child (value.atStep step) before :=
        fun before hbefore hat =>
          hfree (step :: before) (cons_prefix_cons.mpr ⟨rfl, hbefore⟩) (.down hunder hat)
      apply ih hchild (hvalue.atStep step) hplain.tail hrest
      rintro rfl
      exact hrest [] nil_prefix .here

/-- What is listed below a node is listed for it. -/
theorem secrets_subset (hunder : under schema value step = some (child, part))
    (hplain : Plain inherited [step]) :
    (walk inherited child part (path ++ [step.text])).secrets ⊆ (walk inherited schema value path).secrets := by
  intro secret hsecret
  unfold under at hunder
  split at hunder
  · rename_i dict value name
    obtain ⟨found, hfound, heq⟩ := Option.map_eq_some_iff.mp hunder
    cases heq
    rw [walk, walkProperties_eq]
    refine mem_flatMap.mpr ⟨_, mem_map_of_mem (mem_of_lookup_eq_some hfound), ?_⟩
    rw [member_eq_own (hplain name mem_cons_self).1]
    exact hsecret
  · rename_i inner value name
    obtain ⟨found, hfound, heq⟩ := Option.map_eq_some_iff.mp hunder
    cases heq
    cases value with
    | undefined | leaf _ | array _ => cases hfound
    | record fields =>
      rw [walk]
      exact mem_flatMap.mpr ⟨_, mem_map.mpr ⟨_, mem_of_lookup_eq_some hfound, rfl⟩, hsecret⟩
  · rename_i inner items position
    obtain ⟨found, hfound, heq⟩ := Option.map_eq_some_iff.mp hunder
    cases heq
    rw [walk]
    refine mem_flatMap.mpr ⟨_, mem_of_getElem? (i := position) ?_, hsecret⟩
    rw [getElem?_mapIdx, hfound]
    rfl
  · cases hunder

theorem secret_listed (hat : SecretAt False schema value steps) (h : schema.WellFormed)
    (hplain : Plain inherited steps) :
    ⟨path ++ steps.map PathStep.text, !(readAt value steps).isUndefined⟩ ∈
      (walk inherited schema value path).secrets := by
  induction hat generalizing path with
  | here =>
    rw [map_nil, append_nil]
    exact mem_singleton_self _
  | @down schema child value part step steps hunder hat ih =>
    obtain ⟨hchild, rfl⟩ := h.under hunder
    rw [map_cons, append_cons, readAt]
    exact secrets_subset hunder hplain.head (ih hchild hplain.tail)
  | branch hfollows => exact hfollows.elim

/-- A listed secret below a field or an item. -/
theorem listed_down {secret : RedactedSecret} (h : schema.WellFormed)
    (hbelow : ∃ steps, secret.path = (path ++ [step.text]) ++ steps.map PathStep.text ∧
      (part.WellFormed → Plain inherited steps →
        SecretAt False child part steps ∧ secret.set = !(readAt part steps).isUndefined))
    (hunder : value.WellFormed → Plain inherited [step] → under schema value step = some (child, part)) :
    ∃ steps, secret.path = path ++ steps.map PathStep.text ∧ (value.WellFormed → Plain inherited steps →
      SecretAt False schema value steps ∧ secret.set = !(readAt value steps).isUndefined) := by
  obtain ⟨steps, hpath, hsteps⟩ := hbelow
  refine ⟨step :: steps, hpath.trans (append_assoc _ _ _), fun hvalue hplain => ?_⟩
  have hfound := hunder hvalue hplain.head
  obtain ⟨-, rfl⟩ := h.under hfound
  obtain ⟨hat, hset⟩ := hsteps (hvalue.atStep step) hplain.tail
  exact ⟨.down hfound hat, hset⟩

/-- Every listed position is one of a secret, with whether it holds a value. -/
theorem listed_secret (h : schema.WellFormed) {secret : RedactedSecret}
    (hmem : secret ∈ (walk inherited schema value path).secrets) :
    ∃ steps, secret.path = path ++ steps.map PathStep.text ∧ (value.WellFormed → Plain inherited steps →
      SecretAt False schema value steps ∧ secret.set = !(readAt value steps).isUndefined) := by
  induction h generalizing value path with
  | secret =>
    obtain rfl := mem_singleton.mp hmem
    exact ⟨[], (append_nil path).symm, fun _ _ => ⟨.here, rfl⟩⟩
  | @object dict hdict hchildren ih =>
    rw [walk, walkProperties_eq] at hmem
    obtain ⟨field, hfield, hsecret⟩ := mem_flatMap.mp hmem
    obtain ⟨⟨name, child⟩, hchild, rfl⟩ := mem_map.mp hfield
    refine @listed_down _ inherited _ child value _ path (.key name) secret (.object hdict hchildren)
      (ih _ hchild hsecret) fun _ hplain => ?_
    rw [under, lookup_eq_some_of_mem hdict hchild, member_eq_own (hplain name mem_cons_self).1]
    rfl
  | @dict inner hinner ih =>
    cases value with
    | undefined | leaf _ | array _ => cases hmem
    | record fields =>
      rw [walk] at hmem
      obtain ⟨field, hfield, hsecret⟩ := mem_flatMap.mp hmem
      obtain ⟨⟨name, entry⟩, hentry, rfl⟩ := mem_map.mp hfield
      refine @listed_down _ inherited _ inner _ entry path (.key name) secret (.dict hinner)
        (ih hsecret) fun hvalue _ => ?_
      have hlookup : fields.lookup name = some entry := lookup_eq_some_of_mem (hvalue []) hentry
      rw [under, SettingsValue.fields, hlookup]
      rfl
  | @array inner hinner ih =>
    cases value with
    | undefined | leaf _ | record _ => cases hmem
    | array items =>
      rw [walk] at hmem
      obtain ⟨redacted, hredacted, hsecret⟩ := mem_flatMap.mp hmem
      obtain ⟨position, hposition⟩ := getElem?_of_mem hredacted
      rw [getElem?_mapIdx] at hposition
      obtain ⟨entry, hentry, rfl⟩ := Option.map_eq_some_iff.mp hposition
      refine @listed_down _ inherited _ inner _ entry path (.index position) secret (.array hinner)
        (ih hsecret) fun _ _ => ?_
      rw [under, hentry]
      rfl
  | other => cases hmem

end Values

/-- A redacted value has nothing where a secret is declared, and everything else as it was; the list
names the positions of the secrets and whether they held a value. -/
theorem redactSecrets_exact {α : Type} (inherited : String → Option (SettingsValue α))
    {schema : SchemaNode} (hschema : schema.WellFormed) {value : SettingsValue α}
    (hvalue : value.WellFormed) :
    (∀ steps, Plain inherited steps →
      (SecretAt False schema value steps →
        readAt (redactSecrets inherited schema value).value steps = .undefined ∧
        ⟨steps.map PathStep.text, !(readAt value steps).isUndefined⟩ ∈
          (redactSecrets inherited schema value).secrets) ∧
      ((∀ before, before <+: steps → ¬SecretAt False schema value before) →
        SameTop (readAt (redactSecrets inherited schema value).value steps) (readAt value steps))) ∧
    ∀ secret ∈ (redactSecrets inherited schema value).secrets, ∃ steps,
      secret.path = steps.map PathStep.text ∧ (Plain inherited steps →
        SecretAt False schema value steps ∧ secret.set = !(readAt value steps).isUndefined) := by
  constructor
  · intro steps hplain
    refine ⟨fun hat => ⟨?_, ?_⟩, fun hfree => ?_⟩
    · exact readAt_walk_of_secretAt hat hschema hvalue hplain
    · exact secret_listed hat hschema hplain
    · exact sameTop_readAt_walk hschema hvalue hplain hfree
  · intro secret hsecret
    obtain ⟨steps, hpath, hsteps⟩ := listed_secret hschema hsecret
    exact ⟨steps, hpath, hsteps hvalue⟩

/-- What plain objects inherit. -/
def objectPrototype (name : String) : Option (SettingsValue String) :=
  if ["constructor", "__defineGetter__", "__defineSetter__", "hasOwnProperty", "__lookupGetter__",
      "__lookupSetter__", "isPrototypeOf", "propertyIsEnumerable", "toString", "valueOf",
      "toLocaleString"].contains name then some (.leaf name)
  else if name = "__proto__" then some (.record []) else none

def tokenValue : SettingsValue String := .record [("token", .leaf "sk")]

theorem wellFormed_token : tokenValue.WellFormed := by
  have hleaf (steps : List PathStep) : (readAt (.leaf "sk") steps).fields = [] := by
    cases steps with
    | nil => rfl
    | cons step rest =>
      have hnone : (SettingsValue.leaf "sk").atStep step = .undefined := by cases step <;> rfl
      rw [readAt, hnone, readAt_undefined]
      rfl
  intro steps
  cases steps with
  | nil => exact nodup_singleton _
  | cons step rest =>
    have hpart : tokenValue.atStep step = .leaf "sk" ∨ tokenValue.atStep step = .undefined := by
      cases step with
      | index position => exact .inr rfl
      | key name =>
        have hown : tokenValue.atStep (.key name) =
            (lookup name [("token", SettingsValue.leaf "sk")]).getD .undefined := rfl
        rw [hown, lookup_cons]
        cases name == "token" with
        | true => exact .inl rfl
        | false => exact .inr rfl
    rcases hpart with hpart | hpart
    · rw [readAt, hpart, hleaf]
      exact nodup_nil
    · rw [readAt, hpart, readAt_undefined]
      exact nodup_nil

theorem plain_token : Plain objectPrototype [.key "token"] := by
  intro name hname
  cases mem_singleton.mp hname
  exact ⟨rfl, by decide⟩

theorem redactSecrets_exact_token :
    readAt (redactSecrets objectPrototype (.object [("token", .secret)]) tokenValue).value [.key "token"] =
        .undefined ∧
      ⟨["token"], true⟩ ∈
        (redactSecrets objectPrototype (.object [("token", .secret)]) tokenValue).secrets := by
  have hschema : (SchemaNode.object [("token", .secret)]).WellFormed := by
    refine .object (nodup_singleton _) fun entry hentry => ?_
    rw [mem_singleton.mp hentry]
    exact .secret
  exact ((redactSecrets_exact objectPrototype hschema wellFormed_token).1 _ plain_token).1 (.down rfl .here)

/-- A secret in a union is handed out. -/
theorem union_secret_kept :
    SecretAt True (.object [("token", .other [.secret, .other []])]) tokenValue [.key "token"] ∧
      readAt (redactSecrets objectPrototype (.object [("token", .other [.secret, .other []])])
        tokenValue).value [.key "token"] = .leaf "sk" :=
  ⟨.down rfl (.branch trivial mem_cons_self .here), rfl⟩

end DshKernel.Settings
