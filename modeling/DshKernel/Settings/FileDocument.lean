import DshKernel.Settings.PathEdits

/-!
# The text of the settings document

How the file provider reads a document from its text, and how it renders the text after a write of
one section: JSON is written anew, YAML is patched where the section differs.
-/

namespace DshKernel.Settings

open Js Lib List Option

inductive SettingsFormat where
  | yaml
  | json
  deriving DecidableEq

def inherited : List String :=
  ["constructor", "__defineGetter__", "__defineSetter__", "hasOwnProperty", "__lookupGetter__",
    "__lookupSetter__", "isPrototypeOf", "propertyIsEnumerable", "toString", "valueOf", "__proto__",
    "toLocaleString"]

/-- The `JSON` object, and the `yaml` package with its documents that keep comments. -/
structure TextLibrary (Text Document : Type) where
  empty : Text
  /-- `text.trim().length === 0` -/
  isBlank : Text → Bool
  parseJson : Text → Except String Json
  stringify : Json → Text
  parseDocument : Text → Except String Document
  toJS : Document → Json
  /-- `new Document(value)` -/
  newDocument : Json → Document
  setIn : Document → List String → Json → Except String Document
  deleteIn : Document → List String → Except String Document
  toString : Document → Text

def Settable (root : Json) (path : List String) : Prop :=
  (∃ fields, valueAt root path = some (.obj fields)) ∨ path = [] ∧ root = .null

def Means (value : Json) (found : Json) : Prop := Data found ∧ deepEqualJson found value = true

/-- What the provider relies on. A plain document has maps with keys that are strings, and neither
anchors nor aliases. -/
structure TextLibrary.Lawful {Text Document : Type} (T : TextLibrary Text Document)
    (Plain : Document → Prop) : Prop where
  empty : T.isBlank T.empty = true ∧ ∃ d, T.parseDocument T.empty = .ok d ∧ T.toJS d = .null
  stringify : ∀ value, Data value → T.isBlank (T.stringify value) = false ∧
    ∃ found, T.parseJson (T.stringify value) = .ok found ∧ Means value found
  newDocument : ∀ value, Data value → ∃ d, T.parseDocument (T.toString (T.newDocument value)) = .ok d ∧
    Means value (T.toJS d)
  toString : ∀ d, Plain d → Data (T.toJS d) →
    ∃ read, T.parseDocument (T.toString d) = .ok read ∧ Means (T.toJS d) (T.toJS read)
  setIn : ∀ d path key value, Plain d → Data (T.toJS d) → Data value → "__proto__" ∉ path ++ [key] →
    Settable (T.toJS d) path → ∃ d', T.setIn d (path ++ [key]) value = .ok d' ∧ Plain d' ∧
      Means (setAt (T.toJS d) (path ++ [key]) value) (T.toJS d')
  deleteIn : ∀ d path key, Plain d → Data (T.toJS d) → Settable (T.toJS d) path →
    ∃ d', T.deleteIn d (path ++ [key]) = .ok d' ∧ Plain d' ∧
      Means (removeAt (T.toJS d) (path ++ [key])) (T.toJS d')

section Render

variable {Text Document : Type} (T : TextLibrary Text Document)

/-- `current[key]`: `__proto__` is the object that every other one inherits from. -/
def readKey (fields : Fields) (key : String) : Option Json :=
  match fields.lookup key with
  | some value => some value
  | none => if key = "__proto__" then some (.obj []) else none

/-- `key in next` -/
def isIn (key : String) (next : Fields) : Bool :=
  (next.lookup key).isSome || inherited.contains key

/-- The first loop of `patchNode`. -/
def deleteKeys (path : List String) (next : Fields) : Document → Fields → Except String Document
  | d, [] => .ok d
  | d, (key, _) :: rest =>
    if isIn key next then deleteKeys path next d rest
    else
      match T.deleteIn d (path ++ [key]) with
      | .error error => .error error
      | .ok deleted => deleteKeys path next deleted rest

mutual

def patchNode (d : Document) (path : List String) (current : Option Json) :
    Json → Except String Document
  | .obj next =>
    match current with
    | some (.obj fields) =>
      match deleteKeys T path next d fields with
      | .error error => .error error
      | .ok kept => patchFields kept path fields next
    | other => if sameJson other (some (.obj next)) then .ok d else T.setIn d path (.obj next)
  | next => if sameJson current (some next) then .ok d else T.setIn d path next

/-- The second loop of `patchNode`. -/
def patchFields (d : Document) (path : List String) (current : Fields) :
    Fields → Except String Document
  | [] => .ok d
  | (key, value) :: rest =>
    match patchNode d (path ++ [key]) (readKey current key) value with
    | .error error => .error error
    | .ok patched => patchFields patched path current rest

end

def rootSections : Json → Except String Fields
  | .null => .ok []
  | .obj fields => .ok fields
  | _ => .error "settings-file: the document must be a map of namespace sections"

def parse (format : SettingsFormat) (text : Text) : Except String Fields :=
  match format with
  | .yaml =>
    match T.parseDocument text with
    | .error error => .error error
    | .ok d => rootSections (T.toJS d)
  | .json =>
    if T.isBlank text then .ok []
    else
      match T.parseJson text with
      | .error error => .error error
      | .ok .null => .error "settings-file: the document must be a map of namespace sections"
      | .ok root => rootSections root

def parseFile (format : SettingsFormat) : Option Text → Except String Fields
  | none => .ok []
  | some text => parse T format text

def renderYaml (text : Option Text) (ns : String) («section» : Fields) : Except String Text :=
  match text with
  | none => .ok (T.toString (T.newDocument (.obj [(ns, .obj «section»)])))
  | some text =>
    match T.parseDocument text with
    | .error error => .error error
    | .ok d =>
      let current := match T.toJS d with
        | .obj root => readKey root ns
        | _ => none
      match patchNode T d [ns] current (.obj «section») with
      | .error error => .error error
      | .ok patched => .ok (T.toString patched)

def renderJson (text : Option Text) (ns : String) («section» : Fields) : Except String Text :=
  match parseFile T .json text with
  | .error error => .error error
  | .ok root => .ok (T.stringify (.obj (setField root ns (.obj «section»))))

def render (format : SettingsFormat) (text : Option Text) (ns : String) («section» : Fields) :
    Except String Text :=
  match format with
  | .yaml => renderYaml T text ns «section»
  | .json => renderJson T text ns «section»

end Render

def Own (value : Json) : Prop :=
  ∀ path fields, valueAt value path = some (.obj fields) → ∀ key ∈ inherited,
    fields.lookup key = none

def leftFields (next current : Fields) : Fields :=
  current.filter fun field => inherited.contains field.1 && (next.lookup field.1).isNone

mutual

def patched (current : Option Json) : Json → Json
  | .obj next =>
    match current with
    | some (.obj fields) => .obj (patchedFields fields next ++ leftFields next fields)
    | _ => .obj next
  | next => next

def patchedFields (current : Fields) : Fields → Fields
  | [] => []
  | (key, value) :: rest => (key, patched (current.lookup key) value) :: patchedFields current rest

end

theorem readKey_of_ne {fields : Fields} {key : String} (h : key ≠ "__proto__") :
    readKey fields key = fields.lookup key := by
  unfold readKey
  split
  · rename_i hlookup
    exact hlookup.symm
  · rename_i hlookup
    rw [if_neg h, hlookup]

namespace Means

variable {value found other : Json}

theorem trans (h : Means value found) (hvalue : Data value) (hother : Data other)
    (hsame : deepEqualJson value other = true) : Means other found :=
  ⟨h.1, deepEqualJson_trans h.1 hvalue hother h.2 hsame⟩

theorem fields {fields : Fields} (h : Means (.obj fields) found) (hfields : Data (.obj fields)) :
    ∃ own, found = .obj own ∧ SameFields own fields := by
  obtain ⟨hdata, hsame⟩ := h
  cases found with
  | obj own => exact ⟨own, rfl, (deepEqualJson_obj_iff hdata hfields).mp hsame⟩
  | _ => simp [deepEqualJson] at hsame

theorem settable {path : List String} {root : Json} {fields : Fields}
    (h : Means (setAt root path (.obj fields)) found) (hroot : Data root)
    (hfields : Data (.obj fields)) (hpath : "__proto__" ∉ path) : Settable found path := by
  have hvalue := valueAt_congr (path ++ []) h.1 (data_setAt hroot hfields hpath) h.2
  rw [valueAt_setAt_append, valueAt_nil, append_nil] at hvalue
  cases hfound : valueAt found path with
  | none =>
    rw [hfound] at hvalue
    cases hvalue
  | some inner =>
    rw [hfound] at hvalue
    cases inner with
    | obj own => exact .inl ⟨own, hfound⟩
    | _ => simp [sameJson, deepEqualJson] at hvalue

end Means

section PatchNode

variable {Text Document : Type} {T : TextLibrary Text Document} {Plain : Document → Prop}

def keptFields (next : Fields) : Fields → Fields → Fields
  | kept, [] => kept
  | kept, (key, _) :: rest =>
    if isIn key next then keptFields next kept rest
    else keptFields next (removeField kept key) rest

def setFields : Fields → Fields → Fields
  | fields, [] => fields
  | fields, (key, value) :: rest => setFields (setField fields key value) rest

variable {kept : Fields} {root : Json}

variable {current next : Fields} {key : String} {d : Document} {path : List String}

theorem lookup_keptFields :
    (keptFields next kept current).lookup key =
      if (current.lookup key).isSome && !isIn key next then none else kept.lookup key := by
  induction current generalizing kept with
  | nil => simp [keptFields]
  | cons field rest ih =>
    obtain ⟨k, v⟩ := field
    rw [keptFields, lookup_cons]
    by_cases hkey : key = k
    · subst hkey
      rw [beq_self_eq_true]
      by_cases hin : isIn key next = true
      · rw [if_pos hin, ih, hin]
        simp
      · rw [if_neg hin, ih, lookup_removeField, Bool.not_eq_true] at *
        simp [hin]
    · rw [beq_false_of_ne hkey]
      by_cases hin : isIn k next = true
      · rw [if_pos hin, ih]
      · rw [if_neg hin, ih, lookup_removeField, if_neg hkey]

theorem lookup_setFields {fields : Fields} (hnodup : (next.map Prod.fst).Nodup) :
    (setFields fields next).lookup key = (next.lookup key).or (fields.lookup key) := by
  induction next generalizing fields with
  | nil => simp [setFields]
  | cons field rest ih =>
    obtain ⟨k, v⟩ := field
    rw [map_cons, nodup_cons] at hnodup
    rw [setFields, ih hnodup.2, lookup_setField, lookup_cons]
    by_cases hkey : key = k
    · subst hkey
      have hnone : rest.lookup key = none := by
        rw [← not_isSome_iff_eq_none, lookup_isSome_iff]
        exact hnodup.1
      simp [hnone]
    · rw [if_neg hkey, beq_false_of_ne hkey]

theorem data_setFields {fields : Fields} (hfields : Data (.obj fields))
    (hnext : ∀ field ∈ next, field.1 ≠ "__proto__" ∧ Data field.2) :
    Data (.obj (setFields fields next)) := by
  induction next generalizing fields with
  | nil => exact hfields
  | cons field rest ih =>
    obtain ⟨hkey, hvalue⟩ := hnext field mem_cons_self
    exact ih (data_setField hfields hkey hvalue)
      fun other hmem => hnext other (mem_cons_of_mem _ hmem)

theorem data_keptFields (next current : Fields) (hkept : Data (.obj kept)) :
    Data (.obj (keptFields next kept current)) := by
  induction current generalizing kept with
  | nil => exact hkept
  | cons field rest ih =>
    rw [keptFields]
    split
    · exact ih hkept
    · exact ih (data_removeField hkept)

theorem lookup_patchedFields :
    (patchedFields current next).lookup key =
      (next.lookup key).map (patched (current.lookup key)) := by
  induction next with
  | nil => rfl
  | cons field rest ih =>
    obtain ⟨k, v⟩ := field
    rw [patchedFields, lookup_cons, lookup_cons, ih]
    by_cases hkey : key = k
    · rw [hkey, beq_self_eq_true]
      rfl
    · rw [beq_false_of_ne hkey]

theorem map_fst_patchedFields (current next : Fields) :
    (patchedFields current next).map Prod.fst = next.map Prod.fst := by
  induction next with
  | nil => rfl
  | cons field rest ih => rw [patchedFields, map_cons, map_cons, ih]

theorem lookup_leftFields :
    (leftFields next current).lookup key =
      if inherited.contains key && (next.lookup key).isNone then current.lookup key else none :=
  lookup_filter (fun key => inherited.contains key && (next.lookup key).isNone) current

theorem mem_patchedFields {field : String × Json} (h : field ∈ patchedFields current next) :
    ∃ value, (field.1, value) ∈ next ∧ field.2 = patched (current.lookup field.1) value := by
  induction next with
  | nil => cases h
  | cons first rest ih =>
    obtain ⟨k, v⟩ := first
    rw [patchedFields, mem_cons] at h
    rcases h with rfl | h
    · exact ⟨v, mem_cons_self, rfl⟩
    · obtain ⟨value, hmem, heq⟩ := ih h
      exact ⟨value, mem_cons_of_mem _ hmem, heq⟩

theorem data_patched {next : Json} (hnext : Data next) (current : Option Json)
    (hcurrent : ∀ value, current = some value → Data value) : Data (patched current next) := by
  induction hnext generalizing current with
  | null => exact .null
  | bool value => exact .bool value
  | num hnan hfinite => exact .num hnan hfinite
  | str value => exact .str value
  | arr hitems => exact .arr hitems
  | @obj next hnodup hproto hfields ih =>
    cases current with
    | none => exact .obj hnodup hproto hfields
    | some current =>
      cases current with
      | obj current =>
        have hdata := hcurrent _ rfl
        cases hdata with
        | obj hcurrentNodup hcurrentProto hcurrentFields =>
        refine .obj ?_ ?_ ?_
        · rw [map_append, map_fst_patchedFields, nodup_append]
          refine ⟨hnodup, hcurrentNodup.sublist (filter_sublist.map _), ?_⟩
          rintro key hkey other hother rfl
          obtain ⟨field, hfield, rfl⟩ := mem_map.mp hother
          have hleft := (mem_filter.mp hfield).2
          rw [← lookup_isSome_iff, isSome_iff_ne_none] at hkey
          simp only [Bool.and_eq_true, isNone_iff_eq_none] at hleft
          exact hkey hleft.2
        · rw [map_append, map_fst_patchedFields, mem_append, not_or]
          exact ⟨hproto, fun hmem => hcurrentProto ((filter_sublist.map _).subset hmem)⟩
        · intro field hmem
          rcases mem_append.mp hmem with hnew | hleft
          · obtain ⟨value, hvalue, heq⟩ := mem_patchedFields hnew
            rw [heq]
            exact ih _ hvalue _ fun old hold =>
              hcurrentFields _ (mem_of_lookup_eq_some hold)
          · exact hcurrentFields field (mem_filter.mp hleft).1
      | _ => exact .obj hnodup hproto hfields

theorem sameFields_patched {stored : Fields} (hnodup : (next.map Prod.fst).Nodup)
    (hpatched : Data (.obj (patchedFields current next ++ leftFields next current)))
    (hstored : SameFields stored current) :
    SameFields (setFields (keptFields next stored current) (patchedFields current next))
      (patchedFields current next ++ leftFields next current) := by
  intro key
  rw [lookup_setFields (by rw [map_fst_patchedFields]; exact hnodup), lookup_append]
  cases hkey : (patchedFields current next).lookup key with
  | some value =>
    refine deepEqualJson_refl (@Data.lookup _ _ key hpatched ?_)
    rw [lookup_append, hkey, some_or]
  | none =>
    have hnone : next.lookup key = none := by
      rw [lookup_patchedFields, map_eq_none_iff] at hkey
      exact hkey
    rw [none_or, none_or, lookup_keptFields, lookup_leftFields, isIn, hnone]
    have hsame := hstored key
    cases hold : current.lookup key with
    | none =>
      rw [hold] at hsame
      simpa using hsame
    | some old =>
      rw [hold] at hsame
      by_cases hin : key ∈ inherited
      · simpa [hin] using hsame
      · simp [hin, sameJson]

variable (lawful : T.Lawful Plain)
include lawful

theorem deleteKeys_means
    (next current : Fields)
    (hplain : Plain d) (hroot : Data root) (hpath : "__proto__" ∉ path) (hkept : Data (.obj kept))
    (hmeans : Means (setAt root path (.obj kept)) (T.toJS d)) :
    ∃ d', deleteKeys T path next d current = .ok d' ∧ Plain d' ∧
      Means (setAt root path (.obj (keptFields next kept current))) (T.toJS d') := by
  induction current generalizing d kept with
  | nil => exact ⟨d, rfl, hplain, hmeans⟩
  | cons field rest ih =>
    obtain ⟨key, value⟩ := field
    rw [deleteKeys, keptFields]
    by_cases hin : isIn key next = true
    · rw [if_pos hin, if_pos hin]
      exact ih hplain hkept hmeans
    · rw [if_neg hin, if_neg hin]
      obtain ⟨deleted, hdeleted, hplain', hmeans'⟩ :=
        lawful.deleteIn d path key hplain hmeans.1 (hmeans.settable hroot hkept hpath)
      rw [hdeleted]
      have hset := data_setAt hroot hkept hpath
      have hremoved := removeAt_congr (path ++ [key]) hmeans.1 hset hmeans.2
      rw [removeAt_setAt_append, removeAt] at hremoved
      have hkept' : Data (.obj (removeField kept key)) := data_removeField hkept
      exact ih hplain' hkept' (hmeans'.trans (data_removeAt _ hmeans.1) (data_setAt hroot hkept' hpath) hremoved)

theorem replaceNode_means {current : Option Json} {next : Json} (hplain : Plain d)
    (hdata : Data (T.toJS d)) (hnext : Data next)
    (hpath : "__proto__" ∉ path ++ [key]) (hsettable : Settable (T.toJS d) path)
    (hcurrentData : ∀ value, current = some value → Data value)
    (hcurrent : sameJson (valueAt (T.toJS d) (path ++ [key])) current = true) :
    ∃ d', (if sameJson current (some next) then .ok d else T.setIn d (path ++ [key]) next) = .ok d' ∧
      Plain d' ∧ Means (setAt (T.toJS d) (path ++ [key]) next) (T.toJS d') := by
  by_cases hsame : sameJson current (some next) = true
  · rw [if_pos hsame]
    refine ⟨d, rfl, hplain, hdata, ?_⟩
    cases hfound : valueAt (T.toJS d) (path ++ [key]) with
    | none =>
      rw [hfound] at hcurrent
      cases current with
      | none => cases hsame
      | some value => cases hcurrent
    | some found =>
      rw [hfound] at hcurrent
      cases current with
      | none => cases hsame
      | some value =>
        refine deepEqualJson_setAt_self hdata hnext hpath hfound ?_
        exact deepEqualJson_trans (data_valueAt hdata hfound) (hcurrentData value rfl) hnext hcurrent hsame
  · rw [if_neg hsame]
    exact lawful.setIn d path key next hplain hdata hnext hpath hsettable

omit lawful in
theorem patchFields_means
    (hpatch : ∀ field ∈ next, ∀ (d : Document) (path : List String) (key : String)
      (current : Option Json), Plain d → Data (T.toJS d) → "__proto__" ∉ path ++ [key] →
      Settable (T.toJS d) path → (∀ value, current = some value → Data value) →
      sameJson (valueAt (T.toJS d) (path ++ [key])) current = true →
      ∃ d', patchNode T d (path ++ [key]) current field.2 = .ok d' ∧ Plain d' ∧
        Means (setAt (T.toJS d) (path ++ [key]) (patched current field.2)) (T.toJS d'))
    (hnodup : (next.map Prod.fst).Nodup)
    (hnext : ∀ field ∈ next, field.1 ≠ "__proto__" ∧ Data field.2) (hcurrent : Data (.obj current))
    (hsame : ∀ key ∈ next.map Prod.fst, sameJson (kept.lookup key) (current.lookup key) = true)
    (hplain : Plain d) (hroot : Data root) (hpath : "__proto__" ∉ path) (hkept : Data (.obj kept))
    (hmeans : Means (setAt root path (.obj kept)) (T.toJS d)) :
    ∃ d', patchFields T d path current next = .ok d' ∧ Plain d' ∧
      Means (setAt root path (.obj (setFields kept (patchedFields current next)))) (T.toJS d') := by
  induction next generalizing d kept with
  | nil => exact ⟨d, rfl, hplain, hmeans⟩
  | cons field rest ih =>
    obtain ⟨key, value⟩ := field
    obtain ⟨hkey, hvalue⟩ := hnext (key, value) mem_cons_self
    have hvalue : Data (patched (current.lookup key) value) :=
      data_patched hvalue _ fun old hold => hcurrent.lookup hold
    rw [map_cons, nodup_cons] at hnodup
    have hset := data_setAt hroot hkept hpath
    have hpathKey : "__proto__" ∉ path ++ [key] := by
      rw [mem_append, mem_singleton, not_or]
      exact ⟨hpath, Ne.symm hkey⟩
    have hold : ∀ old, current.lookup key = some old → Data old :=
      fun old hold => hcurrent.lookup hold
    -- What the document has at the key is what the first loop left there.
    have hat : sameJson (valueAt (T.toJS d) (path ++ [key])) (current.lookup key) = true := by
      have hkeptAt : sameJson (valueAt (T.toJS d) (path ++ [key])) (kept.lookup key) = true := by
        have hvalueAt := valueAt_congr (path ++ [key]) hmeans.1 hset hmeans.2
        rw [valueAt_setAt_append, valueAt_obj_cons] at hvalueAt
        have hlookup : ((kept.lookup key).bind fun child => valueAt child []) = kept.lookup key := by
          cases kept.lookup key with
          | none => rfl
          | some child => exact valueAt_nil
        rwa [hlookup] at hvalueAt
      exact sameJson_trans (fun _ => data_valueAt hmeans.1) (fun _ => hkept.lookup)
        (fun _ => hcurrent.lookup) hkeptAt (hsame key mem_cons_self)
    obtain ⟨patched, hpatched, hplain', hmeans'⟩ := hpatch (key, value) mem_cons_self d path key _
      hplain hmeans.1 hpathKey (hmeans.settable hroot hkept hpath) hold hat
    rw [patchFields, readKey_of_ne hkey, hpatched]
    have hkept' := data_setField hkept hkey hvalue
    have hsetKey := setAt_congr hmeans.1 hset hvalue hvalue hpathKey hmeans.2 (deepEqualJson_refl hvalue)
    rw [setAt_append, setAt, setAt_nil] at hsetKey
    refine ih (fun other hmem => hpatch other (mem_cons_of_mem _ hmem)) hnodup.2
      (fun other hmem => hnext other (mem_cons_of_mem _ hmem)) ?_ hplain' hkept'
      (hmeans'.trans (data_setAt hmeans.1 hvalue hpathKey) (data_setAt hroot hkept' hpath) hsetKey)
    intro other hmem
    have hother : other ≠ key := by
      rintro rfl
      exact hnodup.1 hmem
    rw [lookup_setField, if_neg hother]
    exact hsame other (mem_cons_of_mem _ hmem)

theorem patchNode_means {next : Json} (hnext : Data next) (d : Document) (path : List String)
    (key : String) (current : Option Json) (hplain : Plain d) (hdata : Data (T.toJS d))
    (hpath : "__proto__" ∉ path ++ [key]) (hsettable : Settable (T.toJS d) path)
    (hold : ∀ value, current = some value → Data value)
    (hcurrent : sameJson (valueAt (T.toJS d) (path ++ [key])) current = true) :
    ∃ d', patchNode T d (path ++ [key]) current next = .ok d' ∧ Plain d' ∧
      Means (setAt (T.toJS d) (path ++ [key]) (patched current next)) (T.toJS d') := by
  have hreplaced := fun (next : Json) (hnext : Data next) => replaceNode_means lawful hplain hdata hnext
    hpath hsettable hold hcurrent
  induction hnext generalizing d path key current with
  | null => exact hreplaced _ .null
  | bool value => exact hreplaced _ (.bool value)
  | num hnan hfinite => exact hreplaced _ (.num hnan hfinite)
  | str value => exact hreplaced _ (.str value)
  | arr hitems => exact hreplaced _ (.arr hitems)
  | @obj next hnodup hproto hfields ih =>
    have hnext : Data (.obj next) := .obj hnodup hproto hfields
    cases current with
    | none =>
      rw [patchNode]
      · exact hreplaced _ hnext
      · simp
    | some current =>
      cases current with
      | obj current =>
        have hcurrentData := hold _ rfl
        cases hfound : valueAt (T.toJS d) (path ++ [key]) with
        | none =>
          rw [hfound] at hcurrent
          cases hcurrent
        | some found =>
          rw [hfound] at hcurrent
          have hfoundData := data_valueAt hdata hfound
          obtain ⟨stored, rfl, hstored⟩ := Means.fields ⟨hfoundData, hcurrent⟩ hcurrentData
          have hstart : Means (setAt (T.toJS d) (path ++ [key]) (.obj stored)) (T.toJS d) :=
            ⟨hdata, deepEqualJson_setAt_self hdata hfoundData hpath hfound
              (deepEqualJson_refl hfoundData)⟩
          obtain ⟨deleted, hdeleted, hplain', hmeans'⟩ := deleteKeys_means lawful next current
            hplain hdata hpath hfoundData hstart
          rw [patchNode, hdeleted]
          dsimp only
          have hkept := data_keptFields next current hfoundData
          have hkeptKey : ∀ k ∈ next.map Prod.fst,
              (keptFields next stored current).lookup k = stored.lookup k := by
            intro k hk
            rw [lookup_keptFields, isIn, lookup_isSome_iff.mpr hk]
            simp
          have hnextFields : ∀ field ∈ next, field.1 ≠ "__proto__" ∧ Data field.2 := fun field hmem =>
            ⟨fun heq => hproto (heq ▸ mem_map_of_mem hmem), hfields field hmem⟩
          obtain ⟨after, hafter, hplain'', hmeans''⟩ := patchFields_means
            (fun field hmem d path key current hplain hdata hpath hsettable hold hcurrent =>
              ih field hmem d path key current hplain hdata hpath hsettable hold hcurrent
                fun next hnext => replaceNode_means lawful hplain hdata hnext hpath hsettable hold
                  hcurrent)
            hnodup hnextFields hcurrentData
            (fun k hk => by rw [hkeptKey k hk]; exact hstored k) hplain' hdata hpath hkept hmeans'
          refine ⟨after, hafter, hplain'', ?_⟩
          have hpatched := data_patched hnext (some (.obj current)) hold
          have hset : Data (.obj (setFields (keptFields next stored current)
              (patchedFields current next))) := by
            refine data_setFields hkept fun field hmem => ?_
            obtain ⟨value, hvalue, heq⟩ := mem_patchedFields hmem
            rw [heq]
            exact ⟨(hnextFields _ hvalue).1, data_patched (hnextFields _ hvalue).2 _
              fun old hold => hcurrentData.lookup hold⟩
          exact hmeans''.trans (data_setAt hdata hset hpath) (data_setAt hdata hpatched hpath)
            (setAt_congr hdata hdata hset hpatched hpath (deepEqualJson_refl hdata)
              ((deepEqualJson_obj_iff hset hpatched).mpr (sameFields_patched hnodup hpatched hstored)))
      | _ =>
        rw [patchNode]
        · exact hreplaced _ hnext
        · simp

end PatchNode

/-- Every key with an inherited name that the next section lacks is absent in the stored one, at every
place where both have a map. -/
def Removable (stored next : Json) : Prop :=
  ∀ path xs ys, valueAt stored path = some (.obj xs) → valueAt next path = some (.obj ys) →
    ∀ key ∈ inherited, ys.lookup key = none → xs.lookup key = none

theorem Removable.lookup {xs ys : Fields} {key : String} {stored next : Json}
    (h : Removable (.obj xs) (.obj ys)) (hstored : xs.lookup key = some stored)
    (hnext : ys.lookup key = some next) : Removable stored next := by
  intro path inner other hinner hother
  apply h (key :: path) inner other
  · rw [valueAt_obj_cons, hstored]
    exact hinner
  · rw [valueAt_obj_cons, hnext]
    exact hother

theorem patched_of_removable {next : Json} (hnext : Data next) {current : Option Json}
    (h : ∀ stored, current = some stored → Removable stored next) : patched current next = next := by
  induction hnext generalizing current with
  | null => rfl
  | bool value => rfl
  | num hnan hfinite => rfl
  | str value => rfl
  | arr hitems => rfl
  | @obj next hnodup hproto hfields ih =>
    cases current with
    | none => rfl
    | some current =>
      cases current with
      | obj current =>
        have hremovable := h _ rfl
        have hleft : leftFields next current = [] := by
          rw [leftFields, filter_eq_nil_iff]
          rintro ⟨key, value⟩ hmem hkept
          rw [Bool.and_eq_true, contains_iff_mem, isNone_iff_eq_none] at hkept
          have hnone := hremovable [] current next valueAt_nil valueAt_nil key hkept.1 hkept.2
          rw [← not_isSome_iff_eq_none, lookup_isSome_iff] at hnone
          exact hnone (mem_map_of_mem hmem)
        have hsame : ∀ fields : Fields, (∀ field ∈ fields,
            patched (current.lookup field.1) field.2 = field.2) → patchedFields current fields = fields := by
          intro fields hfields
          induction fields with
          | nil => rfl
          | cons field rest ihf =>
            rw [patchedFields, ihf fun other hmem => hfields other (mem_cons_of_mem _ hmem),
              hfields field mem_cons_self]
        rw [patched, hleft, append_nil, hsame next]
        intro field hmem
        apply ih field hmem
        intro stored hstored
        exact hremovable.lookup hstored (lookup_eq_some_of_mem hnodup hmem)
      | _ => rfl

/-- The document in a file can be patched: it is plain, and its section of a namespace has no key
that objects inherit. JSON is written anew. -/
def Patchable {Text Document : Type} (T : TextLibrary Text Document) (Plain : Document → Prop)
    (format : SettingsFormat) (text : Option Text) (ns : String) (root : Fields) : Prop :=
  format = .yaml → (∀ content d, text = some content → T.parseDocument content = .ok d → Plain d) ∧
    ∀ stored, root.lookup ns = some stored → Own stored

section Render

variable {Text Document : Type} {T : TextLibrary Text Document} {Plain : Document → Prop}
variable (lawful : T.Lawful Plain)
include lawful

variable {changed root : Fields} {text : Option Text} {ns : String} {format : SettingsFormat}

theorem renderJson_means
    (hroot : Data (.obj root)) (hchanged : Data (.obj changed)) (hns : ns ≠ "__proto__")
    (hparse : parseFile T .json text = .ok root) :
    ∃ output after, renderJson T text ns changed = .ok output ∧ parse T .json output = .ok after ∧
      Data (.obj after) ∧ SameFields after (setField root ns (.obj changed)) := by
  have hset := data_setField hroot hns hchanged
  obtain ⟨hblank, found, hfound, hmeans⟩ := lawful.stringify _ hset
  obtain ⟨after, rfl, hafter⟩ := hmeans.fields hset
  refine ⟨_, after, by rw [renderJson, hparse], ?_, hmeans.1, hafter⟩
  simp [parse, hblank, hfound, rootSections]

omit lawful in
theorem rootSections_eq_ok {value : Json} (h : rootSections value = .ok root) :
    value = .null ∧ root = [] ∨ value = .obj root := by
  cases value with
  | null =>
    cases h
    exact .inl ⟨rfl, rfl⟩
  | obj fields =>
    cases h
    exact .inr rfl
  | _ => cases h

theorem renderYaml_means
    (hroot : Data (.obj root)) (hchanged : Data (.obj changed)) (hns : ns ≠ "__proto__")
    (hplain : ∀ content d, text = some content → T.parseDocument content = .ok d → Plain d)
    (hparse : parseFile T .yaml text = .ok root) :
    ∃ output after, renderYaml T text ns changed = .ok output ∧ parse T .yaml output = .ok after ∧
      Data (.obj after) ∧
      SameFields after (setField root ns (patched (root.lookup ns) (.obj changed))) := by
  have hpatchedData : Data (patched (root.lookup ns) (.obj changed)) :=
    data_patched hchanged _ fun old hold => hroot.lookup hold
  have hset := data_setField hroot hns hpatchedData
  cases text with
  | none =>
    cases hparse
    obtain ⟨d, hd, hmeans⟩ := lawful.newDocument _ hset
    obtain ⟨after, hafter, hsame⟩ := hmeans.fields hset
    refine ⟨_, after, rfl, ?_, hafter ▸ hmeans.1, hsame⟩
    have hd : T.parseDocument (T.toString (T.newDocument (.obj [(ns, .obj changed)]))) = .ok d := hd
    simp only [parse, hd, hafter, rootSections]
  | some content =>
    rw [parseFile, parse] at hparse
    rw [renderYaml]
    dsimp only at hparse ⊢
    cases hd : T.parseDocument content with
    | error error =>
      rw [hd] at hparse
      cases hparse
    | ok d =>
      rw [hd] at hparse
      dsimp only at hparse ⊢
      have hpath : "__proto__" ∉ [] ++ [ns] := by simpa using Ne.symm hns
      obtain ⟨hdata, hsettable, hcurrent, hat, hset'⟩ : Data (T.toJS d) ∧ Settable (T.toJS d) [] ∧
          (match T.toJS d with
            | .obj root => readKey root ns
            | _ => none) = root.lookup ns ∧
          sameJson (valueAt (T.toJS d) ([] ++ [ns])) (root.lookup ns) = true ∧
          ∀ value, setAt (T.toJS d) ([] ++ [ns]) value = .obj (setField root ns value) := by
        -- An empty document is patched like one without sections.
        rcases rootSections_eq_ok hparse with ⟨hjs, rfl⟩ | hjs
        · rw [hjs]
          exact ⟨.null, .inr ⟨rfl, rfl⟩, rfl, rfl, fun _ => rfl⟩
        · rw [hjs]
          refine ⟨hroot, .inl ⟨root, valueAt_nil⟩, readKey_of_ne hns, ?_, fun value => ?_⟩
          · rw [nil_append, valueAt_obj_cons]
            cases hlookup : root.lookup ns with
            | none => rfl
            | some stored =>
              rw [bind_some, valueAt_nil]
              exact sameJson_refl fun _ heq => some.inj heq ▸ hroot.lookup hlookup
          · rw [nil_append, setAt, setAt_nil]
      rw [hcurrent]
      obtain ⟨patchedDocument, hpatched, hplain', hmeans⟩ := patchNode_means lawful hchanged d [] ns _
        (hplain content d rfl hd) hdata hpath hsettable (fun old hold => hroot.lookup hold) hat
      rw [nil_append] at hpatched
      rw [hset'] at hmeans
      obtain ⟨read, hread, hmeansRead⟩ := lawful.toString patchedDocument hplain' hmeans.1
      obtain ⟨after, hafter, hsame⟩ := (hmeansRead.trans hmeans.1 hset hmeans.2).fields hset
      refine ⟨T.toString patchedDocument, after, by rw [hpatched], ?_, hafter ▸ hmeansRead.1, hsame⟩
      simp only [parse, hread, hafter, rootSections]

/-- What a write puts in the place of a section: JSON is written anew, YAML is patched. -/
def written (format : SettingsFormat) (current : Option Json) (next : Json) : Json :=
  match format with
  | .yaml => patched current next
  | .json => next

theorem render_written (hroot : Data (.obj root)) (hchanged : Data (.obj changed))
    (hns : ns ≠ "__proto__")
    (hplain : format = .yaml → ∀ content d, text = some content → T.parseDocument content = .ok d →
      Plain d)
    (hparse : parseFile T format text = .ok root) :
    ∃ output after, render T format text ns changed = .ok output ∧ parse T format output = .ok after ∧
      Data (.obj after) ∧
      SameFields after (setField root ns (written format (root.lookup ns) (.obj changed))) := by
  cases format with
  | yaml => exact renderYaml_means lawful hroot hchanged hns (hplain rfl) hparse
  | json => exact renderJson_means lawful hroot hchanged hns hparse

theorem render_means {output : Text} (hroot : Data (.obj root)) (hchanged : Data (.obj changed))
    (hns : ns ≠ "__proto__") (hpatchable : Patchable T Plain format text ns root)
    (hparse : parseFile T format text = .ok root)
    (hrender : render T format text ns changed = .ok output) :
    ∃ after, parse T format output = .ok after ∧ Data (.obj after) ∧
      SameFields after (setField root ns (.obj changed)) := by
  obtain ⟨output', after, hrender', hafter, hdata, hsame⟩ := render_written lawful hroot hchanged hns
    (fun hyaml => (hpatchable hyaml).1) hparse
  rw [hrender] at hrender'
  cases hrender'
  refine ⟨after, hafter, hdata, ?_⟩
  have hwritten : written format (root.lookup ns) (.obj changed) = .obj changed := by
    cases format with
    | json => rfl
    | yaml =>
      apply patched_of_removable hchanged
      intro stored hstored path xs ys hxs _ key hkey _
      exact (hpatchable rfl).2 stored hstored path xs hxs key hkey
  rwa [hwritten] at hsame

end Render

def literalTexts : TextLibrary (Option Json) Json where
  empty := none
  isBlank := isNone
  parseJson text := match text with
    | some value => .ok value
    | none => .error "Unexpected end of JSON input"
  stringify := some
  parseDocument text := .ok (text.getD .null)
  toJS := id
  newDocument := id
  setIn d path value := .ok (setAt d path value)
  deleteIn d path := .ok (removeAt d path)
  toString := some

theorem literalTexts_lawful : literalTexts.Lawful fun _ => True where
  empty := ⟨rfl, .null, rfl, rfl⟩
  stringify value hvalue := ⟨rfl, value, rfl, hvalue, deepEqualJson_refl hvalue⟩
  newDocument value hvalue := ⟨value, rfl, hvalue, deepEqualJson_refl hvalue⟩
  toString d _ hd := ⟨d, rfl, hd, deepEqualJson_refl hd⟩
  setIn d path key value _ hd hvalue hpath _ := by
    have hset : Data (setAt d (path ++ [key]) value) := data_setAt hd hvalue hpath
    exact ⟨_, rfl, trivial, hset, deepEqualJson_refl hset⟩
  deleteIn d path key _ hd _ := by
    have hremoved : Data (removeAt d (path ++ [key])) := data_removeAt _ hd
    exact ⟨_, rfl, trivial, hremoved, deepEqualJson_refl hremoved⟩

theorem own_theme (theme : String) : Own (.obj [("theme", .str theme)]) := by
  intro path fields hfields key hkey
  cases path with
  | nil =>
    cases hfields
    rw [lookup_cons, beq_false_of_ne]
    · rfl
    · rintro rfl
      exact absurd hkey (by decide)
  | cons first rest =>
    rw [valueAt_obj_cons, lookup_cons] at hfields
    split at hfields
    · cases rest <;> cases hfields
    · cases hfields

theorem data_theme (theme : String) : Data (.obj [("theme", .str theme)]) :=
  data_setField data_nil (by decide) (.str theme)

end DshKernel.Settings
