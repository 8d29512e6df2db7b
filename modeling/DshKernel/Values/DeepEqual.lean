import DshKernel.Settings.JsonData
import Mathlib.Tactic.ByContra

/-!
# `deepEqualJson`

The comparison asks with `in` whether the other object has a property, and so finds an inherited
`__proto__`, too. Otherwise it decides equality of JSON.
-/

namespace DshKernel.Values

open Js Lib List

/-- A JSON value as JavaScript holds it. An object may be `bare`: without a prototype. -/
inductive JsonData where
  | null
  | bool (value : Bool)
  | num (value : Number)
  | str (value : String)
  | arr (items : List JsonData)
  | obj (bare : Bool) (fields : List (String × JsonData))

/-- What `Object.keys` and the tests of `deepEqualJson` see of `Object.prototype`. -/
def objectPrototype : JsonData := .obj true []

mutual

/-- The identity test at the start holds of values that are equal below, too. Every inherited
property but `__proto__` is a function, which equals no JSON value. -/
def deepEqualJson : JsonData → JsonData → Bool
  | .null, .null => true
  | .bool a, .bool b => a == b
  | .num a, .num b => a.strictEq b
  | .str a, .str b => a == b
  | .arr xs, .arr ys => deepEqualItems xs ys
  | .obj _ xs, .obj bare ys => xs.length == ys.length && deepEqualFields xs bare ys
  | _, _ => false

def deepEqualItems : List JsonData → List JsonData → Bool
  | [], [] => true
  | x :: xs, y :: ys => deepEqualJson x y && deepEqualItems xs ys
  | _, _ => false

/-- `key in right && deepEqualJson(left[key], right[key])` for every key -/
def deepEqualFields : List (String × JsonData) → Bool → List (String × JsonData) → Bool
  | [], _, _ => true
  | (key, x) :: xs, bare, ys =>
    (match ys.lookup key with
      | some y => deepEqualJson x y
      | none => !bare && key == "__proto__" && deepEqualJson x objectPrototype) &&
      deepEqualFields xs bare ys

end

/-- A value that `isJsonValue` accepts: no key twice, and only lossless numbers. -/
inductive Lossless : JsonData → Prop where
  | null : Lossless .null
  | bool (value : Bool) : Lossless (.bool value)
  | num {value : Number} (h : value.isLossless = true) : Lossless (.num value)
  | str (value : String) : Lossless (.str value)
  | arr {items : List JsonData} (h : ∀ item ∈ items, Lossless item) : Lossless (.arr items)
  | obj (bare : Bool) {fields : List (String × JsonData)}
      (hnodup : (fields.map Prod.fst).Nodup) (h : ∀ field ∈ fields, Lossless field.2) :
      Lossless (.obj bare fields)

/-- The same JSON: the same leaves, items in the same order, and under the same own keys the same
values. -/
inductive SameJson : JsonData → JsonData → Prop where
  | null : SameJson .null .null
  | bool (value : Bool) : SameJson (.bool value) (.bool value)
  | num (value : Number) : SameJson (.num value) (.num value)
  | str (value : String) : SameJson (.str value) (.str value)
  | arr {xs ys : List JsonData} (hlength : xs.length = ys.length)
      (h : ∀ index (hx : index < xs.length) (hy : index < ys.length), SameJson xs[index] ys[index]) :
      SameJson (.arr xs) (.arr ys)
  | obj {bare bare' : Bool} {xs ys : List (String × JsonData)}
      (hkeys : ∀ key, key ∈ xs.map Prod.fst ↔ key ∈ ys.map Prod.fst)
      (h : ∀ key x y, (key, x) ∈ xs → (key, y) ∈ ys → SameJson x y) :
      SameJson (.obj bare xs) (.obj bare' ys)

/-- An object without keys, as `Object.prototype` reads. -/
def IsEmptyObject : JsonData → Prop
  | .obj _ fields => fields = []
  | _ => False

/-- Two values that are the same but for objects somewhere below of which the first has an own
`__proto__` without keys, and the second, with a prototype, has another key in its place. -/
inductive Mistaken : JsonData → JsonData → Prop where
  | arr {xs ys : List JsonData} (hlength : xs.length = ys.length)
      (h : ∀ index (hx : index < xs.length) (hy : index < ys.length),
        ¬ SameJson xs[index] ys[index] → Mistaken xs[index] ys[index])
      (index : Nat) (hx : index < xs.length) (hy : index < ys.length)
      (hbad : Mistaken xs[index] ys[index]) : Mistaken (.arr xs) (.arr ys)
  | field {bare bare' : Bool} {xs ys : List (String × JsonData)}
      (hkeys : ∀ key, key ∈ xs.map Prod.fst ↔ key ∈ ys.map Prod.fst)
      (h : ∀ key x y, (key, x) ∈ xs → (key, y) ∈ ys → ¬ SameJson x y → Mistaken x y)
      (key : String) (x y : JsonData) (hx : (key, x) ∈ xs) (hy : (key, y) ∈ ys)
      (hbad : Mistaken x y) : Mistaken (.obj bare xs) (.obj bare' ys)
  | proto {bare : Bool} {xs ys : List (String × JsonData)} (hlength : xs.length = ys.length)
      (x : JsonData) (hx : ("__proto__", x) ∈ xs) (hempty : IsEmptyObject x)
      (hmissing : "__proto__" ∉ ys.map Prod.fst)
      (hkeys : ∀ key ∈ xs.map Prod.fst, key ≠ "__proto__" → key ∈ ys.map Prod.fst)
      (h : ∀ key x y, (key, x) ∈ xs → (key, y) ∈ ys → ¬ SameJson x y → Mistaken x y) :
      Mistaken (.obj bare xs) (.obj false ys)

section Same

variable {a b c : JsonData}

theorem SameJson.refl (h : Lossless a) : SameJson a a := by
  induction h with
  | null => exact .null
  | bool value => exact .bool value
  | num _ => exact .num _
  | str value => exact .str value
  | arr _ ih => exact .arr rfl fun index hx _ => ih _ (getElem_mem hx)
  | @obj bare fields hnodup _ ih =>
    refine .obj (fun _ => Iff.rfl) ?_
    intro key x y hx hy
    have hsame : x = y := by
      have hlookup := lookup_eq_some_of_mem hnodup hx
      rw [lookup_eq_some_of_mem hnodup hy] at hlookup
      exact (Option.some.inj hlookup).symm
    subst hsame
    exact ih _ hx

theorem SameJson.symm (h : SameJson a b) : SameJson b a := by
  induction h with
  | null => exact .null
  | bool value => exact .bool value
  | num value => exact .num value
  | str value => exact .str value
  | arr hlength _ ih => exact .arr hlength.symm fun index hx hy => ih index hy hx
  | obj hkeys _ ih => exact .obj (fun key => (hkeys key).symm) fun key x y hx hy => ih key y x hy hx

theorem SameJson.trans (h : SameJson a b) (h' : SameJson b c) : SameJson a c := by
  induction h generalizing c with
  | null => exact h'
  | bool value => exact h'
  | num value => exact h'
  | str value => exact h'
  | arr hlength _ ih =>
    cases h' with
    | arr hlength' hitems' =>
      refine .arr (hlength.trans hlength') ?_
      intro index hx hz
      have hy := hlength ▸ hx
      exact ih index hx hy (hitems' index hy hz)
  | obj hkeys _ ih =>
    cases h' with
    | obj hkeys' hfields' =>
      refine .obj (fun key => (hkeys key).trans (hkeys' key)) ?_
      intro key x z hx hz
      obtain ⟨⟨other, y⟩, hy, heq⟩ := mem_map.mp ((hkeys key).mp (mem_map_of_mem hx))
      obtain rfl : other = key := heq
      exact ih other x y hx hy (hfields' other y z hy hz)

theorem Mistaken.not_same (h : Mistaken a b) : ¬ SameJson a b := by
  induction h with
  | arr _ _ index hx hy _ _ ih =>
    rintro (_ | _ | _ | _ | ⟨_, hitems⟩ | _)
    exact ih (hitems index hx hy)
  | field _ _ key x y hx hy _ _ ih =>
    rintro (_ | _ | _ | _ | _ | ⟨_, hfields⟩)
    exact ih (hfields key x y hx hy)
  | proto _ x hx _ hmissing _ _ =>
    rintro (_ | _ | _ | _ | _ | ⟨hkeys, _⟩)
    exact hmissing ((hkeys _).mp (mem_map_of_mem hx))

theorem Mistaken.asymm (h : Mistaken a b) : ¬ Mistaken b a := by
  induction h with
  | arr _ _ index hx hy hbad _ ih =>
    intro h'
    cases h' with
    | arr _ hitems _ _ _ _ => exact ih (hitems index hy hx fun hsame => hbad.not_same hsame.symm)
  | field hkeys _ key x y hx hy hbad _ ih =>
    intro h'
    cases h' with
    | field _ hfields _ _ _ _ _ _ =>
      exact ih (hfields key y x hy hx fun hsame => hbad.not_same hsame.symm)
    | proto _ z hz _ hmissing _ _ => exact hmissing ((hkeys _).mpr (mem_map_of_mem hz))
  | proto _ x hx _ hmissing _ _ _ =>
    intro h'
    cases h' with
    | field hkeys' _ _ _ _ _ _ _ => exact hmissing ((hkeys' _).mpr (mem_map_of_mem hx))
    | proto _ z hz _ _ _ _ => exact hmissing (mem_map_of_mem hz)

end Same

section Decides

variable {a b c : JsonData} {xs ys : List (String × JsonData)}

theorem deepEqualItems_iff {items others : List JsonData} :
    deepEqualItems items others = true ↔ items.length = others.length ∧
      ∀ index (hx : index < items.length) (hy : index < others.length),
        deepEqualJson items[index] others[index] = true := by
  induction items generalizing others with
  | nil =>
    cases others with
    | nil => simp [deepEqualItems]
    | cons y ys => simp [deepEqualItems]
  | cons x xs ih =>
    cases others with
    | nil => simp [deepEqualItems]
    | cons y ys =>
      rw [deepEqualItems, Bool.and_eq_true, ih]
      constructor
      · rintro ⟨hfirst, hlength, hrest⟩
        refine ⟨congrArg Nat.succ hlength, ?_⟩
        intro index hx hy
        cases index with
        | zero => exact hfirst
        | succ index => exact hrest index (Nat.lt_of_succ_lt_succ hx) (Nat.lt_of_succ_lt_succ hy)
      · rintro ⟨hlength, hall⟩
        exact ⟨hall 0 (Nat.succ_pos _) (Nat.succ_pos _), Nat.succ.inj hlength,
          fun index hx hy => hall (index + 1) (Nat.succ_lt_succ hx) (Nat.succ_lt_succ hy)⟩

theorem deepEqualJson_objectPrototype :
    deepEqualJson a objectPrototype = true ↔ IsEmptyObject a := by
  cases a with
  | obj bare fields =>
    rw [objectPrototype, deepEqualJson, Bool.and_eq_true, beq_iff_eq, length_nil,
      length_eq_zero_iff, IsEmptyObject]
    constructor
    · exact fun h => h.1
    · rintro rfl
      exact ⟨rfl, rfl⟩
  | _ => simp [objectPrototype, deepEqualJson, IsEmptyObject]

theorem deepEqualFields_iff {bare : Bool} :
    deepEqualFields xs bare ys = true ↔ ∀ field ∈ xs,
      (∃ y, ys.lookup field.1 = some y ∧ deepEqualJson field.2 y = true) ∨
        (ys.lookup field.1 = none ∧ bare = false ∧ field.1 = "__proto__" ∧
          IsEmptyObject field.2) := by
  induction xs with
  | nil => simp [deepEqualFields]
  | cons field rest ih =>
    obtain ⟨key, x⟩ := field
    rw [deepEqualFields, Bool.and_eq_true, ih, forall_mem_cons]
    apply and_congr_left'
    cases hlookup : ys.lookup key with
    | none => simp [deepEqualJson_objectPrototype, and_assoc]
    | some y => simp

theorem lookup_eq_none_iff {key : String} : ys.lookup key = none ↔ key ∉ ys.map Prod.fst := by
  induction ys with
  | nil => simp
  | cons field rest ih =>
    obtain ⟨other, value⟩ := field
    rw [lookup_cons, map_cons, mem_cons]
    by_cases h : key = other
    · simp [h]
    · rw [beq_false_of_ne h]
      simp [h, ih]

theorem lookup_of_mem_keys {key : String} (h : key ∈ ys.map Prod.fst) :
    ∃ y, ys.lookup key = some y ∧ (key, y) ∈ ys := by
  cases hlookup : ys.lookup key with
  | none => exact absurd h (lookup_eq_none_iff.mp hlookup)
  | some y => exact ⟨y, rfl, mem_of_lookup_eq_some hlookup⟩

theorem mem_keys_of_lookup {key : String} {y : JsonData} (h : ys.lookup key = some y) :
    key ∈ ys.map Prod.fst := by
  by_contra hmissing
  rw [lookup_eq_none_iff.mpr hmissing] at h
  cases h

theorem keys_iff_of_subset (hx : (xs.map Prod.fst).Nodup) (hlength : xs.length = ys.length)
    (hsubset : xs.map Prod.fst ⊆ ys.map Prod.fst) (key : String) :
    key ∈ xs.map Prod.fst ↔ key ∈ ys.map Prod.fst := by
  have hperm : (xs.map Prod.fst).Perm (ys.map Prod.fst) :=
    (subperm_of_subset hx hsubset).perm_of_length_le (by simp [hlength])
  exact hperm.mem_iff

theorem length_eq_of_keys (hx : (xs.map Prod.fst).Nodup) (hy : (ys.map Prod.fst).Nodup)
    (hkeys : ∀ key, key ∈ xs.map Prod.fst ↔ key ∈ ys.map Prod.fst) : xs.length = ys.length := by
  have hlength := ((perm_ext_iff_of_nodup hx hy).mpr hkeys).length_eq
  simpa using hlength

theorem deepEqualJson_obj_iff {bare bare' : Bool} (hx : (xs.map Prod.fst).Nodup)
    (hy : (ys.map Prod.fst).Nodup)
    (hvalues : ∀ key x y, (key, x) ∈ xs → (key, y) ∈ ys →
      (deepEqualJson x y = true ↔ SameJson x y ∨ Mistaken x y)) :
    deepEqualJson (.obj bare xs) (.obj bare' ys) = true ↔
      SameJson (.obj bare xs) (.obj bare' ys) ∨ Mistaken (.obj bare xs) (.obj bare' ys) := by
  rw [deepEqualJson, Bool.and_eq_true, beq_iff_eq, deepEqualFields_iff]
  constructor
  · rintro ⟨hlength, hfields⟩
    have hshared : ∀ key x y, (key, x) ∈ xs → (key, y) ∈ ys → ¬ SameJson x y → Mistaken x y := by
      intro key x y hmemX hmemY hnot
      rcases hfields (key, x) hmemX with ⟨other, hlookup, hequal⟩ | ⟨hnone, -⟩
      · rw [lookup_eq_some_of_mem hy hmemY] at hlookup
        cases hlookup
        exact ((hvalues key x y hmemX hmemY).mp hequal).resolve_left hnot
      · rw [lookup_eq_some_of_mem hy hmemY] at hnone
        cases hnone
    by_cases hmissing : "__proto__" ∈ xs.map Prod.fst ∧ "__proto__" ∉ ys.map Prod.fst
    · obtain ⟨⟨name, x⟩, hmem, rfl⟩ := mem_map.mp hmissing.1
      right
      rcases hfields _ hmem with ⟨y, hlookup, -⟩ | ⟨-, hbare, -, hempty⟩
      · exact absurd (mem_keys_of_lookup hlookup) hmissing.2
      · subst hbare
        refine .proto hlength x hmem hempty hmissing.2 ?_ hshared
        intro key hkey hne
        obtain ⟨field, hfield, rfl⟩ := mem_map.mp hkey
        rcases hfields field hfield with ⟨y, hlookup, -⟩ | ⟨-, -, heq, -⟩
        · exact mem_keys_of_lookup hlookup
        · exact absurd heq hne
    · have hsubset : xs.map Prod.fst ⊆ ys.map Prod.fst := by
        intro key hkey
        obtain ⟨field, hfield, rfl⟩ := mem_map.mp hkey
        rcases hfields field hfield with ⟨y, hlookup, -⟩ | ⟨hnone, -, heq, -⟩
        · exact mem_keys_of_lookup hlookup
        · rw [heq] at hkey hnone ⊢
          exact absurd ⟨hkey, lookup_eq_none_iff.mp hnone⟩ hmissing
      have hkeys := keys_iff_of_subset hx hlength hsubset
      by_cases hall : ∀ key x y, (key, x) ∈ xs → (key, y) ∈ ys → SameJson x y
      · exact Or.inl (.obj hkeys hall)
      · simp only [not_forall] at hall
        obtain ⟨key, x, y, hmemX, hmemY, hnot⟩ := hall
        exact Or.inr (.field hkeys hshared key x y hmemX hmemY
          (hshared key x y hmemX hmemY hnot))
  · have hown : ∀ key x, (key, x) ∈ xs → key ∈ ys.map Prod.fst →
        (∀ key x y, (key, x) ∈ xs → (key, y) ∈ ys → SameJson x y ∨ Mistaken x y) →
        ∃ y, ys.lookup key = some y ∧ deepEqualJson x y = true := by
      intro key x hmem hkey hvalue
      obtain ⟨y, hlookup, hmemY⟩ := lookup_of_mem_keys hkey
      exact ⟨y, hlookup, (hvalues key x y hmem hmemY).mpr (hvalue key x y hmem hmemY)⟩
    have hcases : ∀ x y : JsonData, (¬ SameJson x y → Mistaken x y) →
        SameJson x y ∨ Mistaken x y := fun x y h => or_iff_not_imp_left.mpr h
    rintro (hsame | hmistaken)
    · cases hsame with
      | obj hkeys hall =>
        refine ⟨length_eq_of_keys hx hy hkeys, ?_⟩
        intro field hfield
        exact Or.inl (hown _ _ hfield ((hkeys _).mp (mem_map_of_mem hfield))
          fun key x y hmemX hmemY => Or.inl (hall key x y hmemX hmemY))
    · cases hmistaken with
      | field hkeys hall _ _ _ _ _ _ =>
        refine ⟨length_eq_of_keys hx hy hkeys, ?_⟩
        intro field hfield
        exact Or.inl (hown _ _ hfield ((hkeys _).mp (mem_map_of_mem hfield))
          fun key x y hmemX hmemY => hcases x y (hall key x y hmemX hmemY))
      | proto hlength x hmem hempty hmissing hkeys hall =>
        refine ⟨hlength, ?_⟩
        rintro ⟨key, value⟩ hfield
        by_cases hkey : key = "__proto__"
        · subst hkey
          have hlookup := lookup_eq_some_of_mem hx hmem
          rw [lookup_eq_some_of_mem hx hfield] at hlookup
          cases hlookup
          exact Or.inr ⟨lookup_eq_none_iff.mpr hmissing, rfl, rfl, hempty⟩
        · exact Or.inl (hown _ _ hfield (hkeys key (mem_map_of_mem hfield) hkey)
            fun key x y hmemX hmemY => hcases x y (hall key x y hmemX hmemY))

theorem deepEqualJson_iff_of_false (hfalse : deepEqualJson a b = false) (hsame : ¬ SameJson a b)
    (hmistaken : ¬ Mistaken a b) : deepEqualJson a b = true ↔ SameJson a b ∨ Mistaken a b := by
  constructor
  · intro h
    rw [hfalse] at h
    cases h
  · exact fun h => absurd h (not_or_intro hsame hmistaken)

theorem deepEqualJson_iff (ha : Lossless a) (hb : Lossless b) :
    deepEqualJson a b = true ↔ SameJson a b ∨ Mistaken a b := by
  induction ha generalizing b with
  | null =>
    cases b with
    | null => exact ⟨fun _ => Or.inl .null, fun _ => rfl⟩
    | _ => exact deepEqualJson_iff_of_false rfl (fun h => nomatch h) (fun h => nomatch h)
  | bool value =>
    cases b with
    | bool other =>
      rw [deepEqualJson, beq_iff_eq]
      constructor
      · rintro rfl
        exact Or.inl (.bool value)
      · rintro (h | h)
        · cases h
          rfl
        · cases h
    | _ => exact deepEqualJson_iff_of_false rfl (fun h => nomatch h) (fun h => nomatch h)
  | @num value hvalue =>
    cases hb with
    | @num other hother =>
      rw [deepEqualJson, Number.strictEq_iff_of_isLossless hvalue hother]
      constructor
      · rintro rfl
        exact Or.inl (.num value)
      · rintro (h | h)
        · cases h
          rfl
        · cases h
    | _ => exact deepEqualJson_iff_of_false rfl (fun h => nomatch h) (fun h => nomatch h)
  | str value =>
    cases b with
    | str other =>
      rw [deepEqualJson, beq_iff_eq]
      constructor
      · rintro rfl
        exact Or.inl (.str value)
      · rintro (h | h)
        · cases h
          rfl
        · cases h
    | _ => exact deepEqualJson_iff_of_false rfl (fun h => nomatch h) (fun h => nomatch h)
  | @arr items _ ih =>
    cases hb with
    | @arr others hothers =>
      have hitem : ∀ index (hx : index < items.length) (hy : index < others.length),
          (deepEqualJson items[index] others[index] = true ↔
            SameJson items[index] others[index] ∨ Mistaken items[index] others[index]) :=
        fun index hx hy => ih _ (getElem_mem hx) (hothers _ (getElem_mem hy))
      rw [deepEqualJson, deepEqualItems_iff]
      constructor
      · rintro ⟨hlength, hequal⟩
        by_cases hall : ∀ index (hx : index < items.length) (hy : index < others.length),
            SameJson items[index] others[index]
        · exact Or.inl (.arr hlength hall)
        · simp only [not_forall] at hall
          obtain ⟨index, hx, hy, hnot⟩ := hall
          have hshared : ∀ index (hx : index < items.length) (hy : index < others.length),
              ¬ SameJson items[index] others[index] → Mistaken items[index] others[index] :=
            fun index hx hy => ((hitem index hx hy).mp (hequal index hx hy)).resolve_left
          exact Or.inr (.arr hlength hshared index hx hy (hshared index hx hy hnot))
      · rintro (hsame | hmistaken)
        · cases hsame with
          | arr hlength hall =>
            exact ⟨hlength, fun index hx hy => (hitem index hx hy).mpr (Or.inl (hall index hx hy))⟩
        · cases hmistaken with
          | arr hlength hall _ _ _ _ =>
            refine ⟨hlength, ?_⟩
            intro index hx hy
            exact (hitem index hx hy).mpr (or_iff_not_imp_left.mpr (hall index hx hy))
    | _ => exact deepEqualJson_iff_of_false rfl (fun h => nomatch h) (fun h => nomatch h)
  | @obj bare fields hnodup _ ih =>
    cases hb with
    | @obj bare' others hnodup' hothers =>
      apply deepEqualJson_obj_iff hnodup hnodup'
      intro key x y hmemX hmemY
      exact ih (key, x) hmemX (hothers (key, y) hmemY)
    | _ => exact deepEqualJson_iff_of_false rfl (fun h => nomatch h) (fun h => nomatch h)

end Decides

/-- The comparison decides equality of JSON, and is symmetric, exactly where it mistakes nothing. It
is reflexive, and transitive there. -/
theorem deepEqualJson_exact_iff {a b : JsonData} (ha : Lossless a) (hb : Lossless b) :
    ((deepEqualJson a b = true ↔ SameJson a b) ↔ ¬ Mistaken a b) ∧
      (deepEqualJson a b = deepEqualJson b a ↔ ¬ Mistaken a b ∧ ¬ Mistaken b a) ∧
      deepEqualJson a a = true ∧
      ∀ c, Lossless c → ¬ Mistaken a b → ¬ Mistaken b c →
        deepEqualJson a b = true → deepEqualJson b c = true → deepEqualJson a c = true := by
  have hab := deepEqualJson_iff ha hb
  have hba := deepEqualJson_iff hb ha
  refine ⟨?_, ?_, (deepEqualJson_iff ha ha).mpr (Or.inl (.refl ha)), ?_⟩
  · rw [hab]
    constructor
    · intro h hmistaken
      exact hmistaken.not_same (h.mp (Or.inr hmistaken))
    · intro hnot
      exact ⟨fun h => h.resolve_right hnot, Or.inl⟩
  · rw [Bool.eq_iff_iff, hab, hba]
    constructor
    · intro h
      constructor
      · intro hmistaken
        rcases h.mp (Or.inr hmistaken) with hsame | hother
        · exact hmistaken.not_same hsame.symm
        · exact hmistaken.asymm hother
      · intro hmistaken
        rcases h.mpr (Or.inr hmistaken) with hsame | hother
        · exact hmistaken.not_same hsame.symm
        · exact hmistaken.asymm hother
    · rintro ⟨hnot, hnot'⟩
      exact ⟨fun h => Or.inl (h.resolve_right hnot).symm,
        fun h => Or.inl (h.resolve_right hnot').symm⟩
  · intro c hc hnot hnot' h h'
    have hsame := (hab.mp h).resolve_right hnot
    have hsame' := ((deepEqualJson_iff hb hc).mp h').resolve_right hnot'
    exact (deepEqualJson_iff ha hc).mpr (Or.inl (hsame.trans hsame'))

/-- `JSON.parse('{"__proto__": {}}')` -/
def emptyProto : JsonData := .obj false [("__proto__", .obj false [])]

def oneName : JsonData := .obj false [("a", .bool true)]

theorem lossless_emptyProto : Lossless emptyProto := by
  refine .obj false (by decide) ?_
  intro field hfield
  rcases mem_singleton.mp hfield with rfl
  exact .obj false nodup_nil fun _ h => nomatch h

theorem lossless_oneName : Lossless oneName := by
  refine .obj false (by decide) ?_
  intro field hfield
  rcases mem_singleton.mp hfield with rfl
  exact .bool true

theorem deepEqualJson_symm_emptyProto_iff :
    deepEqualJson emptyProto oneName = deepEqualJson oneName emptyProto ↔
      ¬ Mistaken emptyProto oneName ∧ ¬ Mistaken oneName emptyProto :=
  (deepEqualJson_exact_iff lossless_emptyProto lossless_oneName).2.1

/-- An object with an own `__proto__` is taken for one with another key. -/
theorem deepEqualJson_takes_inherited : ¬ ∀ a b, Lossless a → Lossless b →
    (deepEqualJson a b = true ↔ SameJson a b) := by
  intro h
  have hsame := (h emptyProto oneName lossless_emptyProto lossless_oneName).mp (by decide)
  cases hsame with
  | obj hkeys _ =>
    have hmem := (hkeys "a").mpr (by decide)
    revert hmem
    decide

end DshKernel.Values
