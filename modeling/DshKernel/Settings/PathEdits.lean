import DshKernel.Settings.Sections

/-!
# Edits at paths

What a write leaves alone, and that it makes equal sections of equal ones.
-/

namespace DshKernel.Settings

open Js Lib List

def valueAt : Json → List String → Option Json
  | value, [] => some value
  | .obj fields, key :: rest =>
    match fields.lookup key with
    | some child => valueAt child rest
    | none => none
  | _, _ :: _ => none

def setAt : Json → List String → Json → Json
  | _, [], value => value
  | .obj fields, key :: rest, value =>
    .obj (setField fields key (setAt ((fields.lookup key).getD .null) rest value))
  | _, key :: rest, value => .obj [(key, setAt .null rest value)]

def removeAt : Json → List String → Json
  | .obj fields, [key] => .obj (removeField fields key)
  | .obj fields, key :: next :: rest =>
    match fields.lookup key with
    | some child => .obj (setField fields key (removeAt child (next :: rest)))
    | none => .obj fields
  | value, _ => value

def untouchedBy : Json → List String → Bool
  | .obj patch, key :: rest =>
    match patch.lookup key with
    | some value => untouchedBy value rest
    | none => true
  | _, _ => false

/-- A path that a write does not name: what it leads to is neither set nor removed, nor does it hold
or belong to what is. -/
def WriteInput.Untouched : WriteInput → List String → Prop
  | .merge patch, path => untouchedBy (.obj patch) path = true
  | .replace _, _ => False
  | .mutate ops, path => ∀ op ∈ ops, ¬ op.path <+: path ∧ ¬ path <+: op.path

def SameFields (xs ys : Fields) : Prop := ∀ key, sameJson (xs.lookup key) (ys.lookup key) = true

section Fields

variable {xs ys fields : Fields} {key : String} {a b value : Json}

theorem SameFields.setField (h : SameFields xs ys) (hvalue : deepEqualJson a b = true) :
    SameFields (setField xs key a) (setField ys key b) := by
  intro other
  rw [lookup_setField, lookup_setField]
  split
  · exact hvalue
  · exact h other

theorem SameFields.removeField (h : SameFields xs ys) :
    SameFields (removeField xs key) (removeField ys key) := by
  intro other
  rw [lookup_removeField, lookup_removeField]
  split
  · rfl
  · exact h other

theorem SameFields.refl (h : Data (.obj xs)) : SameFields xs xs :=
  (deepEqualJson_obj_iff h h).mp (deepEqualJson_refl h)

theorem setField_setField : setField (setField fields key a) key b = setField fields key b := by
  induction fields with
  | nil => simp [Settings.setField]
  | cons field rest ih =>
    obtain ⟨k, v⟩ := field
    by_cases hk : k = key
    · simp [Settings.setField, hk]
    · simp [Settings.setField, hk, ih]

theorem lookup_mergeFields {upper : Fields} (hnodup : (upper.map Prod.fst).Nodup) :
    (mergeFields fields upper).lookup key =
      match upper.lookup key with
      | none => fields.lookup key
      | some value => some (match fields.lookup key with
        | some old => mergeLayers old value
        | none => value) := by
  induction upper generalizing fields with
  | nil => rfl
  | cons field rest ih =>
    obtain ⟨k, v⟩ := field
    rw [map_cons, nodup_cons] at hnodup
    rw [mergeFields, ih hnodup.2, lookup_setField, lookup_cons]
    by_cases hk : key = k
    · subst hk
      have hnone : rest.lookup key = none := by
        rw [← Option.not_isSome_iff_eq_none, lookup_isSome_iff]
        exact hnodup.1
      cases hold : fields.lookup key with
      | none => simp [hnone, hold]
      | some old => simp [hnone, hold]
    · rw [if_neg hk, beq_false_of_ne hk]

end Fields

section Congruence

theorem mergeLayers_congr {under under' upper : Json} (hunder : Data under) (hunder' : Data under')
    (hupper : Data upper) (h : deepEqualJson under under' = true) :
    deepEqualJson (mergeLayers under upper) (mergeLayers under' upper) = true := by
  induction hupper generalizing under under' with
  | null => cases under <;> cases under' <;> rfl
  | bool value =>
    have hsame := deepEqualJson_refl (.bool value)
    cases under <;> cases under' <;> exact hsame
  | num hnan hfinite =>
    have hsame := deepEqualJson_refl (.num hnan hfinite)
    cases under <;> cases under' <;> exact hsame
  | str value =>
    have hsame := deepEqualJson_refl (.str value)
    cases under <;> cases under' <;> exact hsame
  | arr hitems =>
    have hsame := deepEqualJson_refl (.arr hitems)
    cases under <;> cases under' <;> exact hsame
  | @obj fields hnodup hproto hfields ih =>
    have hupper : Data (.obj fields) := .obj hnodup hproto hfields
    by_cases hobject : ∃ own, under = .obj own
    · obtain ⟨own, rfl⟩ := hobject
      cases under' with
      | obj own' =>
        have hmerged := data_mergeLayers hunder hupper
        have hmerged' := data_mergeLayers hunder' hupper
        rw [mergeLayers] at hmerged hmerged'
        rw [mergeLayers, mergeLayers, deepEqualJson_obj_iff hmerged hmerged']
        have hkeys := (deepEqualJson_obj_iff hunder hunder').mp h
        intro key
        rw [lookup_mergeFields hnodup, lookup_mergeFields hnodup]
        cases hvalue : fields.lookup key with
        | none => exact hkeys key
        | some value =>
          have hmem := mem_of_lookup_eq_some hvalue
          have hkey := hkeys key
          cases hx : own.lookup key with
          | none =>
            cases hy : own'.lookup key with
            | none => exact deepEqualJson_refl (hfields _ hmem)
            | some y =>
              rw [hx, hy] at hkey
              cases hkey
          | some x =>
            cases hy : own'.lookup key with
            | none =>
              rw [hx, hy] at hkey
              cases hkey
            | some y =>
              rw [hx, hy] at hkey
              exact ih _ hmem (hunder.lookup hx) (hunder'.lookup hy) hkey
      | _ => simp [deepEqualJson] at h
    · have hleft : mergeLayers under (.obj fields) = .obj fields := by
        cases under with
        | obj own => exact absurd ⟨own, rfl⟩ hobject
        | _ => rfl
      have hright : mergeLayers under' (.obj fields) = .obj fields := by
        cases under' with
        | obj own =>
          cases under with
          | obj other => exact absurd ⟨other, rfl⟩ hobject
          | _ => simp [deepEqualJson] at h
        | _ => rfl
      rw [hleft, hright]
      exact deepEqualJson_refl hupper

theorem madeChild_congr {path : List String} {head : String} {data : Json} {xs ys next : Fields}
    (hpath : "__proto__" ∉ path) (hdata : Data data) (h : SameFields xs ys)
    (hnext : (match applyPathOp [] path (some data) with
      | .error error => .error error
      | .ok changed => .ok (setField xs head (.obj changed))) = Except.ok next) :
    ∃ next', (match applyPathOp [] path (some data) with
      | .error error => .error error
      | .ok changed => .ok (setField ys head (.obj changed))) = Except.ok next' ∧
      SameFields next next' := by
  cases hinner : applyPathOp [] path (some data) with
  | error error =>
    rw [hinner] at hnext
    cases hnext
  | ok changed =>
    rw [hinner] at hnext
    cases hnext
    refine ⟨_, rfl, h.setField (deepEqualJson_refl ?_)⟩
    apply data_applyPathOp data_nil hpath _ hinner
    intro other hother
    cases hother
    exact hdata

theorem applyPathOp_congr {path : List String} {value : Option Json} {xs ys next : Fields}
    (hx : Data (.obj xs)) (hy : Data (.obj ys)) (hpath : "__proto__" ∉ path)
    (hvalue : ∀ data, value = some data → Data data) (h : SameFields xs ys)
    (hok : applyPathOp xs path value = .ok next) :
    ∃ next', applyPathOp ys path value = .ok next' ∧ SameFields next next' := by
  induction path generalizing xs ys next with
  | nil =>
    cases value with
    | none =>
      cases hok
      exact ⟨[], rfl, .refl data_nil⟩
    | some value =>
      cases value with
      | obj value =>
        cases hok
        exact ⟨next, rfl, .refl (hvalue _ rfl)⟩
      | _ => cases hok
  | cons head rest ih =>
    rw [mem_cons, not_or] at hpath
    cases rest with
    | nil =>
      cases value with
      | none =>
        cases hok
        exact ⟨_, rfl, h.removeField⟩
      | some value =>
        cases hok
        exact ⟨_, rfl, h.setField (deepEqualJson_refl (hvalue value rfl))⟩
    | cons second rest =>
      have hhead := h head
      have hmade := fun data (hdata : value = some data) (next : Fields) =>
        @madeChild_congr (second :: rest) head data xs ys next hpath.2 (hvalue data hdata) h
      cases hchild : xs.lookup head with
      | none =>
        have hchild' : ys.lookup head = none := by
          cases hchild' : ys.lookup head with
          | none => rfl
          | some child =>
            rw [hchild, hchild'] at hhead
            cases hhead
        rw [applyPathOp.eq_def] at hok ⊢
        simp only [hchild] at hok
        simp only [hchild']
        cases value with
        | none =>
          cases hok
          exact ⟨ys, rfl, h⟩
        | some data => exact hmade data rfl next hok
      | some child =>
        cases hchild' : ys.lookup head with
        | none =>
          rw [hchild, hchild'] at hhead
          cases hhead
        | some child' =>
          rw [hchild, hchild'] at hhead
          by_cases hobject : ∃ own, child = .obj own
          · obtain ⟨own, rfl⟩ := hobject
            cases child' with
            | obj own' =>
              have hown := hx.lookup hchild
              have hown' := hy.lookup hchild'
              rw [applyPathOp.eq_def] at hok ⊢
              simp only [hchild] at hok
              simp only [hchild']
              cases hinner : applyPathOp own (second :: rest) value with
              | error error =>
                rw [hinner] at hok
                cases hok
              | ok changed =>
                rw [hinner] at hok
                cases hok
                obtain ⟨changed', hinner', hsame⟩ :=
                  ih hown hown' hpath.2 ((deepEqualJson_obj_iff hown hown').mp hhead) hinner
                rw [hinner']
                refine ⟨_, rfl, h.setField ?_⟩
                exact (deepEqualJson_obj_iff (data_applyPathOp hown hpath.2 hvalue hinner)
                  (data_applyPathOp hown' hpath.2 hvalue hinner')).mpr hsame
            | _ => simp [sameJson, deepEqualJson] at hhead
          · have hother : ∀ own', child' ≠ .obj own' := by
              rintro own' rfl
              cases child with
              | obj own => exact hobject ⟨own, rfl⟩
              | _ => simp [sameJson, deepEqualJson] at hhead
            rw [applyPathOp.eq_def] at hok ⊢
            dsimp only at hok ⊢
            split at hok
            · rename_i own hown
              cases hchild.symm.trans hown
              exact absurd ⟨own, rfl⟩ hobject
            · split
              · rename_i own' hown'
                exact absurd (Option.some.inj (hchild'.symm.trans hown')) (hother own')
              · cases value with
                | none =>
                  cases hok
                  exact ⟨ys, rfl, h⟩
                | some data => exact hmade data rfl next hok

theorem nextSection_congr {xs ys next : Fields} {input : WriteInput} (hx : Data (.obj xs))
    (hy : Data (.obj ys)) (hinput : input.IsData) (h : SameFields xs ys)
    (hok : nextSection xs input = .ok next) :
    ∃ next', nextSection ys input = .ok next' ∧ SameFields next next' := by
  cases input with
  | merge patch =>
    cases hok
    have hmerged := mergeLayers_congr hx hy hinput ((deepEqualJson_obj_iff hx hy).mpr h)
    have hleft := data_mergeLayers hx hinput
    have hright := data_mergeLayers hy hinput
    rw [mergeLayers] at hleft hright
    rw [mergeLayers, mergeLayers, deepEqualJson_obj_iff hleft hright] at hmerged
    exact ⟨_, rfl, hmerged⟩
  | replace replaced =>
    cases hok
    exact ⟨_, rfl, .refl hinput⟩
  | mutate ops =>
    have hops : ∀ op ∈ ops, op.IsData := hinput
    clear hinput
    simp only [nextSection] at hok ⊢
    induction ops generalizing xs ys with
    | nil =>
      cases hok
      exact ⟨ys, rfl, h⟩
    | cons op rest ih =>
      obtain ⟨hpath, hvalue⟩ := hops op mem_cons_self
      rw [foldlM_cons] at hok
      rw [foldlM_cons]
      cases hop : applyPathOp xs op.path op.value with
      | error error =>
        rw [hop] at hok
        cases hok
      | ok changed =>
        obtain ⟨changed', hop', hsame⟩ := applyPathOp_congr hx hy hpath hvalue h hop
        rw [hop] at hok
        rw [hop']
        exact ih (data_applyPathOp hx hpath hvalue hop) (data_applyPathOp hy hpath hvalue hop') hsame
          hok fun other hmem => hops other (mem_cons_of_mem _ hmem)

end Congruence

section Untouched

variable {xs : Fields}

theorem valueAt_obj_cons {fields : Fields} {key : String} {rest : List String} :
    valueAt (.obj fields) (key :: rest) = (fields.lookup key).bind fun child => valueAt child rest := by
  rw [valueAt]
  cases fields.lookup key with
  | none => rfl
  | some child => rfl

theorem valueAt_eq_none_of_untouchedBy {path : List String} {patch : Json}
    (h : untouchedBy patch path = true) : valueAt patch path = none := by
  induction path generalizing patch with
  | nil => cases patch <;> cases h
  | cons key rest ih =>
    cases patch with
    | obj fields =>
      rw [untouchedBy] at h
      rw [valueAt_obj_cons]
      cases hlookup : fields.lookup key with
      | none => rfl
      | some value =>
        rw [hlookup] at h
        exact ih h
    | _ => cases h

theorem valueAt_mergeLayers {path : List String} {under patch : Json} (hpatch : Data patch)
    (h : untouchedBy patch path = true) :
    valueAt (mergeLayers under patch) path = valueAt under path := by
  induction path generalizing under patch with
  | nil => cases patch <;> cases h
  | cons key rest ih =>
    cases patch with
    | obj upper =>
      cases under with
      | obj fields =>
        cases hpatch with
        | obj hnodup hproto hfields =>
        rw [mergeLayers, valueAt_obj_cons, valueAt_obj_cons, lookup_mergeFields hnodup]
        rw [untouchedBy] at h
        cases hlookup : upper.lookup key with
        | none => rfl
        | some value =>
          rw [hlookup] at h
          have hvalue := hfields _ (mem_of_lookup_eq_some hlookup)
          cases hold : fields.lookup key with
          | none => exact valueAt_eq_none_of_untouchedBy h
          | some old => exact ih hvalue h
      | _ => exact valueAt_eq_none_of_untouchedBy h
    | _ => cases h

theorem valueAt_applyPathOp {opPath path : List String} {value : Option Json} {fields next : Fields}
    (hbelow : ¬ opPath <+: path) (habove : ¬ path <+: opPath)
    (hok : applyPathOp fields opPath value = .ok next) :
    valueAt (.obj next) path = valueAt (.obj fields) path := by
  induction opPath generalizing path fields next with
  | nil => exact absurd nil_prefix hbelow
  | cons head rest ih =>
    cases path with
    | nil => exact absurd nil_prefix habove
    | cons key keys =>
      rw [cons_prefix_cons, not_and] at hbelow habove
      by_cases hkey : key = head
      · subst hkey
        have hbelow := hbelow rfl
        have habove := habove rfl
        cases rest with
        | nil => exact absurd nil_prefix hbelow
        | cons second rest =>
          have hinside : ∀ inner changed, applyPathOp inner (second :: rest) value = .ok changed →
              valueAt (.obj (setField fields key (.obj changed))) (key :: keys) =
                valueAt (.obj inner) keys := by
            intro inner changed hinner
            rw [valueAt_obj_cons, lookup_setField, if_pos rfl]
            exact ih hbelow habove hinner
          rw [applyPathOp.eq_def] at hok
          dsimp only at hok
          split at hok
          · rename_i child hchild
            cases hinner : applyPathOp child (second :: rest) value with
            | error error =>
              rw [hinner] at hok
              cases hok
            | ok changed =>
              rw [hinner] at hok
              cases hok
              rw [hinside child changed hinner, valueAt_obj_cons, hchild]
              rfl
          · rename_i hnone
            cases value with
            | none =>
              cases hok
              rfl
            | some data =>
              dsimp only at hok
              cases hinner : applyPathOp [] (second :: rest) (some data) with
              | error error =>
                rw [hinner] at hok
                cases hok
              | ok changed =>
                rw [hinner] at hok
                cases hok
                cases keys with
                | nil => exact absurd nil_prefix habove
                | cons next keys =>
                  rw [hinside [] changed hinner, valueAt_obj_cons, valueAt_obj_cons]
                  cases hchild : fields.lookup key with
                  | none => rfl
                  | some child =>
                    cases child with
                    | obj own => exact absurd hchild (hnone own)
                    | _ => rfl
      · have hset : ∀ changed, valueAt (.obj (setField fields head changed)) (key :: keys) =
            valueAt (.obj fields) (key :: keys) := by
          intro changed
          rw [valueAt_obj_cons, valueAt_obj_cons, lookup_setField, if_neg hkey]
        cases rest with
        | nil =>
          cases value with
          | none =>
            cases hok
            rw [valueAt_obj_cons, valueAt_obj_cons, lookup_removeField, if_neg hkey]
          | some data =>
            cases hok
            exact hset data
        | cons second rest =>
          rw [applyPathOp.eq_def] at hok
          dsimp only at hok
          split at hok
          · split at hok
            · cases hok
            · cases hok
              exact hset _
          · split at hok
            · cases hok
              rfl
            · split at hok
              · cases hok
              · cases hok
                exact hset _

theorem valueAt_nextSection {current next : Fields} {input : WriteInput} {path : List String}
    (hinput : input.IsData) (huntouched : input.Untouched path)
    (hok : nextSection current input = .ok next) :
    valueAt (.obj next) path = valueAt (.obj current) path := by
  cases input with
  | merge patch =>
    cases hok
    have hmerged := @valueAt_mergeLayers path (.obj current) _ hinput huntouched
    rwa [mergeLayers] at hmerged
  | replace replaced => exact huntouched.elim
  | mutate ops =>
    have hops : ∀ op ∈ ops, ¬ op.path <+: path ∧ ¬ path <+: op.path := huntouched
    clear hinput huntouched
    simp only [nextSection] at hok
    induction ops generalizing current with
    | nil =>
      cases hok
      rfl
    | cons op rest ih =>
      rw [foldlM_cons] at hok
      obtain ⟨hbelow, habove⟩ := hops op mem_cons_self
      cases hop : applyPathOp current op.path op.value with
      | error error =>
        rw [hop] at hok
        cases hok
      | ok changed =>
        rw [hop] at hok
        rw [ih hok fun other hmem => hops other (mem_cons_of_mem _ hmem),
          valueAt_applyPathOp hbelow habove hop]

end Untouched

section SetAt

variable {root value : Json} {path rest : List String}

variable {found inner other : Json}

theorem setAt_append :
    setAt (setAt root path inner) (path ++ rest) value = setAt root path (setAt inner rest value) := by
  induction path generalizing root with
  | nil => rfl
  | cons key keys ih =>
    cases root with
    | obj fields =>
      simp only [cons_append, setAt, lookup_setField, if_pos, Option.getD_some, ih,
        setField_setField]
    | _ => simp [setAt, ih, setField]

theorem valueAt_setAt_append : valueAt (setAt root path value) (path ++ rest) = valueAt value rest := by
  induction path generalizing root with
  | nil => rfl
  | cons key keys ih =>
    cases root with
    | obj fields =>
      rw [setAt, cons_append, valueAt_obj_cons, lookup_setField, if_pos rfl]
      exact ih
    | _ => simp [setAt, valueAt, ih]

theorem removeAt_setAt_append {key : String} :
    removeAt (setAt root path inner) (path ++ [key]) = setAt root path (removeAt inner [key]) := by
  induction path generalizing root with
  | nil => rfl
  | cons first keys ih =>
    obtain ⟨second, others, hkeys⟩ : ∃ second others, keys ++ [key] = second :: others := by
      cases keys with
      | nil => exact ⟨key, [], rfl⟩
      | cons second others => exact ⟨second, others ++ [key], rfl⟩
    have ih := @ih
    rw [hkeys] at ih
    cases root with
    | obj fields =>
      rw [cons_append, hkeys, setAt, setAt, removeAt, lookup_setField, if_pos rfl]
      dsimp only
      rw [ih, setField_setField]
    | _ => simp [setAt, hkeys, removeAt, ih, setField]

theorem data_valueAt (h : Data root) (hfound : valueAt root path = some found) : Data found := by
  induction path generalizing root with
  | nil =>
    cases root <;> exact Option.some.inj hfound ▸ h
  | cons key keys ih =>
    cases root with
    | obj fields =>
      rw [valueAt_obj_cons] at hfound
      obtain ⟨child, hchild, hrest⟩ := Option.bind_eq_some_iff.mp hfound
      exact ih (h.lookup hchild) hrest
    | _ => cases hfound

theorem valueAt_nil : valueAt root [] = some root := by
  cases root <;> rfl

theorem setAt_nil : setAt root [] value = value := by
  cases root <;> rfl

theorem valueAt_congr (path : List String) (hroot : Data root) (hother : Data other)
    (h : deepEqualJson root other = true) :
    sameJson (valueAt root path) (valueAt other path) = true := by
  induction path generalizing root other with
  | nil =>
    rw [valueAt_nil, valueAt_nil]
    exact h
  | cons key keys ih =>
    cases root with
    | obj fields =>
      cases other with
      | obj others =>
        have hkey := (deepEqualJson_obj_iff hroot hother).mp h key
        rw [valueAt_obj_cons, valueAt_obj_cons]
        cases hx : fields.lookup key with
        | none =>
          cases hy : others.lookup key with
          | none => rfl
          | some y =>
            rw [hx, hy] at hkey
            cases hkey
        | some x =>
          cases hy : others.lookup key with
          | none =>
            rw [hx, hy] at hkey
            cases hkey
          | some y =>
            rw [hx, hy] at hkey
            exact ih (hroot.lookup hx) (hother.lookup hy) hkey
      | _ => simp [deepEqualJson] at h
    | _ =>
      cases other with
      | obj others => simp [deepEqualJson] at h
      | _ => rfl

theorem data_getD_lookup {fields : Fields} {key : String} (h : Data (.obj fields)) :
    Data ((fields.lookup key).getD .null) := by
  cases hlookup : fields.lookup key with
  | none => exact .null
  | some child => exact h.lookup hlookup

theorem data_setAt (hroot : Data root) (hvalue : Data value) (hpath : "__proto__" ∉ path) :
    Data (setAt root path value) := by
  induction path generalizing root with
  | nil =>
    rw [setAt_nil]
    exact hvalue
  | cons key keys ih =>
    rw [mem_cons, not_or] at hpath
    have hmade : Data (.obj [(key, setAt .null keys value)]) :=
      data_setField data_nil (Ne.symm hpath.1) (ih .null hpath.2)
    cases root with
    | obj fields => exact data_setField hroot (Ne.symm hpath.1) (ih (data_getD_lookup hroot) hpath.2)
    | _ => exact hmade

theorem setAt_congr {value' : Json} (hroot : Data root) (hother : Data other)
    (hvalue : Data value) (hvalue' : Data value') (hpath : "__proto__" ∉ path)
    (h : deepEqualJson root other = true) (hsame : deepEqualJson value value' = true) :
    deepEqualJson (setAt root path value) (setAt other path value') = true := by
  induction path generalizing root other with
  | nil =>
    rw [setAt_nil, setAt_nil]
    exact hsame
  | cons key keys ih =>
    have hkeys := (not_or.mp (mem_cons.not.mp hpath)).2
    have hmade : deepEqualJson (.obj [(key, setAt .null keys value)])
        (.obj [(key, setAt .null keys value')]) = true := by
      have hleft : Data (.obj [(key, setAt .null keys value)]) := data_setAt .null hvalue hpath
      have hright : Data (.obj [(key, setAt .null keys value')]) := data_setAt .null hvalue' hpath
      rw [deepEqualJson_obj_iff hleft hright]
      exact (SameFields.refl data_nil).setField (ih .null .null hkeys rfl)
    cases root with
    | obj fields =>
      cases other with
      | obj others =>
        have hsameFields : SameFields fields others := (deepEqualJson_obj_iff hroot hother).mp h
        have hleft := data_setAt hroot hvalue hpath
        have hright := data_setAt hother hvalue' hpath
        rw [setAt] at hleft hright
        rw [setAt, setAt, deepEqualJson_obj_iff hleft hright]
        refine hsameFields.setField (ih (data_getD_lookup hroot) (data_getD_lookup hother) hkeys ?_)
        have hkey := hsameFields key
        cases hx : fields.lookup key with
        | none =>
          cases hy : others.lookup key with
          | none => rfl
          | some y =>
            rw [hx, hy] at hkey
            cases hkey
        | some x =>
          cases hy : others.lookup key with
          | none =>
            rw [hx, hy] at hkey
            cases hkey
          | some y =>
            rw [hx, hy] at hkey
            exact hkey
      | _ => simp [deepEqualJson] at h
    | _ =>
      cases other with
      | obj others => simp [deepEqualJson] at h
      | _ => exact hmade

theorem deepEqualJson_setAt_self (hroot : Data root) (hvalue : Data value)
    (hpath : "__proto__" ∉ path) (hfound : valueAt root path = some found)
    (hsame : deepEqualJson found value = true) :
    deepEqualJson root (setAt root path value) = true := by
  induction path generalizing root with
  | nil =>
    rw [valueAt_nil] at hfound
    rw [setAt_nil, Option.some.inj hfound]
    exact hsame
  | cons key keys ih =>
    cases root with
    | obj fields =>
      have hset := data_setAt hroot hvalue hpath
      rw [setAt] at hset
      rw [setAt, deepEqualJson_obj_iff hroot hset]
      rw [valueAt_obj_cons] at hfound
      obtain ⟨child, hchild, hrest⟩ := Option.bind_eq_some_iff.mp hfound
      intro other
      rw [lookup_setField]
      split
      · rename_i hother
        rw [hother, hchild]
        exact ih (hroot.lookup hchild) (not_or.mp (mem_cons.not.mp hpath)).2 hrest
      · exact SameFields.refl hroot other
    | _ => cases hfound

theorem data_removeAt (path : List String) (hroot : Data root) : Data (removeAt root path) := by
  induction path generalizing root with
  | nil => cases root <;> exact hroot
  | cons key keys ih =>
    cases root with
    | obj fields =>
      cases keys with
      | nil => exact data_removeField hroot
      | cons second rest =>
        rw [removeAt]
        split
        · rename_i child hchild
          refine data_setField hroot ?_ (ih (hroot.lookup hchild))
          rintro rfl
          cases hroot with
          | obj _ hproto _ =>
          exact hproto (lookup_isSome_iff.mp (by rw [hchild]; rfl))
        · exact hroot
    | _ => cases keys <;> exact hroot

theorem removeAt_congr (path : List String) (hroot : Data root) (hother : Data other)
    (h : deepEqualJson root other = true) :
    deepEqualJson (removeAt root path) (removeAt other path) = true := by
  induction path generalizing root other with
  | nil => cases root <;> cases other <;> exact h
  | cons key keys ih =>
    cases root with
    | obj fields =>
      cases other with
      | obj others =>
        have hsameFields : SameFields fields others := (deepEqualJson_obj_iff hroot hother).mp h
        have hleft := data_removeAt (key :: keys) hroot
        have hright := data_removeAt (key :: keys) hother
        cases keys with
        | nil =>
          rw [removeAt] at hleft hright
          rw [removeAt, removeAt, deepEqualJson_obj_iff hleft hright]
          exact hsameFields.removeField
        | cons second rest =>
          have hkey := hsameFields key
          rw [removeAt] at hleft ⊢
          rw [removeAt] at hright ⊢
          cases hx : fields.lookup key with
          | none =>
            cases hy : others.lookup key with
            | none => exact h
            | some y =>
              rw [hx, hy] at hkey
              cases hkey
          | some x =>
            cases hy : others.lookup key with
            | none =>
              rw [hx, hy] at hkey
              cases hkey
            | some y =>
              rw [hx, hy] at hkey
              rw [hx] at hleft
              rw [hy] at hright
              dsimp only at hleft hright ⊢
              rw [deepEqualJson_obj_iff hleft hright]
              exact hsameFields.setField (ih (hroot.lookup hx) (hother.lookup hy) hkey)
      | _ => simp [deepEqualJson] at h
    | _ =>
      cases other with
      | obj others => simp [deepEqualJson] at h
      | _ => cases keys <;> exact h

end SetAt

end DshKernel.Settings
