import DshKernel.Settings.FileProvider
import Mathlib.Tactic.ByContra

/-!
# Edits that a write keeps

A write that finds the section on disk as it read it in memory changes in the file what it names,
and nothing else.
-/

namespace DshKernel.Settings

open Js Lib List

theorem ne_proto_of_isNamespace {ns : String} (h : isNamespace ns = true) : ns ≠ "__proto__" := by
  rintro rfl
  exact absurd h (by decide)

section Fields

variable {xs ys zs : Fields}

theorem SameFields.trans (hx : Data (.obj xs)) (hy : Data (.obj ys)) (hz : Data (.obj zs))
    (h : SameFields xs ys) (h' : SameFields ys zs) : SameFields xs zs := by
  rw [SameFields, ← deepEqualJson_obj_iff hx hz]
  exact deepEqualJson_trans hx hy hz ((deepEqualJson_obj_iff hx hy).mpr h)
    ((deepEqualJson_obj_iff hy hz).mpr h')

theorem data_getD_readSection {ns : String} {stored : Option Fields} {root : Fields}
    (hroot : Data (.obj root)) (h : readSection ns (root.lookup ns) = .ok stored) :
    Data (.obj (stored.getD [])) := by
  cases hlookup : root.lookup ns with
  | none =>
    rw [hlookup] at h
    cases h
    exact data_nil
  | some value =>
    rw [hlookup] at h
    cases value with
    | obj fields =>
      cases h
      exact hroot.lookup hlookup
    | _ => cases h

end Fields

section Runs

variable {Text Document : Type}
variable {T : TextLibrary Text Document} {format : SettingsFormat} {Plain : Document → Prop}

def Operation.WellFormed : Operation → Prop
  | .persist ns input current changed => isNamespace ns = true ∧ input.IsData ∧
      Data (.obj current) ∧ nextSection current input = .ok changed
  | _ => True

variable (T format Plain) in
structure Kept (p : FileProvider Text) (log : List (Wrote Text)) : Prop where
  operations : ∀ op ∈ p.operations, op.WellFormed
  parsed : ∃ document, parseFile T format p.text = .ok document
  idle : p.operations = [] → p.stage = .waiting
  locked : ∀ atLock, p.stage = .locked atLock → atLock = p.disk ∧
    ∀ ns input current changed rest, p.operations = .persist ns input current changed :: rest →
      FoundAsRead T format Plain atLock ns current
  reconciled : ∀ atLock, p.stage = .reconciled atLock → atLock = p.text ∧
    ∀ ns input current changed rest, p.operations = .persist ns input current changed :: rest →
      FoundAsRead T format Plain atLock ns current
  wrote : ∀ w ∈ log, w.KeepsEdits T format

variable {changed current : Fields} {ns : String} {input : WriteInput} {rest : List Operation}
variable {atLock : Option Text}

theorem keepsEdits_of_render (lawful : T.Lawful Plain) {text : Option Text} {output : Text}
    (hwell : (Operation.persist ns input current changed).WellFormed)
    (hparsed : ∃ document, parseFile T format text = .ok document)
    (hfound : FoundAsRead T format Plain text ns current)
    (hrender : render T format text ns changed = .ok output) :
    (∃ document, parse T format output = .ok document) ∧
      Wrote.KeepsEdits T format ⟨ns, input, text, output⟩ := by
  obtain ⟨hns, hinput, hcurrent, hnext⟩ := hwell
  obtain ⟨root, hroot⟩ := hparsed
  obtain ⟨hrootData, hpatchable, stored, hstored, hsame⟩ := hfound root hroot
  have hstoredData := data_getD_readSection hrootData hstored
  have hchanged := data_nextSection hcurrent hinput hnext
  obtain ⟨after, hafter, hafterData, hset⟩ := render_means lawful hrootData hchanged
    (ne_proto_of_isNamespace hns) hpatchable hroot hrender
  obtain ⟨next, hnextStored, hnextSame⟩ := nextSection_congr hcurrent hstoredData hinput hsame hnext
  have hnextData := data_nextSection hstoredData hinput hnextStored
  refine ⟨⟨after, hafter⟩, root, after, hroot, hafter, ?_, ?_⟩
  · intro other hother
    have hkey := hset other
    rwa [lookup_setField, if_neg hother] at hkey
  · have hkey := hset ns
    rw [lookup_setField, if_pos rfl] at hkey
    obtain ⟨written, hwritten, hwrittenSame⟩ : ∃ written, after.lookup ns = some (.obj written) ∧
        SameFields written changed := by
      cases hlookup : after.lookup ns with
      | none =>
        rw [hlookup] at hkey
        cases hkey
      | some value =>
        rw [hlookup] at hkey
        obtain ⟨written, rfl, hwritten⟩ := Means.fields ⟨hafterData.lookup hlookup, hkey⟩ hchanged
        exact ⟨written, rfl, hwritten⟩
    have hwrittenData := hafterData.lookup hwritten
    have hwrittenNext := hwrittenSame.trans hwrittenData hchanged hnextData hnextSame
    refine ⟨stored, next, written, hstored, hnextStored, hwritten, hwrittenNext, ?_⟩
    intro path huntouched
    rw [← valueAt_nextSection hinput huntouched hnextStored]
    exact valueAt_congr path hwrittenData hnextData
      ((deepEqualJson_obj_iff hwrittenData hnextData).mpr hwrittenNext)

namespace Kept

variable {p p' : FileProvider Text} {log news : List (Wrote Text)}

theorem done (h : Kept T format Plain p log) : Kept T format Plain p.done log where
  operations op hmem := h.operations op (mem_of_mem_tail hmem)
  parsed := h.parsed
  idle _ := rfl
  locked _ hstage := nomatch hstage
  reconciled _ hstage := nomatch hstage
  wrote := h.wrote

theorem enqueue {op : Operation} (h : Kept T format Plain p log) (hop : op.WellFormed) :
    Kept T format Plain { p with operations := p.operations ++ [op] } log := by
  have hhead : ∀ first rest, p.operations ++ [op] = first :: rest → p.stage ≠ .waiting →
      ∃ rest', p.operations = first :: rest' := by
    intro first rest hsplit hrunning
    cases hoperations : p.operations with
    | nil => exact absurd (h.idle hoperations) hrunning
    | cons head tail =>
      rw [hoperations] at hsplit
      exact ⟨tail, by rw [(cons.inj hsplit).1]⟩
  refine ⟨?_, h.parsed, fun hnil => absurd hnil (by simp), ?_, ?_, h.wrote⟩
  · intro other hmem
    rcases mem_append.mp hmem with hold | hnew
    · exact h.operations other hold
    · rw [mem_singleton.mp hnew]
      exact hop
  · intro atLock hstage
    refine ⟨(h.locked atLock hstage).1, ?_⟩
    intro ns input current changed rest hsplit
    dsimp only at hstage hsplit
    obtain ⟨rest', hrest⟩ := hhead _ _ hsplit (by rw [hstage]; nofun)
    exact (h.locked atLock hstage).2 ns input current changed rest' hrest
  · intro atLock hstage
    refine ⟨(h.reconciled atLock hstage).1, ?_⟩
    intro ns input current changed rest hsplit
    dsimp only at hstage hsplit
    obtain ⟨rest', hrest⟩ := hhead _ _ hsplit (by rw [hstage]; nofun)
    exact (h.reconciled atLock hstage).2 ns input current changed rest' hrest

variable [DecidableEq Text]

theorem reconcile (h : Kept T format Plain p log) (hok : p.reconcileFromDisk T format = .ok p') :
    p'.operations = p.operations ∧ p'.stage = p.stage ∧ p'.disk = p.disk ∧
      (∃ document, parseFile T format p'.text = .ok document) ∧
      (p.closed = false ∨ p.disk = p.text → p'.text = p.disk) := by
  unfold FileProvider.reconcileFromDisk at hok
  split at hok
  · rename_i hsame
    cases hok
    refine ⟨rfl, rfl, rfl, h.parsed, fun hopen => ?_⟩
    rcases hsame with hsame | hclosed
    · exact hsame.symm
    · rcases hopen with hopen | hsame
      · rw [hclosed] at hopen
        cases hopen
      · exact hsame.symm
  · split at hok
    · cases hok
    · rename_i document hparse
      cases hok
      exact ⟨rfl, rfl, rfl, ⟨document, hparse⟩, fun _ => rfl⟩

theorem write {ns : String} {input : WriteInput} (h : Kept T format Plain p log)
    (hmeets : LosesNothing T format Plain p (.write ns input))
    (hstep : p.step T format (.write ns input) = some (p', news)) :
    Kept T format Plain p' (log ++ news) := by
  obtain ⟨hinput, hmemory⟩ := hmeets
  simp only [FileProvider.step] at hstep
  split at hstep
  · cases hstep
  · rename_i hfree
    rw [Bool.or_eq_true, Bool.or_eq_true, not_or, not_or] at hfree
    have hns : isNamespace ns = true := by simpa using hfree.1.1
    split at hstep
    · cases hstep
    · rename_i stored hstored
      split at hstep
      · cases hstep
      · rename_i changed hchanged
        cases hstep
        rw [append_nil]
        refine h.enqueue ⟨hns, hinput, ?_, hchanged⟩
        cases hlookup : p.document.lookup ns with
        | none =>
          rw [hlookup] at hstored
          cases hstored
          exact data_nil
        | some value =>
          rw [hlookup] at hstored
          cases value with
          | obj fields =>
            cases hstored
            exact hmemory fields hlookup
          | _ => cases hstored

theorem step (lawful : T.Lawful Plain) {s : FileStep Text} (h : Kept T format Plain p log)
    (hmeets : LosesNothing T format Plain p s) (hstep : p.step T format s = some (p', news)) :
    Kept T format Plain p' (log ++ news) := by
  cases s with
  | write ns input => exact h.write hmeets hstep
  | changed =>
    simp only [FileProvider.step] at hstep
    split at hstep
    · cases hstep
    · cases hstep
      rw [append_nil]
      exact h.enqueue trivial
  | prepareDocument =>
    cases hstep
    rw [append_nil]
    exact h.enqueue trivial
  | edit content underLock =>
    have hedited : Kept T format Plain { p with disk := content } log :=
      ⟨h.operations, h.parsed, h.idle, fun atLock hstage => absurd hstage (hmeets atLock), h.reconciled,
        h.wrote⟩
    simp only [FileProvider.step] at hstep
    split at hstep
    · cases hstep
      rwa [append_nil]
    · cases hstep
      rwa [append_nil]
    · cases hstep
  | lock =>
    simp only [FileProvider.step] at hstep
    split at hstep
    · rename_i hoperations
      cases hstep
      rw [append_nil]
      refine ⟨h.operations, h.parsed, fun hnil => ?_, ?_, fun _ hstage => (nomatch hstage), h.wrote⟩
      · dsimp only at hnil
        rw [hoperations] at hnil
        cases hnil
      · intro atLock hstage
        cases hstage
        exact ⟨rfl, hmeets⟩
    · rename_i hoperations
      cases hstep
      rw [append_nil]
      refine ⟨h.operations, h.parsed, fun hnil => ?_, ?_, fun _ hstage => (nomatch hstage), h.wrote⟩
      · dsimp only at hnil
        rw [hoperations] at hnil
        cases hnil
      · intro atLock hstage
        cases hstage
        exact ⟨rfl, hmeets⟩
    · cases hstep
  | reconcile =>
    simp only [FileProvider.step] at hstep
    split at hstep
    · rename_i atLock ns input current changed rest hstage hoperations
      split at hstep
      · cases hstep
        rw [append_nil]
        exact h.done
      · rename_i reconciled hok
        cases hstep
        obtain ⟨hsame, -, -, hparsed, htext⟩ := h.reconcile hok
        obtain ⟨hlock, hfound⟩ := h.locked atLock hstage
        rw [append_nil]
        refine ⟨?_, hparsed, fun hnil => ?_, fun _ hstage => (nomatch hstage), ?_, h.wrote⟩
        · dsimp only
          rw [hsame]
          exact h.operations
        · dsimp only at hnil
          rw [hsame, hoperations] at hnil
          cases hnil
        · intro atLock' hstage'
          cases hstage'
          dsimp only
          rw [hsame]
          exact ⟨by rw [htext hmeets, hlock], hfound⟩
    · cases hstep
  | commit =>
    simp only [FileProvider.step] at hstep
    split at hstep
    · rename_i atLock ns input current changed rest hstage hoperations
      split at hstep
      · cases hstep
        rw [append_nil]
        exact h.done
      · rename_i output hrender
        cases hstep
        obtain ⟨htext, hfound⟩ := h.reconciled atLock hstage
        obtain ⟨hparsed, hkept⟩ := keepsEdits_of_render lawful
          (h.operations _ (by rw [hoperations]; exact mem_cons_self)) h.parsed
          (htext ▸ hfound ns input current changed rest hoperations) hrender
        refine ⟨fun op hmem => h.operations op (mem_of_mem_tail hmem), hparsed, fun _ => rfl,
          fun _ hstage => (nomatch hstage), fun _ hstage => (nomatch hstage), ?_⟩
        intro w hmem
        rcases mem_append.mp hmem with hold | hnew
        · exact h.wrote w hold
        · rw [mem_singleton.mp hnew, htext]
          exact hkept
    · cases hstep
  | refresh =>
    simp only [FileProvider.step] at hstep
    split at hstep
    · split at hstep
      · cases hstep
        rw [append_nil]
        exact h.done
      · split at hstep
        · cases hstep
          rw [append_nil]
          exact h.done
        · rename_i reconciled hok
          cases hstep
          obtain ⟨hsame, -, -, hparsed, -⟩ := h.reconcile hok
          rw [append_nil]
          refine ⟨?_, hparsed, fun _ => rfl, fun _ hstage => (nomatch hstage),
            fun _ hstage => (nomatch hstage), h.wrote⟩
          intro op hmem
          have hmem : op ∈ reconciled.operations.tail := hmem
          rw [hsame] at hmem
          exact h.operations op (mem_of_mem_tail hmem)
    · cases hstep
  | create =>
    simp only [FileProvider.step] at hstep
    split at hstep
    · cases hstep
      rw [append_nil]
      unfold FileProvider.create
      split
      · exact h.done
      · refine ⟨fun op hmem => h.operations op (mem_of_mem_tail hmem), ?_, fun _ => rfl,
          fun _ hstage => (nomatch hstage), fun _ hstage => (nomatch hstage), h.wrote⟩
        obtain ⟨hblank, d, hd, hnull⟩ := lawful.empty
        cases format with
        | yaml => exact ⟨[], by simp [FileProvider.done, parseFile, parse, hd, hnull, rootSections]⟩
        | json => exact ⟨[], by simp [FileProvider.done, parseFile, parse, hblank]⟩
    · cases hstep
  | fail =>
    simp only [FileProvider.step] at hstep
    split at hstep
    · cases hstep
    · cases hstep
      rw [append_nil]
      exact h.done
  | close =>
    cases hstep
    rw [append_nil]
    exact ⟨h.operations, h.parsed, h.idle, h.locked, h.reconciled, h.wrote⟩

end Kept

variable [DecidableEq Text]

/-- In every run whose steps lose nothing, every write that succeeds keeps what it does not name. -/
theorem writes_keep_edits (lawful : T.Lawful Plain) {p : FileProvider Text} {log : List (Wrote Text)}
    (run : FileRun T format (LosesNothing T format Plain) p log) :
    ∀ w ∈ log, w.KeepsEdits T format := by
  have hkept : Kept T format Plain p log := by
    induction run with
    | start disk document hload =>
      exact ⟨fun _ hmem => absurd hmem not_mem_nil, ⟨document, hload⟩, fun _ => rfl,
        fun _ hstage => (nomatch hstage), fun _ hstage => (nomatch hstage),
        fun _ hmem => absurd hmem not_mem_nil⟩
    | step _ s hmeets hstep ih => exact ih.step lawful hmeets hstep
  exact hkept.wrote

theorem step_reconcile {p : FileProvider Text} {document : Fields}
    (hstage : p.stage = .locked atLock)
    (hoperations : p.operations = .persist ns input current changed :: rest) (hopen : p.closed = false)
    (hnew : p.disk ≠ p.text) (hparse : parseFile T format p.disk = .ok document) :
    p.step T format .reconcile =
      some ({ p with text := p.disk, document, stage := .reconciled atLock }, []) := by
  simp [FileProvider.step, FileProvider.reconcileFromDisk, hstage, hoperations, hopen, hnew, hparse]

theorem step_reconcile_same {p : FileProvider Text} (hstage : p.stage = .locked atLock)
    (hoperations : p.operations = .persist ns input current changed :: rest)
    (hsame : p.disk = p.text) :
    p.step T format .reconcile = some ({ p with stage := .reconciled atLock }, []) := by
  simp [FileProvider.step, FileProvider.reconcileFromDisk, hstage, hoperations, hsame]

end Runs

/-- The section `ui` of a document with nothing else. -/
def uiDocument («section» : Fields) : Option (Option Json) :=
  some (some (.obj [("ui", .obj «section»)]))

def toLight : WriteInput := .merge [("theme", .str "light")]

open Classical in
theorem writes_keep_edits_patched :
    ∃ p log, FileRun literalTexts .yaml (LosesNothing literalTexts .yaml fun _ => True) p log ∧
      log = [⟨"ui", toLight, uiDocument [("theme", .str "dark")],
        some (.obj [("ui", .obj [("theme", .str "light")])])⟩] ∧
      ∀ w ∈ log, w.KeepsEdits literalTexts .yaml := by
  have h0 : FileRun literalTexts .yaml (LosesNothing literalTexts .yaml fun _ => True)
      { disk := uiDocument [("theme", .str "dark")], text := uiDocument [("theme", .str "dark")],
        document := [("ui", .obj [("theme", .str "dark")])] } [] := .start _ _ rfl
  have h1 := h0.step (.write "ui" toLight)
    ⟨data_theme "light", fun current hcurrent => by cases hcurrent; exact data_theme "dark"⟩ rfl
  have h2 := h1.step .lock (fun ns input current changed rest hoperations => by
    cases hoperations
    intro atLock hparse
    cases hparse
    refine ⟨data_setField data_nil (by decide) (data_theme "dark"), ?_, _, rfl, .refl (data_theme "dark")⟩
    exact fun _ => ⟨fun _ _ _ _ => trivial, fun stored hstored => by
      cases hstored
      exact own_theme "dark"⟩) rfl
  have h3 := h2.step .reconcile (.inl rfl) (step_reconcile_same rfl rfl rfl)
  have h4 := h3.step .commit trivial rfl
  exact ⟨_, _, h4, rfl, writes_keep_edits literalTexts_lawful h4⟩

open Classical in
/-- A key that an editor adds to the section, after the write computed from it and before the
provider sees the edit, is gone from the file after the write. -/
theorem unobserved_edit_lost :
    ¬ ∀ p log, FileRun literalTexts .json (fun _ _ => True) p log →
      ∀ w ∈ log, w.KeepsEdits literalTexts .json := by
  intro hall
  have h0 : FileRun literalTexts .json (fun _ _ => True)
      { disk := uiDocument [("theme", .str "dark")], text := uiDocument [("theme", .str "dark")],
        document := [("ui", .obj [("theme", .str "dark")])] } [] := .start _ _ rfl
  have h1 := h0.step (.write "ui" toLight) trivial rfl
  have h2 := h1.step (.edit (uiDocument [("theme", .str "dark"), ("size", .str "large")]) true) trivial rfl
  have h3 := h2.step .lock trivial rfl
  have h4 := h3.step .reconcile trivial
    (step_reconcile rfl rfl rfl (by intro heq; simp [uiDocument] at heq) rfl)
  have h5 := h4.step .commit trivial rfl
  obtain ⟨atLock, written, hatLock, hwritten, -, stored, next, changed, hstored, -, hchanged, -, hkept⟩ :=
    hall _ _ h5 _ mem_cons_self
  cases hatLock
  cases hwritten
  cases hstored
  cases hchanged
  have hsize := hkept ["size"] rfl
  exact absurd hsize (by decide)

end DshKernel.Settings
