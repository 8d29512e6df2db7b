import DshKernel.Settings.Provider

/-!
# Revisions as a compare-and-set

A write that expects a revision is applied to the raw section that a descriptor of that revision
showed, as long as every change of the stored section moves the revision.
-/

namespace DshKernel.Settings

open Js List SettingsRegistration

/-- The states that steps in any order lead to, with what callers learned, where each step meets a
condition on the state before it. -/
inductive Run (meets : Namespace → Step → Prop) : Namespace → List Observation → Prop where
  | start (ns : String) (stored : Option Json) (hdata : ∀ raw, stored = some raw → Data raw) :
      Run meets { ns, document := stored } []
  | step {n n' : Namespace} {log news : List Observation} (before : Run meets n log) (s : Step)
      (hmeets : meets n s) (hstep : n.step s = some (n', news)) : Run meets n' (log ++ news)

def ComparesAndSets (log : List Observation) : Prop :=
  ∀ before revision raw after, log = before ++ .applied (some revision) raw :: after →
    ∀ shown, .described revision shown ∈ before → sameJson shown raw = true

/-- The steps whose change of the stored section moves the revision: a published section resolves or
says what the stored one says, and nothing is stored around a write that leaves the section as it
was. -/
def MovesRevision (n : Namespace) : Step → Prop
  | .register _ => n.registered = 0 ∨ n.registration.isSome = true
  | .swap stored => (∀ raw, stored = some raw → Data raw) ∧
      ∀ registration, n.registration = some registration → sameJson n.document stored = true ∨
        ∃ fields next, readSection n.ns stored = .ok fields ∧ registration.resolve fields = .ok next
  | .persisted true => ∀ written, n.persisting = some written → n.registration.isSome = true →
      n.stopped = false →
      sameJson (some (.obj written.current)) (some (.obj written.section)) = true →
      sameJson n.document (some (.obj written.section)) = true
  | .write input _ => input.IsData
  | _ => True

section Logs

variable {log : List Observation}

theorem ComparesAndSets.nil : ComparesAndSets [] := by
  intro before revision raw after hsplit
  simp at hsplit

theorem ComparesAndSets.concat {last : Observation} (h : ComparesAndSets log)
    (hlast : ∀ revision raw, last = .applied (some revision) raw →
      ∀ shown, .described revision shown ∈ log → sameJson shown raw = true) :
    ComparesAndSets (log ++ [last]) := by
  intro before revision raw after hsplit
  rcases eq_nil_or_concat after with hnil | ⟨rest, final, hconcat⟩
  · subst hnil
    obtain ⟨hbefore, heq⟩ := append_inj' hsplit rfl
    subst hbefore
    exact hlast revision raw (cons.inj heq).1
  · subst hconcat
    rw [concat_eq_append, ← cons_append, ← append_assoc] at hsplit
    exact h before revision raw rest (append_inj' hsplit rfl).1

end Logs

variable {fields : Option Fields} {stored : Option Json}

theorem readSection_eq_ok {ns : String} :
    readSection ns stored = .ok fields ↔ stored = rawSection fields := by
  cases stored with
  | none =>
    cases fields with
    | none => simp [readSection, rawSection]
    | some fields => simp [readSection, rawSection]
  | some raw =>
    cases raw with
    | obj own =>
      cases fields with
      | none => simp [readSection, rawSection]
      | some fields => simp [readSection, rawSection]
    | _ => cases fields <;> simp [readSection, rawSection]

theorem exists_rawSection_of_sameJson
    (h : sameJson (rawSection fields) stored = true) : ∃ others, stored = rawSection others := by
  cases fields with
  | none =>
    cases stored with
    | none => exact ⟨none, rfl⟩
    | some raw => cases h
  | some fields =>
    cases stored with
    | none => cases h
    | some raw =>
      cases raw with
      | obj others => exact ⟨some others, rfl⟩
      | _ => simp [rawSection, sameJson, deepEqualJson] at h

/-- A write at its turn is rejected, or it waits for `persist` with what it computed. -/
theorem Namespace.front_cases (n : Namespace) (queued : QueuedWrite) (rest : List QueuedWrite) :
    n.front queued rest = ({ n with queue := rest }, []) ∨
    ∃ registration stored next resolved, n.registration = some registration ∧ n.stopped = false ∧
      readSection n.ns n.document = .ok stored ∧
      (∀ revision, queued.expectedRevision = some revision → revision = registration.revision) ∧
      nextSection (stored.getD []) queued.input = .ok next ∧
      n.front queued rest =
        ({ n with
            queue := rest
            persisting := some ⟨queued.registration, stored.getD [], next, resolved⟩ },
          [.applied queued.expectedRevision n.document]) := by
  unfold front
  dsimp only
  split
  · exact .inl rfl
  · rename_i registration hregistration
    split
    · exact .inl rfl
    · rename_i hcurrent
      rw [Bool.or_eq_true, not_or, Bool.not_eq_true] at hcurrent
      split
      · exact .inl rfl
      · rename_i stored hsection
        split
        · exact .inl rfl
        · rename_i hexpected
          have hexpected : ∀ revision, queued.expectedRevision = some revision →
              revision = registration.revision := by
            intro revision heq
            rw [heq] at hexpected
            simpa using hexpected
          split
          · exact .inl rfl
          · rename_i next hnext
            split
            · exact .inl rfl
            · exact .inr ⟨registration, stored, next, _, hregistration, hcurrent.1, hsection, hexpected,
                hnext, rfl⟩

@[simp]
theorem SettingsRegistration.commit_revision (registration : SettingsRegistration) (next : Json) :
    (registration.commit next).revision = registration.revision := by
  unfold commit
  split
  · rfl
  · rfl

def OptData (value : Option Json) : Prop := ∀ raw, value = some raw → Data raw

structure Tells (registration : SettingsRegistration) (document : Option Json)
    (publishing : Option (Option Fields)) (log : List Observation) : Prop where
  well : ∃ fields, document = rawSection fields ∧ ∀ before, publishing = some before →
    (∃ next, registration.resolve fields = .ok next) ∨ sameJson (rawSection before) document = true
  shown : ∀ revision raw, .described revision raw ∈ log → revision ≤ registration.revision ∧
    (revision = registration.revision → sameJson raw document = true ∨
      ∃ before, publishing = some before ∧ sameJson raw (rawSection before) = true)

structure Sound (n : Namespace) (log : List Observation) : Prop where
  document : OptData n.document
  once : n.registered ≤ 1
  idle : n.registered = 0 → n.registration = none ∧ n.queue = [] ∧ n.persisting = none ∧ log = []
  queue : ∀ queued ∈ n.queue, queued.input.IsData ∧ queued.registration = n.registered
  persisting : ∀ written, n.persisting = some written →
    Data (.obj written.current) ∧ Data (.obj written.section) ∧ written.registration = n.registered
  publishing : ∀ before, n.publishing = some before → OptData (rawSection before)
  shown : ∀ revision raw, .described revision raw ∈ log → OptData raw
  tells : ∀ registration, n.registration = some registration → n.stopped = false →
    Tells registration n.document n.publishing log
  compares : ComparesAndSets log

namespace Sound

variable {n n' : Namespace} {log news : List Observation}

variable {stored : Option Json} {rest : List QueuedWrite} {queued : QueuedWrite}
variable {written : PersistingWrite}

theorem start (ns : String) (hdata : OptData stored) :
    Sound { ns, document := stored } [] where
  document := hdata
  once := Nat.zero_le 1
  idle _ := ⟨rfl, rfl, rfl, rfl⟩
  queue _ hmem := absurd hmem not_mem_nil
  persisting _ h := nomatch h
  publishing _ h := nomatch h
  shown _ _ hmem := absurd hmem not_mem_nil
  tells _ h := nomatch h
  compares := .nil

theorem register {resolve : Option Fields → Except String Json} (h : Sound n log)
    (hmeets : MovesRevision n (.register resolve)) : Sound (n.register resolve) log := by
  unfold Namespace.register
  split
  · exact h
  · rename_i hfree
    have hzero : n.registered = 0 := hmeets.resolve_right hfree
    obtain ⟨-, hqueue, hpersisting, hlog⟩ := h.idle hzero
    split
    · exact h
    · rename_i fields hsection
      split
      · exact h
      · rename_i resolved hresolve
        refine ⟨h.document, by dsimp only; omega, fun hnone => absurd hnone (Nat.succ_ne_zero _), ?_,
          ?_, h.publishing, h.shown, ?_, h.compares⟩
        · intro queued hmem
          dsimp only at hmem
          rw [hqueue] at hmem
          simp at hmem
        · intro written hwritten
          dsimp only at hwritten
          rw [hpersisting] at hwritten
          cases hwritten
        · intro registration hregistration _
          cases hregistration
          refine ⟨⟨fields, readSection_eq_ok.mp hsection, fun _ _ => .inl ⟨resolved, hresolve⟩⟩, ?_⟩
          intro revision raw hmem
          rw [hlog] at hmem
          simp at hmem

theorem dispose (h : Sound n log) : Sound { n with registration := none } log :=
  ⟨h.document, h.once, fun hzero => ⟨rfl, (h.idle hzero).2⟩, h.queue, h.persisting, h.publishing,
    h.shown, fun _ hnone => (nomatch hnone), h.compares⟩

theorem write {input : WriteInput} {expectedRevision : Option Nat} (h : Sound n log)
    (hdata : input.IsData) : Sound (n.write input expectedRevision) log := by
  unfold Namespace.write
  split
  · exact h
  · rename_i hcalled
    refine { h with idle := ?_, queue := ?_ }
    · intro hzero
      rw [(h.idle hzero).1] at hcalled
      exact absurd rfl hcalled
    · intro queued hmem
      rcases mem_append.mp hmem with hold | hnew
      · exact h.queue queued hold
      · rw [mem_singleton.mp hnew]
        exact ⟨hdata, rfl⟩

theorem drop (h : Sound n log)
    (hqueue : n.queue = queued :: rest) : Sound { n with queue := rest } log := by
  refine { h with idle := ?_, queue := ?_ }
  · intro hzero
    have hnil := (h.idle hzero).2.1
    rw [hqueue] at hnil
    cases hnil
  · intro other hmem
    exact h.queue other (by rw [hqueue]; exact mem_cons_of_mem _ hmem)

theorem front (h : Sound n log)
    (hpublishing : n.publishing = none) (hqueue : n.queue = queued :: rest) :
    Sound (n.front queued rest).1 (log ++ (n.front queued rest).2) := by
  have hdropped := h.drop hqueue
  rcases n.front_cases queued rest with hrejected |
    ⟨registration, stored, next, resolved, hregistration, hrunning, hsection, hexpected, hnext, hfront⟩
  · rw [hrejected, append_nil]
    exact hdropped
  · obtain ⟨hinput, hsame⟩ := h.queue queued (by rw [hqueue]; exact mem_cons_self)
    have hdocument := readSection_eq_ok.mp hsection
    have hdata : Data (.obj (stored.getD [])) := by
      cases stored with
      | none => exact data_nil
      | some fields => exact h.document _ hdocument
    have hlogged : ∀ revision raw, .described revision raw ∈
        log ++ [Observation.applied queued.expectedRevision n.document] →
        .described revision raw ∈ log := by
      intro revision raw hmem
      rcases mem_append.mp hmem with hold | hnew
      · exact hold
      · cases mem_singleton.mp hnew
    rw [hfront]
    refine ⟨h.document, h.once, ?_, hdropped.queue, ?_, h.publishing, ?_, ?_, ?_⟩
    · intro hzero
      rw [(h.idle hzero).1] at hregistration
      cases hregistration
    · intro written hwritten
      cases hwritten
      exact ⟨hdata, data_nextSection hdata hinput hnext, hsame⟩
    · intro revision raw hmem
      exact h.shown revision raw (hlogged revision raw hmem)
    · intro other hother hother'
      refine ⟨(h.tells other hother hother').well, ?_⟩
      intro revision raw hmem
      exact (h.tells other hother hother').shown revision raw (hlogged revision raw hmem)
    · refine h.compares.concat ?_
      intro revision raw happlied shown hmem
      obtain ⟨hexpectedEq, rfl⟩ := Observation.applied.inj happlied
      have hrevision := hexpected revision hexpectedEq
      have htells := h.tells registration hregistration hrunning
      rcases (htells.shown revision shown hmem).2 hrevision with hstored | ⟨before, hin, -⟩
      · exact hstored
      · rw [hpublishing] at hin
        cases hin

theorem abandon (h : Sound n log) (hpersisting : n.persisting = some written) :
    Sound { n with persisting := none } log := by
  refine { h with idle := ?_, persisting := ?_ }
  · intro hzero
    have hnone := (h.idle hzero).2.2.1
    rw [hpersisting] at hnone
    cases hnone
  · intro other hother
    cases hother

theorem persisted (h : Sound n log) (hpublishing : n.publishing = none)
    (hpersisting : n.persisting = some written) (hmeets : MovesRevision n (.persisted true)) :
    Sound (n.persisted written) log := by
  obtain ⟨hcurrent, hsection, hsame⟩ := h.persisting written hpersisting
  have hstarted : n.registered ≠ 0 := by
    intro hzero
    have hnone := (h.idle hzero).2.2.1
    rw [hpersisting] at hnone
    cases hnone
  have hstored : OptData (some (.obj written.section)) := by
    intro raw hraw
    cases hraw
    exact hsection
  unfold Namespace.persisted
  dsimp only
  split
  · rename_i hregistration
    refine { h with
      document := hstored, idle := fun hzero => absurd hzero hstarted, persisting := nofun, tells := ?_ }
    intro registration hsome
    cases hregistration.symm.trans hsome
  · rename_i registration hregistration
    split
    · rename_i hstopped
      have hstopped : n.stopped = true := by simpa [hsame] using hstopped
      refine { h with
        document := hstored, idle := fun hzero => absurd hzero hstarted, persisting := nofun
        tells := ?_ }
      intro _ _ hrunning
      rw [hstopped] at hrunning
      cases hrunning
    · rename_i hrunning
      have hrunning : n.stopped = false := by simpa [hsame] using hrunning
      have htells := h.tells registration hregistration hrunning
      refine { h with
        document := hstored, idle := fun hzero => absurd hzero hstarted, persisting := nofun
        tells := ?_ }
      intro other hother _
      cases hother
      refine ⟨⟨some written.section, rfl, ?_⟩, ?_⟩
      · intro before hbefore
        dsimp only at hbefore
        rw [hpublishing] at hbefore
        cases hbefore
      · intro revision raw hmem
        obtain ⟨hle, hshown⟩ := htells.shown revision raw hmem
        rw [commit_revision]
        unfold bumpRevision
        split
        · rename_i hunchanged
          refine ⟨hle, fun heq => .inl ?_⟩
          have hdocument := hmeets written hpersisting (by rw [hregistration]; rfl) hrunning hunchanged
          rcases hshown heq with hraw | ⟨before, hbefore, -⟩
          · exact sameJson_trans (h.shown revision raw hmem) h.document hstored hraw hdocument
          · rw [hpublishing] at hbefore
            cases hbefore
        · refine ⟨Nat.le_succ_of_le hle, fun heq => ?_⟩
          dsimp only at heq
          omega

theorem swap (h : Sound n log) (hpublishing : n.publishing = none)
    (hmeets : MovesRevision n (.swap stored)) : Sound (n.swap stored) log := by
  obtain ⟨hdata, hresolves⟩ := hmeets
  unfold Namespace.swap
  dsimp only
  split
  · rename_i hregistration
    refine { h with document := hdata, publishing := ?_, tells := ?_ }
    · intro before hbefore
      cases hbefore
      intro raw hraw
      cases hraw
    · intro registration hsome
      cases hregistration.symm.trans hsome
  · rename_i registration hregistration
    refine { h with document := hdata, publishing := ?_, tells := ?_ }
    · intro before hbefore
      cases hbefore
      split
      · intro raw hraw
        cases hraw
      · rename_i fields hsection
        rw [← readSection_eq_ok.mp hsection]
        exact h.document
    · intro other hother hrunning
      obtain rfl := Option.some.inj (hregistration.symm.trans hother)
      obtain ⟨⟨fields, hdocument, -⟩, hshown⟩ := h.tells registration hregistration hrunning
      rw [readSection_eq_ok.mpr hdocument]
      refine ⟨?_, ?_⟩
      · rcases hresolves registration hregistration with hsame | ⟨fields', next, hread, hnext⟩
        · rw [hdocument] at hsame
          obtain ⟨others, hothers⟩ := exists_rawSection_of_sameJson hsame
          refine ⟨others, hothers, fun before hbefore => .inr ?_⟩
          cases hbefore
          exact hsame
        · exact ⟨fields', readSection_eq_ok.mp hread, fun _ _ => .inl ⟨next, hnext⟩⟩
      · intro revision raw hmem
        obtain ⟨hle, hequal⟩ := hshown revision raw hmem
        refine ⟨hle, fun heq => .inr ⟨fields, rfl, ?_⟩⟩
        rcases hequal heq with hraw | ⟨before, hbefore, -⟩
        · rwa [hdocument] at hraw
        · rw [hpublishing] at hbefore
          cases hbefore

theorem settle {before : Option Fields} (h : Sound n log) (hpublishing : n.publishing = some before) :
    Sound (n.settle before) log := by
  have hbefore := h.publishing before hpublishing
  unfold Namespace.settle
  dsimp only
  have hkept : ∀ registration : Option SettingsRegistration,
      (∀ own, registration = some own → n.stopped = false → Tells own n.document none log) →
      (n.registration = none → registration = none) →
      Sound { n with publishing := none, registration := registration } log := by
    intro registration htells hnone
    exact ⟨h.document, h.once, fun hzero => ⟨hnone (h.idle hzero).1, (h.idle hzero).2⟩, h.queue,
      h.persisting, fun _ hsome => (nomatch hsome), h.shown, htells, h.compares⟩
  split
  · rename_i hregistration
    have hnothing := hkept none (fun _ hsome => (nomatch hsome)) fun _ => rfl
    rwa [← hregistration] at hnothing
  · rename_i registration hregistration
    -- Without a move of the revision, what was stored before is what is stored now.
    have hstill : (n.stopped = false → sameJson (rawSection before) n.document = true) →
        ∀ own : SettingsRegistration, own.revision = registration.revision → n.stopped = false →
          Tells own n.document none log := by
      intro hsame own hrevision hrunning
      obtain ⟨⟨fields, hdocument, -⟩, hshown⟩ := h.tells registration hregistration hrunning
      refine ⟨⟨fields, hdocument, fun _ hsome => (nomatch hsome)⟩, ?_⟩
      intro revision raw hmem
      obtain ⟨hle, hequal⟩ := hshown revision raw hmem
      rw [hrevision]
      refine ⟨hle, fun heq => .inl ?_⟩
      rcases hequal heq with hraw | ⟨own, hown, hraw⟩
      · exact hraw
      · obtain rfl := Option.some.inj (hpublishing.symm.trans hown)
        exact sameJson_trans (h.shown revision raw hmem) hbefore h.document hraw (hsame hrunning)
    have hunmoved : (n.stopped = false → sameJson (rawSection before) n.document = true) →
        Sound { n with publishing := none } log := by
      intro hsame
      have hsound := hkept (some registration) (fun own hown hrunning => by
        cases hown
        exact hstill hsame registration rfl hrunning) fun hnone => by
          rw [hregistration] at hnone
          cases hnone
      rwa [← hregistration] at hsound
    split
    · rename_i error hsection
      refine hunmoved fun hrunning => ?_
      obtain ⟨⟨fields, hdocument, -⟩, -⟩ := h.tells registration hregistration hrunning
      rw [readSection_eq_ok.mpr hdocument] at hsection
      cases hsection
    · rename_i stored hsection
      have hdocument := readSection_eq_ok.mp hsection
      split
      · rename_i error hresolve
        refine hunmoved fun hrunning => ?_
        obtain ⟨⟨fields, hfields, hwell⟩, -⟩ := h.tells registration hregistration hrunning
        obtain rfl : stored = fields := by
          rw [readSection_eq_ok.mpr hfields] at hsection
          exact (Except.ok.inj hsection).symm
        rcases hwell before hpublishing with ⟨next, hnext⟩ | hsame
        · rw [hresolve] at hnext
          cases hnext
        · exact hsame
      · rename_i next hresolve
        refine hkept _ ?_ fun hnone => by
          rw [hregistration] at hnone
          cases hnone
        intro own hown hrunning
        cases hown
        by_cases hsame : sameJson (rawSection before) (rawSection stored) = true
        · refine hstill (fun _ => by rw [hdocument]; exact hsame) _ ?_ hrunning
          rw [commit_revision, bumpRevision, if_pos hsame]
        · refine ⟨⟨stored, hdocument, fun _ hsome => (nomatch hsome)⟩, ?_⟩
          intro revision raw hmem
          obtain ⟨hle, -⟩ := (h.tells registration hregistration hrunning).shown revision raw hmem
          rw [commit_revision, bumpRevision, if_neg hsame]
          refine ⟨Nat.le_succ_of_le hle, fun heq => ?_⟩
          dsimp only at heq
          omega

theorem describe {registration : SettingsRegistration} (h : Sound n log)
    (hregistration : n.registration = some registration) :
    Sound n (log ++ [.described registration.revision n.document]) := by
  refine { h with idle := ?_, shown := ?_, tells := ?_, compares := ?_ }
  · intro hzero
    rw [(h.idle hzero).1] at hregistration
    cases hregistration
  · intro revision raw hmem
    rcases mem_append.mp hmem with hold | hnew
    · exact h.shown revision raw hold
    · cases mem_singleton.mp hnew
      exact h.document
  · intro own hown hrunning
    obtain rfl := Option.some.inj (hregistration.symm.trans hown)
    have htells := h.tells registration hregistration hrunning
    refine ⟨htells.well, ?_⟩
    intro revision raw hmem
    rcases mem_append.mp hmem with hold | hnew
    · exact htells.shown revision raw hold
    · cases mem_singleton.mp hnew
      exact ⟨Nat.le_refl _, fun _ => .inl (sameJson_refl h.document)⟩
  · refine h.compares.concat ?_
    intro revision raw heq
    cases heq

theorem stop (h : Sound n log) : Sound { n with stopped := true } log :=
  { h with tells := fun _ _ hrunning => (nomatch hrunning) }

theorem step {s : Step} (h : Sound n log) (hmeets : MovesRevision n s)
    (hstep : n.step s = some (n', news)) : Sound n' (log ++ news) := by
  cases s with
  | register resolve =>
    cases hstep
    rw [append_nil]
    exact h.register hmeets
  | dispose =>
    cases hstep
    rw [append_nil]
    exact h.dispose
  | write input expectedRevision =>
    cases hstep
    rw [append_nil]
    exact h.write hmeets
  | front =>
    simp only [Namespace.step] at hstep
    split at hstep
    · rename_i queued rest hpublishing _ hqueue
      obtain ⟨rfl, rfl⟩ := Prod.mk.inj (Option.some.inj hstep)
      exact h.front hpublishing hqueue
    · cases hstep
  | persisted ok =>
    simp only [Namespace.step] at hstep
    split at hstep
    · rename_i written hpublishing hpersisting
      cases hstep
      rw [append_nil]
      cases ok with
      | true => exact h.persisted hpublishing hpersisting hmeets
      | false => exact h.abandon hpersisting
    · cases hstep
  | swap stored =>
    simp only [Namespace.step] at hstep
    split at hstep
    · rename_i hpublishing
      cases hstep
      rw [append_nil]
      exact h.swap hpublishing hmeets
    · cases hstep
  | settle =>
    simp only [Namespace.step] at hstep
    split at hstep
    · cases hstep
    · rename_i before hpublishing
      cases hstep
      rw [append_nil]
      exact h.settle hpublishing
  | describe =>
    simp only [Namespace.step] at hstep
    obtain ⟨registration, hregistration, heq⟩ := Option.map_eq_some_iff.mp hstep
    cases heq
    exact h.describe hregistration
  | stop =>
    cases hstep
    rw [append_nil]
    exact h.stop

end Sound

end DshKernel.Settings
