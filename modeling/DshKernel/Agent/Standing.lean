import DshKernel.Agent.Contract

/-!
# What a running program knows

The stand of the program that runs, how a call or an await gives it back, and what its own changes
make of it. One lemma says what holds behind each of the programs that other code and the driver
share.
-/

namespace DshKernel.Agent

open Js Lib Session Llm Program List AgentSite

/-- Who runs: other code, a program that has settled and may have a wake to deliver, a maintenance
task, or the driver at its stand. -/
inductive Activity where
  | others
  | settling (wakeRequested : Bool)
  | maintenance (lastTurn : Nat)
  | driver (c : Control)

def Activity.caller : Activity → Caller
  | .driver _ => .driver
  | _ => .others

def Activity.Owns (site : AgentSite) : Activity → Prop
  | .others => site.isOwner = false ∧ site ≠ .settling true
  | .settling wakeRequested => site = .settling wakeRequested
  | .maintenance _ => site.isMaintaining = true
  | .driver _ => site.isDriving = true

section Standing

variable (out : Outside) (foreign : Foreign) (init : AgentWorld)

def Stands (sites : List AgentSite) (w : AgentWorld) : Activity → Prop
  | .others => Comes out foreign init sites w ∧ Owned sites w
  | .settling wakeRequested =>
    Comes out foreign init (.settling wakeRequested :: sites) w ∧ Owned sites w
  | .maintenance lastTurn =>
    Comes out foreign init sites w ∧ w.phase.isMaintenance = true ∧ w.phase.turn = lastTurn ∧
      owners sites = []
  | .driver c => c.isDriver = true ∧ AgentRuns out foreign init c w ∧ owners sites = []

structure Steady (a : Activity) (others : Others AgentSite) (w : AgentWorld) : Prop where
  stands : Stands out foreign init others.all w a
  tasks : ∀ site ∈ others.tasks, (kind site).isAwait
  publishes : w.appending = true ↔ ∃ caller, publication caller ∈ others.below

structure Publishing (a : Activity) (log : List SessionEvent) (others : Others AgentSite)
    (w : AgentWorld) : Prop where
  stands : Stands out foreign init others.all w a
  tasks : ∀ site ∈ others.tasks, (kind site).isAwait
  alone : ∀ caller, publication caller ∉ others.below
  appending : w.appending = true
  log : w.log = log

variable {out foreign init} {a : Activity} {site : AgentSite} {sites : List AgentSite}
  {others others' : Others AgentSite} {w later : AgentWorld}

theorem owners_cons_of_owner (h : site.isOwner = true) : owners (site :: sites) = site :: owners sites :=
  filter_cons_of_pos h

theorem owners_cons_of_not_owner (h : site.isOwner = false) : owners (site :: sites) = owners sites :=
  filter_cons_of_neg (by simp [h])

theorem isOwner_of_isDriving (h : site.isDriving = true) : site.isOwner = true := by
  simp [isOwner, h]

theorem isOwner_of_isMaintaining (h : site.isMaintaining = true) : site.isOwner = true := by
  simp [isOwner, h]

theorem not_isMaintaining (h : site.isDriving = true) : site.isMaintaining = false := by
  cases site <;> first | rfl | cases h

theorem not_isOwner_of_owners (h : owners sites = []) (hsite : site ∈ sites) :
    site.isOwner = false := by
  have hnone := filter_eq_nil_iff.mp h site hsite
  simpa using hnone

theorem not_isPublication_of_isAwait (h : (kind site).isAwait) :
    site.isPublication = false := by
  cases site <;> first | rfl | cases h

theorem Comes.cons (h : Comes out foreign init sites w) :
    Comes out foreign init (site :: sites) w := by
  obtain ⟨c, hruns, hdue⟩ := h
  exact ⟨c, hruns, fun h => mem_cons_of_mem _ (hdue h)⟩

theorem Comes.tail (h : Comes out foreign init (site :: sites) w) (hsite : site ≠ .settling true) :
    Comes out foreign init sites w := by
  obtain ⟨c, hruns, hdue⟩ := h
  refine ⟨c, hruns, fun h => ?_⟩
  rcases mem_cons.mp (hdue h) with heq | hmem
  · exact absurd heq.symm hsite
  · exact hmem

theorem due_of_isDriver {c : Control} (h : c.isDriver = true) : c.due = false := by
  cases c <;> first | rfl | cases h

theorem comes_of_driver {c : Control} (hdriver : c.isDriver = true)
    (hruns : AgentRuns out foreign init c w) : Comes out foreign init sites w := by
  refine ⟨c, hruns, fun hdue => ?_⟩
  rw [due_of_isDriver hdriver] at hdue
  cases hdue

theorem Stands.comes (h : Stands out foreign init sites w a) (howns : a.Owns site) :
    Comes out foreign init (site :: sites) w := by
  cases a with
  | others => exact h.1.cons
  | settling wakeRequested =>
    rw [howns]
    exact h.1
  | maintenance lastTurn => exact h.1.cons
  | driver c => exact comes_of_driver h.1 h.2.1

theorem Stands.runs (h : Stands out foreign init sites w a) :
    ∃ c, AgentRuns out foreign init c w := by
  cases a with
  | driver c => exact ⟨c, h.2.1⟩
  | _ =>
    obtain ⟨c, hruns, -⟩ := h.1
    exact ⟨c, hruns⟩

theorem owned_of_owners (h : owners sites = []) : Owned sites w := ⟨by simp [h], fun _ => h⟩

theorem Stands.owned (h : Stands out foreign init sites w a) : Owned sites w := by
  cases a with
  | others => exact h.2
  | settling wakeRequested => exact h.2
  | maintenance lastTurn => exact owned_of_owners h.2.2.2
  | driver c => exact owned_of_owners h.2.2

theorem Owned.cons (h : Owned sites w) (hsite : site.isOwner = false) : Owned (site :: sites) w := by
  unfold Owned
  rwa [owners_cons_of_not_owner hsite]

theorem Owned.tail (h : Owned (site :: sites) w) (hsite : site.isOwner = false) : Owned sites w := by
  unfold Owned at h
  rwa [owners_cons_of_not_owner hsite] at h

theorem Owned.cons_owner (h : owners sites = []) (hsite : site.isOwner = true)
    (hidle : w.phase.isIdle = false) : Owned (site :: sites) w := by
  unfold Owned
  rw [owners_cons_of_owner hsite, h]
  refine ⟨Nat.le_refl 1, fun h => ?_⟩
  cases hidle.symm.trans h

theorem Owned.tail_owner (h : Owned (site :: sites) w) (hsite : site.isOwner = true) :
    owners sites = [] := by
  have hlength := h.1
  rw [owners_cons_of_owner hsite] at hlength
  exact length_eq_zero_iff.mp (by simpa using hlength)

theorem Stands.settled (h : Stands out foreign init sites w a) (howns : a.Owns site)
    (hpublishes : w.appending = true → ∃ caller, publication caller ∈ site :: sites) :
    Settled out foreign init (site :: sites) w := by
  refine ⟨h.comes howns, hpublishes, ?_⟩
  cases a with
  | others => exact h.2.cons howns.1
  | settling wakeRequested =>
    rw [howns]
    exact h.2.cons rfl
  | maintenance lastTurn =>
    exact .cons_owner h.2.2.2 (isOwner_of_isMaintaining howns) (not_isIdle_of_isMaintenance h.2.1)
  | driver c =>
    exact .cons_owner h.2.2 (isOwner_of_isDriving howns)
      (not_isIdle_of_isRunning (h.2.1.isRunning h.1))

theorem Stands.here (h : Stands out foreign init sites w a) (howns : a.Owns site)
    (hpublication : site.isPublication = true → w.appending = true) :
    Here out foreign init site w := by
  refine ⟨hpublication, ?_, ?_⟩
  · intro hsite
    cases a with
    | others => exact absurd (isOwner_of_isDriving hsite) (by simp [howns.1])
    | settling wakeRequested =>
      rw [howns] at hsite
      cases hsite
    | maintenance lastTurn => cases (not_isMaintaining hsite).symm.trans howns
    | driver c => exact ⟨c, h.1, h.2.1⟩
  · intro hsite
    cases a with
    | others => exact absurd (isOwner_of_isMaintaining hsite) (by simp [howns.1])
    | settling wakeRequested =>
      rw [howns] at hsite
      cases hsite
    | maintenance lastTurn => exact h.2.1
    | driver c => cases (not_isMaintaining howns).symm.trans hsite

theorem Stands.resumes (h : Stands out foreign init sites w a) (howns : a.Owns site)
    {sites' : List AgentSite} (hrely : Relies out foreign init site w later)
    (hsettled : Settled out foreign init (site :: sites') later) :
    Stands out foreign init sites' later a := by
  cases a with
  | others => exact ⟨hsettled.comes.tail howns.2, hsettled.owned.tail howns.1⟩
  | settling wakeRequested =>
    rw [howns] at hsettled
    exact ⟨hsettled.comes, hsettled.owned.tail rfl⟩
  | maintenance lastTurn =>
    obtain ⟨hmaintenance, hturn⟩ := hrely.maintaining howns h.2.1
    refine ⟨hsettled.comes.tail ?_, hmaintenance, hturn.trans h.2.2.1,
      hsettled.owned.tail_owner (isOwner_of_isMaintaining howns)⟩
    rintro rfl
    cases howns
  | driver c =>
    exact ⟨h.1, hrely.driving howns c h.1 h.2.1,
      hsettled.owned.tail_owner (isOwner_of_isDriving howns)⟩

theorem Stands.step (h : Stands out foreign init sites w a) (hstep : OthersStep foreign w later) :
    Stands out foreign init sites later a := by
  have hcomes : ∀ sites, Comes out foreign init sites w → Comes out foreign init sites later := by
    intro sites hcomes
    obtain ⟨c, hruns, hdue⟩ := hcomes
    exact ⟨c, hruns.step (.others hstep), hdue⟩
  have howned : Owned sites w → Owned sites later := by
    intro howned
    exact ⟨howned.1, fun hidle => howned.2 (hstep.phase.1.symm.trans hidle)⟩
  cases a with
  | others => exact ⟨hcomes _ h.1, howned h.2⟩
  | settling wakeRequested => exact ⟨hcomes _ h.1, howned h.2⟩
  | maintenance lastTurn =>
    obtain ⟨-, hmaintenance, -, hturn, -⟩ := hstep.phase
    exact ⟨hcomes _ h.1, hmaintenance.trans h.2.1, hturn.trans h.2.2.1, h.2.2.2⟩
  | driver c => exact ⟨h.1, h.2.1.step (.others hstep), h.2.2⟩

theorem OthersStep.relies (hstep : OthersStep foreign w later)
    (hpublication : site.isPublication = true → w.appending = true →
      later.appending = true ∧ later.log = w.log) : Relies out foreign init site w later where
  publication := hpublication
  driving := fun _ _ _ hruns => hruns.step (.others hstep)
  maintaining := fun _ h => ⟨hstep.phase.2.1.trans h, hstep.phase.2.2.2.1⟩

end Standing

section Specs

variable (out : Outside) (foreign : Foreign) (init : AgentWorld)

abbrev Upheld {α : Type} (others : Others AgentSite) (program : AgentProgram α) (w : AgentWorld)
    (post : Others AgentSite → Except Failure α → AgentWorld → Prop) : Prop :=
  Upholds (agentLoop out foreign) (agentContract out foreign init) others program w post

variable {out foreign init} {a : Activity} {site : AgentSite} {others : Others AgentSite}
  {w : AgentWorld} {c c' : Control}

theorem publishes_of_resumes {others' : Others AgentSite} {later : AgentWorld}
    (h : Resumes (agentLoop out foreign) (agentContract out foreign init) site w others later others')
    (hsite : site.isPublication = false) :
    later.appending = true ↔ ∃ caller, publication caller ∈ others'.below := by
  constructor
  · intro happending
    obtain ⟨caller, hcaller⟩ := h.settled.publishes happending
    rcases mem_cons.mp hcaller with rfl | hcaller
    · cases hsite
    · rcases mem_append.mp hcaller with hcaller | hcaller
      · exact ⟨caller, hcaller⟩
      · cases not_isPublication_of_isAwait (h.tasks _ hcaller)
  · rintro ⟨caller, hcaller⟩
    exact (h.here _ (mem_append_left _ hcaller)).publication rfl

theorem Steady.publishes_cons (h : Steady out foreign init a others w) (happending : w.appending = true) :
    ∃ caller, publication caller ∈ site :: others.all := by
  obtain ⟨caller, hcaller⟩ := h.publishes.mp happending
  exact ⟨caller, mem_cons_of_mem _ (mem_append_left _ hcaller)⟩

theorem call_spec (site : AgentSite) (h : Steady out foreign init a others w) (howns : a.Owns site)
    (hsite : site.isPublication = false) (hkick : site ≠ .kick) :
    Upheld out foreign init others (call site) w
      (Leaves (fun _ others' later => Steady out foreign init a others' later ∧
          (later.appending = true → w.appending = true) ∧
          (kind site).returns others others' later)
        fun _ _ _ => False) := by
  have hsettled := h.stands.settled howns h.publishes_cons
  refine ⟨h.stands.here howns (by simp [hsite]), ?_, ?_⟩
  · show (agentContract out foreign init).leaves (site :: others.all) w site.kind
    cases hkind : site.kind with
    | callout => exact hsettled
    | await ready => exact hsettled
    | start name =>
      cases site with
      | kick => exact absurd rfl hkick
      | awaiting awaited => cases awaited <;> cases hkind
      | _ => cases hkind
  · intro others' later hresumes
    have hpublishes := publishes_of_resumes hresumes hsite
    refine ⟨⟨h.stands.resumes howns hresumes.rely hresumes.settled, hresumes.tasks, hpublishes⟩, ?_,
      hresumes.returns⟩
    intro happending
    obtain ⟨caller, hcaller⟩ := hpublishes.mp happending
    have hreturns := hresumes.returns
    change (kind site).returns others others' later at hreturns
    cases hkind : site.kind with
    | callout =>
      rw [hkind] at hreturns
      exact h.publishes.mpr ⟨caller, hreturns ▸ hcaller⟩
    | start name =>
      rw [hkind] at hreturns
      exact h.publishes.mpr ⟨caller, hreturns ▸ hcaller⟩
    | await ready =>
      rw [hkind] at hreturns
      rw [hreturns.2] at hcaller
      cases hcaller

theorem write_spec (a' : Activity) (change : AgentWorld → AgentWorld)
    (h : Steady out foreign init a others w) (hstands : Stands out foreign init others.all (change w) a')
    (hrelies : ∀ site ∈ others.all, Relies out foreign init site w (change w))
    (happending : (change w).appending = w.appending) :
    Upheld out foreign init others (modify change) w
      (Leaves (fun _ others' later => others' = others ∧ later = change w ∧
          Steady out foreign init a' others later)
        fun _ _ _ => False) := by
  refine ⟨hstands.runs, hrelies, rfl, rfl, hstands, h.tasks, ?_⟩
  rw [happending]
  exact h.publishes

theorem others_spec (change : AgentWorld → AgentWorld) (h : Steady out foreign init a others w)
    (hstep : OthersStep foreign w (change w)) (happending : (change w).appending = w.appending)
    (hlog : (change w).log = w.log) :
    Upheld out foreign init others (modify change) w
      (Leaves (fun _ others' later => others' = others ∧ later = change w ∧
          Steady out foreign init a others later)
        fun _ _ _ => False) :=
  write_spec a change h (h.stands.step hstep)
    (fun _ _ => hstep.relies fun _ h => ⟨happending.trans h, hlog⟩) happending

theorem relies_of_owners {sites : List AgentSite} {later : AgentWorld} (howners : owners sites = [])
    (happending : later.appending = w.appending) (hlog : later.log = w.log) :
    ∀ site ∈ sites, Relies out foreign init site w later := by
  intro site hsite
  have howner := not_isOwner_of_owners howners hsite
  refine ⟨fun _ h => ⟨happending.trans h, hlog⟩, ?_, ?_⟩
  · intro hdriving
    rw [isOwner_of_isDriving hdriving] at howner
    cases howner
  · intro hmaintaining
    rw [isOwner_of_isMaintaining hmaintaining] at howner
    cases howner

theorem driver_spec (c' : Control) (change : AgentWorld → AgentWorld)
    (h : Steady out foreign init (.driver c) others w)
    (hstep : AgentStep out foreign c w c' (change w)) (hdriver : c'.isDriver = true)
    (happending : (change w).appending = w.appending) (hlog : (change w).log = w.log) :
    Upheld out foreign init others (modify change) w
      (Leaves (fun _ others' later => others' = others ∧ later = change w ∧
          Steady out foreign init (.driver c') others later)
        fun _ _ _ => False) := by
  obtain ⟨-, hruns, howners⟩ := h.stands
  exact write_spec _ change h ⟨hdriver, hruns.step hstep, howners⟩
    (relies_of_owners howners happending hlog) happending

theorem Steady.moves (h : Steady out foreign init (.driver c) others w) (hmoves : Moves out w c c') :
    Steady out foreign init (.driver c') others w :=
  ⟨⟨hmoves.isDriver.2, h.stands.2.1.step (.moves hmoves), h.stands.2.2⟩, h.tasks, h.publishes⟩

theorem ask_spec (h : Steady out foreign init a others w) :
    Upheld out foreign init others ask w
      (Leaves (fun _ others' later => others' = others ∧ later = { w with clock := w.clock + 1 } ∧
          Steady out foreign init a others later)
        fun _ _ _ => False) := by
  refine upholds_get.mpr ?_
  refine (others_spec (fun w => { w with clock := w.clock + 1 }) h .quiet rfl rfl).seq ?_ ?_
  · exact fun _ _ _ h => h
  · exact fun _ _ _ h => h

end Specs

section Appends

variable (out : Outside) (foreign : Foreign) (init : AgentWorld)

inductive Appends (log : List SessionEvent) (data : EventData) (sourceEventSeqs surfaceOp : Option Json) :
    Activity → (Nat → Activity) → Prop where
  | others {a : Activity} :
      (∀ (w : AgentWorld) (event : SessionEvent), w.log = log → event.seq = log.length →
        event.data = data → event.sourceEventSeqs = sourceEventSeqs → event.surfaceOp = surfaceOp →
        OthersStep foreign w { w with log := w.log ++ [event] }) →
      Appends log data sourceEventSeqs surfaceOp a fun _ => a
  | driver {c : Control} {next : Nat → Control} :
      (∀ seq, Logs out c data sourceEventSeqs surfaceOp seq (next seq)) →
      Appends log data sourceEventSeqs surfaceOp (.driver c) fun seq => .driver (next seq)

variable {out foreign init} {a : Activity} {others : Others AgentSite} {w : AgentWorld}
  {log : List SessionEvent}

theorem Publishing.unpublished (h : Publishing out foreign init a log others w) :
    ∀ site ∈ others.all, site.isPublication = false := by
  intro site hsite
  rcases mem_append.mp hsite with hsite | hsite
  · cases site <;> first | rfl | exact absurd hsite (h.alone _)
  · exact not_isPublication_of_isAwait (h.tasks site hsite)

theorem publishing_spec (change : AgentWorld → AgentWorld)
    (h : Publishing out foreign init a log others w) (hstep : OthersStep foreign w (change w))
    (happending : (change w).appending = true) (hlog : (change w).log = w.log) :
    Upheld out foreign init others (modify change) w
      (Leaves (fun _ others' later => others' = others ∧
          Publishing out foreign init a log others later)
        fun _ _ _ => False) := by
  obtain ⟨c, hruns⟩ := h.stands.runs
  refine ⟨⟨c, hruns.step (.others hstep)⟩, ?_, rfl, h.stands.step hstep, h.tasks, h.alone, happending,
    hlog.trans h.log⟩
  intro site hsite
  refine hstep.relies fun hpublication => ?_
  rw [h.unpublished site hsite] at hpublication
  cases hpublication

theorem publishing_ask_spec (h : Publishing out foreign init a log others w) :
    Upheld out foreign init others ask w
      (Leaves (fun _ others' later => others' = others ∧
          Publishing out foreign init a log others later)
        fun _ _ _ => False) := by
  refine upholds_get.mpr ?_
  refine (publishing_spec (fun w => { w with clock := w.clock + 1 }) h .quiet h.appending rfl).seq ?_ ?_
  · exact fun _ _ _ h => h
  · exact fun _ _ _ h => h

theorem beginAppend_spec (h : Steady out foreign init a others w) (happending : w.appending = false) :
    Upheld out foreign init others (modify fun w => { w with appending := true }) w
      (Leaves (fun _ others' later => others' = others ∧
          Publishing out foreign init a w.log others later)
        fun _ _ _ => False) := by
  obtain ⟨c, hruns⟩ := h.stands.runs
  have hstep : OthersStep foreign w { w with appending := true } := .quiet
  refine ⟨⟨c, hruns.step (.others hstep)⟩, ?_, rfl, h.stands.step hstep, h.tasks, ?_, rfl, rfl⟩
  · intro site hsite
    exact hstep.relies fun _ _ => ⟨rfl, rfl⟩
  · intro caller hcaller
    rw [h.publishes.mpr ⟨caller, hcaller⟩] at happending
    cases happending

theorem publication_spec (h : Publishing out foreign init a log others w)
    (howns : a.Owns (.publication a.caller)) :
    Upheld out foreign init others (call (.publication a.caller)) w
      (Leaves (fun _ others' later => Publishing out foreign init a log others' later)
        fun _ _ _ => False) := by
  have hsettled : Settled out foreign init (.publication a.caller :: others.all) w :=
    h.stands.settled howns fun _ => ⟨a.caller, mem_cons_self⟩
  refine ⟨h.stands.here howns fun _ => h.appending, hsettled, ?_⟩
  intro others' later hresumes
  obtain ⟨happending, hlog⟩ := hresumes.rely.publication rfl h.appending
  refine ⟨h.stands.resumes howns hresumes.rely hresumes.settled, hresumes.tasks, ?_, happending,
    hlog.trans h.log⟩
  intro caller hcaller
  have hbelow : others'.below = others.below := hresumes.returns
  exact h.alone caller (hbelow ▸ hcaller)

variable {next : Nat → Activity}

theorem push_spec {event : SessionEvent}
    (h : Publishing out foreign init a log others w) (hseq : event.seq = log.length)
    (happends : Appends out foreign log event.data event.sourceEventSeqs event.surfaceOp a next) :
    Upheld out foreign init others (modify fun w => { w with log := w.log ++ [event] }) w
      (Leaves (fun _ others' later => others' = others ∧
          Publishing out foreign init (next event.seq) (log ++ [event]) others later)
        fun _ _ _ => False) := by
  have hpublication : ∀ site ∈ others.all, ∀ later : AgentWorld, site.isPublication = true →
      w.appending = true → later.appending = true ∧ later.log = w.log := by
    intro site hsite later hpublication
    rw [h.unpublished site hsite] at hpublication
    cases hpublication
  have hlog : w.log ++ [event] = log ++ [event] := by rw [h.log]
  cases happends with
  | others hothers =>
    obtain ⟨c, hruns⟩ := h.stands.runs
    have hstep := hothers w event h.log hseq rfl rfl rfl
    refine ⟨⟨c, hruns.step (.others hstep)⟩, ?_, rfl, h.stands.step hstep, h.tasks, h.alone,
      h.appending, hlog⟩
    exact fun site hsite => hstep.relies (hpublication site hsite _)
  | driver hlogs =>
    obtain ⟨hdriver, hruns, howners⟩ := h.stands
    have hlast := hlogs event.seq
    have hruns' := hruns.step (.logs (by rw [hseq, h.log]) hlast)
    refine ⟨⟨_, hruns'⟩, ?_, rfl, ⟨hlast.isDriver.2, hruns', howners⟩, h.tasks, h.alone, h.appending,
      hlog⟩
    intro site hsite
    have howner := not_isOwner_of_owners howners hsite
    refine ⟨hpublication site hsite _, ?_, fun _ h => ⟨h, rfl⟩⟩
    intro hdriving
    rw [isOwner_of_isDriving hdriving] at howner
    cases howner

theorem endAppend_spec (h : Publishing out foreign init a log others w) :
    Upheld out foreign init others (modify fun w => { w with appending := false }) w
      (Leaves (fun _ others' later => others' = others ∧ Steady out foreign init a others later ∧
          later.appending = false)
        fun _ _ _ => False) := by
  obtain ⟨c, hruns⟩ := h.stands.runs
  have hstep : OthersStep foreign w { w with appending := false } := .quiet
  refine ⟨⟨c, hruns.step (.others hstep)⟩, ?_, rfl, ⟨h.stands.step hstep, h.tasks, ?_⟩, rfl⟩
  · intro site hsite
    refine hstep.relies fun hpublication => ?_
    rw [h.unpublished site hsite] at hpublication
    cases hpublication
  · refine ⟨fun h => (by cases h), ?_⟩
    rintro ⟨caller, hcaller⟩
    exact absurd hcaller (h.alone caller)

theorem commitEvent_spec (event : SessionEvent)
    (h : Steady out foreign init a others w) (happending : w.appending = false)
    (hseq : event.seq = w.log.length) (howns : a.Owns (.publication a.caller))
    (happends : Appends out foreign w.log event.data event.sourceEventSeqs event.surfaceOp a next)
    (hnext : ∀ seq, (next seq).caller = a.caller ∧ (next seq).Owns (.publication a.caller)) :
    Upheld out foreign init others (commitEvent out a.caller event) w
      (Leaves (fun seq others' later => Steady out foreign init (next seq) others' later ∧
          later.appending = false)
        fun _ others' later => Steady out foreign init a others' later ∧
          later.appending = false ∧ out.Refuses event.data) := by
  refine (beginAppend_spec h happending).seq ?_ fun _ _ _ h => h.elim
  rintro _ _ begun ⟨rfl, h⟩
  refine (publication_spec h howns).seq ?_ fun _ _ _ h => h.elim
  intro _ others proposed h
  refine (publishing_ask_spec h).seq ?_ fun _ _ _ h => h.elim
  rintro time _ asked ⟨rfl, h⟩
  cases hveto : out.veto time event with
  | some message =>
    refine (endAppend_spec h).seq ?_ fun _ _ _ h => h.elim
    rintro _ _ ended ⟨rfl, h, happending⟩
    exact ⟨h, happending, time, [], event, rfl, .inr (by rw [hveto]; rfl)⟩
  | none =>
    refine (push_spec h hseq happends).seq ?_ fun _ _ _ h => h.elim
    rintro _ _ pushed ⟨rfl, h⟩
    obtain ⟨hcaller, hnext⟩ := hnext event.seq
    have hpublication := publication_spec h (by rw [hcaller]; exact hnext)
    rw [hcaller] at hpublication
    refine hpublication.seq ?_ fun _ _ _ h => h.elim
    intro _ others published h
    refine (endAppend_spec h).seq ?_ fun _ _ _ h => h.elim
    rintro _ _ ended ⟨rfl, h⟩
    exact h

theorem append_spec {data : EventData} {sourceEventSeqs surfaceOp : Option Json}
    (h : Steady out foreign init a others w) (howns : a.Owns (.publication a.caller))
    (happends : Appends out foreign w.log data sourceEventSeqs surfaceOp a next)
    (hnext : ∀ seq, (next seq).caller = a.caller ∧ (next seq).Owns (.publication a.caller)) :
    Upheld out foreign init others (append out a.caller data sourceEventSeqs surfaceOp) w
      (Leaves (fun seq others' later => Steady out foreign init (next seq) others' later ∧
          later.appending = false)
        fun _ others' later => Steady out foreign init a others' later ∧
          (later.appending = true → w.appending = true) ∧
          (w.appending = false → out.Refuses data)) := by
  refine upholds_get.mpr ?_
  cases happending : w.appending with
  | true =>
    rw [if_pos rfl]
    exact ⟨h, fun _ => rfl, fun h => (by cases h)⟩
  | false =>
    rw [if_neg (by simp)]
    refine (ask_spec h).seq ?_ fun _ _ _ h => h.elim
    rintro time _ later ⟨rfl, hlater, h⟩
    have hlog : later.log = w.log := by rw [hlater]
    have hquiet : later.appending = false := by rw [hlater]; exact happending
    dsimp only
    generalize hevent : SessionEvent.mk w.log.length (out.now time) data sourceEventSeqs surfaceOp
      false = event
    have hdata : event.data = data := by rw [← hevent]
    cases hcheck : out.check time w.log event with
    | error message =>
      refine ⟨h, fun h => ?_, fun _ => ⟨time, w.log, event, hdata, .inl ⟨message, hcheck⟩⟩⟩
      cases hquiet.symm.trans h
    | ok =>
      have hcommit := commitEvent_spec event h hquiet (by rw [← hevent, hlog]) howns
        (by rw [← hevent, hlog]; exact happends) hnext
      refine hcommit.mono ?_
      intro others' outcome final houtcome
      cases outcome with
      | ok seq => exact houtcome
      | error failure =>
        obtain ⟨h, happending', hrefuses⟩ := houtcome
        refine ⟨h, fun h => ?_, fun _ => hdata ▸ hrefuses⟩
        cases happending'.symm.trans h

end Appends

section Inbox

variable (out : Outside) (foreign : Foreign) (init : AgentWorld)

def Stays (a : Activity) (before : AgentWorld) (others : Others AgentSite) (later : AgentWorld) : Prop :=
  Steady out foreign init a others later ∧ (later.appending = true → before.appending = true)

def Activity.IsCaller : Activity → Prop
  | .others => True
  | .driver _ => True
  | _ => False

variable {out foreign init} {a : Activity} {others : Others AgentSite} {before w later : AgentWorld}

theorem owns_publication (h : a.IsCaller) : a.Owns (.publication a.caller) := by
  cases a <;> first | exact ⟨rfl, nofun⟩ | exact rfl | cases h

theorem owns_notification (h : a.IsCaller) : a.Owns (.notification a.caller) := by
  cases a <;> first | exact ⟨rfl, nofun⟩ | exact rfl | cases h

theorem Steady.stays (h : Steady out foreign init a others w) : Stays out foreign init a w others w :=
  ⟨h, id⟩

theorem notify_spec (a : Activity) (ha : a.IsCaller) (messages : List UserMessage)
    (h : Stays out foreign init a before others w) :
    Upheld out foreign init others (notify a.caller messages) w
      (Leaves (fun _ => Stays out foreign init a before) fun _ _ _ => False) := by
  induction messages generalizing others w with
  | nil => exact h
  | cons message messages ih =>
    refine (call_spec _ h.1 (owns_notification ha) rfl nofun).seq ?_ fun _ _ _ h => h.elim
    rintro _ others later ⟨hsteady, happending, -⟩
    exact ih ⟨hsteady, fun h' => h.2 (happending h')⟩

theorem appends_inboxSpliced {log : List SessionEvent} (target : InboxTarget)
    (start removedCount : Nat) (inserted : List UserMessage) (canceled : Bool) :
    Appends out foreign log (inboxSpliced target start removedCount inserted canceled) none none a
      fun _ => a :=
  .others fun _ _ hlog hseq hdata hsource hop =>
    .inboxSpliced (hseq.trans (by rw [hlog])) hdata hsource hop

theorem mutate_spec (a : Activity) (ha : a.IsCaller) (target : InboxTarget) (start deleteCount : Nat)
    (inserted : List UserMessage) (discardRemoved : Bool)
    (h : Stays out foreign init a before others w) :
    Upheld out foreign init others
      (mutate out a.caller target start deleteCount inserted discardRemoved) w
      (Leaves (fun _ => Stays out foreign init a before) fun _ => Stays out foreign init a before) := by
  refine upholds_get.mpr ?_
  dsimp only
  split
  · exact h
  · split
    · exact h
    · refine (append_spec h.1 (owns_publication ha) (appends_inboxSpliced _ _ _ _ _)
        fun _ => ⟨rfl, owns_publication ha⟩).seq ?_ ?_
      · rintro seq others later ⟨hsteady, happending⟩
        refine upholds_get.mpr ?_
        refine (others_spec (fun w => { w with inbox := _, history := _ }) hsteady .spliced rfl
          rfl).seq ?_ fun _ _ _ h => h.elim
        rintro _ others final ⟨rfl, hfinal, hsteady⟩
        have hstays : Stays out foreign init a before others final := by
          refine ⟨hsteady, fun h => ?_⟩
          rw [hfinal] at h
          cases happending.symm.trans h
        split
        · refine (notify_spec a ha _ hstays).seq ?_ fun _ _ _ h => h.elim
          intro _ others later hstays
          refine (notify_spec a ha _ hstays).seq ?_ fun _ _ _ h => h.elim
          exact fun _ _ _ h => h
        · refine (notify_spec a ha _ hstays).seq ?_ fun _ _ _ h => h.elim
          exact fun _ _ _ h => h
      · rintro failure others later ⟨hsteady, happending, -⟩
        exact ⟨hsteady, fun h' => h.2 (happending h')⟩

theorem clear_spec (h : Stays out foreign init .others before others w) :
    Upheld out foreign init others (clear out) w
      (Leaves (fun _ => Stays out foreign init .others before)
        fun _ => Stays out foreign init .others before) := by
  refine upholds_get.mpr ?_
  refine (mutate_spec .others trivial _ _ _ _ _ h).seq ?_ fun _ _ _ h => h
  intro _ others later h
  refine upholds_get.mpr ?_
  refine (mutate_spec .others trivial _ _ _ _ _ h).seq ?_ fun _ _ _ h => h
  exact fun _ _ _ h => h

theorem claim_spec {c : Control} (target : InboxTarget)
    (h : Stays out foreign init (.driver c) before others w) :
    Upheld out foreign init others (claim out target) w
      (Leaves (fun _ => Stays out foreign init (.driver c) before)
        fun _ => Stays out foreign init (.driver c) before) := by
  refine upholds_get.mpr ?_
  refine (mutate_spec (.driver c) trivial _ _ _ _ _ h).seq ?_ fun _ _ _ h => h
  intro steps others later h
  cases target with
  | nextTurn =>
    refine (mutate_spec (.driver c) trivial _ _ _ _ _ h).seq ?_ fun _ _ _ h => h
    intro turns others later h
    refine (notify_spec (.driver c) trivial _ h).seq ?_ fun _ _ _ h => h.elim
    exact fun _ _ _ h => h
  | nextStep =>
    refine (notify_spec (.driver c) trivial _ h).seq ?_ fun _ _ _ h => h.elim
    exact fun _ _ _ h => h

end Inbox

end DshKernel.Agent
