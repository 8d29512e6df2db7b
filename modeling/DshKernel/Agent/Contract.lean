import DshKernel.Agent.Protocol

/-!
# The contract of an agent's programs

The programs of an agent and the code that runs while one of them waits keep to the protocol. At
most one of them drives the agent; its stand is kept for it while it waits.
-/

namespace DshKernel.Agent

open Js Lib Session Llm Program

def AgentSite.isPublication : AgentSite → Bool
  | .publication _ => true
  | _ => false

def AgentSite.isDriving : AgentSite → Bool
  | .publication .driver => true
  | .notification .driver => true
  | .awaiting _ => true
  | _ => false

def AgentSite.isMaintaining : AgentSite → Bool
  | .job => true
  | .maintenance => true
  | _ => false

def AgentSite.isOwner (site : AgentSite) : Bool := site.isDriving || site.isMaintaining

def owners (sites : List AgentSite) : List AgentSite := sites.filter AgentSite.isOwner

section Phases

def Control.Fits (phase : Phase) : Control → Prop
  | .undriven _ => phase.isIdle = true
  | .maintaining _ => phase.isMaintenance = true
  | _ => phase.isRunning = true

variable {out : Outside} {foreign : Foreign} {init w w' : AgentWorld} {c c' : Control}

theorem fits_driver {phase : Phase} (hdriver : c.isDriver = true) :
    c.Fits phase ↔ phase.isRunning = true := by
  cases c <;> first | exact Iff.rfl | cases hdriver

theorem fits_congr {phase phase' : Phase} (hidle : phase'.isIdle = phase.isIdle)
    (hmaintenance : phase'.isMaintenance = phase.isMaintenance)
    (hrunning : phase'.isRunning = phase.isRunning) : c.Fits phase' ↔ c.Fits phase := by
  cases c <;> simp only [Control.Fits, hidle, hmaintenance, hrunning]

@[simp] theorem isIdle_setWake (wake : Bool) (phase : Phase) :
    (phase.setWake wake).isIdle = phase.isIdle := by cases phase <;> rfl

@[simp] theorem isMaintenance_setWake (wake : Bool) (phase : Phase) :
    (phase.setWake wake).isMaintenance = phase.isMaintenance := by cases phase <;> rfl

@[simp] theorem isRunning_setWake (wake : Bool) (phase : Phase) :
    (phase.setWake wake).isRunning = phase.isRunning := by cases phase <;> rfl

@[simp] theorem turn_setWake (wake : Bool) (phase : Phase) :
    (phase.setWake wake).turn = phase.turn := by cases phase <;> rfl

@[simp] theorem step_setWake (wake : Bool) (phase : Phase) :
    (phase.setWake wake).step = phase.step := by cases phase <;> rfl

@[simp] theorem reason_setWake (wake : Bool) (phase : Phase) :
    (phase.setWake wake).reason = phase.reason := by cases phase <;> rfl

@[simp] theorem isIdle_setReason (cause : CancelCause) (phase : Phase) :
    (phase.setReason cause).isIdle = phase.isIdle := by cases phase <;> rfl

@[simp] theorem isMaintenance_setReason (cause : CancelCause) (phase : Phase) :
    (phase.setReason cause).isMaintenance = phase.isMaintenance := by cases phase <;> rfl

@[simp] theorem isRunning_setReason (cause : CancelCause) (phase : Phase) :
    (phase.setReason cause).isRunning = phase.isRunning := by cases phase <;> rfl

@[simp] theorem turn_setReason (cause : CancelCause) (phase : Phase) :
    (phase.setReason cause).turn = phase.turn := by cases phase <;> rfl

@[simp] theorem step_setReason (cause : CancelCause) (phase : Phase) :
    (phase.setReason cause).step = phase.step := by cases phase <;> rfl

@[simp] theorem wakeRequested_setReason (cause : CancelCause) (phase : Phase) :
    (phase.setReason cause).wakeRequested = phase.wakeRequested := by cases phase <;> rfl

@[simp] theorem isRunning_setTurn (turn : Nat) (phase : Phase) :
    (phase.setTurn turn).isRunning = phase.isRunning := by cases phase <;> rfl

@[simp] theorem isRunning_setStep (step : Nat) (phase : Phase) :
    (phase.setStep step).isRunning = phase.isRunning := by cases phase <;> rfl

theorem turn_setTurn {phase : Phase} (h : phase.isRunning = true) (turn : Nat) :
    (phase.setTurn turn).turn = turn := by
  cases phase <;> first | rfl | cases h

theorem step_setStep {phase : Phase} (h : phase.isRunning = true) (step : Nat) :
    (phase.setStep step).step = step := by
  cases phase <;> first | rfl | cases h

@[simp] theorem step_setTurn (turn : Nat) (phase : Phase) :
    (phase.setTurn turn).step = phase.step := by cases phase <;> rfl

@[simp] theorem turn_setStep (step : Nat) (phase : Phase) :
    (phase.setStep step).turn = phase.turn := by cases phase <;> rfl

@[simp] theorem reason_setTurn (turn : Nat) (phase : Phase) :
    (phase.setTurn turn).reason = phase.reason := by cases phase <;> rfl

@[simp] theorem reason_setStep (step : Nat) (phase : Phase) :
    (phase.setStep step).reason = phase.reason := by cases phase <;> rfl

@[simp] theorem wakeRequested_setTurn (turn : Nat) (phase : Phase) :
    (phase.setTurn turn).wakeRequested = phase.wakeRequested := by cases phase <;> rfl

@[simp] theorem wakeRequested_setStep (step : Nat) (phase : Phase) :
    (phase.setStep step).wakeRequested = phase.wakeRequested := by cases phase <;> rfl

@[simp] theorem isRunning_renew (phase : Phase) : phase.renew.isRunning = phase.isRunning := by
  cases phase <;> rfl

theorem OthersStep.phase (h : OthersStep foreign w w') :
    w'.phase.isIdle = w.phase.isIdle ∧ w'.phase.isMaintenance = w.phase.isMaintenance ∧
      w'.phase.isRunning = w.phase.isRunning ∧ w'.phase.turn = w.phase.turn ∧
      w'.phase.step = w.phase.step := by
  cases h <;> simp

theorem OthersStep.fits (h : OthersStep foreign w w') : c.Fits w'.phase ↔ c.Fits w.phase := by
  obtain ⟨hidle, hmaintenance, hrunning, -⟩ := h.phase
  exact fits_congr hidle hmaintenance hrunning

theorem ToolWrites.phase {point point' : ToolPoint} (h : ToolWrites out point w point' w') :
    w'.phase = w.phase := by
  cases h <;> rfl

theorem StepWrites.phase {stage stage' : Stage} (h : StepWrites out stage w stage' w') :
    w'.phase = w.phase := by
  cases h with
  | tool h => exact h.phase
  | _ => rfl

theorem Moves.isDriver (h : Moves out w c c') : c.isDriver = true ∧ c'.isDriver = true := by
  cases h with
  | fail hturn =>
    refine ⟨?_, rfl⟩
    cases c <;> first | rfl | cases hturn
  | _ => exact ⟨rfl, rfl⟩

theorem Logs.isDriver {data : EventData} {sourceEventSeqs surfaceOp : Option Json} {seq : Nat}
    (h : Logs out c data sourceEventSeqs surfaceOp seq c') :
    c.isDriver = true ∧ c'.isDriver = true := by
  cases h <;> exact ⟨rfl, rfl⟩

theorem Writes.isDriver (h : Writes out c w c' w') : c.isDriver = true := by
  cases h <;> rfl

theorem AgentStep.fits (h : AgentStep out foreign c w c' w') (hfits : c.Fits w.phase) :
    c'.Fits w'.phase := by
  cases h with
  | others h => exact h.fits.mpr hfits
  | phase h => cases h <;> first | rfl | exact hfits
  | moves h =>
    obtain ⟨hdriver, hdriver'⟩ := h.isDriver
    exact (fits_driver hdriver').mpr ((fits_driver hdriver).mp hfits)
  | logs _ h =>
    obtain ⟨hdriver, hdriver'⟩ := h.isDriver
    exact (fits_driver hdriver').mpr ((fits_driver hdriver).mp hfits)
  | writes h =>
    cases h with
    | inStep h =>
      show w'.phase.isRunning = true
      rw [h.phase]
      exact hfits
    | settled => rfl
    | turnOpened => exact (isRunning_setTurn _ _).trans hfits
    | stepOpened => exact (isRunning_setStep _ _).trans hfits
    | again => exact (isRunning_renew _).trans hfits
    | _ => exact hfits

theorem AgentRuns.fits (h : AgentRuns out foreign init c w) : c.Fits w.phase :=
  h.invariant (fun c w => c.Fits w.phase) id fun _ hfits hstep => hstep.fits hfits

theorem not_isIdle_of_isRunning {phase : Phase} (h : phase.isRunning = true) : phase.isIdle = false := by
  cases phase <;> first | rfl | cases h

theorem not_isIdle_of_isMaintenance {phase : Phase} (h : phase.isMaintenance = true) :
    phase.isIdle = false := by
  cases phase <;> first | rfl | cases h

theorem not_isMaintenance_of_isRunning {phase : Phase} (h : phase.isRunning = true) :
    phase.isMaintenance = false := by
  cases phase <;> first | rfl | cases h

theorem none_of_fits (h : c.Fits w.phase) (hidle : w.phase.isIdle = true) : ∃ due, c = .undriven due := by
  cases c with
  | undriven due => exact ⟨due, rfl⟩
  | maintaining due => cases (not_isIdle_of_isMaintenance h).symm.trans hidle
  | _ => cases (not_isIdle_of_isRunning h).symm.trans hidle

theorem maintaining_of_fits (h : c.Fits w.phase) (hmaintenance : w.phase.isMaintenance = true) :
    ∃ due, c = .maintaining due := by
  cases c with
  | undriven due => cases (not_isIdle_of_isMaintenance hmaintenance).symm.trans h
  | maintaining due => exact ⟨due, rfl⟩
  | _ => cases (not_isMaintenance_of_isRunning h).symm.trans hmaintenance

theorem AgentRuns.isRunning (h : AgentRuns out foreign init c w) (hdriver : c.isDriver = true) :
    w.phase.isRunning = true := (fits_driver hdriver).mp h.fits

end Phases

section Contract

variable (out : Outside) (foreign : Foreign) (init : AgentWorld)

structure Relies (site : AgentSite) (w later : AgentWorld) : Prop where
  publication : site.isPublication = true → w.appending = true →
    later.appending = true ∧ later.log = w.log
  driving : site.isDriving = true → ∀ c : Control, c.isDriver = true →
    AgentRuns out foreign init c w → AgentRuns out foreign init c later
  maintaining : site.isMaintaining = true → w.phase.isMaintenance = true →
    later.phase.isMaintenance = true ∧ later.phase.turn = w.phase.turn

structure Here (site : AgentSite) (w : AgentWorld) : Prop where
  publication : site.isPublication = true → w.appending = true
  driving : site.isDriving = true → ∃ c : Control, c.isDriver = true ∧ AgentRuns out foreign init c w
  maintaining : site.isMaintaining = true → w.phase.isMaintenance = true

def Comes (sites : List AgentSite) (w : AgentWorld) : Prop :=
  ∃ c, AgentRuns out foreign init c w ∧ (c.due = true → AgentSite.settling true ∈ sites)

def Owned (sites : List AgentSite) (w : AgentWorld) : Prop :=
  (owners sites).length ≤ 1 ∧ (w.phase.isIdle = true → owners sites = [])

structure Settled (sites : List AgentSite) (w : AgentWorld) : Prop where
  comes : Comes out foreign init sites w
  publishes : w.appending = true → ∃ caller, AgentSite.publication caller ∈ sites
  owned : Owned sites w

structure Drives (c : Control) (sites : List AgentSite) (w : AgentWorld) : Prop where
  isDriver : c.isDriver = true
  runs : AgentRuns out foreign init c w
  owners : owners sites = []
  appending : w.appending = false

def AgentCall.pre (sites : List AgentSite) (w : AgentWorld) : AgentCall → Prop
  | .send _ _ _ => Settled out foreign init sites w
  | .cancel _ _ => Settled out foreign init sites w
  | .splice _ _ _ _ => Settled out foreign init sites w
  | .runMaintenance => Settled out foreign init sites w
  | .publish data sourceEventSeqs surfaceOp =>
    Settled out foreign init sites w ∧ foreign w.log data sourceEventSeqs surfaceOp
  | .settle index _ =>
    Settled out foreign init sites w ∧ index ∈ w.tools.group.inFlight ∧
      index ∉ w.tools.group.settled
  | .kick =>
    AgentRuns out foreign init .reserved w ∧ owners sites = [] ∧
      (w.appending = true → ∃ caller, AgentSite.publication caller ∈ sites)
  | .steps vars => Drives out foreign init (.between vars) sites w
  | .request vars _ =>
    Drives out foreign init (.inStep vars.toTurnVars vars.step .requesting) sites w
  | .stream vars _ _ _ =>
    Drives out foreign init (.inStep vars.toTurnVars vars.step .requesting) sites w
  | .tools vars =>
    Drives out foreign init (.inStep vars.toTurnVars vars.step (.tools .between)) sites w
  | .fillPool vars =>
    Drives out foreign init (.inStep vars.toTurnVars vars.step (.tools .pool)) sites w
  | .drainPool vars =>
    Drives out foreign init (.inStep vars.toTurnVars vars.step (.tools .pool)) sites w

theorem Settled.perm {sites sites' : List AgentSite} {w : AgentWorld} (hperm : sites.Perm sites')
    (h : Settled out foreign init sites w) : Settled out foreign init sites' w := by
  obtain ⟨⟨c, hruns, hdue⟩, hpublishes, howners⟩ := h
  refine ⟨⟨c, hruns, fun h => hperm.mem_iff.mp (hdue h)⟩, ?_, ?_⟩
  · intro happending
    obtain ⟨caller, hcaller⟩ := hpublishes happending
    exact ⟨caller, hperm.mem_iff.mp hcaller⟩
  · have howners' : (owners sites).Perm (owners sites') := hperm.filter _
    exact ⟨le_of_eq_of_le howners'.length_eq.symm howners.1,
      fun hidle => (howners.2 hidle ▸ howners').nil_eq.symm⟩

def agentContract : LoopContract AgentSite AgentWorld AgentCall where
  inv w := ∃ c, AgentRuns out foreign init c w
  rely := Relies out foreign init
  here := Here out foreign init
  settled := Settled out foreign init
  pre sites name w := name.pre out foreign init sites w
  rely_refl _ _ := ⟨fun _ h => ⟨h, rfl⟩, fun _ _ _ h => h, fun _ h => ⟨h, rfl⟩⟩
  rely_trans := by
    intro site a b c hab hbc
    refine ⟨?_, ?_, ?_⟩
    · intro hsite happending
      obtain ⟨hb, hlog⟩ := hab.publication hsite happending
      obtain ⟨hc, hlog'⟩ := hbc.publication hsite hb
      exact ⟨hc, hlog'.trans hlog⟩
    · exact fun hsite c hc hruns => hbc.driving hsite c hc (hab.driving hsite c hc hruns)
    · intro hsite hmaintenance
      obtain ⟨hb, hturn⟩ := hab.maintaining hsite hmaintenance
      obtain ⟨hc, hturn'⟩ := hbc.maintaining hsite hb
      exact ⟨hc, hturn'.trans hturn⟩
  here_rely := by
    intro site a b hhere hrely
    refine ⟨fun h => (hrely.publication h (hhere.publication h)).1, ?_, ?_⟩
    · intro hsite
      obtain ⟨c, hc, hruns⟩ := hhere.driving hsite
      exact ⟨c, hc, hrely.driving hsite c hc hruns⟩
    · exact fun h => (hrely.maintaining h (hhere.maintaining h)).1
  settled_perm := fun hperm h => h.perm out foreign init hperm

end Contract

end DshKernel.Agent
