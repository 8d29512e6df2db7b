import DshKernel.Agent.ValidTraces

/-!
# Crashes of an agent

A process may crash at any moment and lose the end of its log. The next one repairs what it finds,
and runs the agent behind it.
-/

namespace DshKernel.Agent

open Lib Session
set_option maxRecDepth 4096

/-- The logs that are left by processes one after another, each with agents of its own. -/
inductive Survives : List SessionEvent → Prop where
  | created : Survives []
  | crashed {log closers : List SessionEvent} {surface : SurfaceFoldResult} {inbox : Inbox}
      {lastTurn : Nat} {out : Outside} {s : AgentState} (before : Survives log)
      (hclosers : interruptedTurnClosers log = .ok closers)
      (hsurface : foldSurface (log ++ closers) = .ok surface)
      (hlast : lastTurnOf (log ++ closers) = .ofNat lastTurn) (hends : EndsAccepted out)
      (hrun : LoopReaches (agentLoop out isForeign)
        ⟨initialWorld (log ++ closers) inbox lastTurn, [], []⟩ s)
      (hdistinct : DistinctCalls (log ++ closers).length s.world.log) (kept : Nat) :
      Survives (s.world.log.take kept)

variable {log closers : List SessionEvent} {trace : SessionTrace}

theorem seedSession_take (h : seedSession log = .ok trace) (kept : Nat) :
    ∃ before, seedSession (log.take kept) = .ok before := by
  rw [← List.take_append_drop kept log, seedSession, traceEvents_append] at h
  cases hbefore : traceEvents freshTrace (log.take kept) with
  | ok before => exact ⟨before, hbefore⟩
  | error failure =>
    rw [hbefore] at h
    cases h

theorem repaired_closed (htrace : seedSession log = .ok trace)
    (hclosers : interruptedTurnClosers log = .ok closers)
    (hseq : ∀ (i : Nat) (hi : i < log.length), log[i].seq = i) :
    ∃ closed : SessionTrace, seedSession (log ++ closers) = .ok closed ∧ closed.openTurn = none ∧
      closed.openStep = none := by
  have hrelated := (seedSession_eq_ok.mp htrace).related hseq
  cases hopen : (scanEvents log).openTurn with
  | none =>
    have hclosed : trace.openTurn = none := by rw [← hrelated.openTurn, hopen]
    rw [interruptedTurnClosers_eq_nil hopen] at hclosers
    cases hclosers
    rw [List.append_nil]
    exact ⟨trace, htrace, hclosed, hrelated.nested hclosed⟩
  | some openTurn =>
    obtain ⟨time, hpush⟩ := interruptedTurnClosers_eq hseq hopen
    rw [hpush] at hclosers
    obtain ⟨rfl, -⟩ := eq_numbered_of_pushClosers hclosers
    obtain ⟨closed, hclosed, hturn, hstep⟩ := traceEvents_closers hrelated hopen
    refine ⟨closed, ?_, hturn, hstep⟩
    rw [seedSession] at htrace ⊢
    rw [traceEvents_append, htrace]
    exact hclosed

theorem seq_eq_of_append {surface : SurfaceFoldResult} (h : foldSurface (log ++ closers) = .ok surface)
    (i : Nat) (hi : i < log.length) : log[i].seq = i := by
  obtain ⟨state, hfold, -⟩ := exists_folds_of_foldSurface h
  have hseq := hfold.seq_eq i (by rw [List.length_append]; omega)
  rwa [List.getElem_append_left hi] at hseq

/-- However often a process crashes, and wherever its log is cut, the log that it leaves is accepted,
and repair closes what is open in it. -/
theorem crashes_leave_valid_traces (h : Survives log) :
    (∃ trace, seedSession log = .ok trace) ∧ ∀ closers surface,
      interruptedTurnClosers log = .ok closers → foldSurface (log ++ closers) = .ok surface →
      ∃ closed : SessionTrace, seedSession (log ++ closers) = .ok closed ∧ closed.openTurn = none ∧
        closed.openStep = none := by
  have haccepted : ∃ trace, seedSession log = .ok trace := by
    induction h with
    | created => exact ⟨freshTrace, rfl⟩
    | crashed before hclosers hsurface hlast hends hrun hdistinct kept ih =>
      obtain ⟨trace, htrace⟩ := ih
      obtain ⟨closed, hclosed, hopen, -⟩ :=
        repaired_closed htrace hclosers (seq_eq_of_append hsurface)
      obtain ⟨state, hfold, -⟩ := exists_folds_of_foldSurface hsurface
      have htraces := seedSession_eq_ok.mp hclosed
      have hrelated := htraces.related hfold.seq_eq
      obtain ⟨c, hruns⟩ := agentLoop_refines rfl rfl hrun
      obtain ⟨final, hfinal, -⟩ := hruns.valid hends
        ⟨closed, ⟨htraces, by rw [hrelated.lastSeq]; exact Int.sub_one_lt_of_le (Int.le_refl _)⟩,
          closed_of_traces htraces hrelated hopen hlast⟩ hdistinct
      exact seedSession_take (seedSession_eq_ok.mpr hfinal.traces) kept
  obtain ⟨trace, htrace⟩ := haccepted
  exact ⟨⟨trace, htrace⟩, fun closers surface hclosers hsurface =>
    repaired_closed htrace hclosers (seq_eq_of_append hsurface)⟩

/-- Two tool calls are cut off from their results, and the repair answers both. -/
theorem crashes_leave_valid_traces_cut :
    ∃ closers closed, interruptedTurnClosers ((answered "one" "two").world.log.take 12) = .ok closers ∧
      closers.length = 4 ∧
      seedSession ((answered "one" "two").world.log.take 12 ++ closers) = .ok closed ∧
      closed.openTurn = none := by
  have hrun : LoopReaches (agentLoop (parallelOutside "one" "two") isForeign) fresh
      (answered "one" "two") :=
    reaches_enterFor (reaches_dispatched _ _) (by decide) _
      (isEnabled_bodyReturns (by decide) (by decide)) 100
  obtain ⟨-, hclosed⟩ := crashes_leave_valid_traces (.crashed .created rfl rfl rfl
    (endsAccepted_parallelOutside _ _) hrun (by decide) 12)
  obtain ⟨closed, hclosed, hopen, -⟩ := hclosed _ _ rfl rfl
  exact ⟨_, closed, rfl, rfl, hclosed, hopen⟩

end DshKernel.Agent
