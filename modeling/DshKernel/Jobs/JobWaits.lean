import Mathlib.Data.List.Nodup
import DshKernel.Jobs.JobReports

/-!
# The waits on jobs

A wait that was begun is over, or goes on when the stack is empty, or is blocked on a job that is not
over.
-/

namespace DshKernel.Jobs

open Js Lib List
open JobEvent (begun ended)

def AwaitedBefore (before : List JobEvent) : JobEvent → Prop
  | .settled ref waiting _ => ∀ wait ∈ before.filterMap begun,
      wait ∉ before.filterMap ended → wait.ref = ref → wait ∈ waiting
  | _ => True

structure Awaited (r : LocalJobRegistry) (log : List JobEvent) : Prop where
  perm : (log.filterMap ended ++ (r.released ++ r.blocked)).Perm
    (log.filterMap begun)
  fresh : ∀ wait ∈ log.filterMap begun, wait.id < r.waits
  nodup : (log.filterMap begun).Nodup
  live : ∀ wait ∈ r.blocked, r.isOver wait.ref = false
  counted : ∀ wait ∈ r.released ++ r.blocked, wait ∈ r.waiters
  settled : Throughout AwaitedBefore log

namespace Awaited

variable {cap : Nat} {r r' : LocalJobRegistry} {log news : List JobEvent}

theorem nodup_all (h : Awaited r log) :
    (log.filterMap ended ++ (r.released ++ r.blocked)).Nodup :=
  h.perm.nodup_iff.mpr h.nodup

theorem keep (h : Awaited r log) (hover : ∀ ref, r'.isOver ref = r.isOver ref)
    (hwaiters : r'.waiters = r.waiters) (hblocked : r'.blocked = r.blocked)
    (hreleased : r'.released = r.released) (hwaits : r'.waits = r.waits) : Awaited r' log where
  perm := by
    rw [hreleased, hblocked]
    exact h.perm
  fresh wait hmem := hwaits ▸ h.fresh wait hmem
  nodup := h.nodup
  live wait hmem := (hover wait.ref).trans (h.live wait (hblocked ▸ hmem))
  counted wait hmem := by
    rw [hreleased, hblocked] at hmem
    rw [hwaiters]
    exact h.counted wait hmem
  settled := h.settled

theorem tell {event : JobEvent} (h : Awaited r log) (hbegun : event.begun = none)
    (hended : event.ended = none) (hsettled : AwaitedBefore log event) :
    Awaited r (log ++ [event]) := by
  have hbegan : (log ++ [event]).filterMap begun = log.filterMap begun := by
    rw [filterMap_append, filterMap_cons_none hbegun, filterMap_nil, append_nil]
  have hover : (log ++ [event]).filterMap ended = log.filterMap ended := by
    rw [filterMap_append, filterMap_cons_none hended, filterMap_nil, append_nil]
  refine ⟨?_, ?_, ?_, h.live, h.counted, throughout_concat.mpr ⟨h.settled, hsettled⟩⟩
  · rw [hbegan, hover]
    exact h.perm
  · rw [hbegan]
    exact h.fresh
  · rw [hbegan]
    exact h.nodup

theorem settle {ref : Nat} {job : TrackedTask} {outcome : JobOutcome} (h : Awaited r log)
    (hjob : r.task? ref = some job) :
    Awaited (r.settle ref job outcome).1 (log ++ (r.settle ref job outcome).2) := by
  refine tell ⟨?_, h.fresh, h.nodup, ?_, ?_, h.settled⟩ rfl rfl ?_
  · have hparts : (r.blocked.filter (fun wait => wait.ref == ref) ++
        r.blocked.filter fun wait => wait.ref != ref).Perm r.blocked :=
      filter_append_perm _ _
    refine List.Perm.trans (List.Perm.append_left _ ?_) h.perm
    change (r.released ++ _ ++ _).Perm _
    rw [append_assoc]
    exact hparts.append_left _
  · intro wait hmem
    obtain ⟨hblocked, hother⟩ := mem_filter.mp hmem
    rw [isOver_settle hjob, if_neg fun heq => by simp [heq] at hother]
    exact h.live wait hblocked
  · intro wait hmem
    refine h.counted wait ?_
    have hmem : wait ∈ r.released ++ r.blocked.filter (fun wait => wait.ref == ref) ++
        r.blocked.filter (fun wait => wait.ref != ref) := hmem
    simp only [mem_append, mem_filter] at hmem ⊢
    tauto
  · intro wait hbegun hended href
    have hmem := h.perm.mem_iff.mpr hbegun
    refine mem_filter.mpr ⟨h.counted wait ?_, by simp [href]⟩
    exact (mem_append.mp hmem).resolve_left hended

theorem begin {ref : Nat} {caller : Option Agent} (h : Awaited r log) (hlive : r.isOver ref = false) :
    Awaited { r with
      waiters := r.waiters ++ [⟨r.waits, caller, ref⟩]
      blocked := r.blocked ++ [⟨r.waits, caller, ref⟩]
      waits := r.waits + 1 } (log ++ [.waiting ⟨r.waits, caller, ref⟩]) := by
  have hbegun : (log ++ [JobEvent.waiting ⟨r.waits, caller, ref⟩]).filterMap begun =
      log.filterMap begun ++ [⟨r.waits, caller, ref⟩] := filterMap_append
  have hended : (log ++ [JobEvent.waiting ⟨r.waits, caller, ref⟩]).filterMap ended =
      log.filterMap ended := by
    rw [filterMap_append]
    exact append_nil _
  refine ⟨?_, ?_, ?_, ?_, ?_, throughout_concat.mpr ⟨h.settled, trivial⟩⟩
  · rw [hbegun, hended, ← append_assoc r.released, ← append_assoc]
    exact h.perm.append_right _
  · intro wait hmem
    rw [hbegun] at hmem
    rcases mem_append.mp hmem with hold | hnew
    · exact Nat.lt_succ_of_lt (h.fresh wait hold)
    · rw [mem_singleton.mp hnew]
      exact Nat.lt_succ_self _
  · rw [hbegun]
    refine nodup_append.mpr ⟨h.nodup, nodup_singleton _, ?_⟩
    rintro wait hold _ hnew rfl
    have hfresh := h.fresh wait hold
    rw [mem_singleton.mp hnew] at hfresh
    exact Nat.lt_irrefl _ hfresh
  · intro wait hmem
    rcases mem_append.mp hmem with hold | hnew
    · exact h.live wait hold
    · rw [mem_singleton.mp hnew]
      exact hlive
  · intro wait hmem
    rw [← append_assoc] at hmem
    exact mem_append.mpr ((mem_append.mp hmem).imp_left (h.counted wait))

theorem timeOut {wait : Wait} (h : Awaited r log) (hwait : wait ∈ r.blocked) :
    Awaited { r with blocked := r.blocked.erase wait, released := r.released ++ [wait] } log := by
  have hmoved : (r.released ++ [wait] ++ r.blocked.erase wait).Perm (r.released ++ r.blocked) := by
    rw [append_assoc]
    exact (perm_cons_erase hwait).symm.append_left _
  refine ⟨(hmoved.append_left _).trans h.perm, h.fresh, h.nodup, ?_, ?_, h.settled⟩
  · exact fun other hmem => h.live other (mem_of_mem_erase hmem)
  · exact fun other hmem => h.counted other (hmoved.mem_iff.mp hmem)

theorem finish {wait : Wait} {event : JobEvent} {released blocked : List Wait} (h : Awaited r log)
    (hbegun : event.begun = none) (hended : event.ended = some wait)
    (hsettled : AwaitedBefore log event)
    (hleft : (wait :: (released ++ blocked)).Perm (r.released ++ r.blocked))
    (hblocked : ∀ other ∈ blocked, other ∈ r.blocked) :
    Awaited { r with waiters := r.waiters.erase wait, released := released, blocked := blocked }
      (log ++ [event]) := by
  have hbegan : (log ++ [event]).filterMap begun = log.filterMap begun := by
    rw [filterMap_append, filterMap_cons_none hbegun, filterMap_nil, append_nil]
  have hover : (log ++ [event]).filterMap ended = log.filterMap ended ++ [wait] := by
    rw [filterMap_append, filterMap_cons_some hended, filterMap_nil]
  refine ⟨?_, ?_, ?_, fun other hmem => h.live other (hblocked other hmem), ?_,
    throughout_concat.mpr ⟨h.settled, hsettled⟩⟩
  · rw [hbegan, hover, append_assoc]
    exact (hleft.append_left _).trans h.perm
  · rw [hbegan]
    exact h.fresh
  · rw [hbegan]
    exact h.nodup
  · intro other hmem
    have hdistinct : (wait :: (released ++ blocked)).Nodup :=
      hleft.nodup_iff.mpr (nodup_append.mp h.nodup_all).2.1
    have hne : other ≠ wait := by
      rintro rfl
      exact (nodup_cons.mp hdistinct).1 hmem
    have hwaiter := h.counted other (hleft.mem_iff.mp (mem_cons_of_mem _ hmem))
    exact (mem_erase_of_ne hne).mpr hwaiter

theorem change (h : Awaited r log) (hchange : Change cap r r' news) : Awaited r' (log ++ news) := by
  induction hchange generalizing log with
  | trans _ _ ih ih' =>
    rw [← append_assoc]
    exact ih' (ih h)
  | other htasks _ hwaiters hblocked hreleased hwaits =>
    rw [append_nil]
    exact h.keep (isOver_congr htasks) hwaiters hblocked hreleased hwaits
  | see r _ _ => exact h.tell rfl rfl trivial
  | register r spec readOutput _ =>
    rw [append_nil]
    exact h.keep (isOver_register spec readOutput) rfl rfl rfl rfl
  | report r ref =>
    rw [append_nil]
    exact h.keep (isOver_modify fun _ _ => rfl) rfl rfl rfl rfl
  | @claim r ref _ _ =>
    have hkept : Awaited (r.report ref) log := h.keep (isOver_modify fun _ _ => rfl) rfl rfl rfl rfl
    exact hkept.tell rfl rfl trivial
  | stop r hjob hactive =>
    rw [append_nil]
    exact h.keep (isOver_stop hjob hactive) rfl rfl rfl rfl
  | settle r outcome hjob _ => exact h.settle hjob
  | @silence r ref _ _ _ _ =>
    exact @tell _ _ (.silenced ref) (h.keep (fun _ => rfl) rfl rfl rfl rfl) rfl rfl trivial
  | @announce r ref snapshot _ _ _ =>
    exact @tell _ _ (.done ref snapshot) (h.keep (fun _ => rfl) rfl rfl rfl rfl) rfl rfl trivial
  | waitBegins r hjob hactive _ =>
    refine h.begin ?_
    simpa [LocalJobRegistry.isOver, hjob, TrackedTask.isActive] using hactive
  | waitTimesOut r hwait =>
    rw [append_nil]
    exact h.timeOut hwait
  | @waitAborts r wait hwait =>
    refine h.finish rfl rfl trivial ?_ fun _ => mem_of_mem_erase
    have hmoved : (r.released ++ wait :: r.blocked.erase wait).Perm (r.released ++ r.blocked) :=
      (perm_cons_erase hwait).symm.append_left _
    exact perm_middle.symm.trans hmoved
  | waitContinues r hwait =>
    refine h.finish rfl rfl trivial ?_ fun _ hmem => hmem
    exact (perm_cons_erase hwait).symm.append_right _

end Awaited

end DshKernel.Jobs
