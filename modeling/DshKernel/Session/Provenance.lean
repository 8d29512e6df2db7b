import DshKernel.Session.SurfaceFold
import Mathlib.Logic.Relation
import Mathlib.Data.List.Nodup

/-!
# Provenance

Nothing leaves the surface without a trace: an event that is no node any more was shadowed
by one replacement, and the citations of the replacements lead from a node back to it.
-/

namespace DshKernel.Session

open Js

def Cites (log : List SessionEvent) (citing cited : Nat) : Prop :=
  ∃ event sources, log[citing]? = some event ∧ isReplacementSurfaceEvent event = true ∧
    citedSources event = .ok sources ∧ cited ∈ sources

def shadowCount (replacements : List SurfaceFoldReplacement) (seq : Nat) : Nat :=
  replacements.countP fun replacement => decide (seq ∈ replacement.shadowedSeqs)

def surfaceCount (log : List SessionEvent) (seq : Nat) : Nat :=
  if log[seq]?.any isSurfaceEvent then 1 else 0

section Counts

variable {log : List SessionEvent} {state : SurfaceFoldState} {event : SessionEvent}
variable {replacements : List SurfaceFoldReplacement}

theorem surfaceCount_append (log : List SessionEvent) (event : SessionEvent) (seq : Nat) :
    surfaceCount (log ++ [event]) seq =
      surfaceCount log seq + if seq = log.length ∧ isSurfaceEvent event = true then 1 else 0 := by
  unfold surfaceCount
  rcases Nat.lt_trichotomy seq log.length with hlt | rfl | hgt
  · rw [List.getElem?_append_left hlt, if_neg (fun h => by omega : ¬(seq = log.length ∧ _))]
    rfl
  · have hnone : log[log.length]? = none := List.getElem?_eq_none (Nat.le_refl _)
    rw [List.getElem?_append_right (Nat.le_refl _), Nat.sub_self, List.getElem?_cons_zero, hnone]
    simp
  · have hbefore : log[seq]? = none := List.getElem?_eq_none (Nat.le_of_lt hgt)
    have hafter : (log ++ [event])[seq]? = none := by
      apply List.getElem?_eq_none
      rw [List.length_append, List.length_singleton]
      omega
    rw [hafter, hbefore, if_neg (fun h => by omega : ¬(seq = log.length ∧ _))]
    rfl

theorem shadowCount_append (replacements more : List SurfaceFoldReplacement) (seq : Nat) :
    shadowCount (replacements ++ more) seq = shadowCount replacements seq + shadowCount more seq := by
  simp only [shadowCount, List.countP_append]

theorem shadowCount_pos {seq : Nat} :
    0 < shadowCount replacements seq ↔ ∃ replacement ∈ replacements, seq ∈ replacement.shadowedSeqs := by
  simp only [shadowCount, List.countP_pos_iff, decide_eq_true_eq]

theorem isSurfaceEvent_of_plan {plan : Option SurfacePlan}
    (h : planSurfaceEvent state event log.length log 0 = .ok plan) :
    isSurfaceEvent event = plan.isSome := by
  obtain ⟨-, ⟨rfl, hop⟩ | ⟨rfl, hop, -⟩ | ⟨startSeq, endSeq, range, rfl, hop, -⟩⟩ :=
    planSurfaceEvent_cases h
  · rcases surfaceOpOf_cases hop with ⟨-, htype, -⟩ | ⟨-, raw, -, ⟨hne, -⟩ | ⟨_, _, hne, -⟩⟩
    · simp [isSurfaceEvent, htype]
    · cases hne
    · cases hne
  · rcases surfaceOpOf_cases hop with ⟨hne, -⟩ | ⟨htype, raw, hraw, -⟩
    · cases hne
    · simp [isSurfaceEvent, htype, hraw]
  · rcases surfaceOpOf_cases hop with ⟨hne, -⟩ | ⟨htype, raw, hraw, -⟩
    · cases hne
    · simp [isSurfaceEvent, htype, hraw]

theorem nodes_eq_of_range {startSeq endSeq : Nat} {range : SurfaceRange}
    (h : replacementRange state startSeq endSeq = .ok range) :
    state.nodes = state.nodes.take range.startIdx ++
      (range.shadowedSeqs ++ state.nodes.drop (range.endIdx + 1)) := by
  obtain ⟨-, -, hle, hshadowed⟩ := replacementRange_ok h
  have htake : (state.nodes.take (range.endIdx + 1)).take range.startIdx =
      state.nodes.take range.startIdx := by
    rw [List.take_take, Nat.min_eq_left (by omega)]
  calc state.nodes
      = state.nodes.take (range.endIdx + 1) ++ state.nodes.drop (range.endIdx + 1) :=
        (List.take_append_drop _ _).symm
    _ = ((state.nodes.take (range.endIdx + 1)).take range.startIdx ++
          (state.nodes.take (range.endIdx + 1)).drop range.startIdx) ++
          state.nodes.drop (range.endIdx + 1) := by
        rw [List.take_append_drop range.startIdx]
    _ = state.nodes.take range.startIdx ++
          (range.shadowedSeqs ++ state.nodes.drop (range.endIdx + 1)) := by
        rw [htake, hshadowed, List.append_assoc]

theorem Folds.count_eq (h : Folds log state replacements) (seq : Nat) :
    state.nodes.count seq + shadowCount replacements seq = surfaceCount log seq := by
  induction h with
  | nil => rfl
  | @snoc log state replacements event plan hlog _ hplan ih =>
    have hsurface := isSurfaceEvent_of_plan hplan
    rw [surfaceCount_append, shadowCount_append, ← ih, hsurface]
    obtain ⟨-, ⟨rfl, -⟩ | ⟨rfl, -⟩ | ⟨startSeq, endSeq, range, rfl, -, hrange, -⟩⟩ :=
      planSurfaceEvent_cases hplan
    · simp [applySurfacePlan, shadowCount]
    · have hsingle : List.count seq [log.length] = if seq = log.length then 1 else 0 := by
        by_cases heq : seq = log.length
        · simp [heq]
        · simp [heq, Ne.symm heq]
      have hnone : shadowCount [] seq = 0 := rfl
      simp only [applySurfacePlan, List.count_append, hsingle, Option.toList_none, hnone,
        Option.isSome_some, and_true]
      omega
    · have hsplit := congrArg (List.count seq) (nodes_eq_of_range hrange)
      rw [List.count_append, List.count_append] at hsplit
      have hone : state.nodes.count seq ≤ 1 := by
        have hle : surfaceCount log seq ≤ 1 := by
          unfold surfaceCount
          split <;> omega
        omega
      have hshadowed : shadowCount [⟨log.length, startSeq, endSeq, range.shadowedSeqs⟩] seq =
          range.shadowedSeqs.count seq := by
        by_cases hmem : seq ∈ range.shadowedSeqs
        · have hpos := List.count_pos_iff.mpr hmem
          simp only [shadowCount, List.countP_singleton, hmem, decide_true, if_true]
          omega
        · simp [shadowCount, hmem, List.count_eq_zero_of_not_mem hmem]
      have hsingle : (log.length :: state.nodes.drop (range.endIdx + 1)).count seq =
          (state.nodes.drop (range.endIdx + 1)).count seq + if seq = log.length then 1 else 0 := by
        rw [List.count_cons]
        by_cases heq : seq = log.length
        · simp [heq]
        · simp [heq, Ne.symm heq]
      simp only [applySurfacePlan, List.count_append, hsingle, Option.toList_some, hshadowed,
        Option.isSome_some, and_true]
      omega

end Counts

section Citations

variable {log : List SessionEvent} {state : SurfaceFoldState}
variable {replacements : List SurfaceFoldReplacement}

theorem Cites.append {citing cited : Nat} (h : Cites log citing cited) (more : List SessionEvent) :
    Cites (log ++ more) citing cited := by
  obtain ⟨event, sources, hget, hrest⟩ := h
  have hlt := (List.getElem?_eq_some_iff.mp hget).1
  exact ⟨event, sources, by rw [List.getElem?_append_left hlt, hget], hrest⟩

theorem citedSources_of_provenance {event : SessionEvent} {shadowedSeqs : List Nat}
    (h : assertProvenance event shadowedSeqs = .ok ()) :
    ∃ sources, citedSources event = .ok sources ∧ ∀ seq ∈ shadowedSeqs, seq ∈ sources := by
  unfold assertProvenance at h
  split at h
  · cases h
  · rename_i sources hsources
    refine ⟨sources, hsources, ?_⟩
    dsimp only at h
    split at h
    · rename_i hempty
      intro seq hseq
      by_cases hmem : seq ∈ sources
      · exact hmem
      · have hmissing : seq ∈ shadowedSeqs.filter fun seq => decide (seq ∉ sources) :=
          List.mem_filter.mpr ⟨hseq, by simpa using hmem⟩
        rw [List.isEmpty_iff.mp hempty] at hmissing
        cases hmissing
    · cases h

theorem cites_of_plan {event : SessionEvent} {startSeq endSeq : Nat} {range : SurfaceRange}
    (h : planSurfaceEvent state event log.length log 0 =
      .ok (some (.replace log.length startSeq endSeq range)))
    (hprovenance : assertProvenance event range.shadowedSeqs = .ok ()) :
    ∀ seq ∈ range.shadowedSeqs, Cites (log ++ [event]) log.length seq := by
  intro seq hseq
  obtain ⟨sources, hsources, hall⟩ := citedSources_of_provenance hprovenance
  have hreplacement := (isReplacementSurfaceEvent_of_plan h).1.mp rfl
  refine ⟨event, sources, ?_, hreplacement, hsources, hall seq hseq⟩
  rw [List.getElem?_append_right (Nat.le_refl _), Nat.sub_self]
  rfl

theorem Folds.shadowed_reachable (h : Folds log state replacements) :
    ∀ replacement ∈ replacements, ∀ seq ∈ replacement.shadowedSeqs,
      ∃ node ∈ state.nodes, Relation.TransGen (Cites log) node seq := by
  induction h with
  | nil => simp
  | @snoc log state replacements event plan hlog _ hplan ih =>
    have hkept : ∀ replacement ∈ replacements, ∀ seq ∈ replacement.shadowedSeqs,
        ∃ node ∈ state.nodes, Relation.TransGen (Cites (log ++ [event])) node seq := by
      intro replacement hreplacement seq hseq
      obtain ⟨node, hnode, hpath⟩ := ih replacement hreplacement seq hseq
      exact ⟨node, hnode, hpath.lift id fun _ _ hcites => hcites.append [event]⟩
    obtain ⟨-, ⟨rfl, -⟩ | ⟨rfl, -⟩ | ⟨startSeq, endSeq, range, rfl, -, hrange, hprovenance, -⟩⟩ :=
      planSurfaceEvent_cases hplan
    · intro replacement hreplacement
      exact hkept replacement (by simpa [applySurfacePlan] using hreplacement)
    · intro replacement hreplacement seq hseq
      obtain ⟨node, hnode, hpath⟩ :=
        hkept replacement (by simpa [applySurfacePlan] using hreplacement) seq hseq
      exact ⟨node, List.mem_append_left _ hnode, hpath⟩
    · have hcites := cites_of_plan hplan hprovenance
      have hnew : log.length ∈ (applySurfacePlan state
          (some (.replace log.length startSeq endSeq range))).1.nodes := by
        simp [applySurfacePlan]
      intro replacement hreplacement seq hseq
      rcases List.mem_append.mp hreplacement with hold | hadded
      · obtain ⟨node, hnode, hpath⟩ := hkept replacement hold seq hseq
        rw [nodes_eq_of_range hrange, List.mem_append, List.mem_append] at hnode
        rcases hnode with hbefore | hshadowed | hafter
        · exact ⟨node, by simp [applySurfacePlan, hbefore], hpath⟩
        -- the path to the event goes on through the new node
        · exact ⟨log.length, hnew, Relation.TransGen.head (hcites node hshadowed) hpath⟩
        · exact ⟨node, by simp [applySurfacePlan, hafter], hpath⟩
      · have heq : replacement = ⟨log.length, startSeq, endSeq, range.shadowedSeqs⟩ := by
          simpa [applySurfacePlan] using hadded
        subst heq
        exact ⟨log.length, hnew, .single (hcites seq hseq)⟩

theorem surfaceCount_le_one (log : List SessionEvent) (seq : Nat) : surfaceCount log seq ≤ 1 := by
  unfold surfaceCount
  split <;> omega

theorem Folds.nodup_nodes (h : Folds log state replacements) : state.nodes.Nodup := by
  apply List.nodup_iff_count_le_one.mpr
  intro seq
  have hseq := h.count_eq seq
  have hone := surfaceCount_le_one log seq
  omega

theorem Folds.take_isPrefix (h : Folds log state replacements) (n : Nat) :
    ∃ earlier before, Folds (log.take n) earlier before ∧ before <+: replacements := by
  induction h with
  | nil => exact ⟨_, _, by simpa using Folds.nil, List.prefix_refl _⟩
  | @snoc log state replacements event plan hlog hle hplan ih =>
    rcases Nat.lt_or_ge log.length n with hlt | hge
    · refine ⟨(applySurfacePlan state plan).1, _, ?_, List.prefix_refl _⟩
      rw [List.take_of_length_le (by rw [List.length_append, List.length_singleton]; omega)]
      exact .snoc hlog hle hplan
    · obtain ⟨earlier, before, hearlier, hbefore⟩ := ih
      refine ⟨earlier, before, ?_, hbefore.trans (List.prefix_append _ _)⟩
      rw [List.take_append_of_le_length hge]
      exact hearlier

/-- The surface of an accepted log holds each surface event once, as a node or as shadowed by one
replacement, and what is shadowed is found from a node. -/
theorem foldSurface_provenance (events : List SessionEvent) (result : SurfaceFoldResult)
    (h : foldSurface events = .ok result) :
    result.nodes.Nodup ∧
    (∀ seq ∈ result.nodes, ∃ event, events[seq]? = some event ∧ event.seq = seq ∧
      isSurfaceEvent event = true) ∧
    (∀ seq event, events[seq]? = some event → isSurfaceEvent event = true →
      (seq ∈ result.nodes ∧ shadowCount result.replacements seq = 0) ∨
        (seq ∉ result.nodes ∧ shadowCount result.replacements seq = 1)) ∧
    (∀ n, ∃ before, foldSurface (events.take n) = .ok before ∧
      before.replacements <+: result.replacements ∧
      ∀ replacement ∈ before.replacements, ∀ seq ∈ replacement.shadowedSeqs,
        seq ∉ before.nodes ∧ seq ∉ result.nodes) ∧
    (∀ replacement ∈ result.replacements, ∀ seq ∈ replacement.shadowedSeqs,
      ∃ node ∈ result.nodes, Relation.TransGen (Cites events) node seq) := by
  obtain ⟨state, hfolds, hnodes⟩ := exists_folds_of_foldSurface h
  rw [← hnodes]
  have hcount := hfolds.count_eq
  refine ⟨hfolds.nodup_nodes, ?_, ?_, ?_, hfolds.shadowed_reachable⟩
  · intro seq hseq
    have hpos := List.count_pos_iff.mpr hseq
    have hsurface : surfaceCount events seq ≠ 0 := by
      have hsum := hcount seq
      omega
    have hlt := hfolds.nodes_lt seq hseq
    refine ⟨events[seq], List.getElem?_eq_getElem hlt, hfolds.seq_eq seq hlt, ?_⟩
    by_contra hnot
    apply hsurface
    simp [surfaceCount, List.getElem?_eq_getElem hlt, hnot]
  · intro seq event hget hsurface
    have hone : surfaceCount events seq = 1 := by simp [surfaceCount, hget, hsurface]
    have hsum := hcount seq
    by_cases hmem : seq ∈ state.nodes
    · have hpos := List.count_pos_iff.mpr hmem
      exact .inl ⟨hmem, by omega⟩
    · have hzero := List.count_eq_zero_of_not_mem hmem
      exact .inr ⟨hmem, by omega⟩
  · intro n
    obtain ⟨earlier, before, hearlier, hkept⟩ := hfolds.take_isPrefix n
    refine ⟨⟨earlier.nodes, before⟩, hearlier.foldSurface_eq, hkept, ?_⟩
    intro replacement hreplacement seq hseq
    have hnever : ∀ {log : List SessionEvent} {state : SurfaceFoldState}
        {replacements : List SurfaceFoldReplacement}, Folds log state replacements →
        replacement ∈ replacements → seq ∉ state.nodes := by
      intro log state replacements hlog hmem hnode
      have hshadowed := shadowCount_pos.mpr ⟨replacement, hmem, hseq⟩
      have hpos := List.count_pos_iff.mpr hnode
      have hsum := hlog.count_eq seq
      have hone := surfaceCount_le_one log seq
      omega
    exact ⟨hnever hearlier hreplacement, hnever hfolds (hkept.subset hreplacement)⟩

def replacedPrompts : List SessionEvent :=
  let prompt := EventData.userMessage ⟨"prompt", [], .user⟩
  [{ seq := 0, time := .ofNat 0, data := prompt, surfaceOp := some (.str "append") },
    { seq := 1, time := .ofNat 0, data := prompt, surfaceOp := some (.str "append") },
    { seq := 2, time := .ofNat 0, data := prompt,
      sourceEventSeqs := some (.arr [.ofNat 0, .ofNat 1]),
      surfaceOp := some (.obj [("op", .str "replace"), ("start", .ofNat 0), ("end", .ofNat 1)]) }]

theorem foldSurface_provenance_replacedPrompts :
    ∃ node ∈ [2], Relation.TransGen (Cites replacedPrompts) node 1 :=
  (foldSurface_provenance replacedPrompts ⟨[2], [⟨2, 0, 1, [0, 1]⟩]⟩ (by rfl)).2.2.2.2
    ⟨2, 0, 1, [0, 1]⟩ (by decide) 1 (by decide)

end Citations

end DshKernel.Session
