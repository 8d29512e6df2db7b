import DshKernel.Compaction.PairedRuns

/-!
# The compactable range

One walk over the token prices finds where the retained tail may start, a second one moves the cut
to where no tool call is in progress. The range in front of it is the longest that can be compacted.
-/

namespace DshKernel.Compaction

open Js Session SurfaceManager Lib PairedSession

structure TokenSurfaceNode where
  seq : Nat
  tokens : Nat

structure CompactableRange where
  start : Nat
  «end» : Nat
  deriving DecidableEq

structure SurfaceSelection where
  start : Nat
  «end» : Nat
  startIdx : Nat
  endIdx : Nat
  shadowedSeqs : List Nat
  deriving DecidableEq

/-- The backward walk over the prices, which starts below `index`. -/
def budgetWalk (pricedNodes : List TokenSurfaceNode) (retainTokens : Int) : Nat → Nat → Nat
  | 0, _ => 0
  | index + 1, accumulated =>
    let accumulated := accumulated + (pricedNodes[index]?.map (·.tokens)).getD 0
    if retainTokens ≤ accumulated then index
    else budgetWalk pricedNodes retainTokens index accumulated

/-- The backward walk from `keepFromIdx` to a cut that is balanced, or to the start. -/
def balancedWalk (surfaceNodes : List Nat) :
    Nat → PairedSession → Except String Nat × PairedSession
  | 0, p => (.ok 0, p)
  | keepFromIdx + 1, p =>
    match surfaceNodes[keepFromIdx + 1]? with
    | none => (.error "tool-pairing balance: surface seq undefined not found", p)
    | some seq =>
      match p.toolPairingBalancedBefore seq with
      | (.error message, p) => (.error message, p)
      | (.ok true, p) => (.ok (keepFromIdx + 1), p)
      | (.ok false, p) => balancedWalk surfaceNodes keepFromIdx p

def selectCompactableRange (p : PairedSession) (pricedNodes : List TokenSurfaceNode)
    (retainTokens : Int) : Except String (Option CompactableRange) × PairedSession :=
  if pricedNodes.length = 0 then (.ok none, p)
  else
    match p.surfaceNodes with
    | (.error message, p) => (.error message, p)
    | (.ok surfaceNodes, p) =>
      if surfaceNodes ≠ pricedNodes.map (·.seq) then
        (.error "compaction: token-meter surface does not match the current session surface", p)
      else
        let keepFromIdx := budgetWalk pricedNodes retainTokens pricedNodes.length 0
        if keepFromIdx = 0 then (.ok none, p)
        else
          match balancedWalk surfaceNodes keepFromIdx p with
          | (.error message, p) => (.error message, p)
          | (.ok 0, p) => (.ok none, p)
          | (.ok (cutoffIdx + 1), p) =>
            -- both positions are on the surface
            (.ok (surfaceNodes[0]?.bind fun first =>
              surfaceNodes[cutoffIdx]?.map fun cutoff => ⟨first, cutoff⟩), p)

def validateSurfaceRegion (p : PairedSession) (startSeq endSeq : Nat) :
    Except String SurfaceSelection × PairedSession :=
  match p.surfaceNodes with
  | (.error message, p) => (.error message, p)
  | (.ok nodes, p) =>
    match nodes.idxOf? startSeq, nodes.idxOf? endSeq with
    | none, _ => (.error s!"compactRegion: start seq {startSeq} not found in surface", p)
    | some _, none => (.error s!"compactRegion: end seq {endSeq} not found in surface", p)
    | some startIdx, some endIdx =>
      if endIdx < startIdx then
        (.error (s!"compactRegion: start seq {startSeq} (position {startIdx}) is after end seq "
          ++ s!"{endSeq} (position {endIdx}) on the surface"), p)
      else
        -- the node at `startIdx` is `startSeq`, and that at `endIdx` is `endSeq`
        match p.toolPairingBalancedBefore startSeq with
        | (.error message, p) => (.error message, p)
        | (.ok false, p) =>
          (.error (s!"compactRegion: start seq {startSeq} is not a balanced boundary "
            ++ "(would split a step's tool-call/result pair)"), p)
        | (.ok true, p) =>
          match p.toolPairingBalancedAfter endSeq with
          | (.error message, p) => (.error message, p)
          | (.ok false, p) =>
            (.error (s!"compactRegion: end seq {endSeq} is not a balanced boundary "
              ++ "(would split a step, or the step is still open)"), p)
          | (.ok true, p) =>
            (.ok ⟨startSeq, endSeq, startIdx, endIdx, (nodes.take (endIdx + 1)).drop startIdx⟩, p)

def tailTokens (pricedNodes : List TokenSurfaceNode) (cut : Nat) : Nat :=
  ((pricedNodes.drop cut).map (·.tokens)).sum

structure WithinBudget (pricedNodes : List TokenSurfaceNode) (retainTokens : Int) (cut : Nat) :
    Prop where
  nonempty : 0 < cut
  retained : cut < pricedNodes.length
  budget : retainTokens ≤ tailTokens pricedNodes cut

def Compactable (events : List SessionEvent) (pricedNodes : List TokenSurfaceNode)
    (retainTokens : Int) (cut : Nat) : Prop :=
  WithinBudget pricedNodes retainTokens cut ∧
    openCalls events ((pricedNodes.map (·.seq)).take cut) = 0

section Walks

variable {pricedNodes : List TokenSurfaceNode} {retainTokens : Int}

theorem tailTokens_eq (pricedNodes : List TokenSurfaceNode) (index : Nat) :
    tailTokens pricedNodes index =
      tailTokens pricedNodes (index + 1) + (pricedNodes[index]?.map (·.tokens)).getD 0 := by
  unfold tailTokens
  rcases Nat.lt_or_ge index pricedNodes.length with hlt | hge
  · rw [List.drop_eq_getElem_cons hlt, List.getElem?_eq_getElem hlt, List.map_cons, List.sum_cons]
    exact Nat.add_comm _ _
  · rw [List.drop_eq_nil_of_le hge, List.drop_eq_nil_of_le (by omega),
      List.getElem?_eq_none hge]
    rfl

theorem budgetWalk_spec (index : Nat) :
    (0 < budgetWalk pricedNodes retainTokens index (tailTokens pricedNodes index) →
      budgetWalk pricedNodes retainTokens index (tailTokens pricedNodes index) < index ∧
        retainTokens ≤ tailTokens pricedNodes
          (budgetWalk pricedNodes retainTokens index (tailTokens pricedNodes index))) ∧
    ∀ cut, budgetWalk pricedNodes retainTokens index (tailTokens pricedNodes index) < cut →
      cut < index → ¬retainTokens ≤ tailTokens pricedNodes cut := by
  induction index with
  | zero =>
    refine ⟨?_, ?_⟩
    · intro h
      cases h
    · intro cut _ hcut
      cases hcut
  | succ index ih =>
    rw [budgetWalk, ← tailTokens_eq]
    by_cases henough : retainTokens ≤ tailTokens pricedNodes index
    · simp only [henough, if_true]
      refine ⟨fun _ => ⟨Nat.lt_succ_self index, trivial⟩, ?_⟩
      intro cut hlt hcut
      omega
    · simp only [henough, if_false]
      obtain ⟨hstop, hnone⟩ := ih
      refine ⟨?_, ?_⟩
      · intro hpos
        obtain ⟨hlt, hbudget⟩ := hstop hpos
        exact ⟨by omega, hbudget⟩
      · intro cut hlt hcut
        by_cases heq : cut = index
        · rw [heq]
          exact henough
        · exact hnone cut hlt (by omega)

theorem tailTokens_length (pricedNodes : List TokenSurfaceNode) :
    tailTokens pricedNodes pricedNodes.length = 0 := by
  simp [tailTokens]

theorem withinBudget_iff {cut : Nat} :
    WithinBudget pricedNodes retainTokens cut ↔
      0 < cut ∧ cut ≤ budgetWalk pricedNodes retainTokens pricedNodes.length 0 := by
  have hspec := @budgetWalk_spec pricedNodes retainTokens pricedNodes.length
  rw [tailTokens_length] at hspec
  obtain ⟨hstop, hnone⟩ := hspec
  constructor
  · rintro ⟨hpos, hlt, hbudget⟩
    refine ⟨hpos, ?_⟩
    by_contra hbeyond
    exact hnone cut (by omega) hlt hbudget
  · rintro ⟨hpos, hle⟩
    obtain ⟨hlt, hbudget⟩ := hstop (by omega)
    refine ⟨hpos, by omega, ?_⟩
    have hmono : ∀ later, cut ≤ later → tailTokens pricedNodes later ≤ tailTokens pricedNodes cut := by
      intro later hlater
      induction hlater with
      | refl => exact Nat.le_refl _
      | @step later _ ih =>
        have hnext := tailTokens_eq pricedNodes later
        show tailTokens pricedNodes (later + 1) ≤ _
        omega
    have hcut := hmono _ hle
    omega

end Walks

section Queries

variable {p : PairedSession} {state : SurfaceFoldState}
  {replacements : List SurfaceFoldReplacement}

theorem eq_of_fst {α β : Type} {pair : α × β} {first : α} (h : pair.1 = first) :
    pair = (first, pair.2) := by
  rw [← h]

variable {index keepFromIdx seq : Nat} {scanned : List Bool × Int}

theorem idxOf?_of_getElem? {nodes : List Nat} (hnodup : nodes.Nodup)
    (h : nodes[index]? = some seq) : nodes.idxOf? seq = some index := by
  obtain ⟨hlt, hget⟩ := List.getElem?_eq_some_iff.mp h
  apply List.idxOf?_eq_some_iff.mpr
  refine ⟨hlt, by simpa using hget, ?_⟩
  intro j hj heq
  have hsame : nodes[j] = nodes[index] := by
    rw [hget]
    simpa using heq
  have hj' : j = index := (List.Nodup.getElem_inj_iff hnodup).mp hsame
  omega

theorem surfaceNodes_spec (h : p.Kept) (hfold : Folds p.events state replacements) :
    p.surfaceNodes.1 = .ok state.nodes ∧ p.surfaceNodes.2.Kept ∧
      p.surfaceNodes.2.events = p.events := by
  obtain ⟨heap, htracks⟩ := h.live.tracks
  exact ⟨readNodes_eq htracks hfold, ⟨h.live.readNodes, h.cached⟩, rfl⟩

theorem cutBalanceAt_of_getElem? (h : p.Kept) (hfold : Folds p.events state replacements)
    (hscan : scanTail p.events state.nodes 0 = .ok scanned) (hseq : state.nodes[index]? = some seq)
    {offset : Nat} (hoffset : offset ≤ 1) :
    (p.cutBalanceAt seq offset).1 =
      .ok (decide (openCalls p.events (state.nodes.take (index + offset)) = 0)) := by
  rw [(cutBalanceAt_spec h hfold seq hoffset).1, fromScratch, hscan,
    idxOf?_of_getElem? hfold.nodup_nodes hseq]

theorem balancedWalk_spec (h : p.Kept) (hfold : Folds p.events state replacements)
    (hscan : scanTail p.events state.nodes 0 = .ok scanned)
    (hkeep : keepFromIdx < state.nodes.length) :
    ∃ cut next, balancedWalk state.nodes keepFromIdx p = (.ok cut, next) ∧ next.Kept ∧
      next.events = p.events ∧ cut ≤ keepFromIdx ∧ openCalls p.events (state.nodes.take cut) = 0 ∧
      ∀ later, cut < later → later ≤ keepFromIdx →
        openCalls p.events (state.nodes.take later) ≠ 0 := by
  induction keepFromIdx generalizing p with
  | zero =>
    refine ⟨0, p, rfl, h, rfl, Nat.le_refl 0, rfl, ?_⟩
    intro later hlt hle
    omega
  | succ keepFromIdx ih =>
    have hseq := List.getElem?_eq_getElem hkeep
    have hanswer : (p.cutBalanceAt state.nodes[keepFromIdx + 1] 0).1 =
        .ok (decide (openCalls p.events (state.nodes.take (keepFromIdx + 1)) = 0)) :=
      cutBalanceAt_of_getElem? h hfold hscan hseq (Nat.zero_le 1)
    obtain ⟨-, hanswered⟩ := cutBalanceAt_spec h hfold
      state.nodes[keepFromIdx + 1] (Nat.zero_le 1)
    rw [balancedWalk, hseq]
    simp only [toolPairingBalancedBefore]
    rw [eq_of_fst hanswer]
    by_cases hzero : openCalls p.events (state.nodes.take (keepFromIdx + 1)) = 0
    · simp only [hzero, decide_true]
      refine ⟨_, _, rfl, hanswered.kept, hanswered.events, Nat.le_refl _, hzero, ?_⟩
      intro later hlt hle
      omega
    · simp only [hzero, decide_false]
      have hevents := hanswered.events
      obtain ⟨cut, next, hwalk, hkept, hnext, hle, hcut, hlater⟩ :=
        ih hanswered.kept (by rwa [hevents]) (by rwa [hevents]) (by omega)
      rw [hevents] at hnext hcut hlater
      refine ⟨cut, next, hwalk, hkept, hnext, by omega, hcut, ?_⟩
      intro later hlt hlaterLe
      by_cases heq : later = keepFromIdx + 1
      · rw [heq]
        exact hzero
      · exact hlater later hlt (by omega)

theorem balancedWalk_corrupt (h : p.Kept) (hfold : Folds p.events state replacements)
    {message : String} (hscan : scanTail p.events state.nodes 0 = .error message)
    (hpos : 0 < keepFromIdx) (hkeep : keepFromIdx < state.nodes.length) :
    (balancedWalk state.nodes keepFromIdx p).1 = .error message := by
  obtain ⟨keepFromIdx, rfl⟩ := Nat.exists_eq_succ_of_ne_zero (Nat.ne_of_gt hpos)
  have hseq := List.getElem?_eq_getElem hkeep
  have hanswer : (p.cutBalanceAt state.nodes[keepFromIdx.succ] 0).1 = .error message := by
    rw [(cutBalanceAt_spec h hfold _ (Nat.zero_le 1)).1, fromScratch, hscan]
  rw [balancedWalk, hseq]
  simp only [toolPairingBalancedBefore]
  rw [eq_of_fst hanswer]

theorem validateSurfaceRegion_head (h : p.Kept) (hfold : Folds p.events state replacements)
    (hscan : scanTail p.events state.nodes 0 = .ok scanned)
    {cutoffIdx first cutoff : Nat} (hfirst : state.nodes[0]? = some first)
    (hcutoff : state.nodes[cutoffIdx]? = some cutoff)
    (hbalanced : openCalls p.events (state.nodes.take (cutoffIdx + 1)) = 0) :
    (validateSurfaceRegion p first cutoff).1 =
      .ok ⟨first, cutoff, 0, cutoffIdx, state.nodes.take (cutoffIdx + 1)⟩ := by
  obtain ⟨hnodes, hkept, hevents⟩ := surfaceNodes_spec h hfold
  have hfold' : Folds p.surfaceNodes.2.events state replacements := by rwa [hevents]
  have hscan' : scanTail p.surfaceNodes.2.events state.nodes 0 = .ok scanned := by rwa [hevents]
  have hbefore := cutBalanceAt_of_getElem? hkept hfold' hscan' hfirst (Nat.zero_le 1)
  obtain ⟨-, hanswered⟩ := cutBalanceAt_spec hkept hfold' first (Nat.zero_le 1)
  have hafter := cutBalanceAt_of_getElem? hanswered.kept (by rwa [hanswered.events])
    (by rwa [hanswered.events]) hcutoff (Nat.le_refl 1)
  rw [hanswered.events, hevents, decide_eq_true hbalanced] at hafter
  have hstart : (p.surfaceNodes.2.cutBalanceAt first 0).1 = .ok true := by
    rw [hbefore]
    rfl
  unfold validateSurfaceRegion
  rw [eq_of_fst hnodes]
  simp only [idxOf?_of_getElem? hfold.nodup_nodes hfirst,
    idxOf?_of_getElem? hfold.nodup_nodes hcutoff, Nat.not_lt_zero, if_false,
    toolPairingBalancedBefore, toolPairingBalancedAfter]
  rw [eq_of_fst hstart]
  simp only
  rw [eq_of_fst hafter]
  simp

section Select

variable {pricedNodes : List TokenSurfaceNode} {retainTokens : Int}

theorem select_cases (h : p.Kept) (hfold : Folds p.events state replacements)
    (hmeasure : pricedNodes.map (·.seq) = state.nodes) (retainTokens : Int) :
    ((selectCompactableRange p pricedNodes retainTokens).1 = .ok none ∧
      ∀ cut, ¬WithinBudget pricedNodes retainTokens cut) ∨
    ∃ keepFromIdx, keepFromIdx < state.nodes.length ∧
      WithinBudget pricedNodes retainTokens keepFromIdx ∧
      (∀ cut, WithinBudget pricedNodes retainTokens cut → cut ≤ keepFromIdx) ∧
      selectCompactableRange p pricedNodes retainTokens =
        match balancedWalk state.nodes keepFromIdx p.surfaceNodes.2 with
        | (.error message, p) => (.error message, p)
        | (.ok 0, p) => (.ok none, p)
        | (.ok (cutoffIdx + 1), p) =>
          (.ok (state.nodes[0]?.bind fun first =>
            state.nodes[cutoffIdx]?.map fun cutoff => ⟨first, cutoff⟩), p) := by
  unfold selectCompactableRange
  by_cases hempty : pricedNodes.length = 0
  · rw [if_pos hempty]
    refine Or.inl ⟨rfl, ?_⟩
    intro cut hcut
    have hlt := hcut.retained
    omega
  rw [if_neg hempty, eq_of_fst (surfaceNodes_spec h hfold).1]
  simp only [hmeasure, ne_eq, not_true_eq_false, if_false]
  by_cases hzero : budgetWalk pricedNodes retainTokens pricedNodes.length 0 = 0
  · rw [if_pos hzero]
    refine Or.inl ⟨rfl, ?_⟩
    intro cut hcut
    have hle := withinBudget_iff.mp hcut
    omega
  · rw [if_neg hzero]
    have hwithin : WithinBudget pricedNodes retainTokens
        (budgetWalk pricedNodes retainTokens pricedNodes.length 0) :=
      withinBudget_iff.mpr ⟨Nat.pos_of_ne_zero hzero, Nat.le_refl _⟩
    refine Or.inr ⟨_, ?_, hwithin, fun cut hcut => (withinBudget_iff.mp hcut).2, rfl⟩
    rw [← hmeasure, List.length_map]
    exact hwithin.retained

theorem select_corrupt (h : p.Kept) (hfold : Folds p.events state replacements)
    (hmeasure : pricedNodes.map (·.seq) = state.nodes) {message : String}
    (hscan : scanTail p.events state.nodes 0 = .error message) :
    ((selectCompactableRange p pricedNodes retainTokens).1 = .ok none ∧
      ∀ cut, ¬WithinBudget pricedNodes retainTokens cut) ∨
    ((selectCompactableRange p pricedNodes retainTokens).1 = .error message ∧
      ∃ cut, WithinBudget pricedNodes retainTokens cut) := by
  obtain ⟨-, hkept, hevents⟩ := surfaceNodes_spec h hfold
  rcases select_cases h hfold hmeasure retainTokens with hnone | ⟨keep, hlt, hwithin, -, heq⟩
  · exact Or.inl hnone
  · refine Or.inr ⟨?_, keep, hwithin⟩
    have hwalk := balancedWalk_corrupt hkept (by rwa [hevents]) (by rwa [hevents])
      hwithin.nonempty hlt
    rw [heq, eq_of_fst hwalk]

theorem select_latest (h : p.Kept) (hfold : Folds p.events state replacements)
    (hmeasure : pricedNodes.map (·.seq) = state.nodes) {scanned : List Bool × Int}
    (hscan : scanTail p.events state.nodes 0 = .ok scanned) :
    ((selectCompactableRange p pricedNodes retainTokens).1 = .ok none ∧
      ∀ cut, ¬Compactable p.events pricedNodes retainTokens cut) ∨
    ∃ cut range, (selectCompactableRange p pricedNodes retainTokens).1 = .ok (some range) ∧
      Compactable p.events pricedNodes retainTokens cut ∧
      (∀ later, cut < later → ¬Compactable p.events pricedNodes retainTokens later) ∧
      state.nodes[0]? = some range.start ∧ state.nodes[cut - 1]? = some range.end ∧
      (validateSurfaceRegion (selectCompactableRange p pricedNodes retainTokens).2
        range.start range.end).1 =
          .ok ⟨range.start, range.end, 0, cut - 1, state.nodes.take cut⟩ := by
  obtain ⟨-, hkept, hevents⟩ := surfaceNodes_spec h hfold
  unfold Compactable
  rw [hmeasure]
  rcases select_cases h hfold hmeasure retainTokens with
    ⟨hnone, hover⟩ | ⟨keep, hlt, hwithin, hlatest, heq⟩
  · exact Or.inl ⟨hnone, fun cut hcut => hover cut hcut.1⟩
  obtain ⟨cut, next, hwalk, hnext, hnextEvents, hle, hbalanced, hlater⟩ :=
    balancedWalk_spec hkept (by rwa [hevents]) (by rwa [hevents]) hlt
  rw [hevents] at hnextEvents hbalanced hlater
  rw [heq, hwalk]
  have hbeyond : ∀ later, cut < later → ¬(WithinBudget pricedNodes retainTokens later ∧
      openCalls p.events (state.nodes.take later) = 0) := by
    rintro later hlt' ⟨hbudget, hzero⟩
    exact hlater later hlt' (hlatest later hbudget) hzero
  cases cut with
  | zero => exact Or.inl ⟨rfl, fun cut hcut => hbeyond cut hcut.1.nonempty hcut⟩
  | succ cutoffIdx =>
    have hfirst := List.getElem?_eq_getElem (show 0 < state.nodes.length by omega)
    have hcutoff := List.getElem?_eq_getElem (show cutoffIdx < state.nodes.length by omega)
    simp only [hfirst, hcutoff, Option.bind_some, Option.map_some]
    refine Or.inr ⟨cutoffIdx + 1, _, rfl, ⟨?_, hbalanced⟩, hbeyond, rfl, hcutoff, ?_⟩
    · apply withinBudget_iff.mpr
      have hkeep := (withinBudget_iff.mp hwithin).2
      omega
    · rw [← hnextEvents] at hfold hscan hbalanced
      exact validateSurfaceRegion_head hnext hfold hscan hfirst hcutoff hbalanced

end Select

end Queries

section Construction

variable {restored : Bool} {seed : Option (List SessionEvent)} {header : Except String Json}
variable {supplied : Option Nat} {now : Clock} {s : Session}

/-- The range lies in front of the latest cut that keeps a tail of the budget and before which every
call is answered; without such a cut nothing is selected. -/
theorem selectCompactableRange_exact
    (h : Session.build restored seed header supplied now = .ok s) {p : PairedSession}
    (hlater : PairedSession.Later ⟨s, none⟩ p) {state : SurfaceFoldState}
    {replacements : List SurfaceFoldReplacement} (hfold : Folds p.events state replacements)
    (pricedNodes : List TokenSurfaceNode) (hmeasure : pricedNodes.map (·.seq) = state.nodes)
    (retainTokens : Int) :
    (∀ scanned, scanTail p.events state.nodes 0 = .ok scanned →
      ((selectCompactableRange p pricedNodes retainTokens).1 = .ok none ∧
        ∀ cut, ¬Compactable p.events pricedNodes retainTokens cut) ∨
      ∃ cut range, (selectCompactableRange p pricedNodes retainTokens).1 = .ok (some range) ∧
        Compactable p.events pricedNodes retainTokens cut ∧
        (∀ later, cut < later → ¬Compactable p.events pricedNodes retainTokens later) ∧
        state.nodes[0]? = some range.start ∧ state.nodes[cut - 1]? = some range.end ∧
        (validateSurfaceRegion (selectCompactableRange p pricedNodes retainTokens).2
          range.start range.end).1 =
            .ok ⟨range.start, range.end, 0, cut - 1, state.nodes.take cut⟩) ∧
    (∀ message, scanTail p.events state.nodes 0 = .error message →
      ((selectCompactableRange p pricedNodes retainTokens).1 = .ok none ∧
        ∀ cut, ¬WithinBudget pricedNodes retainTokens cut) ∨
      ((selectCompactableRange p pricedNodes retainTokens).1 = .error message ∧
        ∃ cut, WithinBudget pricedNodes retainTokens cut)) ∧
    ∀ opening, Mark.Answers (surfaceMarks p.events state.nodes) opening →
      (∃ scanned, scanTail p.events state.nodes 0 = .ok scanned) ∧
      ∀ cut, Compactable p.events pricedNodes retainTokens cut ↔
        WithinBudget pricedNodes retainTokens cut ∧
          Mark.AllClosed (surfaceMarks p.events state.nodes) opening
            (surfaceMarks p.events (state.nodes.take cut)).length := by
  have hkept := PairedSession.Later.kept (kept_create h) hlater
  refine ⟨?_, ?_, ?_⟩
  · intro scanned hscan
    exact select_latest hkept hfold hmeasure hscan
  · intro message hscan
    exact select_corrupt hkept hfold hmeasure hscan
  · intro opening hanswers
    refine ⟨scanTail_ok_of_answers hfold hanswers, ?_⟩
    intro cut
    rw [Compactable, hmeasure, openCalls_take_eq_zero_iff hanswers]

/-- Of two prompts with a price of five each, a budget of five keeps the second. -/
theorem selectCompactableRange_exact_reprompted :
    ∃ cut range,
      (selectCompactableRange repromptedPair [⟨0, 5⟩, ⟨1, 5⟩] 5).1 = .ok (some range) ∧
      (validateSurfaceRegion (selectCompactableRange repromptedPair [⟨0, 5⟩, ⟨1, 5⟩] 5).2
        range.start range.end).1 = .ok ⟨range.start, range.end, 0, cut - 1, [0, 1].take cut⟩ := by
  have hlater : PairedSession.Later ⟨freshSession, none⟩ repromptedPair :=
    .append _ _ _ _ (.balancedAfter _ later_promptedPair)
  obtain ⟨state, replacements, hfold⟩ :=
    (PairedSession.Later.kept (kept_create create_freshSession) hlater).folds
  have hsurface : foldSurface repromptedPair.events = .ok ⟨[0, 1], []⟩ := rfl
  have hnodes : state.nodes = [0, 1] := by
    rw [hfold.foldSurface_eq] at hsurface
    injection hsurface with hresult
    injection hresult
  have hscan : scanTail repromptedPair.events state.nodes 0 = .ok ([true, true], 0) := by
    rw [hnodes]
    rfl
  rcases (selectCompactableRange_exact create_freshSession hlater hfold [⟨0, 5⟩, ⟨1, 5⟩]
    hnodes.symm 5).1 _ hscan with ⟨-, hnone⟩ | ⟨cut, range, hrange, -, -, -, -, hvalid⟩
  · exact absurd ⟨⟨by decide, by decide, by decide⟩, rfl⟩ (hnone 1)
  · rw [hnodes] at hvalid
    exact ⟨cut, range, hrange, hvalid⟩

def orphanedPair : PairedSession :=
  ((⟨freshSession, none⟩ : PairedSession).append
    (.toolResult ⟨.ofNat 1, .ofNat 1, ⟨"m", ⟨"call", [], none⟩, ⟨"call"⟩⟩, none, none⟩)
    { surfaceOp := some (.str "append") } epoch none).append (.userMessage ⟨"prompt", [], .user⟩)
    { surfaceOp := some (.str "append") } epoch none

/-- On a surface with a result that answers no call the selection gives neither a range nor
nothing. -/
theorem select_throws_on_orphan :
    PairedSession.Later ⟨freshSession, none⟩ orphanedPair ∧
      foldSurface orphanedPair.events = .ok ⟨[0, 1], []⟩ ∧
      ∃ message, (selectCompactableRange orphanedPair [⟨0, 5⟩, ⟨1, 5⟩] 5).1 = .error message :=
  ⟨.append _ _ _ _ (.append _ _ _ _ (.refl _)), rfl, _, rfl⟩

end Construction

end DshKernel.Compaction
