import DshKernel.Session.Provenance

/-!
# `RuntimeContextProjection`

The last snapshot of the runtime context that the model still sees. A projection searches the log
for it once, and follows the events of the session from there on.
-/

namespace DshKernel.Agent

open Js Session List

def contextSource : String := "@deepseek-ai/dsh-system-prompt"

def clearedText : String :=
  "Current runtime context: none. Earlier runtime-context snapshots no longer apply."

def isOwned (message : UserMessage) : Bool :=
  match message.source with
  | .plugin plugin _ => plugin == contextSource
  | _ => false

def textOf (message : UserMessage) : Option String :=
  match message.content with
  | [.text text] => some text
  | _ => none

def ownedMessage (event : SessionEvent) : Option UserMessage :=
  match event.data with
  | .userMessage message => if isOwned message then some message else none
  | _ => none

/-- `retained`: `undefined` when no snapshot ever existed, `null` when none is retained. -/
inductive Retained where
  | undefined
  | null
  | snapshot (seq : Nat) (text : Option String)
  deriving DecidableEq, Repr

/-- `retained ??= null` -/
def Retained.orNull : Retained → Retained
  | .undefined => .null
  | retained => retained

/-- `sourceEventSeqs?.includes(seq) === true` -/
def includesSeq (sourceEventSeqs : Option Json) (seq : Nat) : Bool :=
  match sourceEventSeqs with
  | some (.arr sources) => sources.any fun source =>
    match source with
    | .num value => value.strictEq (.ofNat seq)
    | _ => false
  | _ => false

namespace RuntimeContextProjection

def restoreLoop (surface : List Nat) : List SessionEvent → Retained → Retained
  | [], retained => retained
  | event :: earlier, retained =>
    match ownedMessage event with
    | none => restoreLoop surface earlier retained
    | some message =>
      if surface.contains event.seq then .snapshot event.seq (textOf message)
      else restoreLoop surface earlier retained.orNull

def restore (surface : List Nat) (log : List SessionEvent) : Retained :=
  restoreLoop surface log.reverse .undefined

/-- The listener for `session/event`. -/
def follow (event : SessionEvent) (retained : Retained) : Retained :=
  match ownedMessage event with
  | some message => .snapshot event.seq (textOf message)
  | none =>
    match retained with
    | .snapshot seq _ =>
      if isReplacementSurfaceEvent event && includesSeq event.sourceEventSeqs seq then .null
      else retained
    | _ => retained

def snapshotText (current : String) : String := if current.length = 0 then clearedText else current

/-- The message to commit, under the id that `createUserMessage` draws. -/
def project (id current : String) (sections : List Json) (retained : Retained) :
    Option UserMessage :=
  if retained = .undefined ∧ current.length = 0 then none
  else
    let message : UserMessage := {
      id, content := [.text (snapshotText current)]
      source := .plugin contextSource <|
        if sections.length = 0 then []
        else [("form", .str "snapshot"), ("sections", .arr sections)] }
    match retained with
    | .snapshot _ (some text) => if text = snapshotText current then none else some message
    | _ => some message

end RuntimeContextProjection

open RuntimeContextProjection

def newestSnapshot (surface : List Nat) (log : List SessionEvent) : Option SessionEvent :=
  log.reverse.find? fun event => (ownedMessage event).isSome && surface.contains event.seq

section Follow

variable {event : SessionEvent} {retained : Retained}

theorem follow_owned {message : UserMessage} (howned : ownedMessage event = some message) :
    follow event retained = .snapshot event.seq (textOf message) := by
  simp [follow, howned]

theorem follow_undefined (howned : ownedMessage event = none) :
    follow event .undefined = .undefined := by
  simp [follow, howned]

theorem follow_null (howned : ownedMessage event = none) : follow event .null = .null := by
  simp [follow, howned]

theorem follow_snapshot {seq : Nat} {text : Option String} (howned : ownedMessage event = none) :
    follow event (.snapshot seq text) =
      if isReplacementSurfaceEvent event && includesSeq event.sourceEventSeqs seq then .null
      else .snapshot seq text := by
  simp [follow, howned]

end Follow

section Restore

variable {surface later : List Nat} {log : List SessionEvent} {event : SessionEvent}

theorem restoreLoop_eq (surface : List Nat) (events : List SessionEvent) (retained : Retained) :
    restoreLoop surface events retained =
      match events.find? fun event => (ownedMessage event).isSome && surface.contains event.seq with
      | some event => .snapshot event.seq ((ownedMessage event).bind textOf)
      | none => if events.any fun event => (ownedMessage event).isSome then retained.orNull
        else retained := by
  induction events generalizing retained with
  | nil => rfl
  | cons event earlier ih =>
    rw [restoreLoop, find?_cons, any_cons]
    cases howned : ownedMessage event with
    | none => simpa using ih retained
    | some message =>
      have htwice : retained.orNull.orNull = retained.orNull := by
        cases retained <;> rfl
      by_cases hmem : event.seq ∈ surface
      · simp [hmem, howned]
      · simp [hmem, ih, htwice]

theorem restore_eq (surface : List Nat) (log : List SessionEvent) :
    restore surface log =
      match newestSnapshot surface log with
      | some event => .snapshot event.seq ((ownedMessage event).bind textOf)
      | none => if log.any fun event => (ownedMessage event).isSome then .null else .undefined := by
  rw [restore, restoreLoop_eq, newestSnapshot, any_reverse]
  rfl

theorem restore_of_some (h : newestSnapshot surface log = some event) :
    restore surface log = .snapshot event.seq ((ownedMessage event).bind textOf) := by
  rw [restore_eq, h]

theorem restore_of_none (h : newestSnapshot surface log = none) :
    restore surface log =
      if log.any fun event => (ownedMessage event).isSome then .null else .undefined := by
  rw [restore_eq, h]

theorem newestSnapshot_snoc (howned : ownedMessage event = none) :
    newestSnapshot surface (log ++ [event]) = newestSnapshot surface log := by
  rw [newestSnapshot, reverse_append, reverse_singleton, singleton_append,
    find?_cons, howned]
  rfl

theorem any_snoc (howned : ownedMessage event = none) :
    ((log ++ [event]).any fun event => (ownedMessage event).isSome) =
      log.any fun event => (ownedMessage event).isSome := by
  simp [howned]

theorem newestSnapshot_eq_none :
    newestSnapshot surface log = none ↔
      ∀ event ∈ log, (ownedMessage event).isSome → event.seq ∉ surface := by
  simp [newestSnapshot, find?_eq_none]

theorem newestSnapshot_of_subset
    (hsubset : ∀ event ∈ log, event.seq ∈ later → event.seq ∈ surface)
    (h : newestSnapshot surface log = some event) (hmem : event.seq ∈ later) :
    newestSnapshot later log = some event := by
  unfold newestSnapshot at h ⊢
  obtain ⟨hholds, newer, older, hsplit, hnewer⟩ := find?_eq_some_iff_append.mp h
  rw [find?_eq_some_iff_append]
  simp only [Bool.and_eq_true, contains_iff_mem] at hholds ⊢
  refine ⟨⟨hholds.1, hmem⟩, newer, older, hsplit, ?_⟩
  intro other hother
  have hlog : other ∈ log := by
    rw [← mem_reverse, hsplit]
    exact mem_append_left _ hother
  have hnot := hnewer other hother
  simp only [Bool.not_eq_true', Bool.and_eq_false_iff] at hnot ⊢
  rcases hnot with hnot | hnot
  · exact Or.inl hnot
  · refine Or.inr ?_
    by_contra hcontains
    rw [Bool.not_eq_false, contains_iff_mem] at hcontains
    rw [contains_eq_mem, decide_eq_false_iff_not] at hnot
    exact hnot (hsubset other hlog hcontains)

end Restore

inductive LiveRun
    (allowed : List SessionEvent → Retained → SessionEvent → SurfaceFoldState → Prop) :
    List SessionEvent → SurfaceFoldState → Retained → Prop where
  | start {log : List SessionEvent} {state : SurfaceFoldState}
      {replacements : List SurfaceFoldReplacement} (h : Folds log state replacements) :
      LiveRun allowed log state (restore state.nodes log)
  | step {log : List SessionEvent} {state : SurfaceFoldState} {live : Retained}
      {event : SessionEvent} {plan : Option SurfacePlan} (h : LiveRun allowed log state live)
      (hle : log.length ≤ maxSafeInteger)
      (hplan : planSurfaceEvent state event log.length log 0 = .ok plan)
      (hallowed : allowed log live event (applySurfacePlan state plan).1) :
      LiveRun allowed (log ++ [event]) (applySurfacePlan state plan).1 (follow event live)

def LeavesNoSnapshot (log : List SessionEvent) (live : Retained) (event : SessionEvent)
    (after : SurfaceFoldState) : Prop :=
  ∀ seq text, live = .snapshot seq text → ownedMessage event = none →
    isReplacementSurfaceEvent event = true → includesSeq event.sourceEventSeqs seq = true →
      newestSnapshot after.nodes log = none

section Runs

variable {log : List SessionEvent} {state : SurfaceFoldState} {live : Retained}
  {event : SessionEvent} {plan : Option SurfacePlan}

theorem includesSeq_of_citedSources {sources : List Nat} {seq : Nat}
    (h : citedSources event = .ok sources) (hmem : seq ∈ sources) :
    includesSeq event.sourceEventSeqs seq = true := by
  have hread : ∀ (raw : List Json) (found : List Nat), readSources event.type raw = .ok found →
      seq ∈ found → includesSeq (some (.arr raw)) seq = true := by
    intro raw
    induction raw with
    | nil =>
      intro found hfound hseq
      cases hfound
      cases hseq
    | cons item rest ih =>
      intro found hfound hseq
      rw [readSources] at hfound
      split at hfound
      · cases hfound
      rename_i first hfirst
      split at hfound
      · cases hfound
      rename_i others hothers
      cases hfound
      rw [includesSeq, any_cons, Bool.or_eq_true]
      rcases mem_cons.mp hseq with rfl | hseq
      · left
        unfold isEventSeq at hfirst
        split at hfirst
        · rename_i z
          split at hfirst
          · rename_i hz
            cases hfirst
            simp only [Number.strictEq, Number.ofNat, Integral.strictEq, Integral.toInt_int,
              beq_iff_eq]
            omega
          · cases hfirst
        · cases hfirst
      · exact Or.inr (ih others hothers hseq)
  unfold citedSources at h
  split at h
  · cases h
    cases hmem
  · rename_i raw hraw
    rw [hraw]
    split at h
    · cases h
    split at h
    · cases h
    rename_i found hfound
    split at h
    · cases h
    split at h
    · cases h
    cases h
    exact hread raw _ hfound hmem
  · cases h

theorem exists_plan_of_owned {message : UserMessage} (howned : ownedMessage event = some message)
    (hplan : planSurfaceEvent state event log.length log 0 = .ok plan) :
    log.length ∈ (applySurfacePlan state plan).1.nodes := by
  have htype : isSurfaceEligibleType event.type = true := by
    unfold ownedMessage at howned
    split at howned
    · rename_i found hdata
      simp [SessionEvent.type, hdata, EventData.type, isSurfaceEligibleType, surfaceEventTypes]
    · cases howned
  obtain ⟨-, ⟨rfl, hop⟩ | ⟨rfl, -⟩ | ⟨startSeq, endSeq, range, rfl, -⟩⟩ := planSurfaceEvent_cases hplan
  · rcases surfaceOpOf_cases hop with ⟨-, hnot, -⟩ | ⟨-, raw, -, ⟨hne, -⟩ | ⟨_, _, hne, -⟩⟩
    · rw [htype] at hnot
      cases hnot
    · cases hne
    · cases hne
  · simp [applySurfacePlan]
  · simp [applySurfacePlan]

theorem nodes_of_plan (hplan : planSurfaceEvent state event log.length log 0 = .ok plan) :
    (∀ seq ∈ (applySurfacePlan state plan).1.nodes, seq ∈ state.nodes ∨ seq = log.length) ∧
      ∀ seq ∈ state.nodes, seq ∉ (applySurfacePlan state plan).1.nodes →
        isReplacementSurfaceEvent event = true ∧ includesSeq event.sourceEventSeqs seq = true := by
  have hreplaces := (isReplacementSurfaceEvent_of_plan hplan).1
  obtain ⟨-, ⟨rfl, -⟩ | ⟨rfl, -⟩ | ⟨startSeq, endSeq, range, rfl, -, hrange, hprovenance, -⟩⟩ :=
    planSurfaceEvent_cases hplan
  · exact ⟨fun seq hseq => .inl hseq, fun seq hseq hnot => absurd hseq hnot⟩
  · refine ⟨fun seq hseq => ?_, fun seq hseq hnot => ?_⟩
    · simpa [applySurfacePlan] using hseq
    · exact absurd (mem_append_left _ hseq) hnot
  · constructor
    · intro seq hseq
      rcases mem_append.mp hseq with hseq | hseq
      · exact .inl (mem_of_mem_take hseq)
      · rcases mem_cons.mp hseq with hseq | hseq
        · exact .inr hseq
        · exact .inl (mem_of_mem_drop hseq)
    · intro seq hseq hnot
      refine ⟨hreplaces.mp rfl, ?_⟩
      obtain ⟨sources, hsources, hcited⟩ := citedSources_of_provenance hprovenance
      apply includesSeq_of_citedSources hsources
      apply hcited
      rw [nodes_eq_of_range hrange, mem_append, mem_append] at hseq
      rcases hseq with hseq | hseq | hseq
      · exact absurd (mem_append_left _ hseq) hnot
      · exact hseq
      · exact absurd (mem_append_right _ (mem_cons_of_mem _ hseq)) hnot

theorem follow_restore {replacements : List SurfaceFoldReplacement} (h : Folds log state replacements)
    (hplan : planSurfaceEvent state event log.length log 0 = .ok plan)
    (hleaves : LeavesNoSnapshot log (restore state.nodes log) event (applySurfacePlan state plan).1) :
    follow event (restore state.nodes log) =
      restore (applySurfacePlan state plan).1.nodes (log ++ [event]) := by
  obtain ⟨hnodes, hcited⟩ := nodes_of_plan hplan
  have hsubset : ∀ earlier ∈ log, earlier.seq ∈ (applySurfacePlan state plan).1.nodes →
      earlier.seq ∈ state.nodes := by
    intro earlier hmem hseq
    obtain ⟨i, hi, rfl⟩ := mem_iff_getElem.mp hmem
    rw [h.seq_eq i hi] at hseq ⊢
    rcases hnodes i hseq with hold | hnew
    · exact hold
    · omega
  cases howned : ownedMessage event with
  | some message =>
    have hnew : event.seq ∈ (applySurfacePlan state plan).1.nodes := by
      rw [(planSurfaceEvent_cases hplan).1]
      exact exists_plan_of_owned howned hplan
    have hnewest : newestSnapshot (applySurfacePlan state plan).1.nodes (log ++ [event]) = some event := by
      simp [newestSnapshot, howned, hnew]
    rw [restore_of_some hnewest, follow_owned howned, howned]
    rfl
  | none =>
    have hlater := @newestSnapshot_snoc (applySurfacePlan state plan).1.nodes log event howned
    cases hnewest : newestSnapshot state.nodes log with
    | none =>
      have hstill : newestSnapshot (applySurfacePlan state plan).1.nodes log = none := by
        rw [newestSnapshot_eq_none] at hnewest ⊢
        exact fun earlier hmem hsome hseq => hnewest earlier hmem hsome (hsubset earlier hmem hseq)
      rw [restore_of_none hnewest, restore_of_none (hlater.trans hstill), any_snoc howned]
      split
      · exact follow_null howned
      · exact follow_undefined howned
    | some newest =>
      rw [restore_of_some hnewest] at hleaves ⊢
      obtain ⟨hholds, -⟩ := find?_eq_some_iff_append.mp hnewest
      simp only [Bool.and_eq_true, contains_iff_mem] at hholds
      have hany : (log.any fun event => (ownedMessage event).isSome) = true :=
        any_eq_true.mpr ⟨newest, by
          rw [← mem_reverse]
          exact mem_of_find?_eq_some hnewest, hholds.1⟩
      rw [follow_snapshot howned]
      split
      · rename_i hcites
        rw [Bool.and_eq_true] at hcites
        have hgone := hleaves _ _ rfl howned hcites.1 hcites.2
        rw [restore_of_none (hlater.trans hgone), any_snoc howned, if_pos hany]
      · rename_i hkept
        have hmem : newest.seq ∈ (applySurfacePlan state plan).1.nodes := by
          by_contra hgone
          exact hkept (Bool.and_eq_true_iff.mpr (hcited _ hholds.2 hgone))
        rw [restore_of_some (hlater.trans (newestSnapshot_of_subset hsubset hnewest hmem))]

theorem LiveRun.folds {allowed : List SessionEvent → Retained → SessionEvent → SurfaceFoldState → Prop}
    (h : LiveRun allowed log state live) : ∃ replacements, Folds log state replacements := by
  induction h with
  | start h => exact ⟨_, h⟩
  | step _ hle hplan _ ih =>
    obtain ⟨replacements, hfolds⟩ := ih
    exact ⟨_, hfolds.snoc hle hplan⟩

theorem LiveRun.eq_restore (h : LiveRun LeavesNoSnapshot log state live) :
    live = restore state.nodes log := by
  induction h with
  | start h => rfl
  | step h hle hplan hallowed ih =>
    obtain ⟨replacements, hfolds⟩ := h.folds
    subst ih
    exact follow_restore hfolds hplan hallowed

theorem project_eq_none_iff {id current : String} {sections : List Json} {retained : Retained} :
    project id current sections retained = none ↔
      (retained = .undefined ∧ current.length = 0) ∨
        ∃ seq, retained = .snapshot seq (some (snapshotText current)) := by
  unfold project
  by_cases hfirst : retained = .undefined ∧ current.length = 0
  · simp [hfirst]
  · rw [if_neg hfirst]
    cases retained with
    | undefined => simpa using hfirst
    | null => simp
    | snapshot seq text =>
      cases text with
      | none => simp
      | some text => simp

/-- As long as no replacement that cites the remembered snapshot leaves one on the surface, a
projection decides as one that is constructed anew. -/
theorem live_projects_as_restored (log : List SessionEvent) (state : SurfaceFoldState)
    (live : Retained) (h : LiveRun LeavesNoSnapshot log state live) :
    (∀ id current sections, project id current sections live =
      project id current sections (restore state.nodes log)) ∧
    ∀ id current sections, project id current sections live = none →
      (∃ event message, newestSnapshot state.nodes log = some event ∧
        ownedMessage event = some message ∧ textOf message = some (snapshotText current)) ∨
      ((∀ event ∈ log, ownedMessage event = none) ∧ current = "") := by
  have hlive := h.eq_restore
  refine ⟨fun id current sections => by rw [hlive], ?_⟩
  intro id current sections hnone
  rw [hlive, project_eq_none_iff, restore_eq] at hnone
  cases hnewest : newestSnapshot state.nodes log with
  | some event =>
    rw [hnewest] at hnone
    obtain ⟨hholds, -⟩ := find?_eq_some_iff_append.mp hnewest
    obtain ⟨message, howned⟩ := Option.isSome_iff_exists.mp (Bool.and_eq_true_iff.mp hholds).1
    rcases hnone with ⟨hundefined, -⟩ | ⟨seq, hsnapshot⟩
    · cases hundefined
    · injection hsnapshot with hseq htext
      rw [howned] at htext
      exact .inl ⟨event, message, rfl, howned, htext⟩
  | none =>
    rw [hnewest] at hnone
    dsimp only at hnone
    split at hnone
    · rcases hnone with ⟨hundefined, -⟩ | ⟨seq, hsnapshot⟩
      · cases hundefined
      · cases hsnapshot
    · rename_i hany
      rcases hnone with ⟨-, hempty⟩ | ⟨seq, hsnapshot⟩
      · refine .inr ⟨fun event hmem => ?_, by simpa using hempty⟩
        by_contra hsome
        exact hany (any_eq_true.mpr ⟨event, hmem, Option.isSome_iff_ne_none.mpr hsome⟩)
      · cases hsnapshot

end Runs

def contextAt (seq : Nat) (text : String) : SessionEvent :=
  { seq, time := .ofNat 0, data := .userMessage ⟨"context", [.text text], .plugin contextSource []⟩,
    surfaceOp := some (.str "append") }

/-- A summary in the place of the node `seq`, directly after it. -/
def summaryOf (seq : Nat) : SessionEvent :=
  { seq := seq + 1, time := .ofNat 0
    data := .userMessage ⟨"summary", [.text "Summary"], .plugin "compaction" []⟩
    sourceEventSeqs := some (.arr [.ofNat seq])
    surfaceOp := some (.obj [("op", .str "replace"), ("start", .ofNat seq), ("end", .ofNat seq)]) }

theorem live_projects_as_restored_summarized :
    project "next" "Policy" [] .null =
      project "next" "Policy" [] (restore [1] [contextAt 0 "Policy", summaryOf 0]) := by
  have h0 : LiveRun LeavesNoSnapshot [] createFoldState (restore [] []) := .start .nil
  have h1 := @LiveRun.step _ _ _ _ (contextAt 0 "Policy") (some (.append 0)) h0 (Nat.zero_le _) rfl
    fun _ _ _ howned => by cases howned
  have h2 := @LiveRun.step _ _ _ _ (summaryOf 0) (some (.replace 1 0 0 ⟨0, 0, [0]⟩)) h1 (by decide) rfl
    fun _ _ _ _ _ _ => rfl
  exact (live_projects_as_restored _ _ _ h2).1 "next" "Policy" []

/-- A projection that saw a newer snapshot summarized forgets the older one, which a new projection
finds. -/
theorem live_forgets_older_snapshot :
    (¬ ∀ log state live, LiveRun (fun _ _ _ _ => True) log state live →
      ∀ id current sections, project id current sections live =
        project id current sections (restore state.nodes log)) ∧
    ¬ ∀ log state live, LiveRun (fun _ _ _ _ => True) log state live →
      ∀ id current sections, project id current sections live = none →
        (∃ event message, newestSnapshot state.nodes log = some event ∧
          ownedMessage event = some message ∧ textOf message = some current) ∨
        (newestSnapshot state.nodes log = none ∧ current = "") := by
  have h0 : LiveRun (fun _ _ _ _ => True) [] createFoldState (restore [] []) := .start .nil
  constructor
  · intro hall
    have h1 := @LiveRun.step _ _ _ _ (contextAt 0 "A") (some (.append 0)) h0 (Nat.zero_le _) rfl trivial
    have h2 := @LiveRun.step _ _ _ _ (contextAt 1 "B") (some (.append 1)) h1 (by decide) rfl trivial
    have h3 := @LiveRun.step _ _ _ _ (summaryOf 1) (some (.replace 2 1 1 ⟨1, 1, [1]⟩)) h2 (by decide) rfl
      trivial
    have hsame := hall _ _ _ h3 "next" "A" []
    have hrestored : restore [0, 2] [contextAt 0 "A", contextAt 1 "B", summaryOf 1] =
        .snapshot 0 (some "A") := rfl
    have hsilent := hsame.trans ((congrArg (project "next" "A" []) hrestored).trans
      (project_eq_none_iff.mpr (.inr ⟨0, rfl⟩)))
    rcases project_eq_none_iff.mp hsilent with ⟨hundefined, -⟩ | ⟨seq, hsnapshot⟩
    · exact absurd hundefined (by decide)
    · cases hsnapshot
  · intro hall
    have h1 := @LiveRun.step _ _ _ _ (contextAt 0 clearedText) (some (.append 0)) h0 (Nat.zero_le _) rfl
      trivial
    have hsilent : project "next" "" [] (.snapshot 0 (some clearedText)) = none :=
      project_eq_none_iff.mpr (.inr ⟨0, rfl⟩)
    rcases hall _ _ _ h1 "next" "" [] hsilent with ⟨event, message, hnewest, howned, htext⟩ | ⟨hnone, -⟩
    · cases hnewest
      cases howned
      exact absurd (Option.some.inj htext) (by decide)
    · cases hnone

end DshKernel.Agent
