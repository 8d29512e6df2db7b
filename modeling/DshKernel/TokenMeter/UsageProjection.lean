import DshKernel.TokenMeter.TurnUsage
import DshKernel.Session.Trace

/-!
# The accumulated usage

The projection adds usage reports event by event, with a slot for the report that a later one of the
attempt replaces. Over a turn that can be accounted for it grows by what the turn has used.
-/

namespace DshKernel.TokenMeter

open Js Session List

structure TokenUsageProjection where
  uncachedInputTokens : Number
  outputTokens : Number
  cacheReadTokens : Number
  cacheWriteTokens : Number
  deriving DecidableEq, Repr

def zeroBuckets : TokenUsageProjection := ⟨.ofNat 0, .ofNat 0, .ofNat 0, .ofNat 0⟩

def bucketsFrom (usage : TokenUsage) : TokenUsageProjection where
  uncachedInputTokens := usage.inputTokens
  outputTokens := usage.outputTokens
  cacheReadTokens := usage.cacheReadTokens.getD (.ofNat 0)
  cacheWriteTokens := usage.cacheWriteTokens.getD (.ofNat 0)

def bucketsEqual (left right : TokenUsageProjection) : Bool :=
  left.uncachedInputTokens.strictEq right.uncachedInputTokens
    && left.outputTokens.strictEq right.outputTokens
    && left.cacheReadTokens.strictEq right.cacheReadTokens
    && left.cacheWriteTokens.strictEq right.cacheWriteTokens

structure LastUsage where
  turn : Number
  step : Number
  buckets : TokenUsageProjection
  deriving DecidableEq, Repr

structure TokenUsageState where
  totals : TokenUsageProjection := zeroBuckets
  last : Option LastUsage := none
  deriving DecidableEq, Repr

/-- `state.last` when it is the report of this attempt. -/
def lastAt (state : TokenUsageState) (turn step : Number) : Option LastUsage :=
  state.last.filter fun last => last.turn.strictEq turn && last.step.strictEq step

section Apply

variable (A : Arithmetic)

def addReplacing (totals : TokenUsageProjection) (previous : Option TokenUsageProjection)
    (next : TokenUsageProjection) : TokenUsageProjection :=
  let replaced := previous.getD zeroBuckets
  { uncachedInputTokens := A.add (A.sub totals.uncachedInputTokens replaced.uncachedInputTokens)
      next.uncachedInputTokens
    outputTokens := A.add (A.sub totals.outputTokens replaced.outputTokens) next.outputTokens
    cacheReadTokens := A.add (A.sub totals.cacheReadTokens replaced.cacheReadTokens)
      next.cacheReadTokens
    cacheWriteTokens := A.add (A.sub totals.cacheWriteTokens replaced.cacheWriteTokens)
      next.cacheWriteTokens }

/-- A report of the attempt at `turn` and `step`. -/
def addReport (state : TokenUsageState) (turn step : Number) (usage : TokenUsage) :
    TokenUsageState :=
  let buckets := bucketsFrom usage
  let previous := (lastAt state turn step).map (·.buckets)
  if previous.any fun previous => bucketsEqual previous buckets then state
  else ⟨addReplacing A state.totals previous buckets, some ⟨turn, step, buckets⟩⟩

/-- `tokenUsageProjectionDefinition.apply` -/
def applyTokenUsage (state : TokenUsageState) (event : SessionEvent) : TokenUsageState :=
  match event.data with
  | .extension type data =>
    if type.val = "llm/retry-started" then
      match retryPlace data with
      | some (turn, step) =>
        if (lastAt state turn step).isSome then { state with last := none } else state
      | none => state
    else state
  | .assistantChunk turn step chunk =>
    match chunkUsage chunk with
    | some usage => addReport A state turn step usage
    | none => state
  | .assistantMessage data =>
    match data.usage with
    | some usage => addReport A state data.turn data.step usage
    | none => state
  | _ => state

def foldTokenUsage (log : List SessionEvent) : TokenUsageState :=
  log.foldl (applyTokenUsage A) {}

end Apply

inductive Bucket where
  | uncachedInput
  | output
  | cacheRead
  | cacheWrite
  deriving DecidableEq

namespace Bucket

def of : Bucket → TokenUsageProjection → Number
  | .uncachedInput => (·.uncachedInputTokens)
  | .output => (·.outputTokens)
  | .cacheRead => (·.cacheReadTokens)
  | .cacheWrite => (·.cacheWriteTokens)

def ofAttempt : Bucket → NormalizedAttempt → Int
  | .uncachedInput => (·.inputTokens.toInt)
  | .output => (·.outputTokens.toInt)
  | .cacheRead => (countOr ·.cacheReadTokens)
  | .cacheWrite => (countOr ·.cacheWriteTokens)

def ofTurn : Bucket → TurnTokenUsage → Option Integral
  | .uncachedInput => (some ·.uncachedInputTokens)
  | .output => (some ·.outputTokens)
  | .cacheRead => (·.cacheReadTokens)
  | .cacheWrite => (·.cacheWriteTokens)

end Bucket

def Counted (usage : TokenUsage) : Prop :=
  ∀ bucket : Bucket, (isCount (bucket.of (bucketsFrom usage))).isSome = true

def ReportsCounts (event : SessionEvent) : Prop :=
  match event.data with
  | .assistantChunk _ _ chunk =>
    isUsageChunk chunk = true → ∃ usage, chunkUsage chunk = some usage ∧ Counted usage
  | .assistantMessage data => ∀ usage, data.usage = some usage → Counted usage
  | _ => True

def SafeTotals (state : TokenUsageState) : Prop :=
  ∀ bucket : Bucket, (bucket.of state.totals).isSafeInteger = true

def Denotes (number : Number) (value : Nat) : Prop := number.strictEq (.ofNat value) = true

section Denotes

variable {a b : Number} {k m : Nat}

theorem denotes_iff : Denotes a k ↔ ∃ x, a = .integral x ∧ x.toInt = k := by
  unfold Denotes
  cases a with
  | integral x => simp [Number.strictEq, Number.ofNat, Integral.strictEq]
  | fractional bits => simp [Number.strictEq, Number.ofNat]
  | infinity negative => simp [Number.strictEq, Number.ofNat]
  | nan => simp [Number.strictEq]

theorem Denotes.strictEq_iff (h : Denotes a k) : a.strictEq b = true ↔ Denotes b k := by
  rw [denotes_iff] at h ⊢
  obtain ⟨x, rfl, hx⟩ := h
  cases b with
  | integral y =>
    simp only [Number.strictEq, Integral.strictEq, beq_iff_eq, Number.integral.injEq, hx]
    constructor
    · exact fun heq => ⟨y, rfl, heq.symm⟩
    · rintro ⟨_, rfl, heq⟩
      exact heq.symm
  | _ => simp [Number.strictEq]

theorem Denotes.of_strictEq (h : Denotes b k) (heq : a.strictEq b = true) : Denotes a k := by
  rw [denotes_iff] at h ⊢
  obtain ⟨y, rfl, hy⟩ := h
  cases a with
  | integral x =>
    simp only [Number.strictEq, Integral.strictEq, beq_iff_eq] at heq
    exact ⟨x, rfl, heq.trans hy⟩
  | _ => simp [Number.strictEq] at heq

theorem Denotes.unique (h : Denotes a k) (h' : Denotes a m) : k = m := by
  rw [denotes_iff] at h h'
  obtain ⟨x, rfl, hx⟩ := h
  obtain ⟨_, heq, hy⟩ := h'
  cases heq
  omega

end Denotes

/-- The open turn and step have the next numbers, and the last report is of an attempt that is no
later than them. -/
structure Numbered (trace : SessionTrace) (last : Option LastUsage) : Prop where
  openTurn : ∀ turn, trace.openTurn = some turn → Denotes turn trace.nextTurn
  openStep : ∀ step, trace.openStep = some step →
    Denotes step trace.nextStep ∧ trace.openTurn.isSome = true
  last : ∀ report, last = some report → ∃ turn step,
    Denotes report.turn turn ∧ Denotes report.step step ∧
      (turn < trace.nextTurn ∨ turn = trace.nextTurn ∧ trace.openTurn.isSome = true ∧
        (step < trace.nextStep ∨ step = trace.nextStep ∧ trace.openStep.isSome = true))

section Trace

variable {A : Arithmetic} {trace next : SessionTrace} {event : SessionEvent}
  {state : TokenUsageState} {last : Option LastUsage}

theorem last_addReport (A : Arithmetic) (state : TokenUsageState) (turn step : Number)
    (usage : TokenUsage) :
    (addReport A state turn step usage).last = state.last ∨
      (addReport A state turn step usage).last = some ⟨turn, step, bucketsFrom usage⟩ := by
  unfold addReport
  simp only
  split
  · exact Or.inl rfl
  · exact Or.inr rfl

theorem last_applyTokenUsage (A : Arithmetic) (state : TokenUsageState) (event : SessionEvent) :
    (applyTokenUsage A state event).last = state.last ∨
      (applyTokenUsage A state event).last = none ∨
      ∃ turn step buckets, (applyTokenUsage A state event).last = some ⟨turn, step, buckets⟩ ∧
        ((∃ chunk, event.data = .assistantChunk turn step chunk) ∨
          ∃ data, event.data = .assistantMessage data ∧ data.turn = turn ∧ data.step = step) := by
  unfold applyTokenUsage
  cases hdata : event.data with
  | extension type data =>
    simp only
    split
    · split
      · split
        · exact Or.inr (Or.inl rfl)
        · exact Or.inl rfl
      · exact Or.inl rfl
    · exact Or.inl rfl
  | assistantChunk turn step chunk =>
    simp only
    split
    · rename_i usage _
      rcases last_addReport A state turn step usage with h | h
      · exact Or.inl h
      · exact Or.inr (Or.inr ⟨turn, step, _, h, Or.inl ⟨chunk, rfl⟩⟩)
    · exact Or.inl rfl
  | assistantMessage data =>
    simp only
    split
    · rename_i usage _
      rcases last_addReport A state data.turn data.step usage with h | h
      · exact Or.inl h
      · exact Or.inr (Or.inr ⟨_, _, _, h, Or.inr ⟨data, rfl, rfl, rfl⟩⟩)
    · exact Or.inl rfl
  | _ => exact Or.inl rfl

theorem exists_of_isOpen {value : Number} {number : Option Number}
    (h : isOpen number value = true) : ∃ n, number = some n ∧ n.strictEq value = true := by
  cases number with
  | none => cases h
  | some n => exact ⟨n, rfl, h⟩

namespace Numbered

theorem of_last_eq (h : Numbered trace last) {last' : Option LastUsage}
    (hlast : last' = last ∨ last' = none) : Numbered trace last' := by
  refine ⟨h.openTurn, h.openStep, ?_⟩
  rcases hlast with rfl | rfl
  · exact h.last
  · intro report hreport
    cases hreport

theorem denotes_of_isOpen (h : Numbered trace last) {turn step : Number}
    (hturn : isOpen trace.openTurn turn = true) (hstep : isOpen trace.openStep step = true) :
    Denotes turn trace.nextTurn ∧ Denotes step trace.nextStep ∧
      trace.openTurn.isSome = true ∧ trace.openStep.isSome = true := by
  obtain ⟨n, hn, hnturn⟩ := exists_of_isOpen hturn
  obtain ⟨m, hm, hmstep⟩ := exists_of_isOpen hstep
  exact ⟨(h.openTurn n hn).strictEq_iff.mp hnturn, (h.openStep m hm).1.strictEq_iff.mp hmstep,
    by rw [hn]; rfl, by rw [hm]; rfl⟩

theorem report (h : Numbered trace last) {turn step : Number}
    (hturn : isOpen trace.openTurn turn = true) (hstep : isOpen trace.openStep step = true)
    (buckets : TokenUsageProjection) : Numbered trace (some ⟨turn, step, buckets⟩) := by
  obtain ⟨hturnIs, hstepIs, hopenTurn, hopenStep⟩ := h.denotes_of_isOpen hturn hstep
  refine ⟨h.openTurn, h.openStep, ?_⟩
  intro report heq
  cases heq
  exact ⟨_, _, hturnIs, hstepIs, Or.inr ⟨rfl, hopenTurn, Or.inr ⟨rfl, hopenStep⟩⟩⟩

theorem traceStep (h : Numbered trace last) (hstep : TraceStep trace event next) :
    Numbered next last := by
  cases hstep with
  | turnStart hdata hopen hnumber =>
    refine ⟨?_, ?_, ?_⟩
    · intro turn heq
      cases heq
      exact hnumber
    · intro step heq
      have hcontra := (h.openStep step heq).2
      rw [hopen] at hcontra
      cases hcontra
    · intro report heq
      obtain ⟨turn, step, hturn, hstep, hplace⟩ := h.last report heq
      refine ⟨turn, step, hturn, hstep, Or.inl ?_⟩
      rcases hplace with hlt | ⟨-, hcontra, -⟩
      · exact hlt
      · rw [hopen] at hcontra
        cases hcontra
  | turnEnd hdata hopen hnone =>
    refine ⟨nofun, ?_, ?_⟩
    · intro step heq
      rw [hnone] at heq
      cases heq
    · intro report heq
      obtain ⟨turn, step, hturn, hstep, hplace⟩ := h.last report heq
      refine ⟨turn, step, hturn, hstep, Or.inl ?_⟩
      show turn < trace.nextTurn + 1
      omega
  | stepStart hdata hopen hnone hnumber =>
    obtain ⟨turn, hturn, -⟩ := exists_of_isOpen hopen
    refine ⟨h.openTurn, ?_, ?_⟩
    · intro step heq
      cases heq
      exact ⟨hnumber, by rw [hturn]; rfl⟩
    · intro report heq
      obtain ⟨turn, step, hturn, hstep, hplace⟩ := h.last report heq
      refine ⟨turn, step, hturn, hstep, hplace.imp_right ?_⟩
      rintro ⟨hsame, hsome, hlt | ⟨-, hcontra⟩⟩
      · exact ⟨hsame, hsome, Or.inl hlt⟩
      · rw [hnone] at hcontra
        cases hcontra
  | stepEnd hdata hopen hopenStep =>
    refine ⟨h.openTurn, nofun, ?_⟩
    intro report heq
    obtain ⟨turn, step, hturn, hstep, hplace⟩ := h.last report heq
    refine ⟨turn, step, hturn, hstep, hplace.imp_right ?_⟩
    rintro ⟨hsame, hsome, hlt⟩
    refine ⟨hsame, hsome, Or.inl ?_⟩
    show step < trace.nextStep + 1
    omega
  | assistantChunk => exact ⟨h.openTurn, h.openStep, h.last⟩
  | assistantMessage => exact ⟨h.openTurn, h.openStep, h.last⟩
  | toolCall => exact ⟨h.openTurn, h.openStep, h.last⟩
  | rewrite => exact ⟨h.openTurn, h.openStep, h.last⟩
  | toolResult => exact ⟨h.openTurn, h.openStep, h.last⟩
  | request => exact ⟨h.openTurn, h.openStep, h.last⟩
  | unconstrained => exact ⟨h.openTurn, h.openStep, h.last⟩

theorem isOpen_of_report (hstep : TraceStep trace event next) {turn step : Number}
    (hdata : (∃ chunk, event.data = .assistantChunk turn step chunk) ∨
      ∃ data, event.data = .assistantMessage data ∧ data.turn = turn ∧ data.step = step) :
    isOpen trace.openTurn turn = true ∧ isOpen trace.openStep step = true := by
  rcases hdata with ⟨chunk, hdata⟩ | ⟨data, hdata, rfl, rfl⟩
  · cases hstep with
    | assistantChunk heq hturn hopenStep =>
      cases hdata.symm.trans heq
      exact ⟨hturn, hopenStep⟩
    | request h _ => rcases h with ⟨_, h⟩ | ⟨_, h⟩ <;> cases hdata.symm.trans h
    | unconstrained h => rcases h with ⟨_, h⟩ | h | ⟨_, _, h⟩ <;> cases hdata.symm.trans h
    | turnStart h | turnEnd h | stepStart h | stepEnd h | assistantMessage h | toolCall h
    | rewrite h | toolResult h => cases hdata.symm.trans h
  · cases hstep with
    | assistantMessage heq hturn hopenStep =>
      cases hdata.symm.trans heq
      exact ⟨hturn, hopenStep⟩
    | request h _ => rcases h with ⟨_, h⟩ | ⟨_, h⟩ <;> cases hdata.symm.trans h
    | unconstrained h => rcases h with ⟨_, h⟩ | h | ⟨_, _, h⟩ <;> cases hdata.symm.trans h
    | turnStart h | turnEnd h | stepStart h | stepEnd h | assistantChunk h | toolCall h
    | rewrite h | toolResult h => cases hdata.symm.trans h

theorem applyTokenUsage (h : Numbered trace state.last) (hstep : TraceStep trace event next) :
    Numbered next (applyTokenUsage A state event).last := by
  rcases last_applyTokenUsage A state event with heq | heq | ⟨turn, step, buckets, heq, hdata⟩
  · exact (h.of_last_eq (Or.inl heq)).traceStep hstep
  · exact (h.of_last_eq (Or.inr heq)).traceStep hstep
  · obtain ⟨hturn, hopenStep⟩ := isOpen_of_report hstep hdata
    rw [heq]
    exact (h.report hturn hopenStep buckets).traceStep hstep

theorem of_traces {log : List SessionEvent} (h : Traces log trace) (A : Arithmetic) :
    Numbered trace (foldTokenUsage A log).last := by
  induction h with
  | nil =>
    refine ⟨nofun, nofun, ?_⟩
    intro report heq
    cases heq
  | snoc _ hvalid ih =>
    unfold foldTokenUsage at ih ⊢
    rw [foldl_append]
    exact ih.applyTokenUsage (traceStep_of_validateEvent hvalid)

end Numbered

end Trace

/-- The slot holds the report that a later one of the attempt at this place replaces, if that
attempt has reported. -/
def Slot (last : Option LastUsage) (turn step : Nat) : Option TokenUsage → Prop
  | none => ∀ report, last = some report → ¬ (Denotes report.turn turn ∧ Denotes report.step step)
  | some usage => ∃ report, last = some report ∧ Denotes report.turn turn ∧
      Denotes report.step step ∧
      ∀ bucket : Bucket, (bucket.of report.buckets).isSafeInteger = true ∧
        0 ≤ (bucket.of report.buckets).toInt ∧
        (bucket.of report.buckets).toInt = (bucket.of (bucketsFrom usage)).toInt

def sampleAmount (bucket : Bucket) : Option TokenUsage → Int
  | none => 0
  | some usage => (bucket.of (bucketsFrom usage)).toInt

section Report

variable {A : Arithmetic} {state : TokenUsageState} {turn step : Number} {usage : TokenUsage}
  {sample : Option TokenUsage} {turnNumber stepNumber : Nat}

theorem isCount_bucket (h : Counted usage) (bucket : Bucket) :
    (bucket.of (bucketsFrom usage)).isSafeInteger = true ∧
      0 ≤ (bucket.of (bucketsFrom usage)).toInt := by
  obtain ⟨count, hcount⟩ := Option.isSome_iff_exists.mp (h bucket)
  obtain ⟨heq, hsafe, hnonneg⟩ := isCount_eq_some.mp hcount
  rw [heq]
  exact ⟨hsafe, hnonneg⟩

theorem of_addReplacing (bucket : Bucket) (totals : TokenUsageProjection)
    (previous : Option TokenUsageProjection) (next : TokenUsageProjection) :
    bucket.of (addReplacing A totals previous next) =
      A.add (A.sub (bucket.of totals) (bucket.of (previous.getD zeroBuckets)))
        (bucket.of next) := by
  cases bucket <;> rfl

theorem natAbs_toInt_le {number : Number} (h : number.isSafeInteger = true) :
    number.toInt.natAbs ≤ maxSafeInteger := by
  cases number with
  | integral x => exact (Integral.isSafe_iff x).mp h
  | _ => cases h

theorem toInt_of_strictEq {a b : Number} (ha : a.isSafeInteger = true)
    (h : a.strictEq b = true) : a.toInt = b.toInt := by
  cases a with
  | integral x =>
    cases b with
    | integral y =>
      show x.toInt = y.toInt
      simpa [Number.strictEq, Integral.strictEq] using h
    | _ => simp [Number.strictEq] at h
  | _ => cases ha

theorem strictEq_of_bucketsEqual {left right : TokenUsageProjection}
    (h : bucketsEqual left right = true) (bucket : Bucket) :
    (bucket.of left).strictEq (bucket.of right) = true := by
  unfold bucketsEqual at h
  rw [Bool.and_eq_true, Bool.and_eq_true, Bool.and_eq_true] at h
  cases bucket with
  | uncachedInput => exact h.1.1.1
  | output => exact h.1.1.2
  | cacheRead => exact h.1.2
  | cacheWrite => exact h.2

theorem lastAt_of_slot (hturn : Denotes turn turnNumber) (hstep : Denotes step stepNumber)
    (hslot : Slot state.last turnNumber stepNumber sample) :
    ∃ previous, (lastAt state turn step).map (·.buckets) = previous ∧
      ∀ bucket : Bucket, (bucket.of (previous.getD zeroBuckets)).isSafeInteger = true ∧
        0 ≤ (bucket.of (previous.getD zeroBuckets)).toInt ∧
        (bucket.of (previous.getD zeroBuckets)).toInt = sampleAmount bucket sample := by
  cases sample with
  | none =>
    have hlast : lastAt state turn step = none := by
      unfold lastAt
      rw [Option.filter_eq_none_iff]
      intro report hreport hsame
      rw [Bool.and_eq_true] at hsame
      exact hslot report hreport ⟨hturn.of_strictEq hsame.1, hstep.of_strictEq hsame.2⟩
    refine ⟨none, by rw [hlast]; rfl, ?_⟩
    intro bucket
    cases bucket <;> exact ⟨by decide, Int.le_refl 0, rfl⟩
  | some usage =>
    obtain ⟨report, hreport, hreportTurn, hreportStep, hbuckets⟩ := hslot
    have hlast : lastAt state turn step = some report := by
      unfold lastAt
      rw [hreport, Option.filter_some, hreportTurn.strictEq_iff.mpr hturn,
        hreportStep.strictEq_iff.mpr hstep]
      rfl
    exact ⟨some report.buckets, by rw [hlast]; rfl, hbuckets⟩

theorem addReport_accounts (hturn : Denotes turn turnNumber) (hstep : Denotes step stepNumber)
    (hslot : Slot state.last turnNumber stepNumber sample) {kept : Bucket → Int}
    (hkept : ∀ bucket, (kept bucket).natAbs ≤ maxSafeInteger)
    (htotals : ∀ bucket : Bucket,
      (bucket.of state.totals).toInt = kept bucket + sampleAmount bucket sample)
    (hcounted : Counted usage) (hsafe : SafeTotals state)
    (hnext : SafeTotals (addReport A state turn step usage)) :
    Slot (addReport A state turn step usage).last turnNumber stepNumber (some usage) ∧
      ∀ bucket : Bucket, (bucket.of (addReport A state turn step usage).totals).toInt =
        kept bucket + sampleAmount bucket (some usage) := by
  obtain ⟨previous, hprevious, hamount⟩ := lastAt_of_slot hturn hstep hslot
  unfold addReport at hnext ⊢
  rw [hprevious] at hnext ⊢
  cases hequal : previous.any fun previous => bucketsEqual previous (bucketsFrom usage) with
  | true =>
    obtain ⟨buckets, rfl, hbuckets⟩ := (Option.any_eq_true _ _).mp hequal
    have hsame : ∀ bucket : Bucket,
        (bucket.of buckets).toInt = (bucket.of (bucketsFrom usage)).toInt := fun bucket =>
      toInt_of_strictEq (hamount bucket).1 (strictEq_of_bucketsEqual hbuckets bucket)
    simp only [hequal, if_true]
    refine ⟨?_, ?_⟩
    · obtain ⟨report, hreport, heq⟩ := Option.map_eq_some_iff.mp hprevious
      obtain ⟨hlast, hplace⟩ := Option.filter_eq_some_iff.mp hreport
      rw [Bool.and_eq_true] at hplace
      refine ⟨report, hlast, hturn.of_strictEq hplace.1, hstep.of_strictEq hplace.2, ?_⟩
      intro bucket
      rw [heq]
      exact ⟨(hamount bucket).1, (hamount bucket).2.1, hsame bucket⟩
    · intro bucket
      rw [htotals, ← (hamount bucket).2.2]
      exact congrArg (kept bucket + ·) (hsame bucket)
  | false =>
    simp only [hequal, Bool.false_eq_true, if_false] at hnext ⊢
    refine ⟨⟨_, rfl, hturn, hstep, ?_⟩, ?_⟩
    · intro bucket
      obtain ⟨hcountSafe, hnonneg⟩ := isCount_bucket hcounted bucket
      exact ⟨hcountSafe, hnonneg, rfl⟩
    · intro bucket
      have hsum := hnext bucket
      rw [of_addReplacing] at hsum ⊢
      have hle := hkept bucket
      have htotal := htotals bucket
      obtain ⟨hpreviousSafe, -, hpreviousEq⟩ := hamount bucket
      obtain ⟨hsubSafe, hsub⟩ := A.toInt_sub (hsafe bucket) hpreviousSafe (by omega)
      rw [A.toInt_add hsubSafe (isCount_bucket hcounted bucket).1 hsum, hsub]
      show _ = kept bucket + (bucket.of (bucketsFrom usage)).toInt
      omega

end Report

def AttemptState.sample : AttemptState → Option TokenUsage
  | .open _ _ sample => sample
  | _ => none

/-- While its turn is open, the machine is at the place where the trace is, and the slot is that of
its open attempt. -/
structure Within (trace : SessionTrace) (fold : TurnFold) (last : Option LastUsage) : Prop where
  turn : ∀ turn, fold.turn = some turn → Denotes turn trace.nextTurn
  openTurn : trace.openTurn.isSome = true
  idle : fold.state.place = none → trace.openStep = none
  place : ∀ turn step, fold.state.place = some (turn, step) →
    Denotes turn trace.nextTurn ∧ Denotes step trace.nextStep ∧ trace.openStep.isSome = true
  slot : fold.state.isOpen = true →
    Slot last trace.nextTurn trace.nextStep fold.state.sample

def attempted (bucket : Bucket) (attempts : List NormalizedAttempt) : Int :=
  (attempts.map bucket.ofAttempt).sum

/-- Since `base` the totals have grown by the closed attempts and the sample of the open one. -/
structure Accounts (base : TokenUsageState) (trace : SessionTrace) (fold : TurnFold)
    (state : TokenUsageState) : Prop where
  numbered : Numbered trace state.last
  within : fold.turn.isSome = true → fold.sawEnd = false → Within trace fold state.last
  attemptedNonneg : ∀ bucket, 0 ≤ attempted bucket fold.attempts
  sampleNonneg : ∀ bucket, 0 ≤ sampleAmount bucket fold.state.sample
  totals : ∀ bucket : Bucket, (bucket.of state.totals).toInt =
    (bucket.of base.totals).toInt + attempted bucket fold.attempts +
      sampleAmount bucket fold.state.sample

section Steps

variable {A : Arithmetic} {trace trace' : SessionTrace} {event : SessionEvent}
  {base state : TokenUsageState} {fold next : TurnFold} {last : Option LastUsage}

theorem applyTokenUsage_of_none (hopens : opensAttempt event = false)
    (husage : usageOf event = none) : applyTokenUsage A state event = state := by
  unfold opensAttempt at hopens
  unfold usageOf at husage
  unfold applyTokenUsage
  cases hdata : event.data with
  | extension type data =>
    simp only [hdata, beq_eq_false_iff_ne] at hopens
    simp only [if_neg hopens]
  | assistantChunk turn step chunk =>
    simp only [hdata] at husage
    simp only [husage]
  | assistantMessage data =>
    simp only [hdata] at husage
    simp only [husage]
  | _ => rfl

theorem AttemptState.sample_of_closed {state : AttemptState} (h : state.isOpen = false) :
    state.sample = none := by
  cases state with
  | «open» turn step sample => cases h
  | _ => rfl

theorem Leaves.reportless {left : AttemptState} (h : Leaves fold event left) :
    opensAttempt event = false ∧ usageOf event = none ∧ left.sample = none := by
  cases h with
  | stepEnd hdata _ => exact ⟨by simp [opensAttempt, hdata], by simp [usageOf, hdata], rfl⟩
  | retry hdata htype _ _ _ =>
    exact ⟨by simp [opensAttempt, hdata, htype], by simp [usageOf, hdata], rfl⟩

theorem traceStep_keeps (h : TraceStep trace event trace') (hkeeps : keepsPlace event.data = true) :
    trace'.openTurn = trace.openTurn ∧ trace'.openStep = trace.openStep ∧
      trace'.nextTurn = trace.nextTurn ∧ trace'.nextStep = trace.nextStep := by
  cases h with
  | turnStart hdata | turnEnd hdata | stepStart hdata | stepEnd hdata =>
    rw [hdata] at hkeeps
    cases hkeeps
  | _ => exact ⟨rfl, rfl, rfl, rfl⟩

theorem traceStep_stepStart {turn step : Number} (h : TraceStep trace event trace')
    (hdata : event.data = .stepStart turn step) :
    trace.openStep = none ∧ step.strictEq (.ofNat trace.nextStep) = true ∧
      trace'.openTurn = trace.openTurn ∧ trace'.openStep = some step ∧
      trace'.nextTurn = trace.nextTurn ∧ trace'.nextStep = trace.nextStep := by
  cases h with
  | stepStart heq _ hnone hnumber =>
    cases hdata.symm.trans heq
    exact ⟨hnone, hnumber, rfl, rfl, rfl, rfl⟩
  | request h _ => rcases h with ⟨_, h⟩ | ⟨_, h⟩ <;> cases hdata.symm.trans h
  | unconstrained h => rcases h with ⟨_, h⟩ | h | ⟨_, _, h⟩ <;> cases hdata.symm.trans h
  | turnStart h | turnEnd h | stepEnd h | assistantChunk h | assistantMessage h | toolCall h
  | rewrite h | toolResult h => cases hdata.symm.trans h

theorem traceStep_stepEnd {turn step : Number} (h : TraceStep trace event trace')
    (hdata : event.data = .stepEnd turn step) :
    trace'.openTurn = trace.openTurn ∧ trace'.openStep = none ∧
      trace'.nextTurn = trace.nextTurn := by
  cases h with
  | stepEnd => exact ⟨rfl, rfl, rfl⟩
  | request h _ => rcases h with ⟨_, h⟩ | ⟨_, h⟩ <;> cases hdata.symm.trans h
  | unconstrained h => rcases h with ⟨_, h⟩ | h | ⟨_, _, h⟩ <;> cases hdata.symm.trans h
  | turnStart h | turnEnd h | stepStart h | assistantChunk h | assistantMessage h | toolCall h
  | rewrite h | toolResult h => cases hdata.symm.trans h

theorem traceStep_turnStart {turn : Number} (h : TraceStep trace event trace')
    (hdata : event.data = .turnStart turn) :
    trace.openTurn = none ∧ turn.strictEq (.ofNat trace.nextTurn) = true ∧
      trace'.openTurn = some turn ∧ trace'.openStep = trace.openStep ∧
      trace'.nextTurn = trace.nextTurn := by
  cases h with
  | turnStart heq hnone hnumber =>
    cases hdata.symm.trans heq
    exact ⟨hnone, hnumber, rfl, rfl, rfl⟩
  | request h _ => rcases h with ⟨_, h⟩ | ⟨_, h⟩ <;> cases hdata.symm.trans h
  | unconstrained h => rcases h with ⟨_, h⟩ | h | ⟨_, _, h⟩ <;> cases hdata.symm.trans h
  | turnEnd h | stepStart h | stepEnd h | assistantChunk h | assistantMessage h | toolCall h
  | rewrite h | toolResult h => cases hdata.symm.trans h

theorem countOr_eq (count : Option Integral) :
    countOr count = ((count.map Number.integral).getD (.ofNat 0)).toInt := by
  cases count <;> rfl

theorem ofAttempt_eq {usage : TokenUsage} {attempt : NormalizedAttempt}
    (h : Normalizes usage attempt) (bucket : Bucket) :
    bucket.ofAttempt attempt = (bucket.of (bucketsFrom usage)).toInt ∧
      0 ≤ bucket.ofAttempt attempt := by
  cases bucket with
  | uncachedInput => exact ⟨by rw [Bucket.of, bucketsFrom, h.inputTokens]; rfl, h.inputCount.2⟩
  | output => exact ⟨by rw [Bucket.of, bucketsFrom, h.outputTokens]; rfl, h.outputCount.2⟩
  | cacheRead =>
    refine ⟨?_, countOr_nonneg h.cacheReadCount⟩
    rw [Bucket.of, bucketsFrom, h.cacheReadTokens]
    exact countOr_eq attempt.cacheReadTokens
  | cacheWrite =>
    refine ⟨?_, countOr_nonneg h.cacheWriteCount⟩
    rw [Bucket.of, bucketsFrom, h.cacheWriteTokens]
    exact countOr_eq attempt.cacheWriteTokens

theorem attempted_concat (bucket : Bucket) (attempts : List NormalizedAttempt)
    (attempt : NormalizedAttempt) :
    attempted bucket (attempts ++ [attempt]) =
      attempted bucket attempts + bucket.ofAttempt attempt := by
  simp [attempted]

namespace Within

theorem of_keeps (h : Within trace fold last)
    (hsame : trace'.openTurn = trace.openTurn ∧ trace'.openStep = trace.openStep ∧
      trace'.nextTurn = trace.nextTurn ∧ trace'.nextStep = trace.nextStep)
    (hturn : next.turn = fold.turn)
    (hplace : ∀ turn step, next.state.place = some (turn, step) →
      Denotes turn trace.nextTurn ∧ Denotes step trace.nextStep ∧ trace.openStep.isSome = true)
    (hidle : next.state.place = none → trace.openStep = none) {last' : Option LastUsage}
    (hslot : next.state.isOpen = true →
      Slot last' trace.nextTurn trace.nextStep next.state.sample) :
    Within trace' next last' := by
  obtain ⟨hopenTurn, hopenStep, hnextTurn, hnextStep⟩ := hsame
  refine ⟨?_, ?_, ?_, ?_, ?_⟩
  · rw [hturn, hnextTurn]
    exact h.turn
  · rw [hopenTurn]
    exact h.openTurn
  · rw [hopenStep]
    exact hidle
  · rw [hopenStep, hnextTurn, hnextStep]
    exact hplace
  · rw [hnextTurn, hnextStep]
    exact hslot

theorem leaves (h : Within trace fold last) {state : AttemptState}
    (hleaves : Leaves fold event state) (hstep : TraceStep trace event trace')
    (hturn : next.turn = fold.turn) (hstate : next.state = state) : Within trace' next last := by
  cases hleaves with
  | stepEnd hdata _ =>
    obtain ⟨hopenTurn, hopenStep, hnextTurn⟩ := traceStep_stepEnd hstep hdata
    refine ⟨?_, ?_, fun _ => hopenStep, ?_, ?_⟩
    · rw [hturn, hnextTurn]
      exact h.turn
    · rw [hopenTurn]
      exact h.openTurn
    · intro turn step hplace
      rw [hstate] at hplace
      cases hplace
    · intro hopen
      rw [hstate] at hopen
      cases hopen
  | @retry turn fromTurn step type data hdata htype hfrom hturnEq hsame =>
    have hkeeps := traceStep_keeps hstep (by rw [hdata]; rfl)
    refine h.of_keeps hkeeps hturn ?_ ?_ ?_
    · intro turn' step' hplace
      rw [hstate] at hplace
      cases hplace
      obtain ⟨place, hplace, hsamePlace⟩ := (Option.any_eq_true _ _).mp hsame
      rw [Bool.and_eq_true] at hsamePlace
      obtain ⟨_, hplaceStep, hopenStep⟩ := h.place place.1 place.2 hplace
      exact ⟨h.turn _ hfrom, hplaceStep.strictEq_iff.mp hsamePlace.2, hopenStep⟩
    · intro hplace
      rw [hstate] at hplace
      cases hplace
    · intro hopen
      rw [hstate] at hopen
      cases hopen

theorem place_open (h : Within trace fold last) {openTurn openStep step : Number}
    {sample : Option TokenUsage} (hopen : fold.state = .open openTurn openStep sample)
    (hstep : openStep.strictEq step = true) :
    Denotes step trace.nextStep ∧ trace.openStep.isSome = true := by
  obtain ⟨_, hopenStep, hsome⟩ := h.place openTurn openStep (by rw [hopen]; rfl)
  exact ⟨hopenStep.strictEq_iff.mp hstep, hsome⟩

end Within

namespace Accounts

theorem of_same (h : Accounts base trace fold state) {state' : TokenUsageState}
    (hnumbered : Numbered trace' state'.last) (htotals : state'.totals = state.totals)
    (hwithin : next.turn.isSome = true → next.sawEnd = false → Within trace' next state'.last)
    (hattempts : next.attempts = fold.attempts) (hsample : next.state.sample = fold.state.sample) :
    Accounts base trace' next state' where
  numbered := hnumbered
  within := hwithin
  attemptedNonneg := by rw [hattempts]; exact h.attemptedNonneg
  sampleNonneg := by rw [hsample]; exact h.sampleNonneg
  totals := by rw [htotals, hattempts, hsample]; exact h.totals

theorem closes (h : Accounts base trace fold state) (hstep : TraceStep trace event trace')
    {openTurn openStep : Number} {usage : TokenUsage} {attempt : NormalizedAttempt}
    (hopen : fold.state = .open openTurn openStep (some usage))
    (hattempt : Normalizes usage attempt)
    (hwithin : next.turn.isSome = true → next.sawEnd = false → Within trace' next state.last)
    (hattempts : next.attempts = fold.attempts ++ [attempt]) (hsample : next.state.sample = none) :
    Accounts base trace' next state where
  numbered := h.numbered.traceStep hstep
  within := hwithin
  attemptedNonneg bucket := by
    rw [hattempts, attempted_concat]
    exact Int.add_nonneg (h.attemptedNonneg bucket) (ofAttempt_eq hattempt bucket).2
  sampleNonneg bucket := by
    rw [hsample]
    exact Int.le_refl 0
  totals bucket := by
    have htotal := h.totals bucket
    rw [hopen] at htotal
    rw [hattempts, hsample, attempted_concat, (ofAttempt_eq hattempt bucket).1, htotal]
    show _ + (bucket.of (bucketsFrom usage)).toInt = _ + 0
    omega

theorem reports (h : Accounts base trace fold state) (hbase : SafeTotals base)
    (hwithin : Within trace fold state.last) {openTurn openStep turn step : Number}
    {sample : Option TokenUsage} (hopen : fold.state = .open openTurn openStep sample)
    (hturn : isOpen trace.openTurn turn = true) (hstep : isOpen trace.openStep step = true)
    {usage : TokenUsage} (hcounted : Counted usage) (hsafe : SafeTotals state)
    (hnext : SafeTotals (addReport A state turn step usage)) :
    Accounts base trace { fold with state := .open openTurn openStep (some usage) }
      (addReport A state turn step usage) := by
  obtain ⟨hturnIs, hstepIs, -, -⟩ := h.numbered.denotes_of_isOpen hturn hstep
  have hslot := hwithin.slot (by rw [hopen]; rfl)
  have htotals := h.totals
  have hsampleNonneg := h.sampleNonneg
  rw [hopen] at hslot htotals hsampleNonneg
  have hkept : ∀ bucket : Bucket,
      ((bucket.of base.totals).toInt + attempted bucket fold.attempts).natAbs ≤
        maxSafeInteger := by
    intro bucket
    have hattempted := h.attemptedNonneg bucket
    have hsample := hsampleNonneg bucket
    have hlow := natAbs_toInt_le (hbase bucket)
    have hhigh := natAbs_toInt_le (hsafe bucket)
    have htotal := htotals bucket
    omega
  obtain ⟨hslot', htotals'⟩ :=
    addReport_accounts hturnIs hstepIs hslot hkept htotals hcounted hsafe hnext
  refine ⟨?_, ?_, h.attemptedNonneg, ?_, htotals'⟩
  · rcases last_addReport A state turn step usage with heq | heq
    · rw [heq]
      exact h.numbered
    · rw [heq]
      exact h.numbered.report hturn hstep _
  · intro _ _
    refine ⟨hwithin.turn, hwithin.openTurn, nofun, ?_, fun _ => hslot'⟩
    intro turn step hplace
    exact hwithin.place turn step (by rw [hopen]; exact hplace)
  · exact fun bucket => (isCount_bucket hcounted bucket).2

end Accounts

theorem applyTokenUsage_retryStarted {type : ExtensionType} {data : Json} {turn step : Number}
    (hdata : event.data = .extension type data) (htype : type.val = "llm/retry-started")
    (hplace : retryPlace data = some (turn, step)) :
    (applyTokenUsage A state event).totals = state.totals ∧
      ((applyTokenUsage A state event).last = none ∨
        (applyTokenUsage A state event).last = state.last ∧ lastAt state turn step = none) := by
  unfold applyTokenUsage
  simp only [hdata, if_pos htype, hplace]
  cases hlast : lastAt state turn step with
  | none => exact ⟨rfl, Or.inr ⟨rfl, rfl⟩⟩
  | some report => exact ⟨rfl, Or.inl rfl⟩

theorem Numbered.slot_of_closed (h : Numbered trace last) (hclosed : trace.openStep = none) :
    Slot last trace.nextTurn trace.nextStep none := by
  intro report hreport hplace
  obtain ⟨turn, step, hturn, hstep, hbefore⟩ := h.last report hreport
  have hturnEq := hturn.unique hplace.1
  have hstepEq := hstep.unique hplace.2
  rw [hclosed] at hbefore
  rcases hbefore with hlt | ⟨-, -, hlt | ⟨-, hcontra⟩⟩
  · omega
  · omega
  · cases hcontra

theorem slot_of_retryStarted {turn step : Number} (hturn : Denotes turn trace.nextTurn)
    (hstep : Denotes step trace.nextStep) {last' : Option LastUsage}
    (hlast : last' = none ∨ last' = state.last ∧ lastAt state turn step = none) :
    Slot last' trace.nextTurn trace.nextStep none := by
  intro report hreport hplace
  rcases hlast with rfl | ⟨rfl, hnone⟩
  · cases hreport
  · unfold lastAt at hnone
    rw [Option.filter_eq_none_iff] at hnone
    refine hnone report hreport ?_
    rw [hplace.1.strictEq_iff.mpr hturn, hplace.2.strictEq_iff.mpr hstep]
    rfl

namespace Accounts

theorem turnStart (h : Accounts base trace fold state) {turn : Number}
    (hdata : event.data = .turnStart turn) (hidle : fold.state = .idle)
    (hstep : TraceStep trace event trace') :
    Accounts base trace' { fold with turn := some turn } state := by
  obtain ⟨hclosed, hnumber, hopenTurn, hopenStep, hnextTurn⟩ := traceStep_turnStart hstep hdata
  refine h.of_same (h.numbered.traceStep hstep) rfl ?_ rfl rfl
  intro _ _
  refine ⟨?_, by rw [hopenTurn]; rfl, ?_, ?_, ?_⟩
  · intro turn heq
    cases heq
    rw [hnextTurn]
    exact hnumber
  · intro _
    rw [hopenStep]
    cases hopen : trace.openStep with
    | none => rfl
    | some step =>
      have hcontra := (h.numbered.openStep step hopen).2
      rw [hclosed] at hcontra
      cases hcontra
  · intro turn step hplace
    rw [hidle] at hplace
    cases hplace
  · intro hopen
    rw [hidle] at hopen
    cases hopen

theorem stepStart (h : Accounts base trace fold state) {turn eventTurn step : Number}
    (hdata : event.data = .stepStart eventTurn step) (hwithin : Within trace fold state.last)
    (hturn : fold.turn = some turn) (hidle : fold.state = .idle)
    (hstep : TraceStep trace event trace') :
    Accounts base trace' { fold with state := .open turn step none } state := by
  obtain ⟨hclosed, hnumber, hopenTurn, hopenStep, hnextTurn, hnextStep⟩ :=
    traceStep_stepStart hstep hdata
  refine h.of_same (h.numbered.traceStep hstep) rfl ?_ rfl (by rw [hidle]; rfl)
  intro _ _
  refine ⟨?_, ?_, nofun, ?_, ?_⟩
  · rw [hnextTurn]
    exact hwithin.turn
  · rw [hopenTurn]
    exact hwithin.openTurn
  · intro turn' step' hplace
    cases hplace
    rw [hnextTurn, hnextStep, hopenStep]
    exact ⟨hwithin.turn turn hturn, hnumber, rfl⟩
  · intro _
    rw [hnextTurn, hnextStep]
    exact h.numbered.slot_of_closed hclosed

theorem retryStarted (h : Accounts base trace fold state)
    {turn eventTurn step openTurn openStep : Number} {type : ExtensionType} {data : Json}
    (hdata : event.data = .extension type data) (htype : type.val = "llm/retry-started")
    (hretry : retryPlace data = some (eventTurn, step)) (hwithin : Within trace fold state.last)
    (hturn : fold.turn = some turn) (hsettled : fold.state = .settled openTurn openStep .retry)
    (hsameTurn : openTurn.strictEq eventTurn = true) (hsameStep : openStep.strictEq step = true)
    (hstep : TraceStep trace event trace') :
    Accounts base trace' { fold with state := .open turn step none }
      (applyTokenUsage A state event) := by
  obtain ⟨htotals, hlast⟩ := @applyTokenUsage_retryStarted A event state _ _ _ _ hdata htype hretry
  obtain ⟨hplaceTurn, hplaceStep, hopen⟩ := hwithin.place openTurn openStep (by rw [hsettled]; rfl)
  have hstepIs := hplaceStep.strictEq_iff.mp hsameStep
  refine h.of_same (h.numbered.applyTokenUsage hstep) htotals ?_ rfl (by rw [hsettled]; rfl)
  intro _ _
  refine hwithin.of_keeps (traceStep_keeps hstep (by rw [hdata]; rfl)) ?_ ?_ ?_ ?_
  · rfl
  · intro turn' step' hplace
    cases hplace
    exact ⟨hwithin.turn turn hturn, hstepIs, hopen⟩
  · intro hplace
    cases hplace
  · intro _
    exact slot_of_retryStarted (hplaceTurn.strictEq_iff.mp hsameTurn) hstepIs hlast

theorem usageChunk (h : Accounts base trace fold state) (hbase : SafeTotals base)
    {turn step openTurn openStep : Number} {sample : Option TokenUsage} {chunk : Json}
    (hdata : event.data = .assistantChunk turn step chunk) (husage : isUsageChunk chunk = true)
    (hwithin : Within trace fold state.last) (hopen : fold.state = .open openTurn openStep sample)
    (hstep : TraceStep trace event trace') (hcounts : ReportsCounts event)
    (hsafe : SafeTotals state) (hnext : SafeTotals (applyTokenUsage A state event)) :
    Accounts base trace' { fold with state := .open openTurn openStep (chunkUsage chunk) }
      (applyTokenUsage A state event) := by
  unfold ReportsCounts at hcounts
  simp only [hdata] at hcounts
  obtain ⟨usage, hchunk, hcounted⟩ := hcounts husage
  have happly : applyTokenUsage A state event = addReport A state turn step usage := by
    simp only [applyTokenUsage, hdata, hchunk]
  obtain ⟨hisTurn, hisStep⟩ := Numbered.isOpen_of_report hstep (Or.inl ⟨chunk, hdata⟩)
  rw [happly] at hnext ⊢
  have hreports := h.reports hbase hwithin hopen hisTurn hisStep hcounted hsafe hnext
  rw [hchunk]
  refine hreports.of_same (hreports.numbered.traceStep hstep) rfl ?_ rfl rfl
  intro hturn hend
  have hwithin' := hreports.within hturn hend
  exact hwithin'.of_keeps (traceStep_keeps hstep (by rw [hdata]; rfl)) rfl hwithin'.place
    hwithin'.idle hwithin'.slot

theorem closesAt (h : Accounts base trace fold state) {openTurn openStep turn step : Number}
    {usage : TokenUsage} {attempt : NormalizedAttempt} (hwithin : Within trace fold state.last)
    (hopen : fold.state = .open openTurn openStep (some usage))
    (hattempt : Normalizes usage attempt) (hturn : fold.turn = some turn)
    (hsameStep : openStep.strictEq step = true) (hkeeps : keepsPlace event.data = true)
    (hstep : TraceStep trace event trace') {closed : AttemptState}
    (hplace : closed.place = some (turn, step)) (hclosed : closed.isOpen = false)
    (hsample : closed.sample = none) :
    Accounts base trace' { fold with attempts := fold.attempts ++ [attempt], state := closed }
      state := by
  obtain ⟨hstepIs, hsome⟩ := hwithin.place_open hopen hsameStep
  refine h.closes hstep hopen hattempt ?_ rfl hsample
  intro _ _
  refine hwithin.of_keeps (traceStep_keeps hstep hkeeps) ?_ ?_ ?_ ?_
  · rfl
  · intro turn' step' heq
    cases hplace.symm.trans heq
    exact ⟨hwithin.turn turn hturn, hstepIs, hsome⟩
  · intro heq
    cases hplace.symm.trans heq
  · intro heq
    cases hclosed.symm.trans heq

end Accounts

theorem accounts_event (h : Accounts base trace fold state) (hbase : SafeTotals base)
    (hturnStep : TurnStep A.rounding fold event next) (hstep : TraceStep trace event trace')
    (hcounts : ReportsCounts event) (hsafe : SafeTotals state)
    (hnext : SafeTotals (applyTokenUsage A state event)) :
    Accounts base trace' next (applyTokenUsage A state event) := by
  cases hturnStep with
  | turnStart hdata _ hidle =>
    rw [applyTokenUsage_of_none (by simp [opensAttempt, hdata]) (by simp [usageOf, hdata])]
    exact h.turnStart hdata hidle hstep
  | turnEnd hdata _ _ =>
    rw [applyTokenUsage_of_none (by simp [opensAttempt, hdata]) (by simp [usageOf, hdata])]
    refine h.of_same (h.numbered.traceStep hstep) rfl ?_ rfl rfl
    intro _ hend
    cases hend
  | stepStart hdata hturn hend _ hidle =>
    have happly : applyTokenUsage A state event = state := by simp only [applyTokenUsage, hdata]
    rw [happly]
    exact h.stepStart hdata (h.within (by rw [hturn]; rfl) hend) hturn hidle hstep
  | retryStarted hdata htype hretry hturn hend _ hsettled hsameTurn hsameStep =>
    exact h.retryStarted hdata htype hretry (h.within (by rw [hturn]; rfl) hend) hturn hsettled
      hsameTurn hsameStep hstep
  | usageChunk hdata husage hturn hend hopen =>
    exact h.usageChunk hbase hdata husage (h.within hturn hend) hopen hstep hcounts hsafe hnext
  | failedFinish hdata husage hturn hend _ hopen _ hsameStep hattempt =>
    have hnone := chunkUsage_of_not_isUsageChunk husage
    rw [applyTokenUsage_of_none (by simp [opensAttempt, hdata]) (by simp [usageOf, hdata, hnone])]
    exact h.closesAt (h.within (by rw [hturn]; rfl) hend) hopen
      (normalizes_of_normalizeUsage hattempt) hturn hsameStep (by rw [hdata]; rfl) hstep rfl rfl rfl
  | @message openTurn openStep turn sample used data attempt hdata hturn hend _ hopen hsameTurn
      hsameStep hused hattempt =>
    have hwithin := h.within (by rw [hturn]; rfl) hend
    have hnormal := normalizes_of_normalizeUsage hattempt
    cases husage : data.usage with
    | none =>
      rw [applyTokenUsage_of_none (by simp [opensAttempt, hdata]) (by simp [usageOf, hdata, husage])]
      rw [husage, Option.none_or] at hused
      rw [hused] at hopen
      exact h.closesAt hwithin hopen hnormal hturn hsameStep (by rw [hdata]; rfl) hstep rfl rfl rfl
    | some usage =>
      rw [husage, Option.some_or, Option.some.injEq] at hused
      subst hused
      unfold ReportsCounts at hcounts
      simp only [hdata] at hcounts
      have happly : applyTokenUsage A state event = addReport A state data.turn data.step usage := by
        simp only [applyTokenUsage, hdata, husage]
      obtain ⟨hisTurn, hisStep⟩ :=
        Numbered.isOpen_of_report hstep (Or.inr ⟨data, hdata, rfl, rfl⟩)
      rw [happly] at hnext ⊢
      have hreports :=
        h.reports hbase hwithin hopen hisTurn hisStep (hcounts usage husage) hsafe hnext
      exact hreports.closesAt (hreports.within (by rw [hturn]; rfl) hend) rfl hnormal hturn hsameStep
        (by rw [hdata]; rfl) hstep rfl rfl rfl
  | closed hturn hend hopen hattempt hleaves =>
    obtain ⟨hopens, husage, hsample⟩ := hleaves.reportless
    rw [applyTokenUsage_of_none hopens husage]
    refine h.closes hstep hopen (normalizes_of_normalizeUsage hattempt) ?_ rfl hsample
    intro _ _
    exact (h.within hturn hend).leaves hleaves hstep rfl rfl
  | left hturn hend hclosed hleaves =>
    obtain ⟨hopens, husage, hsample⟩ := hleaves.reportless
    rw [applyTokenUsage_of_none hopens husage]
    refine h.of_same (h.numbered.traceStep hstep) rfl ?_ rfl ?_
    · intro _ _
      exact (h.within hturn hend).leaves hleaves hstep rfl rfl
    · rw [hsample, AttemptState.sample_of_closed hclosed]
  | other hturn hend hopens husage hkeeps =>
    rw [applyTokenUsage_of_none hopens husage]
    refine h.of_same (h.numbered.traceStep hstep) rfl ?_ rfl rfl
    intro _ _
    have hwithin := h.within hturn hend
    exact hwithin.of_keeps (traceStep_keeps hstep hkeeps) rfl hwithin.place hwithin.idle
      hwithin.slot

end Steps

theorem exists_traces_of_append {before turn after : List SessionEvent} {trace : SessionTrace}
    (h : seedSession (before ++ turn ++ after) = .ok trace) :
    ∃ start, Traces before start ∧ ∃ next, traceEvents start turn = .ok next := by
  unfold seedSession at h
  rw [append_assoc, traceEvents_append] at h
  cases hbefore : traceEvents freshTrace before with
  | error failure => simp [hbefore] at h
  | ok start =>
    simp only [hbefore] at h
    rw [traceEvents_append] at h
    cases hturn : traceEvents start turn with
    | error failure => simp [hturn] at h
    | ok next => exact ⟨start, seedSession_eq_ok.mp hbefore, next, hturn⟩

section Run

variable {A : Arithmetic} {base state : TokenUsageState} {trace trace' : SessionTrace}
  {fold next : TurnFold} {events : List SessionEvent}

theorem accounts_events (h : Accounts base trace fold state) (hbase : SafeTotals base)
    (hfold : events.foldlM (turnEvent A.rounding) fold = some next)
    (htrace : traceEvents trace events = .ok trace')
    (hcounts : ∀ event ∈ events, ReportsCounts event)
    (hsafe : ∀ n, n ≤ events.length →
      SafeTotals ((events.take n).foldl (applyTokenUsage A) state)) :
    Accounts base trace' next (events.foldl (applyTokenUsage A) state) := by
  induction events generalizing trace fold state with
  | nil =>
    cases hfold
    cases htrace
    exact h
  | cons event rest ih =>
    rw [foldlM_cons, Option.bind_eq_bind, Option.bind_eq_some_iff] at hfold
    obtain ⟨mid, hmid, hrest⟩ := hfold
    rw [traceEvents] at htrace
    cases hvalid : validateEvent trace event with
    | error failure => simp [hvalid] at htrace
    | ok transition =>
      simp only [hvalid] at htrace
      have hnext := accounts_event h hbase (turnStep_of_turnEvent hmid)
        (traceStep_of_validateEvent hvalid) (hcounts event mem_cons_self)
        (hsafe 0 (Nat.zero_le _)) (hsafe 1 (Nat.succ_le_succ (Nat.zero_le _)))
      refine ih hnext hrest htrace ?_ ?_
      · exact fun other hmem => hcounts other (mem_cons_of_mem _ hmem)
      · exact fun n hn => hsafe (n + 1) (Nat.succ_le_succ hn)

theorem toInt_bucketsFrom_optional (value : Option Number) :
    (value.getD (.ofNat 0)).toInt = (value.map Number.toInt).getD 0 := by
  cases value <;> rfl

theorem Tallies.toInt_eq {samples : List TokenUsage} {usage : TurnTokenUsage}
    (h : Tallies samples usage) {bucket : Bucket} {sum : Integral}
    (hsum : bucket.ofTurn usage = some sum) :
    sum.toInt = (samples.map fun sample => (bucket.of (bucketsFrom sample)).toInt).sum := by
  cases bucket with
  | uncachedInput =>
    cases hsum
    exact h.uncachedInputTokens.2
  | output =>
    cases hsum
    exact h.outputTokens.2
  | cacheRead =>
    rw [(h.cacheReadTokens.2 sum hsum).2]
    congr 1
    apply map_congr_left
    intro sample _
    exact (toInt_bucketsFrom_optional sample.cacheReadTokens).symm
  | cacheWrite =>
    rw [(h.cacheWriteTokens.2 sum hsum).2]
    congr 1
    apply map_congr_left
    intro sample _
    exact (toInt_bucketsFrom_optional sample.cacheWriteTokens).symm

theorem attempted_of_closed {closed : List (TokenUsage × NormalizedAttempt)}
    (h : ∀ pair ∈ closed, Normalizes pair.1 pair.2) (bucket : Bucket) :
    attempted bucket (closed.map Prod.snd) =
      ((closed.map Prod.fst).map fun sample => (bucket.of (bucketsFrom sample)).toInt).sum := by
  rw [attempted, map_map, map_map]
  congr 1
  apply map_congr_left
  intro pair hpair
  exact (ofAttempt_eq (h pair hpair) bucket).1

/-- A turn that can be accounted for: its aggregates are the exact sums over its attempts, and
while reports are counts and totals are safe the accumulated usage grows by them. -/
theorem turn_usage_agrees (A : Arithmetic) (before turn after : List SessionEvent)
    (trace : SessionTrace) (haccepted : seedSession (before ++ turn ++ after) = .ok trace)
    (usage : TurnTokenUsage) (husage : deriveTurnTokenUsage A.rounding turn = some usage) :
    ∃ samples : List TokenUsage, samples ≠ [] ∧ attemptSamples turn = samples.map some ∧
      Tallies samples usage ∧
      ((∀ event ∈ turn, ReportsCounts event) →
        (∀ n, n ≤ turn.length → SafeTotals (foldTokenUsage A (before ++ turn.take n))) →
        ∀ (bucket : Bucket) (sum : Integral), bucket.ofTurn usage = some sum →
          (bucket.of (foldTokenUsage A (before ++ turn)).totals).toInt -
            (bucket.of (foldTokenUsage A before).totals).toInt = sum.toInt) := by
  obtain ⟨fold, closed, hfold, hidle, hfollows, haggregate⟩ :=
    exists_closed_of_deriveTurnTokenUsage husage
  obtain ⟨htallies, hne⟩ := tallies_of_aggregateAttempts hfollows.normalizes haggregate
  refine ⟨closed.map Prod.fst, fun hnil => hne (map_eq_nil_iff.mp hnil), ?_, htallies, ?_⟩
  · rw [hfollows.samples, append_nil, map_map]
  · intro hcounts hsafe bucket sum hsum
    obtain ⟨start, hbefore, middle, hturn⟩ := exists_traces_of_append haccepted
    have hbase : SafeTotals (foldTokenUsage A before) := by
      have h := hsafe 0 (Nat.zero_le _)
      rwa [take_zero, append_nil] at h
    have hstart : Accounts (foldTokenUsage A before) start {} (foldTokenUsage A before) := by
      refine ⟨.of_traces hbefore A, nofun, fun _ => Int.le_refl 0, fun _ => Int.le_refl 0, ?_⟩
      intro bucket
      show _ = (bucket.of (foldTokenUsage A before).totals).toInt + 0 + 0
      omega
    have hend := accounts_events hstart hbase hfold hturn hcounts (fun n hn => by
      have h := hsafe n hn
      rwa [foldTokenUsage, foldl_append] at h)
    have htotal := hend.totals bucket
    rw [hidle, hfollows.attempts, attempted_of_closed hfollows.normalizes bucket,
      ← htallies.toInt_eq hsum] at htotal
    have happend : foldTokenUsage A (before ++ turn) =
        turn.foldl (applyTokenUsage A) (foldTokenUsage A before) := foldl_append
    have hzero : sampleAmount bucket AttemptState.idle.sample = 0 := rfl
    rw [happend]
    omega

end Run

instance decidableForallBucket {p : Bucket → Prop} [∀ bucket, Decidable (p bucket)] : Decidable (∀ bucket, p bucket) :=
  decidable_of_iff
    (p .uncachedInput ∧ p .output ∧ p .cacheRead ∧ p .cacheWrite) (by
      constructor
      · rintro ⟨hinput, houtput, hread, hwrite⟩ bucket
        cases bucket <;> assumption
      · exact fun h => ⟨h _, h _, h _, h _⟩)

instance (usage : TokenUsage) : Decidable (Counted usage) :=
  inferInstanceAs (Decidable (∀ bucket : Bucket, (isCount (bucket.of (bucketsFrom usage))).isSome = true))

instance (state : TokenUsageState) : Decidable (SafeTotals state) :=
  inferInstanceAs (Decidable (∀ bucket : Bucket, (bucket.of state.totals).isSafeInteger = true))

def eventAt (seq : Nat) (data : EventData) : SessionEvent where
  seq := seq
  time := .ofNat 0
  data := data

def usageOfCounts (input output : Nat) : TokenUsage where
  inputTokens := .ofNat input
  outputTokens := .ofNat output
  totalTokens := some (.ofNat (input + output))

def usageChunkAt (seq step : Nat) (usage : TokenUsage) : SessionEvent :=
  eventAt seq (.assistantChunk (.ofNat 1) (.ofNat step)
    (.obj [("type", .str "usage"), ("usage", usage.toJson)]))

def messageAt (seq step : Nat) (usage : Option TokenUsage) : SessionEvent :=
  eventAt seq (.assistantMessage {
    turn := .ofNat 1
    step := .ofNat step
    message := ⟨"message", [], ⟨"provider", "model", none⟩⟩
    usage })

def retryAt (seq : Nat) (type : ExtensionType) : SessionEvent :=
  eventAt seq (.extension type (.obj [("turn", .ofNat 1), ("step", .ofNat 1)]))

def retriedTurn : List SessionEvent :=
  [eventAt 0 (.turnStart (.ofNat 1)), eventAt 1 (.stepStart (.ofNat 1) (.ofNat 1)),
    usageChunkAt 2 1 (usageOfCounts 10 4), retryAt 3 ⟨"llm/retry", by decide⟩,
    retryAt 4 ⟨"llm/retry-started", by decide⟩, usageChunkAt 5 1 (usageOfCounts 7 1),
    messageAt 6 1 (some (usageOfCounts 9 2)), eventAt 7 (.stepEnd (.ofNat 1) (.ofNat 1)),
    eventAt 8 (.stepStart (.ofNat 1) (.ofNat 2)), messageAt 9 2 (some (usageOfCounts 20 5)),
    eventAt 10 (.stepEnd (.ofNat 1) (.ofNat 2)), eventAt 11 (.turnEnd (.ofNat 1) .completed)]

def retriedUsage : TurnTokenUsage where
  uncachedInputTokens := .int 39
  outputTokens := .int 11
  totalTokens := .int 50
  cacheReadTokens := none
  cacheWriteTokens := none
  reasoningTokens := none
  routes := none

theorem reportsCounts_usageChunkAt {seq step input output : Nat}
    (h : Counted (usageOfCounts input output)) :
    ReportsCounts (usageChunkAt seq step (usageOfCounts input output)) :=
  fun _ => ⟨_, rfl, h⟩

theorem reportsCounts_messageAt {seq step input output : Nat}
    (h : Counted (usageOfCounts input output)) :
    ReportsCounts (messageAt seq step (some (usageOfCounts input output))) := by
  intro usage heq
  cases heq
  exact h

theorem reportsCounts_retriedTurn : ∀ event ∈ retriedTurn, ReportsCounts event := by
  unfold retriedTurn
  simp only [forall_mem_cons, not_mem_nil, false_implies, implies_true, and_true]
  exact ⟨trivial, trivial, reportsCounts_usageChunkAt (by decide), trivial, trivial,
    reportsCounts_usageChunkAt (by decide), reportsCounts_messageAt (by decide), trivial, trivial,
    reportsCounts_messageAt (by decide), trivial, trivial⟩

theorem turn_usage_agrees_retriedTurn :
    ∃ samples : List TokenUsage, samples ≠ [] ∧ attemptSamples retriedTurn = samples.map some ∧
      Tallies samples retriedUsage ∧
      ∀ (bucket : Bucket) (sum : Integral), bucket.ofTurn retriedUsage = some sum →
        (bucket.of (foldTokenUsage .nearest retriedTurn).totals).toInt -
          (bucket.of (foldTokenUsage .nearest []).totals).toInt = sum.toInt := by
  obtain ⟨samples, hne, hsamples, htallies, hgrows⟩ :=
    turn_usage_agrees .nearest [] retriedTurn [] _ rfl retriedUsage (by decide)
  exact ⟨samples, hne, hsamples, htallies,
    hgrows reportsCounts_retriedTurn (by decide)⟩

def hugeReport : List SessionEvent :=
  [eventAt 0 (.turnStart (.ofNat 1)), eventAt 1 (.stepStart (.ofNat 1) (.ofNat 1)),
    messageAt 2 1 (some (usageOfCounts 3 1)), eventAt 3 (.stepEnd (.ofNat 1) (.ofNat 1)),
    eventAt 4 (.stepStart (.ofNat 1) (.ofNat 2)), usageChunkAt 5 2 (usageOfCounts (2 ^ 60) 1),
    messageAt 6 2 (some (usageOfCounts 5 1)), eventAt 7 (.stepEnd (.ofNat 1) (.ofNat 2)),
    eventAt 8 (.turnEnd (.ofNat 1) .completed)]

/-- The huge report is taken out of the totals again, but what they had before is lost with it. -/
theorem hugeReport_disagrees :
    (∃ trace, seedSession hugeReport = .ok trace) ∧
      ∃ usage, deriveTurnTokenUsage Arithmetic.nearest.rounding hugeReport = some usage ∧
        (foldTokenUsage .nearest hugeReport).totals.uncachedInputTokens.toInt -
          (foldTokenUsage .nearest []).totals.uncachedInputTokens.toInt ≠
            usage.uncachedInputTokens.toInt := by
  refine ⟨⟨_, rfl⟩, ⟨.int 8, .int 2, .int 10, none, none, none, some [⟨"provider", "model"⟩]⟩, ?_, ?_⟩
  · decide
  · decide

end DshKernel.TokenMeter
