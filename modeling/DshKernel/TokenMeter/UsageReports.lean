import DshKernel.TokenMeter.UsageProjection
import Mathlib.Algebra.Order.BigOperators.Group.List

/-!
# The usage reports that count

The accumulated usage as the reports that no later one of their attempt has replaced. The state of
the projection has the sum of them, exactly while that sum is a safe integer.
-/

namespace DshKernel.TokenMeter

open Js Session Option

/-- `z.number().int().nonnegative()` -/
def nonnegativeInt (value : Number) : Bool := (isCount value).isSome

def projectionSchema (value : TokenUsageProjection) : Bool :=
  nonnegativeInt value.uncachedInputTokens && nonnegativeInt value.outputTokens
    && nonnegativeInt value.cacheReadTokens && nonnegativeInt value.cacheWriteTokens

def tokenUsageStateSchema (state : TokenUsageState) : Bool :=
  projectionSchema state.totals && state.last.all fun last =>
    nonnegativeInt last.turn && nonnegativeInt last.step && projectionSchema last.buckets

structure UsageReport where
  turn : Number
  step : Number
  usage : TokenUsage

def reportOf (event : SessionEvent) : Option UsageReport :=
  match event.data with
  | .assistantChunk turn step chunk => (chunkUsage chunk).map (⟨turn, step, ·⟩)
  | .assistantMessage data => data.usage.map (⟨data.turn, data.step, ·⟩)
  | _ => none

def retryOf (event : SessionEvent) : Option (Number × Number) :=
  match event.data with
  | .extension type data => if type.val = "llm/retry-started" then retryPlace data else none
  | _ => none

def reportFits (report : UsageReport) : Bool :=
  nonnegativeInt report.turn && nonnegativeInt report.step
    && projectionSchema (bucketsFrom report.usage)

/-- The reports that no later one has replaced: those that none can replace any more, and the
last one while a report of the same attempt still may. -/
structure UsageReports where
  closed : List TokenUsageProjection := []
  last : Option LastUsage := none

namespace UsageReports

def close (reports : UsageReports) : UsageReports where
  closed := (reports.last.map (·.buckets)).toList ++ reports.closed

def lastOf (reports : UsageReports) (turn step : Number) : Option LastUsage :=
  reports.last.filter fun last => last.turn.strictEq turn && last.step.strictEq step

def report (reports : UsageReports) (next : UsageReport) : UsageReports :=
  let filed : LastUsage := ⟨next.turn, next.step, bucketsFrom next.usage⟩
  match reports.lastOf next.turn next.step with
  | none => { reports.close with last := some filed }
  | some last =>
    if bucketsEqual last.buckets filed.buckets then reports
    else { reports with last := some filed }

def event (reports : UsageReports) (event : SessionEvent) : UsageReports :=
  match reportOf event, retryOf event with
  | some next, _ => reports.report next
  | none, some (turn, step) =>
    if (reports.lastOf turn step).isSome then reports.close else reports
  | none, none => reports

def amount (reports : UsageReports) (bucket : Bucket) : Int :=
  (reports.closed.map fun buckets => (bucket.of buckets).toInt).sum +
    (reports.last.map fun last => (bucket.of last.buckets).toInt).getD 0

@[simp] theorem last_close (reports : UsageReports) : reports.close.last = none := rfl

@[simp] theorem amount_close (reports : UsageReports) (bucket : Bucket) :
    reports.close.amount bucket = reports.amount bucket := by
  unfold amount close
  cases reports.last with
  | none => simp
  | some last =>
    simp only [map_some, toList_some, List.singleton_append, List.map_cons,
      List.sum_cons, map_none, getD_none, getD_some]
    omega

end UsageReports

def usageReports (log : List SessionEvent) : UsageReports :=
  log.foldl UsageReports.event {}

def SumsFit (reports : UsageReports) : Prop :=
  ∀ bucket : Bucket, reports.amount bucket ≤ maxSafeInteger

section Numbers

variable {a b t p n : Number}

theorem nonnegativeInt_iff : nonnegativeInt a = true ↔ a.isSafeInteger = true ∧ 0 ≤ a.toInt := by
  unfold nonnegativeInt
  rw [isSome_iff_exists]
  constructor
  · rintro ⟨count, hcount⟩
    obtain ⟨rfl, hsafe, hnonneg⟩ := isCount_eq_some.mp hcount
    exact ⟨hsafe, hnonneg⟩
  · rintro ⟨hsafe, hnonneg⟩
    cases a with
    | integral x => exact ⟨x, isCount_eq_some.mpr ⟨rfl, hsafe, hnonneg⟩⟩
    | _ => cases hsafe

theorem toInt_le_of_nonnegativeInt (h : nonnegativeInt a = true) : a.toInt ≤ maxSafeInteger := by
  obtain ⟨hsafe, -⟩ := nonnegativeInt_iff.mp h
  have hle := natAbs_toInt_le hsafe
  omega

theorem nonnegativeInt_of_strictEq (h : nonnegativeInt a = true) (heq : a.strictEq b = true) :
    nonnegativeInt b = true := by
  obtain ⟨hsafe, hnonneg⟩ := nonnegativeInt_iff.mp h
  cases a with
  | integral x =>
    cases b with
    | integral y =>
      have hxy : x.toInt = y.toInt := by
        simpa [Number.strictEq, Integral.strictEq] using heq
      apply nonnegativeInt_iff.mpr
      refine ⟨(Integral.isSafe_iff y).mpr ?_, ?_⟩
      · rw [← hxy]
        exact (Integral.isSafe_iff x).mp hsafe
      · show 0 ≤ y.toInt
        rw [← hxy]
        exact hnonneg
    | _ => simp [Number.strictEq] at heq
  | _ => cases hsafe

variable (A : Arithmetic)

theorem isSafeInteger_add_iff (ha : a.isSafeInteger = true) (hb : b.isSafeInteger = true) :
    (A.add a b).isSafeInteger = true ↔ (a.toInt + b.toInt).natAbs ≤ maxSafeInteger := by
  cases a with
  | integral x =>
    cases b with
    | integral y =>
      rw [A.add_integral x y ha hb]
      exact Integral.isSafe_add_iff A.rounding ha hb
    | _ => cases hb
  | _ => cases ha

theorem nonnegativeInt_replacing (ht : nonnegativeInt t = true) (hp : nonnegativeInt p = true)
    (hn : nonnegativeInt n = true) (hle : p.toInt ≤ t.toInt) :
    nonnegativeInt (A.add (A.sub t p) n) = true ↔
      t.toInt - p.toInt + n.toInt ≤ maxSafeInteger := by
  have htop := toInt_le_of_nonnegativeInt ht
  obtain ⟨htSafe, htNonneg⟩ := nonnegativeInt_iff.mp ht
  obtain ⟨hpSafe, hpNonneg⟩ := nonnegativeInt_iff.mp hp
  obtain ⟨hnSafe, hnNonneg⟩ := nonnegativeInt_iff.mp hn
  obtain ⟨hsubSafe, hsub⟩ := A.toInt_sub htSafe hpSafe (by omega)
  rw [nonnegativeInt_iff, isSafeInteger_add_iff A hsubSafe hnSafe, hsub]
  constructor
  · rintro ⟨hsafe, -⟩
    omega
  · intro hsum
    have hsafe : (t.toInt - p.toInt + n.toInt).natAbs ≤ maxSafeInteger := by omega
    refine ⟨hsafe, ?_⟩
    rw [← hsub] at hsafe
    rw [A.toInt_add hsubSafe hnSafe ((isSafeInteger_add_iff A hsubSafe hnSafe).mpr hsafe), hsub]
    omega

theorem toInt_replacing (ht : nonnegativeInt t = true) (hp : nonnegativeInt p = true)
    (hn : nonnegativeInt n = true) (hle : p.toInt ≤ t.toInt)
    (hsum : nonnegativeInt (A.add (A.sub t p) n) = true) :
    (A.add (A.sub t p) n).toInt = t.toInt - p.toInt + n.toInt := by
  have htop := toInt_le_of_nonnegativeInt ht
  obtain ⟨htSafe, htNonneg⟩ := nonnegativeInt_iff.mp ht
  obtain ⟨hpSafe, hpNonneg⟩ := nonnegativeInt_iff.mp hp
  obtain ⟨hsubSafe, hsub⟩ := A.toInt_sub htSafe hpSafe (by omega)
  rw [A.toInt_add hsubSafe (nonnegativeInt_iff.mp hn).1 (nonnegativeInt_iff.mp hsum).1, hsub]

end Numbers

section Schema

variable {state : TokenUsageState} {value : TokenUsageProjection} {report : UsageReport}

theorem projectionSchema_iff :
    projectionSchema value = true ↔ ∀ bucket : Bucket, nonnegativeInt (bucket.of value) = true := by
  unfold projectionSchema
  rw [Bool.and_eq_true, Bool.and_eq_true, Bool.and_eq_true]
  constructor
  · rintro ⟨⟨⟨hinput, houtput⟩, hread⟩, hwrite⟩ bucket
    cases bucket with
    | uncachedInput => exact hinput
    | output => exact houtput
    | cacheRead => exact hread
    | cacheWrite => exact hwrite
  · intro h
    exact ⟨⟨⟨h .uncachedInput, h .output⟩, h .cacheRead⟩, h .cacheWrite⟩

theorem projectionSchema_zeroBuckets : projectionSchema zeroBuckets = true := by decide

theorem tokenUsageStateSchema_iff :
    tokenUsageStateSchema state = true ↔ projectionSchema state.totals = true ∧
      ∀ last, state.last = some last → nonnegativeInt last.turn = true ∧
        nonnegativeInt last.step = true ∧ projectionSchema last.buckets = true := by
  unfold tokenUsageStateSchema
  rw [Bool.and_eq_true]
  apply and_congr_right
  intro _
  cases state.last with
  | none => simp
  | some last => simp [and_assoc]

theorem reportFits_iff :
    reportFits report = true ↔ nonnegativeInt report.turn = true ∧
      nonnegativeInt report.step = true ∧ projectionSchema (bucketsFrom report.usage) = true := by
  simp [reportFits, and_assoc]

end Schema

structure Tracks (reports : UsageReports) (state : TokenUsageState) : Prop where
  last : reports.last = state.last
  totals : ∀ bucket : Bucket, (bucket.of state.totals).toInt = reports.amount bucket
  closed : ∀ buckets ∈ reports.closed, ∀ bucket : Bucket, 0 ≤ (bucket.of buckets).toInt

section Steps

variable {A : Arithmetic} {reports : UsageReports} {state : TokenUsageState}
  {event : SessionEvent} {next : UsageReport}

theorem applyTokenUsage_of_report (h : reportOf event = some next) :
    applyTokenUsage A state event = addReport A state next.turn next.step next.usage := by
  unfold reportOf at h
  unfold applyTokenUsage
  split at h
  · rename_i hdata
    obtain ⟨usage, husage, rfl⟩ := map_eq_some_iff.mp h
    simp [hdata, husage]
  · rename_i hdata
    obtain ⟨usage, husage, rfl⟩ := map_eq_some_iff.mp h
    simp [hdata, husage]
  · cases h

theorem applyTokenUsage_of_reportless (h : reportOf event = none) :
    applyTokenUsage A state event =
      match retryOf event with
      | some (turn, step) => if (lastAt state turn step).isSome then { state with last := none }
        else state
      | none => state := by
  unfold reportOf at h
  unfold applyTokenUsage retryOf
  cases hdata : event.data with
  | assistantChunk turn step chunk =>
    rw [hdata] at h
    simp only [map_eq_none_iff] at h
    simp [h]
  | assistantMessage data =>
    rw [hdata] at h
    simp only [map_eq_none_iff] at h
    simp [h]
  | extension type data =>
    by_cases htype : type.val = "llm/retry-started"
    · cases hplace : retryPlace data with
      | none => simp [htype, hplace]
      | some place => simp [htype, hplace]
    · simp [htype]
  | _ => rfl

theorem Tracks.lastOf_eq (h : Tracks reports state) (turn step : Number) :
    reports.lastOf turn step = lastAt state turn step := by
  rw [UsageReports.lastOf, h.last, lastAt]

theorem Tracks.replaced (h : Tracks reports state) (hpass : tokenUsageStateSchema state = true)
    (turn step : Number) (bucket : Bucket) {previous : TokenUsageProjection}
    (hprevious : ((lastAt state turn step).map (·.buckets)).getD zeroBuckets = previous) :
    nonnegativeInt (bucket.of previous) = true ∧
      (bucket.of previous).toInt ≤ (bucket.of state.totals).toInt := by
  obtain ⟨htotals, hlast⟩ := tokenUsageStateSchema_iff.mp hpass
  have hsum := (nonnegativeInt_iff.mp (projectionSchema_iff.mp htotals bucket)).2
  cases hslot : lastAt state turn step with
  | none =>
    rw [hslot] at hprevious
    cases hprevious
    refine ⟨projectionSchema_iff.mp projectionSchema_zeroBuckets bucket, ?_⟩
    cases bucket <;> exact hsum
  | some last =>
    rw [hslot] at hprevious
    cases hprevious
    obtain ⟨hstate, -⟩ := filter_eq_some_iff.mp hslot
    refine ⟨projectionSchema_iff.mp (hlast last hstate).2.2 bucket, ?_⟩
    rw [h.totals, UsageReports.amount, h.last, hstate]
    have hclosed : 0 ≤ (reports.closed.map fun buckets => (bucket.of buckets).toInt).sum := by
      apply List.sum_nonneg
      intro value hmem
      obtain ⟨buckets, hbuckets, rfl⟩ := List.mem_map.mp hmem
      exact h.closed buckets hbuckets bucket
    show (bucket.of last.buckets).toInt ≤ _ + (bucket.of last.buckets).toInt
    omega

theorem Tracks.closed_close (h : Tracks reports state)
    (hpass : tokenUsageStateSchema state = true) :
    ∀ buckets ∈ reports.close.closed, ∀ bucket : Bucket, 0 ≤ (bucket.of buckets).toInt := by
  intro buckets hmem bucket
  rcases List.mem_append.mp hmem with hlast | hclosed
  · rw [h.last, mem_toList] at hlast
    obtain ⟨last, hstate, rfl⟩ := map_eq_some_iff.mp hlast
    have hbuckets := ((tokenUsageStateSchema_iff.mp hpass).2 last hstate).2.2
    exact (nonnegativeInt_iff.mp (projectionSchema_iff.mp hbuckets bucket)).2
  · exact h.closed buckets hclosed bucket

theorem Tracks.report_cases (h : Tracks reports state)
    (hpass : tokenUsageStateSchema state = true) (next : UsageReport) :
    (reports.report next = reports ∧ addReport A state next.turn next.step next.usage = state ∧
      ∃ last, state.last = some last ∧ last.turn.strictEq next.turn = true ∧
        last.step.strictEq next.step = true ∧
        bucketsEqual last.buckets (bucketsFrom next.usage) = true) ∨
    ∃ previous, ((lastAt state next.turn next.step).map (·.buckets)) = previous ∧
      addReport A state next.turn next.step next.usage =
        ⟨addReplacing A state.totals previous (bucketsFrom next.usage),
          some ⟨next.turn, next.step, bucketsFrom next.usage⟩⟩ ∧
      (reports.report next).last = some ⟨next.turn, next.step, bucketsFrom next.usage⟩ ∧
      (∀ bucket, (reports.report next).amount bucket = reports.amount bucket -
        (bucket.of (previous.getD zeroBuckets)).toInt +
          (bucket.of (bucketsFrom next.usage)).toInt) ∧
      ∀ buckets ∈ (reports.report next).closed, ∀ bucket : Bucket,
        0 ≤ (bucket.of buckets).toInt := by
  unfold UsageReports.report addReport
  rw [h.lastOf_eq]
  cases hslot : lastAt state next.turn next.step with
  | none =>
    refine Or.inr ⟨none, rfl, rfl, rfl, ?_, ?_⟩
    · intro bucket
      have hclose := reports.amount_close bucket
      rw [UsageReports.amount, UsageReports.last_close] at hclose
      simp only [map_none, getD_none, Int.add_zero] at hclose
      have hzero : (bucket.of zeroBuckets).toInt = 0 := by cases bucket <;> rfl
      simp only [UsageReports.amount, hclose, map_some, getD_some, getD_none,
        hzero]
      omega
    · exact h.closed_close hpass
  | some last =>
    obtain ⟨hstate, hplace⟩ := filter_eq_some_iff.mp hslot
    rw [Bool.and_eq_true] at hplace
    cases hequal : bucketsEqual last.buckets (bucketsFrom next.usage) with
    | true =>
      refine Or.inl ⟨by simp [hequal], by simp [hequal], last, hstate, hplace.1, hplace.2, hequal⟩
    | false =>
      refine Or.inr ⟨some last.buckets, rfl, by simp [hequal], by simp [hequal], ?_, ?_⟩
      · intro bucket
        simp only [hequal, Bool.false_eq_true, if_false, UsageReports.amount, h.last, hstate,
          map_some, getD_some]
        omega
      · intro buckets hmem
        simp only [hequal, Bool.false_eq_true, if_false] at hmem
        exact h.closed buckets hmem

theorem Tracks.sumsFit (h : Tracks reports state) (hpass : tokenUsageStateSchema state = true) :
    SumsFit reports := by
  intro bucket
  rw [← h.totals]
  obtain ⟨htotals, -⟩ := tokenUsageStateSchema_iff.mp hpass
  exact toInt_le_of_nonnegativeInt (projectionSchema_iff.mp htotals bucket)

theorem Tracks.addReport (h : Tracks reports state) (hpass : tokenUsageStateSchema state = true)
    (next : UsageReport) :
    (tokenUsageStateSchema (addReport A state next.turn next.step next.usage) = true ↔
      reportFits next = true ∧ SumsFit (reports.report next)) ∧
    (tokenUsageStateSchema (TokenMeter.addReport A state next.turn next.step next.usage) = true →
      Tracks (reports.report next)
        (TokenMeter.addReport A state next.turn next.step next.usage)) := by
  obtain ⟨htotals, hlastFits⟩ := tokenUsageStateSchema_iff.mp hpass
  have hcounts := projectionSchema_iff.mp htotals
  rcases h.report_cases (A := A) hpass next with
    ⟨hreports, hstate, last, hlast, hturn, hstep, hequal⟩ |
    ⟨previous, hprevious, hstate, hreports, hamounts, hclosed⟩
  · rw [hreports, hstate]
    refine ⟨?_, fun _ => h⟩
    obtain ⟨hturnFits, hstepFits, hbuckets⟩ := hlastFits last hlast
    constructor
    · intro _
      refine ⟨reportFits_iff.mpr ⟨nonnegativeInt_of_strictEq hturnFits hturn,
        nonnegativeInt_of_strictEq hstepFits hstep, ?_⟩, h.sumsFit hpass⟩
      apply projectionSchema_iff.mpr
      intro bucket
      exact nonnegativeInt_of_strictEq (projectionSchema_iff.mp hbuckets bucket)
        (strictEq_of_bucketsEqual hequal bucket)
    · intro _
      exact hpass
  · rw [hstate]
    have hreplaced := fun bucket => h.replaced hpass next.turn next.step bucket
      (congrArg (fun slot => getD slot zeroBuckets) hprevious)
    constructor
    · rw [tokenUsageStateSchema_iff, reportFits_iff, projectionSchema_iff]
      constructor
      · rintro ⟨hsums, hlast⟩
        obtain ⟨hturn, hstep, hbuckets⟩ := hlast _ rfl
        refine ⟨⟨hturn, hstep, hbuckets⟩, ?_⟩
        intro bucket
        have hsum := hsums bucket
        rw [of_addReplacing] at hsum
        rw [hamounts, ← h.totals]
        exact (nonnegativeInt_replacing A (hcounts bucket) (hreplaced bucket).1
          (projectionSchema_iff.mp hbuckets bucket) (hreplaced bucket).2).mp hsum
      · rintro ⟨⟨hturn, hstep, hbuckets⟩, hsums⟩
        refine ⟨?_, ?_⟩
        · intro bucket
          have hsum := hsums bucket
          rw [hamounts, ← h.totals] at hsum
          rw [of_addReplacing]
          exact (nonnegativeInt_replacing A (hcounts bucket) (hreplaced bucket).1
            (projectionSchema_iff.mp hbuckets bucket) (hreplaced bucket).2).mpr hsum
        · intro last hlast
          cases hlast
          exact ⟨hturn, hstep, hbuckets⟩
    · intro hnext
      obtain ⟨hsums, hlast⟩ := tokenUsageStateSchema_iff.mp hnext
      obtain ⟨-, -, hbuckets⟩ := hlast _ rfl
      refine ⟨hreports, ?_, hclosed⟩
      intro bucket
      have hsum := projectionSchema_iff.mp hsums bucket
      rw [of_addReplacing] at hsum ⊢
      rw [hamounts, ← h.totals]
      exact toInt_replacing A (hcounts bucket) (hreplaced bucket).1
        (projectionSchema_iff.mp hbuckets bucket) (hreplaced bucket).2 hsum

theorem Tracks.close (h : Tracks reports state) (hpass : tokenUsageStateSchema state = true) :
    Tracks reports.close { state with last := none } := by
  refine ⟨rfl, ?_, h.closed_close hpass⟩
  intro bucket
  rw [reports.amount_close]
  exact h.totals bucket

theorem Tracks.step (h : Tracks reports state) (hpass : tokenUsageStateSchema state = true)
    (event : SessionEvent) :
    (tokenUsageStateSchema (applyTokenUsage A state event) = true ↔
      (reportOf event).all reportFits = true ∧ SumsFit (reports.event event)) ∧
    (tokenUsageStateSchema (applyTokenUsage A state event) = true →
      Tracks (reports.event event) (applyTokenUsage A state event)) := by
  unfold UsageReports.event
  cases hreport : reportOf event with
  | some next =>
    rw [applyTokenUsage_of_report hreport]
    exact h.addReport hpass next
  | none =>
    rw [applyTokenUsage_of_reportless hreport]
    obtain ⟨htotals, -⟩ := tokenUsageStateSchema_iff.mp hpass
    cases hretry : retryOf event with
    | none => exact ⟨by simp [hpass, h.sumsFit hpass], fun _ => h⟩
    | some place =>
      obtain ⟨turn, step⟩ := place
      simp only [h.lastOf_eq]
      cases hslot : (lastAt state turn step).isSome with
      | false =>
        simp only [Bool.false_eq_true, if_false]
        exact ⟨by simp [hpass, h.sumsFit hpass], fun _ => h⟩
      | true =>
        have hclosed : tokenUsageStateSchema { state with last := none } = true := by
          refine tokenUsageStateSchema_iff.mpr ⟨htotals, ?_⟩
          intro last hlast
          cases hlast
        simp only [if_true, hclosed]
        exact ⟨by simp [(h.close hpass).sumsFit hclosed], fun _ => h.close hpass⟩

end Steps

end DshKernel.TokenMeter
