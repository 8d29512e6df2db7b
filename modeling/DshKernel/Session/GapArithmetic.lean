import DshKernel.Session.ChunkRowsRepack

/-!
# Gaps at the edge of safe integers

Doubles tell the packer and the validator what exact integers would: whether two members are
packed together depends on their true gap, and whether a row is accepted on its true members.
-/

namespace DshKernel.Session

open Js

/-- The members of a run follow each other in one block; their times are not looked at. -/
def SameBlock (prev next : DeltaEvent) : Prop :=
  next.seq = prev.seq + 1 ∧ next.shape.turn.strictEq prev.shape.turn = true ∧
    next.shape.step.strictEq prev.shape.step = true ∧
    next.shape.index.strictEq prev.shape.index = true ∧ prev.shape.call = next.shape.call

def exactTimes (time : Int) (gaps : List Integral) : List Int :=
  gaps.scanl (fun time gap => time + gap.toInt) time

def ChunkRow.memberSeqs (row : ChunkRow) : List Nat :=
  (List.range row.texts.length).map fun k => row.seq0 + k

def ChunkRow.memberTimes (row : ChunkRow) : List Int := exactTimes row.time0.toInt row.gaps

/-- What `validateRow` reads and checks before the bounds of the members. -/
def readRow (value : Json) (kind : DeltaKind) : Except StorageError ChunkRow :=
  let tag := kind.rowType
  if !hasExactKeys value ["type", "seq0", "time0", "data"] then
    .error (.malformed tag "envelope must be exactly \x7btype, seq0, time0, data\x7d")
  else
    match (value.get? "seq0").bind isEventSeq with
    | none => .error (.malformed tag "seq0 must be a non-negative safe integer")
    | some seq0 =>
      match (value.get? "time0").bind asSafeInteger with
      | none => .error (.malformed tag "time0 must be a safe integer")
      | some time0 =>
        match (value.get? "data").filter Json.isObject with
        | none => .error (.malformed tag "data must be an object")
        | some data =>
          match validateRowCall tag kind data with
          | .error failure => .error failure
          | .ok call =>
            match validateRunData tag data
                (if kind = .toolCallDelta then "args" else "texts") with
            | .error failure => .error failure
            | .ok ((turn, step, index), first, rest) =>
              .ok ⟨⟨kind, turn, step, index, call⟩, seq0, time0, first, rest⟩

/-- The reconstruction bounds of `validateRow`. -/
def checkMembers (R : Rounding) (tag : String) (row : ChunkRow) : Except StorageError ChunkRow :=
  if maxSafeInteger < row.seq0 + row.rest.length then
    .error (.malformed tag "member seqs must stay safe integers")
  else if !timesStaySafe R row.time0 row.gaps then
    .error (.malformed tag "member times must stay safe integers")
  else .ok row

section Validator

variable {R : Rounding} {value : Json} {kind : DeltaKind} {row : ChunkRow}

theorem validateRow_eq (R : Rounding) (value : Json) (kind : DeltaKind) :
    validateRow R value kind = (readRow value kind).bind (checkMembers R kind.rowType) := by
  unfold validateRow readRow
  dsimp only
  cases hasExactKeys value ["type", "seq0", "time0", "data"] with
  | false => rfl
  | true =>
    cases (value.get? "seq0").bind isEventSeq with
    | none => rfl
    | some seq0 =>
      cases (value.get? "time0").bind asSafeInteger with
      | none => rfl
      | some time0 =>
        cases (value.get? "data").filter Json.isObject with
        | none => rfl
        | some data =>
          dsimp only
          cases validateRowCall kind.rowType kind data with
          | error failure => rfl
          | ok call =>
            dsimp only
            cases validateRunData kind.rowType data
                (if kind = .toolCallDelta then "args" else "texts") with
            | error failure => rfl
            | ok run => rfl

theorem readRow_safe (h : readRow value kind = .ok row) :
    row.time0.isSafe = true ∧ ∀ gap ∈ row.gaps, gap.isSafe = true := by
  unfold readRow at h
  dsimp only at h
  split at h
  · cases h
  split at h
  · cases h
  split at h
  · cases h
  rename_i time0 htime
  split at h
  · cases h
  split at h
  · cases h
  split at h
  · cases h
  rename_i turn step index first rest hrun
  cases h
  obtain ⟨timeValue, -, hread⟩ := Option.bind_eq_some_iff.mp htime
  exact ⟨(asSafeInteger_eq_some hread).2, (runData_of_validateRunData hrun).gaps⟩

theorem timesStaySafe_iff {time : Integral} {gaps : List Integral} (htime : time.isSafe = true)
    (hgaps : ∀ gap ∈ gaps, gap.isSafe = true) : timesStaySafe R time gaps = true ↔
      ∀ member ∈ exactTimes time.toInt gaps, member.natAbs ≤ maxSafeInteger := by
  have hhead := (Integral.isSafe_iff time).mp htime
  induction gaps generalizing time with
  | nil => simpa [timesStaySafe, exactTimes] using hhead
  | cons gap rest ih =>
    obtain ⟨hgap, hrest⟩ := List.forall_mem_cons.mp hgaps
    have hsum := Integral.isSafe_add_iff R htime hgap
    rw [timesStaySafe, Bool.and_eq_true, exactTimes, List.scanl_cons, List.forall_mem_cons]
    constructor
    · rintro ⟨hsafe, hlater⟩
      have hexact := Integral.toInt_add_of_isSafe R (hsum.mp hsafe)
      have hmembers := (ih hsafe hrest ((Integral.isSafe_iff _).mp hsafe)).mp hlater
      rw [hexact] at hmembers
      exact ⟨hhead, hmembers⟩
    · rintro ⟨-, hmembers⟩
      have hfirst : (time.toInt + gap.toInt).natAbs ≤ maxSafeInteger := by
        apply hmembers
        cases rest <;> simp
      have hsafe := hsum.mpr hfirst
      rw [← Integral.toInt_add_of_isSafe R hfirst] at hmembers
      exact ⟨hsafe, (ih hsafe hrest ((Integral.isSafe_iff _).mp hsafe)).mpr hmembers⟩

theorem memberSeqs_safe : (∀ seq ∈ row.memberSeqs, seq ≤ maxSafeInteger) ↔
    row.seq0 + row.rest.length ≤ maxSafeInteger := by
  simp only [ChunkRow.memberSeqs, ChunkRow.texts, List.length_cons, List.length_map, List.mem_map,
    List.mem_range]
  constructor
  · intro h
    exact h _ ⟨row.rest.length, Nat.lt_succ_self _, rfl⟩
  · rintro h seq ⟨k, hk, rfl⟩
    omega

theorem validateRow_eq_ok : validateRow R value kind = .ok row ↔
    readRow value kind = .ok row ∧ (∀ seq ∈ row.memberSeqs, seq ≤ maxSafeInteger) ∧
      ∀ time ∈ row.memberTimes, time.natAbs ≤ maxSafeInteger := by
  rw [validateRow_eq]
  cases hread : readRow value kind with
  | error failure =>
    constructor
    · intro h
      cases h
    · rintro ⟨h, -⟩
      cases h
  | ok read =>
    obtain ⟨htime, hgaps⟩ := readRow_safe hread
    have htimes := @timesStaySafe_iff R read.time0 read.gaps htime hgaps
    change checkMembers R kind.rowType read = .ok row ↔ _
    unfold checkMembers
    constructor
    · intro h
      split at h
      · cases h
      rename_i hroom
      split at h
      · cases h
      rename_i hsafe
      cases h
      exact ⟨rfl, memberSeqs_safe.mpr (Nat.le_of_not_lt hroom), htimes.mp (by simpa using hsafe)⟩
    · rintro ⟨h, hseqs, hmembers⟩
      cases h
      have hsafe := htimes.mpr hmembers
      rw [if_neg (Nat.not_lt.mpr (memberSeqs_safe.mp hseqs)), if_neg (by simp [hsafe])]

end Validator

/-- However sums beyond 53 bits are rounded, events are packed together and rows accepted just when
their gaps, seqs and times are safe in exact integers. -/
theorem gap_arithmetic_exact (R : Rounding) :
    (∀ (event event' : Json) (prev next : DeltaEvent), classify event = some prev →
      classify event' = some next → (continues R prev next = true ↔
        SameBlock prev next ∧ (next.time.toInt - prev.time.toInt).natAbs ≤ maxSafeInteger)) ∧
    ∀ (value : Json) (kind : DeltaKind) (row : ChunkRow), validateRow R value kind = .ok row ↔
      readRow value kind = .ok row ∧ (∀ seq ∈ row.memberSeqs, seq ≤ maxSafeInteger) ∧
        ∀ time ∈ row.memberTimes, time.natAbs ≤ maxSafeInteger := by
  constructor
  · intro event event' prev next hprev hnext
    have hgap := Integral.isSafe_sub_iff R (readAs_of_classify hnext).time
      (readAs_of_classify hprev).time
    simp only [continues, SameBlock, Bool.and_eq_true, beq_iff_eq, hgap]
    constructor
    · rintro ⟨⟨⟨⟨⟨hseq, hsafe⟩, hturn⟩, hstep⟩, hindex⟩, hcall⟩
      exact ⟨⟨hseq, hturn, hstep, hindex, hcall⟩, hsafe⟩
    · rintro ⟨⟨hseq, hturn, hstep, hindex, hcall⟩, hsafe⟩
      exact ⟨⟨⟨⟨⟨hseq, hsafe⟩, hturn⟩, hstep⟩, hindex⟩, hcall⟩
  · intro value kind row
    exact validateRow_eq_ok

def edgeDelta (seq : Nat) (time : Int) : DeltaEvent :=
  memberDelta ⟨.textDelta, .ofNat 1, .ofNat 1, .ofNat 0, none⟩ seq (.int time) "a"

theorem classify_edgeDelta {seq : Nat} {time : Int} (hseq : seq ≤ maxSafeInteger)
    (htime : time.natAbs ≤ maxSafeInteger) :
    classify (edgeDelta seq time).event = some (edgeDelta seq time) :=
  classify_memberEvent (by simp [RunShape.Proper]) hseq
    ((Integral.isSafe_iff (.int time)).mpr htime) "a"

/-- A gap of `2 ^ 53 - 1` is packed, one more is not. -/
theorem gap_arithmetic_exact_edge :
    continues .nearest (edgeDelta 0 0) (edgeDelta 1 (2 ^ 53 - 1)) = true ∧
      ¬ continues .nearest (edgeDelta 0 (-1)) (edgeDelta 1 (2 ^ 53 - 1)) = true := by
  have hlast := @classify_edgeDelta 1 (2 ^ 53 - 1) (by decide) (by decide)
  constructor
  · apply ((gap_arithmetic_exact .nearest).1 _ _ _ _ (classify_edgeDelta (by decide) (by decide))
      hlast).mpr
    exact ⟨by unfold SameBlock; decide, by decide⟩
  · intro h
    have hgap := (((gap_arithmetic_exact .nearest).1 _ _ _ _
      (classify_edgeDelta (by decide) (by decide)) hlast).mp h).2
    revert hgap
    decide

end DshKernel.Session
