import DshKernel.Session.ChunkRowsRead

/-!
# Packing is lossless

A run of whitelisted events expands from its row to its members again, exactly, because
within the safe integers the gaps of the times add up to the times.
-/

namespace DshKernel.Session

open Js

section Lossless

mutual

theorem isLossless_of_same : ∀ {v w : Json}, Json.Same v w → w.isLossless = true →
    v.isLossless = true
  | .null, _, _, _ => rfl
  | .bool _, _, _, _ => rfl
  | .str _, _, _, _ => rfl
  | .num n, .num m, h, hw => by
    have heq : n = m := by simpa [Json.Same, Json.equalBy] using h
    rw [heq]
    exact hw
  | .arr xs, .arr ys, h, hw => itemsLossless_of_same h hw
  | .obj xs, .obj ys, h, hw => by
    have hfields : Json.fieldsEqualBy (· == ·) xs ys = true := by
      simp only [Json.Same, Json.equalBy, Bool.and_eq_true] at h
      exact h.2
    exact fieldsLossless_of_same hfields (Json.fieldsLossless_iff.mp hw)

theorem itemsLossless_of_same : ∀ {xs ys : List Json},
    Json.itemsEqualBy (· == ·) xs ys = true → Json.itemsLossless ys = true →
    Json.itemsLossless xs = true
  | [], _, _, _ => rfl
  | x :: xs, y :: ys, h, hys => by
    simp only [Json.itemsEqualBy, Json.itemsLossless, Bool.and_eq_true] at h hys ⊢
    exact ⟨isLossless_of_same h.1 hys.1, itemsLossless_of_same h.2 hys.2⟩

theorem fieldsLossless_of_same : ∀ {xs ys : List (String × Json)},
    Json.fieldsEqualBy (· == ·) xs ys = true → (∀ field ∈ ys, field.2.isLossless = true) →
    Json.fieldsLossless xs = true
  | [], _, _, _ => rfl
  | (key, x) :: xs, ys, h, hys => by
    simp only [Json.fieldsEqualBy, Json.fieldsLossless, Bool.and_eq_true] at h ⊢
    refine ⟨?_, fieldsLossless_of_same h.2 hys⟩
    cases hlookup : ys.lookup key with
    | none => simp [hlookup] at h
    | some y =>
      simp only [hlookup] at h
      exact isLossless_of_same h.1 (hys (key, y) (Lib.mem_of_lookup_eq_some hlookup))

end

end Lossless

section Arithmetic

variable {R : Rounding}

theorem add_sub_of_isSafe {x y : Int} (hx : (Integral.int x).isSafe = true)
    (hy : (Integral.int y).isSafe = true)
    (hgap : (Integral.sub R (.int y) (.int x)).isSafe = true) :
    Integral.sub R (.int y) (.int x) = .int (y - x) ∧
      Integral.add R (.int x) (Integral.sub R (.int y) (.int x)) = .int y := by
  have hexact := (Integral.isSafe_sub_iff R hy hx).mp hgap
  simp only [Integral.toInt_int] at hexact
  rw [Integral.isSafe_iff] at hx hy
  simp only [Integral.toInt_int] at hx hy
  have hsub : Integral.sub R (.int y) (.int x) = .int (y - x) := by
    unfold Integral.sub Integral.neg
    by_cases hzero : x = 0
    · simp [hzero, Integral.add]
    · simp only [hzero, if_false, Integral.add]
      rw [R.exact _ (by omega), Int.sub_eq_add_neg]
  refine ⟨hsub, ?_⟩
  rw [hsub, Integral.add, R.exact _ (by omega)]
  congr 1
  omega

end Arithmetic

section Run

variable {R : Rounding}

def IsRun (R : Rounding) : DeltaEvent → List DeltaEvent → Prop
  | _, [] => True
  | prev, next :: rest =>
    next.shape.kind = prev.shape.kind ∧ continues R prev next = true ∧ IsRun R next rest

variable {delta prev : DeltaEvent} {rest : List DeltaEvent}

theorem isRun_snoc {first : DeltaEvent} (h : IsRun R first rest)
    (hkind : delta.shape.kind = (rest.getLastD first).shape.kind)
    (hcontinues : continues R (rest.getLastD first) delta = true) :
    IsRun R first (rest ++ [delta]) := by
  induction rest generalizing first with
  | nil => exact ⟨hkind, hcontinues, trivial⟩
  | cons next rest ih =>
    obtain ⟨hnext, hprev, hrest⟩ := h
    refine ⟨hnext, hprev, ih hrest ?_ ?_⟩
    · rw [List.getLastD_cons] at hkind
      exact hkind
    · rw [List.getLastD_cons] at hcontinues
      exact hcontinues

structure Member (delta : DeltaEvent) : Prop where
  read : ReadAs delta.event delta
  lossless : delta.event.isLossless = true

def DeltaEvent.member (delta : DeltaEvent) : Json :=
  memberEvent delta.shape delta.seq delta.time delta.text

theorem Member.numbers (h : Member delta) :
    (∃ z, delta.time = .int z) ∧ delta.shape.turn.isLossless = true ∧
      delta.shape.step.isLossless = true ∧ delta.shape.index.isLossless = true := by
  have hlossless := isLossless_of_same h.read.same h.lossless
  have hchunk : (chunkJson delta.shape delta.text).isLossless = true →
      delta.shape.index.isLossless = true := by
    unfold chunkJson
    cases delta.shape.call with
    | none => simp [Json.isLossless, Json.fieldsLossless]
    | some call =>
      simp only [List.cons_append, Json.isLossless, Json.fieldsLossless, Bool.and_eq_true]
      intro h
      exact h.2.1
  simp only [memberEvent, memberData, Json.isLossless, Json.fieldsLossless, Bool.and_eq_true] at hlossless
  obtain ⟨-, -, htime, ⟨hturn, hstep, hindex, -⟩, -⟩ := hlossless
  refine ⟨?_, hturn, hstep, hchunk hindex⟩
  cases htimeEq : delta.time with
  | int z => exact ⟨z, rfl⟩
  | negZero => simp [htimeEq, Number.isLossless] at htime

theorem next_of_continues {next : DeltaEvent} (hprev : Member prev) (hnext : Member next)
    (hkind : next.shape.kind = prev.shape.kind) (h : continues R prev next = true) :
    next.shape = prev.shape ∧ next.seq = prev.seq + 1 ∧
      (Integral.sub R next.time prev.time).isSafe = true ∧
      Integral.add R prev.time (Integral.sub R next.time prev.time) = next.time := by
  simp only [continues, Bool.and_eq_true, beq_iff_eq] at h
  obtain ⟨⟨⟨⟨⟨hseq, hgap⟩, hturn⟩, hstep⟩, hindex⟩, hcall⟩ := h
  obtain ⟨⟨x, hx⟩, hturnPrev, hstepPrev, hindexPrev⟩ := hprev.numbers
  obtain ⟨⟨y, hy⟩, hturnNext, hstepNext, hindexNext⟩ := hnext.numbers
  rw [Number.strictEq_iff_of_isLossless hturnNext hturnPrev] at hturn
  rw [Number.strictEq_iff_of_isLossless hstepNext hstepPrev] at hstep
  rw [Number.strictEq_iff_of_isLossless hindexNext hindexPrev] at hindex
  refine ⟨?_, hseq, hgap, ?_⟩
  · cases hprevShape : prev.shape
    cases hnextShape : next.shape
    simp_all
  · have hxSafe := hprev.read.time
    have hySafe := hnext.read.time
    rw [hx, hy] at hgap ⊢
    rw [hx] at hxSafe
    rw [hy] at hySafe
    exact (add_sub_of_isSafe hxSafe hySafe hgap).2

/-- What the row of a run says about the members after `prev`. -/
theorem runGaps_spec (hrun : IsRun R prev rest)
    (hprev : Member prev) (hrest : ∀ delta ∈ rest, Member delta) :
    expandRest R prev.shape prev.seq prev.time (runGaps R prev rest) =
        rest.map DeltaEvent.member ∧
      timesStaySafe R prev.time ((runGaps R prev rest).map Prod.fst) = true ∧
      (∀ gap ∈ (runGaps R prev rest).map Prod.fst, gap.isSafe = true) ∧
      prev.seq + (runGaps R prev rest).length ≤ maxSafeInteger := by
  induction rest generalizing prev with
  | nil => exact ⟨rfl, rfl, by simp [runGaps], by simpa [runGaps] using hprev.read.seq_le⟩
  | cons next rest ih =>
    obtain ⟨hkind, hcontinues, hrun⟩ := hrun
    have hnext := hrest next List.mem_cons_self
    obtain ⟨hshape, hseq, hgap, htime⟩ := next_of_continues hprev hnext hkind hcontinues
    obtain ⟨hexpand, htimes, hgaps, hroom⟩ :=
      ih hrun hnext fun delta hdelta => hrest delta (List.mem_cons_of_mem _ hdelta)
    refine ⟨?_, ?_, ?_, ?_⟩
    · simp only [runGaps, expandRest, List.map_cons, htime, ← hseq, ← hshape, hexpand]
      rfl
    · simp only [runGaps, List.map_cons, timesStaySafe, htime, hnext.read.time, htimes,
        Bool.and_self]
    · simp only [runGaps, List.map_cons, List.forall_mem_cons]
      exact ⟨hgap, hgaps⟩
    · simp only [runGaps, List.length_cons]
      omega

end Run

end DshKernel.Session
