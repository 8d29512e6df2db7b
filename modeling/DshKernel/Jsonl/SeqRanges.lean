import DshKernel.Session.Surface

/-!
# Ranges of source sequences

The storage form of `sourceEventSeqs`: consecutive runs of three or more become a pair of
their ends.
-/

namespace DshKernel.Jsonl

open Js Session List

inductive EncodedSeq where
  | single (seq : Nat)
  | range (first last : Nat)
  deriving DecidableEq, Repr

def EncodedSeq.toJson : EncodedSeq → Json
  | single seq => .ofNat seq
  | range first last => .arr [.ofNat first, .ofNat last]

def isStrictlyIncreasing : List Nat → Bool
  | [] => true
  | [_] => true
  | value :: next :: rest => decide (value < next) && isStrictlyIncreasing (next :: rest)

/-- The seqs from `first` to `last`. -/
def seqsOf (first last : Nat) : List Nat := range' first (last + 1 - first)

def encodeRun (first last : Nat) : List EncodedSeq :=
  if 2 ≤ last - first then [.range first last] else (seqsOf first last).map .single

/-- The loop of `encodeSeqRanges` with the current run. -/
def encodeRuns (first last : Nat) : List Nat → List EncodedSeq
  | [] => encodeRun first last
  | value :: rest =>
    if value = last + 1 then encodeRuns first value rest
    else encodeRun first last ++ encodeRuns value value rest

def encodeSeqRanges (values : List Nat) : List EncodedSeq :=
  if isStrictlyIncreasing values then
    match values with
    | [] => []
    | first :: rest => encodeRuns first first rest
  else values.map .single

/-- `assertSeq`, which lets `-0` through -/
def assertSeq : Json → Except String Integral
  | .num (.integral value) =>
    if value.isSafe && decide (0 ≤ value.toInt) then .ok value
    else .error "sourceEventSeqs must contain non-negative safe integers"
  | _ => .error "sourceEventSeqs must contain non-negative safe integers"

def admitSeq : Integral → Except String Nat
  | .int value => .ok value.toNat
  | .negZero => .error "SessionSeq must be a non-negative safe integer, got 0"

/-- One entry after `count` decoded seqs: the seqs it stands for, and whether it is a range. -/
def decodeEntry (maxEntries count : Nat) : Json → Except String (List Nat × Bool)
  | .num value =>
    match assertSeq (.num value) with
    | .error message => .error message
    | .ok seq =>
      if maxEntries ≤ count then .error "sourceEventSeqs exceeds its event sequence"
      else
        match admitSeq seq with
        | .error message => .error message
        | .ok seq => .ok ([seq], false)
  | .arr [firstValue, lastValue] =>
    match assertSeq firstValue, assertSeq lastValue with
    | .ok first, .ok last =>
      if last.toInt < first.toInt then .error "sourceEventSeqs ranges require start <= end"
      else if (maxEntries : Int) - count < last.toInt - first.toInt + 1 then
        .error "sourceEventSeqs range exceeds its event sequence"
      else
        match admitSeq first with
        | .error message => .error message
        | .ok start => .ok (seqsOf start last.toInt.toNat, true)
    | .error message, _ => .error message
    | _, .error message => .error message
  | _ => .error "sourceEventSeqs range entries must be [start, end] pairs"

def decodeEntries (maxEntries : Nat) : List Nat → Bool → List Json → Except String (List Nat × Bool)
  | decoded, hasRange, [] => .ok (decoded, hasRange)
  | decoded, hasRange, entry :: rest =>
    match decodeEntry maxEntries decoded.length entry with
    | .error message => .error message
    | .ok (seqs, isRange) => decodeEntries maxEntries (decoded ++ seqs) (hasRange || isRange) rest

def decodeSeqRanges (value : Json) (maxEntries : Nat) : Except String (List Nat) :=
  match value with
  | .arr entries =>
    match decodeEntries maxEntries [] false entries with
    | .error message => .error message
    | .ok (decoded, hasRange) =>
      if hasRange && !isStrictlyIncreasing decoded then
        .error "sourceEventSeqs ranges must be strictly increasing"
      else .ok decoded
  | _ => .error "sourceEventSeqs must be an array"

open EncodedSeq

section RoundTrip

variable {maxEntries : Nat}

def EncodedSeq.seqs : EncodedSeq → List Nat
  | single seq => [seq]
  | range first last => seqsOf first last

def EncodedSeq.Sound : EncodedSeq → Prop
  | single seq => seq ≤ maxSafeInteger
  | range first last => first ≤ last ∧ last ≤ maxSafeInteger

def EncodedSeq.isRange : EncodedSeq → Bool
  | single _ => false
  | range _ _ => true

theorem assertSeq_ofNat {seq : Nat} (h : seq ≤ maxSafeInteger) :
    assertSeq (.ofNat seq) = .ok (.int seq) := by
  simp [assertSeq, Json.ofNat, Number.ofNat, Integral.isSafe, h]

theorem decodeEntry_toJson {entry : EncodedSeq} {count : Nat} (hsound : entry.Sound)
    (hroom : count + entry.seqs.length ≤ maxEntries) :
    decodeEntry maxEntries count entry.toJson = .ok (entry.seqs, entry.isRange) := by
  cases entry with
  | single seq =>
    have hassert := assertSeq_ofNat hsound
    have hlt : ¬ maxEntries ≤ count := by
      simp only [seqs, length_singleton] at hroom
      omega
    simp only [Json.ofNat] at hassert
    simp [toJson, Json.ofNat, decodeEntry, hassert, hlt, admitSeq, seqs,
      isRange]
  | range first last =>
    obtain ⟨hle, hlast⟩ := hsound
    simp only [seqs, seqsOf, length_range'] at hroom
    have hfirst := assertSeq_ofNat (Nat.le_trans hle hlast)
    have horder : ¬ (last : Int) < first := by omega
    have hlength : ¬ (maxEntries : Int) - count < (last : Int) - first + 1 := by omega
    simp only [toJson, decodeEntry, hfirst, assertSeq_ofNat hlast, Integral.toInt_int,
      horder, hlength, if_false, admitSeq, seqs, isRange, Int.toNat_natCast]

theorem decodeEntries_toJson {entries : List EncodedSeq} {decoded : List Nat} {hasRange : Bool}
    (hsound : ∀ entry ∈ entries, entry.Sound)
    (hroom : decoded.length + (entries.flatMap seqs).length ≤ maxEntries) :
    decodeEntries maxEntries decoded hasRange (entries.map toJson) =
      .ok (decoded ++ entries.flatMap seqs,
        hasRange || entries.any isRange) := by
  induction entries generalizing decoded hasRange with
  | nil => simp [decodeEntries]
  | cons entry rest ih =>
    obtain ⟨hentry, hrest⟩ := forall_mem_cons.mp hsound
    simp only [flatMap_cons, length_append] at hroom
    have hdecode : decodeEntry maxEntries decoded.length entry.toJson = .ok (entry.seqs, entry.isRange) :=
      decodeEntry_toJson hentry (by omega)
    have hnext := @ih (decoded ++ entry.seqs) (hasRange || entry.isRange) hrest
      (by rw [length_append]; omega)
    simp only [map_cons, decodeEntries, hdecode, hnext]
    simp [Bool.or_assoc]

theorem flatMap_single (values : List Nat) :
    (values.map single).flatMap seqs = values := by
  induction values with
  | nil => rfl
  | cons value rest ih => simp [seqs, ih]

theorem seqs_encodeRun (first last : Nat) :
    (encodeRun first last).flatMap seqs = seqsOf first last := by
  unfold encodeRun
  split
  · simp [seqs]
  · exact flatMap_single _

variable {first last : Nat} {values : List Nat}

theorem seqsOf_succ (h : first ≤ last) :
    seqsOf first (last + 1) = seqsOf first last ++ [last + 1] := by
  have hlength : last + 1 + 1 - first = last + 1 - first + 1 := by omega
  have hend : first + (last + 1 - first) = last + 1 := by omega
  rw [seqsOf, hlength, range'_concat, Nat.one_mul, hend]
  rfl

theorem seqs_encodeRuns (h : first ≤ last) (values : List Nat) :
    (encodeRuns first last values).flatMap seqs = seqsOf first last ++ values := by
  induction values generalizing first last with
  | nil => rw [encodeRuns, seqs_encodeRun, append_nil]
  | cons value rest ih =>
    rw [encodeRuns]
    split
    · rename_i hvalue
      subst hvalue
      rw [ih (by omega), seqsOf_succ h, append_assoc]
      rfl
    · rw [flatMap_append, seqs_encodeRun, ih (Nat.le_refl _)]
      have hone : seqsOf value value = [value] := by simp [seqsOf]
      rw [hone]
      rfl

theorem sound_encodeRun (hle : first ≤ last) (hlast : last ≤ maxSafeInteger) :
    ∀ entry ∈ encodeRun first last, entry.Sound := by
  intro entry hentry
  unfold encodeRun at hentry
  split at hentry
  · rw [mem_singleton] at hentry
    subst hentry
    exact ⟨hle, hlast⟩
  · obtain ⟨seq, hseq, rfl⟩ := mem_map.mp hentry
    rw [seqsOf, mem_range'_1] at hseq
    show seq ≤ maxSafeInteger
    omega

theorem sound_encodeRuns (hle : first ≤ last)
    (hlast : last ≤ maxSafeInteger) (hvalues : ∀ value ∈ values, value ≤ maxSafeInteger) :
    ∀ entry ∈ encodeRuns first last values, entry.Sound := by
  induction values generalizing first last with
  | nil => exact sound_encodeRun hle hlast
  | cons value rest ih =>
    obtain ⟨hvalue, hrest⟩ := forall_mem_cons.mp hvalues
    rw [encodeRuns]
    split
    · rename_i heq
      exact ih (by omega) hvalue hrest
    · intro entry hentry
      rcases mem_append.mp hentry with hrun | hmore
      · exact sound_encodeRun hle hlast entry hrun
      · exact ih (Nat.le_refl _) hvalue hrest entry hmore

theorem seqs_encodeSeqRanges (values : List Nat) :
    (encodeSeqRanges values).flatMap seqs = values := by
  unfold encodeSeqRanges
  split
  · cases values with
    | nil => rfl
    | cons first rest =>
      have hone : seqsOf first first = [first] := by simp [seqsOf]
      show (encodeRuns first first rest).flatMap seqs = first :: rest
      rw [seqs_encodeRuns (Nat.le_refl _), hone]
      rfl
  · exact flatMap_single values

theorem sound_encodeSeqRanges (h : ∀ value ∈ values, value ≤ maxSafeInteger) :
    ∀ entry ∈ encodeSeqRanges values, entry.Sound := by
  unfold encodeSeqRanges
  split
  · cases values with
    | nil => simp
    | cons first rest =>
      obtain ⟨hfirst, hrest⟩ := forall_mem_cons.mp h
      exact sound_encodeRuns (Nat.le_refl _) hfirst hrest
  · intro entry hentry
    obtain ⟨seq, hseq, rfl⟩ := mem_map.mp hentry
    exact h seq hseq

theorem isStrictlyIncreasing_of_range
    (h : (encodeSeqRanges values).any isRange = true) :
    isStrictlyIncreasing values = true := by
  cases hincreasing : isStrictlyIncreasing values with
  | true => rfl
  | false =>
    simp [encodeSeqRanges, hincreasing, isRange] at h

theorem decodeSeqRanges_encodeSeqRanges
    (hsafe : ∀ value ∈ values, value ≤ maxSafeInteger) (hroom : values.length ≤ maxEntries) :
    decodeSeqRanges (.arr ((encodeSeqRanges values).map toJson)) maxEntries =
      .ok values := by
  have hseqs := seqs_encodeSeqRanges values
  have hentries := @decodeEntries_toJson maxEntries (encodeSeqRanges values) [] false
    (sound_encodeSeqRanges hsafe) (by simpa [hseqs] using hroom)
  rw [hseqs, nil_append, Bool.false_or] at hentries
  simp only [decodeSeqRanges, hentries]
  cases hrange : (encodeSeqRanges values).any isRange with
  | false => simp
  | true => simp [isStrictlyIncreasing_of_range hrange]

end RoundTrip

/-! ## What decoding accepts -/

def expandEntry : Json → List Nat
  | .num value => [value.toInt.toNat]
  | .arr [.num first, .num last] => seqsOf first.toInt.toNat last.toInt.toNat
  | _ => []

def expansion : Json → List Nat
  | .arr entries => entries.flatMap expandEntry
  | _ => []

section Accepted

variable {maxEntries count : Nat}

variable {value : Json} {seqs : List Nat}

theorem assertSeq_eq_ok {seq : Integral} (h : assertSeq value = .ok seq) :
    value = .num (.integral seq) ∧ 0 ≤ seq.toInt ∧ seq.toInt ≤ maxSafeInteger := by
  unfold assertSeq at h
  split at h
  · rename_i found
    split at h
    · rename_i hchecks
      cases h
      rw [Bool.and_eq_true, decide_eq_true_eq, Integral.isSafe_iff] at hchecks
      exact ⟨rfl, hchecks.2, by omega⟩
    · cases h
  · cases h

theorem admitSeq_eq_ok {value : Integral} {seq : Nat} (h : admitSeq value = .ok seq) :
    seq = value.toInt.toNat := by
  cases value with
  | int z =>
    cases h
    rfl
  | negZero => cases h

theorem decodeEntry_eq_ok {entry : Json} {isRange : Bool}
    (hroom : count ≤ maxEntries) (h : decodeEntry maxEntries count entry = .ok (seqs, isRange)) :
    seqs = expandEntry entry ∧ count + seqs.length ≤ maxEntries ∧
      ∀ seq ∈ seqs, seq ≤ maxSafeInteger := by
  unfold decodeEntry at h
  split at h
  · rename_i value
    split at h
    · cases h
    · rename_i seq hassert
      obtain ⟨hvalue, hnonneg, hsafe⟩ := assertSeq_eq_ok hassert
      split at h
      · cases h
      · split at h
        · cases h
        · rename_i admitted hadmit
          cases h
          rw [admitSeq_eq_ok hadmit]
          cases hvalue
          refine ⟨rfl, by rw [length_singleton]; omega, ?_⟩
          intro found hfound
          rw [mem_singleton.mp hfound]
          omega
  · rename_i firstValue lastValue
    split at h
    · rename_i first last hfirst hlast
      obtain ⟨hfirstValue, hfirstNonneg, hfirstSafe⟩ := assertSeq_eq_ok hfirst
      obtain ⟨hlastValue, hlastNonneg, hlastSafe⟩ := assertSeq_eq_ok hlast
      split at h
      · cases h
      · split at h
        · cases h
        · split at h
          · cases h
          · rename_i start hadmit
            cases h
            rw [admitSeq_eq_ok hadmit, hfirstValue, hlastValue]
            refine ⟨rfl, by rw [seqsOf, length_range']; omega, ?_⟩
            intro found hfound
            rw [seqsOf, mem_range'_1] at hfound
            omega
    · cases h
    · cases h
  · cases h

theorem decodeEntries_eq_ok {entries : List Json} {decoded result : List Nat}
    {hasRange ranged : Bool} (hroom : decoded.length ≤ maxEntries)
    (h : decodeEntries maxEntries decoded hasRange entries = .ok (result, ranged)) :
    result = decoded ++ entries.flatMap expandEntry ∧ result.length ≤ maxEntries ∧
      ((∀ seq ∈ decoded, seq ≤ maxSafeInteger) → ∀ seq ∈ result, seq ≤ maxSafeInteger) := by
  induction entries generalizing decoded hasRange with
  | nil =>
    cases h
    exact ⟨(append_nil _).symm, hroom, id⟩
  | cons entry entries ih =>
    rw [decodeEntries] at h
    split at h
    · cases h
    · rename_i seqs isRange hentry
      obtain ⟨hseqs, hfits, hsafe⟩ := decodeEntry_eq_ok hroom hentry
      obtain ⟨hresult, hlength, hall⟩ := ih (by rw [length_append]; exact hfits) h
      refine ⟨?_, hlength, ?_⟩
      · rw [hresult, hseqs, append_assoc, flatMap_cons]
      · intro hdecoded
        exact hall fun seq hseq => (mem_append.mp hseq).elim (hdecoded seq) (hsafe seq)

theorem decodeSeqRanges_eq_ok
    (h : decodeSeqRanges value maxEntries = .ok seqs) :
    seqs = expansion value ∧ seqs.length ≤ maxEntries ∧ ∀ seq ∈ seqs, seq ≤ maxSafeInteger := by
  unfold decodeSeqRanges at h
  split at h
  · split at h
    · cases h
    · rename_i decoded hasRange hentries
      obtain ⟨hresult, hlength, hsafe⟩ := decodeEntries_eq_ok (Nat.zero_le _) hentries
      split at h
      · cases h
      · cases h
        exact ⟨hresult, hlength, hsafe fun _ hseq => nomatch hseq⟩
  · cases h

end Accepted

/-- Ranges of session seqs read back. What is accepted expands to no more than allowed, and its
re-encoding decodes to the same. -/
theorem seqRanges_round_trip (maxEntries : Nat) :
    (∀ values : List Nat, (∀ value ∈ values, value ≤ maxSafeInteger) →
      values.length ≤ maxEntries →
        decodeSeqRanges (.arr ((encodeSeqRanges values).map toJson)) maxEntries =
          .ok values) ∧
    ∀ value seqs, decodeSeqRanges value maxEntries = .ok seqs →
      seqs = expansion value ∧ seqs.length ≤ maxEntries ∧
      decodeSeqRanges (.arr ((encodeSeqRanges seqs).map toJson)) maxEntries =
        .ok seqs := by
  refine ⟨fun values => decodeSeqRanges_encodeSeqRanges, ?_⟩
  intro value seqs h
  obtain ⟨hexpansion, hlength, hsafe⟩ := decodeSeqRanges_eq_ok h
  exact ⟨hexpansion, hlength, decodeSeqRanges_encodeSeqRanges hsafe hlength⟩

end DshKernel.Jsonl
