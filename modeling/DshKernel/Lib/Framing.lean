/-!
# Framed records

A stream of records, each ended by a separator that no record holds. A prefix of such a
stream is a number of complete records and a torn one, and nothing else.
-/

namespace DshKernel.Lib

open List

variable {α : Type}

/-- The records, each ended by the separator. -/
def frame (separator : α) (records : List (List α)) : List α :=
  records.flatMap (· ++ [separator])

@[simp] theorem frame_nil (separator : α) : frame separator [] = [] := rfl

@[simp] theorem frame_cons (separator : α) (record : List α) (records : List (List α)) :
    frame separator (record :: records) = record ++ separator :: frame separator records := by
  simp [frame]

@[simp] theorem frame_append (separator : α) (records more : List (List α)) :
    frame separator (records ++ more) = frame separator records ++ frame separator more := by
  simp [frame]

/-- Records that are joined by the separator, and ended by it. -/
theorem intercalate_append_separator {separator : α} {records : List (List α)} (h : records ≠ []) :
    intercalate [separator] records ++ [separator] = frame separator records := by
  induction records with
  | nil => exact absurd rfl h
  | cons record records ih =>
    cases records with
    | nil => simp [intercalate]
    | cons next records =>
      have hrest := ih (by simp)
      rw [frame_cons, ← hrest, intercalate_cons_cons]
      simp

/-- A prefix of one record and the stream after it stops in the record, or goes past it. -/
theorem prefix_record {separator : α} {record pre rest : List α}
    (h : pre <+: record ++ separator :: rest) :
    pre <+: record ∨ ∃ more, pre = record ++ separator :: more ∧ more <+: rest := by
  rcases Nat.lt_or_ge record.length pre.length with hlt | hle
  · obtain ⟨tail, htail⟩ := h
    have hrecord : record <+: pre := by
      apply prefix_of_prefix_length_le (prefix_append record (separator :: rest))
      · exact ⟨tail, htail⟩
      · omega
    obtain ⟨after, hafter⟩ := hrecord
    subst hafter
    rw [append_assoc, append_cancel_left_eq] at htail
    cases after with
    | nil => simp at hlt
    | cons first more =>
      rw [cons_append, cons.injEq] at htail
      obtain ⟨rfl, hmore⟩ := htail
      exact Or.inr ⟨more, rfl, ⟨tail, hmore⟩⟩
  · left
    exact prefix_of_prefix_length_le h (prefix_append _ _) hle

/-- A prefix of a stream is its first records and the beginning of the next one. -/
theorem prefix_frame {separator : α} {records : List (List α)} {pre : List α}
    (hclean : ∀ record ∈ records, separator ∉ record) (h : pre <+: frame separator records) :
    ∃ count torn, count ≤ records.length ∧
      pre = frame separator (records.take count) ++ torn ∧ separator ∉ torn := by
  induction records generalizing pre with
  | nil =>
    have hnil : pre = [] := prefix_nil.mp h
    exact ⟨0, [], Nat.le_refl _, by simp [hnil], not_mem_nil⟩
  | cons record records ih =>
    obtain ⟨hrecord, hrecords⟩ := forall_mem_cons.mp hclean
    rw [frame_cons] at h
    rcases prefix_record h with hpre | ⟨more, rfl, hmore⟩
    · refine ⟨0, pre, Nat.zero_le _, by simp, ?_⟩
      intro hmem
      exact hrecord (hpre.subset hmem)
    · obtain ⟨count, torn, hcount, rfl, htorn⟩ := ih hrecords hmore
      refine ⟨count + 1, torn, Nat.succ_le_succ hcount, ?_, htorn⟩
      simp

/-- The complete records of a stream, and what stands after the last of them. -/
def splitRecords [DecidableEq α] (separator : α) : List α → List (List α) × List α
  | [] => ([], [])
  | element :: rest =>
    let split := splitRecords separator rest
    if element = separator then ([] :: split.1, split.2)
    else
      match split with
      | ([], torn) => ([], element :: torn)
      | (record :: records, torn) => ((element :: record) :: records, torn)

section Split

variable [DecidableEq α] {separator : α}

theorem splitRecords_record {record rest : List α} (h : separator ∉ record) :
    splitRecords separator (record ++ separator :: rest) =
      (record :: (splitRecords separator rest).1, (splitRecords separator rest).2) := by
  induction record with
  | nil => simp [splitRecords]
  | cons element record ih =>
    simp only [mem_cons, not_or] at h
    rw [cons_append, splitRecords, ih h.2, if_neg (Ne.symm h.1)]

theorem splitRecords_torn {torn : List α} (h : separator ∉ torn) :
    splitRecords separator torn = ([], torn) := by
  induction torn with
  | nil => rfl
  | cons element torn ih =>
    simp only [mem_cons, not_or] at h
    rw [splitRecords, ih h.2, if_neg (Ne.symm h.1)]

theorem splitRecords_frame {records : List (List α)} {torn : List α}
    (hclean : ∀ record ∈ records, separator ∉ record) (htorn : separator ∉ torn) :
    splitRecords separator (frame separator records ++ torn) = (records, torn) := by
  induction records with
  | nil => exact splitRecords_torn htorn
  | cons record records ih =>
    obtain ⟨hrecord, hrecords⟩ := forall_mem_cons.mp hclean
    rw [frame_cons, append_assoc, cons_append, splitRecords_record hrecord, ih hrecords]

/-- Every stream is a number of complete records and a torn one. -/
theorem exists_frame (separator : α) (stream : List α) :
    ∃ records torn, stream = frame separator records ++ torn ∧
      (∀ record ∈ records, separator ∉ record) ∧ separator ∉ torn := by
  induction stream with
  | nil => exact ⟨[], [], rfl, by simp, not_mem_nil⟩
  | cons element rest ih =>
    obtain ⟨records, torn, hrest, hclean, htorn⟩ := ih
    by_cases helement : element = separator
    · refine ⟨[] :: records, torn, ?_, ?_, htorn⟩
      · rw [helement, hrest]
        simp
      · exact forall_mem_cons.mpr ⟨not_mem_nil, hclean⟩
    · cases records with
      | nil =>
        refine ⟨[], element :: torn, ?_, by simp, ?_⟩
        · rw [hrest]
          rfl
        · simp only [mem_cons, not_or]
          exact ⟨Ne.symm helement, htorn⟩
      | cons record records =>
        obtain ⟨hrecord, hrecords⟩ := forall_mem_cons.mp hclean
        refine ⟨(element :: record) :: records, torn, ?_, ?_, htorn⟩
        · rw [hrest]
          simp
        · refine forall_mem_cons.mpr ⟨?_, hrecords⟩
          simp only [mem_cons, not_or]
          exact ⟨Ne.symm helement, hrecord⟩

end Split

/-- A reader of records: its state, what it has of the next record, and how far it has read. -/
structure Reading (σ α : Type) where
  state : σ
  pending : List α
  position : Nat

section Reading

variable [DecidableEq α] {σ ε : Type} {separator : α} {consume : σ → List α → Nat → Except ε σ}

/-- The reader with the next element. A record is consumed with the position after its
separator. -/
def Reading.take (separator : α) (consume : σ → List α → Nat → Except ε σ) (reading : Reading σ α)
    (element : α) : Except ε (Reading σ α) :=
  if element = separator then
    (consume reading.state reading.pending (reading.position + 1)).map
      fun state => ⟨state, [], reading.position + 1⟩
  else .ok { reading with
    pending := reading.pending ++ [element]
    position := reading.position + 1 }

/-- The reader with all the elements of a stream. -/
def Reading.read (separator : α) (consume : σ → List α → Nat → Except ε σ) (reading : Reading σ α)
    (stream : List α) : Except ε (Reading σ α) :=
  stream.foldlM (Reading.take separator consume) reading

@[simp] theorem Reading.read_nil (reading : Reading σ α) :
    reading.read separator consume [] = .ok reading := rfl

theorem Reading.read_append (reading : Reading σ α) (stream more : List α) :
    reading.read separator consume (stream ++ more) =
      (reading.read separator consume stream).bind fun next => next.read separator consume more :=
  foldlM_append

theorem Reading.read_cons_of_ne {element : α} (reading : Reading σ α) (rest : List α)
    (h : element ≠ separator) :
    reading.read separator consume (element :: rest) =
      Reading.read separator consume ⟨reading.state, reading.pending ++ [element],
        reading.position + 1⟩ rest := by
  rw [Reading.read, foldlM_cons, Reading.take, if_neg h]
  rfl

theorem Reading.read_separator (reading : Reading σ α) (rest : List α) :
    reading.read separator consume (separator :: rest) =
      (consume reading.state reading.pending (reading.position + 1)).bind fun state =>
        Reading.read separator consume ⟨state, [], reading.position + 1⟩ rest := by
  rw [Reading.read, foldlM_cons, Reading.take, if_pos rfl]
  cases consume reading.state reading.pending (reading.position + 1) with
  | error failure => rfl
  | ok state => rfl

/-- The records one after another, the first of them beginning at the position. -/
def consumeRecords (consume : σ → List α → Nat → Except ε σ) :
    σ → Nat → List (List α) → Except ε σ
  | state, _, [] => .ok state
  | state, position, record :: records =>
    (consume state record (position + record.length + 1)).bind fun next =>
      consumeRecords consume next (position + record.length + 1) records

theorem Reading.read_record {record rest : List α} (reading : Reading σ α)
    (h : separator ∉ record) :
    reading.read separator consume (record ++ separator :: rest) =
      (consume reading.state (reading.pending ++ record)
        (reading.position + record.length + 1)).bind fun state =>
          Reading.read separator consume ⟨state, [], reading.position + record.length + 1⟩ rest := by
  induction record generalizing reading with
  | nil => simpa using Reading.read_separator reading rest
  | cons element record ih =>
    simp only [mem_cons, not_or] at h
    have hposition : reading.position + 1 + record.length =
        reading.position + (element :: record).length := by
      rw [length_cons]
      omega
    rw [cons_append, Reading.read_cons_of_ne reading _ (Ne.symm h.1), ih _ h.2]
    simp only [append_assoc, singleton_append, hposition]

theorem Reading.read_torn {torn : List α} (reading : Reading σ α) (h : separator ∉ torn) :
    reading.read separator consume torn =
      .ok ⟨reading.state, reading.pending ++ torn, reading.position + torn.length⟩ := by
  induction torn generalizing reading with
  | nil => simp
  | cons element torn ih =>
    simp only [mem_cons, not_or] at h
    rw [Reading.read_cons_of_ne reading _ (Ne.symm h.1), ih _ h.2]
    simp only [append_assoc, singleton_append, length_cons, Nat.add_assoc,
      Nat.add_comm 1]

/-- Reading a stream is consuming its complete records and keeping the torn one. -/
theorem Reading.read_frame {records : List (List α)} {torn : List α} {state : σ} {position : Nat}
    (hclean : ∀ record ∈ records, separator ∉ record) (htorn : separator ∉ torn) :
    Reading.read separator consume ⟨state, [], position⟩ (frame separator records ++ torn) =
      (consumeRecords consume state position records).map fun last =>
        ⟨last, torn, position + (frame separator records ++ torn).length⟩ := by
  induction records generalizing state position with
  | nil => simpa [consumeRecords, Except.map] using Reading.read_torn ⟨state, [], position⟩ htorn
  | cons record records ih =>
    obtain ⟨hrecord, hrecords⟩ := forall_mem_cons.mp hclean
    rw [frame_cons, append_assoc, cons_append, Reading.read_record _ hrecord,
      consumeRecords, nil_append]
    cases consume state record (position + record.length + 1) with
    | error failure => rfl
    | ok next =>
      have hposition : position + record.length + 1 + (frame separator records ++ torn).length =
          position + (record ++ separator :: (frame separator records ++ torn)).length := by
        simp only [length_append, length_cons]
        omega
      rw [← hposition]
      exact ih hrecords

end Reading

end DshKernel.Lib
