/-!
# Readers that can tell a cut from damage

A reader takes a value from a buffer at an offset; when the buffer ends too early, the value is
torn. A stable reader finds in the beginning of a buffer what it finds in the whole of it, or that
the value is torn.
-/

namespace DshKernel.Lib

/-- What a reader finds: a value comes with the offset after it. -/
inductive Taken (ε α : Type) where
  | torn
  | corrupt (failure : ε)
  | done (value : α) (offset : Nat)

/-- A reader of a value from a buffer at an offset. -/
abbrev PrefixReader (β ε α : Type) := List β → Nat → Taken ε α

namespace PrefixReader

variable {β ε α γ : Type}

def pure (value : α) : PrefixReader β ε α := fun _ offset => .done value offset

def fail (failure : ε) : PrefixReader β ε α := fun _ _ => .corrupt failure

/-- The next elements, of a given number. -/
def take (count : Nat) : PrefixReader β ε (List β) := fun buffer offset =>
  if buffer.length - offset < count then .torn
  else .done ((buffer.drop offset).take count) (offset + count)

def bind (read : PrefixReader β ε α) (next : α → PrefixReader β ε γ) : PrefixReader β ε γ :=
  fun buffer offset =>
    match read buffer offset with
    | .torn => .torn
    | .corrupt failure => .corrupt failure
    | .done value last => next value buffer last

theorem take_done {count offset last : Nat} {buffer value : List β}
    (h : (take count : PrefixReader β ε (List β)) buffer offset = .done value last) :
    last = offset + count ∧ count ≤ buffer.length - offset := by
  unfold take at h
  split at h
  · cases h
  · cases h
    exact ⟨rfl, by omega⟩

variable {read : PrefixReader β ε α} {next : α → PrefixReader β ε γ}

theorem bind_done {buffer : List β}
    {offset last : Nat} {value : γ} (h : read.bind next buffer offset = .done value last) :
    ∃ first middle, read buffer offset = .done first middle ∧
      next first buffer middle = .done value last := by
  unfold bind at h
  split at h
  · cases h
  · cases h
  · rename_i first middle hread
    exact ⟨first, middle, hread, h⟩

/-- What a reader finds at an offset stands after it, and is found in the beginning of the buffer
where it ends there; a reader that meets a cut there meets none behind it. -/
structure StableAt (read : PrefixReader β ε α) (buffer more : List β) (offset : Nat) : Prop where
  advances : ∀ value last, read (buffer ++ more) offset = .done value last →
    offset ≤ last ∧ last ≤ (buffer ++ more).length
  done : offset ≤ buffer.length → ∀ value last, read (buffer ++ more) offset = .done value last →
    read buffer offset = if last ≤ buffer.length then .done value last else .torn
  torn : offset ≤ buffer.length → read (buffer ++ more) offset = .torn →
    read buffer offset = .torn

variable {buffer more : List β} {offset : Nat}

theorem stableAt_pure (value : α) (h : offset ≤ (buffer ++ more).length) :
    StableAt (pure value : PrefixReader β ε α) buffer more offset := by
  constructor
  · intro other last hdone
    cases hdone
    exact ⟨Nat.le_refl _, h⟩
  · intro hoffset other last hdone
    cases hdone
    rw [if_pos hoffset]
    rfl
  · intro _ htorn
    cases htorn

theorem stableAt_fail (failure : ε) :
    StableAt (fail failure : PrefixReader β ε α) buffer more offset := by
  constructor
  · intro value last h
    cases h
  · intro _ value last h
    cases h
  · intro _ h
    cases h

theorem stableAt_take (count : Nat) (h : offset ≤ (buffer ++ more).length) :
    StableAt (take count : PrefixReader β ε (List β)) buffer more offset := by
  constructor
  · intro value last hdone
    obtain ⟨rfl, hcount⟩ := take_done hdone
    omega
  · intro hoffset value last hdone
    obtain ⟨rfl, hcount⟩ := take_done hdone
    unfold take at hdone ⊢
    rw [if_neg (by omega)] at hdone
    cases hdone
    by_cases hend : offset + count ≤ buffer.length
    · have hlength : count ≤ (buffer.drop offset).length := by
        rw [List.length_drop]
        omega
      rw [if_pos hend, if_neg (by omega), List.drop_append_of_le_length hoffset,
        List.take_append_of_le_length hlength]
    · rw [if_neg hend, if_pos (by omega)]
  · intro _ htorn
    unfold take at htorn ⊢
    split at htorn
    · rename_i hshort
      rw [List.length_append] at hshort
      rw [if_pos (by omega)]
    · cases htorn

/-- One reader after another, where the second is stable at the end of what the first finds. -/
theorem StableAt.bind
    (h : StableAt read buffer more offset)
    (hnext : ∀ value last, read (buffer ++ more) offset = .done value last →
      StableAt (next value) buffer more last) :
    StableAt (read.bind next) buffer more offset := by
  constructor
  · intro value last hdone
    obtain ⟨first, middle, hfirst, hsecond⟩ := bind_done hdone
    obtain ⟨hoffset, -⟩ := h.advances first middle hfirst
    obtain ⟨hmiddle, hlast⟩ := (hnext first middle hfirst).advances value last hsecond
    exact ⟨Nat.le_trans hoffset hmiddle, hlast⟩
  · intro hoffset value last hdone
    obtain ⟨first, middle, hfirst, hsecond⟩ := bind_done hdone
    have hcut := h.done hoffset first middle hfirst
    obtain ⟨hmiddle, -⟩ := (hnext first middle hfirst).advances value last hsecond
    rw [PrefixReader.bind, hcut]
    by_cases hend : middle ≤ buffer.length
    · rw [if_pos hend]
      exact (hnext first middle hfirst).done hend value last hsecond
    · rw [if_neg hend, if_neg (by omega)]
  · intro hoffset htorn
    unfold PrefixReader.bind at htorn ⊢
    cases hread : read (buffer ++ more) offset with
    | torn => rw [h.torn hoffset hread]
    | corrupt failure =>
      rw [hread] at htorn
      cases htorn
    | done first middle =>
      rw [hread] at htorn
      rw [h.done hoffset first middle hread]
      by_cases hend : middle ≤ buffer.length
      · rw [if_pos hend]
        exact (hnext first middle hread).torn hend htorn
      · rw [if_neg hend]

/-- A check between two readers. -/
theorem StableAt.ite {other : PrefixReader β ε α} {condition : Prop} [Decidable condition]
    (h : condition → StableAt read buffer more offset)
    (hother : ¬ condition → StableAt other buffer more offset) :
    StableAt (if condition then read else other) buffer more offset := by
  split
  · exact h (by assumption)
  · exact hother (by assumption)

end PrefixReader

end DshKernel.Lib
