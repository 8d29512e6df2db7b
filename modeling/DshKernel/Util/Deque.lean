import DshKernel.Lib.Ring
import Mathlib.Tactic.ByContra

/-!
# `Deque`

A queue on a ring of slots that doubles when it is full and halves when three quarters are free.
A slot is `none` where the source has `undefined`.
-/

namespace DshKernel.Util

open Lib List

variable {T : Type}

def minCapacity : Nat := 16

structure Deque (T : Type) where
  buffer : List (Option T) := replicate minCapacity none
  head : Nat := 0
  count : Nat := 0

/-- `buffer[index]` -/
def slot (buffer : List (Option T)) (index : Nat) : Option T := (buffer[index]?).join

namespace Deque

def size (deque : Deque T) : Nat := deque.count

/-- The loop of `resize`: the entries from `index` on, read from `source` on. -/
def copyEntries (buffer : List (Option T)) :
    Nat → Nat → Nat → List (Option T) → List (Option T)
  | 0, _, _, next => next
  | remaining + 1, index, source, next =>
    copyEntries buffer remaining (index + 1) (nextPlace buffer.length source)
      (next.set index (slot buffer source))

def resize (deque : Deque T) (capacity : Nat) : Deque T where
  buffer := copyEntries deque.buffer deque.count 0 deque.head (replicate capacity none)
  head := 0
  count := deque.count

def ensureCapacity (deque : Deque T) : Deque T :=
  if deque.count < deque.buffer.length then deque else deque.resize (deque.buffer.length * 2)

def compact (deque : Deque T) : Deque T :=
  if deque.count = 0 then { deque with head := 0 }
  else if deque.buffer.length > minCapacity ∧ deque.count ≤ deque.buffer.length / 4 then
    deque.resize (max minCapacity (deque.buffer.length / 2))
  else deque

def pushBack (deque : Deque T) (value : T) : Deque T :=
  let roomy := deque.ensureCapacity
  { roomy with
    buffer := roomy.buffer.set (place roomy.buffer.length roomy.head roomy.count) (some value)
    count := roomy.count + 1 }

def pushFront (deque : Deque T) (value : T) : Deque T :=
  let roomy := deque.ensureCapacity
  let head := previousPlace roomy.buffer.length roomy.head
  { buffer := roomy.buffer.set head (some value), head, count := roomy.count + 1 }

def popFront (deque : Deque T) : Deque T × Option T :=
  if deque.count = 0 then (deque, none)
  else
    (compact
      { buffer := deque.buffer.set deque.head none
        head := nextPlace deque.buffer.length deque.head
        count := deque.count - 1 },
      slot deque.buffer deque.head)

def clear (_ : Deque T) : Deque T := {}

def contents (deque : Deque T) : List (Option T) :=
  (range deque.count).map
    fun i => slot deque.buffer (place deque.buffer.length deque.head i)

def IsLive (deque : Deque T) (index : Nat) : Prop :=
  ∃ i < deque.count, index = place deque.buffer.length deque.head i

end Deque

/-! ## The list it stands for -/

inductive DequeOperation (T : Type) where
  | pushBack (value : T)
  | pushFront (value : T)
  | popFront
  | size
  | clear

inductive Reply (T : Type) where
  | nothing
  | entry (value : Option T)
  | count (size : Nat)

def Deque.perform (deque : Deque T) : DequeOperation T → Deque T × Reply T
  | .pushBack value => (deque.pushBack value, .nothing)
  | .pushFront value => (deque.pushFront value, .nothing)
  | .popFront => (deque.popFront.1, .entry deque.popFront.2)
  | .size => (deque, .count deque.size)
  | .clear => (deque.clear, .nothing)

def performOnList (items : List T) : DequeOperation T → List T × Reply T
  | .pushBack value => (items ++ [value], .nothing)
  | .pushFront value => (value :: items, .nothing)
  | .popFront => (items.tail, .entry items.head?)
  | .size => (items, .count items.length)
  | .clear => ([], .nothing)

def runOperations {S : Type} (perform : S → DequeOperation T → S × Reply T) :
    S → List (DequeOperation T) → S × List (Reply T)
  | state, [] => (state, [])
  | state, operation :: rest =>
    let next := perform state operation
    ((runOperations perform next.1 rest).1, next.2 :: (runOperations perform next.1 rest).2)

/-! ## What the ring holds -/

structure Deque.Holds (deque : Deque T) (items : List T) : Prop where
  capacity : ∃ k, deque.buffer.length = minCapacity * 2 ^ k
  head : deque.head < deque.buffer.length
  count : deque.count = items.length
  fits : items.length ≤ deque.buffer.length
  slots : ∀ i < deque.buffer.length,
    deque.buffer[place deque.buffer.length deque.head i]? = some items[i]?

namespace Deque

theorem holds_empty : Holds ({} : Deque T) [] := by
  have hlength : ({} : Deque T).buffer.length = minCapacity := length_replicate
  refine ⟨⟨0, hlength⟩, ?_, rfl, Nat.zero_le _, ?_⟩
  · rw [hlength]
    exact Nat.succ_pos 15
  · intro i hi
    rw [hlength] at hi ⊢
    have hplace : place minCapacity 0 i < minCapacity := place_lt (Nat.succ_pos 15) hi
    exact getElem?_replicate_of_lt hplace

section Resize

variable {buffer next : List (Option T)} {head : Nat}

@[simp] theorem length_copyEntries (remaining index source : Nat) :
    (copyEntries buffer remaining index source next).length = next.length := by
  induction remaining generalizing index source next with
  | zero => rfl
  | succ remaining ih => rw [copyEntries, ih, length_set]

theorem getElem?_copyEntries (hhead : head < buffer.length) {remaining index : Nat}
    (hfits : index + remaining ≤ buffer.length) {j : Nat} (hj : j < next.length) :
    (copyEntries buffer remaining index (place buffer.length head index) next)[j]? =
      if index ≤ j ∧ j < index + remaining then some (slot buffer (place buffer.length head j))
      else next[j]? := by
  induction remaining generalizing index next with
  | zero => rw [copyEntries, if_neg (by omega)]
  | succ remaining ih =>
    rw [copyEntries, nextPlace_place hhead (by omega),
      ih (by omega) (by rw [length_set]; exact hj)]
    by_cases hlater : index + 1 ≤ j ∧ j < index + 1 + remaining
    · rw [if_pos hlater, if_pos (by omega)]
    · rw [if_neg hlater]
      by_cases hhere : index = j
      · subst hhere
        rw [getElem?_set_self hj, if_pos (by omega)]
      · rw [getElem?_set_ne hhere, if_neg (by omega)]

end Resize

section Operations

variable {deque : Deque T} {items : List T}

theorem Holds.slot_place (h : Holds deque items) {i : Nat} (hi : i < deque.buffer.length) :
    slot deque.buffer (place deque.buffer.length deque.head i) = items[i]? := by
  rw [slot, h.slots i hi]
  rfl

theorem Holds.resize (h : Holds deque items) {capacity : Nat}
    (hcapacity : ∃ k, capacity = minCapacity * 2 ^ k) (hroom : items.length ≤ capacity) :
    Holds (deque.resize capacity) items := by
  have hlength : (deque.resize capacity).buffer.length = capacity := by
    rw [Deque.resize, length_copyEntries, length_replicate]
  obtain ⟨k, hk⟩ := hcapacity
  have hpositive : 0 < capacity := by
    rw [hk]
    exact Nat.mul_pos (by decide) (Nat.two_pow_pos k)
  refine ⟨⟨k, hlength.trans hk⟩, hlength.symm ▸ hpositive, h.count, hlength.symm ▸ hroom, ?_⟩
  rw [hlength]
  intro i hi
  have hplace : place capacity (deque.resize capacity).head i = i := by
    rw [Deque.resize, place, Nat.zero_add, if_pos hi]
  have hcopy := @getElem?_copyEntries T deque.buffer (replicate capacity none) deque.head
    h.head deque.count 0 (by rw [h.count, Nat.zero_add]; exact h.fits) i
    (by rw [length_replicate]; exact hi)
  rw [place_zero h.head, Nat.zero_add] at hcopy
  rw [hplace]
  refine hcopy.trans ?_
  by_cases hlive : i < deque.count
  · rw [if_pos ⟨Nat.zero_le i, hlive⟩, h.slot_place]
    have hfits := h.fits
    rw [h.count] at hlive
    omega
  · rw [if_neg (by omega), getElem?_eq_getElem (by rw [length_replicate]; exact hi),
      getElem_replicate, getElem?_eq_none (by rw [← h.count]; omega)]

theorem Holds.ensureCapacity (h : Holds deque items) :
    Holds deque.ensureCapacity items ∧
      items.length < deque.ensureCapacity.buffer.length := by
  by_cases hfull : deque.count < deque.buffer.length
  · rw [Deque.ensureCapacity, if_pos hfull, ← h.count]
    exact ⟨h, hfull⟩
  · rw [Deque.ensureCapacity, if_neg hfull]
    have hfits := h.fits
    have hhead := h.head
    obtain ⟨k, hk⟩ := h.capacity
    have hdouble : deque.buffer.length * 2 = minCapacity * 2 ^ (k + 1) := by
      rw [hk, Nat.pow_succ, Nat.mul_assoc]
    refine ⟨h.resize ⟨k + 1, hdouble⟩ (by omega), ?_⟩
    rw [Deque.resize, length_copyEntries, length_replicate]
    omega

theorem Holds.pushBack (h : Holds deque items) (value : T) :
    Holds (deque.pushBack value) (items ++ [value]) := by
  obtain ⟨hholds, hroom⟩ := h.ensureCapacity
  have hlength : (deque.pushBack value).buffer.length = deque.ensureCapacity.buffer.length :=
    length_set
  refine ⟨?_, ?_, ?_, ?_, ?_⟩
  · rw [hlength]
    exact hholds.capacity
  · rw [hlength]
    exact hholds.head
  · rw [length_append, ← hholds.count]
    rfl
  · rw [hlength, length_append]
    exact hroom
  · rw [hlength]
    intro i hi
    show (deque.ensureCapacity.buffer.set _ (some value))[place _ deque.ensureCapacity.head i]? = _
    rw [hholds.count]
    by_cases hlast : i = items.length
    · subst hlast
      rw [getElem?_set_self (place_lt hholds.head hi), getElem?_concat_length]
    · rw [getElem?_set_ne, hholds.slots i hi]
      · by_cases hbefore : i < items.length
        · rw [getElem?_append_left hbefore]
        · rw [getElem?_eq_none (by omega),
            getElem?_eq_none (by rw [length_append, length_singleton]; omega)]
      · intro heq
        exact hlast ((place_inj hholds.head hroom hi).mp heq).symm

theorem Holds.pushFront (h : Holds deque items) (value : T) :
    Holds (deque.pushFront value) (value :: items) := by
  obtain ⟨hholds, hroom⟩ := h.ensureCapacity
  have hlength : (deque.pushFront value).buffer.length = deque.ensureCapacity.buffer.length :=
    length_set
  have hhead := previousPlace_lt hholds.head
  refine ⟨?_, ?_, ?_, ?_, ?_⟩
  · rw [hlength]
    exact hholds.capacity
  · rw [hlength]
    exact hhead
  · rw [length_cons, ← hholds.count]
    rfl
  · rw [hlength]
    exact hroom
  · rw [hlength]
    intro i hi
    show (deque.ensureCapacity.buffer.set (previousPlace _ deque.ensureCapacity.head)
      (some value))[place _ (previousPlace _ deque.ensureCapacity.head) i]? = _
    cases i with
    | zero => rw [place_zero hhead, getElem?_set_self hhead, getElem?_cons_zero]
    | succ i =>
      have hplace := place_nextPlace hhead (i := i) (by omega)
      rw [nextPlace_previousPlace hholds.head] at hplace
      rw [getElem?_set_ne, ← hplace, hholds.slots i (by omega), getElem?_cons_succ]
      intro heq
      have hzero := (place_zero hhead).trans heq
      exact absurd ((place_inj hhead (by omega) hi).mp hzero) (by omega)

theorem Holds.compact (h : Holds deque items) : Holds deque.compact items := by
  obtain ⟨k, hk⟩ := h.capacity
  have hcount := h.count
  have hpositive : 0 < deque.buffer.length := Nat.lt_of_le_of_lt (Nat.zero_le _) h.head
  rw [Deque.compact]
  by_cases hempty : deque.count = 0
  · rw [if_pos hempty]
    obtain rfl : items = [] := length_eq_zero_iff.mp (by omega)
    refine ⟨h.capacity, hpositive, h.count, h.fits, ?_⟩
    intro i hi
    obtain ⟨j, hj, hplace⟩ := exists_place h.head (place_lt hpositive hi)
    show deque.buffer[place deque.buffer.length 0 i]? = _
    rw [← hplace, h.slots j hj, getElem?_nil, getElem?_nil]
  · rw [if_neg hempty]
    by_cases hsparse : deque.buffer.length > minCapacity ∧
        deque.count ≤ deque.buffer.length / 4
    · rw [if_pos hsparse]
      cases k with
      | zero => omega
      | succ k =>
        have hhalf : deque.buffer.length / 2 = minCapacity * 2 ^ k := by
          rw [hk, Nat.pow_succ, ← Nat.mul_assoc, Nat.mul_div_cancel _ Nat.two_pos]
        have hleast : minCapacity ≤ minCapacity * 2 ^ k :=
          Nat.le_mul_of_pos_right _ (Nat.two_pow_pos k)
        refine h.resize ⟨k, ?_⟩ (by omega)
        rw [hhalf]
        omega
    · rw [if_neg hsparse]
      exact h

theorem Holds.popFront (h : Holds deque items) :
    Holds deque.popFront.1 items.tail ∧ deque.popFront.2 = items.head? := by
  have hcount := h.count
  have hfits := h.fits
  rw [Deque.popFront]
  cases items with
  | nil =>
    have hempty : deque.count = 0 := hcount
    rw [if_pos hempty]
    exact ⟨h, rfl⟩
  | cons item items =>
    rw [length_cons] at hcount hfits
    have hfirst : slot deque.buffer deque.head = some item := by
      have hslot := h.slot_place (i := 0) (by omega)
      rwa [place_zero h.head] at hslot
    rw [if_neg (by omega)]
    refine ⟨Holds.compact ?_, hfirst⟩
    have hlength : (deque.buffer.set deque.head none).length = deque.buffer.length :=
      length_set
    refine ⟨?_, ?_, by dsimp only; rw [tail_cons]; omega, ?_, ?_⟩
    · rw [hlength]
      exact h.capacity
    · rw [hlength]
      exact nextPlace_lt h.head
    · rw [hlength, tail_cons]
      omega
    · rw [hlength]
      intro i hi
      dsimp only
      rw [tail_cons, place_nextPlace h.head hi]
      by_cases hlast : i + 1 = deque.buffer.length
      · rw [hlast, place_all h.head, getElem?_set_self h.head,
          getElem?_eq_none (by omega)]
      · rw [getElem?_set_ne, h.slots (i + 1) (by omega), getElem?_cons_succ]
        intro heq
        have hzero := (place_zero h.head).trans heq
        exact absurd ((place_inj h.head (by omega) (by omega)).mp hzero) (by omega)

theorem Holds.perform (h : Holds deque items) (operation : DequeOperation T) :
    Holds (deque.perform operation).1 (performOnList items operation).1 ∧
      (deque.perform operation).2 = (performOnList items operation).2 := by
  cases operation with
  | pushBack value => exact ⟨h.pushBack value, rfl⟩
  | pushFront value => exact ⟨h.pushFront value, rfl⟩
  | popFront => exact ⟨h.popFront.1, congrArg Reply.entry h.popFront.2⟩
  | size => exact ⟨h, congrArg Reply.count h.count⟩
  | clear => exact ⟨holds_empty, rfl⟩

theorem Holds.run (h : Holds deque items) (operations : List (DequeOperation T)) :
    Holds (runOperations Deque.perform deque operations).1
        (runOperations performOnList items operations).1 ∧
      (runOperations Deque.perform deque operations).2 =
        (runOperations performOnList items operations).2 := by
  induction operations generalizing deque items with
  | nil => exact ⟨h, rfl⟩
  | cons operation operations ih =>
    obtain ⟨hholds, hreply⟩ := h.perform operation
    obtain ⟨hrun, hreplies⟩ := ih hholds
    exact ⟨hrun, congrArg₂ cons hreply hreplies⟩

theorem Holds.contents_eq (h : Holds deque items) : deque.contents = items.map some := by
  apply ext_getElem?
  intro i
  rw [contents, getElem?_map, getElem?_map, h.count]
  by_cases hi : i < items.length
  · have hfits := h.fits
    rw [getElem?_range hi, Option.map_some, h.slot_place (by omega),
      getElem?_eq_getElem hi, Option.map_some]
  · rw [getElem?_eq_none (by rw [length_range]; omega),
      getElem?_eq_none (by omega)]
    rfl

theorem Holds.cleared (h : Holds deque items) {index : Nat} (hindex : index < deque.buffer.length)
    (hfree : ¬ deque.IsLive index) : deque.buffer[index]? = some none := by
  obtain ⟨i, hi, hplace⟩ := exists_place h.head hindex
  have hpast : items.length ≤ i := by
    rw [← h.count]
    by_contra hlive
    exact hfree ⟨i, by omega, hplace.symm⟩
  rw [← hplace, h.slots i hi, getElem?_eq_none hpast]

end Operations

end Deque

/-- After any run of operations on a new deque, replies and contents are those of the list, and
every slot not in use is cleared. -/
theorem deque_refines_list (operations : List (DequeOperation T)) :
    (runOperations Deque.perform {} operations).2 =
        (runOperations performOnList [] operations).2 ∧
      (runOperations Deque.perform {} operations).1.contents =
        (runOperations performOnList [] operations).1.map some ∧
      ∀ index < (runOperations Deque.perform {} operations).1.buffer.length,
        ¬ (runOperations Deque.perform {} operations).1.IsLive index →
          (runOperations Deque.perform {} operations).1.buffer[index]? = some none := by
  obtain ⟨hholds, hreplies⟩ := Deque.holds_empty.run operations
  exact ⟨hreplies, hholds.contents_eq, fun _ => hholds.cleared⟩

end DshKernel.Util
