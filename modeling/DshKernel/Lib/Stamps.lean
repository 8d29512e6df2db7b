import DshKernel.Lib.OrderedMap

/-!
# Tables whose rows are stamped

Each row that is written carries a stamp past all stamps given before. A row with an old stamp
was there when the old stamps were given.
-/

namespace DshKernel.Lib

variable {κ ν : Type} [DecidableEq κ] (stamp : ν → Nat)

/-- No row has a stamp that was not given yet. -/
def Stamped (count : Nat) (table : OrderedMap κ ν) : Prop :=
  ∀ key row, table.get? key = some row → stamp row ≤ count

/-- Every later row with a stamp up to `count` is a row of the earlier table. -/
def KeepsStamped (count : Nat) (earlier later : OrderedMap κ ν) : Prop :=
  ∀ key row, later.get? key = some row → stamp row ≤ count → earlier.get? key = some row

theorem Stamped.empty (count : Nat) : Stamped stamp count (.empty : OrderedMap κ ν) :=
  fun _ _ hrow => nomatch hrow

variable {stamp} {count later next : Nat} {first second third table : OrderedMap κ ν}
variable {key : κ} {row : ν}

theorem Stamped.mono (h : Stamped stamp count table) (hle : count ≤ later) :
    Stamped stamp later table :=
  fun key row hrow => Nat.le_trans (h key row hrow) hle

theorem Stamped.delete (h : Stamped stamp count table) : Stamped stamp count (table.delete key) :=
  fun _ row hrow => h _ row (OrderedMap.get?_delete_eq_some.mp hrow).2

theorem Stamped.deletes {keys : List κ} (h : Stamped stamp count table) :
    Stamped stamp count (keys.foldl OrderedMap.delete table) := by
  induction keys generalizing table with
  | nil => exact h
  | cons key rest ih => exact ih h.delete

theorem Stamped.set (h : Stamped stamp count table) (hle : stamp row ≤ count) :
    Stamped stamp count (table.set key row) := by
  intro other found hfound
  rcases OrderedMap.get?_set_eq_some.mp hfound with ⟨-, heq⟩ | ⟨-, hold⟩
  · rw [← heq]
    exact hle
  · exact h other found hold

theorem KeepsStamped.refl (count : Nat) (table : OrderedMap κ ν) :
    KeepsStamped stamp count table table :=
  fun _ _ hrow _ => hrow

theorem KeepsStamped.trans (hfirst : KeepsStamped stamp count first second)
    (hsecond : KeepsStamped stamp later second third) (hle : count ≤ later) :
    KeepsStamped stamp count first third :=
  fun key row hrow hstamp =>
    hfirst key row (hsecond key row hrow (Nat.le_trans hstamp hle)) hstamp

theorem KeepsStamped.delete (h : KeepsStamped stamp count first second) :
    KeepsStamped stamp count first (second.delete key) :=
  fun other row hrow => h other row (OrderedMap.get?_delete_eq_some.mp hrow).2

theorem KeepsStamped.deletes {keys : List κ} (h : KeepsStamped stamp count first second) :
    KeepsStamped stamp count first (keys.foldl OrderedMap.delete second) := by
  induction keys generalizing second with
  | nil => exact h
  | cons key rest ih => exact ih h.delete

/-- A row with a fresh stamp takes nothing from what is kept. -/
theorem KeepsStamped.set (h : KeepsStamped stamp count first second) (hfresh : count < stamp row) :
    KeepsStamped stamp count first (second.set key row) := by
  intro other found hfound hstamp
  rcases OrderedMap.get?_set_eq_some.mp hfound with ⟨-, heq⟩ | ⟨-, hold⟩
  · rw [← heq] at hstamp
    exact absurd hstamp (Nat.not_le_of_lt hfresh)
  · exact h other found hold hstamp

end DshKernel.Lib
