/-!
# Task stacks

A walk that defers its work: the task on top is taken off, done, and the tasks it defers are
put on top of what was left. What such a walk does on a stack is what it does on the upper
part and then on the lower.
-/

namespace DshKernel.Lib

variable {ε Task S : Type} {act : Task → S → Except ε (List Task × S)}

/-- At most `fuel` tasks of the stack, with what each defers; `none` when that is not enough. -/
def runTasks (act : Task → S → Except ε (List Task × S)) :
    Nat → List Task → S → Option (Except ε S)
  | _, [], s => some (.ok s)
  | 0, _ :: _, _ => none
  | fuel + 1, task :: rest, s =>
    match act task s with
    | .error error => some (.error error)
    | .ok (deferred, later) => runTasks act fuel (deferred ++ rest) later

@[simp] theorem runTasks_nil (fuel : Nat) (s : S) : runTasks act fuel [] s = some (.ok s) := by
  cases fuel <;> rfl

variable {front rest tasks : List Task} {fuel : Nat} {final s : S} {task : Task}
variable {result : Except ε S}

theorem runTasks_cons_ok :
    runTasks act fuel (task :: rest) s = some (.ok final) ↔
      ∃ left deferred later, fuel = left + 1 ∧ act task s = .ok (deferred, later) ∧
        runTasks act left (deferred ++ rest) later = some (.ok final) := by
  cases fuel with
  | zero => simp [runTasks]
  | succ fuel =>
    simp only [runTasks]
    cases hact : act task s with
    | error error => simp
    | ok result =>
      obtain ⟨deferred, later⟩ := result
      constructor
      · intro h
        exact ⟨fuel, deferred, later, rfl, rfl, h⟩
      · rintro ⟨_, _, _, hfuel, heq, h⟩
        cases hfuel
        cases heq
        exact h

theorem runTasks_append {front rest : List Task} {fuel : Nat} {s final : S}
    (h : runTasks act fuel (front ++ rest) s = some (.ok final)) :
    ∃ used left mid, used + left = fuel ∧ runTasks act used front s = some (.ok mid) ∧
      runTasks act left rest mid = some (.ok final) := by
  induction fuel generalizing front s with
  | zero =>
    cases front with
    | nil => exact ⟨0, 0, s, rfl, rfl, h⟩
    | cons task front => simp [runTasks] at h
  | succ fuel ih =>
    cases front with
    | nil => exact ⟨0, fuel + 1, s, by omega, rfl, h⟩
    | cons task front =>
      obtain ⟨left, deferred, later, hfuel, hact, hrest⟩ := runTasks_cons_ok.mp h
      cases hfuel
      have hsplit : runTasks act fuel ((deferred ++ front) ++ rest) later = some (.ok final) := by
        rw [List.append_assoc]
        exact hrest
      obtain ⟨used, remaining, mid, hsum, hfront, hlast⟩ := ih hsplit
      refine ⟨used + 1, remaining, mid, by omega, ?_, hlast⟩
      exact runTasks_cons_ok.mpr ⟨used, deferred, later, rfl, hact, hfront⟩

/-- Every task of a finished stack ran by itself, and the rest of the run came after it. -/
theorem runTasks_mem
    (h : runTasks act fuel tasks s = some (.ok final)) (hmem : task ∈ tasks) :
    ∃ used left before after rest, used ≤ fuel ∧
      runTasks act used [task] before = some (.ok after) ∧
      runTasks act left rest after = some (.ok final) := by
  induction tasks generalizing fuel s with
  | nil => cases hmem
  | cons head tail ih =>
    obtain ⟨used, left, mid, hsum, hhead, htail⟩ := @runTasks_append _ _ _ _ [head] tail _ _ _ h
    rcases List.mem_cons.mp hmem with rfl | hlater
    · exact ⟨used, left, s, mid, tail, by omega, hhead, htail⟩
    · obtain ⟨used', left', before, after, rest, hle, hone, hrest⟩ := ih htail hlater
      exact ⟨used', left', before, after, rest, by omega, hone, hrest⟩

/-- What holds of a state and of every state an action makes of it holds at the end. -/
theorem runTasks_preserves {P : S → Prop}
    (hact : ∀ task s deferred later, act task s = .ok (deferred, later) → P s → P later)
    {fuel : Nat} {tasks : List Task} {s final : S}
    (h : runTasks act fuel tasks s = some (.ok final)) (hs : P s) : P final := by
  induction fuel generalizing tasks s with
  | zero =>
    cases tasks with
    | nil =>
      cases h
      exact hs
    | cons task rest => simp [runTasks] at h
  | succ fuel ih =>
    cases tasks with
    | nil =>
      cases h
      exact hs
    | cons task rest =>
      obtain ⟨left, deferred, later, hfuel, hdone, hrest⟩ := runTasks_cons_ok.mp h
      cases hfuel
      exact ih hrest (hact task s deferred later hdone hs)

theorem runTasks_mono {more : Nat}
    (h : runTasks act fuel tasks s = some result) (hle : fuel ≤ more) :
    runTasks act more tasks s = some result := by
  induction fuel generalizing more tasks s with
  | zero =>
    cases tasks with
    | nil => rwa [runTasks_nil] at h ⊢
    | cons task rest => cases h
  | succ fuel ih =>
    cases tasks with
    | nil => rwa [runTasks_nil] at h ⊢
    | cons task rest =>
      obtain ⟨more, rfl⟩ : ∃ n, more = n + 1 := ⟨more - 1, by omega⟩
      rw [runTasks] at h ⊢
      cases hact : act task s with
      | error error =>
        rw [hact] at h
        exact h
      | ok done =>
        rw [hact] at h
        exact ih h (by omega)

/-- The stack is worked off, or an error ends it. -/
def Ends (act : Task → S → Except ε (List Task × S)) (tasks : List Task) (s : S)
    (result : Except ε S) : Prop :=
  ∃ fuel, runTasks act fuel tasks s = some result

theorem Ends.nil (s : S) : Ends act [] s (.ok s) := ⟨0, runTasks_nil 0 s⟩

theorem Ends.cons {task : Task} {rest deferred : List Task} {s later : S} {result : Except ε S}
    (hact : act task s = .ok (deferred, later)) (h : Ends act (deferred ++ rest) later result) :
    Ends act (task :: rest) s result := by
  obtain ⟨fuel, hfuel⟩ := h
  refine ⟨fuel + 1, ?_⟩
  rw [runTasks, hact]
  exact hfuel

theorem Ends.fails {error : ε} (hact : act task s = .error error)
    (rest : List Task) : Ends act (task :: rest) s (.error error) := by
  refine ⟨1, ?_⟩
  rw [runTasks, hact]

theorem Ends.append_error {error : ε} (h : Ends act front s (.error error)) (rest : List Task) :
    Ends act (front ++ rest) s (.error error) := by
  obtain ⟨fuel, hfuel⟩ := h
  induction fuel generalizing front s with
  | zero =>
    cases front with
    | nil => cases hfuel
    | cons task front => cases hfuel
  | succ fuel ih =>
    cases front with
    | nil => cases hfuel
    | cons task front =>
      rw [runTasks] at hfuel
      cases hact : act task s with
      | error other =>
        rw [hact] at hfuel
        cases hfuel
        exact Ends.fails hact _
      | ok done =>
        rw [hact] at hfuel
        rw [List.cons_append]
        apply Ends.cons hact
        rw [← List.append_assoc]
        exact ih hfuel

theorem Ends.append {mid : S}
    (hfront : Ends act front s (.ok mid)) (hrest : Ends act rest mid result) :
    Ends act (front ++ rest) s result := by
  obtain ⟨fuel, hfuel⟩ := hfront
  induction fuel generalizing front s with
  | zero =>
    cases front with
    | nil =>
      cases hfuel
      exact hrest
    | cons task front => cases hfuel
  | succ fuel ih =>
    cases front with
    | nil =>
      cases hfuel
      exact hrest
    | cons task front =>
      obtain ⟨left, deferred, later, hleft, hact, hlater⟩ := runTasks_cons_ok.mp hfuel
      cases hleft
      rw [List.cons_append]
      apply Ends.cons hact
      rw [← List.append_assoc]
      exact ih hlater

end DshKernel.Lib
