/-!
# Programs whose operations may fail

A schedule says which operations of a program fail, each with a detail of how far it came. A
specification says which have to work for the program to return, and what holds then and otherwise.
-/

namespace DshKernel.Lib

/-- Which operations fail. -/
abbrev Schedule (Op δ : Type) := Op → Option δ

structure Faulty (Op δ ε σ α : Type) where
  run : Schedule Op δ → σ → Except ε α × σ

namespace Faulty

variable {Op δ ε σ α β : Type}

instance : Monad (Faulty Op δ ε σ) where
  pure value := ⟨fun _ state => (.ok value, state)⟩
  bind first next := ⟨fun schedule state =>
    match first.run schedule state with
    | (.ok value, state) => (next value).run schedule state
    | (.error error, state) => (.error error, state)⟩

/-- The state. -/
def get : Faulty Op δ ε σ σ := ⟨fun _ state => (.ok state, state)⟩

def modify (change : σ → σ) : Faulty Op δ ε σ Unit := ⟨fun _ state => (.ok (), change state)⟩

def throw (error : ε) : Faulty Op δ ε σ α := ⟨fun _ state => (.error error, state)⟩

/-- An operation, with what it leaves behind when it fails. -/
def perform (op : Op) (error : ε) (effect : σ → σ) (spoil : δ → σ → σ) : Faulty Op δ ε σ Unit :=
  ⟨fun schedule state =>
    match schedule op with
    | some detail => (.error error, spoil detail state)
    | none => (.ok (), effect state)⟩

/-- `try … catch` -/
def rescue (body : Faulty Op δ ε σ α) (handler : ε → Faulty Op δ ε σ α) : Faulty Op δ ε σ α :=
  ⟨fun schedule state =>
    match body.run schedule state with
    | (.ok value, state) => (.ok value, state)
    | (.error error, state) => (handler error).run schedule state⟩

/-- The outcome of a `finally`: the failure of its last part is the one that shows. -/
def settle (outcome : Except ε α) : Except ε Unit → Except ε α
  | .ok () => outcome
  | .error error => .error error

/-- `try … finally` -/
def ensure (body : Faulty Op δ ε σ α) (last : Faulty Op δ ε σ Unit) : Faulty Op δ ε σ α :=
  ⟨fun schedule state =>
    match body.run schedule state with
    | (outcome, state) =>
      match last.run schedule state with
      | (ended, state) => (settle outcome ended, state)⟩

/-- Under the allowed schedules the program returns exactly when none of the operations fails. Then
`post` holds, and otherwise `failed`. -/
def Spec (allowed : Schedule Op δ → Prop) (program : Faulty Op δ ε σ α) (ops : List Op)
    (pre : σ → Prop) (post : α → σ → Prop) (failed : σ → Prop) : Prop :=
  ∀ schedule state, allowed schedule → pre state →
    (∃ value after, program.run schedule state = (.ok value, after) ∧
      (∀ op ∈ ops, schedule op = none) ∧ post value after) ∨
    ∃ error after, program.run schedule state = (.error error, after) ∧
      (∃ op ∈ ops, schedule op ≠ none) ∧ failed after

/-- The program fails in any case. -/
def Fails (allowed : Schedule Op δ → Prop) (program : Faulty Op δ ε σ α) (pre failed : σ → Prop) :
    Prop :=
  ∀ schedule state, allowed schedule → pre state →
    ∃ error after, program.run schedule state = (.error error, after) ∧ failed after

section Runs

variable {program : Faulty Op δ ε σ α} {schedule : Schedule Op δ} {state after : σ}

theorem run_bind_ok {value : α} (h : program.run schedule state = (.ok value, after))
    (next : α → Faulty Op δ ε σ β) :
    (program >>= next).run schedule state = (next value).run schedule after := by
  change (match program.run schedule state with
    | (.ok value, state) => (next value).run schedule state
    | (.error error, state) => (.error error, state)) = _
  rw [h]

theorem run_bind_error {error : ε} (h : program.run schedule state = (.error error, after))
    (next : α → Faulty Op δ ε σ β) :
    (program >>= next).run schedule state = (.error error, after) := by
  change (match program.run schedule state with
    | (.ok value, state) => (next value).run schedule state
    | (.error error, state) => (.error error, state)) = _
  rw [h]

theorem run_bind_assoc {γ : Type} (next : α → Faulty Op δ ε σ β) (last : β → Faulty Op δ ε σ γ) :
    (program >>= fun value => next value >>= last).run schedule state =
      (program >>= next >>= last).run schedule state := by
  rcases hrun : program.run schedule state with ⟨error | value, after⟩
  · rw [run_bind_error hrun, run_bind_error (run_bind_error hrun _)]
  · rw [run_bind_ok hrun]
    rcases hnext : (next value).run schedule after with ⟨error | result, later⟩
    · rw [run_bind_error hnext, run_bind_error ((run_bind_ok hrun _).trans hnext)]
    · rw [run_bind_ok hnext, run_bind_ok ((run_bind_ok hrun _).trans hnext)]

theorem run_rescue_ok {value : α} (h : program.run schedule state = (.ok value, after))
    (handler : ε → Faulty Op δ ε σ α) :
    (program.rescue handler).run schedule state = (.ok value, after) := by
  unfold rescue
  simp only [h]

theorem run_ensure {outcome : Except ε α} {last : Faulty Op δ ε σ Unit} {ended : Except ε Unit}
    {closed : σ} (h : program.run schedule state = (outcome, after))
    (hlast : last.run schedule after = (ended, closed)) :
    (program.ensure last).run schedule state = (settle outcome ended, closed) := by
  unfold ensure
  simp only [h, hlast]

end Runs

section Rules

variable {allowed : Schedule Op δ → Prop} {program : Faulty Op δ ε σ α} {ops ops' : List Op}
  {pre : σ → Prop} {post : α → σ → Prop} {post' : β → σ → Prop} {failed failed' : σ → Prop}

theorem spec_pure {value : α} (h : ∀ state, pre state → post value state) (failed : σ → Prop) :
    Spec allowed (pure value : Faulty Op δ ε σ α) [] pre post failed := by
  intro schedule state _ hpre
  refine .inl ⟨value, state, rfl, ?_, h state hpre⟩
  intro op hop
  cases hop

theorem spec_perform {op : Op} {error : ε} {effect : σ → σ} {spoil : δ → σ → σ}
    {post : Unit → σ → Prop} (heffect : ∀ state, pre state → post () (effect state))
    (hspoil : ∀ detail state, pre state → failed (spoil detail state)) :
    Spec allowed (perform op error effect spoil) [op] pre post failed := by
  intro schedule state _ hpre
  unfold perform
  cases hop : schedule op with
  | none =>
    refine .inl ⟨(), effect state, ?_, ?_, heffect state hpre⟩
    · simp only [hop]
    · intro other hother
      rw [List.mem_singleton.mp hother, hop]
  | some detail =>
    refine .inr ⟨error, spoil detail state, ?_, ⟨op, List.mem_singleton_self op, ?_⟩,
      hspoil detail state hpre⟩
    · simp only [hop]
    · rw [hop]
      exact fun heq => nomatch heq

/-- What is read is the state that the program goes on from. -/
theorem spec_get {next : σ → Faulty Op δ ε σ β}
    (h : ∀ found, pre found → Spec allowed (next found) ops (fun state => state = found) post' failed) :
    Spec allowed (get >>= next) ops pre post' failed := by
  intro schedule state hallowed hpre
  exact h state hpre schedule state hallowed rfl

variable {next : α → Faulty Op δ ε σ β} {done : α → σ → Prop}

theorem Spec.bind (h : Spec allowed program ops pre post failed)
    (hnext : ∀ value, Spec allowed (next value) ops' (post value) post' failed) :
    Spec allowed (program >>= next) (ops ++ ops') pre post' failed := by
  intro schedule state hallowed hpre
  rcases h schedule state hallowed hpre with
    ⟨value, middle, hrun, hops, hpost⟩ | ⟨error, after, hrun, ⟨op, hop, hfails⟩, hfailed⟩
  · rw [run_bind_ok hrun]
    rcases hnext value schedule middle hallowed hpost with
      ⟨result, after, hlast, hrest, hresult⟩ | ⟨error, after, hlast, ⟨op, hop, hfails⟩, hfailed⟩
    · refine .inl ⟨result, after, hlast, ?_, hresult⟩
      intro op hop
      rcases List.mem_append.mp hop with hleft | hright
      · exact hops op hleft
      · exact hrest op hright
    · exact .inr ⟨error, after, hlast, ⟨op, List.mem_append_right _ hop, hfails⟩, hfailed⟩
  · rw [run_bind_error hrun]
    exact .inr ⟨error, after, rfl, ⟨op, List.mem_append_left _ hop, hfails⟩, hfailed⟩

theorem Spec.fails (h : Spec allowed program ops pre post failed)
    (hnext : ∀ value, Fails allowed (next value) (post value) failed) :
    Fails allowed (program >>= next) pre failed := by
  intro schedule state hallowed hpre
  rcases h schedule state hallowed hpre with
    ⟨value, middle, hrun, -, hpost⟩ | ⟨error, after, hrun, -, hfailed⟩
  · rw [run_bind_ok hrun]
    exact hnext value schedule middle hallowed hpost
  · rw [run_bind_error hrun]
    exact ⟨error, after, rfl, hfailed⟩

theorem Fails.bind (h : Fails allowed program pre failed) (next : α → Faulty Op δ ε σ β) :
    Fails allowed (program >>= next) pre failed := by
  intro schedule state hallowed hpre
  obtain ⟨error, after, hrun, hfailed⟩ := h schedule state hallowed hpre
  exact ⟨error, after, run_bind_error hrun next, hfailed⟩

/-- A handler that fails after all leaves its own state behind. -/
theorem Spec.rescue {handler : ε → Faulty Op δ ε σ α} (h : Spec allowed program ops pre post failed)
    (hhandler : ∀ error, Fails allowed (handler error) failed failed') :
    Spec allowed (program.rescue handler) ops pre post failed' := by
  intro schedule state hallowed hpre
  unfold Faulty.rescue
  rcases h schedule state hallowed hpre with
    ⟨value, after, hrun, hops, hpost⟩ | ⟨error, middle, hrun, hops, hfailed⟩
  · exact .inl ⟨value, after, by simp only [hrun], hops, hpost⟩
  · obtain ⟨last, after, hlast, hdone⟩ := hhandler error schedule middle hallowed hfailed
    exact .inr ⟨last, after, by simp only [hrun, hlast], hops, hdone⟩

/-- The last part runs after either outcome. -/
theorem Spec.ensure {last : Faulty Op δ ε σ Unit} (h : Spec allowed program ops pre post failed)
    (hpost : ∀ value, Spec allowed last ops' (post value) (fun _ => done value) failed')
    (hfailed : Spec allowed last ops' failed (fun _ => failed') failed') :
    Spec allowed (program.ensure last) (ops ++ ops') pre done failed' := by
  intro schedule state hallowed hpre
  rcases h schedule state hallowed hpre with
    ⟨value, middle, hrun, hops, hmiddle⟩ | ⟨error, middle, hrun, ⟨op, hop, hfails⟩, hmiddle⟩
  · rcases hpost value schedule middle hallowed hmiddle with
      ⟨_, after, hlast, hrest, hdone⟩ | ⟨error, after, hlast, ⟨op, hop, hfails⟩, hdone⟩
    · refine .inl ⟨value, after, run_ensure hrun hlast, ?_, hdone⟩
      intro op hop
      rcases List.mem_append.mp hop with hleft | hright
      · exact hops op hleft
      · exact hrest op hright
    · exact .inr ⟨error, after, run_ensure hrun hlast, ⟨op, List.mem_append_right _ hop, hfails⟩, hdone⟩
  · rcases hfailed schedule middle hallowed hmiddle with
      ⟨_, after, hlast, -, hdone⟩ | ⟨other, after, hlast, -, hdone⟩
    · exact .inr ⟨error, after, run_ensure hrun hlast, ⟨op, List.mem_append_left _ hop, hfails⟩, hdone⟩
    · exact .inr ⟨other, after, run_ensure hrun hlast, ⟨op, List.mem_append_left _ hop, hfails⟩, hdone⟩

theorem Spec.weaken {pre' : σ → Prop}
    (h : Spec allowed program ops pre post failed) (hpre : ∀ state, pre' state → pre state)
    (hpost : ∀ value state, post value state → done value state)
    (hfailed : ∀ state, failed state → failed' state) :
    Spec allowed program ops pre' done failed' := by
  intro schedule state hallowed hstate
  rcases h schedule state hallowed (hpre state hstate) with
    ⟨value, last, hrun, hops, hlast⟩ | ⟨error, last, hrun, hop, hlast⟩
  · exact .inl ⟨value, last, hrun, hops, hpost value last hlast⟩
  · exact .inr ⟨error, last, hrun, hop, hfailed last hlast⟩

/-- Without faults the program returns. -/
theorem Spec.returns {schedule : Schedule Op δ} {state : σ}
    (h : Spec allowed program ops pre post failed) (hallowed : allowed schedule) (hpre : pre state)
    (hops : ∀ op ∈ ops, schedule op = none) :
    ∃ value after, program.run schedule state = (.ok value, after) ∧ post value after := by
  rcases h schedule state hallowed hpre with
    ⟨value, after, hrun, -, hpost⟩ | ⟨error, after, -, ⟨op, hop, hfails⟩, -⟩
  · exact ⟨value, after, hrun, hpost⟩
  · exact absurd (hops op hop) hfails

theorem fails_throw {error : ε} (h : ∀ state, pre state → failed state) :
    Fails allowed (throw error : Faulty Op δ ε σ α) pre failed :=
  fun _ state _ hpre => ⟨error, state, rfl, h state hpre⟩

end Rules

end Faulty

end DshKernel.Lib
