/-!
# Programs with call-outs

A program reads and writes a shared state, and calls out to code that may run other programs on the
same state before the call returns. What a program keeps is stated against what the programs above
it on the stack may do.
-/

namespace DshKernel.Lib

/-- A program over the states `W` that fails with an `ε` or returns an `α`. -/
inductive Program (ε Site W α : Type) where
  | done (value : α)
  | fail (error : ε)
  | read (next : W → Program ε Site W α)
  | write (change : W → W) (next : Program ε Site W α)
  | wait (site : Site) (next : Program ε Site W α)

namespace Program

variable {ε Site W α β : Type}

def bind : Program ε Site W α → (α → Program ε Site W β) → Program ε Site W β
  | .done value, f => f value
  | .fail error, _ => .fail error
  | .read next, f => .read fun w => (next w).bind f
  | .write change next, f => .write change (next.bind f)
  | .wait site next, f => .wait site (next.bind f)

instance : Monad (Program ε Site W) where
  pure := .done
  bind := bind

/-- The state. -/
def get : Program ε Site W W := .read .done

def modify (change : W → W) : Program ε Site W Unit := .write change (.done ())

/-- A call. -/
def call (site : Site) : Program ε Site W Unit := .wait site (.done ())

def throw (error : ε) : Program ε Site W α := .fail error

/-- The program with its failure as a result. -/
def attempt : Program ε Site W α → Program ε Site W (Except ε α)
  | .done value => .done (.ok value)
  | .fail error => .done (.error error)
  | .read next => .read fun w => (next w).attempt
  | .write change next => .write change next.attempt
  | .wait site next => .wait site next.attempt

/-- The program fails from the state, and has only read it. -/
def rejects : Program ε Site W α → W → ε → Prop
  | .fail found, _, error => found = error
  | .read next, w, error => (next w).rejects w error
  | .done _, _, _ => False
  | .write _ _, _, _ => False
  | .wait _ _, _, _ => False

end Program

/-- What holds of the states; what the programs above a call may do; what a program establishes
before a call; and what holds whenever no program is on its way above these calls. -/
structure Contract (Site W : Type) where
  inv : W → Prop
  rely : Site → W → W → Prop
  here : List Site → Site → W → Prop
  settled : List Site → W → Prop
  rely_refl : ∀ site w, rely site w w
  rely_trans : ∀ {site a b c}, rely site a b → rely site b c → rely site a c
  here_rely : ∀ {sites site a b}, here sites site a → rely site a b → here sites site b

section Ensures

variable {ε Site W α β : Type} {c : Contract Site W} {sites : List Site}

/-- Run from the state above the calls, the program keeps the contract, and its outcome is as
said. -/
def Ensures (c : Contract Site W) (sites : List Site) :
    Program ε Site W α → W → (Except ε α → W → Prop) → Prop
  | .done value, w, post => post (.ok value) w
  | .fail error, w, post => post (.error error) w
  | .read next, w, post => Ensures c sites (next w) w post
  | .write change next, w, post => c.inv (change w) ∧ (∀ site ∈ sites, c.rely site w (change w)) ∧
      Ensures c sites next (change w) post
  | .wait site next, w, post => c.here sites site w ∧ c.settled (site :: sites) w ∧
      ∀ later, c.rely site w later → c.inv later → c.settled (site :: sites) later →
        Ensures c sites next later post

/-- The outcome of a sequence from that of its first part. -/
def Ensures.andThen (c : Contract Site W) (sites : List Site) (f : α → Program ε Site W β)
    (post : Except ε β → W → Prop) : Except ε α → W → Prop
  | .ok value, w => Ensures c sites (f value) w post
  | .error error, w => post (.error error) w

variable {p : Program ε Site W α} {w : W} {post : Except ε α → W → Prop}
variable {f : Unit → Program ε Site W α} {site : Site}

theorem Ensures.bind {f : α → Program ε Site W β}
    {post : Except ε β → W → Prop} (h : Ensures c sites p w (Ensures.andThen c sites f post)) :
    Ensures c sites (p >>= f) w post := by
  show Ensures c sites (p.bind f) w post
  induction p generalizing w with
  | done value => exact h
  | fail error => exact h
  | read next ih => exact ih w h
  | write change next ih => exact ⟨h.1, h.2.1, ih h.2.2⟩
  | wait site next ih =>
    exact ⟨h.1, h.2.1, fun later hrely hinv hsettled => ih (h.2.2 later hrely hinv hsettled)⟩

theorem Ensures.mono {weaker : Except ε α → W → Prop}
    (h : Ensures c sites p w post) (hpost : ∀ outcome later, post outcome later → weaker outcome later) :
    Ensures c sites p w weaker := by
  induction p generalizing w with
  | done value => exact hpost _ _ h
  | fail error => exact hpost _ _ h
  | read next ih => exact ih w h
  | write change next ih => exact ⟨h.1, h.2.1, ih h.2.2⟩
  | wait site next ih =>
    exact ⟨h.1, h.2.1, fun later hrely hinv hsettled => ih (h.2.2 later hrely hinv hsettled)⟩

theorem Ensures.attempt {post : Except ε (Except ε α) → W → Prop}
    (h : Ensures c sites p w fun outcome later => post (.ok outcome) later) :
    Ensures c sites p.attempt w post := by
  induction p generalizing w with
  | done value => exact h
  | fail error => exact h
  | read next ih => exact ih w h
  | write change next ih => exact ⟨h.1, h.2.1, ih h.2.2⟩
  | wait site next ih =>
    exact ⟨h.1, h.2.1, fun later hrely hinv hsettled => ih (h.2.2 later hrely hinv hsettled)⟩

/-- What a program that waits ensures, whether or not those above it are through. -/
def Waits (c : Contract Site W) (sites : List Site) (site : Site) (next : Program ε Site W α) (w : W)
    (post : Except ε α → W → Prop) : Prop :=
  c.here sites site w ∧ ∀ later, c.rely site w later → c.inv later → c.settled (site :: sites) later →
    Ensures c sites next later post

theorem Waits.rely {next : Program ε Site W α} {later : W} (h : Waits c sites site next w post)
    (hrely : c.rely site w later) : Waits c sites site next later post :=
  ⟨c.here_rely h.1 hrely, fun final hfinal => h.2 final (c.rely_trans hrely hfinal)⟩

end Ensures

/-- The programs that can be started, by their names. A program that returns a name goes on as
the program of that name. -/
structure Machine (ε Site W Name : Type) where
  body : Name → Program ε Site W (Option Name)
  enabled : Option Site → Name → W → Prop
  throws : Site → Prop

section Machine

variable {ε Site W Name : Type}

abbrev Frame (ε Site W Name : Type) := Program ε Site W (Option Name)

structure MachineState (ε Site W Name : Type) where
  world : W
  stack : List (Frame ε Site W Name)

inductive MachineStep (m : Machine ε Site W Name) :
    MachineState ε Site W Name → MachineState ε Site W Name → Prop where
  | start {name : Name} {w : W} : m.enabled none name w → MachineStep m ⟨w, []⟩ ⟨w, [m.body name]⟩
  | nest {name : Name} {w : W} {site : Site} {next : Frame ε Site W Name}
      {rest : List (Frame ε Site W Name)} : m.enabled (some site) name w →
      MachineStep m ⟨w, .wait site next :: rest⟩ ⟨w, m.body name :: .wait site next :: rest⟩
  | read {next : W → Frame ε Site W Name} {w : W} {rest : List (Frame ε Site W Name)} :
      MachineStep m ⟨w, .read next :: rest⟩ ⟨w, next w :: rest⟩
  | write {change : W → W} {next : Frame ε Site W Name} {w : W} {rest : List (Frame ε Site W Name)} :
      MachineStep m ⟨w, .write change next :: rest⟩ ⟨change w, next :: rest⟩
  | resume {site : Site} {next : Frame ε Site W Name} {w : W} {rest : List (Frame ε Site W Name)} :
      MachineStep m ⟨w, .wait site next :: rest⟩ ⟨w, next :: rest⟩
  | abort {site : Site} {next : Frame ε Site W Name} {w : W} {rest : List (Frame ε Site W Name)} :
      m.throws site → MachineStep m ⟨w, .wait site next :: rest⟩ ⟨w, rest⟩
  | goOn {name : Name} {w : W} {rest : List (Frame ε Site W Name)} :
      MachineStep m ⟨w, .done (some name) :: rest⟩ ⟨w, m.body name :: rest⟩
  | finish {w : W} {rest : List (Frame ε Site W Name)} :
      MachineStep m ⟨w, .done none :: rest⟩ ⟨w, rest⟩
  | fail {error : ε} {w : W} {rest : List (Frame ε Site W Name)} :
      MachineStep m ⟨w, .fail error :: rest⟩ ⟨w, rest⟩

inductive MachineReaches (m : Machine ε Site W Name) :
    MachineState ε Site W Name → MachineState ε Site W Name → Prop where
  | refl (s : MachineState ε Site W Name) : MachineReaches m s s
  | step {s t u : MachineState ε Site W Name} : MachineReaches m s t → MachineStep m t u →
      MachineReaches m s u

/-- The step of the program on top, when its call returns at once. -/
def proceed (m : Machine ε Site W Name) : MachineState ε Site W Name → MachineState ε Site W Name
  | ⟨w, []⟩ => ⟨w, []⟩
  | ⟨w, .read next :: rest⟩ => ⟨w, next w :: rest⟩
  | ⟨w, .write change next :: rest⟩ => ⟨change w, next :: rest⟩
  | ⟨w, .wait _ next :: rest⟩ => ⟨w, next :: rest⟩
  | ⟨w, .done (some name) :: rest⟩ => ⟨w, m.body name :: rest⟩
  | ⟨w, .done none :: rest⟩ => ⟨w, rest⟩
  | ⟨w, .fail _ :: rest⟩ => ⟨w, rest⟩

def proceedTimes (m : Machine ε Site W Name) : Nat → MachineState ε Site W Name →
    MachineState ε Site W Name
  | 0, s => s
  | count + 1, s => proceedTimes m count (proceed m s)

variable {m : Machine ε Site W Name}

variable {s t : MachineState ε Site W Name} {stack : List (Frame ε Site W Name)} {later w : W}

theorem MachineReaches.proceed (h : MachineReaches m s t) : MachineReaches m s (proceed m t) := by
  obtain ⟨w, stack⟩ := t
  cases stack with
  | nil => exact h
  | cons top rest =>
    cases top with
    | done value =>
      cases value with
      | none => exact h.step .finish
      | some name => exact h.step .goOn
    | fail error => exact h.step .fail
    | read next => exact h.step .read
    | write change next => exact h.step .write
    | wait site next => exact h.step .resume

theorem MachineReaches.proceedTimes (count : Nat)
    (h : MachineReaches m s t) : MachineReaches m s (proceedTimes m count t) := by
  induction count generalizing t with
  | zero => exact h
  | succ count ih => exact ih h.proceed

theorem MachineReaches.parts (h : MachineReaches m s t) :
    MachineReaches m s ⟨t.world, t.stack⟩ := h

/-- The outcome that lets the machine go on: another name whose condition holds, or a settled
state. -/
def goesOn (c : Contract Site W) (pre : List Site → Name → W → Prop) (sites : List Site) :
    Except ε (Option Name) → W → Prop
  | .ok (some name), w => pre sites name w
  | .ok none, w => c.settled sites w
  | .error _, w => c.settled sites w

/-- The calls in progress, each with what was established for it. -/
inductive SitesHere (c : Contract Site W) (w : W) : List Site → Prop where
  | nil : SitesHere c w []
  | cons {site : Site} {sites : List Site} : c.here sites site w → SitesHere c w sites →
      SitesHere c w (site :: sites)

/-- Each name has a condition that a start meets and under which its program keeps the contract. -/
structure Sound (c : Contract Site W) (m : Machine ε Site W Name)
    (pre : List Site → Name → W → Prop) : Prop where
  start : ∀ {name w}, m.enabled none name w → c.inv w → c.settled [] w → pre [] name w
  nest : ∀ {name w site sites}, SitesHere c w (site :: sites) → m.enabled (some site) name w →
    c.inv w → c.settled (site :: sites) w → pre (site :: sites) name w
  abort : ∀ {w site sites}, m.throws site → c.settled (site :: sites) w → c.settled sites w
  body : ∀ {sites name w}, pre sites name w → c.inv w →
    Ensures c sites (m.body name) w (goesOn c pre sites)

/-- The programs below the top wait at the calls, and go on once those above are through. -/
inductive StackOk (c : Contract Site W) (pre : List Site → Name → W → Prop) (w : W) :
    List (Frame ε Site W Name) → List Site → Prop where
  | nil : StackOk c pre w [] []
  | cons {site : Site} {next : Frame ε Site W Name} {rest : List (Frame ε Site W Name)}
      {sites : List Site} : Waits c sites site next w (goesOn c pre sites) →
      StackOk c pre w rest sites → StackOk c pre w (.wait site next :: rest) (site :: sites)

variable {c : Contract Site W} {pre : List Site → Name → W → Prop}

theorem StackOk.rely {sites : List Site}
    (h : StackOk c pre w stack sites) (hrely : ∀ site ∈ sites, c.rely site w later) :
    StackOk c pre later stack sites := by
  induction h with
  | nil => exact .nil
  | cons hframe _ ih =>
    obtain ⟨hsite, hrest⟩ := List.forall_mem_cons.mp hrely
    exact .cons (hframe.rely hsite) (ih hrest)

theorem StackOk.here {sites : List Site}
    (h : StackOk c pre w stack sites) : SitesHere c w sites := by
  induction h with
  | nil => exact .nil
  | cons hframe _ ih => exact .cons hframe.1 ih

/-- The invariant holds, and the stack is in order: it is empty, or a program runs on top. -/
inductive StateOk (c : Contract Site W) (pre : List Site → Name → W → Prop) :
    MachineState ε Site W Name → Prop where
  | idle {w : W} : c.inv w → c.settled [] w → StateOk c pre ⟨w, []⟩
  | running {w : W} {top : Frame ε Site W Name} {rest : List (Frame ε Site W Name)}
      {sites : List Site} : c.inv w → Ensures c sites top w (goesOn c pre sites) →
      StackOk c pre w rest sites → StateOk c pre ⟨w, top :: rest⟩

/-- What is left when the program on top is gone. -/
theorem StackOk.stateOk {sites : List Site}
    (h : StackOk c pre w stack sites) (hinv : c.inv w) (hsettled : c.settled sites w) :
    StateOk c pre ⟨w, stack⟩ := by
  cases h with
  | nil => exact .idle hinv hsettled
  | cons hframe hrest => exact .running hinv ⟨hframe.1, hsettled, hframe.2⟩ hrest

theorem Sound.step (h : Sound c m pre) (hok : StateOk c pre s)
    (hstep : MachineStep m s t) : StateOk c pre t := by
  cases hok with
  | idle hinv hsettled =>
    cases hstep with
    | start henabled => exact .running hinv (h.body (h.start henabled hinv hsettled) hinv) .nil
  | running hinv htop hrest =>
    cases hstep with
    | nest henabled =>
      have hstack := StackOk.cons ⟨htop.1, htop.2.2⟩ hrest
      exact .running hinv (h.body (h.nest hstack.here henabled hinv htop.2.1) hinv) hstack
    | read => exact .running hinv htop hrest
    | write => exact .running htop.1 htop.2.2 (hrest.rely htop.2.1)
    | resume => exact .running hinv (htop.2.2 _ (c.rely_refl _ _) hinv htop.2.1) hrest
    | abort hthrows => exact hrest.stateOk hinv (h.abort hthrows htop.2.1)
    | goOn => exact .running hinv (h.body htop hinv) hrest
    | finish => exact hrest.stateOk hinv htop
    | fail => exact hrest.stateOk hinv htop

theorem Sound.reaches (h : Sound c m pre) (hok : StateOk c pre s)
    (hreaches : MachineReaches m s t) : StateOk c pre t := by
  induction hreaches with
  | refl => exact hok
  | step _ hstep ih => exact h.step ih hstep

/-- The invariant holds in every state that the machine reaches from an idle one. -/
theorem Sound.inv (h : Sound c m pre) (hinv : c.inv w)
    (hsettled : c.settled [] w) (hreaches : MachineReaches m ⟨w, []⟩ s) : c.inv s.world := by
  cases h.reaches (.idle hinv hsettled) hreaches with
  | idle hinv _ => exact hinv
  | running hinv _ _ => exact hinv

/-- Whenever the machine is idle again, the state is settled. -/
theorem Sound.settled (h : Sound c m pre) (hinv : c.inv w) (hsettled : c.settled [] w)
    (hreaches : MachineReaches m ⟨w, []⟩ ⟨later, []⟩) : c.settled [] later := by
  cases h.reaches (.idle hinv hsettled) hreaches with
  | idle _ hlater => exact hlater

end Machine

end DshKernel.Lib
