import DshKernel.Lib.Program
import Mathlib.Data.List.Basic

/-!
# Programs on an event loop

A program runs until it returns or awaits. At a call-out other programs run before it goes on; when
it awaits, those below it go on, and it becomes a task that the loop takes up again once nothing
else runs.
-/

namespace DshKernel.Lib

/-- What happens where a program waits: others may run before the call-out returns; a program is
started and not waited for; or the program is suspended until it is ready. -/
inductive SiteKind (W Name : Type) where
  | callout
  | start (name : Name)
  | await (ready : W → Bool)

structure EventLoop (ε Site W Name : Type) where
  body : Name → Program ε Site W (Option Name)
  kind : Site → SiteKind W Name
  enabled : Option Site → Name → W → Prop

structure LoopState (ε Site W Name : Type) where
  world : W
  stack : List (Frame ε Site W Name)
  tasks : List (Frame ε Site W Name)

section Steps

variable {ε Site W Name : Type}

inductive LoopStep (l : EventLoop ε Site W Name) :
    LoopState ε Site W Name → LoopState ε Site W Name → Prop where
  | enter {name : Name} {w : W} {tasks : List (Frame ε Site W Name)} : l.enabled none name w →
      LoopStep l ⟨w, [], tasks⟩ ⟨w, [l.body name], tasks⟩
  | nest {name : Name} {w : W} {site : Site} {next : Frame ε Site W Name}
      {rest tasks : List (Frame ε Site W Name)} : l.kind site = .callout →
      l.enabled (some site) name w →
      LoopStep l ⟨w, .wait site next :: rest, tasks⟩ ⟨w, l.body name :: .wait site next :: rest, tasks⟩
  | start {name : Name} {w : W} {site : Site} {next : Frame ε Site W Name}
      {rest tasks : List (Frame ε Site W Name)} : l.kind site = .start name →
      LoopStep l ⟨w, .wait site next :: rest, tasks⟩ ⟨w, l.body name :: next :: rest, tasks⟩
  | read {next : W → Frame ε Site W Name} {w : W} {rest tasks : List (Frame ε Site W Name)} :
      LoopStep l ⟨w, .read next :: rest, tasks⟩ ⟨w, next w :: rest, tasks⟩
  | write {change : W → W} {next : Frame ε Site W Name} {w : W}
      {rest tasks : List (Frame ε Site W Name)} :
      LoopStep l ⟨w, .write change next :: rest, tasks⟩ ⟨change w, next :: rest, tasks⟩
  | resume {site : Site} {next : Frame ε Site W Name} {w : W}
      {rest tasks : List (Frame ε Site W Name)} : l.kind site = .callout →
      LoopStep l ⟨w, .wait site next :: rest, tasks⟩ ⟨w, next :: rest, tasks⟩
  | suspend {site : Site} {ready : W → Bool} {next : Frame ε Site W Name} {w : W}
      {rest tasks : List (Frame ε Site W Name)} : l.kind site = .await ready →
      LoopStep l ⟨w, .wait site next :: rest, tasks⟩ ⟨w, rest, .wait site next :: tasks⟩
  | wake {site : Site} {ready : W → Bool} {next : Frame ε Site W Name} {w : W}
      {before after : List (Frame ε Site W Name)} : l.kind site = .await ready → ready w = true →
      LoopStep l ⟨w, [], before ++ .wait site next :: after⟩ ⟨w, [next], before ++ after⟩
  | goOn {name : Name} {w : W} {rest tasks : List (Frame ε Site W Name)} :
      LoopStep l ⟨w, .done (some name) :: rest, tasks⟩ ⟨w, l.body name :: rest, tasks⟩
  | finish {w : W} {rest tasks : List (Frame ε Site W Name)} :
      LoopStep l ⟨w, .done none :: rest, tasks⟩ ⟨w, rest, tasks⟩
  | fail {error : ε} {w : W} {rest tasks : List (Frame ε Site W Name)} :
      LoopStep l ⟨w, .fail error :: rest, tasks⟩ ⟨w, rest, tasks⟩

inductive LoopReaches (l : EventLoop ε Site W Name) :
    LoopState ε Site W Name → LoopState ε Site W Name → Prop where
  | refl (s : LoopState ε Site W Name) : LoopReaches l s s
  | step {s t u : LoopState ε Site W Name} : LoopReaches l s t → LoopStep l t u → LoopReaches l s u

/-- What holds of the states; what the programs do while a program waits; what a program establishes
to wait; what holds whenever no program runs; and the conditions of the names. -/
structure LoopContract (Site W Name : Type) where
  inv : W → Prop
  rely : Site → W → W → Prop
  here : Site → W → Prop
  settled : List Site → W → Prop
  pre : List Site → Name → W → Prop
  rely_refl : ∀ site w, rely site w w
  rely_trans : ∀ {site a b c}, rely site a b → rely site b c → rely site a c
  here_rely : ∀ {site a b}, here site a → rely site a b → here site b
  settled_perm : ∀ {sites sites' w}, sites.Perm sites' → settled sites w → settled sites' w

/-- What a start needs, and a suspension or a call-out. -/
def LoopContract.leaves (c : LoopContract Site W Name) (sites : List Site) (w : W) :
    SiteKind W Name → Prop
  | .start name => c.pre sites name w
  | .callout => c.settled sites w
  | .await _ => c.settled sites w

def SiteKind.isAwait : SiteKind W Name → Prop
  | .await _ => True
  | .callout => False
  | .start _ => False

/-- The sites of the programs that wait beside one: those below it on the stack, and the tasks. -/
structure Others (Site : Type) where
  below : List Site
  tasks : List Site

def Others.all (others : Others Site) : List Site := others.below ++ others.tasks

/-- Whom a program finds when it is taken up again: those below it are still there, unless it was
suspended; the tasks may be others. -/
def SiteKind.returns (others later : Others Site) (w : W) : SiteKind W Name → Prop
  | .await ready => ready w = true ∧ later.below = []
  | .callout => later.below = others.below
  | .start _ => later.below = others.below

section Upholds

variable {α β : Type} (l : EventLoop ε Site W Name) (c : LoopContract Site W Name)

/-- What holds when a program goes on behind a site. -/
structure Resumes (site : Site) (w : W) (others : Others Site) (later : W) (others' : Others Site) :
    Prop where
  rely : c.rely site w later
  inv : c.inv later
  here : ∀ other ∈ others'.all, c.here other later
  settled : c.settled (site :: others'.all) later
  tasks : ∀ other ∈ others'.tasks, (l.kind other).isAwait
  returns : (l.kind site).returns others others' later

/-- Run from the state while the others wait at their sites, the program keeps the contract, and
its outcome is as said. -/
def Upholds : Others Site → Program ε Site W α → W → (Others Site → Except ε α → W → Prop) → Prop
  | others, .done value, w, post => post others (.ok value) w
  | others, .fail error, w, post => post others (.error error) w
  | others, .read next, w, post => Upholds others (next w) w post
  | others, .write change next, w, post => c.inv (change w) ∧
      (∀ site ∈ others.all, c.rely site w (change w)) ∧ Upholds others next (change w) post
  | others, .wait site next, w, post => c.here site w ∧
      c.leaves (site :: others.all) w (l.kind site) ∧
      ∀ others' later, Resumes l c site w others later others' → Upholds others' next later post

variable {l c} {others : Others Site}

/-- The outcome of a sequence from that of its first part. -/
def Upholds.andThen (l : EventLoop ε Site W Name) (c : LoopContract Site W Name)
    (f : α → Program ε Site W β) (post : Others Site → Except ε β → W → Prop) :
    Others Site → Except ε α → W → Prop
  | others, .ok value, w => Upholds l c others (f value) w post
  | others, .error error, w => post others (.error error) w

variable {next p : Program ε Site W α} {f : α → Program ε Site W β}
variable {post : Others Site → Except ε α → W → Prop} {ok : α → Others Site → W → Prop}
variable {error : ε → Others Site → W → Prop} {site : Site}

theorem Upholds.bind {w : W} {post : Others Site → Except ε β → W → Prop}
    (h : Upholds l c others p w (Upholds.andThen l c f post)) :
    Upholds l c others (p >>= f) w post := by
  show Upholds l c others (p.bind f) w post
  induction p generalizing others w with
  | done value => exact h
  | fail error => exact h
  | read next ih => exact ih w h
  | write change next ih => exact ⟨h.1, h.2.1, ih h.2.2⟩
  | wait site next ih => exact ⟨h.1, h.2.1, fun others' later hlater => ih (h.2.2 others' later hlater)⟩

theorem Upholds.mono {w : W}
    {weaker : Others Site → Except ε α → W → Prop} (h : Upholds l c others p w post)
    (hpost : ∀ others outcome later, post others outcome later → weaker others outcome later) :
    Upholds l c others p w weaker := by
  induction p generalizing others w with
  | done value => exact hpost _ _ _ h
  | fail error => exact hpost _ _ _ h
  | read next ih => exact ih w h
  | write change next ih => exact ⟨h.1, h.2.1, ih h.2.2⟩
  | wait site next ih => exact ⟨h.1, h.2.1, fun others' later hlater => ih (h.2.2 others' later hlater)⟩

theorem Upholds.attempt {w : W} {post : Others Site → Except ε (Except ε α) → W → Prop}
    (h : Upholds l c others p w fun others outcome later => post others (.ok outcome) later) :
    Upholds l c others p.attempt w post := by
  induction p generalizing others w with
  | done value => exact h
  | fail error => exact h
  | read next ih => exact ih w h
  | write change next ih => exact ⟨h.1, h.2.1, ih h.2.2⟩
  | wait site next ih => exact ⟨h.1, h.2.1, fun others' later hlater => ih (h.2.2 others' later hlater)⟩

/-- What holds of the values, and what of the errors. -/
def Leaves (ok : α → Others Site → W → Prop) (error : ε → Others Site → W → Prop) :
    Others Site → Except ε α → W → Prop
  | others, .ok value, w => ok value others w
  | others, .error failure, w => error failure others w

theorem Upholds.weaken {w : W} {ok' : α → Others Site → W → Prop}
    {error' : ε → Others Site → W → Prop} (h : Upholds l c others p w (Leaves ok error))
    (hok : ∀ value others w, ok value others w → ok' value others w)
    (herror : ∀ failure others w, error failure others w → error' failure others w) :
    Upholds l c others p w (Leaves ok' error') := by
  refine h.mono ?_
  intro others outcome later houtcome
  cases outcome with
  | ok value => exact hok _ _ _ houtcome
  | error failure => exact herror _ _ _ houtcome

theorem Upholds.seq {w : W}
    {post : Others Site → Except ε β → W → Prop} (h : Upholds l c others p w (Leaves ok error))
    (hok : ∀ value others w, ok value others w → Upholds l c others (f value) w post)
    (herror : ∀ failure others w, error failure others w → post others (.error failure) w) :
    Upholds l c others (p >>= f) w post := by
  refine (h.mono ?_).bind
  intro others outcome later houtcome
  cases outcome with
  | ok value => exact hok _ _ _ houtcome
  | error failure => exact herror _ _ _ houtcome

theorem Upholds.catching {f : Except ε α → Program ε Site W β} {w : W}
    {post : Others Site → Except ε β → W → Prop} (h : Upholds l c others p w (Leaves ok error))
    (hok : ∀ value others w, ok value others w → Upholds l c others (f (.ok value)) w post)
    (herror : ∀ failure others w, error failure others w →
      Upholds l c others (f (.error failure)) w post) :
    Upholds l c others (p.attempt >>= f) w post := by
  refine (Upholds.attempt (h.mono ?_)).bind
  intro others outcome later houtcome
  cases outcome with
  | ok value => exact hok _ _ _ houtcome
  | error failure => exact herror _ _ _ houtcome

theorem upholds_get {f : W → Program ε Site W α} {w : W} :
    Upholds l c others (Program.get >>= f) w post ↔ Upholds l c others (f w) w post := Iff.rfl

/-- What a program that waits upholds, whatever happens until it goes on. -/
def Waiting (l : EventLoop ε Site W Name) (c : LoopContract Site W Name) (site : Site)
    (below : List Site) (next : Program ε Site W α) (w : W)
    (post : Others Site → Except ε α → W → Prop) : Prop :=
  c.here site w ∧ ∀ others later, c.rely site w later → c.inv later →
    (∀ other ∈ others.all, c.here other later) → c.settled (site :: others.all) later →
    (∀ other ∈ others.tasks, (l.kind other).isAwait) →
    (l.kind site).returns ⟨below, []⟩ others later → Upholds l c others next later post

theorem Waiting.rely {below : List Site} {w later : W} (h : Waiting l c site below next w post)
    (hrely : c.rely site w later) : Waiting l c site below next later post :=
  ⟨c.here_rely h.1 hrely, fun others final hfinal => h.2 others final (c.rely_trans hrely hfinal)⟩

theorem returns_congr {kind : SiteKind W Name} {others others' later : Others Site} {w : W}
    (hbelow : others.below = others'.below) (h : kind.returns others later w) :
    kind.returns others' later w := by
  cases kind with
  | callout => exact h.trans hbelow
  | start name => exact h.trans hbelow
  | await ready => exact h

theorem waiting_of_wait {w : W} (h : Upholds l c others (.wait site next) w post) :
    Waiting l c site others.below next w post := by
  refine ⟨h.1, ?_⟩
  intro others' later hrely hinv hhere hsettled htasks hreturns
  exact h.2.2 others' later ⟨hrely, hinv, hhere, hsettled, htasks, returns_congr rfl hreturns⟩

end Upholds

section Soundness

variable (l : EventLoop ε Site W Name) (c : LoopContract Site W Name)

/-- The outcome that lets the loop go on: another name whose condition holds, or a settled state. -/
def LoopContract.goesOn (c : LoopContract Site W Name) :
    Others Site → Except ε (Option Name) → W → Prop
  | others, .ok (some name), w => c.pre others.all name w
  | others, .ok none, w => c.settled others.all w
  | others, .error _, w => c.settled others.all w

/-- Each name has a condition that a start meets and under which its program upholds the
contract. -/
structure LoopSound : Prop where
  enter : ∀ {name w sites}, l.enabled none name w → c.inv w → (∀ site ∈ sites, c.here site w) →
    c.settled sites w → c.pre sites name w
  nest : ∀ {name w site sites}, l.enabled (some site) name w → c.inv w → c.here site w →
    (∀ other ∈ sites, c.here other w) → c.settled (site :: sites) w → c.pre (site :: sites) name w
  body : ∀ {others name w}, c.pre others.all name w → c.inv w →
    (∀ other ∈ others.all, c.here other w) → (∀ other ∈ others.tasks, (l.kind other).isAwait) →
    Upholds l c others (l.body name) w c.goesOn

variable {l c}

/-- The programs below the top, each at its call-out or behind the program that it started. -/
inductive StackWaits (l : EventLoop ε Site W Name) (c : LoopContract Site W Name) (w : W) :
    List (Frame ε Site W Name) → List Site → Prop where
  | nil : StackWaits l c w [] []
  | callout {site : Site} {next : Frame ε Site W Name} {rest : List (Frame ε Site W Name)}
      {sites : List Site} : l.kind site = .callout → Waiting l c site sites next w c.goesOn →
      StackWaits l c w rest sites → StackWaits l c w (.wait site next :: rest) (site :: sites)
  | started {name : Name} {site : Site} {next : Frame ε Site W Name}
      {rest : List (Frame ε Site W Name)} {sites : List Site} : l.kind site = .start name →
      Waiting l c site sites next w c.goesOn → StackWaits l c w rest sites →
      StackWaits l c w (next :: rest) (site :: sites)

/-- The suspended programs. -/
inductive TasksWait (l : EventLoop ε Site W Name) (c : LoopContract Site W Name) (w : W) :
    List (Frame ε Site W Name) → List Site → Prop where
  | nil : TasksWait l c w [] []
  | cons {site : Site} {ready : W → Bool} {below : List Site} {next : Frame ε Site W Name}
      {rest : List (Frame ε Site W Name)} {sites : List Site} : l.kind site = .await ready →
      Waiting l c site below next w c.goesOn → TasksWait l c w rest sites →
      TasksWait l c w (.wait site next :: rest) (site :: sites)

variable {w later : W} {stack tasks : List (Frame ε Site W Name)} {sites below parked : List Site}

theorem StackWaits.rely (h : StackWaits l c w stack sites)
    (hrely : ∀ site ∈ sites, c.rely site w later) : StackWaits l c later stack sites := by
  induction h with
  | nil => exact .nil
  | callout hkind hframe _ ih =>
    obtain ⟨hsite, hrest⟩ := List.forall_mem_cons.mp hrely
    exact .callout hkind (hframe.rely hsite) (ih hrest)
  | started hkind hframe _ ih =>
    obtain ⟨hsite, hrest⟩ := List.forall_mem_cons.mp hrely
    exact .started hkind (hframe.rely hsite) (ih hrest)

theorem StackWaits.here (h : StackWaits l c w stack sites) : ∀ site ∈ sites, c.here site w := by
  induction h with
  | nil => exact fun _ h => absurd h List.not_mem_nil
  | callout _ hframe _ ih => exact List.forall_mem_cons.mpr ⟨hframe.1, ih⟩
  | started _ hframe _ ih => exact List.forall_mem_cons.mpr ⟨hframe.1, ih⟩

theorem TasksWait.rely (h : TasksWait l c w tasks sites)
    (hrely : ∀ site ∈ sites, c.rely site w later) : TasksWait l c later tasks sites := by
  induction h with
  | nil => exact .nil
  | cons hkind hframe _ ih =>
    obtain ⟨hsite, hrest⟩ := List.forall_mem_cons.mp hrely
    exact .cons hkind (hframe.rely hsite) (ih hrest)

theorem TasksWait.here (h : TasksWait l c w tasks sites) : ∀ site ∈ sites, c.here site w := by
  induction h with
  | nil => exact fun _ h => absurd h List.not_mem_nil
  | cons _ hframe _ ih => exact List.forall_mem_cons.mpr ⟨hframe.1, ih⟩

theorem TasksWait.isAwait (h : TasksWait l c w tasks sites) :
    ∀ site ∈ sites, (l.kind site).isAwait := by
  induction h with
  | nil => exact fun _ h => absurd h List.not_mem_nil
  | cons hkind _ _ ih =>
    refine List.forall_mem_cons.mpr ⟨?_, ih⟩
    rw [hkind]
    trivial

/-- A suspended program can be taken out of the tasks. -/
theorem TasksWait.extract {before after : List (Frame ε Site W Name)} {site : Site}
    {next : Frame ε Site W Name} (h : TasksWait l c w (before ++ .wait site next :: after) sites) :
    ∃ rest below, TasksWait l c w (before ++ after) rest ∧ sites.Perm (site :: rest) ∧
      Waiting l c site below next w c.goesOn := by
  induction before generalizing sites with
  | nil =>
    cases h with
    | cons _ hframe hrest => exact ⟨_, _, hrest, .refl _, hframe⟩
  | cons _ before ih =>
    cases h with
    | @cons first _ _ _ _ sites hkind hframe hrest =>
      obtain ⟨rest, below, htasks, hperm, hwaiting⟩ := ih hrest
      refine ⟨first :: rest, below, .cons hkind hframe htasks, ?_, hwaiting⟩
      exact (hperm.cons first).trans (.swap site first rest)

/-- The invariant holds, and the programs are in order: none runs, or one runs on top. -/
inductive LoopOk (l : EventLoop ε Site W Name) (c : LoopContract Site W Name) :
    LoopState ε Site W Name → Prop where
  | idle {w : W} {tasks : List (Frame ε Site W Name)} {parked : List Site} : c.inv w →
      TasksWait l c w tasks parked → c.settled parked w → LoopOk l c ⟨w, [], tasks⟩
  | running {w : W} {top : Frame ε Site W Name} {rest tasks : List (Frame ε Site W Name)}
      {below parked : List Site} : c.inv w → StackWaits l c w rest below →
      TasksWait l c w tasks parked → Upholds l c ⟨below, parked⟩ top w c.goesOn →
      LoopOk l c ⟨w, top :: rest, tasks⟩

theorem forall_here (hstack : StackWaits l c w stack below) (htasks : TasksWait l c w tasks parked) :
    ∀ site ∈ (Others.mk below parked).all, c.here site w := by
  intro site hsite
  rcases List.mem_append.mp hsite with hsite | hsite
  · exact hstack.here site hsite
  · exact htasks.here site hsite

/-- What is left when the program on top is gone. -/
theorem StackWaits.loopOk (hstack : StackWaits l c w stack below)
    (htasks : TasksWait l c w tasks parked) (hinv : c.inv w) (hsettled : c.settled (below ++ parked) w) :
    LoopOk l c ⟨w, stack, tasks⟩ := by
  cases hstack with
  | nil => exact .idle hinv htasks hsettled
  | callout hkind hframe hrest =>
    refine .running hinv hrest htasks ⟨hframe.1, ?_, ?_⟩
    · rw [hkind]
      exact hsettled
    · intro others' later hlater
      exact hframe.2 others' later hlater.rely hlater.inv hlater.here hlater.settled hlater.tasks
        (returns_congr rfl hlater.returns)
  | @started name site next rest sites hkind hframe hrest =>
    refine .running hinv hrest htasks ?_
    refine hframe.2 ⟨sites, parked⟩ w (c.rely_refl _ _) hinv (forall_here hrest htasks) hsettled
      htasks.isAwait ?_
    rw [hkind]
    rfl

theorem LoopSound.step (h : LoopSound l c) {s t : LoopState ε Site W Name} (hok : LoopOk l c s)
    (hstep : LoopStep l s t) : LoopOk l c t := by
  cases hok with
  | @idle w tasks parked hinv htasks hsettled =>
    cases hstep with
    | enter henabled =>
      have hpre := h.enter henabled hinv htasks.here hsettled
      exact .running hinv .nil htasks (h.body hpre hinv (forall_here .nil htasks) htasks.isAwait)
    | wake hkind hready =>
      obtain ⟨rest, below, hrest, hperm, hframe⟩ := htasks.extract
      refine .running hinv .nil hrest ?_
      refine hframe.2 ⟨[], rest⟩ w (c.rely_refl _ _) hinv (forall_here .nil hrest)
        (c.settled_perm hperm hsettled) hrest.isAwait ?_
      rw [hkind]
      exact ⟨hready, rfl⟩
  | @running w top rest tasks below parked hinv hstack htasks htop =>
    have hhere := forall_here hstack htasks
    cases hstep with
    | nest hkind henabled =>
      have hframe := waiting_of_wait htop
      obtain ⟨hsite, hleaves, -⟩ := htop
      rw [hkind] at hleaves
      have hpre := h.nest henabled hinv hsite hhere hleaves
      have hframes := StackWaits.callout hkind hframe hstack
      exact .running hinv hframes htasks (h.body hpre hinv (forall_here hframes htasks) htasks.isAwait)
    | start hkind =>
      have hframe := waiting_of_wait htop
      obtain ⟨hsite, hleaves, -⟩ := htop
      rw [hkind] at hleaves
      have hframes := StackWaits.started hkind hframe hstack
      exact .running hinv hframes htasks
        (h.body hleaves hinv (forall_here hframes htasks) htasks.isAwait)
    | read => exact .running hinv hstack htasks htop
    | write =>
      obtain ⟨hlater, hrely, hnext⟩ := htop
      have hbelow := hstack.rely fun site hsite => hrely site (List.mem_append_left _ hsite)
      have hparked := htasks.rely fun site hsite => hrely site (List.mem_append_right _ hsite)
      exact .running hlater hbelow hparked hnext
    | resume hkind =>
      obtain ⟨hsite, hleaves, hnext⟩ := htop
      rw [hkind] at hleaves
      refine .running hinv hstack htasks (hnext _ w ⟨c.rely_refl _ _, hinv, hhere, hleaves, ?_, ?_⟩)
      · exact htasks.isAwait
      · rw [hkind]
        rfl
    | suspend hkind =>
      have hframe := waiting_of_wait htop
      obtain ⟨hsite, hleaves, hnext⟩ := htop
      rw [hkind] at hleaves
      refine hstack.loopOk (.cons hkind hframe htasks) hinv ?_
      exact c.settled_perm List.perm_middle.symm hleaves
    | goOn => exact .running hinv hstack htasks (h.body htop hinv hhere htasks.isAwait)
    | finish => exact hstack.loopOk htasks hinv htop
    | fail => exact hstack.loopOk htasks hinv htop

theorem LoopSound.reaches (h : LoopSound l c) {s t : LoopState ε Site W Name} (hok : LoopOk l c s)
    (hreaches : LoopReaches l s t) : LoopOk l c t := by
  induction hreaches with
  | refl => exact hok
  | step _ hstep ih => exact h.step ih hstep

/-- The invariant holds in every state that the loop reaches from an idle one. -/
theorem LoopSound.inv (h : LoopSound l c) {s : LoopState ε Site W Name} (hinv : c.inv w)
    (hsettled : c.settled [] w) (hreaches : LoopReaches l ⟨w, [], []⟩ s) : c.inv s.world := by
  cases h.reaches (.idle hinv .nil hsettled) hreaches with
  | idle hinv _ _ => exact hinv
  | running hinv _ _ _ => exact hinv

/-- When nothing runs the state is settled, with the sites of the suspended programs. -/
theorem LoopSound.settled (h : LoopSound l c) (hinv : c.inv w) (hsettled : c.settled [] w)
    (hreaches : LoopReaches l ⟨w, [], []⟩ ⟨later, [], tasks⟩) :
    ∃ sites, TasksWait l c later tasks sites ∧ c.settled sites later := by
  cases h.reaches (.idle hinv .nil hsettled) hreaches with
  | idle _ htasks hlater => exact ⟨_, htasks, hlater⟩

end Soundness

section Runs

variable (l : EventLoop ε Site W Name)

/-- The step of the program on top, or of the first task when none runs, with call-outs that return
at once. -/
def runNext : LoopState ε Site W Name → LoopState ε Site W Name
  | ⟨w, [], []⟩ => ⟨w, [], []⟩
  | ⟨w, [], .wait site next :: tasks⟩ =>
    match l.kind site with
    | .await ready => if ready w then ⟨w, [next], tasks⟩ else ⟨w, [], .wait site next :: tasks⟩
    | .callout => ⟨w, [], .wait site next :: tasks⟩
    | .start _ => ⟨w, [], .wait site next :: tasks⟩
  | ⟨w, [], task :: tasks⟩ => ⟨w, [], task :: tasks⟩
  | ⟨w, .read next :: rest, tasks⟩ => ⟨w, next w :: rest, tasks⟩
  | ⟨w, .write change next :: rest, tasks⟩ => ⟨change w, next :: rest, tasks⟩
  | ⟨w, .wait site next :: rest, tasks⟩ =>
    match l.kind site with
    | .callout => ⟨w, next :: rest, tasks⟩
    | .start name => ⟨w, l.body name :: next :: rest, tasks⟩
    | .await _ => ⟨w, rest, .wait site next :: tasks⟩
  | ⟨w, .done (some name) :: rest, tasks⟩ => ⟨w, l.body name :: rest, tasks⟩
  | ⟨w, .done none :: rest, tasks⟩ => ⟨w, rest, tasks⟩
  | ⟨w, .fail _ :: rest, tasks⟩ => ⟨w, rest, tasks⟩

def runTimes : Nat → LoopState ε Site W Name → LoopState ε Site W Name
  | 0, s => s
  | count + 1, s => runTimes count (runNext l s)

/-- A program that is entered while none runs, and the next steps. -/
def runEntered (name : Name) (count : Nat) (s : LoopState ε Site W Name) : LoopState ε Site W Name :=
  runTimes l count ⟨s.world, [l.body name], s.tasks⟩

variable {l} {s t : LoopState ε Site W Name}

theorem LoopReaches.runNext (h : LoopReaches l s t) : LoopReaches l s (runNext l t) := by
  obtain ⟨w, stack, tasks⟩ := t
  cases stack with
  | nil =>
    cases tasks with
    | nil => exact h
    | cons task tasks =>
      cases task with
      | wait site next =>
        cases hkind : l.kind site with
        | callout => simpa only [Lib.runNext, hkind] using h
        | start name => simpa only [Lib.runNext, hkind] using h
        | await ready =>
          cases hready : ready w with
          | false => simpa [Lib.runNext, hkind, hready] using h
          | true =>
            have hwake : LoopStep l ⟨w, [], [] ++ .wait site next :: tasks⟩ ⟨w, [next], [] ++ tasks⟩ :=
              .wake hkind hready
            simpa [Lib.runNext, hkind, hready] using h.step hwake
      | done value => exact h
      | fail error => exact h
      | read next => exact h
      | write change next => exact h
  | cons top rest =>
    cases top with
    | done value =>
      cases value with
      | none => exact h.step .finish
      | some name => exact h.step .goOn
    | fail error => exact h.step .fail
    | read next => exact h.step .read
    | write change next => exact h.step .write
    | wait site next =>
      cases hkind : l.kind site with
      | callout => simpa only [Lib.runNext, hkind] using h.step (.resume hkind)
      | start name => simpa only [Lib.runNext, hkind] using h.step (.start hkind)
      | await ready => simpa only [Lib.runNext, hkind] using h.step (.suspend hkind)

theorem LoopReaches.runTimes (count : Nat) (h : LoopReaches l s t) :
    LoopReaches l s (runTimes l count t) := by
  induction count generalizing t with
  | zero => exact h
  | succ count ih => exact ih h.runNext

theorem LoopReaches.runEntered (h : LoopReaches l s t) (hidle : t.stack = []) {name : Name}
    (henabled : l.enabled none name t.world) (count : Nat) :
    LoopReaches l s (runEntered l name count t) := by
  obtain ⟨w, stack, tasks⟩ := t
  cases hidle
  exact (h.step (.enter henabled)).runTimes count

end Runs

end Steps

end DshKernel.Lib
