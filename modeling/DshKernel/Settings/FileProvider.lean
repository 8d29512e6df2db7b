import DshKernel.Settings.FileDocument

/-!
# The file provider

Writes of several namespaces, reloads and the creation of the file run on one operation chain,
between edits that others make to the file. A write takes the writer lock, folds in what it finds in
the file, and renders the section that it computed before.
-/

namespace DshKernel.Settings

open Js Lib

/-- `NAMESPACE_PATTERN` -/
def isNamespace (ns : String) : Bool :=
  match ns.toList with
  | [] => false
  | first :: rest => first.isLower && rest.all fun c => c.isLower || c.isDigit || c == '-'

/-- An operation of the chain. A write brings the section that it computed from the one in memory. -/
inductive Operation where
  | persist (ns : String) (input : WriteInput) (current changed : Fields)
  | refresh
  | prepare

inductive Stage (Text : Type) where
  | waiting
  | locked (atLock : Option Text)
  | reconciled (atLock : Option Text)

structure FileProvider (Text : Type) where
  disk : Option Text
  text : Option Text
  document : Fields
  operations : List Operation := []
  stage : Stage Text := .waiting
  closed : Bool := false

structure Wrote (Text : Type) where
  ns : String
  input : WriteInput
  atLock : Option Text
  written : Text

inductive FileStep (Text : Type) where
  /-- A write that comes to the front of its queue and is not refused. -/
  | write (ns : String) (input : WriteInput)
  /-- An event of the watcher. -/
  | changed
  | prepareDocument
  /-- Another process or an editor stores a text or removes the file. -/
  | edit (content : Option Text) (underLock : Bool)
  | lock
  | reconcile
  | commit
  | refresh
  | create
  /-- The directory, the lock, the file or a listener fails the first operation. -/
  | fail
  | close

def Operation.isPersistOf (ns : String) : Operation → Bool
  | .persist other _ _ _ => other == ns
  | _ => false

section Provider

variable {Text Document : Type} [DecidableEq Text]
variable (T : TextLibrary Text Document) (format : SettingsFormat)

namespace FileProvider

/-- `reconcileFromDisk` -/
def reconcileFromDisk (p : FileProvider Text) : Except String (FileProvider Text) :=
  if p.disk = p.text ∨ p.closed = true then .ok p
  else
    match parseFile T format p.disk with
    | .error error => .error error
    | .ok document => .ok { p with text := p.disk, document }

def done (p : FileProvider Text) : FileProvider Text :=
  { p with operations := p.operations.tail, stage := .waiting }

/-- The text is stored, and the continuation of the write stores its section before the next
operation comes to the file. -/
def persistSection (p : FileProvider Text) (ns : String) (changed : Fields) (output : Text) :
    FileProvider Text :=
  { p with
    disk := some output
    text := some output
    document := setField p.document ns (.obj changed) }.done

/-- `prepareDocument`, after the lock is taken. -/
def create (p : FileProvider Text) : FileProvider Text :=
  match p.disk with
  | some _ => p.done
  | none =>
    { p with
      disk := some T.empty
      text := some T.empty
      document := if p.closed then p.document else [] }.done

def step (p : FileProvider Text) : FileStep Text → Option (FileProvider Text × List (Wrote Text))
  | .write ns input =>
    -- The next write of a namespace waits for the one before; `document.constructor` is inherited.
    if !isNamespace ns || ns == "constructor" || p.operations.any (Operation.isPersistOf ns) then none
    else
      match readSection ns (p.document.lookup ns) with
      | .error _ => none
      | .ok stored =>
        match nextSection (stored.getD []) input with
        | .error _ => none
        | .ok changed =>
          some ({ p with
            operations := p.operations ++ [.persist ns input (stored.getD []) changed] }, [])
  | .changed =>
    if p.closed then none else some ({ p with operations := p.operations ++ [.refresh] }, [])
  | .prepareDocument => some ({ p with operations := p.operations ++ [.prepare] }, [])
  | .edit content underLock =>
    match p.stage, underLock with
    | .waiting, _ | _, false => some ({ p with disk := content }, [])
    | _, true => none
  | .lock =>
    match p.stage, p.operations with
    | .waiting, .persist _ _ _ _ :: _ | .waiting, .prepare :: _ =>
      some ({ p with stage := .locked p.disk }, [])
    | _, _ => none
  | .reconcile =>
    match p.stage, p.operations with
    | .locked atLock, .persist _ _ _ _ :: _ =>
      match p.reconcileFromDisk T format with
      | .error _ => some (p.done, [])
      | .ok reconciled => some ({ reconciled with stage := .reconciled atLock }, [])
    | _, _ => none
  | .commit =>
    match p.stage, p.operations with
    | .reconciled atLock, .persist ns input _ changed :: _ =>
      match render T format p.text ns changed with
      | .error _ => some (p.done, [])
      | .ok output => some (p.persistSection ns changed output, [⟨ns, input, atLock, output⟩])
    | _, _ => none
  | .refresh =>
    match p.operations with
    | .refresh :: _ =>
      if p.closed then some (p.done, [])
      else
        match p.reconcileFromDisk T format with
        | .error _ => some (p.done, [])
        | .ok reconciled => some (reconciled.done, [])
    | _ => none
  | .create =>
    match p.stage, p.operations with
    | .locked _, .prepare :: _ => some (p.create T, [])
    | _, _ => none
  | .fail => if p.operations.isEmpty then none else some (p.done, [])
  | .close => some ({ p with closed := true }, [])

end FileProvider

/-- The states that steps in any order lead to from a loaded file, with the writes that succeeded,
where each step meets a condition on the state before it. -/
inductive FileRun (meets : FileProvider Text → FileStep Text → Prop) :
    FileProvider Text → List (Wrote Text) → Prop where
  | start (disk : Option Text) (document : Fields) (hload : parseFile T format disk = .ok document) :
      FileRun meets { disk, text := disk, document } []
  | step {p p' : FileProvider Text} {log news : List (Wrote Text)} (before : FileRun meets p log)
      (s : FileStep Text) (hmeets : meets p s) (hstep : p.step T format s = some (p', news)) :
      FileRun meets p' (log ++ news)

/-- The file after a write is the file at the lock with the write applied to its own section, where
everything that the write does not name is as it was. -/
def Wrote.KeepsEdits (w : Wrote Text) : Prop :=
  ∃ atLock written, parseFile T format w.atLock = .ok atLock ∧ parse T format w.written = .ok written ∧
    (∀ other, other ≠ w.ns → sameJson (written.lookup other) (atLock.lookup other) = true) ∧
    ∃ stored next changed, readSection w.ns (atLock.lookup w.ns) = .ok stored ∧
      nextSection (stored.getD []) w.input = .ok next ∧
      written.lookup w.ns = some (.obj changed) ∧ SameFields changed next ∧
      ∀ path, w.input.Untouched path →
        sameJson (valueAt (.obj changed) path) (valueAt (.obj (stored.getD [])) path) = true

/-- A write finds in the file, when it takes the lock, the section that it computed from, in a
document that can be patched. -/
def FoundAsRead (Plain : Document → Prop) (disk : Option Text) (ns : String) (current : Fields) : Prop :=
  ∀ atLock, parseFile T format disk = .ok atLock → Data (.obj atLock) ∧
    Patchable T Plain format disk ns atLock ∧
    ∃ stored, readSection ns (atLock.lookup ns) = .ok stored ∧ SameFields current (stored.getD [])

/-- The steps that lose no edit: the section on disk is the one in memory when the lock is taken,
and nothing is stored between the lock and the reading of the file. -/
def LosesNothing (Plain : Document → Prop) (p : FileProvider Text) : FileStep Text → Prop
  | .write ns input => input.IsData ∧ ∀ current, p.document.lookup ns = some (.obj current) →
      Data (.obj current)
  | .lock => ∀ ns input current changed rest, p.operations = .persist ns input current changed :: rest →
      FoundAsRead T format Plain p.disk ns current
  | .edit _ _ => ∀ atLock, p.stage ≠ .locked atLock
  | .reconcile => p.closed = false ∨ p.disk = p.text
  | _ => True

end Provider

end DshKernel.Settings
