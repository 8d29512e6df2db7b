import DshKernel.Settings.Sections

/-!
# The settings provider

One namespace of the provider: its registration, the queue of its writes, the publishing of
documents observed in storage, and its descriptors. Every callback runs between two steps.
-/

namespace DshKernel.Settings

open Js

structure SettingsRegistration where
  /-- The schema over the base and the section, and the check of the owner. -/
  resolve : Option Fields → Except String Json
  resolved : Json
  revision : Nat := 0

structure QueuedWrite where
  registration : Nat
  input : WriteInput
  expectedRevision : Option Nat

/-- A write that waits for `persist`. -/
structure PersistingWrite where
  registration : Nat
  current : Fields
  «section» : Fields
  next : Json

structure Namespace where
  ns : String
  /-- `document[ns]` -/
  document : Option Json := none
  registration : Option SettingsRegistration := none
  /-- How many registrations were made. The last of them is the one that may be current. -/
  registered : Nat := 0
  queue : List QueuedWrite := []
  persisting : Option PersistingWrite := none
  /-- Within `publish`, before the turn of this namespace: what `before` holds for it. -/
  publishing : Option (Option Fields) := none
  stopped : Bool := false

/-- What callers learn: the raw section at a descriptor, and the one that a write is applied to. -/
inductive Observation where
  | described (revision : Nat) (raw : Option Json)
  | applied (expectedRevision : Option Nat) (raw : Option Json)

inductive Step where
  | register (resolve : Option Fields → Except String Json)
  | dispose
  | write (input : WriteInput) (expectedRevision : Option Nat)
  | front
  | persisted (ok : Bool)
  | swap (stored : Option Json)
  | settle
  | describe
  | stop

def rawSection (fields : Option Fields) : Option Json := fields.map .obj

/-- `bumpRevision` -/
def SettingsRegistration.bumpRevision (registration : SettingsRegistration)
    (before after : Option Fields) : SettingsRegistration :=
  if sameJson (rawSection before) (rawSection after) then registration
  else { registration with revision := registration.revision + 1 }

/-- `commit`, as far as it changes the registration. -/
def SettingsRegistration.commit (registration : SettingsRegistration) (next : Json) :
    SettingsRegistration :=
  if deepEqualJson next registration.resolved then registration
  else { registration with resolved := next }

namespace Namespace

/-- `register`: the stored section must resolve. -/
def register (n : Namespace) (resolve : Option Fields → Except String Json) : Namespace :=
  if n.registration.isSome then n
  else
    match readSection n.ns n.document with
    | .error _ => n
    | .ok stored =>
      match resolve stored with
      | .error _ => n
      | .ok resolved =>
        { n with registration := some { resolve, resolved }, registered := n.registered + 1 }

def write (n : Namespace) (input : WriteInput) (expectedRevision : Option Nat) : Namespace :=
  if n.registration.isNone || n.stopped then n
  else { n with queue := n.queue ++ [⟨n.registered, input, expectedRevision⟩] }

/-- The first queued write takes its turn, up to the call of `persist`. -/
def front (n : Namespace) (write : QueuedWrite) (rest : List QueuedWrite) :
    Namespace × List Observation :=
  let rejected : Namespace × List Observation := ({ n with queue := rest }, [])
  match n.registration with
  | none => rejected
  | some registration =>
    if n.stopped || n.registered ≠ write.registration then rejected
    else
      match readSection n.ns n.document with
      | .error _ => rejected
      | .ok stored =>
        let current := stored.getD []
        if write.expectedRevision.any (· ≠ registration.revision) then rejected
        else
          match nextSection current write.input with
          | .error _ => rejected
          | .ok next =>
            match registration.resolve (some next) with
            | .error _ => rejected
            | .ok resolved =>
              ({ n with
                  queue := rest
                  persisting := some ⟨write.registration, current, next, resolved⟩ },
                [.applied write.expectedRevision n.document])

def persisted (n : Namespace) (written : PersistingWrite) : Namespace :=
  let stored := { n with document := some (.obj written.section), persisting := none }
  match n.registration with
  | none => stored
  | some registration =>
    if n.stopped || n.registered ≠ written.registration then stored
    else
      { stored with
        registration := some
          ((registration.bumpRevision (some written.current) (some written.section)).commit
            written.next) }

/-- The first half of `publish`. -/
def swap (n : Namespace) (stored : Option Json) : Namespace :=
  let before : Option Fields :=
    match n.registration with
    | none => none
    | some _ =>
      match readSection n.ns n.document with
      | .error _ => none
      | .ok fields => fields
  { n with document := stored, publishing := some before }

/-- The turn of the namespace in the second half of `publish`. -/
def settle (n : Namespace) (before : Option Fields) : Namespace :=
  let settled := { n with publishing := none }
  match n.registration with
  | none => settled
  | some registration =>
    match readSection n.ns n.document with
    | .error _ => settled
    | .ok stored =>
      match registration.resolve stored with
      | .error _ => settled
      | .ok next =>
        { settled with registration := some ((registration.bumpRevision before stored).commit next) }

/-- One step, if it can be taken: `publish` is not interrupted by the turn of a write, and writes
take their turns one after the other. -/
def step (n : Namespace) : Step → Option (Namespace × List Observation)
  | .register resolve => some (n.register resolve, [])
  | .dispose => some ({ n with registration := none }, [])
  | .write input expectedRevision => some (n.write input expectedRevision, [])
  | .front =>
    match n.publishing, n.persisting, n.queue with
    | none, none, write :: rest => some (n.front write rest)
    | _, _, _ => none
  | .persisted ok =>
    match n.publishing, n.persisting with
    | none, some written =>
      some (if ok then n.persisted written else { n with persisting := none }, [])
    | _, _ => none
  | .swap stored =>
    match n.publishing with
    | none => some (n.swap stored, [])
    | some _ => none
  | .settle =>
    match n.publishing with
    | none => none
    | some before => some (n.settle before, [])
  | .describe =>
    n.registration.map fun registration => (n, [.described registration.revision n.document])
  | .stop => some ({ n with stopped := true }, [])

end Namespace

end DshKernel.Settings
