import DshKernel.Lib.FileTree

/-!
# Spill cleanup

Which roots a startup sweep visits and what it deletes. Its warnings are left out: a sink that
throws is contained, and nothing depends on them.
-/

namespace DshKernel.Spill

open Lib

/-- What surrounds a sweep: the user, when the platform has owners, the links that a path may go
through, and the deletions that fail. -/
structure Host where
  euid : Option Nat
  links : Nat
  fails : TreePath → Bool

/-- `/^<stem><count characters>$/` -/
def hasShape (stem : String) (count : Nat) (allowed : Char → Bool) (name : String) : Bool :=
  let chars := name.toList
  decide (chars.take stem.length = stem.toList ∧ chars.length = stem.length + count) &&
    (chars.drop stem.length).all allowed

def isDefaultRootName : String → Bool := hasShape "dsh-spill-" 6 Char.isAlphanum

def isSessionDirName : String → Bool :=
  hasShape "session-" 12 fun char => char.isDigit || ('a' ≤ char && char ≤ 'f')

def isTrustedDirectory (host : Host) (stats : FileStats) : Bool :=
  stats.isDirectory &&
    match host.euid with
    | none => true
    | some euid => stats.uid == euid && stats.mode &&& 0o022 == 0

/-- The loop of `hasProtectedAncestors` from a child that was inspected. -/
def ancestorsProtect (tree : FileTree) (euid : Nat) : TreePath → FileStats → Bool
  | [], _ => true
  | _ :: parent, child =>
    match tree.stats? parent with
    | none => false
    | some stats =>
      let writableByOthers := stats.mode &&& 0o022 != 0
      let sticky := stats.mode &&& 0o1000 != 0
      if !stats.isDirectory then false
      else if writableByOthers && !sticky then false
      else if writableByOthers && child.uid != euid then false
      else ancestorsProtect tree euid parent stats

def hasProtectedAncestors (host : Host) (tree : FileTree) (path : TreePath) : Bool :=
  match host.euid with
  | none => true
  | some euid => (tree.stats? path).any (ancestorsProtect tree euid path)

/-- A canonical path that `resolveRoot` may return. -/
def isSafeRoot (host : Host) (tree : FileTree) (canonical : TreePath) : Bool :=
  (tree.stats? canonical).any (isTrustedDirectory host) &&
    hasProtectedAncestors host tree canonical

def resolveRoot (host : Host) (tree : FileTree) (path : List String) (allowSymlink : Bool) :
    Option TreePath :=
  match tree.lstat host.links path with
  | none => none
  | some initial =>
    if initial.isSymbolicLink && !allowSymlink ||
        !initial.isSymbolicLink && !isTrustedDirectory host initial then none
    else (tree.realpath host.links path).filter (isSafeRoot host tree)

structure SweepRoot where
  path : List String
  pruneWhenEmpty : Bool

/-- `join` of an absolute path and a name. -/
def join (base : List String) (name : String) : List String :=
  ((base ++ [name]).foldl (fun (above : TreePath) part =>
    if part ∈ dotNames then if part = ".." then above.tail else above else part :: above)
    []).reverse

def readdir (tree : FileTree) (dir : TreePath) : Option (List String) :=
  if tree.kind? dir = some .directory then some (tree.children dir) else none

def discoverDefaultRootRecords (host : Host) (tree : FileTree) (base : List String) :
    List TreePath :=
  (((tree.realpath host.links base).bind (readdir tree)).getD []).filterMap fun name =>
    if isDefaultRootName name then resolveRoot host tree (join base name) false else none

/-- The roots by their identity. A directory has one canonical path, so that is one. -/
def gatheredRoots (host : Host) (tree : FileTree) (activeRoot base : List String) :
    OrderedMap TreePath Bool :=
  let roots := (discoverDefaultRootRecords host tree base).foldl
    (fun (roots : OrderedMap TreePath Bool) root => roots.set root true) .empty
  match resolveRoot host tree activeRoot true with
  | none => roots
  | some active => roots.set active false

def gatherSweepRoots (host : Host) (tree : FileTree) (activeRoot base : List String) :
    List SweepRoot :=
  (gatheredRoots host tree activeRoot base).entries.map fun root => ⟨root.1.reverse, root.2⟩

/-! ## The sweep -/

def unlink (host : Host) (tree : FileTree) (path : TreePath) : FileTree :=
  if host.fails path then tree else tree.remove path

def rmdir (host : Host) (tree : FileTree) (path : TreePath) : Option FileTree :=
  if tree.kind? path = some .directory ∧ tree.children path = [] ∧ host.fails path = false then
    some (tree.remove path)
  else none

/-- One round of the loop of `sweepSessionDir`, with the count of what remains. -/
def sweepFile (host : Host) (cutoff : Rat) (dir : TreePath) (state : FileTree × Nat)
    (name : String) : FileTree × Nat :=
  match state.1.kind? (name :: dir) with
  | none => (state.1, state.2 - 1)
  | some (.file mtime) =>
    if cutoff ≤ mtime then state else (unlink host state.1 (name :: dir), state.2 - 1)
  | some _ => state

def sweepSessionDir (host : Host) (cutoff : Rat) (tree : FileTree) (dir : TreePath) :
    FileTree × Bool :=
  match readdir tree dir with
  | none => (tree, false)
  | some names =>
    let swept := names.foldl (sweepFile host cutoff dir) (tree, names.length)
    (swept.1, swept.2 == 0)

/-- One round of the loop over a root, with whether the root is emptiable. -/
def sweepSession (host : Host) (cutoff : Rat) (root : TreePath) (state : FileTree × Bool)
    (name : String) : FileTree × Bool :=
  if !isSessionDirName name then (state.1, false)
  else
    match state.1.stats? (name :: root) with
    | none => state
    | some stats =>
      if !isTrustedDirectory host stats then (state.1, false)
      else
        let swept := sweepSessionDir host cutoff state.1 (name :: root)
        if !swept.2 then (swept.1, false)
        else
          match rmdir host swept.1 (name :: root) with
          | some pruned => (pruned, state.2)
          | none => (swept.1, false)

def sweepRoot (host : Host) (cutoff : Rat) (tree : FileTree) (root : TreePath × Bool) : FileTree :=
  match readdir tree root.1 with
  | none => tree
  | some names =>
    let swept := names.foldl (sweepSession host cutoff root.1) (tree, true)
    if root.2 && swept.2 then (rmdir host swept.1 root.1).getD swept.1 else swept.1

/-- One candidate that is not prunable wins. -/
def addCandidate (host : Host) (tree : FileTree) (roots : OrderedMap TreePath Bool)
    (candidate : SweepRoot) : OrderedMap TreePath Bool :=
  match resolveRoot host tree candidate.path false with
  | none => roots
  | some path => roots.set path ((roots.get? path).getD true && candidate.pruneWhenEmpty)

def sweepSpillRoots (host : Host) (tree : FileTree) (roots : List SweepRoot) (cutoff : Rat) :
    FileTree :=
  (roots.foldl (addCandidate host tree) .empty).entries.foldl (sweepRoot host cutoff) tree

end DshKernel.Spill
