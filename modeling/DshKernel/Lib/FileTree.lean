import DshKernel.Lib.OrderedMap

/-!
# File trees

Directories, files and links by their canonical paths, and how a path is resolved.
-/

namespace DshKernel.Lib

open List

/-- A canonical path, the innermost name first. -/
abbrev TreePath := List String

inductive FileKind
  | directory
  | file (mtime : Rat)
  | link (absolute : Bool) (target : List String)
  | special
deriving DecidableEq

structure FileStats where
  kind : FileKind
  uid : Nat
  mode : Nat
deriving DecidableEq

def FileStats.isDirectory (stats : FileStats) : Bool := decide (stats.kind = .directory)

def FileStats.isSymbolicLink (stats : FileStats) : Bool :=
  match stats.kind with
  | .link _ _ => true
  | _ => false

/-- Names that a path may hold and a directory does not. -/
def dotNames : List String := ["", ".", ".."]

/-- An entry has a name of its own and lies in a directory. -/
def isPlaced (entries : OrderedMap TreePath FileStats) : TreePath → Bool
  | [] => true
  | name :: dir => decide (name ∉ dotNames ∧ (entries.get? dir).map FileStats.kind = some .directory)

structure FileTree where
  entries : OrderedMap TreePath FileStats
  placed : ∀ path ∈ entries.keys, isPlaced entries path = true

namespace FileTree

variable {tree : FileTree} {path dir above : TreePath} {name : String}

def stats? (tree : FileTree) (path : TreePath) : Option FileStats := tree.entries.get? path

def kind? (tree : FileTree) (path : TreePath) : Option FileKind :=
  (tree.stats? path).map FileStats.kind

def children (tree : FileTree) (dir : TreePath) : List String :=
  tree.entries.keys.filterMap fun path =>
    match path with
    | [] => none
    | name :: above => if above = dir then some name else none

theorem mem_keys : path ∈ tree.entries.keys ↔ tree.stats? path ≠ none := by
  rw [stats?, ne_eq, OrderedMap.get?_eq_none, Decidable.not_not]

theorem mem_children : name ∈ tree.children dir ↔ tree.stats? (name :: dir) ≠ none := by
  rw [← mem_keys, children, mem_filterMap]
  constructor
  · rintro ⟨path, hpath, h⟩
    cases path with
    | nil => cases h
    | cons other above =>
      obtain ⟨rfl, hname⟩ := Option.ite_none_right_eq_some.mp h
      exact Option.some.inj hname ▸ hpath
  · intro h
    exact ⟨name :: dir, h, by simp⟩

theorem of_entry (h : tree.stats? (name :: dir) ≠ none) :
    name ∉ dotNames ∧ tree.kind? dir = some .directory :=
  of_decide_eq_true (tree.placed _ (mem_keys.mpr h))

/-! ## Removals -/

/-- An entry with entries below it stays. -/
def remove (tree : FileTree) (path : TreePath) : FileTree :=
  if h : tree.children path = [] then
    ⟨tree.entries.delete path, by
      intro other hother
      obtain ⟨entry, hentry, rfl⟩ := mem_map.mp hother
      obtain ⟨hmem, -⟩ := OrderedMap.mem_entries_delete.mp hentry
      have hkey := mem_map_of_mem hmem (f := Prod.fst)
      have hplaced := tree.placed _ hkey
      generalize entry.1 = place at hkey hplaced
      cases place with
      | nil => rfl
      | cons name dir =>
        have hdir : dir ≠ path := by
          rintro rfl
          have hname := mem_children.mpr (mem_keys.mp hkey)
          rw [h] at hname
          cases hname
        simpa [isPlaced, OrderedMap.get?_delete, hdir] using hplaced⟩
  else tree

theorem stats?_remove (h : tree.children path = []) (other : TreePath) :
    (tree.remove path).stats? other = if other = path then none else tree.stats? other := by
  rw [remove, dif_pos h, stats?, OrderedMap.get?_delete]
  rfl

theorem children_eq_nil (h : tree.kind? path ≠ some .directory) : tree.children path = [] := by
  apply eq_nil_iff_forall_not_mem.mpr
  intro name hname
  exact h (of_entry (mem_children.mp hname)).2

/-! ## Resolution -/

/-- Walks down the names of a path; `hop` goes on behind a link. -/
def walk (tree : FileTree) (hop : TreePath → List String → Option TreePath) :
    TreePath → List String → Option TreePath
  | dir, [] => some dir
  | dir, name :: rest =>
    if name ∈ dotNames then tree.walk hop (if name = ".." then dir.tail else dir) rest
    else
      match tree.kind? (name :: dir) with
      | none => none
      | some .directory => tree.walk hop (name :: dir) rest
      | some (.link absolute target) => hop (if absolute then [] else dir) (target ++ rest)
      | some _ => if rest = [] then some (name :: dir) else none

/-- Where a path leads from a directory through so many links at most. -/
def resolve (tree : FileTree) : Nat → TreePath → List String → Option TreePath
  | 0 => tree.walk fun _ _ => none
  | links + 1 => tree.walk (tree.resolve links)

def realpath (tree : FileTree) (links : Nat) (path : List String) : Option TreePath :=
  tree.resolve links [] path

/-- A link at the end of a path is not followed. -/
def lstat (tree : FileTree) (links : Nat) (path : List String) : Option FileStats :=
  match path.getLast? with
  | none => tree.stats? []
  | some name =>
    if name ∈ dotNames then (tree.realpath links path).bind tree.stats?
    else (tree.realpath links path.dropLast).bind fun dir => tree.stats? (name :: dir)

section Resolution

variable {names rest : List String} {links : Nat}
  {hop hop' : TreePath → List String → Option TreePath}

/-- A canonical path leads to itself. -/
theorem walk_reverse (h : tree.kind? path = some .directory) :
    tree.walk hop [] (path.reverse ++ rest) = tree.walk hop path rest := by
  induction path generalizing rest with
  | nil => rfl
  | cons name dir ih =>
    have hentry : tree.stats? (name :: dir) ≠ none := by
      intro hnone
      simp [kind?, hnone] at h
    obtain ⟨hname, hdir⟩ := of_entry hentry
    rw [reverse_cons, append_assoc, singleton_append,
      ih hdir, walk, if_neg hname, h]

theorem realpath_reverse (h : tree.kind? path = some .directory) :
    tree.realpath links path.reverse = some path := by
  have hwalk := fun hop => @walk_reverse tree path [] hop h
  simp only [append_nil, walk] at hwalk
  cases links with
  | zero => exact hwalk _
  | succ links => exact hwalk _

/-- What stands behind the last name of a path: the entry of that name, or what its link leads to. -/
def EndsAt (tree : FileTree) (name : String) (above path : TreePath) : Prop :=
  path = name :: above ∨
    ∃ stats, tree.stats? (name :: above) = some stats ∧ stats.isSymbolicLink = true

theorem walk_concat (hname : name ∉ dotNames)
    (hhop : ∀ {dir names}, hop dir (names ++ [name]) = some path →
      ∃ above, hop dir names = some above ∧ tree.EndsAt name above path)
    (h : tree.walk hop dir (names ++ [name]) = some path) :
    ∃ above, tree.walk hop dir names = some above ∧ tree.EndsAt name above path := by
  induction names generalizing dir with
  | nil =>
    rw [nil_append, walk, if_neg hname] at h
    refine ⟨dir, rfl, ?_⟩
    cases hkind : tree.kind? (name :: dir) with
    | none => simp [hkind] at h
    | some kind =>
      cases kind with
      | link absolute target =>
        obtain ⟨stats, hstats, hlink⟩ := Option.map_eq_some_iff.mp hkind
        exact Or.inr ⟨stats, hstats, by rw [FileStats.isSymbolicLink, hlink]⟩
      | _ => exact Or.inl (by simpa [hkind, walk, eq_comm] using h)
  | cons first names ih =>
    rw [cons_append, walk] at h
    rw [walk]
    by_cases hdot : first ∈ dotNames
    · rw [if_pos hdot] at h ⊢
      exact ih h
    · rw [if_neg hdot] at h ⊢
      cases hkind : tree.kind? (first :: dir) with
      | none => simp [hkind] at h
      | some kind =>
        rw [hkind] at h
        cases kind with
        | directory => exact ih h
        | link absolute target => exact hhop (by simpa using h)
        | _ => simp at h

theorem resolve_concat (hname : name ∉ dotNames)
    (h : tree.resolve links dir (names ++ [name]) = some path) :
    ∃ above, tree.resolve links dir names = some above ∧ tree.EndsAt name above path := by
  induction links generalizing dir names with
  | zero => exact walk_concat hname (fun h => by cases h) h
  | succ links ih => exact walk_concat hname ih h

theorem lstat_concat (hname : name ∉ dotNames) : tree.lstat links (names ++ [name]) =
    (tree.realpath links names).bind fun dir => tree.stats? (name :: dir) := by
  rw [lstat, getLast?_concat]
  dsimp only
  rw [if_neg hname, dropLast_concat]

/-- The entry of a path is the one that the path leads to, or a link. -/
theorem lstat_of_realpath (h : tree.realpath links names = some path) :
    tree.lstat links names = tree.stats? path ∨
      ∃ stats, tree.lstat links names = some stats ∧ stats.isSymbolicLink = true := by
  rcases eq_nil_or_concat names with rfl | ⟨names, name, rfl⟩
  · cases links <;> exact Or.inl (congrArg tree.stats? (Option.some.inj h))
  · rw [concat_eq_append] at h ⊢
    by_cases hname : name ∈ dotNames
    · rw [lstat, getLast?_concat]
      dsimp only
      rw [if_pos hname, h]
      exact Or.inl rfl
    · obtain ⟨above, habove, hend⟩ := resolve_concat hname h
      rw [lstat_concat hname, realpath, habove]
      rcases hend with rfl | hlink
      · exact Or.inl rfl
      · exact Or.inr hlink

theorem lstat_reverse (h : tree.kind? path = some .directory) :
    tree.lstat links path.reverse = tree.stats? path := by
  cases path with
  | nil => rfl
  | cons name dir =>
    have hentry : tree.stats? (name :: dir) ≠ none := by
      intro hnone
      simp [kind?, hnone] at h
    obtain ⟨hname, hdir⟩ := of_entry hentry
    rw [reverse_cons, lstat_concat hname, realpath_reverse hdir]
    rfl

end Resolution

end FileTree

end DshKernel.Lib
