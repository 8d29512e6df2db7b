import DshKernel.Spill.Cleanup
import Mathlib.Logic.Relation

/-!
# What a sweep removes

Files that have expired, and empty directories. The active root is among these when it looks like
a session directory of a default root that was left behind, and holds nothing that stays.
-/

namespace DshKernel.Spill

open Lib Relation List FileTree OrderedMap

section Removals

variable {host : Host} {cutoff : Rat} {tree tree' : FileTree} {root : TreePath × Bool}
  {dir path : TreePath} {session name : String} {stats : FileStats}

/-- A file that the sweep of its directory gets rid of. -/
def Expired (host : Host) (cutoff : Rat) (tree : FileTree) (path : TreePath) : Prop :=
  ∃ mtime, tree.kind? path = some (.file mtime) ∧ mtime < cutoff ∧ host.fails path = false

/-- Nothing that stays. -/
def Expirable (host : Host) (cutoff : Rat) (tree : FileTree) (path : TreePath) : Prop :=
  tree.stats? path = none ∨ Expired host cutoff tree path

def IsSession (host : Host) (tree : FileTree) (root : TreePath) (session : String) : Prop :=
  isSessionDirName session = true ∧ ∃ stats, tree.stats? (session :: root) = some stats ∧
    isTrustedDirectory host stats = true

/-- One removal of the sweep of a root. -/
inductive Removal (host : Host) (cutoff : Rat) (root : TreePath × Bool) :
    FileTree → FileTree → Prop
  | file {tree : FileTree} {session name : String} : IsSession host tree root.1 session →
      Expired host cutoff tree (name :: session :: root.1) →
      Removal host cutoff root tree (tree.remove (name :: session :: root.1))
  | session {tree : FileTree} {session : String} : IsSession host tree root.1 session →
      tree.children (session :: root.1) = [] → host.fails (session :: root.1) = false →
      Removal host cutoff root tree (tree.remove (session :: root.1))
  | prune {tree : FileTree} : root.2 = true → tree.kind? root.1 = some .directory →
      tree.children root.1 = [] → Removal host cutoff root tree (tree.remove root.1)

theorem IsSession.kind? (h : IsSession host tree dir session) :
    tree.kind? (session :: dir) = some .directory := by
  obtain ⟨-, stats, hstats, htrusted⟩ := h
  have hdir := (Bool.and_eq_true_iff.mp htrusted).1
  rw [FileTree.kind?, hstats, Option.map_some, of_decide_eq_true hdir]

theorem Expired.children (h : Expired host cutoff tree path) : tree.children path = [] := by
  obtain ⟨mtime, hkind, -⟩ := h
  apply children_eq_nil
  simp [hkind]

theorem IsSession.remove (h : IsSession host tree dir session) :
    IsSession host (tree.remove (name :: session :: dir)) dir session := by
  refine ⟨h.1, ?_⟩
  unfold FileTree.remove
  split
  · simpa [stats?, get?_delete] using h.2
  · exact h.2

theorem sweepFile_removes {state : FileTree × Nat} (h : IsSession host state.1 root.1 session) :
    ReflTransGen (Removal host cutoff root) state.1
        (sweepFile host cutoff (session :: root.1) state name).1 ∧
      IsSession host (sweepFile host cutoff (session :: root.1) state name).1 root.1 session := by
  unfold sweepFile
  split
  · exact ⟨.refl, h⟩
  · rename_i mtime hkind
    split
    · exact ⟨.refl, h⟩
    · rename_i hold
      unfold unlink
      split
      · exact ⟨.refl, h⟩
      · rename_i hfails
        have hexpired : Expired host cutoff state.1 (name :: session :: root.1) :=
          ⟨mtime, hkind, Rat.not_le.mp hold, by simpa using hfails⟩
        exact ⟨.single (.file h hexpired), h.remove⟩
  · exact ⟨.refl, h⟩

theorem sweepFiles_removes {names : List String} {state : FileTree × Nat}
    (h : IsSession host state.1 root.1 session) :
    ReflTransGen (Removal host cutoff root) state.1
        (names.foldl (sweepFile host cutoff (session :: root.1)) state).1 ∧
      IsSession host (names.foldl (sweepFile host cutoff (session :: root.1)) state).1
        root.1 session := by
  induction names generalizing state with
  | nil => exact ⟨.refl, h⟩
  | cons name names ih =>
    have hstep := @sweepFile_removes host cutoff root session name state h
    have hrest := ih hstep.2
    exact ⟨hstep.1.trans hrest.1, hrest.2⟩

theorem rmdir_eq_some (h : rmdir host tree path = some tree') :
    tree.kind? path = some .directory ∧ tree.children path = [] ∧ host.fails path = false ∧
      tree' = tree.remove path := by
  unfold rmdir at h
  split at h
  · rename_i hguard
    exact ⟨hguard.1, hguard.2.1, hguard.2.2, (Option.some.inj h).symm⟩
  · cases h

theorem sweepSession_removes (state : FileTree × Bool) :
    ReflTransGen (Removal host cutoff root) state.1
      (sweepSession host cutoff root.1 state name).1 := by
  unfold sweepSession
  split
  · exact .refl
  rename_i hname
  split
  · exact .refl
  rename_i stats hstats
  split
  · exact .refl
  rename_i htrusted
  have hsession : IsSession host state.1 root.1 name :=
    ⟨by simpa using hname, stats, hstats, by simpa using htrusted⟩
  have hswept : ReflTransGen (Removal host cutoff root) state.1
        (sweepSessionDir host cutoff state.1 (name :: root.1)).1 ∧
      IsSession host (sweepSessionDir host cutoff state.1 (name :: root.1)).1 root.1 name := by
    unfold sweepSessionDir
    split
    · exact ⟨.refl, hsession⟩
    · rename_i names _
      exact @sweepFiles_removes host cutoff root name names (state.1, names.length) hsession
  dsimp only
  split
  · exact hswept.1
  split
  · rename_i pruned hpruned
    obtain ⟨-, hempty, hfails, rfl⟩ := rmdir_eq_some hpruned
    exact hswept.1.tail (.session hswept.2 hempty hfails)
  · exact hswept.1

theorem sweepSessions_removes (names : List String) (state : FileTree × Bool) :
    ReflTransGen (Removal host cutoff root) state.1
      (names.foldl (sweepSession host cutoff root.1) state).1 := by
  induction names generalizing state with
  | nil => exact .refl
  | cons name names ih => exact (sweepSession_removes state).trans (ih _)

theorem sweepRoot_removes (tree : FileTree) (root : TreePath × Bool) :
    ReflTransGen (Removal host cutoff root) tree (sweepRoot host cutoff tree root) := by
  unfold sweepRoot
  split
  · exact .refl
  rename_i names hnames
  have hswept := @sweepSessions_removes host cutoff root names (tree, true)
  dsimp only
  split
  · rename_i hprune
    cases hpruned : rmdir host (names.foldl (sweepSession host cutoff root.1) (tree, true)).1
        root.1 with
    | none => exact hswept
    | some pruned =>
      obtain ⟨hkind, hempty, -, rfl⟩ := rmdir_eq_some hpruned
      exact hswept.tail (.prune (Bool.and_eq_true_iff.mp hprune).1 hkind hempty)
  · exact hswept

theorem sweepRoots_removes {roots : List (TreePath × Bool)} {Step : FileTree → FileTree → Prop}
    (h : ∀ root ∈ roots, ∀ tree tree', Removal host cutoff root tree tree' → Step tree tree') :
    ReflTransGen Step tree (roots.foldl (sweepRoot host cutoff) tree) := by
  induction roots generalizing tree with
  | nil => exact .refl
  | cons root roots ih =>
    have hfirst := ReflTransGen.mono (h root mem_cons_self) _ _ (sweepRoot_removes tree root)
    exact hfirst.trans (ih fun other hother => h other (mem_cons_of_mem _ hother))

end Removals

section Roots

variable {host : Host} {tree : FileTree} {activeRoot base path : List String} {allowSymlink : Bool}
  {root active : TreePath}

theorem resolveRoot_eq_some (h : resolveRoot host tree path allowSymlink = some root) :
    tree.realpath host.links path = some root ∧ isSafeRoot host tree root = true := by
  unfold resolveRoot at h
  split at h
  · cases h
  · split at h
    · cases h
    · exact Option.filter_eq_some_iff.mp h

theorem isSafeRoot.kind? (h : isSafeRoot host tree root = true) :
    ∃ stats, tree.stats? root = some stats ∧ isTrustedDirectory host stats = true ∧
      tree.kind? root = some .directory := by
  obtain ⟨stats, hstats, htrusted⟩ := (Option.any_eq_true _ _).mp (Bool.and_eq_true_iff.mp h).1
  refine ⟨stats, hstats, htrusted, ?_⟩
  rw [FileTree.kind?, hstats, Option.map_some,
    of_decide_eq_true (Bool.and_eq_true_iff.mp htrusted).1]

/-- A safe root is found behind any path that leads to it, a link too if these are allowed. -/
theorem resolveRoot_of_safe (hpath : tree.realpath host.links path = some root)
    (hsafe : isSafeRoot host tree root = true)
    (hplace : allowSymlink = true ∨ tree.lstat host.links path = tree.stats? root) :
    resolveRoot host tree path allowSymlink = some root := by
  obtain ⟨stats, hstats, htrusted, -⟩ := isSafeRoot.kind? hsafe
  have hdirectory : stats.isSymbolicLink = false := by
    unfold FileStats.isSymbolicLink
    rw [of_decide_eq_true (Bool.and_eq_true_iff.mp htrusted).1]
  have hfound : ∃ initial, tree.lstat host.links path = some initial ∧
      (initial.isSymbolicLink && !allowSymlink ||
        !initial.isSymbolicLink && !isTrustedDirectory host initial) = false := by
    rcases lstat_of_realpath hpath with hentry | ⟨initial, hinitial, hlink⟩
    · exact ⟨stats, hentry.trans hstats, by simp [hdirectory, htrusted]⟩
    · rcases hplace with rfl | hentry
      · exact ⟨initial, hinitial, by simp [hlink]⟩
      · exact ⟨stats, hentry.trans hstats, by simp [hdirectory, htrusted]⟩
  obtain ⟨initial, hinitial, hguard⟩ := hfound
  unfold resolveRoot
  rw [hinitial]
  dsimp only
  rw [if_neg (by simp [hguard]), hpath]
  exact Option.filter_eq_some_iff.mpr ⟨rfl, hsafe⟩

theorem resolveRoot_reverse (h : isSafeRoot host tree root = true) :
    resolveRoot host tree root.reverse false = some root := by
  obtain ⟨stats, -, -, hkind⟩ := isSafeRoot.kind? h
  exact resolveRoot_of_safe (realpath_reverse hkind) h
    (Or.inr (lstat_reverse hkind))

theorem not_mem_dotNames {name : String} (h : isDefaultRootName name = true) : name ∉ dotNames := by
  intro hdot
  simp only [dotNames, mem_cons, not_mem_nil, or_false] at hdot
  rcases hdot with rfl | rfl | rfl
  · revert h
    decide
  · revert h
    decide
  · revert h
    decide

/-- A root that is no link has the last name of its path. -/
theorem resolveRoot_concat {names : List String} {name : String} (hname : name ∉ dotNames)
    (h : resolveRoot host tree (names ++ [name]) false = some root) :
    ∃ above, tree.realpath host.links names = some above ∧ root = name :: above := by
  obtain ⟨above, habove, hend⟩ := resolve_concat hname (resolveRoot_eq_some h).1
  refine ⟨above, habove, ?_⟩
  rcases hend with heq | ⟨stats, hstats, hlink⟩
  · exact heq
  · rw [resolveRoot, lstat_concat hname, realpath, habove, Option.bind_some,
      hstats] at h
    simp [hlink] at h

/-- The discovered roots lie in one directory. -/
theorem discovered_above (host : Host) (tree : FileTree) (base : List String) :
    ∃ above : TreePath, ∀ root ∈ discoverDefaultRootRecords host tree base,
      isSafeRoot host tree root = true ∧ ∃ name, root = name :: above := by
  let names : List String := (base.foldl (fun (above : TreePath) part =>
    if part ∈ dotNames then if part = ".." then above.tail else above else part :: above) []).reverse
  have hroot : ∀ root ∈ discoverDefaultRootRecords host tree base,
      isSafeRoot host tree root = true ∧ ∃ name above,
        tree.realpath host.links names = some above ∧ root = name :: above := by
    intro root hroot
    obtain ⟨name, -, hfound⟩ := mem_filterMap.mp hroot
    obtain ⟨hshape, hresolved⟩ := Option.ite_none_right_eq_some.mp hfound
    have hjoin : join base name = names ++ [name] := by
      rw [join, foldl_append, foldl_cons, foldl_nil,
        if_neg (not_mem_dotNames hshape), reverse_cons]
    rw [hjoin] at hresolved
    exact ⟨(resolveRoot_eq_some hresolved).2, name,
      resolveRoot_concat (not_mem_dotNames hshape) hresolved⟩
  refine ⟨(tree.realpath host.links names).getD [], fun root hmem => ?_⟩
  obtain ⟨hsafe, name, above, habove, rfl⟩ := hroot root hmem
  exact ⟨hsafe, name, by rw [habove, Option.getD_some]⟩

/-! ## The roots of a sweep -/

theorem get?_setAllTrue {roots : List TreePath} {map : OrderedMap TreePath Bool} :
    (roots.foldl (fun (map : OrderedMap TreePath Bool) root => map.set root true) map).get? root =
      if root ∈ roots then some true else map.get? root := by
  induction roots generalizing map with
  | nil => rfl
  | cons first roots ih =>
    rw [foldl_cons, ih, get?_set]
    by_cases h : root = first
    · simp [h]
    · simp [h]

/-- The discovered roots come before the active one, which is not pruned. -/
theorem gatheredRoots_split (host : Host) (tree : FileTree) (activeRoot base : List String) :
    ∃ first last, (gatheredRoots host tree activeRoot base).entries = first ++ last ∧
      (∀ root, root ∈ first.map Prod.fst ↔ root ∈ discoverDefaultRootRecords host tree base) ∧
      (∀ root ∈ first, root.2 = true → resolveRoot host tree activeRoot true ≠ some root.1) ∧
      ∀ root ∈ last, resolveRoot host tree activeRoot true = some root.1 ∧ root.2 = false := by
  have hkeys : ∀ root, root ∈ ((discoverDefaultRootRecords host tree base).foldl
      (fun (map : OrderedMap TreePath Bool) root => map.set root true) .empty).entries.map Prod.fst ↔
        root ∈ discoverDefaultRootRecords host tree base := by
    intro root
    by_cases h : root ∈ discoverDefaultRootRecords host tree base
    · have hget := @get?_setAllTrue root (discoverDefaultRootRecords host tree base) .empty
      rw [if_pos h] at hget
      exact iff_of_true (mem_map_of_mem (get?_eq_some.mp hget)) h
    · refine iff_of_false (get?_eq_none.mp ?_) h
      rw [get?_setAllTrue, if_neg h]
      rfl
  unfold gatheredRoots
  dsimp only
  generalize (discoverDefaultRootRecords host tree base).foldl
    (fun (map : OrderedMap TreePath Bool) root => map.set root true) .empty = map at hkeys ⊢
  cases hactive : resolveRoot host tree activeRoot true with
  | none => exact ⟨map.entries, [], (append_nil _).symm, hkeys, by simp, by simp⟩
  | some active =>
    by_cases hmem : active ∈ map.keys
    · refine ⟨(map.set active false).entries, [], (append_nil _).symm, ?_, ?_, by simp⟩
      · rw [entries_set_of_mem hmem, map_fst_replaceEntry]
        exact hkeys
      · intro root hroot hprune heq
        cases heq
        rcases mem_entries_set.mp hroot with h | h
        · rw [h] at hprune
          cases hprune
        · exact h.2 rfl
    · refine ⟨map.entries, [(active, false)], entries_set_of_not_mem hmem, hkeys, ?_, ?_⟩
      · intro root hroot _ heq
        cases heq
        exact hmem (mem_map_of_mem hroot)
      · intro root hroot
        rw [mem_singleton.mp hroot]
        exact ⟨rfl, rfl⟩

theorem entries_addCandidates {roots : List (TreePath × Bool)} {map : OrderedMap TreePath Bool}
    (hnodup : ((map.entries ++ roots).map Prod.fst).Nodup)
    (hsafe : ∀ root ∈ roots, isSafeRoot host tree root.1 = true) :
    ((roots.map fun root => (⟨root.1.reverse, root.2⟩ : SweepRoot)).foldl (addCandidate host tree)
      map).entries = map.entries ++ roots := by
  induction roots generalizing map with
  | nil => exact (append_nil _).symm
  | cons root roots ih =>
    have hnew : root.1 ∉ map.keys := by
      intro hmem
      rw [map_append] at hnodup
      exact (nodup_append.mp hnodup).2.2 _ hmem _ (by simp) rfl
    have hadd : addCandidate host tree map ⟨root.1.reverse, root.2⟩ = map.set root.1 root.2 := by
      rw [addCandidate, resolveRoot_reverse (hsafe root mem_cons_self)]
      dsimp only
      rw [get?_eq_none.mpr hnew, Option.getD_none, Bool.true_and]
    rw [map_cons, foldl_cons, hadd, ih]
    · rw [entries_set_of_not_mem hnew, append_assoc, singleton_append]
    · rw [entries_set_of_not_mem hnew, append_assoc, singleton_append]
      exact hnodup
    · exact fun other hother => hsafe other (mem_cons_of_mem _ hother)

theorem isSafeRoot_of_discovered (h : root ∈ discoverDefaultRootRecords host tree base) :
    isSafeRoot host tree root = true := by
  obtain ⟨above, habove⟩ := discovered_above host tree base
  exact (habove root h).1

theorem sweepSpillRoots_eq (cutoff : Rat) :
    sweepSpillRoots host tree (gatherSweepRoots host tree activeRoot base) cutoff =
      (gatheredRoots host tree activeRoot base).entries.foldl (sweepRoot host cutoff) tree := by
  obtain ⟨first, last, hentries, hfirst, -, hlast⟩ :=
    gatheredRoots_split host tree activeRoot base
  rw [sweepSpillRoots, gatherSweepRoots, entries_addCandidates]
  · rfl
  · exact (gatheredRoots host tree activeRoot base).nodup
  · intro root hroot
    rw [hentries] at hroot
    rcases mem_append.mp hroot with h | h
    · exact isSafeRoot_of_discovered ((hfirst root.1).mp (mem_map_of_mem h))
    · exact (resolveRoot_eq_some (hlast root h).1).2

end Roots

section Sweep

variable {host : Host} {cutoff : Rat} {tree tree' initial : FileTree} {activeRoot base : List String}
  {root : TreePath × Bool} {path : TreePath}

/-- What a sweep of a tree may do at a time: to remove a regular file that is older than the cutoff
from a session directory of a trusted root, or an empty directory that is not the active root. -/
inductive Allowed (host : Host) (cutoff : Rat) (initial : FileTree)
    (activeRoot base : List String) : FileTree → FileTree → Prop
  | file {tree : FileTree} {root : TreePath} {session name : String} {mtime : Rat} :
      resolveRoot host initial activeRoot true = some root ∨
        root ∈ discoverDefaultRootRecords host initial base →
      IsSession host tree root session →
      tree.kind? (name :: session :: root) = some (.file mtime) → mtime < cutoff →
      Allowed host cutoff initial activeRoot base tree (tree.remove (name :: session :: root))
  | directory {tree : FileTree} {path : TreePath} : tree.kind? path = some .directory →
      tree.children path = [] → initial.realpath host.links activeRoot ≠ some path →
      Allowed host cutoff initial activeRoot base tree (tree.remove path)

def SweepSafe (host : Host) (cutoff : Rat) (tree : FileTree) (activeRoot base : List String) :
    Prop :=
  ReflTransGen (Allowed host cutoff tree activeRoot base) tree
    (sweepSpillRoots host tree (gatherSweepRoots host tree activeRoot base) cutoff)

/-- The active root is a session directory of a discovered root, and nothing in it stays. -/
def LosesActiveRoot (host : Host) (cutoff : Rat) (tree : FileTree)
    (activeRoot base : List String) : Prop :=
  ∃ root ∈ discoverDefaultRootRecords host tree base, ∃ session,
    tree.realpath host.links activeRoot = some (session :: root) ∧
      IsSession host tree root session ∧ host.fails (session :: root) = false ∧
      ∀ name, Expirable host cutoff tree (name :: session :: root)

/-- Every entry is one of the other tree. -/
def Below (tree other : FileTree) : Prop :=
  ∀ path stats, tree.stats? path = some stats → other.stats? path = some stats

theorem Below.kind? {kind : FileKind} (h : Below tree initial)
    (hkind : tree.kind? path = some kind) : initial.kind? path = some kind := by
  obtain ⟨stats, hstats, hkind⟩ := Option.map_eq_some_iff.mp hkind
  rw [FileTree.kind?, h path stats hstats, Option.map_some, hkind]

theorem Below.remove (h : Below tree initial) : Below (tree.remove path) initial := by
  intro other stats hstats
  unfold FileTree.remove at hstats
  split at hstats
  · exact h other stats (get?_delete_eq_some.mp hstats).2
  · exact h other stats hstats

/-- A removal is of an entry with nothing below, deep below the root of an expired file only. -/
theorem Removal.removed (h : Removal host cutoff root tree tree') :
    ∃ path, tree.children path = [] ∧ tree' = tree.remove path ∧
      (path.length = root.1.length + 2 → Expired host cutoff tree path) := by
  cases h with
  | file hsession hexpired => exact ⟨_, hexpired.children, rfl, fun _ => hexpired⟩
  | session hsession hempty _ =>
    refine ⟨_, hempty, rfl, fun hlength => ?_⟩
    simp at hlength
  | prune _ _ hempty =>
    refine ⟨_, hempty, rfl, fun hlength => ?_⟩
    simp at hlength

/-- The discovered roots are swept by allowed steps only, unless the active root is lost. What they
remove from a session directory has expired. -/
theorem allowed_of_discovered {roots : List (TreePath × Bool)} {depth : Nat}
    (hroots : ∀ root ∈ roots, root.1.length = depth ∧
      root.1 ∈ discoverDefaultRootRecords host initial base)
    (hprune : ∀ root ∈ roots, root.2 = true →
      resolveRoot host initial activeRoot true ≠ some root.1)
    (hkeeps : ¬ LosesActiveRoot host cutoff initial activeRoot base)
    (h : ReflTransGen (fun tree tree' => ∃ root ∈ roots, Removal host cutoff root tree tree')
      initial tree) :
    ReflTransGen (Allowed host cutoff initial activeRoot base) initial tree ∧
      Below tree initial ∧ ∀ path, path.length = depth + 2 → tree.stats? path = none →
        Expirable host cutoff initial path := by
  induction h with
  | refl => exact ⟨.refl, fun _ _ h => h, fun _ _ hnone => Or.inl hnone⟩
  | @tail tree tree' _ hstep ih =>
    obtain ⟨hallowed, hbelow, hlost⟩ := ih
    obtain ⟨root, hroot, hstep⟩ := hstep
    obtain ⟨hdepth, hdiscovered⟩ := hroots root hroot
    refine ⟨hallowed.tail ?_, ?_, ?_⟩
    · cases hstep with
      | file hsession hexpired =>
        obtain ⟨mtime, hkind, hold, -⟩ := hexpired
        exact .file (Or.inr hdiscovered) hsession hkind hold
      | @session session hsession hempty hfails =>
        refine .directory hsession.kind? hempty fun hactive => hkeeps ?_
        obtain ⟨hshape, stats, hstats, htrusted⟩ := hsession
        refine ⟨root.1, hdiscovered, session, hactive,
          ⟨hshape, stats, hbelow _ _ hstats, htrusted⟩, hfails, fun name => ?_⟩
        refine hlost _ (congrArg (· + 2) hdepth) (Decidable.not_not.mp fun hsome => ?_)
        have hmem := mem_children.mpr hsome
        rw [hempty] at hmem
        cases hmem
      | prune hflag hkind hempty =>
        refine .directory hkind hempty fun hactive => hprune root hroot hflag ?_
        exact resolveRoot_of_safe hactive (isSafeRoot_of_discovered hdiscovered) (Or.inl rfl)
    · obtain ⟨path, -, rfl, -⟩ := hstep.removed
      exact hbelow.remove
    · intro path hlength hnone
      obtain ⟨removed, hempty, rfl, hexpired⟩ := hstep.removed
      rw [stats?_remove hempty] at hnone
      by_cases heq : path = removed
      · subst heq
        obtain ⟨mtime, hkind, hrest⟩ := hexpired (by rw [hlength, hdepth])
        exact Or.inr ⟨mtime, hbelow.kind? hkind, hrest⟩
      · rw [if_neg heq] at hnone
        exact hlost path hlength hnone

/-- The active root is swept by allowed steps only. -/
theorem allowed_of_active (hactive : resolveRoot host initial activeRoot true = some root.1)
    (hflag : root.2 = false) (h : Removal host cutoff root tree tree') :
    Allowed host cutoff initial activeRoot base tree tree' := by
  cases h with
  | file hsession hexpired =>
    obtain ⟨mtime, hkind, hold, -⟩ := hexpired
    exact .file (Or.inl hactive) hsession hkind hold
  | session hsession hempty _ =>
    refine .directory hsession.kind? hempty fun hpath => ?_
    rw [(resolveRoot_eq_some hactive).1] at hpath
    have hlength := congrArg length (Option.some.inj hpath)
    simp at hlength
  | prune hprune _ _ =>
    rw [hflag] at hprune
    cases hprune

theorem sweepSafe_of_not_loses (hkeeps : ¬ LosesActiveRoot host cutoff tree activeRoot base) :
    SweepSafe host cutoff tree activeRoot base := by
  obtain ⟨first, last, hentries, hfirst, hprune, hlast⟩ :=
    gatheredRoots_split host tree activeRoot base
  rw [SweepSafe, sweepSpillRoots_eq, hentries, foldl_append]
  obtain ⟨above, habove⟩ := discovered_above host tree base
  have hdiscovered : ∀ root ∈ first, root.1.length = above.length + 1 ∧
      root.1 ∈ discoverDefaultRootRecords host tree base := by
    intro root hroot
    have hmem := (hfirst root.1).mp (mem_map_of_mem hroot)
    obtain ⟨-, name, hname⟩ := habove root.1 hmem
    exact ⟨by rw [hname, length_cons], hmem⟩
  have hfirstRuns := (allowed_of_discovered hdiscovered hprune hkeeps
    (sweepRoots_removes fun root hroot _ _ h => ⟨root, hroot, h⟩)).1
  exact hfirstRuns.trans (sweepRoots_removes fun root hroot _ _ h =>
    allowed_of_active (hlast root hroot).1 (hlast root hroot).2 h)

/-- Allowed steps keep the active root. -/
theorem active_kept (hactive : initial.realpath host.links activeRoot = some path)
    (hkind : tree.kind? path = some .directory)
    (h : ReflTransGen (Allowed host cutoff initial activeRoot base) tree tree') :
    tree'.kind? path = some .directory := by
  induction h with
  | refl => exact hkind
  | tail _ hstep ih =>
    cases hstep with
    | file _ _ hfile _ =>
      rw [FileTree.kind?, stats?_remove (children_eq_nil (by simp [hfile])),
        if_neg]
      · exact ih
      · rintro rfl
        rw [ih] at hfile
        cases hfile
    | directory _ hempty hother =>
      rw [FileTree.kind?, stats?_remove hempty, if_neg]
      · exact ih
      · rintro rfl
        exact hother hactive

theorem gone_of_below (hbelow : Below tree' tree) (h : tree.stats? path = none) :
    tree'.stats? path = none := by
  cases hentry : tree'.stats? path with
  | none => rfl
  | some stats =>
    rw [hbelow _ _ hentry] at h
    cases h

theorem Expirable.below (h : Expirable host cutoff tree path) (hbelow : Below tree' tree) :
    Expirable host cutoff tree' path := by
  cases hentry : tree'.stats? path with
  | none => exact Or.inl hentry
  | some stats =>
    have hbefore := hbelow _ _ hentry
    rcases h with hgone | ⟨mtime, hkind, hrest⟩
    · rw [hbefore] at hgone
      cases hgone
    · refine Or.inr ⟨mtime, ?_, hrest⟩
      rw [FileTree.kind?, hentry, ← hbefore]
      exact hkind

/-- The session directory is gone, or it is one that the sweep of its root removes. -/
def Doomed (host : Host) (cutoff : Rat) (dir : TreePath) (session : String) (tree : FileTree) :
    Prop :=
  tree.stats? (session :: dir) = none ∨ IsSession host tree dir session ∧
    ∀ name, Expirable host cutoff tree (name :: session :: dir)

variable {dir : TreePath} {session : String}

theorem Doomed.below (h : Doomed host cutoff dir session tree) (hbelow : Below tree' tree) :
    Doomed host cutoff dir session tree' := by
  cases hentry : tree'.stats? (session :: dir) with
  | none => exact Or.inl hentry
  | some stats =>
    have hbefore := hbelow _ _ hentry
    rcases h with hgone | ⟨⟨hshape, other, hother, htrusted⟩, hexpired⟩
    · rw [hbefore] at hgone
      cases hgone
    · rw [hbefore] at hother
      exact Or.inr ⟨⟨hshape, other, hentry.trans hother, htrusted⟩,
        fun name => (hexpired name).below hbelow⟩

theorem below_of_removals (h : ReflTransGen (Removal host cutoff root) tree tree') :
    Below tree' tree := by
  induction h with
  | refl => exact fun _ _ h => h
  | tail _ hstep ih =>
    obtain ⟨path, -, rfl, -⟩ := hstep.removed
    exact ih.remove

theorem sweepFile_all {name : String} {count : Nat} (h : Expirable host cutoff tree (name :: dir)) :
    ∃ after, sweepFile host cutoff dir (tree, count + 1) name = (after, count) ∧
      after.stats? (name :: dir) = none ∧ Below after tree := by
  unfold sweepFile
  rcases h with hnone | hexpired
  · rw [FileTree.kind?, hnone]
    exact ⟨tree, rfl, hnone, fun _ _ h => h⟩
  · have hempty := hexpired.children
    obtain ⟨mtime, hkind, hold, hfails⟩ := hexpired
    rw [hkind]
    refine ⟨tree.remove (name :: dir), ?_, ?_, Below.remove fun _ _ h => h⟩
    · simp [Rat.not_le.mpr hold, unlink, hfails]
    · rw [stats?_remove hempty, if_pos rfl]

theorem sweepFiles_all {names : List String}
    (h : ∀ name, Expirable host cutoff tree (name :: dir)) :
    ∃ after, names.foldl (sweepFile host cutoff dir) (tree, names.length) = (after, 0) ∧
      Below after tree ∧ ∀ name ∈ names, after.stats? (name :: dir) = none := by
  induction names generalizing tree with
  | nil => exact ⟨tree, rfl, fun _ _ h => h, by simp⟩
  | cons first names ih =>
    obtain ⟨next, hnext, hfirst, hbelow⟩ := @sweepFile_all host cutoff tree dir first
      names.length (h first)
    obtain ⟨after, hafter, hrest, hgone⟩ := ih fun name => (h name).below hbelow
    rw [length_cons, foldl_cons, hnext]
    refine ⟨after, hafter, fun path stats h => hbelow _ _ (hrest _ _ h), fun name hname => ?_⟩
    rcases mem_cons.mp hname with rfl | hmem
    · exact gone_of_below hrest hfirst
    · exact hgone name hmem

theorem sweepSessionDir_doomed (hsession : IsSession host tree dir session)
    (hexpired : ∀ name, Expirable host cutoff tree (name :: session :: dir)) :
    ∃ after, sweepSessionDir host cutoff tree (session :: dir) = (after, true) ∧
      after.children (session :: dir) = [] ∧ after.kind? (session :: dir) = some .directory := by
  obtain ⟨after, hafter, hbelow, hgone⟩ := @sweepFiles_all host cutoff tree (session :: dir)
    (tree.children (session :: dir)) hexpired
  have hkept := (@sweepFiles_removes host cutoff (dir, true) session
    (tree.children (session :: dir)) (tree, (tree.children (session :: dir)).length) hsession).2
  rw [hafter] at hkept
  refine ⟨after, ?_, ?_, hkept.kind?⟩
  · rw [sweepSessionDir, readdir, if_pos hsession.kind?]
    simp [hafter]
  · apply eq_nil_iff_forall_not_mem.mpr
    intro name hname
    have hthere := mem_children.mp hname
    exact hthere (hgone name (mem_children.mpr fun h => hthere (gone_of_below hbelow h)))

/-- The round of a doomed session directory. -/
theorem sweepSession_dooms {state : FileTree × Bool} (h : Doomed host cutoff dir session state.1)
    (hfails : host.fails (session :: dir) = false) (hshape : isSessionDirName session = true) :
    (sweepSession host cutoff dir state session).1.stats? (session :: dir) = none := by
  unfold sweepSession
  rw [hshape]
  rcases h with hgone | ⟨hsession, hexpired⟩
  · rw [hgone]
    exact hgone
  · obtain ⟨after, hswept, hempty, hkind⟩ := sweepSessionDir_doomed hsession hexpired
    obtain ⟨-, stats, hstats, htrusted⟩ := hsession
    simp [hstats, htrusted, hswept, rmdir, hkind, hempty, hfails, stats?_remove hempty]

/-- A loop that comes to an item which brings about what lasts. -/
theorem foldl_hits {σ α : Type} {f : σ → α → σ} {p q : σ → Prop} {target : α → Prop}
    {items : List α} {state : σ} (hp : ∀ state item, p state → p (f state item))
    (hq : ∀ state item, q state → q (f state item))
    (hhit : ∀ state item, target item → p state → q (f state item))
    (hitem : ∃ item ∈ items, target item) (h : p state) : q (items.foldl f state) := by
  induction items generalizing state with
  | nil => simp at hitem
  | cons item items ih =>
    obtain ⟨other, hother, htarget⟩ := hitem
    rcases mem_cons.mp hother with rfl | hmem
    · exact foldlRecOn items f (hhit state other htarget h) fun state h item _ => hq state item h
    · exact ih ⟨other, hmem, htarget⟩ (hp state item h)

theorem sweepRoot_dooms (h : Doomed host cutoff dir session tree)
    (hfails : host.fails (session :: dir) = false) (hshape : isSessionDirName session = true)
    (hroot : root.1 = dir) : (sweepRoot host cutoff tree root).stats? (session :: dir) = none := by
  subst hroot
  have hbelow := below_of_removals (@sweepRoot_removes host cutoff tree root)
  by_cases hgone : tree.stats? (session :: root.1) = none
  · exact gone_of_below hbelow hgone
  have hround : ∀ (state : FileTree × Bool) name,
      Below (sweepSession host cutoff root.1 state name).1 state.1 := fun state name =>
    below_of_removals (@sweepSession_removes host cutoff root name state)
  have hswept : ((tree.children root.1).foldl (sweepSession host cutoff root.1)
      (tree, true)).1.stats? (session :: root.1) = none := by
    apply foldl_hits (p := fun state => Doomed host cutoff root.1 session state.1)
      (q := fun state => state.1.stats? (session :: root.1) = none)
      (fun state name h => h.below (hround state name))
      (fun state name h => gone_of_below (hround state name) h) ?_
      ⟨session, mem_children.mpr hgone, rfl⟩ h
    rintro state _ rfl h
    exact sweepSession_dooms h hfails hshape
  unfold sweepRoot
  rw [readdir, if_pos (of_entry hgone).2]
  dsimp only
  split
  · cases hpruned : rmdir host ((tree.children root.1).foldl
        (sweepSession host cutoff root.1) (tree, true)).1 root.1 with
    | none => exact hswept
    | some pruned =>
      obtain ⟨-, -, -, rfl⟩ := rmdir_eq_some hpruned
      exact gone_of_below (Below.remove fun _ _ h => h) hswept
  · exact hswept

end Sweep

/-- A sweep removes expired files and empty directories only, and never the active root, unless the
active root is an expired session directory of a discovered root. -/
theorem sweep_safe_iff (host : Host) (cutoff : Rat) (tree : FileTree)
    (activeRoot base : List String) :
    SweepSafe host cutoff tree activeRoot base ↔
      ¬ LosesActiveRoot host cutoff tree activeRoot base := by
  constructor
  · rintro hsafe ⟨root, hroot, session, hactive, hsession, hfails, hexpired⟩
    have hkept := active_kept hactive hsession.kind? hsafe
    obtain ⟨first, last, hentries, hfirst, -, -⟩ :=
      gatheredRoots_split host tree activeRoot base
    obtain ⟨entry, hentry, heq⟩ := mem_map.mp ((hfirst root).mpr hroot)
    have hbelow := fun tree root =>
      below_of_removals (@sweepRoot_removes host cutoff tree root)
    have hgone := foldl_hits (p := Doomed host cutoff root session)
      (q := fun tree => tree.stats? (session :: root) = none)
      (fun tree root h => h.below (hbelow tree root))
      (fun tree root h => gone_of_below (hbelow tree root) h)
      (fun tree entry (hroot : entry.1 = root) h => sweepRoot_dooms h hfails hsession.1 hroot)
      ⟨entry, hentries ▸ mem_append_left _ hentry, heq⟩ (Or.inr ⟨hsession, hexpired⟩)
    rw [sweepSpillRoots_eq, FileTree.kind?, hgone] at hkept
    cases hkept
  · exact sweepSafe_of_not_loses

/-- A default root with a session directory that holds one file. -/
def lostTree : FileTree where
  entries := empty.setAll [([], ⟨.directory, 0, 0o755⟩),
    (["tmp"], ⟨.directory, 0, 0o1777⟩),
    (["dsh-spill-ABCDEF", "tmp"], ⟨.directory, 1000, 0o700⟩),
    (["session-0123456789ab", "dsh-spill-ABCDEF", "tmp"], ⟨.directory, 1000, 0o700⟩),
    (["old", "session-0123456789ab", "dsh-spill-ABCDEF", "tmp"], ⟨.file 5, 1000, 0o600⟩)]
  placed := by decide

/-- The session directory is the active root, and is removed. -/
theorem sweep_loses_active_root : ¬ SweepSafe ⟨some 1000, 40, fun _ => false⟩ 10 lostTree
    ["tmp", "dsh-spill-ABCDEF", "session-0123456789ab"] ["tmp"] := by
  intro hsafe
  have hkept := active_kept (by decide)
    (by decide : lostTree.kind? ["session-0123456789ab", "dsh-spill-ABCDEF", "tmp"] = _) hsafe
  revert hkept
  decide

end DshKernel.Spill
