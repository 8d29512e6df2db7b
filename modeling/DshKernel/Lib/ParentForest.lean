import DshKernel.Lib.OrderedMap
import Mathlib.Logic.Relation
import Mathlib.Data.List.Perm.Subperm

/-!
# Forests of parent links

Every key has at most one parent. The links form a forest when the walk from each key ends, and a
link to a key whose walk does not meet the linked one keeps the forest.
-/

namespace DshKernel.Lib

open List

/-- The walk from a key to the root of its tree, the key first. -/
inductive Ancestry {κ : Type} (parent : κ → Option κ) : Option κ → List κ → Prop where
  | root : Ancestry parent none []
  | link {key : κ} {rest : List κ} (h : Ancestry parent (parent key) rest) :
      Ancestry parent (some key) (key :: rest)

/-- The walk from every key ends. -/
def Forest {κ : Type} (parent : κ → Option κ) : Prop :=
  ∀ key, ∃ chain, Ancestry parent (some key) chain

/-- The key next to a key above it. -/
def ChildOf {κ : Type} (parent : κ → Option κ) (child above : κ) : Prop := parent child = some above

namespace Ancestry

variable {κ : Type} {parent : κ → Option κ} {start : Option κ} {key other : κ}
  {chain chain' : List κ}

theorem unique (h : Ancestry parent start chain) (h' : Ancestry parent start chain') :
    chain = chain' := by
  induction h generalizing chain' with
  | root =>
    cases h'
    rfl
  | link _ ih =>
    cases h' with
    | link hrest => rw [ih hrest]

/-- From a key that the walk meets it goes on as the walk from that key. -/
theorem suffix (h : Ancestry parent start chain) (hmem : key ∈ chain) :
    ∃ rest, Ancestry parent (some key) rest ∧ rest <:+ chain := by
  induction h with
  | root => simp at hmem
  | @link first rest hrest ih =>
    rcases mem_cons.mp hmem with heq | hlater
    · subst heq
      exact ⟨_, .link hrest, suffix_refl _⟩
    · obtain ⟨found, hfound, hsuffix⟩ := ih hlater
      exact ⟨found, hfound, hsuffix.trans (suffix_cons _ _)⟩

/-- A walk that ends meets no key twice. -/
theorem nodup (h : Ancestry parent start chain) : chain.Nodup := by
  induction h with
  | root => exact nodup_nil
  | @link first rest hrest ih =>
    refine nodup_cons.mpr ⟨?_, ih⟩
    intro hmem
    obtain ⟨again, hagain, hsuffix⟩ := hrest.suffix hmem
    have heq := hagain.unique (.link hrest)
    have hlength := hsuffix.length_le
    rw [heq, length_cons] at hlength
    omega

theorem mem_iff_reaches (h : Ancestry parent (some key) chain) :
    other ∈ chain ↔ Relation.ReflTransGen (ChildOf parent) key other := by
  constructor
  · intro hmem
    generalize hstart : some key = start at h
    induction h generalizing key with
    | root => cases hstart
    | @link first rest hrest ih =>
      obtain rfl := Option.some.inj hstart
      rcases mem_cons.mp hmem with heq | hlater
      · rw [heq]
      · cases hparent : parent key with
        | none =>
          rw [hparent] at hrest
          cases hrest
          simp at hlater
        | some above =>
          exact .head hparent (ih hlater hparent.symm)
  · intro hreach
    induction hreach using Relation.ReflTransGen.head_induction_on generalizing chain with
    | refl =>
      cases h with
      | link _ => exact mem_cons_self
    | @head child above hlink _ ih =>
      cases h with
      | link hrest =>
        rw [show parent child = some above from hlink] at hrest
        exact mem_cons_of_mem _ (ih hrest)

/-- The links of keys that the walk does not meet do not matter to it. -/
theorem congr {parent' : κ → Option κ} (h : Ancestry parent start chain)
    (hsame : ∀ key ∈ chain, parent' key = parent key) : Ancestry parent' start chain := by
  induction h with
  | root => exact .root
  | @link first rest hrest ih =>
    refine .link ?_
    rw [hsame first mem_cons_self]
    exact ih fun key hkey => hsame key (mem_cons_of_mem _ hkey)

/-- Every key of a walk but the last has a parent. -/
theorem parents_of_dropLast (h : Ancestry parent start chain) (hmem : key ∈ chain.dropLast) :
    parent key ≠ none := by
  induction h with
  | root => simp at hmem
  | @link first rest hrest ih =>
    cases rest with
    | nil => simp at hmem
    | cons second rest =>
      rcases mem_cons.mp hmem with heq | hlater
      · subst heq
        intro hnone
        rw [hnone] at hrest
        cases hrest
      · exact ih hlater

end Ancestry

namespace Forest

variable {κ : Type} {parent : κ → Option κ}

/-- No key is above itself. -/
theorem acyclic (hforest : Forest parent) (key : κ) :
    ¬ Relation.TransGen (ChildOf parent) key key := by
  intro hcycle
  obtain ⟨chain, hchain⟩ := hforest key
  obtain ⟨above, hlink, hreach⟩ := Relation.TransGen.head'_iff.mp hcycle
  have hnodup := hchain.nodup
  cases hchain with
  | link hrest =>
    rw [show parent key = some above from hlink] at hrest
    exact (nodup_cons.mp hnodup).1 (hrest.mem_iff_reaches.mpr hreach)

theorem of_roots (hroots : ∀ key, parent key = none) : Forest parent := fun key =>
  ⟨[key], .link (by rw [hroots key]; exact .root)⟩

variable [DecidableEq κ]

/-- A link to a key whose walk does not meet the linked key keeps the forest. -/
theorem link {key above : κ} {chain : List κ} {parent' : κ → Option κ} (hforest : Forest parent)
    (hchain : Ancestry parent (some above) chain) (havoids : key ∉ chain)
    (hlinked : parent' key = some above) (hothers : ∀ other, other ≠ key → parent' other = parent other) :
    Forest parent' := by
  have habove : Ancestry parent' (some above) chain := hchain.congr fun other hother =>
    hothers other fun heq => havoids (heq ▸ hother)
  have hwalk : ∀ {start : Option κ} {old : List κ}, Ancestry parent start old →
      ∃ new, Ancestry parent' start new := by
    intro start old hold
    induction hold with
    | root => exact ⟨[], .root⟩
    | @link first rest _ ih =>
      obtain ⟨new, hnew⟩ := ih
      by_cases hfirst : first = key
      · subst hfirst
        exact ⟨_, .link (by rw [hlinked]; exact habove)⟩
      · exact ⟨_, .link (by rw [hothers first hfirst]; exact hnew)⟩
  intro other
  obtain ⟨old, hold⟩ := hforest other
  exact hwalk hold

end Forest

/-- The first keys of the walk, as many as the fuel allows. -/
def walk {κ : Type} (parent : κ → Option κ) : Nat → Option κ → List κ
  | 0, _ => []
  | _ + 1, none => []
  | fuel + 1, some key => key :: walk parent fuel (parent key)

theorem Ancestry.walk_eq {κ : Type} {parent : κ → Option κ} {start : Option κ} {chain : List κ}
    {fuel : Nat} (h : Ancestry parent start chain) (hfuel : chain.length ≤ fuel) :
    walk parent fuel start = chain := by
  induction h generalizing fuel with
  | root => cases fuel <;> rfl
  | @link first rest _ ih =>
    cases fuel with
    | zero => simp at hfuel
    | succ fuel =>
      rw [walk, ih (by simpa using hfuel)]

/-- The keys that have a parent bound the length of every walk. -/
theorem Ancestry.length_le {κ : Type} {parent : κ → Option κ} {start : Option κ}
    {chain linked : List κ} (h : Ancestry parent start chain)
    (hlinked : ∀ key, parent key ≠ none → key ∈ linked) : chain.length ≤ linked.length + 1 := by
  have hnodup : chain.dropLast.Nodup := h.nodup.sublist (dropLast_sublist chain)
  have hsubset : chain.dropLast ⊆ linked := fun key hkey => hlinked key (h.parents_of_dropLast hkey)
  have hle := (subperm_of_subset hnodup hsubset).length_le
  rw [length_dropLast] at hle
  omega

end DshKernel.Lib
