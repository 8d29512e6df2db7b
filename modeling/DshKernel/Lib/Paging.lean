import Mathlib.Data.List.Basic

/-!
# Reading a list page by page

A page is asked for by an offset and a limit. One item more than the limit is fetched, to tell
whether another page follows.
-/

namespace DshKernel.Lib

open List

variable {α : Type}

/-- What one request for a page reads. -/
structure Window (α : Type) where
  all : List α
  offset : Nat
  limit : Nat

namespace Window

variable {first page next : Window α} {rest : List (Window α)}

/-- `LIMIT` one more than the limit, from the offset on -/
def fetched (page : Window α) : List α := (page.all.drop page.offset).take (page.limit + 1)

def items (page : Window α) : List α := page.fetched.take page.limit

def hasMore (page : Window α) : Bool := decide (page.limit < page.fetched.length)

def stop (page : Window α) : Nat := page.offset + page.limit

/-- The next page of the same list. -/
structure Continues (page next : Window α) : Prop where
  all_eq : next.all = page.all
  offset_eq : next.offset = page.stop

theorem items_eq (page : Window α) : page.items = (page.all.drop page.offset).take page.limit := by
  rw [items, fetched, take_take, Nat.min_eq_left (Nat.le_succ _)]

theorem hasMore_iff (page : Window α) : page.hasMore = true ↔ page.stop < page.all.length := by
  unfold hasMore fetched stop
  rw [decide_eq_true_iff, length_take, length_drop]
  omega

theorem take_append_items (page : Window α) :
    page.all.take page.offset ++ page.items = page.all.take page.stop := by
  rw [items_eq, stop, take_add]

theorem all_eq_of_chain (hchain : (first :: rest).IsChain Continues) :
    ∀ page ∈ first :: rest, page.all = first.all := by
  induction rest generalizing first with
  | nil =>
    intro page hmem
    rw [mem_singleton.mp hmem]
  | cons next rest ih =>
    obtain ⟨hnext, htail⟩ := isChain_cons_cons.mp hchain
    intro page hmem
    rcases mem_cons.mp hmem with heq | hmem
    · rw [heq]
    · rw [ih htail page hmem, hnext.all_eq]

/-- The pages of a chain, after what lies before the first, are the list up to where the last
page stops. -/
theorem take_append_pages (hchain : (first :: rest).IsChain Continues) :
    first.all.take first.offset ++ (first :: rest).flatMap items =
      first.all.take ((first :: rest).getLast (cons_ne_nil _ _)).stop := by
  induction rest generalizing first with
  | nil =>
    rw [flatMap_singleton, getLast_singleton]
    exact take_append_items first
  | cons next rest ih =>
    obtain ⟨hnext, htail⟩ := isChain_cons_cons.mp hchain
    have hrest := ih htail
    rw [hnext.all_eq, hnext.offset_eq] at hrest
    rw [flatMap_cons, ← append_assoc, take_append_items, hrest, getLast_cons_cons]

/-- From the start to a page that nothing follows, the pages are the whole list. -/
theorem pages_eq_all (hchain : (first :: rest).IsChain Continues) (hoffset : first.offset = 0)
    (hlast : ((first :: rest).getLast (cons_ne_nil _ _)).hasMore = false) :
    (first :: rest).flatMap items = first.all := by
  have hpages := take_append_pages hchain
  have hall := all_eq_of_chain hchain _ (getLast_mem (cons_ne_nil first rest))
  have hstop : ¬ ((first :: rest).getLast (cons_ne_nil _ _)).stop < first.all.length := by
    intro hlt
    rw [← hall] at hlt
    rw [(hasMore_iff _).mpr hlt] at hlast
    exact Bool.noConfusion hlast
  rw [hoffset, take_zero, nil_append, take_of_length_le (Nat.le_of_not_lt hstop)]
    at hpages
  exact hpages

end Window

end DshKernel.Lib
