import Mathlib.Data.Prod.Lex
import Mathlib.Data.List.Sort

/-!
# A heap of pairs

A binary heap, as the list of its entries in the order they are popped: by the first component, and
by the second where the first is the same.
-/

namespace Heap

variable {α β : Type*} [LinearOrder α] [LinearOrder β]

/-- `a` is popped no later than `b`. -/
def Before (a b : α × β) : Prop := a.1 < b.1 ∨ (a.1 = b.1 ∧ a.2 ≤ b.2)

theorem before_iff {a b : α × β} : Before a b ↔ toLex a ≤ toLex b :=
  (Prod.Lex.toLex_le_toLex ..).symm

theorem Before.fst_le {a b : α × β} (h : Before a b) : a.1 ≤ b.1 :=
  h.elim (fun h => h.le) (fun h => h.1.le)

instance : IsTrans (α × β) Before :=
  ⟨fun _ _ _ hab hbc => before_iff.mpr ((before_iff.mp hab).trans (before_iff.mp hbc))⟩

instance : Std.Total (Before (α := α) (β := β)) :=
  ⟨fun a b => (le_total (toLex a) (toLex b)).imp before_iff.mpr before_iff.mpr⟩

/-- An entry that is pushed goes to its place. -/
theorem pairwise_orderedInsert {r : α × β → α × β → Prop} [DecidableRel r] (hr : r = Before)
    {l : List (α × β)} (h : l.Pairwise r) (t : α × β) : (l.orderedInsert r t).Pairwise r := by
  subst hr
  exact h.orderedInsert t l

omit [LinearOrder α] [LinearOrder β] in
/-- The entries of one kind are not touched by a push of another. -/
theorem filter_orderedInsert {r : α × β → α × β → Prop} [DecidableRel r] {p : α × β → Bool}
    {t : α × β} (h : p t = false) (l : List (α × β)) :
    (l.orderedInsert r t).filter p = l.filter p := by
  rw [List.orderedInsert_eq_take_drop, List.filter_append, List.filter_cons_of_neg (by simp [h]),
    ← List.filter_append, List.takeWhile_append_dropWhile]

omit [LinearOrder β] in
/-- The first entry of a list in order is the earliest. -/
theorem head_le {l : List (α × β)} (h : l.Pairwise (fun a b => a.1 ≤ b.1)) {y : α × β} (hy : y ∈ l) :
    ∃ t, l.head?.map Prod.fst = some t ∧ t ≤ y.1 := by
  cases l with
  | nil => cases hy
  | cons a l =>
    refine ⟨a.1, rfl, ?_⟩
    rcases List.mem_cons.mp hy with rfl | hy
    · exact le_rfl
    · exact (List.pairwise_cons.mp h).1 y hy

end Heap
