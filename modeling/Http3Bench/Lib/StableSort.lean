import Mathlib.Data.List.Lex
import Mathlib.Data.List.Sort

/-!
# Stable sorts by a key

A list sorted by a key, the biggest first, in which elements with equal keys stand in the order they
had. Insertion is such a sort wherever its order agrees with the order of the keys.
-/

namespace StableSort

variable {α κ : Type} [LinearOrder κ]

structure IsStableSort (key : α → κ) (l out : List α) : Prop where
  perm : out.Perm l
  sorted : out.Pairwise (fun a b => key b ≤ key a)
  stable : ∀ k, out.filter (fun a => key a = k) = l.filter (fun a => key a = k)

variable {key : α → κ} {r : α → α → Prop} [DecidableRel r] {l : List α}

theorem orderedInsert_congr {s : α → α → Prop} [DecidableRel s] {a : α}
    (h : ∀ b ∈ l, r a b ↔ s a b) : l.orderedInsert r a = l.orderedInsert s a := by
  induction l with
  | nil => rfl
  | cons b l ih =>
    have hb := h b List.mem_cons_self
    have hrest := ih (fun c hc => h c (List.mem_cons_of_mem _ hc))
    by_cases hab : r a b
    · rw [List.orderedInsert_cons_of_le r l hab, List.orderedInsert_cons_of_le s l (hb.mp hab)]
    · rw [List.orderedInsert_of_not_le r l hab,
        List.orderedInsert_of_not_le s l (fun hs => hab (hb.mpr hs)), hrest]

theorem insertionSort_congr {s : α → α → Prop} [DecidableRel s]
    (h : ∀ a ∈ l, ∀ b ∈ l, r a b ↔ s a b) : l.insertionSort r = l.insertionSort s := by
  induction l with
  | nil => rfl
  | cons a l ih =>
    rw [List.insertionSort_cons, List.insertionSort_cons,
      ih (fun b hb c hc => h b (List.mem_cons_of_mem _ hb) c (List.mem_cons_of_mem _ hc))]
    apply orderedInsert_congr
    intro b hb
    exact h a List.mem_cons_self b (List.mem_cons_of_mem _ ((List.mem_insertionSort s).mp hb))

/-- A part of the list that ties stays together, in its order. -/
theorem filter_insertionSort (hr : ∀ a b, key a = key b → r a b) (k : κ) :
    (l.insertionSort r).filter (fun a => key a = k) = l.filter (fun a => key a = k) := by
  have htie : (l.filter (fun a => key a = k)).Pairwise r := by
    refine List.pairwise_of_forall_mem_list (fun a ha b hb => hr a b ?_)
    have hka := of_decide_eq_true (List.mem_filter.mp ha).2
    have hkb := of_decide_eq_true (List.mem_filter.mp hb).2
    exact hka.trans hkb.symm
  have hsub := (List.sublist_insertionSort htie List.filter_sublist).filter (fun a => key a = k)
  rw [List.filter_filter] at hsub
  simp only [Bool.and_self] at hsub
  have hperm := (List.perm_insertionSort r l).filter (fun a => key a = k)
  exact (hsub.eq_of_length hperm.length_eq.symm).symm

theorem isStableSort_insertionSort (h : ∀ a ∈ l, ∀ b ∈ l, r a b ↔ key b ≤ key a) :
    IsStableSort key l (l.insertionSort r) := by
  rw [insertionSort_congr h]
  have : Std.Total (fun a b : α => key b ≤ key a) := ⟨fun a b => le_total (key b) (key a)⟩
  have : IsTrans α (fun a b : α => key b ≤ key a) := ⟨fun a b c hab hbc => hbc.trans hab⟩
  refine ⟨List.perm_insertionSort _ l, List.pairwise_insertionSort _ l, fun k => ?_⟩
  exact filter_insertionSort (fun a b hab => hab.ge) k

/-- Sorting again changes nothing. -/
theorem IsStableSort.insertionSort_eq {out : List α} (hs : IsStableSort key l out)
    (h : ∀ a ∈ l, ∀ b ∈ l, r a b ↔ key b ≤ key a) : out.insertionSort r = out := by
  apply List.Pairwise.insertionSort_eq
  refine hs.sorted.imp_of_mem (fun ha hb hab => ?_)
  exact (h _ (hs.perm.subset ha) _ (hs.perm.subset hb)).mpr hab

end StableSort
