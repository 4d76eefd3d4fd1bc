import Mathlib.Order.SuccPred.Basic

/-!
# Covering an interval

A list of closed intervals, sorted by where they start, read once with the next point that is not yet
covered. The point left at the end is the first of the interval that none of them has.
-/

namespace Coverage

variable {α : Type*} [LinearOrder α] [SuccOrder α]

/-- One interval: the next uncovered point moves past it if it is in it. -/
def advance (need : α) (r : α × α) : α :=
  if r.1 ≤ need ∧ need ≤ r.2 then Order.succ r.2 else need

/-- The next uncovered point after a list of intervals. -/
def scan (need : α) (l : List (α × α)) : α := l.foldl advance need

variable {need p : α} {l : List (α × α)}

theorem le_advance (need : α) (r : α × α) : need ≤ advance need r := by
  unfold advance
  split
  · rename_i h
    exact h.2.trans (Order.le_succ r.2)
  · exact le_rfl

theorem le_scan (need : α) (l : List (α × α)) : need ≤ scan need l := by
  induction l generalizing need with
  | nil => exact le_rfl
  | cons r l ih => exact (le_advance need r).trans (ih _)

/-- Every point that is passed is covered. -/
theorem covered_of_lt_scan (hp : need ≤ p) (hlt : p < scan need l) : ∃ r ∈ l, r.1 ≤ p ∧ p ≤ r.2 := by
  induction l generalizing need with
  | nil => exact absurd hlt (not_lt.mpr hp)
  | cons r l ih =>
    by_cases hpast : advance need r ≤ p
    · obtain ⟨r', hr', h⟩ := ih hpast hlt
      exact ⟨r', List.mem_cons_of_mem _ hr', h⟩
    · refine ⟨r, List.mem_cons_self, ?_⟩
      unfold advance at hpast
      split at hpast
      · rename_i h
        exact ⟨h.1.trans hp, Order.le_of_lt_succ (not_le.mp hpast)⟩
      · exact absurd hp hpast

/-- Intervals that start later leave the point where it is. -/
theorem scan_eq_of_lt (h : ∀ r ∈ l, need < r.1) : scan need l = need := by
  induction l with
  | nil => rfl
  | cons r l ih =>
    have hr : advance need r = need := if_neg (fun h' => absurd h'.1 (not_le.mpr (h r List.mem_cons_self)))
    rw [scan, List.foldl_cons, hr]
    exact ih (fun r' hr' => h r' (List.mem_cons_of_mem _ hr'))

variable [NoMaxOrder α]

/-- The point that is left is not covered. -/
theorem scan_not_covered (hsorted : l.Pairwise (fun a b => a.1 ≤ b.1)) (need : α) :
    ∀ r ∈ l, ¬ (r.1 ≤ scan need l ∧ scan need l ≤ r.2) := by
  induction l generalizing need with
  | nil => exact fun r hr => (by cases hr)
  | cons r l ih =>
    obtain ⟨hstart, hsorted⟩ := List.pairwise_cons.mp hsorted
    intro r' hr'
    rcases List.mem_cons.mp hr' with rfl | hr'
    · rintro ⟨hlo, hhi⟩
      have hle : advance need r' ≤ scan need (r' :: l) := le_scan _ l
      by_cases hin : r'.1 ≤ need ∧ need ≤ r'.2
      · rw [advance, if_pos hin] at hle
        exact absurd (Order.succ_le_iff.mp (hle.trans hhi)) (lt_irrefl _)
      · have hadv : advance need r' = need := if_neg hin
        rw [hadv] at hle
        -- the interval starts after the point, and so do all that follow
        have hlater : need < r'.1 := not_le.mp (fun h => hin ⟨h, hle.trans hhi⟩)
        have hstay : scan need (r' :: l) = need := by
          rw [scan, List.foldl_cons, hadv]
          exact scan_eq_of_lt (fun r'' hr'' => hlater.trans_le (hstart r'' hr''))
        exact absurd (hstay ▸ hlo) (not_le.mpr hlater)
    · exact ih hsorted _ r' hr'

/-- Reading the intervals decides whether they cover all of `first` to `last`. -/
theorem lt_scan_iff (hsorted : l.Pairwise (fun a b => a.1 ≤ b.1)) (first last : α) :
    last < scan first l ↔ ∀ p, first ≤ p → p ≤ last → ∃ r ∈ l, r.1 ≤ p ∧ p ≤ r.2 := by
  constructor
  · intro h p hfirst hlast
    exact covered_of_lt_scan hfirst (hlast.trans_lt h)
  · intro h
    by_contra hle
    obtain ⟨r, hr, hin⟩ := h _ (le_scan first l) (not_lt.mp hle)
    exact scan_not_covered hsorted first r hr hin

end Coverage
