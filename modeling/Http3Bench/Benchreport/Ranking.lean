import Http3Bench.Benchreport.Markdown
import Http3Bench.Lib.StableSort

/-!
# The order of a ranked table

`SortReports` compares the rank keys of two reports as `float64`s. Where the keys are finite these
comparisons are the ones of the numbers they stand for, `rankedBefore` is the lexicographic order of
equally long key lists, and the rows come out sorted by it with ties in the order they had.
-/

namespace Http3Bench.Benchreport

open StableSort

/-- How `float64` compares finite values, of which `val` is the number they stand for; an integer
below `2^53` in magnitude is one of them. -/
structure Floats.Ordered (A : Floats) (finite : A.F → Prop) (val : A.F → ℚ) : Prop where
  eq : ∀ {x y}, finite x → finite y → (A.eq x y = true ↔ val x = val y)
  lt : ∀ {x y}, finite x → finite y → (A.lt x y = true ↔ val x < val y)
  finite_ofInt : ∀ i : ℤ, |i| < 2 ^ 53 → finite (A.ofInt i)
  val_ofInt : ∀ i : ℤ, |i| < 2 ^ 53 → val (A.ofInt i) = i

variable {A : Floats} {finite : A.F → Prop} {val : A.F → ℚ}

/-- The rank keys of a report are finite. -/
def Report.Finite (finite : A.F → Prop) : Report A.F → Prop
  | .connections r => |r.TPS| < 2 ^ 53
  | .benchEcho r => |r.TPS| < 2 ^ 53 ∧ finite r.CPUEER ∧ finite r.MEMEER
  | .benchRate r => |r.TPS| < 2 ^ 53 ∧ finite r.CPUEER ∧ finite r.MEMEER

/-- What a report is ranked by: its rate, then what the rate cost in CPU, then in memory. -/
def Report.keys (val : A.F → ℚ) : Report A.F → List ℚ
  | .connections r => [r.TPS]
  | .benchEcho r => [r.TPS, val r.CPUEER, val r.MEMEER]
  | .benchRate r => [r.TPS, val r.CPUEER, val r.MEMEER]

theorem rankKeys_connections (r : ConnectionsReport) :
    rankKeys A (.connections r) = [A.ofInt r.TPS] := rfl

theorem rankKeys_benchEcho (r : BenchEchoReport A.F) :
    rankKeys A (.benchEcho r) = [A.ofInt r.TPS, r.CPUEER, r.MEMEER] := rfl

theorem rankKeys_benchRate (r : BenchRateReport A.F) :
    rankKeys A (.benchRate r) = [A.ofInt r.TPS, r.CPUEER, r.MEMEER] := rfl

namespace Floats.Ordered

variable (hA : A.Ordered finite val)
include hA

theorem finite_rankKeys {r : Report A.F} (hr : r.Finite finite) : ∀ x ∈ rankKeys A r, finite x := by
  cases r with
  | connections r =>
    rw [rankKeys_connections]
    exact List.forall_mem_singleton.mpr (hA.finite_ofInt _ hr)
  | benchEcho r =>
    rw [rankKeys_benchEcho]
    have htps := hA.finite_ofInt _ hr.1
    simpa using ⟨htps, hr.2.1, hr.2.2⟩
  | benchRate r =>
    rw [rankKeys_benchRate]
    have htps := hA.finite_ofInt _ hr.1
    simpa using ⟨htps, hr.2.1, hr.2.2⟩

theorem map_rankKeys {r : Report A.F} (hr : r.Finite finite) : (rankKeys A r).map val = r.keys val := by
  cases r with
  | connections r => simp [rankKeys_connections, Report.keys, hA.val_ofInt _ hr]
  | benchEcho r => simp [rankKeys_benchEcho, Report.keys, hA.val_ofInt _ hr.1]
  | benchRate r => simp [rankKeys_benchRate, Report.keys, hA.val_ofInt _ hr.1]

/-- `rankedBefore` is the lexicographic order of the keys, the bigger one first. -/
theorem rankedBefore_iff {a b : List A.F} (hlen : a.length = b.length) (ha : ∀ x ∈ a, finite x)
    (hb : ∀ x ∈ b, finite x) : rankedBefore A a b = true ↔ b.map val < a.map val := by
  induction a generalizing b with
  | nil =>
    obtain rfl := List.length_eq_zero_iff.mp hlen.symm
    simp [rankedBefore]
  | cons x a ih =>
    cases b with
    | nil => cases hlen
    | cons y b =>
      have hx := ha x List.mem_cons_self
      have hy := hb y List.mem_cons_self
      have hrest := ih (Nat.succ.inj hlen) (fun z hz => ha z (List.mem_cons_of_mem _ hz))
        (fun z hz => hb z (List.mem_cons_of_mem _ hz))
      rw [rankedBefore, List.map_cons, List.map_cons, List.cons_lt_cons_iff]
      by_cases heq : A.eq x y = true
      · have hval := (hA.eq hx hy).mp heq
        rw [if_pos heq, hrest]
        simp [hval]
      · have hval : val x ≠ val y := fun h => heq ((hA.eq hx hy).mpr h)
        rw [if_neg heq, hA.lt hy hx]
        simp [hval.symm]

/-- The order of `SortReports` on two rows of one table. -/
theorem not_rankedBefore_iff {a b : Report A.F} (ha : a.Finite finite) (hb : b.Finite finite)
    (htyp : a.type = b.type) :
    ¬ rankedBefore A (rankKeys A b) (rankKeys A a) = true ↔ b.keys val ≤ a.keys val := by
  have hlen : (rankKeys A b).length = (rankKeys A a).length := by
    rw [length_rankKeys, length_rankKeys, htyp]
  rw [hA.rankedBefore_iff hlen (hA.finite_rankKeys hb) (hA.finite_rankKeys ha), hA.map_rankKeys ha,
    hA.map_rankKeys hb, not_lt]

end Floats.Ordered

/-- A table ranked by its results: every row, its keys at least the next one's, rows that tie on all
of them in the order they had, and nothing left to sort. `rankedBefore` is a strict weak order. -/
theorem sortReports_ranks (hA : A.Ordered finite val) :
    (∀ a b c : List A.F, a.length = b.length → b.length = c.length →
      (∀ x ∈ a, finite x) → (∀ x ∈ b, finite x) → (∀ x ∈ c, finite x) →
      ¬ rankedBefore A a a ∧
      (rankedBefore A a b → rankedBefore A b c → rankedBefore A a c) ∧
      (¬ rankedBefore A a b → ¬ rankedBefore A b c → ¬ rankedBefore A a c)) ∧
    ∀ (typ : ReportType) (reports : List (Report A.F)), (∀ r ∈ reports, r.type = typ) →
      (∀ r ∈ reports, r.Finite finite) →
      (sortReports A reports .result).Perm reports ∧
      (sortReports A reports .result).Pairwise (fun a b => b.keys val ≤ a.keys val) ∧
      (∀ k, (sortReports A reports .result).filter (fun r => r.keys val = k) =
        reports.filter (fun r => r.keys val = k)) ∧
      sortReports A (sortReports A reports .result) .result = sortReports A reports .result := by
  constructor
  · intro a b c hab hbc ha hb hc
    rw [hA.rankedBefore_iff rfl ha ha, hA.rankedBefore_iff hab ha hb, hA.rankedBefore_iff hbc hb hc,
      hA.rankedBefore_iff (hab.trans hbc) ha hc]
    refine ⟨lt_irrefl _, fun h h' => h'.trans h, fun h h' => ?_⟩
    rw [not_lt] at h h' ⊢
    exact h.trans h'
  · intro typ reports htyp hfin
    have hagree : ∀ a ∈ reports, ∀ b ∈ reports,
        ¬ rankedBefore A (rankKeys A b) (rankKeys A a) = true ↔ b.keys val ≤ a.keys val :=
      fun a ha b hb => hA.not_rankedBefore_iff (hfin a ha) (hfin b hb)
        ((htyp a ha).trans (htyp b hb).symm)
    have hsort : IsStableSort (Report.keys val) reports (sortReports A reports .result) :=
      isStableSort_insertionSort hagree
    refine ⟨hsort.perm, hsort.sorted, fun k => ?_, hsort.insertionSort_eq hagree⟩
    convert hsort.stable k

theorem ordered_exact : exact.Ordered (fun _ => True) id where
  eq := fun _ _ => exact_eq _ _
  lt := fun _ _ => exact_lt _ _
  finite_ofInt := fun _ _ => trivial
  val_ofInt := fun _ _ => rfl

/-- Two rows with one rate, of which the costly one was read first. -/
theorem sortReports_ranks_tied :
    (sortReports exact tiedReports .result).Perm tiedReports ∧
      (sortReports exact tiedReports .result).map (Report.keys id) = [[300, 50, 20], [300, 5, 900]] := by
  have h := (sortReports_ranks ordered_exact).2 .benchEcho tiedReports
    (List.forall_mem_cons.mpr ⟨rfl, List.forall_mem_singleton.mpr rfl⟩)
    (List.forall_mem_cons.mpr ⟨⟨by decide, trivial, trivial⟩,
      List.forall_mem_singleton.mpr ⟨by decide, trivial, trivial⟩⟩)
  exact ⟨h.1, by decide +kernel⟩

end Http3Bench.Benchreport
