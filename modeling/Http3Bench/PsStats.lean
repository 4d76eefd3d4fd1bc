import Http3Bench.PsSource
import Mathlib.Data.List.Sort
import Mathlib.Tactic.Linarith

/-!
# The order of the CPU and MEM columns

Minimum, average and maximum of `stats` are taken over different samples: the first sample is left
out of the average and of the smallest CPU, and the memory minimum is the second smallest sample.
-/

namespace Http3Bench

section Cpu

variable {cpu : List ℚ}

theorem cpuMin_eq (s : PsStats) (x y : ℚ) (rest : List ℚ)
    (hmax : ∀ c ∈ y :: rest, c ≤ f64Max) :
    (cpuStats s (x :: y :: rest)).cpuMin ∈ y :: rest ∧
      ∀ c ∈ y :: rest, (cpuStats s (x :: y :: rest)).cpuMin ≤ c := by
  have hne : y :: rest ≠ [] := List.cons_ne_nil y rest
  have hmem := List.min_mem hne
  have hmin : (cpuStats s (x :: y :: rest)).cpuMin = (y :: rest).min hne := by
    rw [cpuStats, List.foldl_min_eq_min hne, min_eq_right (hmax _ hmem)]
  rw [hmin]
  exact ⟨hmem, fun c hc => List.min_le_of_mem hc⟩

theorem cpuMax_eq (s : PsStats) (x y : ℚ) (rest : List ℚ)
    (hpos : ∀ c ∈ x :: y :: rest, 0 ≤ c) :
    (cpuStats s (x :: y :: rest)).cpuMax ∈ x :: y :: rest ∧
      ∀ c ∈ x :: y :: rest, c ≤ (cpuStats s (x :: y :: rest)).cpuMax := by
  have hne : x :: y :: rest ≠ [] := List.cons_ne_nil x _
  have hmem := List.max_mem hne
  have hmax : (cpuStats s (x :: y :: rest)).cpuMax = (x :: y :: rest).max hne := by
    rw [cpuStats, List.foldl_max_eq_max hne, max_eq_right (hpos _ hmem)]
  rw [hmax]
  exact ⟨hmem, fun c hc => List.le_max_of_mem hc⟩

/-- Smallest, mean and largest CPU sample, with the first one left out of the first two. -/
theorem cpuStats_ordered (s : PsStats) (hne : cpu ≠ [])
    (hrange : ∀ c ∈ cpu, 0 ≤ c ∧ c ≤ f64Max) :
    (cpuStats s cpu).cpuMin ≤ (cpuStats s cpu).cpuAvg ∧
      (cpuStats s cpu).cpuAvg ≤ (cpuStats s cpu).cpuMax ∧
      (cpuStats s cpu).cpuMin ∈ cpu ∧ (cpuStats s cpu).cpuMax ∈ cpu := by
  match cpu, hne with
  | [x], _ => exact ⟨le_rfl, le_rfl, List.mem_cons_self .., List.mem_cons_self ..⟩
  | x :: y :: rest, _ =>
    obtain ⟨hmem, hmin⟩ := cpuMin_eq s x y rest
      (fun c hc => (hrange c (List.mem_cons_of_mem _ hc)).2)
    obtain ⟨hmem', hmax⟩ := cpuMax_eq s x y rest
      (fun c hc => (hrange c hc).1)
    have hlen : (0 : ℚ) < ((y :: rest).length : ℚ) := by
      exact_mod_cast Nat.succ_pos rest.length
    have hlow := List.card_nsmul_le_sum (y :: rest) _ hmin
    have hhigh := List.sum_le_card_nsmul (y :: rest) _
      (fun c hc => hmax c (List.mem_cons_of_mem _ hc))
    rw [nsmul_eq_mul] at hlow hhigh
    refine ⟨?_, ?_, List.mem_cons_of_mem _ hmem, hmem'⟩
    · change _ ≤ (y :: rest).sum / _
      rw [le_div_iff₀ hlen]
      linarith
    · change (y :: rest).sum / _ ≤ _
      rw [div_le_iff₀ hlen]
      linarith

end Cpu

section Mem

variable {rss : List ℕ}

/-- Where the memory figures of a series of two or more samples come from. -/
theorem memStats_sorted (s : PsStats) (x y : ℕ) (rest : List ℕ) :
    ∃ a b tail, (a :: b :: tail).Pairwise (· ≤ ·) ∧ (a :: b :: tail).Perm (x :: y :: rest) ∧
      (memStats s (x :: y :: rest)).memMin = b ∧
      (memStats s (x :: y :: rest)).memMax = (b :: tail).getLast (List.cons_ne_nil b tail) := by
  have hperm : (x :: y :: rest).mergeSort.Perm (x :: y :: rest) := List.mergeSort_perm _ _
  have hsorted : (x :: y :: rest).mergeSort.Pairwise (· ≤ ·) := List.pairwise_mergeSort' _ _
  have hmin : (memStats s (x :: y :: rest)).memMin = (x :: y :: rest).mergeSort.getD 1 0 := rfl
  have hmax : (memStats s (x :: y :: rest)).memMax = (x :: y :: rest).mergeSort.getLastD 0 := rfl
  generalize (x :: y :: rest).mergeSort = sorted at hperm hsorted hmin hmax
  match sorted, hperm.length_eq with
  | a :: b :: tail, _ => exact ⟨a, b, tail, hsorted, hperm, hmin, hmax⟩

theorem le_getLast_of_pairwise {l : List ℕ} (h : l.Pairwise (· ≤ ·)) (hne : l ≠ []) {m : ℕ}
    (hm : m ∈ l) : m ≤ l.getLast hne := by
  obtain ⟨pre, z, rfl⟩ := (List.eq_nil_or_concat l).resolve_left hne
  rw [List.concat_eq_append] at h hm
  rcases List.mem_append.mp hm with hm | hm
  · simpa using (List.pairwise_append.mp h).2.2 m hm z (by simp)
  · simp [List.mem_singleton.mp hm]

theorem memAvg_eq (s : PsStats) {x y : ℕ} {rest : List ℕ} (hsum : (x :: y :: rest).sum < 2 ^ 64) :
    (memStats s (x :: y :: rest)).memAvg = (y :: rest).sum / (y :: rest).length := by
  have hless : (y :: rest).sum < 2 ^ 64 := by
    rw [List.sum_cons] at hsum
    omega
  exact congrArg (· / (y :: rest).length) (Nat.mod_eq_of_lt hless)

/-- The mean is at least the smallest of the samples, also with the first one left out. -/
theorem min_le_memAvg (s : PsStats) (hne : rss ≠ []) (hsum : rss.sum < 2 ^ 64) :
    rss.min hne ≤ (memStats s rss).memAvg := by
  match rss, hne with
  | [x], _ => exact List.min_le_of_mem (List.mem_cons_self ..)
  | x :: y :: rest, hne =>
    have hlen : 0 < (y :: rest).length := Nat.succ_pos rest.length
    rw [memAvg_eq s hsum, Nat.le_div_iff_mul_le hlen, Nat.mul_comm]
    exact List.card_nsmul_le_sum (y :: rest) _
      (fun m hm => List.min_le_of_mem (List.mem_cons_of_mem x hm))

/-- Second smallest, mean and largest memory sample, with the first one left out of the mean. -/
theorem memStats_ordered (s : PsStats) (hne : rss ≠ []) (hsum : rss.sum < 2 ^ 64) :
    (memStats s rss).memMin ≤ (memStats s rss).memMax ∧
      (memStats s rss).memAvg ≤ (memStats s rss).memMax ∧
      (memStats s rss).memMin ∈ rss ∧ (memStats s rss).memMax ∈ rss ∧
      ((∀ m ∈ rss, rss.headD 0 ≤ m) → (memStats s rss).memMin ≤ (memStats s rss).memAvg) := by
  match rss, hne with
  | [x], _ =>
    exact ⟨le_rfl, le_rfl, List.mem_cons_self .., List.mem_cons_self .., fun _ => le_rfl⟩
  | x :: y :: rest, _ =>
    obtain ⟨a, b, tail, hsorted, hperm, hmin, hmax⟩ := memStats_sorted s x y rest
    have htail := (List.pairwise_cons.mp hsorted).2
    have hlast : ∀ m ∈ x :: y :: rest, m ≤ (b :: tail).getLast (List.cons_ne_nil b tail) := by
      intro m hm
      have hle := le_getLast_of_pairwise hsorted (List.cons_ne_nil a _) (hperm.mem_iff.mpr hm)
      rwa [List.getLast_cons (List.cons_ne_nil b tail)] at hle
    rw [hmin, hmax, memAvg_eq s hsum]
    refine ⟨?_, ?_, hperm.mem_iff.mp (by simp), hperm.mem_iff.mp ?_, ?_⟩
    · exact le_getLast_of_pairwise htail _ (List.mem_cons_self ..)
    · apply Nat.div_le_of_le_mul
      exact List.sum_le_card_nsmul (y :: rest) _ (fun m hm => hlast m (List.mem_cons_of_mem _ hm))
    · exact List.mem_cons_of_mem _ (List.getLast_mem _)
    · intro hfirst
      -- the first sample is the smallest, so the second smallest is the smallest of the others
      have hax : a = x := by
        have hle : x ≤ a := hfirst a (hperm.mem_iff.mp (List.mem_cons_self ..))
        rcases List.mem_cons.mp (hperm.mem_iff.mpr (List.mem_cons_self ..)) with heq | hmem
        · exact heq.symm
        · exact le_antisymm ((List.pairwise_cons.mp hsorted).1 x hmem) hle
      rw [hax] at hperm
      have hothers : (b :: tail).Perm (y :: rest) := hperm.cons_inv
      have hle : ∀ m ∈ y :: rest, b ≤ m := by
        intro m hm
        rcases List.mem_cons.mp (hothers.mem_iff.mpr hm) with rfl | hmem
        · exact le_rfl
        · exact (List.pairwise_cons.mp htail).1 m hmem
      have hlen : 0 < (y :: rest).length := Nat.succ_pos rest.length
      rw [Nat.le_div_iff_mul_le hlen, Nat.mul_comm]
      exact List.card_nsmul_le_sum (y :: rest) b hle

end Mem

theorem cpu_stats (cpu : List ℚ) (rss : List ℕ) :
    (stats cpu rss).cpuMin = (cpuStats {} cpu).cpuMin ∧
      (stats cpu rss).cpuAvg = (cpuStats {} cpu).cpuAvg ∧
      (stats cpu rss).cpuMax = (cpuStats {} cpu).cpuMax := by
  match rss with
  | [] => exact ⟨rfl, rfl, rfl⟩
  | [_] => exact ⟨rfl, rfl, rfl⟩
  | _ :: _ :: _ => exact ⟨rfl, rfl, rfl⟩

/-- The order of the figures `stats` reports. -/
theorem stats_ordered {cpu : List ℚ} {rss : List ℕ} (hcpu : cpu ≠ []) (hrss : rss ≠ [])
    (hrange : ∀ c ∈ cpu, 0 ≤ c ∧ c ≤ f64Max) (hsum : rss.sum < 2 ^ 64) :
    ((stats cpu rss).cpuMin ≤ (stats cpu rss).cpuAvg ∧
      (stats cpu rss).cpuAvg ≤ (stats cpu rss).cpuMax ∧
      (stats cpu rss).cpuMin ∈ cpu ∧ (stats cpu rss).cpuMax ∈ cpu) ∧
    (stats cpu rss).memMin ≤ (stats cpu rss).memMax ∧
    (stats cpu rss).memAvg ≤ (stats cpu rss).memMax ∧
    (stats cpu rss).memMin ∈ rss ∧ (stats cpu rss).memMax ∈ rss ∧
    rss.min hrss ≤ (stats cpu rss).memAvg ∧
    ((∀ m ∈ rss, rss.headD 0 ≤ m) → (stats cpu rss).memMin ≤ (stats cpu rss).memAvg) := by
  obtain ⟨hminMax, havgMax, hminMem, hmaxMem, hfirst⟩ :=
    memStats_ordered (cpuStats {} cpu) hrss hsum
  refine ⟨?_, hminMax, havgMax, hminMem, hmaxMem, min_le_memAvg _ hrss hsum, hfirst⟩
  obtain ⟨hmin, havg, hmax⟩ := cpu_stats cpu rss
  rw [hmin, havg, hmax]
  exact cpuStats_ordered {} hcpu hrange

theorem stats_ordered_three :
    (stats [500, 100, 300] [10, 30, 20]).memMin ≤ (stats [500, 100, 300] [10, 30, 20]).memAvg ∧
      (stats [500, 100, 300] [10, 30, 20]).cpuMin ∈ ([500, 100, 300] : List ℚ) ∧
      10 ≤ (stats [500, 100, 300] [30, 10, 20]).memAvg := by
  have h := @stats_ordered [500, 100, 300] [10, 30, 20] (by decide) (by decide) (by decide +kernel)
    (by decide)
  have h' := @stats_ordered [500, 100, 300] [30, 10, 20] (by decide) (by decide) (by decide +kernel)
    (by decide)
  exact ⟨h.2.2.2.2.2.2 (by decide), h.1.2.2.1, h'.2.2.2.2.2.1⟩

/-- The largest sample first: the second smallest of all is above the mean of the others. -/
theorem stats_memMin_above_memAvg :
    (∀ c ∈ ([1] : List ℚ), 0 ≤ c ∧ c ≤ f64Max) ∧ ([30, 10, 20] : List ℕ).sum < 2 ^ 64 ∧
      ¬ (stats [1] [30, 10, 20]).memMin ≤ (stats [1] [30, 10, 20]).memAvg := by
  have hsort : ([30, 10, 20] : List ℕ).mergeSort = [10, 20, 30] :=
    List.Perm.eq_of_pairwise' (List.pairwise_mergeSort' _ _) (by decide)
      ((List.mergeSort_perm _ _).trans (by decide))
  have hmin : (stats [1] [30, 10, 20]).memMin = ([30, 10, 20] : List ℕ).mergeSort.getD 1 0 := rfl
  have havg : (stats [1] [30, 10, 20]).memAvg = 15 := rfl
  rw [hmin, hsort, havg]
  decide +kernel

end Http3Bench
