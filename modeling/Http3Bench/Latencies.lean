import Mathlib.Tactic
import Mathlib.Algebra.BigOperators.Group.List.Basic

/-!
# Latency records

`Latencies` of `benchcli-rust/src/stats.rs`: one cost per success, and the failures counted by
their error text. `errors` is the hash map as an association list; only its lookups and the sum
of its counts are ever read.
-/

namespace Http3Bench

structure Latencies where
  /-- One entry per successful operation, in nanoseconds. -/
  costs : List ℤ := []
  success : ℤ := 0
  failed : ℤ := 0
  errors : List (String × ℕ) := []
  deriving DecidableEq

namespace Latencies

/-- `*errors.entry(k).or_default() += v`. -/
def bump (k : String) (v : ℕ) : List (String × ℕ) → List (String × ℕ)
  | [] => [(k, v)]
  | (k', v') :: rest => if k' = k then (k', v' + v) :: rest else (k', v') :: bump k v rest

def ok (l : Latencies) (cost : ℕ) : Latencies :=
  { l with costs := l.costs ++ [(cost : ℤ)], success := l.success + 1 }

def fail (l : Latencies) (err : String) : Latencies :=
  { l with failed := l.failed + 1, errors := bump err 1 l.errors }

def merge (l other : Latencies) : Latencies where
  costs := l.costs ++ other.costs
  success := l.success + other.success
  failed := l.failed + other.failed
  errors := other.errors.foldl (fun acc kv => bump kv.1 kv.2 acc) l.errors

def errorCount (l : Latencies) : ℕ := (l.errors.map Prod.snd).sum

/-- Every success has its cost and every failure its error. -/
structure Counted (l : Latencies) : Prop where
  costs : (l.costs.length : ℤ) = l.success
  errors : (l.errorCount : ℤ) = l.failed

theorem sum_bump (k : String) (v : ℕ) (e : List (String × ℕ)) :
    ((bump k v e).map Prod.snd).sum = (e.map Prod.snd).sum + v := by
  induction e with
  | nil => simp [bump]
  | cons kv rest ih =>
    obtain ⟨k', v'⟩ := kv
    by_cases h : k' = k
    · simp only [bump, if_pos h, List.map_cons, List.sum_cons]
      omega
    · simp only [bump, if_neg h, List.map_cons, List.sum_cons, ih]
      omega

theorem sum_foldl_bump (es acc : List (String × ℕ)) :
    ((es.foldl (fun acc kv => bump kv.1 kv.2 acc) acc).map Prod.snd).sum =
      (acc.map Prod.snd).sum + (es.map Prod.snd).sum := by
  induction es generalizing acc with
  | nil => simp
  | cons kv rest ih =>
    rw [List.foldl_cons, ih, sum_bump, List.map_cons, List.sum_cons]
    omega

theorem counted_default : Counted {} := ⟨rfl, rfl⟩

theorem Counted.ok {l : Latencies} (h : l.Counted) (cost : ℕ) : (l.ok cost).Counted where
  costs := by simp [Latencies.ok, h.costs]
  errors := h.errors

theorem Counted.fail {l : Latencies} (h : l.Counted) (err : String) : (l.fail err).Counted where
  costs := h.costs
  errors := by
    have := h.errors
    simp only [errorCount, Latencies.fail, sum_bump] at this ⊢
    omega

theorem Counted.merge {l other : Latencies} (h : l.Counted) (ho : other.Counted) :
    (l.merge other).Counted where
  costs := by simp [Latencies.merge, h.costs, ho.costs]
  errors := by
    have h1 := h.errors
    have h2 := ho.errors
    simp only [errorCount, Latencies.merge, sum_foldl_bump] at h1 h2 ⊢
    omega

end Latencies
end Http3Bench
