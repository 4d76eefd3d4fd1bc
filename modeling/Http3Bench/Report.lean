import Http3Bench.PsSource
import Http3Bench.Summary

/-!
# The reports the client writes

The three structs of `benchcli-rust/src/report.rs` with the fields they are written with. Quotients
are exact.
-/

namespace Http3Bench

abbrev Str := List Char

/-- `n as i64`. -/
def asI64 (n : ℕ) : ℤ := Int.bmod n (2 ^ 64)

structure ConnectionsReport where
  framework : Str
  benchClient : Str
  threads : ℕ
  tps : ℤ
  min : ℤ
  avg : ℤ
  max : ℤ
  tp50 : ℤ
  tp75 : ℤ
  tp90 : ℤ
  tp95 : ℤ
  tp99 : ℤ
  used : ℤ
  total : ℕ
  success : ℤ
  failed : ℤ
  concurrency : ℕ
  deriving DecidableEq

structure BenchEchoReport where
  framework : Str
  benchClient : Str
  threads : ℕ
  tps : ℤ
  cpuEer : ℚ
  memEer : ℚ
  min : ℤ
  avg : ℤ
  max : ℤ
  tp50 : ℤ
  tp75 : ℤ
  tp90 : ℤ
  tp95 : ℤ
  tp99 : ℤ
  used : ℤ
  total : ℕ
  success : ℤ
  failed : ℤ
  connections : ℕ
  concurrency : ℕ
  payload : ℕ
  ps : PsStats
  pprofOn : Bool
  deriving DecidableEq

structure BenchRateReport where
  framework : Str
  benchClient : Str
  threads : ℕ
  duration : ℤ
  tps : ℤ
  cpuEer : ℚ
  memEer : ℚ
  sendTimes : ℕ
  sendBytes : ℕ
  recvTimes : ℕ
  recvBytes : ℕ
  connections : ℕ
  sendRate : ℕ
  batch : ℕ
  payload : ℕ
  ps : PsStats
  pprofOn : Bool
  deriving DecidableEq

def clientName : Str := "benchcli-rust".toList

/-- The throughput for a unit of `cost`, or 0 when there is nothing to divide by. -/
def eer (throughput cost : ℚ) : ℚ := if cost ≤ 0 then 0 else throughput / cost

def cpuEer (throughput cpuAvg : ℚ) : ℚ := eer throughput cpuAvg

def memEer (throughput : ℚ) (memAvg : ℕ) : ℚ := eer throughput (memAvg / (1024 * 1024))

end Http3Bench
