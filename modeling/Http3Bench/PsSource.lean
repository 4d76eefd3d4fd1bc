import Http3Bench.Platform

/-!
# Where a report's CPU and MEM columns come from

`PsSource` of `benchcli-rust/src/ps.rs` over the series of `benchkit/src/procstat.rs`. There are two
stores of samples, the sampler of the client and the one of the server that `/ps` answers from; both
only grow, in any order and at any time. A benchmark marks how long the series are when it starts
and reads what lies after the mark when it is over. CPU samples are exact rationals.
-/

namespace Http3Bench

@[ext] structure Samples where
  cpu : List ℚ := []
  rss : List ℕ := []
  deriving DecidableEq

structure PsStats where
  cpuMin : ℚ := 0
  cpuAvg : ℚ := 0
  cpuMax : ℚ := 0
  memMin : ℕ := 0
  memAvg : ℕ := 0
  memMax : ℕ := 0
  deriving DecidableEq

/-- `f64::MAX`. -/
def f64Max : ℚ := (2 ^ 53 - 1) * 2 ^ 971

def cpuStats (s : PsStats) : List ℚ → PsStats
  | [] => s
  | [x] => { s with cpuMin := x, cpuAvg := x, cpuMax := x }
  | x :: y :: rest =>
    { s with
      cpuMin := (y :: rest).foldl min f64Max
      cpuAvg := (y :: rest).sum / (y :: rest).length
      cpuMax := (x :: y :: rest).foldl max 0 }

/-- The sum wraps, as it does in a release build. -/
def memStats (s : PsStats) : List ℕ → PsStats
  | [] => s
  | [x] => { s with memMin := x, memAvg := x, memMax := x }
  | x :: y :: rest =>
    let sorted := (x :: y :: rest).mergeSort
    { s with
      memMin := sorted.getD 1 0
      memAvg := ((y :: rest).sum % 2 ^ 64) / (y :: rest).length
      memMax := sorted.getLastD 0 }

def stats (cpu : List ℚ) (rss : List ℕ) : PsStats := memStats (cpuStats {} cpu) rss

/-- The samples a `Sampler` has taken so far of the process `pid`. -/
structure Sampler where
  pid : ℤ
  samples : Samples

def Sampler.len (s : Sampler) : ℕ × ℕ := (s.samples.cpu.length, s.samples.rss.length)

/-- The samples after the first `cpu` and `mem` of each series. -/
def Sampler.since (s : Sampler) (cpu mem : ℕ) : Samples where
  cpu := s.samples.cpu.drop (min cpu s.samples.cpu.length)
  rss := s.samples.rss.drop (min mem s.samples.rss.length)

structure Remote where
  addr : SocketAddr

/-- What `/ps` answers with. -/
structure PsBody where
  cpu : Option (List ℚ) := none
  mem : Option (List ℕ) := none

/-- `Remote::samples`, when the control request ended in `reply`. -/
def samplesOf (reply : Except String PsBody) : Except String Samples :=
  reply.map (fun body => ⟨body.cpu.getD [], body.mem.getD []⟩)

inductive PsSource
  | here (sampler : Sampler) (fallback : Option Remote)
  | remote (r : Remote)

structure Mark where
  cpu : ℕ := 0
  mem : ℕ := 0

namespace PsSource

/-- `PsSource::mark`; `reply` is how its `/ps` request ended, if it makes one. -/
def mark (reply : Except String PsBody) : PsSource → Mark
  | here sampler _ => ⟨sampler.len.1, sampler.len.2⟩
  | remote _ => match samplesOf reply with
    | .ok s => ⟨s.cpu.length, s.rss.length⟩
    | .error _ => {}

def remoteStats (r : Remote) (mark : Mark) (reply : Except String PsBody) :
    PsStats × Option String :=
  match samplesOf reply with
  | .ok s =>
    let cpu := s.cpu.drop (min mark.cpu s.cpu.length)
    let rss := s.rss.drop (min mark.mem s.rss.length)
    let st := stats cpu rss
    if st.cpuAvg ≤ 0 then
      (st, some ("http://" ++ r.addr.text ++ "/ps answered with no CPU samples, so either /init did " ++
        "not reach it or the benchmark was shorter than the -pi sampling interval"))
    else (st, none)
  | .error e => ({}, some e)

def statsSince (mark : Mark) (reply : Except String PsBody) : PsSource → PsStats × Option String
  | here sampler fallback =>
    let s := sampler.since mark.cpu mark.mem
    if s.cpu = [] then match fallback with
      | some r => remoteStats r {} reply
      | none => (stats s.cpu s.rss, some ("pid " ++ toString sampler.pid ++ ": no CPU samples in this " ++
          "benchmark, so it was shorter than the -pi sampling interval"))
    else (stats s.cpu s.rss, none)
  | remote r => remoteStats r mark reply

end PsSource

/-- A sample is appended: by the thread of the client's sampler, or to a series of the server. -/
inductive Append
  | sampler (cpu : ℚ) (rss : ℕ)
  | serverCpu (cpu : ℚ)
  | serverMem (rss : ℕ)

def Samples.append (s t : Samples) : Samples := ⟨s.cpu ++ t.cpu, s.rss ++ t.rss⟩

/-- What a sequence of appends adds to the client's series. -/
def sampled : List Append → Samples
  | [] => {}
  | .sampler cpu rss :: rest => ⟨cpu :: (sampled rest).cpu, rss :: (sampled rest).rss⟩
  | _ :: rest => sampled rest

/-- What it adds to the server's. -/
def served : List Append → Samples
  | [] => {}
  | .serverCpu cpu :: rest => { served rest with cpu := cpu :: (served rest).cpu }
  | .serverMem rss :: rest => { served rest with rss := rss :: (served rest).rss }
  | .sampler _ _ :: rest => served rest

def PsSource.step (src : PsSource) (a : Append) : PsSource :=
  match src, a with
  | .here s fallback, .sampler cpu rss =>
    .here { s with samples := s.samples.append ⟨[cpu], [rss]⟩ } fallback
  | src, _ => src

def Samples.step (server : Samples) : Append → Samples
  | .serverCpu cpu => server.append ⟨[cpu], []⟩
  | .serverMem rss => server.append ⟨[], [rss]⟩
  | .sampler _ _ => server

/-- The source, and the server, after a sequence of appends. -/
def PsSource.run (src : PsSource) (evs : List Append) : PsSource := evs.foldl PsSource.step src

def Samples.run (server : Samples) (evs : List Append) : Samples := evs.foldl Samples.step server

/-- The reply to a `/ps` request is an error, or the series the server has then. -/
def Tells (server : Samples) (reply : Except String PsBody) : Prop :=
  ∀ s, samplesOf reply = .ok s → s = server

def Samples.since (s : Samples) (mark : Mark) : Samples :=
  ⟨s.cpu.drop (min mark.cpu s.cpu.length), s.rss.drop (min mark.mem s.rss.length)⟩

namespace PsSource

/-- The series `stats_since` works its statistics out from. -/
def samplesSince (mark : Mark) (reply : Except String PsBody) : PsSource → Samples
  | here sampler fallback =>
    if (sampler.since mark.cpu mark.mem).cpu = [] ∧ fallback.isSome then
      (samplesOf reply).toOption.getD {}
    else sampler.since mark.cpu mark.mem
  | remote _ => ((samplesOf reply).toOption.getD {}).since mark

/-- The samples a benchmark is to be judged by, when `evs` was appended between its mark and its
end, `late` while it waited for `/ps`, and that request ended in `reply`. -/
def fresh (evs late : List Append) (reply : Except String PsBody) : PsSource → Samples
  | here _ fallback =>
    if (sampled evs).cpu = [] ∧ fallback.isSome then
      if (samplesOf reply).isOk then served (evs ++ late) else {}
    else sampled evs
  | remote _ => if (samplesOf reply).isOk then served (evs ++ late) else {}

/-- When what is read from the server lies after a mark of the server's series: `/ps` gave nothing
at the end, the server had nothing at the mark, or the mark is one of the server's series. -/
def Covered (server : Samples) (evs : List Append) (reply reply' : Except String PsBody) :
    PsSource → Prop
  | here _ none => True
  | here _ (some _) =>
    (sampled evs).cpu ≠ [] ∨ (samplesOf reply').isOk = false ∨ server = {}
  | remote _ => (samplesOf reply).isOk ∨ (samplesOf reply').isOk = false ∨ server = {}

end PsSource

theorem run_here (s : Sampler) (fallback : Option Remote) (evs : List Append) :
    (PsSource.here s fallback).run evs =
      .here { s with samples := s.samples.append (sampled evs) } fallback := by
  induction evs generalizing s with
  | nil => simp [PsSource.run, sampled, Samples.append]
  | cons a rest ih =>
    cases a with
    | sampler cpu rss => exact (ih _).trans (by simp [sampled, Samples.append])
    | serverCpu cpu => exact ih s
    | serverMem rss => exact ih s

theorem run_remote (r : Remote) (evs : List Append) : (PsSource.remote r).run evs = .remote r := by
  induction evs with
  | nil => rfl
  | cons a rest ih => exact ih

theorem run_server (server : Samples) (evs : List Append) :
    server.run evs = server.append (served evs) := by
  induction evs generalizing server with
  | nil => simp [Samples.run, served, Samples.append]
  | cons a rest ih =>
    cases a with
    | sampler cpu rss => exact ih server
    | serverCpu cpu => exact (ih _).trans (by simp [served, Samples.append, Samples.step])
    | serverMem rss => exact (ih _).trans (by simp [served, Samples.append, Samples.step])

theorem sampled_since (s : Sampler) (evs : List Append) :
    ({ s with samples := s.samples.append (sampled evs) } : Sampler).since s.len.1 s.len.2 =
      sampled evs := by
  simp [Sampler.since, Sampler.len, Samples.append]

theorem Samples.since_append (s t : Samples) :
    (s.append t).since ⟨s.cpu.length, s.rss.length⟩ = t := by
  simp [Samples.since, Samples.append]

theorem Samples.since_zero (s : Samples) : s.since {} = s := by simp [Samples.since]

theorem Samples.append_eq_right {s t : Samples} : s.append t = t ↔ s = {} := by
  cases s
  simp [Samples.append, Samples.ext_iff]

theorem remoteStats_eq (r : Remote) (mark : Mark) (reply : Except String PsBody) :
    (PsSource.remoteStats r mark reply).1 =
      stats (((samplesOf reply).toOption.getD {}).since mark).cpu
        (((samplesOf reply).toOption.getD {}).since mark).rss := by
  unfold PsSource.remoteStats
  cases samplesOf reply with
  | error e => simp [Except.toOption, Samples.since, stats, cpuStats, memStats]
  | ok s =>
    simp only [Except.toOption, Option.getD_some]
    split <;> rfl

/-- `stats_since` is `stats` of the series it reads. -/
theorem statsSince_eq (src : PsSource) (mark : Mark) (reply : Except String PsBody) :
    (src.statsSince mark reply).1 =
      stats (src.samplesSince mark reply).cpu (src.samplesSince mark reply).rss := by
  cases src with
  | remote r => exact remoteStats_eq r mark reply
  | here sampler fallback =>
    by_cases hc : (sampler.since mark.cpu mark.mem).cpu = []
    · cases fallback with
      | none => simp [PsSource.statsSince, PsSource.samplesSince, hc]
      | some r =>
        simp only [PsSource.statsSince, PsSource.samplesSince, hc, if_true, Option.isSome_some,
          and_self]
        rw [remoteStats_eq, Samples.since_zero]
    · simp [PsSource.statsSince, PsSource.samplesSince, hc]

/-- What a reply holds when it comes. -/
theorem Tells.getD {server : Samples} {reply : Except String PsBody} (h : Tells server reply) :
    (samplesOf reply).toOption.getD {} = if (samplesOf reply).isOk then server else {} := by
  cases hr : samplesOf reply with
  | error e => rfl
  | ok s => exact h s hr

/-- The statistics of a benchmark come from samples taken while it ran exactly if what is read from
the server is covered by a mark of the server's series. -/
theorem statsSince_fresh (src : PsSource) (server : Samples) (evs late : List Append)
    (reply reply' : Except String PsBody) (h : Tells server reply)
    (h' : Tells (server.run (evs ++ late)) reply') :
    ((src.run evs).statsSince (src.mark reply) reply').1 =
      stats ((src.run evs).samplesSince (src.mark reply) reply').cpu
        ((src.run evs).samplesSince (src.mark reply) reply').rss ∧
    ((src.run evs).samplesSince (src.mark reply) reply' = src.fresh evs late reply' ↔
      src.Covered server evs reply reply') := by
  refine ⟨statsSince_eq _ _ _, ?_⟩
  rw [run_server] at h'
  cases src with
  | here sampler fallback =>
    rw [run_here]
    simp only [PsSource.samplesSince, PsSource.mark, PsSource.fresh, sampled_since, h'.getD]
    cases fallback with
    | none => simp [PsSource.Covered]
    | some r =>
      by_cases hc : (sampled evs).cpu = []
      · cases hok : (samplesOf reply').isOk <;>
          simp [PsSource.Covered, hc, hok, Samples.append_eq_right]
      · simp [PsSource.Covered, hc]
  | remote r =>
    rw [run_remote]
    simp only [PsSource.samplesSince, PsSource.fresh, h'.getD]
    cases hok : (samplesOf reply').isOk with
    | false => simp [PsSource.Covered, hok, Samples.since]
    | true =>
      cases hr : samplesOf reply with
      | error e =>
        have hbad : (Except.error e : Except String Samples).isOk = false := rfl
        simp [PsSource.Covered, PsSource.mark, hr, hok, hbad, Samples.since_zero,
          Samples.append_eq_right]
      | ok s =>
        obtain rfl := h s hr
        have hgood : (Except.ok s : Except String Samples).isOk = true := rfl
        simp [PsSource.Covered, PsSource.mark, hr, hgood, Samples.since_append]

/-- A server that has taken two samples, marked over `/ps`, takes one more. -/
theorem statsSince_fresh_remote :
    (((PsSource.remote ⟨⟨true, "10.0.0.2:3001"⟩⟩).run [.serverCpu 30, .serverMem 7]).samplesSince
        ((PsSource.remote ⟨⟨true, "10.0.0.2:3001"⟩⟩).mark (.ok ⟨some [90, 95], some [5, 6]⟩))
        (.ok ⟨some [90, 95, 30], some [5, 6, 7]⟩) = ⟨[30], [7]⟩ ∧
      (PsSource.remote ⟨⟨true, "10.0.0.2:3001"⟩⟩).Covered ⟨[90, 95], [5, 6]⟩
        [.serverCpu 30, .serverMem 7] (.ok ⟨some [90, 95], some [5, 6]⟩)
        (.ok ⟨some [90, 95, 30], some [5, 6, 7]⟩)) := by
  have h := (statsSince_fresh (.remote ⟨⟨true, "10.0.0.2:3001"⟩⟩) ⟨[90, 95], [5, 6]⟩
    [.serverCpu 30, .serverMem 7] [] (.ok ⟨some [90, 95], some [5, 6]⟩)
    (.ok ⟨some [90, 95, 30], some [5, 6, 7]⟩) (fun s hs => (Except.ok.inj hs).symm)
    (fun s hs => (Except.ok.inj hs).symm)).2
  exact ⟨h.mpr (.inl rfl), .inl rfl⟩

/-- A benchmark shorter than the sampling interval, on a server whose own sampler ran during the one
before it: the fallback hands over what it took then. -/
theorem statsSince_stale : ¬ ∀ (src : PsSource) (server : Samples) (evs late : List Append)
    (reply reply' : Except String PsBody), Tells server reply →
    Tells (server.run (evs ++ late)) reply' →
    ((src.run evs).statsSince (src.mark reply) reply').1 =
      stats (src.fresh evs late reply').cpu (src.fresh evs late reply').rss := by
  intro h
  have := h (.here ⟨7, ⟨[80], [9]⟩⟩ (some ⟨⟨true, "127.0.0.1:3001"⟩⟩)) ⟨[80], [9]⟩ [] []
    (.ok ⟨some [80], some [9]⟩) (.ok ⟨some [80], some [9]⟩)
    (fun s hs => (Except.ok.inj hs).symm) (fun s hs => (Except.ok.inj hs).symm)
  exact absurd (congrArg PsStats.memAvg this) (by decide)

end Http3Bench
