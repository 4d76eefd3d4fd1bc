import Http3Bench.Calls
import Http3Bench.Connections
import Http3Bench.Occupancy
import Http3Bench.RatePlan
import Http3Bench.Report
import Http3Bench.Totals

/-!
# The client from its first call to its last report

`main` calls `Engine::run` up to four times, for Connections, the warmup, BenchEcho and
BenchMultiplex, and adds up the outcomes of three of these calls into reports. The workers take their
turns all the while: a connection may close between two calls, and while `ready_counts` reads the
workers' counters one after another. A report that is written accounts for what its benchmark was
asked to do.
-/

namespace Http3Bench

variable {P : Platform}

/-- What `main` knows before the first call: the flags it reads and the random bodies. -/
structure Settings where
  framework : Str
  threads : ℕ
  c : ℤ
  dc : ℤ
  ec : ℤ
  en : ℤ
  el : ℤ
  b : ℤ
  rd : ℤ
  rr : ℤ
  rl : ℤ
  tpn : Bool
  ep : Bool
  rp : Bool
  payloads : List Body
  body : Body
  /-- The batch and how often a second it is sent, with `-rate`. -/
  ratePlan : Option (ℕ × ℕ)
  length_payloads : ∀ p ∈ payloads, p.length = (max b 1).toNat
  length_body : body.length = (max b 1).toNat

namespace Settings

variable (c : Settings)

def numConns : ℕ := (max c.c 1).toNat

def payload : ℕ := (max c.b 1).toNat

def echoTimes : ℕ := (max c.en 0).toNat

def duration : Duration := (max c.rd 1).toNat * second

def echoJob (times : ℕ) (measure : Bool) : EchoJob := ⟨times, c.payloads, measure, decide (0 < c.el)⟩

def warmup (ready : List ℕ) : ℕ := min (sumUsize ready * 5) 2000000

/-- A tick rate that is 0 as a `u32` panics. -/
def rateJob : Option RateJob := do
  let (batch, tickRate) ← c.ratePlan
  let tick ← RatePlan.tick tickRate
  return ⟨c.duration, batch, tick, c.body, decide (0 < c.rl)⟩

/-! The commands of the four calls. -/

def dials : List Command := dialCommands c.numConns (dialConc c.dc c.numConns) c.threads

def warms (ready : List ℕ) : List Command :=
  echoCommands (c.echoJob (warmup ready) false) (echoConc c.ec ready) ready

def echos (ready : List ℕ) : List Command :=
  echoCommands (c.echoJob c.echoTimes true) (echoConc c.ec ready) ready

def rates (job : RateJob) : List Command := List.replicate c.threads (.rate job)

end Settings

def Latencies.addEcho (acc : Latencies) : Outcome → Latencies
  | .echo lat _ => acc.merge lat
  | _ => acc

def mergeEchos (outcomes : List Outcome) : Latencies := outcomes.foldl Latencies.addEcho {}

def RateCounts.addRate (acc : RateCounts) : Outcome → RateCounts
  | .rate c => { acc with
      sendTimes := acc.sendTimes + c.sendTimes
      sendBytes := acc.sendBytes + c.sendBytes
      recvTimes := acc.recvTimes + c.recvTimes
      recvBytes := acc.recvBytes + c.recvBytes }
  | _ => acc

def sumRates (outcomes : List Outcome) : RateCounts := outcomes.foldl RateCounts.addRate {}

/-! ### The reports -/

def connectionsReport (c : Settings) (outcomes : List Outcome) (used : ℕ) :
    Option ConnectionsReport := do
  let lat := mergeDials outcomes
  let s ← lat.summarize used
  return {
    framework := c.framework
    benchClient := clientName
    threads := c.threads
    tps := s.tps
    min := s.min
    avg := s.avg
    max := s.max
    tp50 := if c.tpn then s.tp50 else 0
    tp75 := if c.tpn then s.tp75 else 0
    tp90 := if c.tpn then s.tp90 else 0
    tp95 := if c.tpn then s.tp95 else 0
    tp99 := if c.tpn then s.tp99 else 0
    used := asI64 used
    total := c.numConns
    success := lat.success
    failed := lat.failed
    concurrency := dialConc c.dc c.numConns }

def benchEchoReport (c : Settings) (ready : List ℕ) (outcomes : List Outcome) (used : ℕ)
    (ps : PsStats) : Option BenchEchoReport := do
  let lat := mergeEchos outcomes
  let s ← lat.summarize used
  return {
    framework := c.framework
    benchClient := clientName
    threads := c.threads
    tps := s.tps
    cpuEer := cpuEer s.tps ps.cpuAvg
    memEer := memEer s.tps ps.memAvg
    min := s.min
    avg := s.avg
    max := s.max
    tp50 := if c.tpn then s.tp50 else 0
    tp75 := if c.tpn then s.tp75 else 0
    tp90 := if c.tpn then s.tp90 else 0
    tp95 := if c.tpn then s.tp95 else 0
    tp99 := if c.tpn then s.tp99 else 0
    used := asI64 used
    total := c.echoTimes
    success := lat.success
    failed := lat.failed
    connections := sumUsize ready
    concurrency := echoConc c.ec ready
    payload := c.payload
    ps
    pprofOn := c.ep }

def benchRateReport (c : Settings) (batch conns : ℕ) (outcomes : List Outcome) (ps : PsStats) :
    BenchRateReport :=
  let counts := sumRates outcomes
  let tps : ℚ := counts.recvTimes / (max c.rd 1).toNat
  { framework := c.framework
    benchClient := clientName
    threads := c.threads
    duration := asI64 c.duration
    tps := satI64 ⌊tps⌋
    cpuEer := cpuEer tps ps.cpuAvg
    memEer := memEer tps ps.memAvg
    sendTimes := counts.sendTimes
    sendBytes := counts.sendBytes
    recvTimes := counts.recvTimes
    recvBytes := counts.recvBytes
    connections := conns
    sendRate := (max c.rr 1).toNat
    batch
    payload := c.payload
    ps
    pprofOn := c.rp }

/-! ### The run -/

/-- Where `main` is. `ready` is what `ready_counts` has read so far, or had read before BenchEcho. -/
inductive SessionStage
  | start
  | dialing
  | counting (ready : List ℕ)
  /-- "no connections to run on" -/
  | fatal
  | warming (ready : List ℕ)
  | warmed (ready : List ℕ)
  | echoing (ready : List ℕ)
  | recounting (ready again : List ℕ)
  | rating (ready : List ℕ) (job : RateJob) (conns : ℕ)
  | over
  deriving DecidableEq

structure Session (P : Platform) where
  bench : Bench P
  stage : SessionStage := .start
  connections : Option ConnectionsReport := none
  echo : Option BenchEchoReport := none
  rate : Option BenchRateReport := none

/-- A worker takes a turn, or `Engine::run` goes on. -/
def Bench.Works (b b' : Bench P) : Prop := Step b b' ∧ b'.calls = b.calls ∧ b'.returned = b.returned

def Bench.Begins (b b' : Bench P) (cmds : List Command) : Prop :=
  Step b b' ∧ b'.calls = b.calls ++ [cmds]

def Bench.Ends (b b' : Bench P) (os : List Outcome) : Prop :=
  Step b b' ∧ b'.returned = b.returned ++ [os]

namespace Session

def new (cfg : EngineConfig) (starts : List (P.Os × Instant)) : Session P where
  bench := .new cfg starts

/-- Durations and the samples of CPU and MEM are what the clock and the sampler say they are. -/
inductive Step (c : Settings) : Session P → Session P → Prop
  | work {s : Session P} {b : Bench P} : s.bench.Works b → Step c s { s with bench := b }
  | dial {s : Session P} {b : Bench P} :
      s.stage = .start → s.bench.Begins b c.dials → Step c s { s with bench := b, stage := .dialing }
  | dialed {s : Session P} {b : Bench P} {os : List Outcome} {used : ℕ} {r : ConnectionsReport} :
      s.stage = .dialing → s.bench.Ends b os → connectionsReport c os used = some r →
      Step c s { s with bench := b, stage := .counting [], connections := some r }
  | count {s : Session P} {ready : List ℕ} {t : Thread P} :
      s.stage = .counting ready → s.bench.threads[ready.length]? = some t →
      Step c s { s with stage := .counting (ready ++ [t.w.ready.toNat]) }
  | none {s : Session P} {ready : List ℕ} :
      s.stage = .counting ready → ready.length = s.bench.threads.length → sumUsize ready = 0 →
      Step c s { s with stage := .fatal }
  | warm {s : Session P} {b : Bench P} {ready : List ℕ} :
      s.stage = .counting ready → ready.length = s.bench.threads.length → sumUsize ready ≠ 0 →
      s.bench.Begins b (c.warms ready) → Step c s { s with bench := b, stage := .warming ready }
  | warmed {s : Session P} {b : Bench P} {ready : List ℕ} {os : List Outcome} :
      s.stage = .warming ready → s.bench.Ends b os →
      Step c s { s with bench := b, stage := .warmed ready }
  | echo {s : Session P} {b : Bench P} {ready : List ℕ} :
      s.stage = .warmed ready → s.bench.Begins b (c.echos ready) →
      Step c s { s with bench := b, stage := .echoing ready }
  | echoed {s : Session P} {b : Bench P} {ready : List ℕ} {os : List Outcome} {used : ℕ}
      {ps : PsStats} {r : BenchEchoReport} :
      s.stage = .echoing ready → s.bench.Ends b os → benchEchoReport c ready os used ps = some r →
      Step c s { s with
        bench := b
        stage := if c.ratePlan.isSome then .recounting ready [] else .over
        echo := some r }
  | recount {s : Session P} {ready again : List ℕ} {t : Thread P} :
      s.stage = .recounting ready again → s.bench.threads[again.length]? = some t →
      Step c s { s with stage := .recounting ready (again ++ [t.w.ready.toNat]) }
  | rate {s : Session P} {b : Bench P} {ready again : List ℕ} {job : RateJob} :
      s.stage = .recounting ready again → again.length = s.bench.threads.length →
      c.rateJob = some job → s.bench.Begins b (c.rates job) →
      Step c s { s with bench := b, stage := .rating ready job (sumUsize again) }
  | rated {s : Session P} {b : Bench P} {ready : List ℕ} {job : RateJob} {conns : ℕ}
      {os : List Outcome} {ps : PsStats} :
      s.stage = .rating ready job conns → s.bench.Ends b os →
      Step c s { s with
        bench := b, stage := .over, rate := some (benchRateReport c job.batch conns os ps) }

/-- `threads` workers are started. -/
def Reach (cfg : EngineConfig) (c : Settings) (s : Session P) : Prop :=
  ∃ starts : List (P.Os × Instant), starts.length = c.threads ∧
    Relation.ReflTransGen (Step c) (new cfg starts) s

end Session

/-! ### A call that is over -/

theorem filterMap_of_forall₂ {α β : Type} {f : α → Option β} {l : List α} {l' : List β}
    (h : List.Forall₂ (fun a b => f a = some b) l l') : l.filterMap f = l' := by
  induction h with
  | nil => rfl
  | cons hab _ ih => rw [List.filterMap_cons_some hab, ih]

namespace Bench

variable {cfg : EngineConfig} {b b' : Bench P} {os : List Outcome}

theorem Step.reach (h : Step b b') (hb : b.Reach cfg) : b'.Reach cfg := by
  obtain ⟨starts, hrun⟩ := hb
  exact ⟨starts, hrun.tail h⟩

theorem Step.returned_grows (h : Step b b') : b.returned <+: b'.returned := by
  cases h with
  | ret => exact List.prefix_append _ _
  | _ => exact List.prefix_refl _

theorem Ends.ready (h : b.Ends b' os) : b'.main = .ready ∧ b'.calls = b.calls := by
  obtain ⟨hstep, hret⟩ := h
  cases hstep with
  | ret => exact ⟨rfl, rfl⟩
  | _ => exact absurd (congrArg List.length hret) (by simp)

theorem Ends.returned (h : b.Ends b' os) (hb : b'.Reach cfg) :
    b'.returned.length = b'.calls.length ∧ b'.returned.getLast? = some os := by
  have hcalls := hb.linked.1.calls
  rw [h.ready.1] at hcalls
  exact ⟨hcalls.symm, by rw [h.2, List.getLast?_concat]⟩

theorem Ends.answers (h : b.Ends b' os) (hb : b'.Reach cfg) {cmds : List Command}
    (hcmds : b'.calls.getLast? = some cmds) : List.Forall₂ Answers cmds os := by
  obtain ⟨hl, hreach⟩ := hb.linked
  obtain ⟨hlen, hos⟩ := h.returned hb
  rw [List.getLast?_eq_getElem?] at hcmds hos
  rw [hlen] at hos
  exact (hl.returns hreach.ok hcmds hos).1

/-- When a call is over every worker has answered it, and what it returned is their last outcomes. -/
theorem Linked.settled (h : b.Linked) (hmain : b.main = .ready) :
    (∀ t ∈ b.threads, t.w.sent.length = b.calls.length) ∧
      ∀ {os}, b.returned.getLast? = some os → b.engine.outcomes = os := by
  have hcalls := h.calls
  have hmn := h.main
  rw [hmain] at hcalls hmn
  have hsent : ∀ {i : ℕ} {t : Thread P}, b.threads[i]? = some t → t.w.sent = b.returnedOf i := by
    intro i t hi
    rw [h.sent hi, hmn.1, hmn.2]
    exact List.append_nil _
  refine ⟨fun t ht => ?_, fun {os} hos => ?_⟩
  · obtain ⟨i, hi⟩ := List.mem_iff_getElem?.mp ht
    rw [hsent hi, h.length_returnedOf (List.getElem?_eq_some_iff.mp hi).1, hcalls]
    rfl
  · have hsize := h.sizes os (List.mem_of_getLast? hos)
    have hlast : ∀ {i : ℕ} (hi : i < b.threads.length),
        b.threads[i].w.sent.getLast? = os[i]? := by
      intro i hi
      rw [hsent (List.getElem?_eq_getElem hi), List.getLast?_eq_getElem?, h.length_returnedOf hi,
        returnedOf, getElem?_filterMap_getElem? h.sizes hi, ← List.getLast?_eq_getElem?, hos]
      rfl
    have hall : List.Forall₂ (fun t o => t.w.sent.getLast? = some o) b.threads os := by
      refine List.forall₂_iff_get.mpr ⟨hsize.symm, fun i h₁ h₂ => ?_⟩
      exact (hlast h₁).trans (List.getElem?_eq_getElem h₂)
    exact filterMap_of_forall₂ hall

end Bench

/-! ### Adding up the outcomes of a call -/

theorem counts_mergeEchos (es : List EchoPhase) :
    (mergeEchos (es.map (fun e => .echo e.lat e))).success = (es.map (fun e => e.lat.success)).sum ∧
      (mergeEchos (es.map (fun e => .echo e.lat e))).failed = (es.map (fun e => e.lat.failed)).sum := by
  suffices h : ∀ acc : Latencies,
      ((es.map (fun e => Outcome.echo e.lat e)).foldl Latencies.addEcho acc).success =
          acc.success + (es.map (fun e => e.lat.success)).sum ∧
        ((es.map (fun e => Outcome.echo e.lat e)).foldl Latencies.addEcho acc).failed =
          acc.failed + (es.map (fun e => e.lat.failed)).sum by
    simpa [mergeEchos] using h {}
  induction es with
  | nil => simp
  | cons e rest ih =>
    intro acc
    have := ih (acc.merge e.lat)
    simp only [List.map_cons, List.foldl_cons, List.sum_cons, Latencies.addEcho, this]
    constructor <;> simp only [Latencies.merge] <;> omega

theorem Latencies.Counted.nonneg {l : Latencies} (h : l.Counted) : 0 ≤ l.success ∧ 0 ≤ l.failed := by
  rw [← h.costs, ← h.errors]
  exact ⟨Int.natCast_nonneg _, Int.natCast_nonneg _⟩

/-- The outcomes of dial commands. -/
theorem dialed_of_answers {cmds : List Command} {os : List Outcome}
    (h : List.Forall₂ Answers cmds os) (hd : ∀ cmd ∈ cmds, ∃ count conc, cmd = .dial count conc) :
    ∃ lats : List Latencies, os = lats.map Outcome.dial ∧ (∀ l ∈ lats, l.Counted) ∧
      (lats.map Latencies.success).sum + (lats.map Latencies.failed).sum =
        ((cmds.map Command.count).sum : ℕ) := by
  induction h with
  | nil => exact ⟨[], rfl, by simp, rfl⟩
  | @cons cmd o cmds os ha _ ih =>
    obtain ⟨lats, hos, hcounted, hsum⟩ := ih (fun cmd hm => hd cmd (List.mem_cons_of_mem _ hm))
    obtain ⟨count, conc, rfl⟩ := hd cmd List.mem_cons_self
    cases ha with
    | @dial _ _ lat hcount hlat =>
      refine ⟨lat :: lats, by rw [hos, List.map_cons], List.forall_mem_cons.mpr ⟨hlat, hcounted⟩, ?_⟩
      simp only [List.map_cons, List.sum_cons, Command.count]
      push_cast at hsum ⊢
      omega

/-- Every one of `n` operations succeeded or failed. -/
structure Settles (success failed : ℤ) (n : ℕ) : Prop where
  success_nonneg : 0 ≤ success
  failed_nonneg : 0 ≤ failed
  total : success + failed = n

theorem settles_mergeDials {numConns conc threads : ℕ} {os : List Outcome} (hpos : 0 < threads)
    (hfit : numConns * threads < 2 ^ 64)
    (h : List.Forall₂ Answers (dialCommands numConns conc threads) os) :
    Settles (mergeDials os).success (mergeDials os).failed numConns := by
  obtain ⟨lats, rfl, hcounted, hsum⟩ :=
    dialed_of_answers h (fun cmd hm => dial_of_mem_dialCommands hm)
  rw [count_dialCommands, sum_split hpos hfit] at hsum
  obtain ⟨hs, hf⟩ := counts_mergeDials lats
  rw [hs, hf]
  refine ⟨List.sum_nonneg ?_, List.sum_nonneg ?_, hsum⟩
  · intro x hx
    obtain ⟨l, hl, rfl⟩ := List.mem_map.mp hx
    exact (hcounted l hl).nonneg.1
  · intro x hx
    obtain ⟨l, hl, rfl⟩ := List.mem_map.mp hx
    exact (hcounted l hl).nonneg.2

namespace Engine

variable {cfg : EngineConfig} {s : Engine P}

/-- The outcomes of a BenchEcho round that is over, and its tickets. -/
theorem Reach.echoed (hs : s.Reach cfg) {job : EchoJob} {concs : List ℕ}
    (hround : s.rounds.getLast? = some (concs.map (Command.echo job)))
    (hdone : ∀ t ∈ s.threads, t.w.sent.length = s.rounds.length) :
    ∃ es : List EchoPhase, s.outcomes = es.map (fun e => .echo e.lat e) ∧
      (∀ e ∈ es, e.Over job ∧ e.Idles) ∧
      (es.map (fun e => (e.drawn : Multiset ℕ))).sum = Multiset.range s.shared.issued := by
  obtain ⟨es, hes⟩ := exists_forall₂ (hs.ok.echoed hround hdone)
  obtain ⟨-, hdrawn, hover⟩ := echoOutcomes_eq hes
  have hlast : ∀ t ∈ s.threads, ∀ e, Echoed job (s.rounds.length - 1) t e →
      t.w.sent.getLast? = some (.echo e.lat e) := by
    intro t _ e he
    obtain ⟨o, ho, hecho⟩ := Option.bind_eq_some_iff.mp he.outcome
    rw [ho]
    cases o with
    | echo lat last =>
      obtain ⟨rfl, rfl⟩ := Prod.mk.inj (Option.some.inj hecho)
      rfl
    | dial lat => cases hecho
    | rate counts => cases hecho
  have hidles : ∀ e ∈ es, e.Idles := by
    intro e he
    obtain ⟨i, hi⟩ := List.mem_iff_getElem?.mp he
    obtain ⟨hlt, rfl⟩ := List.getElem?_eq_some_iff.mp hi
    have hlt' : i < s.threads.length := hes.length_eq ▸ hlt
    have hecho := (List.forall₂_iff_get.mp hes).2 i hlt' hlt
    have hsent := hlast _ (List.getElem_mem hlt') _ hecho
    obtain ⟨-, hidle, -⟩ := kept_idles.reached (hs.ok.reach (List.getElem?_eq_getElem hlt'))
    exact hidle.2 _ _ (List.mem_of_getLast? hsent)
  refine ⟨es, ?_, fun e he => ⟨hover e he, hidles e he⟩, hdrawn.symm.trans hs.tickets⟩
  refine filterMap_of_forall₂ (List.forall₂_map_right_iff.mpr ?_)
  refine List.forall₂_iff_get.mpr ⟨hes.length_eq, fun i h₁ h₂ => ?_⟩
  exact hlast _ (List.get_mem _ _) _ ((List.forall₂_iff_get.mp hes).2 i h₁ h₂)

/-- A BenchEcho that is over has run every ticket below `times`, unless it had nothing to run on. -/
theorem Reach.settles_mergeEchos (hs : s.Reach cfg) {job : EchoJob} {concs : List ℕ}
    (hround : s.rounds.getLast? = some (concs.map (Command.echo job))) (hm : job.measure = true)
    (hdone : ∀ t ∈ s.threads, t.w.sent.length = s.rounds.length) :
    Settles (mergeEchos s.outcomes).success (mergeEchos s.outcomes).failed job.times ∨
      Settles (mergeEchos s.outcomes).success (mergeEchos s.outcomes).failed 0 ∧
        ∀ lat e, .echo lat e ∈ s.outcomes → e.slots = 0 := by
  obtain ⟨es, hout, hes, hdrawn⟩ := hs.echoed hround hdone
  have hover : ∀ e ∈ es, e.Over job := fun e he => (hes e he).1
  obtain ⟨hsucc, hfail⟩ := counts_mergeEchos es
  have hnonneg : 0 ≤ (mergeEchos s.outcomes).success ∧ 0 ≤ (mergeEchos s.outcomes).failed := by
    rw [hout, hsucc, hfail]
    constructor <;> refine List.sum_nonneg (fun x hx => ?_) <;>
      obtain ⟨e, he, rfl⟩ := List.mem_map.mp hx
    · exact (hover e he).measured.counted.nonneg.1
    · exact (hover e he).measured.counted.nonneg.2
  have htotal : (mergeEchos s.outcomes).success + (mergeEchos s.outcomes).failed =
      ((es.map (fun e => (e.completed : Multiset ℕ))).sum.card : ℤ) := by
    rw [hout, hsucc, hfail, ← sum_answered hm hover, List.sum_map_add]
  by_cases hslots : ∃ e ∈ es, 1 ≤ e.slots
  · obtain ⟨e, he, hslots⟩ := hslots
    have htimes : job.times ≤ s.shared.issued := by
      rcases (hover e he).measured.exhausted (hover e he).exhausted with h0 | ⟨n, hn, hle⟩
      · omega
      · have hmem : n ∈ (es.map (fun e => (e.drawn : Multiset ℕ))).sum :=
          Multiset.mem_of_le (List.single_le_sum (fun _ _ => Multiset.zero_le _) _
            (List.mem_map_of_mem he)) (Multiset.mem_coe.mpr hn)
        rw [hdrawn, Multiset.mem_range] at hmem
        rw [(hover e he).job_eq] at hle
        omega
    rw [sum_completed hover, hdrawn, filter_range htimes, Multiset.card_range] at htotal
    exact .inl ⟨hnonneg.1, hnonneg.2, htotal⟩
  · have hnone : ∀ e ∈ es, e.slots = 0 := by
      intro e he
      by_contra h0
      exact hslots ⟨e, he, by omega⟩
    have hzero : (es.map (fun e => (e.completed : Multiset ℕ))).sum = 0 := by
      refine List.sum_eq_zero (fun d hd => ?_)
      obtain ⟨e, he, rfl⟩ := List.mem_map.mp hd
      obtain ⟨ho, hidle⟩ := hes e he
      rw [ho.books.completed_eq ho.inFlight, hidle (hnone e he)]
      rfl
    rw [hzero] at htotal
    refine .inr ⟨⟨hnonneg.1, hnonneg.2, htotal⟩, fun lat e hm => ?_⟩
    rw [hout] at hm
    obtain ⟨e', he', heq⟩ := List.mem_map.mp hm
    obtain ⟨-, rfl⟩ := Outcome.echo.inj heq
    exact hnone e' he'

end Engine

theorem adds_sumRates {os : List Outcome} {size : ℕ}
    (h : ∀ counts, .rate counts ∈ os → counts.Adds size) : (sumRates os).Adds size := by
  suffices key : ∀ acc : RateCounts, acc.Adds size → (os.foldl RateCounts.addRate acc).Adds size by
    exact key {} ⟨le_rfl, (Nat.zero_mul size).symm, (Nat.zero_mul size).symm⟩
  induction os with
  | nil => exact fun acc ha => ha
  | cons o rest ih =>
    intro acc ha
    refine ih (fun counts hm => h counts (List.mem_cons_of_mem _ hm)) _ ?_
    cases o with
    | rate c =>
      have hc := h c List.mem_cons_self
      refine ⟨Nat.add_le_add ha.recvTimes hc.recvTimes, ?_, ?_⟩
      · simp only [RateCounts.addRate, ha.sendBytes, hc.sendBytes, Nat.add_mul]
      · simp only [RateCounts.addRate, ha.recvBytes, hc.recvBytes, Nat.add_mul]
    | dial lat => exact ha
    | echo lat last => exact ha

/-- The commands of a worker when only the last call was for BenchMultiplex. -/
theorem isRate_of_column {calls : List (List Command)} {last : List Command} {i : ℕ}
    (h : ∀ cmds ∈ calls, ∀ cmd ∈ cmds, cmd.isRate = false) :
    ((calls ++ [last]).filterMap (fun cmds => cmds[i]?)).countP Command.isRate ≤ 1 ∧
      ∀ cmd ∈ (calls ++ [last]).filterMap (fun cmds => cmds[i]?), cmd.isRate = true → cmd ∈ last := by
  have hnone : ∀ cmd ∈ calls.filterMap (fun cmds => cmds[i]?), cmd.isRate = false := by
    intro cmd hm
    obtain ⟨cmds, hcmds, hget⟩ := List.mem_filterMap.mp hm
    exact h cmds hcmds cmd (List.mem_of_getElem? hget)
  rw [List.filterMap_append]
  refine ⟨?_, fun cmd hm hr => ?_⟩
  · rw [List.countP_append, List.countP_eq_zero.mpr (fun cmd hm => by simp [hnone cmd hm]), zero_add]
    refine List.countP_le_length.trans ?_
    exact (List.length_filterMap_le _ _).trans (by simp)
  · rcases List.mem_append.mp hm with hm | hm
    · rw [hnone cmd hm] at hr
      cases hr
    · obtain ⟨cmds, hcmds, hget⟩ := List.mem_filterMap.mp hm
      rw [List.mem_singleton.mp hcmds] at hget
      exact List.mem_of_getElem? hget

theorem isRate_dials (c : Settings) : ∀ cmd ∈ c.dials, cmd.isRate = false := by
  intro cmd hm
  obtain ⟨count, conc, rfl⟩ := dial_of_mem_dialCommands hm
  rfl

theorem isRate_echoCommands (job : EchoJob) (conc : ℕ) (ready : List ℕ) :
    ∀ cmd ∈ echoCommands job conc ready, cmd.isRate = false := by
  intro cmd hm
  obtain ⟨k, _, rfl⟩ := List.mem_map.mp hm
  rfl

/-- The counts of the only BenchMultiplex, once it is over. -/
theorem Bench.Reach.adds_sumRates {next : P.H3 → ℕ} (hn : NumbersStreams next) {cfg : EngineConfig}
    {b : Bench P} (hb : b.Reach cfg) (hmain : b.main = .ready) {os : List Outcome}
    (hos : b.returned.getLast? = some os) (calls : List (List Command)) {n : ℕ} {job : RateJob}
    (hcalls : b.calls = calls ++ [List.replicate n (.rate job)])
    (hnone : ∀ cmds ∈ calls, ∀ cmd ∈ cmds, cmd.isRate = false) :
    (sumRates os).Adds job.payload.length := by
  obtain ⟨hl, hreach⟩ := hb.linked
  refine Http3Bench.adds_sumRates (fun counts hm => ?_)
  rw [← (hl.settled hmain).2 hos] at hm
  obtain ⟨t, ht, hlast⟩ := List.mem_filterMap.mp hm
  obtain ⟨i, hi⟩ := List.mem_iff_getElem?.mp ht
  have hgiven : t.w.given = b.column i := (hl.given hi).1 (by simp [hmain, Main.outbox])
  rw [Bench.column, hcalls] at hgiven
  obtain ⟨hone, hmem⟩ := @isRate_of_column calls (List.replicate n (.rate job)) i hnone
  have hrated := (hreach.ok.reach hi).rated hn
  unfold Worker.Rated at hrated
  rw [hgiven] at hrated
  obtain ⟨job', hjob, hadds⟩ := hrated hone counts (List.mem_of_getLast? hlast)
  obtain ⟨-, hjob'⟩ := List.mem_replicate.mp (hmem _ hjob rfl)
  obtain rfl := Command.rate.inj hjob'
  exact hadds

/-! ### The whole run -/

/-- The calls `main` has made where it is, and the reports it has written: Connections, BenchEcho. -/
def SessionStage.Follows (c : Settings) (calls : List (List Command)) (connections echo : Bool) :
    SessionStage → Prop
  | .start => calls = []
  | .dialing => calls = [c.dials]
  | .counting _ | .fatal => calls = [c.dials] ∧ connections
  | .warming ready | .warmed ready =>
    calls = [c.dials, c.warms ready] ∧ connections ∧ sumUsize ready ≠ 0
  | .echoing ready =>
    calls = [c.dials, c.warms ready, c.echos ready] ∧ connections ∧ sumUsize ready ≠ 0
  | .recounting ready _ => calls = [c.dials, c.warms ready, c.echos ready] ∧ echo
  | .rating ready job _ =>
    calls = [c.dials, c.warms ready, c.echos ready, c.rates job] ∧ echo ∧ c.rateJob = some job
  | .over => True

namespace Session

/-- What the reports say adds up. A BenchEcho without a result had no connection to run on. -/
structure Adds (c : Settings) (s : Session P) : Prop where
  connections : ∀ r, s.connections = some r → r.total = c.numConns ∧
    Settles r.success r.failed r.total ∧ 1 ≤ r.concurrency ∧ r.concurrency ≤ r.total
  echo : ∀ r, s.echo = some r → s.connections.isSome ∧ r.total = c.echoTimes ∧
    1 ≤ r.concurrency ∧ r.concurrency ≤ r.connections ∧
    (Settles r.success r.failed r.total ∨ Settles r.success r.failed 0 ∧
      ∃ os, s.bench.returned[2]? = some os ∧ ∀ lat e, .echo lat e ∈ os → e.slots = 0)
  rate : ∀ r, s.rate = some r → s.echo.isSome ∧ r.recvTimes ≤ r.sendTimes ∧
    r.sendBytes = r.sendTimes * r.payload ∧ r.recvBytes = r.recvTimes * r.payload

structure Inv (cfg : EngineConfig) (c : Settings) (s : Session P) : Prop where
  bench : s.bench.Reach cfg
  threads : s.bench.threads.length = c.threads
  follows : s.stage.Follows c s.bench.calls s.connections.isSome s.echo.isSome
  adds : s.Adds c

variable {cfg : EngineConfig} {c : Settings} {s s' : Session P} {b : Bench P} {os : List Outcome}

/-- The reports are as they were, and the calls that are over still are. -/
theorem Adds.bench (h : s.Adds c) (stage : SessionStage) (hb : s.bench.returned <+: b.returned) :
    Adds c { s with bench := b, stage } := by
  refine ⟨h.connections, fun r hr => ?_, h.rate⟩
  obtain ⟨hconn, htotal, hle, hge, hsettles | ⟨hnone, os, hos, hslots⟩⟩ := h.echo r hr
  · exact ⟨hconn, htotal, hle, hge, .inl hsettles⟩
  · obtain ⟨rest, hrest⟩ := hb
    refine ⟨hconn, htotal, hle, hge, .inr ⟨hnone, os, ?_, hslots⟩⟩
    change b.returned[2]? = some os
    rw [← hrest, List.getElem?_append_left (List.getElem?_eq_some_iff.mp hos).1]
    exact hos

theorem one_le_dialConc (c : Settings) :
    1 ≤ dialConc c.dc c.numConns ∧ dialConc c.dc c.numConns ≤ c.numConns := by
  unfold dialConc Settings.numConns
  omega

theorem echoConc_le {ec : ℤ} {ready : List ℕ} (h : sumUsize ready ≠ 0) :
    1 ≤ echoConc ec ready ∧ echoConc ec ready ≤ sumUsize ready := by
  unfold echoConc
  omega

theorem Inv.dialed (h : s.Inv cfg c) (hpos : 0 < c.threads) (hfit : c.numConns * c.threads < 2 ^ 64)
    (hstage : s.stage = .dialing) (he : s.bench.Ends b os) {used : ℕ} {r : ConnectionsReport}
    (hr : connectionsReport c os used = some r) :
    Inv cfg c { s with bench := b, stage := .counting [], connections := some r } := by
  have hb := he.1.reach h.bench
  have hcalls : b.calls = [c.dials] := by
    have hf := h.follows
    rw [hstage] at hf
    exact he.ready.2.trans hf
  refine ⟨hb, he.1.length_threads.trans h.threads, ⟨hcalls, rfl⟩, ?_⟩
  have hadds := h.adds.bench (.counting []) he.1.returned_grows
  refine ⟨fun r' hr' => ?_, fun r' hr' => ⟨rfl, (hadds.echo r' hr').2⟩, hadds.rate⟩
  obtain rfl := Option.some.inj hr'
  have hans := he.answers hb (by rw [hcalls]; rfl)
  have hset := settles_mergeDials hpos hfit hans
  obtain ⟨sum, -, hrep⟩ := Option.bind_eq_some_iff.mp hr
  obtain rfl := Option.some.inj hrep
  exact ⟨rfl, hset, one_le_dialConc c⟩

theorem Inv.echoed (h : s.Inv cfg c) {ready : List ℕ} (hstage : s.stage = .echoing ready)
    (he : s.bench.Ends b os) {used : ℕ} {ps : PsStats} {r : BenchEchoReport}
    (hr : benchEchoReport c ready os used ps = some r) :
    Inv cfg c { s with
      bench := b
      stage := if c.ratePlan.isSome then .recounting ready [] else .over
      echo := some r } := by
  have hb := he.1.reach h.bench
  have hf := h.follows
  rw [hstage] at hf
  obtain ⟨hcalls, hconn, hready⟩ := hf
  replace hcalls := he.ready.2.trans hcalls
  refine ⟨hb, he.1.length_threads.trans h.threads, ?_, ?_⟩
  · dsimp only
    split
    · exact ⟨hcalls, rfl⟩
    · trivial
  have hadds := h.adds.bench .over he.1.returned_grows
  refine ⟨hadds.connections, fun r' hr' => ?_, fun r' hr' => ⟨rfl, (hadds.rate r' hr').2⟩⟩
  obtain rfl := Option.some.inj hr'
  obtain ⟨hl, hreach⟩ := hb.linked
  obtain ⟨hlen, hlast⟩ := he.returned hb
  obtain ⟨hdone, hout⟩ := hl.settled he.ready.1
  have hround : b.engine.rounds.getLast? = some (c.echos ready) := by
    change b.calls.getLast? = _
    rw [hcalls]
    rfl
  have hset := hreach.settles_mergeEchos hround rfl hdone
  rw [hout hlast] at hset
  obtain ⟨sum, -, hrep⟩ := Option.bind_eq_some_iff.mp hr
  obtain rfl := Option.some.inj hrep
  refine ⟨hconn, rfl, (echoConc_le hready).1, (echoConc_le hready).2, ?_⟩
  rcases hset with hset | ⟨hset, hslots⟩
  · exact .inl hset
  · refine .inr ⟨hset, os, ?_, hslots⟩
    rw [List.getLast?_eq_getElem?, hlen, hcalls] at hlast
    exact hlast

theorem Inv.rated {next : P.H3 → ℕ} (hn : NumbersStreams next) (h : s.Inv cfg c) {ready : List ℕ}
    {job : RateJob} {conns : ℕ} (hstage : s.stage = .rating ready job conns)
    (he : s.bench.Ends b os) (ps : PsStats) :
    Inv cfg c { s with
      bench := b, stage := .over, rate := some (benchRateReport c job.batch conns os ps) } := by
  have hb := he.1.reach h.bench
  have hf := h.follows
  rw [hstage] at hf
  obtain ⟨hcalls, hecho, hjob⟩ := hf
  replace hcalls := he.ready.2.trans hcalls
  refine ⟨hb, he.1.length_threads.trans h.threads, trivial, ?_⟩
  have hadds := h.adds.bench .over he.1.returned_grows
  refine ⟨hadds.connections, hadds.echo, fun r' hr' => ?_⟩
  obtain rfl := Option.some.inj hr'
  have hsums := hb.adds_sumRates hn he.ready.1 (he.returned hb).2
    [c.dials, c.warms ready, c.echos ready] hcalls (by
      intro cmds hm
      simp only [List.mem_cons, List.not_mem_nil, or_false] at hm
      rcases hm with rfl | rfl | rfl
      · exact isRate_dials c
      · exact isRate_echoCommands _ _ _
      · exact isRate_echoCommands _ _ _)
  have hpayload : job.payload.length = c.payload := by
    obtain ⟨plan, _, hplan⟩ := Option.bind_eq_some_iff.mp hjob
    obtain ⟨tick, _, htick⟩ := Option.bind_eq_some_iff.mp hplan
    obtain rfl := Option.some.inj htick
    exact c.length_body
  rw [hpayload] at hsums
  exact ⟨hecho, hsums.recvTimes, hsums.sendBytes, hsums.recvBytes⟩

theorem Step.inv {next : P.H3 → ℕ} (hn : NumbersStreams next) (hpos : 0 < c.threads)
    (hfit : c.numConns * c.threads < 2 ^ 64) (hs : Step c s s') (h : s.Inv cfg c) : s'.Inv cfg c := by
  have hf := h.follows
  have keep : ∀ {b : Bench P} (stage : SessionStage), Bench.Step s.bench b →
      stage.Follows c b.calls s.connections.isSome s.echo.isSome →
      Inv cfg c { s with bench := b, stage } :=
    fun stage hb hf => ⟨hb.reach h.bench, hb.length_threads.trans h.threads, hf,
      h.adds.bench stage hb.returned_grows⟩
  have stay : ∀ (stage : SessionStage), stage.Follows c s.bench.calls s.connections.isSome s.echo.isSome →
      Inv cfg c { s with stage } :=
    fun stage hf => ⟨h.bench, h.threads, hf, h.adds.bench stage (List.prefix_refl _)⟩
  cases hs with
  | work hb => exact keep s.stage hb.1 (hb.2.1 ▸ hf)
  | dial hstage hb =>
    rw [hstage] at hf
    refine keep _ hb.1 ?_
    change _ = _
    rw [hb.2, show s.bench.calls = [] from hf]
    rfl
  | dialed hstage he hr => exact h.dialed hpos hfit hstage he hr
  | count hstage =>
    rw [hstage] at hf
    exact stay _ hf
  | none hstage =>
    rw [hstage] at hf
    exact stay _ hf
  | warm hstage hlen hready hb =>
    rw [hstage] at hf
    obtain ⟨hcalls, hconn⟩ := hf
    refine keep _ hb.1 ⟨?_, hconn, hready⟩
    rw [hb.2, hcalls]
    rfl
  | warmed hstage he =>
    rw [hstage] at hf
    exact keep _ he.1 (he.ready.2 ▸ hf)
  | echo hstage hb =>
    rw [hstage] at hf
    obtain ⟨hcalls, hconn, hready⟩ := hf
    refine keep _ hb.1 ⟨?_, hconn, hready⟩
    rw [hb.2, hcalls]
    rfl
  | echoed hstage he hr => exact h.echoed hstage he hr
  | recount hstage =>
    rw [hstage] at hf
    exact stay _ hf
  | rate hstage _ hjob hb =>
    rw [hstage] at hf
    refine keep _ hb.1 ⟨?_, hf.2, hjob⟩
    rw [hb.2, hf.1]
    rfl
  | rated hstage he => exact h.rated hn hstage he _

/-- The next line of `main`, when the clock stands still and nothing is sampled. -/
def next (c : Settings) (s : Session P) : Option (Session P) :=
  let begin (cmds : List Command) (stage : SessionStage) : Option (Session P) :=
    (s.bench.act (.call cmds)).map (fun b => { s with bench := b, stage })
  match s.stage with
  | .start => begin c.dials .dialing
  | .dialing => do
    let b ← s.bench.act .ret
    let r ← connectionsReport c (b.returned.getLast?.getD []) 0
    return { s with bench := b, stage := .counting [], connections := some r }
  | .counting ready =>
    if ready.length = s.bench.threads.length then
      if sumUsize ready = 0 then some { s with stage := .fatal }
      else begin (c.warms ready) (.warming ready)
    else (s.bench.threads[ready.length]?).map (fun t =>
      { s with stage := .counting (ready ++ [t.w.ready.toNat]) })
  | .warming ready => (s.bench.act .ret).map (fun b => { s with bench := b, stage := .warmed ready })
  | .warmed ready => begin (c.echos ready) (.echoing ready)
  | .echoing ready => do
    let b ← s.bench.act .ret
    let r ← benchEchoReport c ready (b.returned.getLast?.getD []) 0 {}
    return { s with
      bench := b
      stage := if c.ratePlan.isSome then .recounting ready [] else .over
      echo := some r }
  | .recounting ready again =>
    if again.length = s.bench.threads.length then
      c.rateJob.bind (fun job => begin (c.rates job) (.rating ready job (sumUsize again)))
    else (s.bench.threads[again.length]?).map (fun t =>
      { s with stage := .recounting ready (again ++ [t.w.ready.toNat]) })
  | .rating _ job conns => (s.bench.act .ret).map (fun b => { s with
      bench := b
      stage := .over
      rate := some (benchRateReport c job.batch conns (b.returned.getLast?.getD []) {}) })
  | .fatal | .over => none

/-- A line of `main`, or an action of the engine other than the start and the end of a call. -/
def act (c : Settings) (s : Session P) : Option Bench.Action → Option (Session P)
  | none => s.next c
  | some a => (s.bench.act a).bind (fun b =>
      if b.calls.length = s.bench.calls.length ∧ b.returned.length = s.bench.returned.length then
        some { s with bench := b }
      else none)

theorem begins_of_act {b b' : Bench P} {cmds : List Command} (h : b.act (.call cmds) = some b') :
    b.Begins b' cmds := by
  refine ⟨Bench.step_of_act h, ?_⟩
  simp only [Bench.act] at h
  split at h
  · split at h
    · rw [← Option.some.inj h]
    · cases h
  · cases h

theorem ends_of_act {b b' : Bench P} (h : b.act .ret = some b') :
    b.Ends b' (b'.returned.getLast?.getD []) := by
  refine ⟨Bench.step_of_act h, ?_⟩
  simp only [Bench.act] at h
  split at h
  · split at h
    · obtain ⟨os, -, rfl⟩ := Option.map_eq_some_iff.mp h
      simp
    · cases h
  · cases h

theorem step_of_next (h : s.next c = some s') : Step c s s' := by
  unfold next at h
  split at h
  · obtain ⟨b, hb, rfl⟩ := Option.map_eq_some_iff.mp h
    exact .dial ‹_› (begins_of_act hb)
  · obtain ⟨b, hb, h⟩ := Option.bind_eq_some_iff.mp h
    obtain ⟨r, hr, h⟩ := Option.bind_eq_some_iff.mp h
    exact Option.some.inj h ▸ .dialed ‹_› (ends_of_act hb) hr
  · rename_i ready hstage
    split at h
    · rename_i hlen
      split at h
      · exact Option.some.inj h ▸ .none hstage hlen ‹_›
      · obtain ⟨b, hb, rfl⟩ := Option.map_eq_some_iff.mp h
        exact .warm hstage hlen ‹_› (begins_of_act hb)
    · obtain ⟨t, ht, rfl⟩ := Option.map_eq_some_iff.mp h
      exact .count hstage ht
  · obtain ⟨b, hb, rfl⟩ := Option.map_eq_some_iff.mp h
    exact .warmed ‹_› (ends_of_act hb)
  · obtain ⟨b, hb, rfl⟩ := Option.map_eq_some_iff.mp h
    exact .echo ‹_› (begins_of_act hb)
  · obtain ⟨b, hb, h⟩ := Option.bind_eq_some_iff.mp h
    obtain ⟨r, hr, h⟩ := Option.bind_eq_some_iff.mp h
    exact Option.some.inj h ▸ .echoed ‹_› (ends_of_act hb) hr
  · rename_i ready again hstage
    split at h
    · obtain ⟨job, hjob, h⟩ := Option.bind_eq_some_iff.mp h
      obtain ⟨b, hb, rfl⟩ := Option.map_eq_some_iff.mp h
      exact .rate hstage ‹_› hjob (begins_of_act hb)
    · obtain ⟨t, ht, rfl⟩ := Option.map_eq_some_iff.mp h
      exact .recount hstage ht
  · obtain ⟨b, hb, rfl⟩ := Option.map_eq_some_iff.mp h
    exact .rated ‹_› (ends_of_act hb)
  · cases h
  · cases h

theorem step_of_act {a : Option Bench.Action} (h : s.act c a = some s') : Step c s s' := by
  cases a with
  | none => exact step_of_next h
  | some a =>
    obtain ⟨b, hb, h⟩ := Option.bind_eq_some_iff.mp h
    split at h
    · rename_i hlen
      have hstep := Bench.step_of_act hb
      refine Option.some.inj h ▸ .work ⟨hstep, ?_, ?_⟩
      · exact (hstep.calls_prefix.eq_of_length hlen.1.symm).symm
      · exact (hstep.returned_grows.eq_of_length hlen.2.symm).symm
    · cases h

/-- A run that is evaluated to a state with the property `p`. -/
theorem exists_reach (cfg : EngineConfig) (c : Settings) (starts : List (P.Os × Instant))
    (hlen : starts.length = c.threads) (l : List (Option Bench.Action)) (p : Session P → Bool)
    (h : (l.foldlM (act c) (new cfg starts)).any p) : ∃ s : Session P, s.Reach cfg c ∧ p s := by
  have key : ∀ (l : List (Option Bench.Action)) (s : Session P) s', l.foldlM (act c) s = some s' →
      Relation.ReflTransGen (Step c) s s' := by
    intro l
    induction l with
    | nil => intro s s' hs; exact Option.some.inj hs ▸ .refl
    | cons a rest ih =>
      intro s s' hs
      rw [List.foldlM_cons] at hs
      obtain ⟨s₁, hact, hrest⟩ := Option.bind_eq_some_iff.mp hs
      exact .head (step_of_act hact) (ih s₁ s' hrest)
  obtain ⟨s, hs, hp⟩ := (Option.any_eq_true ..).mp h
  exact ⟨s, ⟨starts, hlen, key l _ s hs⟩, hp⟩

/-- One connection, two requests. -/
def smallSettings : Settings where
  framework := "quiche".toList
  threads := 1
  c := 1
  dc := 1
  ec := 1
  en := 2
  el := 0
  b := 1
  rd := 1
  rr := 1
  rl := 0
  tpn := true
  ep := false
  rp := false
  payloads := [[7]]
  body := [7]
  ratePlan := none
  length_payloads := by decide
  length_body := by decide

/-- What its worker finds: a handshake, five answers to warm up and two that are measured. -/
def smallStarts : List (loopback.Os × Instant) := [({
  polls := [[.waker], [.slot 0], [.slot 0], [.waker]] ++ List.replicate 5 [.slot 0] ++
    [[.waker], [.slot 0], [.slot 0]]
  inbox := [([[1]], none), ([[2]], none)] ++ List.replicate 7 ([[2, 7]], none) }, 0)]

def smallRun : List (Option Bench.Action) :=
  [none, some .send, some .wait] ++ List.replicate 17 (some (.turn 0)) ++
    [some .recv, none, none, none, some .send, some .wait] ++
    List.replicate 46 (some (.turn 0)) ++ [some .recv, none, none, some .send, some .wait] ++
    List.replicate 24 (some (.turn 0)) ++ [some .recv, none]

end Session

end Http3Bench
