import Http3Bench.PsSource
import Mathlib.Tactic.Linarith
import Mathlib.Tactic.FieldSimp

/-!
# The thread that samples a process

The loop of `Sampler::start` in `benchkit/src/procstat.rs`, in exact arithmetic and with instants in
nanoseconds. A read of the process comes with the time the thread takes for it; how long the thread
sleeps before it is left out.
-/

namespace Http3Bench

namespace Sampler

/-- One read of the process: its CPU time and resident memory, or why there are none. -/
structure Read where
  now : Instant
  result : Except String (Duration × ℕ)

structure Thread where
  pid : ℤ
  last : Instant
  lastCpu : Duration
  failures : ℕ := 0
  samples : Samples := {}
  /-- What the thread logs when it gives up. -/
  stopped : Option String := none

/-- `Sampler::start` after its first read; `began` is the time the new thread starts from, if it can be
spawned. -/
def start (pid : ℤ) (first : Except String (Duration × ℕ)) (began : Instant)
    (spawn : Except String Unit) : Except String Thread :=
  match first, spawn with
  | .ok (cpu, _), .ok () => .ok { pid := pid, last := began, lastCpu := cpu }
  | .ok _, .error e => .error e
  | .error e, _ => .error s!"pid {pid}: {e}"

/-- `as_secs_f64`. -/
def asSecs (d : Duration) : ℚ := (d : ℚ) / 10 ^ 9

namespace Thread

/-- One round of the loop. -/
def sample (th : Thread) (r : Read) : Thread :=
  if th.stopped.isSome then th
  else match r.result with
    | .ok (cpu, rss) =>
      let wall := asSecs (r.now - th.last)
      let percent := asSecs (cpu - th.lastCpu) / wall * 100
      { th with
        failures := 0
        samples := ⟨th.samples.cpu ++ [percent], th.samples.rss ++ [rss]⟩
        lastCpu := cpu
        last := r.now }
    | .error e =>
      let failures := th.failures + 1
      if 5 ≤ failures then
        { th with
          failures := failures
          stopped := some s!"sampling pid {th.pid} stopped after {failures} failures: {e}" }
      else { th with failures := failures, last := r.now }

def run (th : Thread) (reads : List Read) : Thread := reads.foldl sample th

end Thread

/-- The time and the CPU time of the last read that succeeded; `first` is the one of `start`. -/
def lastRead (first : Instant × Duration) (reads : List Read) : Instant × Duration :=
  reads.foldl (fun p r => match r.result with
    | .ok (cpu, _) => (r.now, cpu)
    | .error _ => p) first

/-- The CPU used between one read that succeeds and the next, as a percent of the time between. -/
def exactPercents : Instant × Duration → List Read → List ℚ
  | _, [] => []
  | (t, c), r :: reads => match r.result with
    | .ok (cpu, _) => 100 * ((cpu : ℚ) - c) / ((r.now : ℚ) - t) :: exactPercents (r.now, cpu) reads
    | .error _ => exactPercents (t, c) reads

/-- `L` holds of every read of a run and the reads before it. -/
def Throughout (L : List Read → Read → Prop) (reads : List Read) : Prop :=
  ∀ pre r post, reads = pre ++ r :: post → L pre r

/-- The time of the last read, whether it succeeded or not. -/
def lastNow (began : Instant) (reads : List Read) : Instant := (reads.map Read.now).getLastD began

/-- Of any five reads in a row one succeeds. -/
def NeverFive (reads : List Read) : Prop :=
  ∀ l, l <:+: reads → l.length = 5 → ∃ r ∈ l, r.result.toOption.isSome

/-- No read finds less CPU time than the last one that succeeded. -/
def CpuGrows (first : Instant × Duration) (reads : List Read) : Prop :=
  Throughout (fun pre r => ∀ cpu rss, r.result = .ok (cpu, rss) → (lastRead first pre).2 ≤ cpu) reads

/-- The process uses at most `k` cores between one read that succeeds and the next. -/
def AtMostCores (k : ℚ) (first : Instant × Duration) (reads : List Read) : Prop :=
  Throughout (fun pre r => ∀ cpu rss, r.result = .ok (cpu, rss) →
    (cpu : ℚ) - (lastRead first pre).2 ≤ k * ((r.now : ℚ) - (lastRead first pre).1)) reads

/-- Nothing failed since the last read that succeeded, or no CPU was used since. -/
def Direct (first : Instant × Duration) (began : Instant) (pre : List Read) (r : Read) : Prop :=
  ∀ cpu rss, r.result = .ok (cpu, rss) → cpu = (lastRead first pre).2 ∨
    match pre.getLast? with
    | none => began = first.1
    | some q => q.result.toOption.isSome

section Splits

variable {L : List Read → Read → Prop} {reads : List Read} {r : Read}

theorem throughout_nil : Throughout L [] := by
  intro pre r post h
  simp at h

theorem throughout_concat : Throughout L (reads ++ [r]) ↔ Throughout L reads ∧ L reads r := by
  constructor
  · intro h
    refine ⟨?_, h reads r [] rfl⟩
    intro pre q post heq
    exact h pre q (post ++ [r]) (by rw [heq]; simp)
  · rintro ⟨h, hr⟩ pre q post heq
    rcases List.eq_nil_or_concat post with rfl | ⟨post, q', rfl⟩
    · obtain ⟨rfl, hq⟩ := List.append_inj' heq rfl
      cases hq
      exact hr
    · have hsplit : reads ++ [r] = (pre ++ q :: post) ++ [q'] := by simpa using heq
      exact h pre q post (List.append_inj' hsplit rfl).1

theorem throughout_cons :
    Throughout L (r :: reads) ↔ L [] r ∧ Throughout (fun pre => L (r :: pre)) reads := by
  constructor
  · intro h
    refine ⟨h [] r reads rfl, ?_⟩
    intro pre q post heq
    exact h (r :: pre) q post (by rw [heq, List.cons_append])
  · rintro ⟨hr, h⟩ pre q post heq
    cases pre with
    | nil =>
      cases heq
      exact hr
    | cons p pre =>
      injection heq with hp hreads
      rw [← hp]
      exact h pre q post hreads

end Splits

variable {first : Instant × Duration} {reads : List Read} {r : Read} {began : Instant}

theorem run_concat (th : Thread) (reads : List Read) (r : Read) :
    th.run (reads ++ [r]) = (th.run reads).sample r := by
  rw [Thread.run, List.foldl_append]
  rfl

theorem lastRead_concat : lastRead first (reads ++ [r]) = match r.result with
    | .ok (cpu, _) => (r.now, cpu)
    | .error _ => lastRead first reads := by
  simp only [lastRead, List.foldl_append, List.foldl_cons, List.foldl_nil]

theorem lastNow_concat : lastNow began (reads ++ [r]) = r.now := by simp [lastNow]

theorem exactPercents_concat : exactPercents first (reads ++ [r]) = exactPercents first reads ++
    match r.result with
    | .ok (cpu, _) => [100 * ((cpu : ℚ) - (lastRead first reads).2) /
        ((r.now : ℚ) - (lastRead first reads).1)]
    | .error _ => [] := by
  induction reads generalizing first with
  | nil => cases h : r.result <;> simp [exactPercents, lastRead, h]
  | cons q reads ih =>
    obtain ⟨t, c⟩ := first
    cases h : q.result with
    | ok v => simp [exactPercents, lastRead, h, ih]
    | error e => simp [exactPercents, lastRead, h, ih]

/-- What the thread remembers after the reads so far. -/
structure Tracks (first : Instant × Duration) (began : Instant) (reads : List Read)
    (th : Thread) : Prop where
  last : th.last = lastNow began reads
  lastCpu : th.lastCpu = (lastRead first reads).2
  stopped : th.stopped = none
  few : th.failures < 5
  /-- The failures since the last read that succeeded. -/
  failing : ∃ l, l <:+ reads ∧ l.length = th.failures ∧ ∀ q ∈ l, q.result.toOption = none

theorem Tracks.sample_ok {th : Thread} {cpu : Duration} {rss : ℕ}
    (h : Tracks first began reads th) (hr : r.result = .ok (cpu, rss)) :
    th.sample r = { th with
      failures := 0
      samples := ⟨th.samples.cpu ++
        [asSecs (cpu - (lastRead first reads).2) / asSecs (r.now - lastNow began reads) * 100],
        th.samples.rss ++ [rss]⟩
      lastCpu := cpu
      last := r.now } := by
  simp only [Thread.sample, h.stopped, hr, ← h.last, ← h.lastCpu]
  rfl

theorem Tracks.sample_error {th : Thread} {e : String} (h : Tracks first began reads th)
    (hr : r.result = .error e) (hfew : th.failures + 1 < 5) :
    th.sample r = { th with failures := th.failures + 1, last := r.now } := by
  simp only [Thread.sample, h.stopped, hr]
  rw [if_neg (by simp), if_neg (by omega)]

theorem samples_of_error {th : Thread} {e : String} (hr : r.result = .error e) :
    (th.sample r).samples = th.samples := by
  simp only [Thread.sample, hr]
  split
  · rfl
  · split <;> rfl

theorem Tracks.next {th : Thread} (h : Tracks first began reads th)
    (hfive : NeverFive (reads ++ [r])) : Tracks first began (reads ++ [r]) (th.sample r) := by
  cases hr : r.result with
  | ok v =>
    obtain ⟨cpu, rss⟩ := v
    rw [h.sample_ok hr]
    exact ⟨lastNow_concat.symm, by rw [lastRead_concat, hr], h.stopped, by simp, [], by simp⟩
  | error e =>
    obtain ⟨l, hl, hlen, hall⟩ := h.failing
    have hsuffix : l ++ [r] <:+ reads ++ [r] := by
      obtain ⟨pre, rfl⟩ := hl
      exact ⟨pre, by simp⟩
    have hfailed : ∀ q ∈ l ++ [r], q.result.toOption = none := by
      intro q hq
      rcases List.mem_append.mp hq with hq | hq
      · exact hall q hq
      · rw [List.mem_singleton.mp hq, hr]
        rfl
    have hfew : th.failures + 1 < 5 := by
      by_contra hmany
      have hlong : (l ++ [r]).length = 5 := by
        have := h.few
        rw [List.length_append, hlen, List.length_singleton]
        omega
      obtain ⟨q, hq, hok⟩ := hfive _ hsuffix.isInfix hlong
      rw [hfailed q hq] at hok
      cases hok
    rw [h.sample_error hr hfew]
    exact ⟨lastNow_concat.symm, by rw [lastRead_concat, hr]; exact h.lastCpu, h.stopped, hfew,
      l ++ [r], hsuffix, by simp [hlen], hfailed⟩

theorem NeverFive.left (h : NeverFive (reads ++ [r])) : NeverFive reads :=
  fun l hl => h l (hl.trans (List.prefix_append _ _).isInfix)

/-- The thread after a run that never failed five times in a row. -/
theorem tracks_run {pid : ℤ} {rss : ℕ} {th : Thread}
    (hstart : start pid (.ok (first.2, rss)) began (.ok ()) = .ok th) (hfive : NeverFive reads) :
    Tracks first began reads (th.run reads) := by
  induction reads using List.reverseRecOn with
  | nil =>
    cases hstart
    exact ⟨rfl, rfl, rfl, by simp [Thread.run], [], by simp [Thread.run]⟩
  | append_singleton reads r ih =>
    rw [run_concat]
    exact (ih hfive.left).next hfive

/-- The quotient of the code is the one asked for only if the two intervals are the same, or
nothing is divided. -/
theorem percent_eq_iff {t last now c cpu : ℕ} (ht : t ≤ last) (hnow : last < now) (hc : c ≤ cpu) :
    asSecs (cpu - c) / asSecs (now - last) * 100 = 100 * ((cpu : ℚ) - c) / ((now : ℚ) - t) ↔
      cpu = c ∨ last = t := by
  have hwall : (0 : ℚ) < (now : ℚ) - last := by
    rw [sub_pos]
    exact_mod_cast hnow
  have htime : (0 : ℚ) < (now : ℚ) - t := by
    rw [sub_pos]
    exact_mod_cast ht.trans_lt hnow
  have hquot : asSecs (cpu - c) / asSecs (now - last) * 100 =
      100 * ((cpu : ℚ) - c) / ((now : ℚ) - last) := by
    rw [asSecs, asSecs, Nat.cast_sub hc, Nat.cast_sub hnow.le]
    field_simp
  rw [hquot, div_eq_div_iff hwall.ne' htime.ne']
  constructor
  · intro heq
    rcases eq_or_ne cpu c with hcpu | hcpu
    · exact .inl hcpu
    · right
      have hne : (100 : ℚ) * ((cpu : ℚ) - c) ≠ 0 := by
        apply mul_ne_zero (by norm_num)
        rw [sub_ne_zero]
        exact_mod_cast hcpu
      have hsame := mul_left_cancel₀ hne heq
      have : (last : ℚ) = t := by linarith
      exact_mod_cast this
  · rintro (rfl | rfl)
    · simp
    · rfl

/-- The reads come one after the other, the first after the thread has started. -/
def Increasing (began : Instant) (reads : List Read) : Prop :=
  (began :: reads.map Read.now).Pairwise (· < ·)

instance (began : Instant) (reads : List Read) : Decidable (Increasing began reads) :=
  inferInstanceAs (Decidable (List.Pairwise _ _))

theorem Increasing.concat (h : Increasing began (reads ++ [r])) :
    Increasing began reads ∧ lastNow began reads < r.now := by
  rw [Increasing, List.map_append, ← List.cons_append, List.pairwise_append] at h
  refine ⟨h.1, h.2.2 _ ?_ r.now (by simp)⟩
  exact List.getLastD_mem_cons

theorem lastRead_le_lastNow (hfirst : first.1 ≤ began) (h : Increasing began reads) :
    (lastRead first reads).1 ≤ lastNow began reads := by
  induction reads using List.reverseRecOn with
  | nil => exact hfirst
  | append_singleton reads r ih =>
    obtain ⟨hreads, hnow⟩ := h.concat
    rw [lastRead_concat, lastNow_concat]
    cases r.result with
    | ok v => exact le_rfl
    | error e => exact (ih hreads).trans hnow.le

/-- The clock of the thread stands at the last read that succeeded only if none failed since. -/
theorem lastNow_eq_iff (hfirst : first.1 ≤ began) (h : Increasing began reads) :
    lastNow began reads = (lastRead first reads).1 ↔ match reads.getLast? with
      | none => began = first.1
      | some q => q.result.toOption.isSome := by
  rcases List.eq_nil_or_concat reads with rfl | ⟨pre, r, rfl⟩
  · exact Iff.rfl
  · rw [List.concat_eq_append] at h ⊢
    obtain ⟨hpre, hnow⟩ := h.concat
    have hle := lastRead_le_lastNow hfirst hpre
    rw [lastRead_concat, lastNow_concat, List.getLast?_concat]
    cases hr : r.result with
    | ok v => simp [Except.toOption, hr]
    | error e => simpa [Except.toOption, hr] using (hle.trans_lt hnow).ne'

/-- The samples are the exact percents just when every read that finds more CPU time comes right
after the read it is compared with. -/
theorem cpu_eq_iff {pid : ℤ} {rss : ℕ} {th : Thread}
    (hstart : start pid (.ok (first.2, rss)) began (.ok ()) = .ok th) (hfirst : first.1 ≤ began)
    (hinc : Increasing began reads) (hgrow : CpuGrows first reads) (hfive : NeverFive reads) :
    (th.run reads).samples.cpu = exactPercents first reads ↔
      Throughout (Direct first began) reads := by
  induction reads using List.reverseRecOn with
  | nil =>
    cases hstart
    simp [Thread.run, exactPercents, throughout_nil]
  | append_singleton reads r ih =>
    obtain ⟨hpre, hnow⟩ := hinc.concat
    obtain ⟨hgrow, hr⟩ := throughout_concat.mp hgrow
    have htracks := tracks_run hstart hfive.left
    have hle := lastRead_le_lastNow hfirst hpre
    rw [throughout_concat, ← ih hpre hgrow hfive.left, exactPercents_concat, run_concat]
    cases hres : r.result with
    | ok v =>
      obtain ⟨cpu, rss⟩ := v
      have hpercent := percent_eq_iff hle hnow (hr cpu rss hres)
      rw [lastNow_eq_iff hfirst hpre] at hpercent
      have hdirect : Direct first began reads r ↔ (cpu = (lastRead first reads).2 ∨
          match reads.getLast? with
          | none => began = first.1
          | some q => q.result.toOption.isSome) := by
        constructor
        · exact fun h => h cpu rss hres
        · intro h cpu' rss' hres'
          cases hres.symm.trans hres'
          exact h
      rw [htracks.sample_ok hres, hdirect, ← hpercent]
      constructor
      · intro heq
        obtain ⟨hcpu, hlast⟩ := List.append_inj' heq rfl
        exact ⟨hcpu, List.singleton_inj.mp hlast⟩
      · rintro ⟨hcpu, hlast⟩
        exact congrArg₂ (· ++ ·) hcpu (congrArg (fun x => [x]) hlast)
    | error e =>
      have hdirect : Direct first began reads r := by
        intro cpu rss hok
        cases hres.symm.trans hok
      rw [samples_of_error hres, List.append_nil]
      exact (and_iff_left hdirect).symm

theorem le_of_mem_exactPercents {k p : ℚ} (hfirst : first.1 ≤ began) (hinc : Increasing began reads)
    (hcores : AtMostCores k first reads) (hp : p ∈ exactPercents first reads) : p ≤ 100 * k := by
  induction reads using List.reverseRecOn with
  | nil => cases hp
  | append_singleton reads r ih =>
    obtain ⟨hpre, hnow⟩ := hinc.concat
    obtain ⟨hcores, hr⟩ := throughout_concat.mp hcores
    rw [exactPercents_concat, List.mem_append] at hp
    rcases hp with hp | hp
    · exact ih hpre hcores hp
    · cases hres : r.result with
      | ok v =>
        have huse := hr v.1 v.2 hres
        have htime : (0 : ℚ) < (r.now : ℚ) - (lastRead first reads).1 := by
          rw [sub_pos]
          exact_mod_cast (lastRead_le_lastNow hfirst hpre).trans_lt hnow
        rw [hres, List.mem_singleton] at hp
        rw [hp, div_le_iff₀ htime]
        linarith
      | error e =>
        rw [hres] at hp
        cases hp

theorem length_cpu_eq_rss {pid : ℤ} {result : Except String (Duration × ℕ)} {th : Thread}
    (hstart : start pid result began (.ok ()) = .ok th) (reads : List Read) :
    (th.run reads).samples.cpu.length = (th.run reads).samples.rss.length := by
  induction reads using List.reverseRecOn with
  | nil =>
    cases result with
    | ok v =>
      cases hstart
      rfl
    | error e => cases hstart
  | append_singleton reads r ih =>
    rw [run_concat]
    cases hres : r.result with
    | ok v =>
      simp only [Thread.sample, hres]
      split
      · exact ih
      · simpa using ih
    | error e => rwa [samples_of_error hres]

/-- The samples cover the intervals they are divided by, in exactly the runs in which no read fails
between two that succeed with CPU used between them, and in which the thread starts from the time of
the first read. -/
theorem samples_exact_iff {pid : ℤ} {rss : ℕ} {th : Thread}
    (hstart : start pid (.ok (first.2, rss)) began (.ok ()) = .ok th) (hfirst : first.1 ≤ began)
    (hinc : Increasing began reads) (hgrow : CpuGrows first reads) (hfive : NeverFive reads) :
    ((th.run reads).samples.cpu.length = (th.run reads).samples.rss.length ∧
      (th.run reads).samples.cpu = exactPercents first reads ∧
      ∀ k, AtMostCores k first reads → ∀ p ∈ (th.run reads).samples.cpu, p ≤ 100 * k) ↔
    Throughout (Direct first began) reads := by
  have hexact := cpu_eq_iff hstart hfirst hinc hgrow hfive
  constructor
  · exact fun h => hexact.mp h.2.1
  · intro hdirect
    have hcpu := hexact.mpr hdirect
    refine ⟨length_cpu_eq_rss hstart reads, hcpu, ?_⟩
    intro k hcores p hp
    rw [hcpu] at hp
    exact le_of_mem_exactPercents hfirst hinc hcores hp

theorem neverFive_of_length (h : reads.length < 5) : NeverFive reads := by
  intro l hl hlen
  have := hl.length_le
  omega

/-- The reads of a process that uses no CPU around the one that fails. -/
def restingReads : List Read :=
  [⟨10 ^ 9, .ok (5 * 10 ^ 8, 4096)⟩, ⟨2 * 10 ^ 9, .error "e"⟩, ⟨3 * 10 ^ 9, .ok (5 * 10 ^ 8, 4096)⟩,
    ⟨4 * 10 ^ 9, .ok (15 * 10 ^ 8, 4096)⟩]

/-- Half a second of CPU in the first second, none up to the third, and all of the fourth. -/
theorem samples_exact_half : Throughout (Direct (0, 0) 0) restingReads ∧
    (Thread.run ⟨7, 0, 0, 0, {}, none⟩ restingReads).samples.cpu = [50, 0, 100] := by
  have hdirect : Throughout (Direct (0, 0) 0) restingReads := by
    refine throughout_cons.mpr ⟨fun _ _ _ => .inr rfl, throughout_cons.mpr ⟨?_, throughout_cons.mpr ⟨?_,
      throughout_cons.mpr ⟨fun _ _ _ => .inr rfl, throughout_nil⟩⟩⟩⟩
    · intro cpu rss h
      cases h
    · intro cpu rss h
      cases h
      exact .inl rfl
  have hgrow : CpuGrows (0, 0) restingReads := by
    refine throughout_cons.mpr ⟨fun _ _ _ => Nat.zero_le _, throughout_cons.mpr ⟨?_,
      throughout_cons.mpr ⟨?_, throughout_cons.mpr ⟨?_, throughout_nil⟩⟩⟩⟩
    all_goals
      intro cpu rss h
      cases h
    all_goals decide
  have hstart : start 7 (.ok (0, 4096)) 0 (.ok ()) = .ok ⟨7, 0, 0, 0, {}, none⟩ := rfl
  have hexact := (samples_exact_iff hstart le_rfl (by decide) hgrow
    (neverFive_of_length (by decide))).mpr hdirect
  exact ⟨hdirect, hexact.2.1.trans (by decide +kernel)⟩

/-- One core in use all the time: the sample after a read that failed says two. -/
theorem samples_exact_failed :
    Increasing 0 [⟨10 ^ 9, .error "e"⟩, ⟨2 * 10 ^ 9, .ok (2 * 10 ^ 9, 4096)⟩] ∧
    CpuGrows (0, 0) [⟨10 ^ 9, .error "e"⟩, ⟨2 * 10 ^ 9, .ok (2 * 10 ^ 9, 4096)⟩] ∧
    NeverFive [⟨10 ^ 9, .error "e"⟩, ⟨2 * 10 ^ 9, .ok (2 * 10 ^ 9, 4096)⟩] ∧
    AtMostCores 1 (0, 0) [⟨10 ^ 9, .error "e"⟩, ⟨2 * 10 ^ 9, .ok (2 * 10 ^ 9, 4096)⟩] ∧
    (Thread.run ⟨7, 0, 0, 0, {}, none⟩
      [⟨10 ^ 9, .error "e"⟩, ⟨2 * 10 ^ 9, .ok (2 * 10 ^ 9, 4096)⟩]).samples.cpu = [200] ∧
    exactPercents (0, 0) [⟨10 ^ 9, .error "e"⟩, ⟨2 * 10 ^ 9, .ok (2 * 10 ^ 9, 4096)⟩] = [100] := by
  refine ⟨by decide, ?_, neverFive_of_length (by decide), ?_, by decide +kernel, by decide +kernel⟩
  · refine throughout_cons.mpr ⟨?_, throughout_cons.mpr ⟨?_, throughout_nil⟩⟩
    · intro cpu rss h
      cases h
    · exact fun _ _ _ => Nat.zero_le _
  · refine throughout_cons.mpr ⟨?_, throughout_cons.mpr ⟨?_, throughout_nil⟩⟩
    · intro cpu rss h
      cases h
    · intro cpu rss h
      cases h
      decide +kernel

end Sampler

end Http3Bench
