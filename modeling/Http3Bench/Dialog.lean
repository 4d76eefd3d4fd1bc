import Http3Bench.Front

/-!
# Commands and outcomes

Every command but `Stop` is answered by one outcome, in order. `Serves` ties the phase to the command
it runs, `Answers` the outcome to the command it answers; the counts of an outcome are therefore
those of its command.
-/

namespace Http3Bench

variable {P : Platform}

/-- The round trips of a phase and its latencies. -/
structure EchoPhase.Measured (e : EchoPhase) : Prop where
  counted : e.lat.Counted
  measured : e.job.measure = true → e.lat.success + e.lat.failed = e.completed.length
  exhausted : e.exhausted = true → e.slots = 0 ∨ ∃ n ∈ e.drawn, e.job.times ≤ n

/-- The phase a worker is in while it runs a command. -/
inductive Serves : Command → Phase → Prop
  | dial {count conc : ℕ} {d : DialPhase} :
      d.concurrency = conc → (d.remaining + d.active + d.lat.success + d.lat.failed : ℤ) = count →
      d.active ≤ conc → d.lat.Counted → Serves (.dial count conc) (.dial d)
  | echo {job : EchoJob} {conc : ℕ} {e : EchoPhase} :
      e.job = job → e.slots ≤ conc → e.Measured → Serves (.echo job conc) (.echo e)
  | ratePrep {job : RateJob} {r g : ℕ} : Serves (.rate job) (.ratePrep job r g)
  | rate {job : RateJob} {r : RatePhase} : r.job = job → Serves (.rate job) (.rate r)

/-- The phase that a worker ends with an outcome for `job`. -/
structure EchoPhase.Over (job : EchoJob) (e : EchoPhase) : Prop where
  job_eq : e.job = job
  measured : e.Measured
  exhausted : e.exhausted = true
  inFlight : e.inFlight = 0
  books : e.Books 0

inductive Answers : Command → Outcome → Prop
  | dial {count conc : ℕ} {lat : Latencies} :
      lat.success + lat.failed = count → lat.Counted → Answers (.dial count conc) (.dial lat)
  | echo {job : EchoJob} {conc : ℕ} {e : EchoPhase} :
      e.Over job → Answers (.echo job conc) (.echo e.lat e)
  | rate {job : RateJob} {counts : RateCounts} : Answers (.rate job) (.rate counts)

/-- How far a worker is that has answered the commands `done`. -/
inductive Awaits (done : List Command) (f : Front) : Option (RateJob × ℕ × ℕ) → Prop
  | quiet : f.given = done → f.rx = [] → f.phase = .idle → Awaits done f none
  | asked {cmd : Command} :
      f.given = done ++ [cmd] → f.rx = [cmd] → f.phase = .idle → Awaits done f none
  | serving {cmd : Command} :
      f.given = done ++ [cmd] → f.rx = [] → Serves cmd f.phase → Awaits done f none
  | prep {job : RateJob} {n before : ℕ} :
      f.given = done ++ [.rate job] → f.rx = [] → f.phase = .idle →
      Awaits done f (some (job, n, before))
  | stopped : f.given = done ++ [.stop] → f.rx = [] → f.phase = .idle → Awaits done f none

structure Dialog (f : Front) (p : Option (RateJob × ℕ × ℕ)) : Prop where
  dialog : ∃ done, Awaits done f p ∧ List.Forall₂ Answers done f.sent

namespace EchoPhase.Measured

variable {e : EchoPhase}

theorem complete (h : e.Measured) (i : ℕ) (r : Except String ℕ) (cost n : ℕ) :
    (e.complete i r cost n).Measured where
  counted := by
    unfold EchoPhase.complete
    split
    · cases r with
      | ok a => exact h.counted.ok cost
      | error err => exact h.counted.fail err
    · exact h.counted
  measured := by
    intro hm
    have hsum := h.measured hm
    simp only [EchoPhase.complete] at hm ⊢
    rw [if_pos hm, List.length_cons]
    cases r with
    | ok a =>
      simp only [Latencies.add, Latencies.ok]
      push_cast
      omega
    | error err =>
      simp only [Latencies.add, Latencies.fail]
      push_cast
      omega
  exhausted := h.exhausted

theorem start (job : EchoJob) (conc : ℕ) (idle : List ℕ) :
    (EchoPhase.start job conc idle).Measured where
  counted := Latencies.counted_default
  measured := fun _ => rfl
  exhausted := fun h => .inl (by simpa [EchoPhase.start] using h)

theorem draw (h : e.Measured) (hx : e.exhausted = false) (rest : List ℕ) (n : ℕ) :
    (e.draw rest n).Measured where
  counted := h.counted
  measured := h.measured
  exhausted := fun hx' => absurd hx' (by simp [EchoPhase.draw, hx])

theorem overdraw (h : e.Measured) {n : ℕ} (hn : e.job.times ≤ n) : (e.overdraw n).Measured where
  counted := h.counted
  measured := h.measured
  exhausted := fun _ => .inr ⟨n, by simp [EchoPhase.overdraw], hn⟩

end EchoPhase.Measured

namespace Serves

variable {cmd : Command}

theorem answer {p : Phase} (h : Serves cmd p) (r : Except String ℕ) (cause : Cause) :
    Serves cmd (p.answer r cause) := by
  cases h with
  | dial h₁ h₂ h₃ h₄ => exact .dial h₁ h₂ h₃ h₄
  | echo h₁ h₂ h₃ => exact .echo h₁ h₂ h₃
  | ratePrep => exact .ratePrep
  | rate h => exact .rate h

theorem addSent {p : Phase} (h : Serves cmd p) (n : ℕ) : Serves cmd (p.addSent n) := by
  cases h with
  | dial h₁ h₂ h₃ h₄ => exact .dial h₁ h₂ h₃ h₄
  | echo h₁ h₂ h₃ => exact .echo h₁ h₂ h₃
  | ratePrep => exact .ratePrep
  | rate h => exact .rate h

theorem failed {d : DialPhase} (h : Serves cmd (.dial d)) (err : String) (h0 : d.active ≠ 0) :
    Serves cmd (.dial (d.failed err)) := by
  cases h with
  | dial h₁ h₂ h₃ h₄ =>
    refine .dial h₁ ?_ ((Nat.sub_le _ _).trans h₃) (h₄.fail err)
    simp only [DialPhase.failed, Latencies.fail]
    push_cast [Nat.one_le_iff_ne_zero.mpr h0]
    omega

theorem connected {d : DialPhase} (h : Serves cmd (.dial d)) (cost : ℕ) (h0 : d.active ≠ 0) :
    Serves cmd (.dial (d.connected cost)) := by
  cases h with
  | dial h₁ h₂ h₃ h₄ =>
    refine .dial h₁ ?_ ((Nat.sub_le _ _).trans h₃) (h₄.ok cost)
    simp only [DialPhase.connected, Latencies.ok]
    push_cast [Nat.one_le_iff_ne_zero.mpr h0]
    omega

theorem begin {d : DialPhase} {starts : ℕ} (h : Serves cmd (.dial d))
    (hs : starts = min d.remaining (d.concurrency - d.active)) :
    Serves cmd (.dial (d.begin starts)) := by
  cases h with
  | dial h₁ h₂ h₃ h₄ =>
    refine .dial h₁ ?_ ?_ h₄
    · simp only [DialPhase.begin]
      omega
    · simp only [DialPhase.begin]
      omega

theorem echoed {e e' : EchoPhase} (h : Serves cmd (.echo e)) (hjob : e'.job = e.job)
    (hslots : e'.slots = e.slots) (hm : e.Measured → e'.Measured) : Serves cmd (.echo e') := by
  cases h with
  | echo h₁ h₂ h₃ => exact .echo (hjob.trans h₁) (hslots ▸ h₂) (hm h₃)

end Serves

/-- What ends a phase answers its command. -/
theorem Finishes.answers {p : Phase} {o : Outcome} {cmd : Command} {prep : Option ℕ}
    {m : Multiset Op} (hf : Finishes p o) (hs : Serves cmd p) (hb : p.Books prep m) :
    Answers cmd o := by
  cases hf with
  | dial hr ha =>
    cases hs with
    | dial h₁ h₂ h₃ h₄ => exact .dial (by rw [hr, ha] at h₂; simpa using h₂) h₄
  | echo hx hi =>
    cases hs with
    | echo h₁ h₂ h₃ =>
      exact .echo ⟨h₁, h₃, hx, hi, hb.2.2.mono (Multiset.zero_le _)⟩
  | rate =>
    cases hs
    exact .rate

theorem Serves.ne_idle {cmd : Command} {p : Phase} (h : Serves cmd p) : p ≠ .idle := by
  cases h <;> simp

namespace Awaits

variable {done : List Command} {f f' : Front} {p p' : Option (RateJob × ℕ × ℕ)}

theorem calm (h : Awaits done f p) (hp : f.phase ≠ .idle) :
    ∃ cmd, f.given = done ++ [cmd] ∧ f.rx = [] ∧ Serves cmd f.phase ∧ p = none := by
  cases h with
  | serving hg hrx hs => exact ⟨_, hg, hrx, hs, rfl⟩
  | quiet _ _ h => exact absurd h hp
  | asked _ _ h => exact absurd h hp
  | prep _ _ h => exact absurd h hp
  | stopped _ _ h => exact absurd h hp

/-- A phase turns into another one that serves the same command. -/
theorem turn {phase : Phase} {issued : ℕ} (h : Awaits done f p) (hp : f.phase ≠ .idle)
    (hs : ∀ cmd, Serves cmd f.phase → Serves cmd phase) :
    Awaits done { f with phase := phase, issued := issued } p := by
  obtain ⟨cmd, hg, hrx, hc, rfl⟩ := h.calm hp
  exact .serving hg hrx (hs cmd hc)

theorem start {cmd : Command} {rest : List Command} (h : Awaits done f p) (hrx : f.rx = cmd :: rest) :
    f.given = done ++ [cmd] ∧ rest = [] ∧ f.phase = .idle ∧ p = none := by
  cases h with
  | asked hg hrx' hp =>
    rw [hrx] at hrx'
    obtain ⟨rfl, rfl⟩ := List.cons.inj hrx'
    exact ⟨hg, rfl, hp, rfl⟩
  | quiet _ h => rw [hrx] at h; cases h
  | serving _ h => rw [hrx] at h; cases h
  | prep _ h => rw [hrx] at h; cases h
  | stopped _ h => rw [hrx] at h; cases h

end Awaits

theorem Phase.answer_idle {p : Phase} (h : p = .idle) (r : Except String ℕ) (cause : Cause) :
    p.answer r cause = p := by
  subst h
  rfl

theorem Phase.addSent_idle {p : Phase} (h : p = .idle) (n : ℕ) : p.addSent n = p := by
  subst h
  rfl

theorem FrontStep.dialog {full : Bool} {f f' : Front} {p p' : Option (RateJob × ℕ × ℕ)}
    {prep : Option ℕ}
    {m : Multiset Op} (hs : FrontStep full f p f' p') (hb : f.phase.Books prep m) (h : Dialog f p) :
    Dialog f' p' := by
  obtain ⟨done, ha, hall⟩ := h.dialog
  cases hs with
  | same => exact h
  | failed err hp h0 =>
    exact ⟨done, ha.turn (by simp [hp]) (fun cmd hc => (hp ▸ hc).failed err h0), hall⟩
  | connected cost hp h0 =>
    exact ⟨done, ha.turn (by simp [hp]) (fun cmd hc => (hp ▸ hc).connected cost h0), hall⟩
  | settle hp h0 =>
    refine ⟨done, ha.turn (by simp [hp]) (fun cmd hc => ?_), hall⟩
    rw [hp] at hc
    cases hc
    exact .ratePrep
  | complete i r cost n hp h0 =>
    refine ⟨done, ha.turn (by simp [hp]) (fun cmd hc => ?_), hall⟩
    exact (hp ▸ hc).echoed rfl rfl (fun hm => hm.complete i r cost n)
  | answer r cause =>
    refine ⟨done, ?_, hall⟩
    by_cases hp : f.phase = .idle
    · rw [Phase.answer_idle hp]
      exact ha
    · exact ha.turn hp (fun cmd hc => hc.answer r cause)
  | stop hrx =>
    obtain ⟨hg, rfl, hp, rfl⟩ := ha.start hrx
    exact ⟨done, .stopped hg rfl hp, hall⟩
  | @dial _ rest count conc hrx =>
    obtain ⟨hg, rfl, hp, rfl⟩ := ha.start hrx
    refine ⟨done, .serving hg rfl (.dial rfl ?_ (Nat.zero_le _) Latencies.counted_default), hall⟩
    simp
  | @echo _ rest job conc idle hrx =>
    obtain ⟨hg, rfl, hp, rfl⟩ := ha.start hrx
    exact ⟨done, .serving hg rfl (.echo rfl (Nat.min_le_left _ _) (.start job conc idle)), hall⟩
  | rate n before hrx =>
    obtain ⟨hg, rfl, hp, rfl⟩ := ha.start hrx
    exact ⟨done, .prep hg rfl hp, hall⟩
  | prepared g =>
    cases ha with
    | prep hg hrx hp => exact ⟨done, .serving hg hrx .ratePrep, hall⟩
  | @finish _ o hf =>
    obtain ⟨cmd, hg, hrx, hc, rfl⟩ := ha.calm hf.ne_idle
    refine ⟨done ++ [cmd], .quiet hg hrx rfl, List.rel_append hall ?_⟩
    exact .cons (hf.answers hc hb) .nil
  | begin hp hn => exact ⟨done, ha.turn (by simp [hp]) (fun cmd hc => (hp ▸ hc).begin hn), hall⟩
  | wait t hp =>
    refine ⟨done, ha.turn (by simp [hp]) (fun cmd hc => ?_), hall⟩
    exact (hp ▸ hc).echoed rfl rfl (fun hm => ⟨hm.counted, hm.measured, hm.exhausted⟩)
  | overdraw hp hn =>
    refine ⟨done, ha.turn (by simp [hp]) (fun cmd hc => ?_), hall⟩
    exact (hp ▸ hc).echoed rfl rfl (fun hm => hm.overdraw hn)
  | draw hp hx hlt hi hn =>
    refine ⟨done, ha.turn (by simp [hp]) (fun cmd hc => ?_), hall⟩
    exact (hp ▸ hc).echoed rfl rfl (fun hm => hm.draw hx _ _)
  | rateStart conns now hp =>
    refine ⟨done, ha.turn (by simp [hp]) (fun cmd hc => ?_), hall⟩
    rw [hp] at hc
    cases hc
    exact .rate rfl
  | rateTimes next grace hp =>
    refine ⟨done, ha.turn (by simp [hp]) (fun cmd hc => ?_), hall⟩
    rw [hp] at hc
    cases hc with
    | rate h => exact .rate h
  | addSent n =>
    refine ⟨done, ?_, hall⟩
    by_cases hp : f.phase = .idle
    · rw [Phase.addSent_idle hp]
      exact ha
    · exact ha.turn hp (fun cmd hc => hc.addSent n)

theorem kept_dialog : Kept (Regular (P := P)) (fun x => Dialog x.w.front (prepOf x.todo)) where
  new := fun _ _ _ => ⟨[], .quiet rfl rfl rfl, .nil⟩
  move := fun m hr _ h => m.front.dialog hr.books.phase h
  interfere := by
    intro w s _ h
    obtain ⟨done, ha, hall⟩ := h.dialog
    refine ⟨done, ?_, hall⟩
    cases ha with
    | quiet hg hrx hp => exact .quiet hg hrx hp
    | asked hg hrx hp => exact .asked hg hrx hp
    | serving hg hrx hs => exact .serving hg hrx hs
    | stopped hg hrx hp => exact .stopped hg hrx hp
  command := by
    intro w cmd hp hrx hstop _ h
    obtain ⟨done, ha, hall⟩ := h.dialog
    refine ⟨done, ?_, hall⟩
    cases ha with
    | quiet hg _ _ => exact .asked (congrArg (· ++ [cmd]) hg) rfl hp
    | asked _ hrx' _ => exact absurd (hrx'.symm.trans hrx) (by simp)
    | serving _ _ hs => exact absurd hp hs.ne_idle
    | stopped hg _ _ => exact absurd (hg ▸ by simp : Command.stop ∈ w.front.given) hstop

end Http3Bench
