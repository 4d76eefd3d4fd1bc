import Http3Bench.Engine

/-!
# Every ticket once

The workers of a BenchEcho draw their tickets from one counter. Over all workers the tickets drawn
are the numbers below the counter, each drawn by one worker; each worker completes every ticket it
has to run.
-/

namespace Http3Bench

variable {P : Platform}

/-- The tickets drawn for command number `k`, once it is answered or while it runs. -/
def Front.drawnIn (k : ℕ) (f : Front) : Multiset ℕ :=
  match f.sent[k]? with
  | some (.echo _ last) => last.drawn
  | some _ => 0
  | none => match f.phase with
    | .echo e => e.drawn
    | _ => 0

section

variable {k : ℕ} {f f' : Front}

theorem Front.drawnIn_phase (hs : f'.sent = f.sent)
    (hp : f'.phase = f.phase ∨ (∀ e, f.phase ≠ .echo e) ∧ (∀ e, f'.phase ≠ .echo e)) :
    f'.drawnIn k = f.drawnIn k := by
  unfold Front.drawnIn
  rw [hs]
  rcases hp with hp | ⟨hp, hp'⟩
  · rw [hp]
  · cases h : f.phase <;> cases h' : f'.phase <;> simp_all

theorem Front.drawnIn_echo {e : EchoPhase} (hk : f.sent.length ≤ k) (hp : f.phase = .echo e) :
    f.drawnIn k = e.drawn := by
  unfold Front.drawnIn
  rw [List.getElem?_eq_none hk, hp]

theorem Front.drawnIn_finish {o : Outcome} (hf : Finishes f.phase o) (hk : f.sent.length = k) :
    ({ f with phase := .idle, sent := f.sent ++ [o] } : Front).drawnIn k = f.drawnIn k := by
  unfold Front.drawnIn
  rw [List.getElem?_eq_none hk.le, List.getElem?_append_right hk.le, hk, Nat.sub_self]
  revert hf
  generalize f.phase = p
  intro hf
  cases hf <;> rfl

theorem Front.drawnIn_same {e e' : EchoPhase} (hk : f.sent.length ≤ k) (hp : f.phase = .echo e)
    (hs : f'.sent = f.sent) (hp' : f'.phase = .echo e') (hd : e'.drawn = e.drawn) :
    f'.drawnIn k = f.drawnIn k := by
  rw [Front.drawnIn_echo hk hp, Front.drawnIn_echo (hs ▸ hk) hp', hd]

theorem Front.drawnIn_draw {e e' : EchoPhase} {D : Multiset ℕ} {n : ℕ} (hk : f.sent.length ≤ k)
    (hp : f.phase = .echo e) (hs : f'.sent = f.sent) (hp' : f'.phase = .echo e')
    (hd : e'.drawn = n :: e.drawn) (hD : Multiset.range n = D + f.drawnIn k) :
    Multiset.range (n + 1) = D + f'.drawnIn k := by
  rw [Front.drawnIn_echo hk hp] at hD
  rw [Front.drawnIn_echo (hs ▸ hk) hp', hd, Multiset.range_succ, hD, ← Multiset.add_cons]
  rfl

/-- Drawing a ticket adds it to the tickets drawn, and nothing else does. -/
theorem FrontStep.drawn {full : Bool} {p p' : Option (RateJob × ℕ × ℕ)} {D : Multiset ℕ}
    (h : FrontStep full f p f' p') (hd : Dialog f p) (hle : k ≤ f.sent.length)
    (hg : f.given.length ≤ k + 1) (hD : Multiset.range f.issued = D + f.drawnIn k) :
    Multiset.range f'.issued = D + f'.drawnIn k := by
  have hbusy : f.phase ≠ .idle → f.sent.length = k := by
    intro hp
    obtain ⟨_, hlen, _⟩ := hd.busy hp
    omega
  have keep : ∀ g : Front, g.issued = f.issued → g.drawnIn k = f.drawnIn k →
      Multiset.range g.issued = D + g.drawnIn k := fun g hi hk => by
    rw [hi, hk]
    exact hD
  obtain ⟨done, ha, _⟩ := hd.dialog
  cases h with
  | same => exact hD
  | failed err hp => exact keep _ rfl (Front.drawnIn_phase rfl (.inr ⟨by simp [hp], by simp⟩))
  | connected cost hp => exact keep _ rfl (Front.drawnIn_phase rfl (.inr ⟨by simp [hp], by simp⟩))
  | settle hp => exact keep _ rfl (Front.drawnIn_phase rfl (.inr ⟨by simp [hp], by simp⟩))
  | complete i r cost n hp =>
    exact keep _ rfl (Front.drawnIn_same (hbusy (by simp [hp])).le hp rfl rfl rfl)
  | answer r cause =>
    refine keep _ rfl (Front.drawnIn_phase rfl ?_)
    cases hp : f.phase <;> simp [Phase.answer]
  | stop => exact hD
  | dial hrx =>
    exact keep _ rfl (Front.drawnIn_phase rfl (.inr ⟨by simp [(ha.start hrx).2.2.1], by simp⟩))
  | echo idle hrx =>
    refine keep _ rfl ?_
    unfold Front.drawnIn
    rw [(ha.start hrx).2.2.1]
    rfl
  | rate => exact hD
  | prepared g =>
    cases ha with
    | prep _ _ hp => exact keep _ rfl (Front.drawnIn_phase rfl (.inr ⟨by simp [hp], by simp⟩))
  | finish hf => exact keep _ rfl (Front.drawnIn_finish hf (hbusy hf.ne_idle))
  | begin hp => exact keep _ rfl (Front.drawnIn_phase rfl (.inr ⟨by simp [hp], by simp⟩))
  | wait t hp =>
    exact keep _ rfl (Front.drawnIn_same (hbusy (by simp [hp])).le hp rfl rfl rfl)
  | overdraw hp => exact Front.drawnIn_draw (hbusy (by simp [hp])).le hp rfl rfl rfl hD
  | draw hp => exact Front.drawnIn_draw (hbusy (by simp [hp])).le hp rfl rfl rfl hD
  | rateStart conns now hp =>
    exact keep _ rfl (Front.drawnIn_phase rfl (.inr ⟨by simp [hp], by simp⟩))
  | rateTimes next grace hp =>
    exact keep _ rfl (Front.drawnIn_phase rfl (.inr ⟨by simp [hp], by simp⟩))
  | addSent n =>
    refine keep _ rfl (Front.drawnIn_phase rfl ?_)
    cases hp : f.phase <;> simp [Phase.addSent]

end

/-- One element of a list and the sum over the others. -/
theorem exists_sum_set {α M : Type} [AddCommMonoid M] (f : α → M) {l : List α} {i : ℕ} {a : α}
    (h : l[i]? = some a) :
    ∃ D, (l.map f).sum = D + f a ∧ ∀ b, ((l.set i b).map f).sum = D + f b := by
  induction l generalizing i with
  | nil => cases h
  | cons x rest ih =>
    cases i with
    | zero =>
      obtain rfl : x = a := by simpa using h
      exact ⟨(rest.map f).sum, by simp [add_comm], fun b => by simp [add_comm]⟩
    | succ i =>
      obtain ⟨D, hD, hb⟩ := ih (by simpa using h)
      refine ⟨f x + D, by simp [hD, add_assoc], fun b => ?_⟩
      rw [List.set_cons_succ, List.map_cons, List.sum_cons, hb, add_assoc]

namespace Engine

variable {cfg : EngineConfig} {s s' : Engine P}

/-- The tickets drawn in the round the engine is in. -/
def drawn (s : Engine P) : Multiset ℕ :=
  (s.threads.map (fun t => t.w.front.drawnIn (s.rounds.length - 1))).sum

theorem Ok.bounds (hs : s.Ok cfg) {i : ℕ} {t : Thread P} (ht : s.threads[i]? = some t) :
    s.rounds.length - 1 ≤ t.w.sent.length ∧ t.w.given.length ≤ s.rounds.length - 1 + 1 := by
  by_cases hi : i ∈ s.outbox.map Prod.fst
  · obtain ⟨a, ha, rfl⟩ := List.mem_map.mp hi
    have hw := hs.waiting ha ht
    omega
  · have htold := hs.told hi ht
    have hle := (hs.reach ht).talking.2.given_le
    change t.w.given.length ≤ t.w.sent.length + 1 at hle
    omega

theorem Step.tickets (h : Step s s') (hs : s.Ok cfg)
    (hd : s.drawn = Multiset.range s.shared.issued) :
    s'.drawn = Multiset.range s'.shared.issued := by
  cases h with
  | @turn i t pt w ht hw =>
    have hb := hs.bounds ht
    obtain ⟨D, hD, hset⟩ := exists_sum_set
      (fun t : Thread P => t.w.front.drawnIn (s.rounds.length - 1)) ht
    have htalk : Talking ⟨{ t.w with shared := s.shared }, []⟩ :=
      kept_talking.interfere s.shared trivial (hs.reach ht).talking
    have hw' := turn_keeps (J := fun x => s.rounds.length - 1 ≤ x.w.front.sent.length ∧
        x.w.front.given.length ≤ s.rounds.length - 1 + 1 ∧
        Multiset.range x.w.front.issued = D + x.w.front.drawnIn (s.rounds.length - 1))
      kept_talking (fun h hc => h.queued hc) ?_ hw htalk ⟨hb.1, hb.2, hd.symm.trans hD⟩
    · exact (hset _).trans hw'.2.2.symm
    · intro x ins outs x' m ha ⟨h₁, h₂, h₃⟩
      exact ⟨h₁.trans m.front.told.2.length_le, by rw [m.front.told.1]; exact h₂,
        m.front.drawn ha.2 h₁ h₂ h₃⟩
  | run cmds ho hall hlen =>
    refine List.sum_eq_zero (fun d hd => ?_)
    obtain ⟨t, ht, rfl⟩ := List.mem_map.mp hd
    obtain ⟨i, hi⟩ := List.getElem?_of_mem ht
    have hsent := hall t ht
    have hq := (hs.reach hi).talking.2.quiet (by
      change t.w.given.length ≤ t.w.sent.length
      rw [(hs.told (by simp [ho]) hi).1, hsent])
    have hnone : t.w.front.sent[s.rounds.length]? = none := List.getElem?_eq_none hsent.le
    simp only [List.length_append, List.length_singleton, Nat.add_sub_cancel, Front.drawnIn, hnone]
    rw [show t.w.front.phase = .idle from hq.2.1]
  | @send i cmd rest t ho ht =>
    obtain ⟨D, hD, hset⟩ := exists_sum_set
      (fun t : Thread P => t.w.front.drawnIn (s.rounds.length - 1)) ht
    exact (hset _).trans (hD.symm.trans hd)

theorem Reach.tickets (h : s.Reach cfg) : s.drawn = Multiset.range s.shared.issued := by
  obtain ⟨starts, hrun⟩ := h
  induction hrun with
  | refl =>
    refine List.sum_eq_zero (fun d hd => ?_)
    obtain ⟨t, ht, rfl⟩ := List.mem_map.mp hd
    obtain ⟨a, _, rfl⟩ := List.mem_map.mp ht
    rfl
  | tail hrun hstep ih => exact hstep.tickets (Reach.ok ⟨starts, hrun⟩) ih

end Engine

/-- A phase that is over has completed the tickets it took, each once. -/
theorem EchoPhase.Books.completed_eq {e : EchoPhase} (h : e.Books 0) (h0 : e.inFlight = 0) :
    (e.completed : Multiset ℕ) = e.taken := by
  have hle := h.tickets
  have hc := h.count
  rw [Multiset.map_zero, add_zero] at hle
  exact Multiset.eq_of_le_of_card_le hle (by simp; omega)

def Outcome.echo? : Outcome → Option (Latencies × EchoPhase)
  | .echo lat last => some (lat, last)
  | _ => none

/-- The BenchEcho outcomes of the last round. -/
def Engine.echoOutcomes (s : Engine P) : List (Latencies × EchoPhase) :=
  s.threads.filterMap (fun t => t.w.sent.getLast?.bind Outcome.echo?)

/-- A worker's answer to its BenchEcho command. -/
structure Echoed (job : EchoJob) (k : ℕ) (t : Thread P) (e : EchoPhase) : Prop where
  outcome : t.w.sent.getLast?.bind Outcome.echo? = some (e.lat, e)
  drawn : t.w.front.drawnIn k = e.drawn
  ended : e.Over job

theorem exists_forall₂ {α β : Type} {R : α → β → Prop} {l : List α} (h : ∀ a ∈ l, ∃ b, R a b) :
    ∃ l', List.Forall₂ R l l' := by
  induction l with
  | nil => exact ⟨[], .nil⟩
  | cons a rest ih =>
    obtain ⟨b, hb⟩ := h a (by simp)
    obtain ⟨bs, hbs⟩ := ih (fun x hx => h x (by simp [hx]))
    exact ⟨b :: bs, .cons hb hbs⟩

theorem forall₂_getLast {α β : Type} {R : α → β → Prop} {l : List α} {l' : List β}
    (h : List.Forall₂ R l l') {a : α} (ha : l.getLast? = some a) :
    ∃ b, l'.getLast? = some b ∧ R a b := by
  induction h with
  | nil => cases ha
  | @cons x y xs ys hxy hrest ih =>
    cases hrest with
    | nil =>
      obtain rfl : x = a := by simpa using ha
      exact ⟨y, rfl, hxy⟩
    | cons h₁ h₂ =>
      rw [List.getLast?_cons_cons] at ha ⊢
      exact ih ha

namespace Engine

variable {cfg : EngineConfig} {s : Engine P}

/-- A worker that has answered in every round has answered its command of the last one. -/
theorem Ok.answered (hs : s.Ok cfg) {i : ℕ} {t : Thread P} {cmds : List Command}
    (hi : s.threads[i]? = some t) (hround : s.rounds.getLast? = some cmds)
    (hdone : t.w.sent.length = s.rounds.length) :
    ∃ cmd o, cmds[i]? = some cmd ∧ t.w.sent.getLast? = some o ∧ Answers cmd o ∧
      t.w.phase = .idle := by
  have htalk := (hs.reach hi).talking.2
  have hout : i ∉ s.outbox.map Prod.fst := by
    intro hm
    obtain ⟨a, ha, rfl⟩ := List.mem_map.mp hm
    have hw := (hs.waiting ha hi).1
    have hle : t.w.sent.length ≤ t.w.given.length := htalk.sent_le
    omega
  obtain ⟨hlen, hlast⟩ := hs.told hout hi
  have hq := htalk.quiet (f := t.w.front) (by change t.w.given.length ≤ t.w.sent.length; omega)
  have hall : List.Forall₂ Answers t.w.given t.w.sent := hq.2.2
  obtain ⟨init, hinit⟩ := List.getLast?_eq_some_iff.mp hround
  obtain ⟨cmd, hcmd⟩ : ∃ cmd, t.w.given.getLast? = some cmd := by
    cases hg : t.w.given.getLast? with
    | some cmd => exact ⟨cmd, rfl⟩
    | none =>
      rw [List.getLast?_eq_none_iff] at hg
      rw [hg, hinit] at hlen
      simp at hlen
  obtain ⟨o, ho, ha⟩ := forall₂_getLast hall hcmd
  exact ⟨cmd, o, (hlast _ hround).symm.trans hcmd, ho, ha, hq.2.1⟩

theorem Ok.echoed (hs : s.Ok cfg) {job : EchoJob} {concs : List ℕ}
    (hround : s.rounds.getLast? = some (concs.map (Command.echo job)))
    (hdone : ∀ t ∈ s.threads, t.w.sent.length = s.rounds.length) :
    ∀ t ∈ s.threads, ∃ e, Echoed job (s.rounds.length - 1) t e := by
  intro t ht
  obtain ⟨i, hi⟩ := List.getElem?_of_mem ht
  obtain ⟨cmd, o, hcmd, ho, ha, _⟩ := hs.answered hi hround (hdone t ht)
  rw [List.getElem?_map] at hcmd
  obtain ⟨conc, _, rfl⟩ := Option.map_eq_some_iff.mp hcmd
  cases ha with
  | @echo _ _ e hover =>
    refine ⟨e, by rw [ho]; rfl, ?_, hover⟩
    rw [List.getLast?_eq_getElem?, hdone t ht] at ho
    unfold Front.drawnIn
    rw [show t.w.front.sent[s.rounds.length - 1]? = some (.echo e.lat e) from ho]

theorem echoOutcomes_eq {job : EchoJob} {k : ℕ} {threads : List (Thread P)} {es : List EchoPhase}
    (h : List.Forall₂ (Echoed job k) threads es) :
    threads.filterMap (fun t => t.w.sent.getLast?.bind Outcome.echo?) =
        es.map (fun e => (e.lat, e)) ∧
      (threads.map (fun t => t.w.front.drawnIn k)).sum =
        (es.map (fun e => (e.drawn : Multiset ℕ))).sum ∧ ∀ e ∈ es, e.Over job := by
  induction h with
  | nil => exact ⟨rfl, rfl, by simp⟩
  | @cons t e _ _ hte _ ih =>
    refine ⟨?_, ?_, List.forall_mem_cons.mpr ⟨hte.ended, ih.2.2⟩⟩
    · rw [List.filterMap_cons_some (by exact hte.outcome), List.map_cons, ih.1]
    · rw [List.map_cons, List.sum_cons, List.map_cons, List.sum_cons, ih.2.1, hte.drawn]

theorem sum_completed {job : EchoJob} {es : List EchoPhase}
    (h : ∀ e ∈ es, e.Over job) :
    (es.map (fun e => (e.completed : Multiset ℕ))).sum =
      (es.map (fun e => (e.drawn : Multiset ℕ))).sum.filter (fun n => n < job.times) := by
  induction es with
  | nil => rfl
  | cons e rest ih =>
    rw [List.map_cons, List.sum_cons, List.map_cons, List.sum_cons, Multiset.filter_add,
      ih (fun e he => h e (by simp [he]))]
    congr 1
    have ho := h e (by simp)
    rw [ho.books.completed_eq ho.inFlight, ← ho.job_eq, Multiset.filter_coe]
    rfl

theorem sum_answered {job : EchoJob} {es : List EchoPhase} (hm : job.measure = true)
    (h : ∀ e ∈ es, e.Over job) :
    (es.map (fun e => e.lat.success + e.lat.failed)).sum =
      ((es.map (fun e => (e.completed : Multiset ℕ))).sum.card : ℤ) := by
  induction es with
  | nil => rfl
  | cons e rest ih =>
    rw [List.map_cons, List.sum_cons, List.map_cons, List.sum_cons, Multiset.card_add,
      ih (fun e he => h e (by simp [he]))]
    have ho := h e (by simp)
    rw [ho.measured.measured (ho.job_eq ▸ hm)]
    push_cast
    rfl

end Engine

theorem filter_range {n m : ℕ} (h : n ≤ m) :
    (Multiset.range m).filter (fun k => k < n) = Multiset.range n := by
  refine (Multiset.Nodup.ext ((Multiset.nodup_range m).filter _) (Multiset.nodup_range n)).mpr ?_
  intro k
  simp only [Multiset.mem_filter, Multiset.mem_range]
  omega

/-- The tickets of the round trips a worker has under way. -/
def Worker.tickets (w : Worker P) : Multiset ℕ := (echoes (⟨w, []⟩ : Mach P).ops).map Prod.snd

/-- BenchEcho completes every ticket below `times` once and runs no other: in every state the engine
reaches the tickets under way and completed are below `times`, and once every worker has sent its
outcome their counts add up. -/
theorem echo_exactly_once {cfg : EngineConfig} {s : Engine P} (hs : s.Reach cfg) :
    (∀ t ∈ s.threads, ∀ e, t.w.phase = .echo e →
      ∀ n ∈ (e.completed : Multiset ℕ) + t.w.tickets, n < e.job.times) ∧
    ∀ (job : EchoJob) (concs : List ℕ),
      s.rounds.getLast? = some (concs.map (Command.echo job)) → job.measure = true →
      (∀ t ∈ s.threads, t.w.sent.length = s.rounds.length) →
      (∃ o ∈ s.echoOutcomes, 1 ≤ o.2.slots) →
      s.echoOutcomes.length = s.threads.length ∧
      (s.echoOutcomes.map (fun o => (o.2.completed : Multiset ℕ))).sum = Multiset.range job.times ∧
      (s.echoOutcomes.map (fun o => o.1.success + o.1.failed)).sum = job.times ∧
      ∀ o ∈ s.echoOutcomes,
        (o.1.costs.length : ℤ) = o.1.success ∧ (o.1.errorCount : ℤ) = o.1.failed := by
  refine ⟨fun t ht e hp n hn => ?_, fun job concs hround hm hdone hslots => ?_⟩
  · obtain ⟨i, hi⟩ := List.getElem?_of_mem ht
    have hb := (hs.ok.reach hi).talking.1.books.phase
    rw [show (⟨t.w, []⟩ : Mach P).w.phase = .echo e from hp] at hb
    have htaken : n ∈ e.taken := Multiset.mem_coe.mp (Multiset.mem_of_le hb.2.2.tickets hn)
    exact of_decide_eq_true (List.mem_filter.mp htaken).2
  · obtain ⟨es, hes⟩ := exists_forall₂ (hs.ok.echoed hround hdone)
    obtain ⟨hout, hdrawn, hover⟩ := Engine.echoOutcomes_eq hes
    have hout : s.echoOutcomes = es.map (fun e => (e.lat, e)) := hout
    have hrange : (es.map (fun e => (e.drawn : Multiset ℕ))).sum = Multiset.range s.shared.issued :=
      hdrawn.symm.trans hs.tickets
    have htimes : job.times ≤ s.shared.issued := by
      obtain ⟨o, ho, hslots⟩ := hslots
      rw [hout] at ho
      obtain ⟨e, he, rfl⟩ := List.mem_map.mp ho
      rcases (hover e he).measured.exhausted (hover e he).exhausted with h0 | ⟨n, hn, hle⟩
      · simp [h0] at hslots
      · have hmem : n ∈ (es.map (fun e => (e.drawn : Multiset ℕ))).sum :=
          Multiset.mem_of_le (List.single_le_sum (fun _ _ => Multiset.zero_le _) _
            (List.mem_map_of_mem he)) (Multiset.mem_coe.mpr hn)
        rw [hrange, Multiset.mem_range] at hmem
        rw [(hover e he).job_eq] at hle
        omega
    have hcomp : (es.map (fun e => (e.completed : Multiset ℕ))).sum = Multiset.range job.times := by
      rw [Engine.sum_completed hover, hrange, filter_range htimes]
    rw [hout, List.map_map, List.map_map, List.length_map]
    refine ⟨hes.length_eq.symm, hcomp, ?_, ?_⟩
    · refine (Engine.sum_answered hm hover).trans ?_
      rw [hcomp, Multiset.card_range]
    · intro o ho
      obtain ⟨e, he, rfl⟩ := List.mem_map.mp ho
      exact ⟨(hover e he).measured.counted.costs, (hover e he).measured.counted.errors⟩

/-- One worker with one connection runs a benchmark of one round trip. -/
theorem echo_exactly_once_single : ∃ s : Engine loopback, s.Reach loopbackConfig ∧
    (s.echoOutcomes.map (fun o => (o.2.completed : Multiset ℕ))).sum = {0} ∧
    (s.echoOutcomes.map (fun o => o.1.success + o.1.failed)).sum = 1 := by
  obtain ⟨s, hs, hp⟩ := Engine.exists_reach (P := loopback) loopbackConfig [({
      polls := [[.waker], [.slot 0], [.slot 0], [.waker], [.slot 0]]
      inbox := [([[1]], none), ([[2]], none), ([[2, 7]], none)] }, 0)]
    ([.run [.dial 1 1], .send] ++ List.replicate 17 (.turn 0) ++
      [.run [.echo ⟨1, [[7]], true, false⟩ 1], .send] ++ List.replicate 16 (.turn 0))
    (fun s => s.rounds.getLast? = some ([1].map (.echo ⟨1, [[7]], true, false⟩)) ∧
      (∀ t ∈ s.threads, t.w.sent.length = s.rounds.length) ∧ ∃ o ∈ s.echoOutcomes, 1 ≤ o.2.slots)
    (by decide +kernel)
  obtain ⟨hround, hdone, hslots⟩ := of_decide_eq_true hp
  have h := (echo_exactly_once hs).2 _ _ hround rfl hdone hslots
  exact ⟨s, hs, h.2.1, h.2.2.1⟩

end Http3Bench
