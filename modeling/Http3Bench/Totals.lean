import Http3Bench.Tickets
import Http3Bench.Accounts

/-!
# What the outcomes of a worker say

The phase an outcome comes from is gone when `main` adds the outcomes up. An echo phase that had no
slot to run on has completed nothing, and the counts of a BenchMultiplex that is over are those its
requests add up to.
-/

namespace Http3Bench

variable {P : Platform}

/-- A phase without a slot takes no ticket below `times`. -/
def EchoPhase.Idles (e : EchoPhase) : Prop := e.slots = 0 → e.taken = []

/-- The echo phase a worker is in, and those it has reported. -/
def Front.Idles (f : Front) : Prop :=
  (∀ e, f.phase = .echo e → e.Idles) ∧ ∀ lat e, .echo lat e ∈ f.sent → e.Idles

theorem EchoPhase.idles_start (job : EchoJob) (conc : ℕ) (idle : List ℕ) :
    (EchoPhase.start job conc idle).Idles := fun _ => rfl

theorem EchoPhase.Idles.same {e e' : EchoPhase} (h : e.Idles) (hj : e'.job = e.job)
    (hs : e'.slots = e.slots) (hd : e'.drawn = e.drawn) : e'.Idles := by
  intro h0
  unfold taken
  rw [hj, hd]
  exact h (hs.symm.trans h0)

theorem EchoPhase.Idles.overdraw {e : EchoPhase} (h : e.Idles) {n : ℕ} (hn : e.job.times ≤ n) :
    (e.overdraw n).Idles := by
  intro h0
  have htaken : e.taken = [] := h h0
  unfold taken at htaken ⊢
  rw [EchoPhase.overdraw, List.filter_cons_of_neg (by simpa using hn)]
  exact htaken

theorem FrontStep.idles {full : Bool} {f f' : Front} {p p' : Option (RateJob × ℕ × ℕ)}
    (hs : FrontStep full f p f' p') (h : f.Idles) : f'.Idles := by
  have other : ∀ {q : Phase}, (∀ e, q ≠ .echo e) → ∀ e, q = .echo e → e.Idles :=
    fun hq e he => absurd he (hq e)
  have same : ∀ {e e' : EchoPhase}, f.phase = .echo e → e'.job = e.job → e'.slots = e.slots →
      e'.drawn = e.drawn → ∀ e'', Phase.echo e' = .echo e'' → e''.Idles := by
    intro e e' hp hj hsl hd e'' he
    obtain rfl := Phase.echo.inj he
    exact (h.1 e hp).same hj hsl hd
  cases hs with
  | same => exact h
  | failed err hp => exact ⟨other (by simp), h.2⟩
  | connected cost hp => exact ⟨other (by simp), h.2⟩
  | settle hp => exact ⟨other (by simp), h.2⟩
  | complete i r cost n hp => exact ⟨same hp rfl rfl rfl, h.2⟩
  | answer r cause =>
    refine ⟨fun e he => h.1 e ?_, h.2⟩
    cases hp : f.phase <;> simp_all [Phase.answer]
  | stop => exact h
  | dial => exact ⟨other (by simp), h.2⟩
  | @echo _ rest job conc idle =>
    refine ⟨fun e he => ?_, h.2⟩
    obtain rfl := Phase.echo.inj he
    exact EchoPhase.idles_start job conc idle
  | rate => exact h
  | prepared => exact ⟨other (by simp), h.2⟩
  | @finish _ o hf =>
    refine ⟨other (by simp), fun lat e hm => ?_⟩
    rcases List.mem_append.mp hm with hm | hm
    · exact h.2 lat e hm
    · obtain rfl := List.mem_singleton.mp hm
      generalize hp : f.phase = q at hf
      cases hf with
      | echo => exact h.1 e hp
  | begin hp => exact ⟨other (by simp), h.2⟩
  | wait t hp => exact ⟨same hp rfl rfl rfl, h.2⟩
  | overdraw hp hn =>
    refine ⟨fun e he => ?_, h.2⟩
    obtain rfl := Phase.echo.inj he
    exact (h.1 _ hp).overdraw hn
  | draw hp hx hlt =>
    -- a ticket is only taken for a slot that is free
    refine ⟨fun e he h0 => ?_, h.2⟩
    obtain rfl := Phase.echo.inj he
    simp only [EchoPhase.draw] at h0
    omega
  | rateStart conns now hp => exact ⟨other (by simp), h.2⟩
  | rateTimes next grace hp => exact ⟨other (by simp), h.2⟩
  | addSent n =>
    refine ⟨fun e he => h.1 e ?_, h.2⟩
    cases hp : f.phase <;> simp_all [Phase.addSent]

theorem kept_idles : Kept (Regular (P := P)) (fun x => x.w.front.Idles) where
  new := fun _ _ _ => ⟨fun e he => (by cases he), by simp [Worker.front, Worker.new]⟩
  move := fun m _ _ h => m.front.idles h
  interfere := fun _ _ h => h
  command := fun _ _ _ _ _ h => h

/-! ### BenchMultiplex -/

/-- What the counts of a BenchMultiplex of requests of `size` bytes have in common. -/
structure RateCounts.Adds (c : RateCounts) (size : ℕ) : Prop where
  recvTimes : c.recvTimes ≤ c.sendTimes
  sendBytes : c.sendBytes = c.sendTimes * size
  recvBytes : c.recvBytes = c.recvTimes * size

/-- A phase that ends has nothing left to do. -/
theorem Move.todo_of_sent {x x' : Mach P} {ins outs : Multiset Op} (m : Move x ins outs x')
    (h : x'.w.sent ≠ x.w.sent) :
    x.todo = [] ∧ ∃ o, Finishes x.w.phase o ∧ x'.w.sent = x.w.sent ++ [o] := by
  cases m with
  | finish hf => exact ⟨rfl, _, hf, rfl⟩
  | send hc => exact absurd (by rw [Worker.afterSend_eq]) h
  | registerFailed => exact absurd (by simp [Worker.wait]) h
  | seated => exact absurd (by simp [Worker.wait, Worker.install, Worker.put]) h
  | flushed r as o t hc hr =>
    exact absurd (by rw [Worker.flushed_eq (by exact Worker.lt_of_conn hc)]; rfl) h
  | timerRearmed ht hc hs =>
    refine absurd ?_ h
    rw [Worker.schedule_eq (Worker.conn_set rfl (Worker.lt_of_conn hc) _ |>.trans (if_pos rfl))]
    rfl
  | _ => exact absurd rfl h

/-- A BenchMultiplex that a worker has reported, when it was told to run one at most. -/
def Worker.Rated (w : Worker P) : Prop :=
  w.given.countP Command.isRate ≤ 1 → ∀ counts, .rate counts ∈ w.sent →
    ∃ job, .rate job ∈ w.given ∧ counts.Adds job.payload.length

/-- The counts of a BenchMultiplex as it ends. -/
theorem RateBook.Sums.adds {b : RateBook} {x : Mach P} (h : b.Sums x) (htodo : x.todo = []) :
    b.counts.Adds b.job.payload.length := by
  have hsent := h.sent
  rw [htodo, show soFar [] = 0 from rfl, show raised [] = 0 from rfl, Multiset.card_zero] at hsent
  have hanswered := h.answered
  have hrecv := h.recv
  exact ⟨by omega, h.sendBytes, h.recvBytes⟩

theorem kept_rated : Kept (fun x : Mach P => x.Accounts ∧ Dialog x.w.front (prepOf x.todo))
    (fun x => x.w.Rated) where
  new := fun _ _ _ _ _ hm => (by simp [Worker.new] at hm)
  move := by
    rintro x ins outs x' m ⟨hacc, hdialog⟩ - h hone counts hm
    have hgiven : x'.w.given = x.w.given := m.front.told.1
    rw [hgiven] at hone ⊢
    by_cases hsent : x'.w.sent = x.w.sent
    · exact h hone counts (hsent ▸ hm)
    · obtain ⟨htodo, o, hf, hnew⟩ := m.todo_of_sent hsent
      rw [hnew] at hm
      rcases List.mem_append.mp hm with hm | hm
      · exact h hone counts hm
      · obtain rfl := List.mem_singleton.mp hm
        generalize hp : x.w.phase = q at hf
        cases hf with
        | @rate r =>
          have hsums := hacc (hdialog.unrated hp hone)
          simp only [hp, Phase.book] at hsums
          obtain ⟨cmd, -, hlast, hserves⟩ := hdialog.busy (f := x.w.front) (by simp [Worker.front, hp])
          rw [show x.w.front.phase = .rate r from hp] at hserves
          cases hserves with
          | rate hjob =>
            refine ⟨_, List.mem_of_getLast? hlast, ?_⟩
            rw [← hjob]
            exact hsums.1.adds htodo
  interfere := fun _ _ h => h
  command := by
    intro w cmd _ _ _ _ h hone counts hm
    have hle : w.given.countP Command.isRate ≤ 1 :=
      le_trans (List.Sublist.countP_le (List.sublist_append_left _ _)) hone
    obtain ⟨job, hjob, hadds⟩ := h hle counts hm
    exact ⟨job, List.mem_append_left _ hjob, hadds⟩

theorem Thread.Reach.rated {next : P.H3 → ℕ} (hn : NumbersStreams next) {cfg : EngineConfig}
    {t : Thread P} (h : t.Reach cfg) : t.w.Rated := by
  have hbase := (kept_regular.and ((kept_ticking.mono (fun _ _ => trivial)).both
    ((connInv_numbered hn).kept.mono (fun _ _ => trivial))))
  have hboth := hbase.and ((kept_accounts hn).both (kept_dialog.mono (fun _ h => h.1)))
  exact ((hboth.and (kept_rated.mono (fun _ h => h.2))).reach (fun h hc => h.1.1.1.queued hc) h).1.2

end Http3Bench
