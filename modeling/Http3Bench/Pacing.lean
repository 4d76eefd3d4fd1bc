import Http3Bench.Failures
import Http3Bench.Front

/-!
# The pace of BenchMultiplex

In `Phase::Rate` requests are sent by `rate_tick` alone, and `drive_rate` runs it on a grid: at most
once in every interval of one tick, however late or often the loop calls `drive`. A tick the loop
missed is not made up for. At the first call from the deadline on the sending is over, and the phase
lasts for one more tick at most.
-/

namespace Http3Bench

variable {P : Platform}

/-- The number of the interval of the grid from `t₀` on that `now` lies in. -/
def interval (t₀ tick now : ℕ) : ℕ := (now - t₀) / tick

theorem catchUp_grid {t₀ tick now n : ℕ} (htick : 0 < tick) (hle : t₀ + (n + 1) * tick ≤ now) :
    catchUp (t₀ + (n + 1) * tick) now tick = t₀ + (interval t₀ tick now + 1) * tick := by
  have hsub : now - t₀ = (now - (t₀ + (n + 1) * tick)) + tick * (n + 1) := by
    rw [Nat.mul_comm tick]
    omega
  rw [catchUp, interval, hsub, Nat.add_mul_div_left _ _ htick]
  ring

theorem lt_interval {t₀ tick now n : ℕ} (htick : 0 < tick) (hle : t₀ + (n + 1) * tick ≤ now) :
    n < interval t₀ tick now := by
  refine (Nat.le_div_iff_mul_le htick).mpr ?_
  rw [Nat.succ_eq_add_one]
  omega

/-! ### What happens between two calls of `drive` -/

/-- A phase of BenchMultiplex but for what it counts. -/
def Phase.beat : Phase → Option RatePhase
  | .rate r => some { r with counts := {}, finished := 0, ended := 0 }
  | _ => none

theorem Phase.beat_eq {p : Phase} {r : RatePhase} (h : p.beat = (Phase.rate r).beat) :
    ∃ r', p = .rate r' ∧ r'.job = r.job ∧ r'.conns = r.conns ∧ r'.deadline = r.deadline ∧
      r'.nextTick = r.nextTick ∧ r'.graceUntil = r.graceUntil := by
  cases p with
  | rate r' =>
    have h := Option.some.inj h
    simp only [RatePhase.mk.injEq] at h
    exact ⟨r', rfl, h.1, h.2.1, h.2.2.1, h.2.2.2.1, h.2.2.2.2.1⟩
  | _ => cases h

theorem Phase.exists_of_beat {p : Phase} {b : RatePhase} (h : p.beat = some b) : ∃ r, p = .rate r := by
  cases p with
  | rate r => exact ⟨r, rfl⟩
  | _ => cases h

@[simp] theorem Phase.beat_answer (p : Phase) (r : Except String ℕ) (cause : Cause) :
    (p.answer r cause).beat = p.beat := by
  cases p <;> rfl

@[simp] theorem Phase.beat_addSent (p : Phase) (n : ℕ) : (p.addSent n).beat = p.beat := by
  cases p <;> rfl

/-- How often a request was tried on the connection `uid`. -/
def Worker.tried (w : Worker P) (uid : ℕ) : ℕ := w.log.count (.trySend uid)

variable {x x' : Mach P} {ins outs : Multiset Op}

/-- The moves that are made anywhere are moves. -/
theorem Moves.move {full : Bool} (m : Moves full x ins outs x') : Move x ins outs x' := by
  cases m with
  | finish hf _ => exact .finish hf rfl
  | rateStart now hp _ => exact .rateStart now hp rfl
  | rateTimes next grace hp _ => exact .rateTimes next grace hp rfl
  | tick hp _ => exact .tick hp rfl
  | loseEchoNone ha hj hs => exact .loseEchoNone ha hj hs
  | _ => constructor <;> assumption

/-- Outside of the calls of `drive` the phase stays the same but for what it counts. -/
theorem FrontStep.beat {f f' : Front} {p' : Option (RateJob × ℕ × ℕ)} {b : RatePhase}
    (h : FrontStep false f none f' p') (hrx : f.rx = []) (hb : f.phase.beat = some b) :
    f'.phase.beat = some b := by
  have ne_dial : ∀ d, f.phase ≠ .dial d := fun d hp => by simp [hp, Phase.beat] at hb
  have ne_echo : ∀ e, f.phase ≠ .echo e := fun e hp => by simp [hp, Phase.beat] at hb
  cases h with
  | same => exact hb
  | failed _ hp => exact absurd hp (ne_dial _)
  | connected _ hp => exact absurd hp (ne_dial _)
  | begin hp => exact absurd hp (ne_dial _)
  | settle hp => simp [hp, Phase.beat] at hb
  | complete _ _ _ _ hp => exact absurd hp (ne_echo _)
  | wait _ hp => exact absurd hp (ne_echo _)
  | overdraw hp => exact absurd hp (ne_echo _)
  | draw hp => exact absurd hp (ne_echo _)
  | answer r cause => simpa using hb
  | addSent n => simpa using hb
  | stop hrx' => simp [hrx] at hrx'
  | dial hrx' => simp [hrx] at hrx'
  | echo _ hrx' => simp [hrx] at hrx'
  | rate _ _ hrx' => simp [hrx] at hrx'
  | finish _ hd => cases hd
  | rateStart _ _ _ hd => cases hd
  | rateTimes _ _ _ hd => cases hd

/-- No dial is under way in `Phase::Rate`, and no round trip. -/
theorem Regular.no_request {i : ℕ} {kind : ReqKind} {body : Body} {st : List Task} {w : Worker P}
    {r : RatePhase} (hx : Regular ⟨w, .request i kind body :: st⟩)
    (hg : Gets ⟨w, .request i kind body :: st⟩) (hp : w.phase = .rate r) : kind = .rate := by
  have hb := hx.books.phase
  rw [hp] at hb
  have hop : kind.op i ∈ (⟨w, .request i kind body :: st⟩ : Mach P).ops := op_mem_ops rfl
  cases kind with
  | rate => rfl
  | echo s n =>
    obtain ⟨e, he⟩ := hx.echo_of_mem hop
    cases hp.symm.trans he
  | dial =>
    have hpos := Multiset.count_pos.mpr hop
    obtain ⟨c, hc, _, hd⟩ := hg.dialed i (by
      unfold gets
      simp only [ReqKind.op] at hpos
      omega)
    obtain ⟨j, hj⟩ := Option.isSome_iff_exists.mp hd
    have hm := redialed_mem (mem_ops_of_dial hc hj) hb.1 hb.2.1
    rw [hb.2.2] at hm
    exact absurd hm (Multiset.notMem_zero _)

/-- The phase but for what it counts, and the requests tried on every connection. -/
structure Steady (b : RatePhase) (n : ℕ → ℕ) (x : Mach P) : Prop where
  beat : x.w.phase.beat = some b
  tried : ∀ u, x.w.tried u = n u
  ticks : ∀ t ∈ x.todo, t.ticks = false

theorem Steady.move {b : RatePhase} {n : ℕ → ℕ} (h : Steady b n x) (hx : Regular x) (hg : Gets x)
    (m : Moves false x ins outs x') : Steady b n x' := by
  obtain ⟨r, hp⟩ := Phase.exists_of_beat h.beat
  obtain ⟨hrx, hcalm⟩ := hx.agenda.waits.busy (by simp [hp])
  have hprep : prepOf x.todo = none := Option.isNone_iff_eq_none.mp hcalm
  refine ⟨?_, fun u => ?_, ?_⟩
  · have hf := m.front
    rw [hprep] at hf
    exact hf.beat hrx h.beat
  · rcases m.move.log_quiet with ⟨i, kind, body, st, c, hx', _, _⟩ | ⟨l, hl, hs⟩
    · rw [hx'] at hx hg
      have hk := h.ticks (.request i kind body) (by rw [hx']; exact List.mem_cons_self)
      rw [hx.no_request hg hp] at hk
      cases hk
    · have hz : l.count (.trySend u) = 0 := by
        rw [List.count_eq_zero]
        intro hu
        cases hs _ hu
      rw [Worker.tried, hl, List.count_append, hz, zero_add]
      exact h.tried u
  · rcases m.ticks h.ticks with ht | ⟨hd, _⟩
    · exact ht
    · cases hd

variable {w w' : Worker P} {pt pt' : Point} {r : RatePhase} {now : Instant} {stop : Bool}

/-- Two states of a worker between which the pace is kept and no request is tried. -/
structure Worker.Rests (w w' : Worker P) : Prop where
  beat : w'.phase.beat = w.phase.beat
  tried : ∀ u, w'.tried u = w.tried u

/-- A turn that does not drive the benchmark. -/
theorem rests_turn (hx : Regular ⟨w, []⟩) (hg : Gets ⟨w, []⟩) (hp : w.phase = .rate r)
    (hpt : pt.driving = false) (hturn : turn pt w = .ok pt' w') : w.Rests w' := by
  have hb : w.phase.beat = some { r with counts := {}, finished := 0, ended := 0 } := by rw [hp]; rfl
  have hc : Closed false (fun x : Mach P => (Regular x ∧ Gets x) ∧
      Steady { r with counts := {}, finished := 0, ended := 0 } w.tried x) (fun _ _ => True) := {
    move := fun m h => ⟨(kept_regular.and kept_gets).move m.move trivial trivial h.1,
      h.2.move h.1.1 h.1.2 m⟩
    stuck := fun _ _ => trivial
    other := fun _ _ => trivial
    queued := fun h hc => h.1.1.queued hc }
  have h := ((hc.ends_turn pt (by simp [hpt]) ⟨⟨hx, hg⟩, hb, fun _ => rfl, by simp⟩).ok hturn).1.2
  exact ⟨h.beat.trans hb.symm, h.tried⟩

theorem rests_keepaliveFrom (is : List ℕ) (w₀ : Worker P) (h : w₀.Rests w) :
    Ends (keepaliveFrom now is) w (fun _ w' => w₀.Rests w') (fun _ _ => True) := by
  induction is generalizing w with
  | nil => exact h
  | cons i rest ih =>
    simp only [keepaliveFrom, slotAt, ends_bind, ends_get]
    cases w.slots[i]? with
    | none => trivial
    | some s =>
      cases s with
      | none => exact ih h
      | some c =>
        simp only [ends_pure, ends_bind, ends_get]
        split
        · exact ih ⟨h.beat, h.tried⟩
        · exact ih h

theorem rests_keepalive : Ends (keepalive now) w (fun _ w' => w.Rests w') (fun _ _ => True) := by
  simp only [keepalive, ends_bind, ends_get]
  split
  · exact ⟨rfl, fun _ => rfl⟩
  · simp only [ends_bind, ends_set]
    exact rests_keepaliveFrom _ w ⟨rfl, fun _ => rfl⟩

/-- A turn at the point where `drive` is called, in a phase other than `Echo`. -/
theorem turn_drive (hp : w.phase.isEcho = false) (hturn : turn (.drive now stop) w = .ok pt' w') :
    ∃ v, drive now w = .ok () v ∧ v.Rests w' := by
  have h : Ends (turn (.drive now stop)) w (fun _ w' => ∃ v, drive now w = .ok () v ∧ v.Rests w')
      (fun _ _ => True) := by
    simp only [turn, ends_bind, ends_get, hp, Bool.false_eq_true, if_false]
    refine ends_iff.mpr ⟨fun _ v hd => ?_, fun _ _ _ => trivial⟩
    exact rests_keepalive.mono (fun _ w' hr => ⟨v, hd, hr⟩)
  exact h.ok hturn

/-! ### The requests of a tick -/

/-- The identities of the connections in the slots. -/
def Worker.uids (w : Worker P) (i : ℕ) : Option ℕ := (w.conn i).map Conn.uid

/-- The worker after requests were tried, at most `n u` of them on the connection `u`. -/
structure Worker.Tries (n : ℕ → ℕ) (w w' : Worker P) : Prop where
  phase : w'.phase = w.phase
  uids : ∀ i, w'.uids i = w.uids i
  tried : ∀ u, w'.tried u ≤ w.tried u + n u

theorem Worker.Tries.trans {n n' : ℕ → ℕ} {w'' : Worker P} (h : w.Tries n w') (h' : w'.Tries n' w'') :
    w.Tries (fun u => n u + n' u) w'' where
  phase := h'.phase.trans h.phase
  uids := fun i => (h'.uids i).trans (h.uids i)
  tried := fun u => by
    have := h.tried u
    have := h'.tried u
    omega

theorem Worker.Tries.refl (w : Worker P) (n : ℕ → ℕ) : w.Tries n w :=
  ⟨rfl, fun _ => rfl, fun _ => Nat.le_add_right _ _⟩

/-- One connection is replaced by another with the same identity. -/
theorem Worker.uids_put {i : ℕ} {c c' : Conn P} (hc : w.conn i = some c)
    (hs : w'.slots = w.slots.set i (some c')) (hu : c'.uid = c.uid) (k : ℕ) : w'.uids k = w.uids k := by
  unfold Worker.uids
  rw [Worker.conn_set hs (Worker.lt_of_conn hc)]
  split
  · rename_i hk
    rw [hk, hc, Option.map_some, Option.map_some, hu]
  · rfl

theorem Sent.count_entries (s : Sent P) (uid : ℕ) (kind : ReqKind) (u : ℕ) :
    (s.entries uid kind).count (.trySend u) = if uid = u then 1 else 0 := by
  unfold Sent.entries
  rw [List.count_append, List.count_append, List.count_eq_zero.mpr, List.count_eq_zero.mpr]
  · simp [List.count_singleton]
  · split <;> simp
  · split <;> simp

theorem tries_afterSend {i : ℕ} {c : Conn P} (hc : w.conn i = some c) (body : Body) :
    w.Tries (fun u => if c.uid = u then 1 else 0)
      (w.afterSend i .rate c (c.trySend (w.headersFor .rate) .rate body)) := by
  have hu : (c.trySend (w.headersFor .rate) .rate body).left.uid = c.uid := by
    have hframe := (trySend_cases (w.headersFor .rate) .rate body c).frame
    unfold Sent.left
    split <;> exact hframe.uid
  rw [Worker.afterSend_eq]
  refine ⟨rfl, Worker.uids_put hc rfl hu, fun u => ?_⟩
  rw [Worker.tried, List.count_append, Sent.count_entries, Nat.add_comm]
  exact Nat.le_refl _

theorem ends_unwrapSlot {i : ℕ} {c : Conn P} {Q : Conn P → Worker P → Prop}
    {E : Panic → Worker P → Prop} (hc : w.conn i = some c) : Ends (unwrapSlot i) w Q E ↔ Q c w := by
  have hs : w.slots[i]? = some (some c) := by
    simpa [Worker.conn, Option.join_eq_some_iff] using hc
  simp only [unwrapSlot, slotAt, ends_bind, ends_get, hs, ends_pure]

theorem tries_sendRequest {i : ℕ} {c : Conn P} (hc : w.conn i = some c) (body : Body) :
    Ends (sendRequest i .rate body) w (fun _ w' => w.Tries (fun u => if c.uid = u then 1 else 0) w')
      (fun _ _ => True) := by
  have ht := tries_afterSend hc body
  simp only [sendRequest, trySend, ends_bind, ends_unwrapSlot hc, ne_eq, not_true_eq_false,
    false_and, if_false, ends_get, ends_set, ends_pure]
  split <;> exact ht

/-- A batch tries as many requests as it has, all of them on one connection. -/
theorem tries_rateBatch (job : RateJob) {i : ℕ} {c : Conn P} (hc : w.conn i = some c) (k sent : ℕ) :
    Ends (rateBatch job i k sent) w (fun _ w' => w.Tries (fun u => if c.uid = u then k else 0) w')
      (fun _ _ => True) := by
  induction k generalizing w c sent with
  | zero => exact Worker.Tries.refl w _
  | succ k ih =>
    simp only [rateBatch, ends_bind]
    refine (tries_sendRequest hc job.payload).mono (fun res w₁ h₁ => ?_)
    cases res with
    | error e =>
      refine ⟨h₁.phase, h₁.uids, fun u => (h₁.tried u).trans ?_⟩
      split <;> omega
    | ok u =>
      have hu : w₁.uids i = some c.uid := by rw [h₁.uids, Worker.uids, hc, Option.map_some]
      obtain ⟨c₁, hc₁, hu₁⟩ := Option.map_eq_some_iff.mp hu
      simp only [ends_bind, ends_unwrapSlot hc₁, ends_modify]
      have hput : w₁.Tries (fun _ => 0) (w₁.put i { c₁ with inFlight := c₁.inFlight + 1 }) :=
        ⟨rfl, Worker.uids_put hc₁ rfl rfl, fun _ => Nat.le_refl _⟩
      refine (ih ((Worker.conn_set rfl (Worker.lt_of_conn hc₁) i).trans (if_pos rfl)) _).mono ?_
      intro _ w₂ h₂
      have h := (h₁.trans hput).trans h₂
      refine ⟨h.phase, h.uids, fun u => (h.tried u).trans ?_⟩
      simp only [hu₁]
      split <;> omega

theorem tries_limiterTake {limited : Bool} {n : ℕ} {Q : Option Duration → Worker P → Prop}
    {E : Panic → Worker P → Prop} (hQ : ∀ res o, Q res (w.wait o 0)) :
    Ends (limiterTake limited n) w Q E := by
  unfold limiterTake
  split
  · exact hQ _ _
  · exact hQ none w.os

/-- Over the connections of a phase, a tick tries one batch for every slot in which the connection
is. -/
theorem tries_rateConns (job : RateJob) (is : List ℕ) (sent : ℕ) :
    Ends (rateConns job is sent) w
      (fun _ w' => w.Tries (fun u => is.countP (fun i => w.uids i = some u) * job.batch) w')
      (fun _ _ => True) := by
  induction is generalizing w sent with
  | nil => exact Worker.Tries.refl w _
  | cons i rest ih =>
    have skip : ∀ {w₁ w₂ : Worker P}, w.Tries (fun _ => 0) w₁ →
        w₁.Tries (fun u => rest.countP (fun i => w₁.uids i = some u) * job.batch) w₂ →
        w.Tries (fun u => (i :: rest).countP (fun i => w.uids i = some u) * job.batch) w₂ := by
      intro w₁ w₂ h₁ h₂
      have h := h₁.trans h₂
      refine ⟨h.phase, h.uids, fun u => (h.tried u).trans ?_⟩
      simp only [h₁.uids, List.countP_cons, Nat.add_mul]
      omega
    have hrefl := Worker.Tries.refl w (fun _ => 0)
    simp only [rateConns, slotAt, ends_bind, ends_get]
    cases hs : w.slots[i]? with
    | none => trivial
    | some s =>
      simp only [ends_pure]
      cases s with
      | none => exact (ih sent).mono (fun _ _ h => skip hrefl h)
      | some c =>
        have hc : w.conn i = some c := by simp [Worker.conn, hs]
        simp only
        split
        · exact (ih sent).mono (fun _ _ h => skip hrefl h)
        · simp only [ends_bind]
          refine tries_limiterTake (fun res o => ?_)
          have hwait : w.Tries (fun _ => 0) (w.wait o 0) := ⟨rfl, fun _ => rfl, fun _ => Nat.le_refl _⟩
          cases res with
          | some _ => exact (ih sent).mono (fun _ _ h => skip hwait h)
          | none =>
            simp only [ends_bind]
            refine (tries_rateBatch (w := w.wait o 0) job hc job.batch sent).mono (fun n w₁ h₁ => ?_)
            refine (ih n).mono (fun _ w₂ h₂ => ?_)
            have h := (hwait.trans h₁).trans h₂
            refine ⟨h.phase, h.uids, fun u => (h.tried u).trans ?_⟩
            have hi : w.uids i = some u ↔ c.uid = u := by simp [Worker.uids, hc]
            have hids : ∀ k, w₁.uids k = w.uids k := fun k => h₁.uids k
            simp only [hids, List.countP_cons, Nat.add_mul, hi, decide_eq_true_eq]
            split <;> omega

/-- Slots that hold one connection each hold a given one at most once. -/
theorem Worker.Sound.countP_uids {is : List ℕ} (h : w.Sound) (hn : is.Nodup) (u : ℕ) :
    is.countP (fun i => w.uids i = some u) ≤ 1 := by
  by_cases hex : ∃ i, w.uids i = some u
  · obtain ⟨i, hi⟩ := hex
    obtain ⟨c, hc, hu⟩ := Option.map_eq_some_iff.mp hi
    refine le_trans (List.countP_mono_left (q := (· == i)) fun k _ hk => ?_)
      (List.nodup_iff_count_le_one.mp hn i)
    obtain ⟨c', hc', hu'⟩ := Option.map_eq_some_iff.mp (of_decide_eq_true hk)
    exact beq_iff_eq.mpr (h.uids hc' hc (hu'.trans hu.symm))
  · refine le_of_eq_of_le (List.countP_eq_zero.mpr fun i _ hi => ?_) (Nat.zero_le _)
    exact hex ⟨i, of_decide_eq_true hi⟩

theorem tries_rateTick (hw : w.Sound) (hp : w.phase = .rate r) (hn : r.conns.Nodup) :
    Ends (rateTick : WorkerM P Unit) w
      (fun _ v => v.phase.beat = w.phase.beat ∧ ∀ u, v.tried u ≤ w.tried u + r.job.batch)
      (fun _ _ => True) := by
  simp only [rateTick, ends_bind, ends_get, hp]
  refine (tries_rateConns r.job r.conns 0).mono (fun n v h => ?_)
  simp only [ends_modify]
  refine ⟨?_, fun u => (h.tried u).trans ?_⟩
  · rw [Worker.addSent, Phase.beat_addSent, h.phase, hp]
  · have hle := Nat.mul_le_mul_right r.job.batch (hw.countP_uids hn u)
    omega

/-! ### A call of `drive` -/

/-- `drive_rate` gets to `rate_tick`. -/
def RatePhase.Due (r : RatePhase) (now : Instant) : Prop :=
  r.graceUntil = none ∧ now < r.deadline ∧ r.nextTick ≤ now

instance (r : RatePhase) (now : Instant) : Decidable (r.Due now) := by
  unfold RatePhase.Due
  infer_instance

/-- What a call of `drive` does in `Phase::Rate`. -/
inductive Drives (now : Instant) (w : Worker P) (r : RatePhase) (v : Worker P) : Prop
  | finish {g : Instant} :
      r.graceUntil = some g → r.counts.sendTimes ≤ r.counts.answered ∨ g ≤ now →
      v = { w with phase := .idle, sent := w.sent ++ [.rate r.counts] } → Drives now w r v
  | grace {g : Instant} :
      r.graceUntil = some g → ¬ (r.counts.sendTimes ≤ r.counts.answered ∨ g ≤ now) → v = w →
      Drives now w r v
  | deadline :
      r.graceUntil = none → r.deadline ≤ now →
      v = { w with phase := .rate { r with graceUntil := some (now + r.job.tick) } } →
      Drives now w r v
  | early : r.graceUntil = none → now < r.deadline → now < r.nextTick → v = w → Drives now w r v
  | tick :
      r.Due now →
      rateTick { w with phase := .rate { r with nextTick := catchUp r.nextTick now r.job.tick } } =
        .ok () v → Drives now w r v

theorem drive_cases {v : Worker P} (hp : w.phase = .rate r) (hd : drive now w = .ok () v) :
    Drives now w r v := by
  refine Ends.ok (m := drive now) (Q := fun _ v => Drives now w r v) (E := fun _ _ => True) ?_ hd
  simp only [drive, driveRate, ends_bind, ends_get, hp]
  cases hg : r.graceUntil with
  | some g =>
    simp only
    split
    · exact .finish hg ‹_› rfl
    · exact .grace hg ‹_› rfl
  | none =>
    simp only
    split
    · exact .deadline hg ‹_› rfl
    · rename_i hdl
      split
      · exact .early hg (not_le.mp hdl) ‹_› rfl
      · rename_i hnext
        split
        · trivial
        · simp only [ends_bind, ends_set]
          refine ends_iff.mpr ⟨fun _ v hv => ?_, fun _ _ _ => trivial⟩
          exact .tick ⟨hg, not_le.mp hdl, not_lt.mp hnext⟩ (by rw [hg]; exact hv)

/-! ### The calls of `drive` over a run -/

/-- A call of `drive`: its instant, and the worker before and after it. -/
structure Drive (P : Platform) where
  now : Instant
  before : Worker P
  after : Worker P

/-- The call runs `rate_tick`. -/
def Drive.ticks (d : Drive P) : Bool :=
  match d.before.phase with
  | .rate r => r.Due d.now
  | _ => false

/-- The call ends the phase, and the worker sends what was counted. -/
def Drive.Ends (d : Drive P) (r : RatePhase) : Prop :=
  d.after.phase = .idle ∧ d.after.sent = d.before.sent ++ [.rate r.counts]

/-- The phase goes on after the call. -/
def Drive.GoesOn (d : Drive P) : Prop := ∃ r, d.after.phase = .rate r

/-- The call of `drive` that the next turn of a thread makes. -/
def Thread.drives (t : Thread P) : List (Drive P) :=
  match t.pt with
  | .drive now _ => match drive now t.w with
    | .ok _ v => [⟨now, t.w, v⟩]
    | .error _ _ => []
  | _ => []

/-- The turn in which a thread enters `Phase::Rate`, at the instant `t₀`. -/
def Thread.EntersRate (t t' : Thread P) (job : RateJob) (t₀ : Instant) : Prop :=
  ∃ stop g, t.pt = .drive t₀ stop ∧ t.w.phase = .ratePrep job 0 g ∧ turn t.pt t.w = .ok t'.pt t'.w

/-- The run of a thread that has entered `Phase::Rate`, as long as it is in that phase, with the calls
of `drive` it makes. -/
inductive Driven (t : Thread P) : List (Drive P) → Thread P → Prop
  | enter : Driven t [] t
  | turn {ds : List (Drive P)} {t' : Thread P} {r : RatePhase} {pt : Point} {w : Worker P} :
      Driven t ds t' → t'.w.phase = .rate r → turn t'.pt t'.w = .ok pt w →
      Driven t (ds ++ t'.drives) ⟨w, pt⟩
  | interfere {ds : List (Drive P)} {t' : Thread P} (s : Shared) :
      Driven t ds t' → Driven t ds ⟨{ t'.w with shared := s }, t'.pt⟩

variable {t t' : Thread P} {ds : List (Drive P)} {job : RateJob} {t₀ : Instant} {cfg : EngineConfig}

/-- Every step a thread takes in `Phase::Rate` goes on with the run. -/
theorem Driven.step {t'' : Thread P} (h : Driven t ds t') (hp : t'.w.phase = .rate r)
    (hs : t'.Step t'') : ∃ ds', Driven t (ds ++ ds') t'' := by
  cases hs with
  | turn hturn => exact ⟨_, .turn h hp hturn⟩
  | interfere s => exact ⟨[], by rw [List.append_nil]; exact .interfere s h⟩
  | command cmd hidle => cases hp.symm.trans hidle

theorem Driven.reach (h : Driven t ds t') (ht : t.Reach cfg) : t'.Reach cfg := by
  induction h with
  | enter => exact ht
  | turn _ _ hturn ih =>
    obtain ⟨os, now, hrun⟩ := ih
    exact ⟨os, now, hrun.tail (.turn hturn)⟩
  | interfere s _ ih =>
    obtain ⟨os, now, hrun⟩ := ih
    exact ⟨os, now, hrun.tail (.interfere s)⟩

/-- What the grid of ticks from `t₀` on, the deadline and the grace period allow the calls `ds`
between the workers `w` and `w'`. -/
structure Paced (job : RateJob) (t₀ : Instant) (w : Worker P) (ds : List (Drive P)) (w' : Worker P) :
    Prop where
  /-- `rate_tick` runs at most once in every interval of the grid. -/
  once : ∀ k, 1 ≤ k → (ds.filter (fun d =>
    d.ticks ∧ t₀ + k * job.tick ≤ d.now ∧ d.now < t₀ + (k + 1) * job.tick)).length ≤ 1
  /-- It does not run before the first tick, nor from the deadline on. -/
  within : ∀ d ∈ ds, d.ticks → t₀ + job.tick ≤ d.now ∧ d.now < t₀ + job.duration
  count : ∀ T, (ds.filter (fun d => d.ticks ∧ d.now ≤ T)).length ≤ (T - t₀) / job.tick
  /-- By `T` no connection has been sent more than a batch for every tick there could have been. -/
  sent : ∀ T, (∀ d ∈ ds, d.now ≤ T) →
    ∀ uid, w'.tried uid ≤ w.tried uid + job.batch * ((T - t₀) / job.tick)
  /-- The phase lasts until the first call from the deadline on, nothing is sent from there on, and the
  first later call that finds everything answered, or one tick gone by, ends the phase. -/
  late : ∀ early d rest, ds = early ++ d :: rest → (∀ e ∈ early, e.now < t₀ + job.duration) →
    t₀ + job.duration ≤ d.now →
    (∀ e ∈ early ++ [d], e.GoesOn) ∧ (∀ uid, w'.tried uid = d.before.tried uid) ∧
    ∀ e ∈ rest, ∃ r, e.before.phase = .rate r ∧
      if r.counts.sendTimes ≤ r.counts.answered ∨ d.now + job.tick ≤ e.now then e.Ends r
      else e.GoesOn

/-! ### The invariant -/

/-- The intervals in which the calls `ds` run `rate_tick`. -/
def ticked (job : RateJob) (t₀ : Instant) (ds : List (Drive P)) : List ℕ :=
  (ds.filter Drive.ticks).map (fun d => interval t₀ job.tick d.now)

theorem ticked_append_of_due {d : Drive P} (h : d.ticks = true) :
    ticked job t₀ (ds ++ [d]) = ticked job t₀ ds ++ [interval t₀ job.tick d.now] := by
  simp [ticked, h]

theorem ticked_append_of_not_due {d : Drive P} (h : d.ticks = false) :
    ticked job t₀ (ds ++ [d]) = ticked job t₀ ds := by
  simp [ticked, h]

structure RatePhase.On (r : RatePhase) (job : RateJob) (t₀ : Instant) : Prop where
  job_eq : r.job = job
  nodup : r.conns.Nodup
  deadline : r.deadline = t₀ + job.duration

/-- The calls from `d` on, the first one not before the deadline. -/
structure Late (job : RateJob) (t₀ : Instant) (early : List (Drive P)) (d : Drive P)
    (rest : List (Drive P)) (w : Worker P) : Prop where
  early : ∀ e ∈ early, e.now < t₀ + job.duration ∧ e.GoesOn
  deadline : t₀ + job.duration ≤ d.now
  goesOn : d.GoesOn
  tried : ∀ uid, w.tried uid = d.before.tried uid
  rest : ∀ e ∈ rest, ∃ r, e.before.phase = .rate r ∧
    if r.counts.sendTimes ≤ r.counts.answered ∨ d.now + job.tick ≤ e.now then e.Ends r else e.GoesOn

/-- How far the phase is. While it sends, `next_tick` is on the grid, after every interval in which
`rate_tick` has run. -/
inductive Stage (job : RateJob) (t₀ : Instant) (ds : List (Drive P)) (w : Worker P) : Prop
  | pacing {r : RatePhase} {n : ℕ} :
      w.phase = .rate r → r.On job t₀ → r.graceUntil = none →
      r.nextTick = t₀ + (n + 1) * job.tick → (∀ m ∈ ticked job t₀ ds, m ≤ n) →
      (∀ d ∈ ds, d.now < t₀ + job.duration ∧ d.GoesOn) → Stage job t₀ ds w
  | grace {r : RatePhase} {early rest : List (Drive P)} {d : Drive P} :
      w.phase = .rate r → r.On job t₀ → r.graceUntil = some (d.now + job.tick) →
      ds = early ++ d :: rest → Late job t₀ early d rest w → Stage job t₀ ds w
  | ended {early rest : List (Drive P)} {d : Drive P} :
      w.phase.beat = none → ds = early ++ d :: rest → Late job t₀ early d rest w → Stage job t₀ ds w

structure Pace (job : RateJob) (t₀ : Instant) (w₀ : Worker P) (ds : List (Drive P)) (w : Worker P) :
    Prop where
  sorted : (ticked job t₀ ds).Pairwise (· < ·)
  within : ∀ d ∈ ds, d.ticks → t₀ + job.tick ≤ d.now ∧ d.now < t₀ + job.duration
  tried : ∀ uid, w.tried uid ≤ w₀.tried uid + job.batch * (ticked job t₀ ds).length
  stage : Stage job t₀ ds w

theorem Late.rests {early rest : List (Drive P)} {d : Drive P} (h : Late job t₀ early d rest w)
    (hr : w.Rests w') : Late job t₀ early d rest w' :=
  ⟨h.early, h.deadline, h.goesOn, fun u => (hr.tried u).trans (h.tried u), h.rest⟩

theorem RatePhase.On.rests {p : Phase} (h : r.On job t₀) (hb : p.beat = (Phase.rate r).beat) :
    ∃ r', p = .rate r' ∧ r'.On job t₀ ∧ r'.nextTick = r.nextTick ∧ r'.graceUntil = r.graceUntil := by
  obtain ⟨r', hp, hj, hc, hd, hn, hg⟩ := Phase.beat_eq hb
  exact ⟨r', hp, ⟨hj.trans h.job_eq, hc ▸ h.nodup, hd.trans h.deadline⟩, hn, hg⟩

variable {w₀ : Worker P}

theorem Pace.rests (h : Pace job t₀ w₀ ds w) (hr : w.Rests w') :
    Pace job t₀ w₀ ds w' where
  sorted := h.sorted
  within := h.within
  tried := fun u => hr.tried u ▸ h.tried u
  stage := by
    have hb := hr.beat
    cases h.stage with
    | pacing hp hon hg hn hm hd =>
      rw [hp] at hb
      obtain ⟨r', hp', hon', hn', hg'⟩ := hon.rests hb
      exact .pacing hp' hon' (hg'.trans hg) (hn'.trans hn) hm hd
    | grace hp hon hg hds hl =>
      rw [hp] at hb
      obtain ⟨r', hp', hon', _, hg'⟩ := hon.rests hb
      exact .grace hp' hon' (hg'.trans hg) hds (hl.rests hr)
    | ended hp hds hl => exact .ended (hb.trans hp) hds (hl.rests hr)

theorem Stage.of_rate (h : Stage job t₀ ds w) (hp : w.phase = .rate r) :
    r.On job t₀ ∧
      ((r.graceUntil = none ∧ (∃ n, r.nextTick = t₀ + (n + 1) * job.tick ∧ ∀ m ∈ ticked job t₀ ds, m ≤ n) ∧
        ∀ d ∈ ds, d.now < t₀ + job.duration ∧ d.GoesOn) ∨
      ∃ early d rest, r.graceUntil = some (d.now + job.tick) ∧ ds = early ++ d :: rest ∧
        Late job t₀ early d rest w) := by
  cases h with
  | pacing hp' hon hg hn hm hd =>
    obtain rfl := Phase.rate.inj (hp'.symm.trans hp)
    exact ⟨hon, .inl ⟨hg, ⟨_, hn, hm⟩, hd⟩⟩
  | grace hp' hon hg hds hl =>
    obtain rfl := Phase.rate.inj (hp'.symm.trans hp)
    exact ⟨hon, .inr ⟨_, _, _, hg, hds, hl⟩⟩
  | ended hp' =>
    rw [hp] at hp'
    cases hp'

variable {v : Worker P}

theorem ticks_eq (hp : w.phase = .rate r) : (⟨now, w, v⟩ : Drive P).ticks = decide (r.Due now) := by
  simp [Drive.ticks, hp]

/-- A call that does not run `rate_tick`. -/
theorem Pace.calm (h : Pace job t₀ w₀ ds w) (hp : w.phase = .rate r) (hdue : ¬ r.Due now)
    (htried : ∀ u, v.tried u = w.tried u) (hstage : Stage job t₀ (ds ++ [⟨now, w, v⟩]) v) :
    Pace job t₀ w₀ (ds ++ [⟨now, w, v⟩]) v := by
  have hno : (⟨now, w, v⟩ : Drive P).ticks = false := by rw [ticks_eq hp, decide_eq_false hdue]
  refine ⟨?_, fun d hm ht => ?_, fun u => ?_, hstage⟩
  · rw [ticked_append_of_not_due hno]
    exact h.sorted
  · rcases List.mem_append.mp hm with hm | hm
    · exact h.within d hm ht
    · rw [List.mem_singleton.mp hm, hno] at ht
      cases ht
  · rw [ticked_append_of_not_due hno, htried]
    exact h.tried u

/-- A call that runs it, in an interval later than all in which it has run before. -/
theorem Pace.tick {n : ℕ} (h : Pace job t₀ w₀ ds w) (hw : w.Sound) (htick : 0 < job.tick)
    (hp : w.phase = .rate r) (hon : r.On job t₀) (hn : r.nextTick = t₀ + (n + 1) * job.tick)
    (hm : ∀ m ∈ ticked job t₀ ds, m ≤ n) (hds : ∀ d ∈ ds, d.now < t₀ + job.duration ∧ d.GoesOn)
    (hdue : r.Due now)
    (hv : rateTick { w with phase := .rate { r with nextTick := catchUp r.nextTick now r.job.tick } } =
      .ok () v) : Pace job t₀ w₀ (ds ++ [⟨now, w, v⟩]) v := by
  obtain ⟨hg, hdl, hnext⟩ := hdue
  rw [hn] at hnext
  have hyes : (⟨now, w, v⟩ : Drive P).ticks = true := by
    rw [ticks_eq hp]
    exact decide_eq_true ⟨hg, hdl, hn ▸ hnext⟩
  have hlater : n < interval t₀ job.tick now := lt_interval htick hnext
  let r₁ := { r with nextTick := catchUp r.nextTick now r.job.tick }
  have hsound : ({ w with phase := .rate r₁ } : Worker P).Sound := ⟨hw.conns, hw.uids⟩
  obtain ⟨hbeat, htried⟩ := (tries_rateTick (r := r₁) hsound rfl hon.nodup).ok hv
  obtain ⟨r', hp', hj, hc, hd', hn', hg'⟩ := Phase.beat_eq hbeat
  refine ⟨?_, fun d hd ht => ?_, fun u => ?_, .pacing (n := interval t₀ job.tick now) hp' ?_ ?_ ?_ ?_ ?_⟩
  · rw [ticked_append_of_due hyes, List.pairwise_append]
    refine ⟨h.sorted, List.pairwise_singleton _ _, fun m hm' k hk => ?_⟩
    rw [List.mem_singleton.mp hk]
    exact (hm m hm').trans_lt hlater
  · rcases List.mem_append.mp hd with hd | hd
    · exact h.within d hd ht
    · rw [List.mem_singleton.mp hd]
      rw [hon.deadline] at hdl
      refine ⟨le_trans ?_ hnext, hdl⟩
      exact Nat.add_le_add_left (Nat.le_mul_of_pos_left _ (Nat.succ_pos n)) _
  · have h₁ := h.tried u
    have h₂ : v.tried u ≤ w.tried u + job.batch := hon.job_eq ▸ htried u
    rw [ticked_append_of_due hyes, List.length_append, List.length_singleton, Nat.mul_add, Nat.mul_one]
    omega
  · exact ⟨hj.trans hon.job_eq, hc ▸ hon.nodup, hd'.trans hon.deadline⟩
  · exact hg'.trans hg
  · have hcatch := catchUp_grid htick hnext
    rw [← hn, ← hon.job_eq] at hcatch
    exact hon.job_eq ▸ hn'.trans hcatch
  · rw [ticked_append_of_due hyes]
    intro m hm'
    rcases List.mem_append.mp hm' with hm' | hm'
    · exact (hm m hm').trans hlater.le
    · exact (List.mem_singleton.mp hm').le
  · intro d hd
    rcases List.mem_append.mp hd with hd | hd
    · exact hds d hd
    · rw [List.mem_singleton.mp hd]
      exact ⟨hon.deadline ▸ hdl, r', hp'⟩

theorem Late.snoc {early rest : List (Drive P)} {d e : Drive P} (h : Late job t₀ early d rest w)
    (htried : ∀ u, v.tried u = w.tried u) (he : ∃ r, e.before.phase = .rate r ∧
      if r.counts.sendTimes ≤ r.counts.answered ∨ d.now + job.tick ≤ e.now then e.Ends r
      else e.GoesOn) : Late job t₀ early d (rest ++ [e]) v where
  early := h.early
  deadline := h.deadline
  goesOn := h.goesOn
  tried := fun u => (htried u).trans (h.tried u)
  rest := List.forall_mem_append.mpr ⟨h.rest, List.forall_mem_singleton.mpr he⟩

/-- The step of the invariant at a call of `drive`. -/
theorem Pace.drive (h : Pace job t₀ w₀ ds w) (hw : w.Sound) (htick : 0 < job.tick)
    (hp : w.phase = .rate r) (hd : drive now w = .ok () v) :
    Pace job t₀ w₀ (ds ++ [⟨now, w, v⟩]) v := by
  obtain ⟨hon, hst⟩ := h.stage.of_rate hp
  have graced : ∀ g, r.graceUntil = some g → ¬ r.Due now := fun g hg hdue => by simp [hdue.1] at hg
  cases drive_cases hp hd with
  | finish hg hcond hv =>
    rcases hst with ⟨hno, _⟩ | ⟨early, d, rest, hg', hds, hl⟩
    · cases hg.symm.trans hno
    · obtain rfl := Option.some.inj (hg.symm.trans hg')
      subst hv
      refine h.calm hp (graced _ hg) (fun _ => rfl) (.ended rfl (by rw [hds, List.append_assoc]; rfl)
        (hl.snoc (fun _ => rfl) ⟨r, hp, ?_⟩))
      rw [if_pos hcond]
      exact ⟨rfl, rfl⟩
  | grace hg hcond hv =>
    rcases hst with ⟨hno, _⟩ | ⟨early, d, rest, hg', hds, hl⟩
    · cases hg.symm.trans hno
    · obtain rfl := Option.some.inj (hg.symm.trans hg')
      subst hv
      refine h.calm hp (graced _ hg) (fun _ => rfl) (.grace hp hon hg'
        (by rw [hds, List.append_assoc]; rfl) (hl.snoc (fun _ => rfl) ⟨r, hp, ?_⟩))
      rw [if_neg hcond]
      exact ⟨r, hp⟩
  | deadline hg hle hv =>
    rcases hst with ⟨_, _, hds⟩ | ⟨_, d, _, hg', _⟩
    · subst hv
      refine h.calm hp (fun hdue => absurd hle (not_le.mpr hdue.2.1)) (fun _ => rfl)
        (.grace rfl ⟨hon.job_eq, hon.nodup, hon.deadline⟩ (by rw [hon.job_eq]) rfl ?_)
      exact ⟨hds, hon.deadline ▸ hle, ⟨_, rfl⟩, fun _ => rfl, by simp⟩
    · cases hg.symm.trans hg'
  | early hg hlt hnext hv =>
    rcases hst with ⟨_, ⟨n, hn, hm⟩, hds⟩ | ⟨_, d, _, hg', _⟩
    · subst hv
      have hdue : ¬ r.Due now := fun hdue => absurd hnext (not_lt.mpr hdue.2.2)
      refine h.calm hp hdue (fun _ => rfl) (.pacing hp hon hg hn ?_ ?_)
      · rw [ticked_append_of_not_due (by rw [ticks_eq hp, decide_eq_false hdue])]
        exact hm
      · exact List.forall_mem_append.mpr
          ⟨hds, List.forall_mem_singleton.mpr ⟨hon.deadline ▸ hlt, r, hp⟩⟩
    · cases hg.symm.trans hg'
  | tick hdue hv =>
    rcases hst with ⟨_, ⟨n, hn, hm⟩, hds⟩ | ⟨_, d, _, hg', _⟩
    · exact h.tick hw htick hp hon hn hm hds hdue hv
    · cases hdue.1.symm.trans hg'

/-- The phase is entered with its first tick one tick away. -/
theorem Thread.EntersRate.pace (h : t.EntersRate t' job t₀) : Pace job t₀ t'.w [] t'.w := by
  obtain ⟨stop, g, hpt, hp, hturn⟩ := h
  rw [hpt] at hturn
  obtain ⟨v, hv, hr⟩ := turn_drive (by rw [hp]; rfl) hturn
  have hstart : v = t.w.startRate job t₀ := by
    refine Ends.ok (m := Http3Bench.drive t₀) (Q := fun _ v => v = t.w.startRate job t₀)
      (E := fun _ _ => True) ?_ hv
    simp [Http3Bench.drive, hp]
  have hb := hr.beat
  rw [hstart] at hb
  obtain ⟨r, hp', hj, hc, hd, hn, hg⟩ := Phase.beat_eq hb
  refine ⟨.nil, by simp, fun _ => Nat.le_add_right _ _, .pacing (n := 0) hp' ⟨hj, ?_, hd⟩ hg ?_ ?_ ?_⟩
  · rw [hc]
    exact nodup_slotsWhere _ _
  · rw [hn, Nat.zero_add, Nat.one_mul]
    rfl
  · simp [ticked]
  · simp

theorem rests_echo (hp : w.phase = .rate r) (hturn : turn (.echo now stop) w = .ok pt' w') :
    w.Rests w' := by
  have h : Ends (turn (.echo now stop)) w (fun _ w' => w.Rests w') (fun _ _ => True) := by
    simp only [turn, driveEchoTurn, ends_bind, ends_get, hp, ends_pure, Bool.false_eq_true, if_false]
    exact rests_keepalive
  exact h.ok hturn

/-- The invariant of a run. -/
theorem Driven.pace (h : Driven t ds t') (ht : t.Reach cfg) (htick : 0 < job.tick)
    (h₀ : Pace job t₀ t.w [] t.w) : Pace job t₀ t.w ds t'.w := by
  induction h with
  | enter => exact h₀
  | interfere s _ ih => exact ih.rests ⟨rfl, fun _ => rfl⟩
  | @turn ds t' r pt w hrun hp hturn ih =>
    have hreg := kept_gets.reached (hrun.reach ht)
    obtain ⟨w₁, pt₁⟩ := t'
    cases hpt : pt₁ with
    | drive now stop =>
      subst hpt
      obtain ⟨v, hv, hr⟩ := turn_drive (by rw [hp]; rfl) hturn
      have hds : Thread.drives ⟨w₁, .drive now stop⟩ = [⟨now, w₁, v⟩] := by
        simp only [Thread.drives]
        rw [hv]
      rw [hds]
      exact (ih.drive hreg.1.sound htick hp hv).rests hr
    | echo now stop =>
      subst hpt
      rw [show Thread.drives ⟨w₁, .echo now stop⟩ = [] from rfl, List.append_nil]
      exact ih.rests (rests_echo hp hturn)
    | _ =>
      subst hpt
      simp only [Thread.drives, List.append_nil]
      exact ih.rests (rests_turn hreg.1 hreg.2.1 hp rfl hturn)

/-- The first elements that do not satisfy `p` of two splittings of a list. -/
theorem append_cons_inj {α : Type} {p : α → Bool} {l₁ l₁' l₂ l₂' : List α} {a a' : α}
    (h : l₁ ++ a :: l₂ = l₁' ++ a' :: l₂') (h₁ : ∀ b ∈ l₁, p b) (ha : p a = false)
    (h₁' : ∀ b ∈ l₁', p b) (ha' : p a' = false) : l₁ = l₁' ∧ a = a' ∧ l₂ = l₂' := by
  have hdrop := congrArg (List.dropWhile p) h
  rw [List.dropWhile_append_of_pos h₁, List.dropWhile_append_of_pos h₁',
    List.dropWhile_cons_of_neg (by simp [ha]), List.dropWhile_cons_of_neg (by simp [ha'])] at hdrop
  obtain ⟨rfl, rfl⟩ := List.cons.inj hdrop
  exact ⟨List.append_cancel_right h, rfl, rfl⟩

/-- The intervals of some of the calls that run `rate_tick` are distinct. -/
theorem Pace.nodup_intervals (h : Pace job t₀ w₀ ds w) {p : Drive P → Bool}
    (hp : ∀ d, p d → d.ticks) : ((ds.filter p).map (fun d => interval t₀ job.tick d.now)).Nodup := by
  have hsub := (List.monotone_filter_right ds hp).map (fun d => interval t₀ job.tick d.now)
  exact (h.sorted.imp (fun hlt => hlt.ne)).sublist hsub

theorem interval_pos {d : Drive P} (h : Pace job t₀ w₀ ds w) (htick : 0 < job.tick) (hd : d ∈ ds)
    (ht : d.ticks) : 1 ≤ interval t₀ job.tick d.now := by
  refine (Nat.le_div_iff_mul_le htick).mpr ?_
  rw [Nat.one_mul]
  exact Nat.le_sub_of_add_le' (h.within d hd ht).1

theorem Pace.once (h : Pace job t₀ w₀ ds w) (k : ℕ) :
    (ds.filter (fun d => d.ticks ∧ t₀ + k * job.tick ≤ d.now ∧
      d.now < t₀ + (k + 1) * job.tick)).length ≤ 1 := by
  have hn := h.nodup_intervals (p := fun d => d.ticks ∧ t₀ + k * job.tick ≤ d.now ∧
    d.now < t₀ + (k + 1) * job.tick) (fun d hd => (of_decide_eq_true hd).1)
  have hk : ∀ m ∈ (ds.filter (fun d => d.ticks ∧ t₀ + k * job.tick ≤ d.now ∧
      d.now < t₀ + (k + 1) * job.tick)).map (fun d => interval t₀ job.tick d.now), m = k := by
    intro m hm
    obtain ⟨d, hd, rfl⟩ := List.mem_map.mp hm
    obtain ⟨_, hle, hlt⟩ := of_decide_eq_true (List.mem_filter.mp hd).2
    refine Nat.div_eq_of_lt_le (Nat.le_sub_of_add_le' hle) ?_
    exact Nat.sub_lt_left_of_lt_add (le_trans (Nat.le_add_right _ _) hle) hlt
  rw [List.eq_replicate_of_mem hk, List.nodup_replicate, List.length_map] at hn
  exact hn

theorem Pace.count (h : Pace job t₀ w₀ ds w) (htick : 0 < job.tick) (T : Instant) :
    (ds.filter (fun d => d.ticks ∧ d.now ≤ T)).length ≤ (T - t₀) / job.tick := by
  have hn := h.nodup_intervals (p := fun d => d.ticks ∧ d.now ≤ T)
    (fun d hd => (of_decide_eq_true hd).1)
  have hsub : (ds.filter (fun d => d.ticks ∧ d.now ≤ T)).map (fun d => interval t₀ job.tick d.now) ⊆
      List.range' 1 ((T - t₀) / job.tick) := by
    intro m hm
    obtain ⟨d, hd, rfl⟩ := List.mem_map.mp hm
    obtain ⟨hmem, hd⟩ := List.mem_filter.mp hd
    obtain ⟨ht, hle⟩ := of_decide_eq_true hd
    have hpos := interval_pos h htick hmem ht
    have hT : interval t₀ job.tick d.now ≤ (T - t₀) / job.tick :=
      Nat.div_le_div_right (Nat.sub_le_sub_right hle t₀)
    rw [List.mem_range'_1]
    omega
  have hlen := (hn.subperm hsub).length_le
  rwa [List.length_map, List.length_range'] at hlen

theorem Pace.late (h : Pace job t₀ w₀ ds w) {early rest : List (Drive P)} {d : Drive P}
    (hds : ds = early ++ d :: rest) (hearly : ∀ e ∈ early, e.now < t₀ + job.duration)
    (hd : t₀ + job.duration ≤ d.now) : Late job t₀ early d rest w := by
  have found : ∀ {early' rest' : List (Drive P)} {d' : Drive P}, ds = early' ++ d' :: rest' →
      Late job t₀ early' d' rest' w → Late job t₀ early d rest w := by
    intro early' rest' d' hds' hl
    obtain ⟨rfl, rfl, rfl⟩ := append_cons_inj (p := fun e => decide (e.now < t₀ + job.duration))
      (hds.symm.trans hds') (fun e he => decide_eq_true (hearly e he)) (decide_eq_false (not_lt.mpr hd))
      (fun e he => decide_eq_true (hl.early e he).1) (decide_eq_false (not_lt.mpr hl.deadline))
    exact hl
  cases h.stage with
  | pacing _ _ _ _ _ hall => exact absurd (hall d (by simp [hds])).1 (not_lt.mpr hd)
  | grace _ _ _ hds' hl => exact found hds' hl
  | ended _ hds' hl => exact found hds' hl

theorem Pace.paced (h : Pace job t₀ w₀ ds w) (htick : 0 < job.tick) : Paced job t₀ w₀ ds w where
  once := fun k _ => h.once k
  within := h.within
  count := h.count htick
  sent := fun T hT uid => by
    have hall : ds.filter (fun d => d.ticks ∧ d.now ≤ T) = ds.filter Drive.ticks :=
      List.filter_congr (fun d hd => by simp [hT d hd])
    have hcount := h.count htick T
    rw [hall] at hcount
    refine (h.tried uid).trans (Nat.add_le_add_left (Nat.mul_le_mul_left _ ?_) _)
    rwa [ticked, List.length_map]
  late := fun early d rest hds hearly hd => by
    have hl := h.late hds hearly hd
    refine ⟨fun e he => ?_, hl.tried, hl.rest⟩
    rcases List.mem_append.mp he with he | he
    · exact (hl.early e he).2
    · rw [List.mem_singleton.mp he]
      exact hl.goesOn

/-- The pace of BenchMultiplex, for every run of a thread through `Phase::Rate`. -/
theorem multiplex_paced {t₁ : Thread P} (ht : t.Reach cfg) (henter : t.EntersRate t' job t₀)
    (htick : 0 < job.tick) (hrun : Driven t' ds t₁) : Paced job t₀ t'.w ds t₁.w := by
  obtain ⟨stop, g, hpt, hp, hturn⟩ := id henter
  obtain ⟨os, now, hreach⟩ := ht
  exact (hrun.pace ⟨os, now, hreach.tail (.turn hturn)⟩ htick henter.pace).paced htick

/-- So many turns of a thread in `Phase::Rate`, with the calls of `drive` they make. -/
def Thread.driveFor : ℕ → Thread P → Option (List (Drive P) × Thread P)
  | 0, t => some ([], t)
  | n + 1, t => match t.w.phase, turn t.pt t.w with
    | .rate _, .ok pt w => (driveFor n ⟨w, pt⟩).map (fun x => (t.drives ++ x.1, x.2))
    | _, _ => none

theorem Driven.driveFor {n : ℕ} {x : List (Drive P) × Thread P} (h : Driven t ds t')
    (hx : t'.driveFor n = some x) : Driven t (ds ++ x.1) x.2 := by
  induction n generalizing ds t' x with
  | zero =>
    obtain rfl := Option.some.inj hx
    rw [List.append_nil]
    exact h
  | succ n ih =>
    unfold Thread.driveFor at hx
    split at hx
    · rename_i hp hturn
      obtain ⟨y, hy, rfl⟩ := Option.map_eq_some_iff.mp hx
      rw [← List.append_assoc]
      exact ih (.turn h hp hturn) hy
    · cases hx

/-- The thread in `Phase::Rate` after the turn in which it entered it for `job` at `t₀`. -/
def Thread.entered (t : Thread P) (job : RateJob) (t₀ : Instant) : Option (Thread P) :=
  match t.pt, t.w.phase, turn t.pt t.w with
  | .drive now _, .ratePrep job' 0 _, .ok pt w => if now = t₀ ∧ job' = job then some ⟨w, pt⟩ else none
  | _, _, _ => none

theorem Thread.EntersRate.of_entered (h : t.entered job t₀ = some t') : t.EntersRate t' job t₀ := by
  unfold Thread.entered at h
  split at h
  · rename_i hpt hp hturn
    split at h
    · rename_i heq
      obtain rfl := Option.some.inj h
      exact ⟨_, _, heq.1 ▸ hpt, heq.2 ▸ hp, hturn⟩
    · cases h
  · cases h

/-- Three ticks and a half on one connection. -/
def sevenUnits : RateJob where
  duration := 7
  batch := 2
  tick := 2
  payload := [7]
  limited := false

/-- A thread enters the phase at 12, ticks at 14, 16 and 18, makes its first call after the deadline at
20, and ends the phase at 22: nothing is answered. -/
theorem multiplex_paced_seven : ∃ (t t' t₁ : Thread loopback) (ds : List (Drive loopback)),
    t.Reach loopbackConfig ∧ t.EntersRate t' sevenUnits 12 ∧ Driven t' ds t₁ ∧
    ds.map (fun d => (d.now, d.ticks, d.after.tried 1)) =
      [(13, false, 1), (14, true, 3), (16, true, 5), (18, true, 7), (20, false, 7), (21, false, 7),
        (22, false, 7)] ∧
    Paced sevenUnits 12 t'.w ds t₁.w := by
  obtain ⟨t, ht, hp⟩ := Thread.exists_reach (P := loopback) loopbackConfig
    { polls := [[.waker], [.slot 0], [.slot 0], [.waker]], inbox := [([[1]], none), ([[2]], none)] } 0
    [(.dial 1 1, 15), (.rate sevenUnits, 5)]
    (fun t => (t.entered sevenUnits 12).any (fun t' => (t'.driveFor 38).any (fun x =>
      x.1.map (fun d => (d.now, d.ticks, d.after.tried 1)) =
        [(13, false, 1), (14, true, 3), (16, true, 5), (18, true, 7), (20, false, 7), (21, false, 7),
          (22, false, 7)]))) (by decide +kernel)
  obtain ⟨t', ht', hx⟩ := (Option.any_eq_true ..).mp hp
  obtain ⟨x, hx, hmap⟩ := (Option.any_eq_true ..).mp hx
  have henter := Thread.EntersRate.of_entered ht'
  have hrun := Driven.enter.driveFor hx
  exact ⟨t, t', x.2, _, ht, henter, hrun, of_decide_eq_true hmap,
    multiplex_paced ht henter (by decide) hrun⟩

end Http3Bench
