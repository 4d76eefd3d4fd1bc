import Http3Bench.Attempts
import Http3Bench.Places
import Http3Bench.Split
import Http3Bench.Tickets

/-!
# The Connections benchmark

Every new connection that comes up is counted as a success by the phase and by the engine's counter,
and it is what occupies a slot as long as a worker is only told to dial. With that, the counters of a
dial phase add up to the number of connections it was asked for.
-/

namespace Http3Bench

variable {P : Platform}

def Outcome.dialed : Outcome → ℤ
  | .dial lat => lat.success
  | _ => 0

def Phase.dialed : Phase → ℤ
  | .dial d => d.lat.success
  | _ => 0

/-- The new connections a worker has counted as successes. -/
def Front.successes (f : Front) : ℤ := (f.sent.map Outcome.dialed).sum + f.phase.dialed

def Task.isNewUp : Task → Bool
  | .newUp _ => true
  | _ => false

/-- The new connections that are up and not yet counted by the phase. -/
def newUps (todo : List Task) : ℤ := (todo.countP Task.isNewUp : ℕ)

theorem newUps_append {l : List Task} (hl : ∀ t ∈ l, t.isNewUp = false) (st : List Task) :
    newUps (l ++ st) = newUps st := by
  have h0 : l.countP Task.isNewUp = 0 := List.countP_eq_zero.mpr (fun t ht => by simp [hl t ht])
  rw [newUps, List.countP_append, h0, zero_add]
  rfl

theorem newUps_sendTasks (i : ℕ) (kind : ReqKind) (body : Body) (r : Except SendError Unit)
    (st : List Task) : newUps (sendTasks i kind body r ++ st) = newUps st := by
  refine newUps_append ?_ st
  unfold sendTasks
  split
  · split <;> simp [Task.isNewUp]
  · simp [Task.isNewUp]
  · split <;> simp [Task.isNewUp]

theorem newUps_eventTasks (i : ℕ) (ev : ConnEvent) (st : List Task) :
    newUps (eventTasks i ev ++ st) = newUps st := by
  refine newUps_append ?_ st
  unfold eventTasks
  split <;> simp [Task.isNewUp]

theorem newUps_closedTasks (i : ℕ) (reason : String) (s : Option (Conn P)) (st : List Task) :
    newUps (closedTasks i reason s ++ st) = newUps st := by
  refine newUps_append ?_ st
  unfold closedTasks
  split
  · split <;> simp [Task.isNewUp]
  · simp

theorem newUps_events (i : ℕ) (evs : List ConnEvent) (st : List Task) :
    newUps (events i evs ++ st) = newUps st :=
  newUps_append (by simp [events, Task.isNewUp]) st

theorem newUps_jobs (js : List DialJob) (st : List Task) :
    newUps (js.map Task.job ++ st) = newUps st :=
  newUps_append (by simp [Task.isNewUp]) st

theorem newUps_flush {b : Bool} {i : ℕ} (st : List Task) :
    newUps ((if b = true then [.read i] else []) ++ st) = newUps (.flush i :: st) := by
  cases b <;> rfl

theorem newUps_cons (j : DialJob) (st : List Task) : newUps (.newUp j :: st) = newUps st + 1 := by
  rw [newUps, List.countP_cons_of_pos rfl]
  push_cast
  rfl

theorem Finishes.dialed {p : Phase} {o : Outcome} (h : Finishes p o) : o.dialed = p.dialed := by
  cases h <;> rfl

theorem Phase.dialed_answer (p : Phase) (r : Except String ℕ) (cause : Cause) :
    (p.answer r cause).dialed = p.dialed := by
  cases p <;> rfl

theorem Phase.dialed_addSent (p : Phase) (n : ℕ) : (p.addSent n).dialed = p.dialed := by
  cases p <;> rfl

theorem Phase.Books.no_news {p : Phase} {prep : Option ℕ} {m : Multiset Op} (h : p.Books prep m)
    (hp : ∀ d, p ≠ .dial d) (id : ℕ) : id ∉ news m := by
  cases p with
  | dial d => exact absurd rfl (hp d)
  | _ => simp [h.1]

variable {x x' : Mach P} {ins outs : Multiset Op}

/-- The engine's counter moves with the successes of the workers. -/
theorem Move.gain (m : Move x ins outs x') (ha : Agenda x) (hb : Books x) :
    x'.w.shared.connected + (x.w.front.successes + newUps x.todo) =
      x.w.shared.connected + (x'.w.front.successes + newUps x'.todo) := by
  have keep : ∀ {a b : ℤ} {f f' : Front}, a = b → f'.sent = f.sent →
      f'.phase.dialed = f.phase.dialed → a + (f.successes + newUps x.todo) =
        b + (f'.successes + newUps x.todo) := by
    intro a b f f' hab hs hp
    rw [Front.successes, Front.successes, hab, hs, hp]
  cases m with
  | send hc =>
    rw [Worker.afterSend_eq, newUps_sendTasks]
    rfl
  | event =>
    rw [newUps_eventTasks]
    rfl
  | closedOther =>
    rw [newUps_closedTasks]
    rfl
  | rateEvent => exact keep rfl rfl (Phase.dialed_answer _ _ _)
  | @upNew w st i c j hc hd hj =>
    rw [newUps_cons]
    change w.shared.connected + 1 + (w.front.successes + newUps st) =
      w.shared.connected + (w.front.successes + (newUps st + 1))
    omega
  | loseNew hr hj hp => exact keep rfl rfl (congrArg Phase.dialed hp).symm
  | @newUp w st j d cost hp h0 =>
    have hold : w.front.successes = (w.sent.map Outcome.dialed).sum + d.lat.success :=
      congrArg (_ + Phase.dialed ·) hp
    have hnew : ({ w with phase := .dial (d.connected cost) } : Worker P).front.successes =
        (w.sent.map Outcome.dialed).sum + (d.lat.success + 1) := rfl
    simp only [newUps_cons, hold, hnew]
    omega
  | @newUpLate w st j hp =>
    have hm : j.op ∈ (⟨w, .newUp j :: st⟩ : Mach P).ops := op_mem_ops rfl
    exact absurd (newId_mem hm (ha.tasks (.newUp j) List.mem_cons_self))
      (hb.phase.no_news hp j.id)
  | settle hp => exact keep rfl rfl (congrArg Phase.dialed hp).symm
  | done cost hp => exact keep rfl rfl (congrArg Phase.dialed hp).symm
  | registerFailed =>
    simp only [Worker.front, Worker.wait, Worker.rx_takeSlot, Worker.given_takeSlot,
      Worker.phase_takeSlot, Worker.sent_takeSlot, Worker.shared_takeSlot]
    rfl
  | seated =>
    simp only [Worker.front, Worker.install, Worker.put, Worker.wait, Worker.rx_takeSlot,
      Worker.given_takeSlot, Worker.phase_takeSlot, Worker.sent_takeSlot, Worker.shared_takeSlot]
    rfl
  | flushed r as o t hc =>
    rw [Worker.flushed_eq (by exact Worker.lt_of_conn hc), newUps_flush]
    rfl
  | read hc =>
    rw [newUps_events]
    rfl
  | timerRearmed ht hc =>
    rw [Worker.schedule_eq (Worker.conn_set rfl (Worker.lt_of_conn hc) _ |>.trans (if_pos rfl))]
    rfl
  | startDial hrx =>
    have hw := ha.waits
    rw [hrx] at hw
    exact keep rfl rfl (congrArg Phase.dialed hw.idle.2.1).symm
  | startEcho hrx =>
    have hw := ha.waits
    rw [hrx] at hw
    exact keep rfl rfl (congrArg Phase.dialed hw.idle.2.1).symm
  | startRate =>
    rw [newUps_jobs]
    rfl
  | prepared =>
    have hw := ha.waits.prep.resolve_right (by simp [calm, prepOf, Task.prepOf])
    exact keep rfl rfl (congrArg Phase.dialed hw).symm
  | finish hf =>
    simp [Worker.front, Front.successes, hf.dialed, Phase.dialed]
  | startDials now n hp =>
    rw [← List.append_nil (List.map _ _), newUps_jobs]
    exact keep rfl rfl (congrArg Phase.dialed hp).symm
  | echoWait t hp => exact keep rfl rfl (congrArg Phase.dialed hp).symm
  | overdraw hp => exact keep rfl rfl (congrArg Phase.dialed hp).symm
  | draw hp => exact keep rfl rfl (congrArg Phase.dialed hp).symm
  | rateStart now hp => exact keep rfl rfl (congrArg Phase.dialed hp).symm
  | rateTimes next grace hp => exact keep rfl rfl (congrArg Phase.dialed hp).symm
  | tickEnd => exact keep rfl rfl (Phase.dialed_addSent _ _)
  | _ => rfl

/-- A connection that is not being dialed. -/
def Conn.settledOne (c : Conn P) : ℤ := if c.dial.isNone then 1 else 0

def Worker.settled (w : Worker P) : ℤ := w.total (fun _ c => c.settledOne)

/-- While no connection is dialed again, a slot is settled when a new connection comes up. -/
theorem SlotStep.settled {todo : List Task} {w w' : Worker P} (hs : SlotStep todo w w')
    (hf : w.FreeOk) (hnew : ∀ {i c j}, w.conn i = some c → c.dial = some j → j.purpose = .new)
    (hjob : ∀ j, .dialing j ∈ todo → j.slot = none) :
    w'.settled + w.shared.connected = w.settled + w'.shared.connected := by
  have put : ∀ {i c c'}, w.conn i = some c → w'.slots = w.slots.set i (some c') →
      w'.shared.connected = w.shared.connected + (c'.settledOne - c.settledOne) →
      w'.settled + w.shared.connected = w.settled + w'.shared.connected := by
    intro i c c' hc hs hr
    have ht := Worker.total_set (f := fun _ (c : Conn P) => c.settledOne) hs (Worker.lt_of_conn hc)
    simp only [hc, Option.elim_some] at ht
    unfold Worker.settled
    linarith
  have alloc : w.takeSlot none = w.allocSlot := rfl
  have take : (w.allocSlot).2.settled = w.settled := by
    unfold Worker.allocSlot
    cases hfr : w.free with
    | nil => exact (Worker.total_append (s := none) rfl).trans (add_zero _)
    | cons i rest => rfl
  cases hs with
  | same hs _ _ _ hk => rw [hk]; exact congrArg (· + _) (Worker.total_of_slots_eq hs)
  | change hc hch hs _ _ _ hk => exact put hc hs (by simp [hk, Conn.settledOne, hch.dial])
  | closed hc _ hs _ _ _ hk => exact put hc hs (by simp [hk, Conn.settledOne])
  | up hc hd hs _ _ _ hk =>
    exact put hc hs (by simp [hk, Conn.settledOne, Conn.up, hd, hnew hc hd])
  | broke hc hd hj => exact absurd (hnew hc hd) hj
  | drop hc hd hj hs _ _ _ hk =>
    have ht := Worker.total_set (f := fun _ (c : Conn P) => c.settledOne) hs (Worker.lt_of_conn hc)
    simp only [hc, Option.elim_some, Option.elim_none, Conn.settledOne, hd] at ht
    rw [hk]
    unfold Worker.settled
    simpa [Conn.settledOne] using ht
  | vacate slot hlt hs _ _ _ _ hk hj =>
    obtain ⟨j, hj, rfl⟩ := hj
    rw [hjob j (List.mem_of_mem_head? hj), alloc] at hs
    rw [hk]
    exact congrArg (· + _) ((Worker.total_of_slots_eq hs).trans take)
  | seat d j now hj hlt hidx hs _ _ _ hk =>
    have ht := Worker.total_set (f := fun _ (c : Conn P) => c.settledOne) hs hidx
    rw [hf.conn_takeSlot hlt] at ht
    have hz : (d.conn (w.takeSlot j.slot).1 j w.cfg.dialTimeout now w.serial).settledOne = 0 := rfl
    simp only [Option.elim_some, Option.elim_none, hz, add_zero] at ht
    rw [hjob j (List.mem_of_mem_head? hj), alloc] at ht
    rw [hk]
    exact congrArg (· + _) (ht.trans take)
  | reset hs _ _ _ hk =>
    rw [hk]
    refine congrArg (· + _) (Worker.total_map hs (fun _ c => ?_))
    unfold Conn.resetInFlight
    split <;> rfl

/-- The worker has only been told to dial. -/
def OnlyDial (given : List Command) : Prop := ∀ cmd ∈ given, ∃ count conc, cmd = .dial count conc

theorem Serves.dial_phase {count conc : ℕ} {p : Phase} (h : Serves (.dial count conc) p) :
    ∃ d, p = .dial d := by
  cases h with
  | dial => exact ⟨_, rfl⟩

theorem Dialog.onlyDial {f : Front} {p : Option (RateJob × ℕ × ℕ)} (h : Dialog f p)
    (ho : OnlyDial f.given) : (f.phase = .idle ∨ ∃ d, f.phase = .dial d) ∧ p = none := by
  obtain ⟨done, ha, _⟩ := h.dialog
  cases ha with
  | quiet _ _ hp => exact ⟨.inl hp, rfl⟩
  | asked _ _ hp => exact ⟨.inl hp, rfl⟩
  | @serving cmd hg _ hs =>
    obtain ⟨count, conc, rfl⟩ := ho cmd (by rw [hg]; simp)
    exact ⟨.inr hs.dial_phase, rfl⟩
  | @prep job _ _ hg =>
    obtain ⟨count, conc, h⟩ := ho (.rate job) (by rw [hg]; simp)
    cases h
  | stopped _ _ hp => exact ⟨.inl hp, rfl⟩

/-- A worker that has only been told to dial dials no connection again. -/
theorem Talking.new_only (h : Talking x) (ho : OnlyDial x.w.given) {j : DialJob} (hm : j.op ∈ x.ops) :
    j.purpose = .new := by
  have hd : (x.w.phase = .idle ∨ ∃ d, x.w.phase = .dial d) ∧ prepOf x.todo = none :=
    h.2.onlyDial ho
  have hb := h.1.books.phase
  have hz : echoes x.ops = 0 ∧ redials x.ops = 0 := by
    rw [prepSize, hd.2] at hb
    rcases hd.1 with hp | ⟨d, hp⟩
    · exact (hb.rest hp).2
    · rw [hp] at hb
      exact hb.2.2
  cases hp : j.purpose with
  | new => rfl
  | redialEcho s n =>
    rw [DialJob.op_echo hp] at hm
    have : (j.slot.getD 0, n) ∈ echoes x.ops := (Multiset.mem_filterMap _ _).mpr ⟨_, hm, rfl⟩
    simp [hz.1] at this
  | redialRate =>
    rw [DialJob.op_rate hp] at hm
    have : j.slot.getD 0 ∈ redials x.ops := (Multiset.mem_filterMap _ _).mpr ⟨_, hm, rfl⟩
    simp [hz.2] at this

theorem kept_settled : Kept (Talking (P := P))
    (fun x => OnlyDial x.w.given → x.w.settled = x.w.front.successes + newUps x.todo) where
  new := fun _ _ _ _ => rfl
  move := by
    intro x ins outs x' m hx _ h ho
    have hg : x'.w.given = x.w.given := m.front.told.1
    rw [hg] at ho
    have hs := m.slotStep.settled hx.1.books.free
      (fun hc hd => hx.new_only ho (mem_ops_of_dial hc hd))
      (fun j hj => by
        have hn := hx.new_only ho
          (Multiset.mem_add.mpr (.inr (mem_agendaOps hj (Multiset.mem_singleton_self _))))
        exact (hx.1.agenda.tasks _ hj).mp hn)
    have hgain := m.gain hx.1.agenda hx.1.books
    have := h ho
    linarith
  interfere := fun _ _ h ho => h ho
  command := fun cmd _ _ _ _ h ho => h (fun c hc => ho c (List.mem_append_left _ hc))

namespace Engine

variable {cfg : EngineConfig} {s s' : Engine P}

theorem Step.connected (h : Step s s') (hs : s.Ok cfg)
    (hc : s.shared.connected = (s.threads.map (fun t => t.w.front.successes)).sum) :
    s'.shared.connected = (s'.threads.map (fun t => t.w.front.successes)).sum := by
  cases h with
  | @turn i t pt w ht hw =>
    obtain ⟨D, hD, hset⟩ := exists_sum_set (fun t : Thread P => t.w.front.successes) ht
    have htalk : Talking ⟨{ t.w with shared := s.shared }, []⟩ :=
      kept_talking.interfere s.shared trivial (hs.reach ht).talking
    have hw' := turn_keeps (J := fun x => x.w.shared.connected =
        D + (x.w.front.successes + newUps x.todo))
      kept_talking (fun h hc => h.queued hc) ?_ hw htalk
      (hc.trans (hD.trans (congrArg (D + ·) (add_zero _).symm)))
    · exact hw'.trans ((congrArg (D + ·) (add_zero _)).trans (hset ⟨w, pt⟩).symm)
    · intro x ins outs x' m ha hJ
      have := m.gain ha.1.agenda ha.1.books
      linarith
  | run cmds => exact hc
  | @send i cmd rest t ho ht =>
    obtain ⟨D, hD, hset⟩ := exists_sum_set (fun t : Thread P => t.w.front.successes) ht
    exact hc.trans (hD.trans (hset ⟨t.w.give cmd, t.pt⟩).symm)

theorem Reach.connected (h : s.Reach cfg) :
    s.shared.connected = (s.threads.map (fun t => t.w.front.successes)).sum := by
  obtain ⟨starts, hrun⟩ := h
  induction hrun with
  | refl =>
    refine (List.sum_eq_zero (fun d hd => ?_)).symm
    obtain ⟨t, ht, rfl⟩ := List.mem_map.mp hd
    obtain ⟨a, _, rfl⟩ := List.mem_map.mp ht
    rfl
  | tail hrun hstep ih => exact hstep.connected (Reach.ok ⟨starts, hrun⟩) ih

/-- The outcomes of the last round. -/
def outcomes (s : Engine P) : List Outcome := s.threads.filterMap (fun t => t.w.sent.getLast?)

end Engine

def Latencies.addDial (acc : Latencies) : Outcome → Latencies
  | .dial lat => acc.merge lat
  | _ => acc

/-- The latencies `main` merges the outcomes of the Connections benchmark into. -/
def mergeDials (outcomes : List Outcome) : Latencies := outcomes.foldl Latencies.addDial {}

theorem counts_mergeDials (lats : List Latencies) :
    (mergeDials (lats.map Outcome.dial)).success = (lats.map Latencies.success).sum ∧
      (mergeDials (lats.map Outcome.dial)).failed = (lats.map Latencies.failed).sum := by
  suffices h : ∀ acc : Latencies,
      ((lats.map Outcome.dial).foldl Latencies.addDial acc).success =
          acc.success + (lats.map Latencies.success).sum ∧
        ((lats.map Outcome.dial).foldl Latencies.addDial acc).failed =
          acc.failed + (lats.map Latencies.failed).sum by
    simpa [mergeDials] using h {}
  induction lats with
  | nil => simp
  | cons l rest ih =>
    intro acc
    have := ih (acc.merge l)
    simp only [List.map_cons, List.foldl_cons, List.sum_cons, Latencies.addDial, this]
    constructor <;> simp only [Latencies.merge] <;> omega

def Command.count : Command → ℕ
  | .dial count _ => count
  | _ => 0

theorem Answers.dialed {cmd : Command} {o : Outcome} (h : Answers cmd o)
    (hc : ∃ count conc, cmd = .dial count conc) :
    ∃ lat, o = .dial lat ∧ lat.success + lat.failed = cmd.count := by
  obtain ⟨count, conc, rfl⟩ := hc
  cases h with
  | dial hsum => exact ⟨_, rfl, hsum⟩

theorem dial_of_mem_dialCommands {numConns dialConc threads : ℕ} {cmd : Command}
    (h : cmd ∈ dialCommands numConns dialConc threads) : ∃ count conc, cmd = .dial count conc := by
  rw [dialCommands, ← List.map_uncurry_zip_eq_zipWith] at h
  obtain ⟨a, _, rfl⟩ := List.mem_map.mp h
  exact ⟨_, _, rfl⟩

theorem count_dialCommands (numConns dialConc threads : ℕ) :
    (dialCommands numConns dialConc threads).map Command.count = split numConns threads := by
  have h : ∀ (l l' : List ℕ), l.length = l'.length →
      (List.zipWith (fun count conc => Command.dial count (if 0 < count then max conc 1 else 0))
        l l').map Command.count = l := by
    intro l
    induction l with
    | nil => simp
    | cons a rest ih =>
      intro l' hlen
      cases l' with
      | nil => cases hlen
      | cons b rest' =>
        have := ih rest' (by simpa using hlen)
        simp [Command.count, this]
  exact h _ _ (by rw [length_split, length_split])

/-- The only slots a worker holds after its first command are those of the successes it reports. -/
theorem Talking.occupied {w : Worker P} {count conc : ℕ} {lat : Latencies}
    (h : Talking ⟨w, []⟩)
    (hs : OnlyDial w.given → w.settled = w.front.successes + newUps []) (hg : w.given = [.dial count conc])
    (hsent : w.sent = [.dial lat]) :
    lat.success + lat.failed = count ∧ (w.occupied.length : ℤ) = lat.success := by
  have hq := h.2.quiet (f := w.front) (by simp [Worker.front, hg, hsent])
  have hidle : w.phase = .idle := hq.2.1
  have hans : List.Forall₂ Answers [.dial count conc] [Outcome.dial lat] := by
    have := hq.2.2
    simp only [Worker.front, hg, hsent] at this
    exact this
  refine ⟨?_, ?_⟩
  · cases hans with
    | cons ha _ =>
      cases ha with
      | dial hsum => exact hsum
  · have hd : ∀ {i c}, w.conn i = some c → c.dial = none := by
      intro i c hc
      cases hd : c.dial with
      | none => rfl
      | some j =>
        have hm := mem_ops_of_dial (x := ⟨w, []⟩) hc hd
        have hn := h.new_only (by rw [hg]; simp [OnlyDial]) hm
        exact absurd (newId_mem hm hn) (h.1.books.phase.no_news (by simp [hidle]) j.id)
    have hset := hs (by rw [hg]; simp [OnlyDial])
    have hsucc : w.front.successes = lat.success := by
      simp [Worker.front, Front.successes, hsent, hidle, Phase.dialed, Outcome.dialed]
    rw [Worker.occupied, length_slotsWhere]
    rw [hsucc, show newUps [] = 0 from rfl, add_zero] at hset
    rw [← hset]
    unfold Worker.settled Worker.total
    push_cast
    refine Finset.sum_congr rfl (fun i _ => ?_)
    cases hc : w.conn i with
    | none => rfl
    | some c => simp [Conn.settledOne, hd hc]

theorem sum_answers {threads : List (Thread P)} {cmds : List Command}
    (h : List.Forall₂ (fun (t : Thread P) cmd => ∃ lat, t.w.sent = [.dial lat] ∧
      lat.success + lat.failed = cmd.count ∧ t.w.front.successes = lat.success) threads cmds) :
    ∃ lats : List Latencies,
      threads.filterMap (fun t => t.w.sent.getLast?) = lats.map Outcome.dial ∧
      (lats.map Latencies.success).sum + (lats.map Latencies.failed).sum =
        ((cmds.map Command.count).sum : ℕ) ∧
      (threads.map (fun t => t.w.front.successes)).sum = (lats.map Latencies.success).sum := by
  induction h with
  | nil => exact ⟨[], rfl, rfl, rfl⟩
  | @cons t cmd ts cs ht _ ih =>
    obtain ⟨lat, hsent, hsum, hsucc⟩ := ht
    obtain ⟨lats, h₁, h₂, h₃⟩ := ih
    refine ⟨lat :: lats, ?_, ?_, ?_⟩
    · have hlast : t.w.sent.getLast? = some (.dial lat) := by rw [hsent]; rfl
      rw [List.filterMap_cons_some (by exact hlast), h₁, List.map_cons]
    · simp only [List.map_cons, List.sum_cons]
      push_cast at h₂ ⊢
      linarith
    · simp only [List.map_cons, List.sum_cons, hsucc, h₃]

/-- The Connections benchmark accounts for every connection it was asked for. -/
theorem connections_accounting {cfg : EngineConfig} (hr : 1 ≤ cfg.dialRetries) :
    (∀ t : Thread P, t.Reach cfg →
      (∀ d, t.w.phase = .dial d → ∃ count conc,
        t.w.given.getLast? = some (.dial count conc) ∧
        (d.remaining + d.active + d.lat.success + d.lat.failed : ℤ) = count ∧ d.active ≤ conc ∧
        d.active = (t.w.slotsWhere (Conn.dials (fun p => p = .new))).length +
          t.w.retries.countP (fun r => r.2.purpose = .new)) ∧
      (∀ id, t.w.attempts id ≤ cfg.dialRetries) ∧
      ∀ count conc lat, t.w.given = [.dial count conc] → t.w.sent = [.dial lat] →
        lat.success + lat.failed = count ∧ (t.w.occupied.length : ℤ) = lat.success) ∧
    ∀ s : Engine P, s.Reach cfg → ∀ numConns dialConc : ℕ,
      0 < s.threads.length → numConns * s.threads.length < 2 ^ 64 →
      s.rounds = [dialCommands numConns dialConc s.threads.length] →
      (∀ t ∈ s.threads, t.w.sent.length = s.rounds.length) →
      (mergeDials s.outcomes).success + (mergeDials s.outcomes).failed = numConns ∧
        s.shared.connected = (mergeDials s.outcomes).success := by
  refine ⟨fun t ht => ⟨fun d hp => ?_, fun id => ?_, fun count conc lat hg hsent => ?_⟩,
    fun s hs numConns dialConc hpos hfit hround hdone => ?_⟩
  · have htalk := ht.talking
    obtain ⟨cmd, _, hlast, hserves⟩ := htalk.2.busy (f := t.w.front) (by simp [Worker.front, hp])
    have hb := htalk.1.books.phase
    rw [show (⟨t.w, []⟩ : Mach P).w.phase = .dial d from hp] at hb
    rw [show t.w.front.phase = .dial d from hp] at hserves
    cases hserves with
    | dial hconc hsum hle =>
      exact ⟨_, _, hlast, hsum, hle, hb.2.1.symm.trans (countsDials_news.rest htalk.1.sound)⟩
  · obtain ⟨_, htries, _⟩ := kept_tries.reached ht
    have := (htries (by rw [ht.cfg_eq]; exact hr)).bound id
    rwa [show (⟨t.w, []⟩ : Mach P).w.cfg = cfg from ht.cfg_eq] at this
  · have hk := ((kept_talking.and kept_settled).reach (fun h hc => h.1.queued hc) ht).1
    exact hk.1.occupied hk.2 hg hsent
  · have hok := hs.ok
    have hlen : (dialCommands numConns dialConc s.threads.length).length = s.threads.length := by
      simp [dialCommands, length_split]
    have hall : List.Forall₂ (fun (t : Thread P) cmd => ∃ lat, t.w.sent = [.dial lat] ∧
        lat.success + lat.failed = cmd.count ∧ t.w.front.successes = lat.success) s.threads
        (dialCommands numConns dialConc s.threads.length) := by
      refine List.forall₂_iff_get.mpr ⟨hlen.symm, fun i h₁ h₂ => ?_⟩
      have hi : s.threads[i]? = some (s.threads.get ⟨i, h₁⟩) := List.getElem?_eq_getElem h₁
      have hsent := hdone _ (List.get_mem s.threads ⟨i, h₁⟩)
      obtain ⟨cmd, o, hcmd, ho, ha, hp⟩ := hok.answered hi (by rw [hround]; rfl) hsent
      obtain rfl : cmd = (dialCommands numConns dialConc s.threads.length).get ⟨i, h₂⟩ :=
        Option.some.inj (hcmd.symm.trans (List.getElem?_eq_getElem h₂))
      obtain ⟨lat, rfl, hsum⟩ := ha.dialed (dial_of_mem_dialCommands (List.get_mem _ _))
      rw [hround, List.length_singleton] at hsent
      obtain ⟨o, hone⟩ := List.length_eq_one_iff.mp hsent
      rw [hone] at ho
      obtain rfl : o = .dial lat := by simpa using ho
      refine ⟨lat, hone, hsum, ?_⟩
      simp only [Worker.front, Front.successes, hone, hp, Phase.dialed, List.map_cons, List.map_nil,
        List.sum_cons, List.sum_nil, Outcome.dialed, add_zero]
    obtain ⟨lats, hout, hsum, hsucc⟩ := sum_answers hall
    rw [count_dialCommands, sum_split hpos hfit] at hsum
    have hmerge := counts_mergeDials lats
    rw [Engine.outcomes, hout, hmerge.1, hmerge.2, hs.connected, hsucc]
    exact ⟨hsum, rfl⟩

/-- One worker is asked for two connections, and the kernel has no port for the second. -/
theorem connections_accounting_single : ∃ s : Engine loopback, s.Reach loopbackConfig ∧
    s.shared.connected = 1 ∧
    (mergeDials s.outcomes).success + (mergeDials s.outcomes).failed = 2 ∧
    s.shared.connected = (mergeDials s.outcomes).success := by
  obtain ⟨s, hs, hp⟩ := Engine.exists_reach (P := loopback) loopbackConfig [({
      polls := [[.waker], [.slot 0], [.slot 0]]
      inbox := [([[1]], none), ([[2]], none)]
      binds := [true, false] }, 0)]
    ([.run (dialCommands 2 2 1), .send] ++ List.replicate 17 (.turn 0))
    (fun s => s.rounds = [dialCommands 2 2 s.threads.length] ∧ s.threads.length = 1 ∧
      (∀ t ∈ s.threads, t.w.sent.length = s.rounds.length) ∧ s.shared.connected = 1)
    (by decide +kernel)
  obtain ⟨hround, hlen, hdone, hconn⟩ := of_decide_eq_true hp
  have h := (@connections_accounting loopback loopbackConfig (by decide)).2 s hs 2 2
    (by simp [hlen]) (by simp [hlen]) hround hdone
  exact ⟨s, hs, hconn, h.1, h.2⟩

end Http3Bench
