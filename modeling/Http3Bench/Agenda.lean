import Http3Bench.Sound

/-!
# The agenda

The shape of an agenda: one task at its head that is being worked on, then the events of one
connection, then jobs to be dialed, then what `start` or `rate_tick` comes back to. A dial job on it
or in the retry queue has a slot exactly if it is a redial. A command waits only while the worker is
idle.
-/

namespace Http3Bench

variable {P : Platform}

def Task.rank : Task → ℕ
  | .read _ | .event _ _ | .drain _ => 1
  | .job _ | .dialing _ | .flush _ => 2
  | .batch _ _ _ => 3
  | .sent _ _ | .prep _ _ _ => 4
  | _ => 0

def Shape (todo : List Task) : Prop :=
  todo.Pairwise (fun t t' => 1 ≤ t'.rank ∧ t.rank ≤ t'.rank)

/-- A new connection is dialed into any slot, a broken one into its own. -/
def DialJob.Placed (j : DialJob) : Prop := j.purpose = .new ↔ j.slot = none

def Task.Placed : Task → Prop
  | .job j | .dialing j | .lost j _ => j.Placed
  | .newUp j => j.purpose = .new
  | .settle j => j.purpose = .redialRate
  | _ => True

def Task.prepOf : Task → Option (RateJob × ℕ × ℕ)
  | .prep rate n before => some (rate, n, before)
  | _ => none

/-- For which job `start` is dialing how many broken connections again, and after how many
refusals it began. -/
def prepOf (todo : List Task) : Option (RateJob × ℕ × ℕ) := todo.findSome? Task.prepOf

def calm (todo : List Task) : Bool := (prepOf todo).isNone

/-- A command waits only while the worker is idle, and `start` runs only then. -/
structure Waits (rx : List Command) (phase : Phase) (calm : Bool) : Prop where
  command : rx = [] ∨ ((∃ cmd, rx = [cmd]) ∧ phase = .idle ∧ calm = true)
  prep : phase = .idle ∨ calm = true

structure Agenda (x : Mach P) : Prop where
  shape : Shape x.todo
  tasks : ∀ t ∈ x.todo, t.Placed
  retries : ∀ r ∈ x.w.retries, r.2.Placed
  waits : Waits x.w.rx x.w.phase (calm x.todo)

namespace Shape

variable {t t' : Task} {st : List Task}

theorem tail (h : Shape (t :: st)) : Shape st := (List.pairwise_cons.mp h).2

theorem waiting (h : Shape (t :: st)) : ∀ t' ∈ st, 1 ≤ t'.rank := fun t' ht =>
  ((List.pairwise_cons.mp h).1 t' ht).1

theorem cons (h : Shape (t :: st)) (ht : t'.rank ≤ t.rank) : Shape (t' :: st) := by
  refine List.pairwise_cons.mpr ⟨fun s hs => ?_, h.tail⟩
  have := (List.pairwise_cons.mp h).1 s hs
  exact ⟨this.1, ht.trans this.2⟩

/-- A task to be worked on, on top of a task that waits. -/
theorem push (h : Shape (t :: st)) (ht : 1 ≤ t.rank) (ht' : t'.rank = 0) :
    Shape (t' :: t :: st) := by
  refine List.pairwise_cons.mpr ⟨fun s hs => ?_, h⟩
  rcases List.mem_cons.mp hs with rfl | hs
  · omega
  · have := h.waiting s hs
    omega

theorem single (t : Task) : Shape [t] := List.pairwise_singleton ..

/-- At most one task to be worked on, on top of tasks that wait. -/
theorem active {l : List Task} (h : Shape (t :: st)) (hlen : l.length ≤ 1)
    (hl : ∀ t' ∈ l, t'.rank = 0) : Shape (l ++ st) := by
  match l with
  | [] => exact h.tail
  | [t'] => exact h.cons (by simp [hl t' (by simp)])
  | _ :: _ :: _ => simp at hlen

/-- Tasks of one rank on top of tasks of at least that rank. -/
theorem append {l : List Task} {r : ℕ} (hst : Shape st) (hr : 1 ≤ r) (hl : ∀ t ∈ l, t.rank = r)
    (hle : ∀ t ∈ st, r ≤ t.rank) : Shape (l ++ st) := by
  refine List.pairwise_append.mpr ⟨?_, hst, fun t ht t' ht' => ?_⟩
  · refine List.pairwise_of_forall_mem_list (fun t ht t' ht' => ?_)
    rw [hl t ht, hl t' ht']
    exact ⟨hr, Nat.le_refl _⟩
  · rw [hl t ht]
    exact ⟨hr.trans (hle t' ht'), hle t' ht'⟩

end Shape

theorem rank_events {i : ℕ} {evs : List ConnEvent} : ∀ t ∈ events i evs, t.rank = 1 := by
  intro t ht
  obtain ⟨ev, _, rfl⟩ := List.mem_map.mp ht
  rfl

theorem placed_mkJobs {start : Instant} {purpose : Purpose} {serial : ℕ} {slots : List (Option ℕ)}
    (h : ∀ s ∈ slots, purpose = .new ↔ s = none) :
    ∀ j ∈ mkJobs start purpose serial slots, j.Placed := by
  induction slots generalizing serial with
  | nil => simp [mkJobs]
  | cons s rest ih =>
    intro j hj
    rcases List.mem_cons.mp hj with rfl | hj
    · exact h s (by simp)
    · exact ih (fun s hs => h s (by simp [hs])) j hj

theorem active_sendTasks (i : ℕ) (kind : ReqKind) (body : Body) (r : Except SendError Unit) :
    (sendTasks i kind body r).length ≤ 1 ∧ ∀ t ∈ sendTasks i kind body r, t.rank = 0 := by
  unfold sendTasks
  split
  · split <;> simp [Task.rank]
  · simp [Task.rank]
  · split <;> simp [Task.rank]

theorem active_eventTasks (i : ℕ) (ev : ConnEvent) :
    (eventTasks i ev).length ≤ 1 ∧ ∀ t ∈ eventTasks i ev, t.rank = 0 := by
  unfold eventTasks
  split <;> simp [Task.rank]

theorem active_closedTasks (i : ℕ) (reason : String) (s : Option (Conn P)) :
    (closedTasks i reason s).length ≤ 1 ∧ ∀ t ∈ closedTasks i reason s, t.rank = 0 := by
  unfold closedTasks
  split
  · split <;> simp [Task.rank]
  · simp

theorem rank_jobs {js : List DialJob} : ∀ t ∈ js.map Task.job, t.rank = 2 := by
  intro t ht
  obtain ⟨j, _, rfl⟩ := List.mem_map.mp ht
  rfl

theorem Move.shape {x x' : Mach P} {ins outs : Multiset Op} (m : Move x ins outs x')
    (h : Shape x.todo) : Shape x'.todo := by
  cases m with
  | clock => exact h
  | send hc => exact h.active (active_sendTasks ..).1 (active_sendTasks ..).2
  | dequeue => exact h.push (Nat.le_refl _) rfl
  | event => exact h.active (active_eventTasks ..).1 (active_eventTasks ..).2
  | closedOther => exact h.active (active_closedTasks ..).1 (active_closedTasks ..).2
  | flushed r as o t hc hr =>
    simp only
    split
    · exact h.cons (Nat.le_of_ble_eq_true rfl)
    · exact h.tail
  | read hc =>
    refine Shape.append (h.cons (Nat.le_refl 1)) (Nat.le_refl 1) rank_events ?_
    intro t ht
    rcases List.mem_cons.mp ht with rfl | ht
    · exact Nat.le_refl 1
    · exact h.waiting t ht
  | startRate o t hrx =>
    refine (Shape.single _).append (Nat.le_of_ble_eq_true rfl) rank_jobs ?_
    simp [Task.rank]
  | startDials now n hp hn =>
    rw [← List.append_nil (List.map _ _)]
    exact Shape.append List.Pairwise.nil (Nat.le_of_ble_eq_true rfl) rank_jobs (by simp)
  | post => exact Shape.push (t := .batch _ _ _) (h.cons (Nat.le_refl 3)) (Nat.le_of_ble_eq_true rfl) rfl
  | batch => simp [Shape, Task.rank]
  | posted => simp [Shape, Task.rank]
  | _ => first
    | exact h.tail
    | exact h.cons (Nat.le_of_ble_eq_true rfl)
    | exact .single _
    | exact List.Pairwise.nil

theorem placed_sendTasks (i : ℕ) (kind : ReqKind) (body : Body) (r : Except SendError Unit) :
    ∀ t ∈ sendTasks i kind body r, t.Placed := by
  unfold sendTasks
  split
  · split <;> simp [Task.Placed]
  · simp [Task.Placed]
  · split <;> simp [Task.Placed]

theorem placed_eventTasks (i : ℕ) (ev : ConnEvent) : ∀ t ∈ eventTasks i ev, t.Placed := by
  unfold eventTasks
  split <;> simp [Task.Placed]

theorem placed_closedTasks (i : ℕ) (reason : String) (s : Option (Conn P)) :
    ∀ t ∈ closedTasks i reason s, t.Placed := by
  unfold closedTasks
  split
  · split <;> simp [Task.Placed]
  · simp

theorem Move.placed {x x' : Mach P} {ins outs : Multiset Op} (m : Move x ins outs x')
    (hs : x.w.Sound) (ht : ∀ t ∈ x.todo, t.Placed) (hr : ∀ r ∈ x.w.retries, r.2.Placed) :
    (∀ t ∈ x'.todo, t.Placed) ∧ ∀ r ∈ x'.w.retries, r.2.Placed := by
  have tl : ∀ {t st}, x.todo = t :: st → ∀ t' ∈ st, t'.Placed := fun h t' ht' =>
    ht t' (h ▸ List.mem_cons_of_mem _ ht')
  have top : ∀ {t st}, x.todo = t :: st → t.Placed := fun h => ht _ (h ▸ List.mem_cons_self)
  cases m with
  | clock => exact ⟨ht, hr⟩
  | send hc =>
    rw [Worker.afterSend_eq]
    exact ⟨List.forall_mem_append.mpr ⟨placed_sendTasks _ _ _ _, tl rfl⟩, hr⟩
  | event => exact ⟨List.forall_mem_append.mpr ⟨placed_eventTasks _ _, tl rfl⟩, hr⟩
  | closedOther => exact ⟨List.forall_mem_append.mpr ⟨placed_closedTasks _ _ _, tl rfl⟩, hr⟩
  | upNew hc hd hj => exact ⟨List.forall_mem_cons.mpr ⟨hj, tl rfl⟩, hr⟩
  | upRate hc hd hj => exact ⟨List.forall_mem_cons.mpr ⟨hj, tl rfl⟩, hr⟩
  | downNew hc hd hj =>
    exact ⟨List.forall_mem_cons.mpr ⟨by simp [Task.Placed, DialJob.Placed, hj], tl rfl⟩, hr⟩
  | downRedial hc hd hj =>
    refine ⟨List.forall_mem_cons.mpr ⟨?_, tl rfl⟩, hr⟩
    simp [Task.Placed, DialJob.Placed, hj, (hs.conns hc).slot _ hd]
  | retry ha =>
    refine ⟨tl rfl, List.forall_mem_append.mpr ⟨hr, ?_⟩⟩
    simpa [Task.Placed, DialJob.Placed] using top rfl
  | loseRate ha hj => exact ⟨List.forall_mem_cons.mpr ⟨hj, tl rfl⟩, hr⟩
  | attempt => exact ⟨List.forall_mem_cons.mpr ⟨top (t := .job _) rfl, tl rfl⟩, hr⟩
  | refused => exact ⟨List.forall_mem_cons.mpr ⟨top (t := .dialing _) rfl, tl rfl⟩, hr⟩
  | registerFailed o hlt =>
    refine ⟨List.forall_mem_cons.mpr ⟨top (t := .dialing _) rfl, tl rfl⟩, ?_⟩
    simpa [Worker.wait] using hr
  | seated o₁ o₂ t hlt hidx =>
    refine ⟨List.forall_mem_cons.mpr ⟨trivial, tl rfl⟩, ?_⟩
    simpa [Worker.install, Worker.put, Worker.wait] using hr
  | flushed r as o t hc hr' =>
    rw [Worker.flushed_eq (by exact Worker.lt_of_conn hc)]
    refine ⟨List.forall_mem_append.mpr ⟨?_, tl rfl⟩, hr⟩
    split <;> simp [Task.Placed]
  | read hc =>
    refine ⟨List.forall_mem_append.mpr ⟨?_, List.forall_mem_cons.mpr ⟨trivial, tl rfl⟩⟩, hr⟩
    simp [events, Task.Placed]
  | timerRearmed ht hc hs =>
    have hlt := Worker.lt_of_conn hc
    rw [Worker.schedule_eq (Worker.conn_set rfl hlt _ |>.trans (if_pos rfl))]
    exact ⟨by simp, hr⟩
  | retryDue hq =>
    rw [hq] at hr
    exact ⟨by simpa [Task.Placed] using (List.forall_mem_cons.mp hr).1,
      (List.forall_mem_cons.mp hr).2⟩
  | startRate o t hrx =>
    refine ⟨List.forall_mem_append.mpr ⟨?_, by simp [Task.Placed]⟩, hr⟩
    simpa [Task.Placed] using placed_mkJobs (by simp)
  | startDials now n hp hn =>
    exact ⟨by simpa [Task.Placed] using placed_mkJobs (by simp), hr⟩
  | ticketRedial => exact ⟨by simp [Task.Placed, DialJob.Placed], hr⟩
  | batch => exact ⟨List.forall_mem_cons.mpr ⟨trivial, ht⟩, hr⟩
  | dequeue => exact ⟨List.forall_mem_cons.mpr ⟨trivial, ht⟩, hr⟩
  | post => exact ⟨List.forall_mem_cons.mpr ⟨trivial, List.forall_mem_cons.mpr ⟨trivial, tl rfl⟩⟩, hr⟩
  | posted => exact ⟨by simp [Task.Placed], hr⟩
  | _ => first
    | exact ⟨tl rfl, hr⟩
    | exact ⟨List.forall_mem_cons.mpr ⟨trivial, tl rfl⟩, hr⟩
    | exact ⟨by simp [Task.Placed], hr⟩

namespace Waits

variable {rx : List Command} {phase phase' : Phase} {calm : Bool}

theorem busy (h : Waits rx phase calm) (hp : phase ≠ .idle) : rx = [] ∧ calm = true :=
  ⟨h.command.resolve_right (fun hc => hp hc.2.1), h.prep.resolve_left hp⟩

theorem turn (h : Waits rx phase calm) (hp : phase ≠ .idle) : Waits rx phase' calm :=
  have hb := h.busy hp
  ⟨.inl hb.1, .inr hb.2⟩

theorem idle {cmd : Command} {rest : List Command} (h : Waits (cmd :: rest) phase calm) :
    rest = [] ∧ phase = .idle ∧ calm = true := by
  rcases h.command with h | ⟨⟨c, hc⟩, hp⟩
  · cases h
  · exact ⟨(List.cons.inj hc).2, hp⟩

end Waits

theorem prepOf_append {l : List Task} (hl : ∀ t ∈ l, t.rank ≠ 4) (st : List Task) :
    prepOf (l ++ st) = prepOf st := by
  have hnone : ∀ t ∈ l, t.prepOf = none := by
    intro t ht
    cases t with
    | prep => exact absurd rfl (hl _ ht)
    | _ => rfl
  rw [prepOf, List.findSome?_append, List.findSome?_eq_none_iff.mpr hnone]
  rfl

theorem prepOf_active {l : List Task} (hl : ∀ t ∈ l, t.rank = 0) (st : List Task) :
    prepOf (l ++ st) = prepOf st :=
  prepOf_append (fun t ht => by simp [hl t ht]) st

theorem prepOf_sendTasks (i : ℕ) (kind : ReqKind) (body : Body) (r : Except SendError Unit)
    (st : List Task) : prepOf (sendTasks i kind body r ++ st) = prepOf st :=
  prepOf_active (active_sendTasks i kind body r).2 st

theorem prepOf_eventTasks (i : ℕ) (ev : ConnEvent) (st : List Task) :
    prepOf (eventTasks i ev ++ st) = prepOf st :=
  prepOf_active (active_eventTasks i ev).2 st

theorem prepOf_closedTasks (i : ℕ) (reason : String) (s : Option (Conn P)) (st : List Task) :
    prepOf (closedTasks i reason s ++ st) = prepOf st :=
  prepOf_active (active_closedTasks i reason s).2 st

theorem prepOf_events (i : ℕ) (evs : List ConnEvent) (st : List Task) :
    prepOf (events i evs ++ st) = prepOf st :=
  prepOf_append (fun t ht => by simp [rank_events t ht]) st

theorem prepOf_jobs (js : List DialJob) (st : List Task) :
    prepOf (js.map Task.job ++ st) = prepOf st :=
  prepOf_append (fun t ht => by simp [rank_jobs t ht]) st

theorem prepOf_flush {b : Bool} {i : ℕ} (st : List Task) :
    prepOf ((if b = true then [.read i] else []) ++ st) = prepOf (.flush i :: st) := by
  cases b <;> rfl

theorem Phase.addSent_eq (p : Phase) (n : ℕ) : p.addSent n = p ∨ p ≠ .idle := by
  cases p <;> simp [Phase.addSent]

theorem Phase.answer_eq (p : Phase) (r : Except String ℕ) (cause : Cause) :
    p.answer r cause = p ∨ p ≠ .idle := by
  cases p <;> simp [Phase.answer]

theorem Finishes.ne_idle {p : Phase} {o : Outcome} (h : Finishes p o) : p ≠ .idle := by
  cases h <;> simp

theorem Move.waits {x x' : Mach P} {ins outs : Multiset Op} (m : Move x ins outs x')
    (h : Waits x.w.rx x.w.phase (calm x.todo)) : Waits x'.w.rx x'.w.phase (calm x'.todo) := by
  cases m with
  | send hc =>
    rw [Worker.afterSend_eq]
    simp only [calm, prepOf_sendTasks]
    exact h
  | event =>
    simp only [calm, prepOf_eventTasks]
    exact h
  | closedOther =>
    simp only [calm, prepOf_closedTasks]
    exact h
  | @rateEvent w st i r cause =>
    rcases w.phase.answer_eq r cause with hp | hp
    · simp only [Worker.rateResponse, hp]
      exact h
    · exact h.turn hp
  | loseNew ha hj hp => exact h.turn (by simp [hp])
  | newUp cost hp => exact h.turn (by simp [hp])
  | settle hp => exact h.turn (by simp [hp])
  | done cost hp => exact h.turn (by simp [hp])
  | registerFailed o hlt =>
    simp only [Worker.wait, Worker.rx_takeSlot, Worker.phase_takeSlot]
    exact h
  | seated o₁ o₂ t hlt hidx =>
    simp only [Worker.install, Worker.put, Worker.wait, Worker.rx_takeSlot, Worker.phase_takeSlot]
    exact h
  | flushed r as o t hc hr =>
    rw [Worker.flushed_eq (by exact Worker.lt_of_conn hc)]
    simp only [calm, prepOf_flush]
    exact h
  | read hc =>
    simp only [calm, prepOf_events]
    exact h
  | timerRearmed ht hc hs =>
    rw [Worker.schedule_eq (Worker.conn_set rfl (Worker.lt_of_conn hc) _ |>.trans (if_pos rfl))]
    exact h
  | startStop hrx =>
    rw [hrx] at h
    exact ⟨.inl h.idle.1, .inr rfl⟩
  | startDial hrx =>
    rw [hrx] at h
    exact ⟨.inl h.idle.1, .inr rfl⟩
  | startEcho hrx =>
    rw [hrx] at h
    exact ⟨.inl h.idle.1, .inr rfl⟩
  | startRate o t hrx =>
    rw [hrx] at h
    exact ⟨.inl h.idle.1, .inl h.idle.2.1⟩
  | prepared =>
    refine ⟨.inl ?_, .inr rfl⟩
    rcases h.command with h | ⟨_, _, h⟩
    · exact h
    · cases h
  | finish hf => exact h.turn hf.ne_idle
  | startDials now n hp hn =>
    have hb := h.busy (by simp [hp])
    exact ⟨.inl hb.1, .inr (by rw [← List.append_nil (List.map _ _), calm, prepOf_jobs]; rfl)⟩
  | echoWait t hp => exact h.turn (by simp [hp])
  | overdraw hp => exact h.turn (by simp [hp])
  | draw hp => exact h.turn (by simp [hp])
  | rateStart now hp => exact h.turn (by simp [hp])
  | rateTimes a b hp => exact h.turn (by simp [hp])
  | @tickEnd w job n =>
    rcases w.phase.addSent_eq n with hp | hp
    · simp only [Worker.addSent, hp]
      exact h
    · exact h.turn hp
  | _ => exact h

/-- An event on the agenda was on it before the move, or has just been read off its connection. -/
theorem Move.event_mem (m : Move x ins outs x') {i : ℕ} {ev : ConnEvent}
    (h : .event i ev ∈ x'.todo) : .event i ev ∈ x.todo ∨
      ∃ c st, x.todo = .read i :: st ∧ x.w.conn i = some c ∧ ev ∈ (c.processConn x.w.cfg.check).2 := by
  cases m with
  | clock => exact .inl h
  | send =>
    rcases List.mem_append.mp h with h | h
    · cases (active_sendTasks _ _ _ _).2 _ h
    · exact .inl (List.mem_cons_of_mem _ h)
  | event =>
    rcases List.mem_append.mp h with h | h
    · cases (active_eventTasks _ _).2 _ h
    · exact .inl (List.mem_cons_of_mem _ h)
  | closedOther =>
    rcases List.mem_append.mp h with h | h
    · cases (active_closedTasks _ _ _).2 _ h
    · exact .inl (List.mem_cons_of_mem _ h)
  | flushed =>
    rcases List.mem_append.mp h with h | h
    · split at h <;> simp at h
    · exact .inl (List.mem_cons_of_mem _ h)
  | read hc =>
    rcases List.mem_append.mp h with h | h
    · obtain ⟨e, he, hev⟩ := List.mem_map.mp h
      obtain ⟨rfl, rfl⟩ := Task.event.inj hev
      exact .inr ⟨_, _, rfl, hc, he⟩
    · rcases List.mem_cons.mp h with h | h
      · cases h
      · exact .inl (List.mem_cons_of_mem _ h)
  | startRate =>
    rcases List.mem_append.mp h with h | h
    · cases rank_jobs _ h
    · simp at h
  | startDials => cases rank_jobs _ h
  | dequeue => exact .inl ((List.mem_cons.mp h).resolve_left nofun)
  | post =>
    have hst := (List.mem_cons.mp h).resolve_left nofun
    exact .inl (List.mem_cons_of_mem _ ((List.mem_cons.mp hst).resolve_left nofun))
  | _ => first
    | exact .inl (List.mem_cons_of_mem _ h)
    | (simp at h; done)
    | exact .inl (List.mem_cons_of_mem _ ((List.mem_cons.mp h).resolve_left nofun))

theorem kept_agenda : Kept (fun x : Mach P => x.w.Sound) Agenda where
  new := fun cfg os now => ⟨List.Pairwise.nil, by simp, by simp [Worker.new], ⟨.inl rfl, .inl rfl⟩⟩
  move := fun m hs _ h =>
    have hp := m.placed hs h.tasks h.retries
    ⟨m.shape h.shape, hp.1, hp.2, m.waits h.waits⟩
  interfere := fun _ _ h => ⟨h.shape, h.tasks, h.retries, h.waits⟩
  command := fun cmd hp _ _ _ h =>
    ⟨h.shape, h.tasks, h.retries, ⟨.inr ⟨⟨cmd, rfl⟩, hp, rfl⟩, .inr rfl⟩⟩

end Http3Bench
