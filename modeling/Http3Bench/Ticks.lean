import Http3Bench.Regular

/-!
# The agenda of a tick

While `rate_tick` sends its batches nothing else is on the agenda: the number sent so far, the batch
of one connection, and the request being sent. That connection stays ready in its slot, and the batch
fits under the bound on what a connection has in flight.
-/

namespace Http3Bench

variable {P : Platform}

def Task.ticks : Task → Bool
  | .request _ .rate _ | .posted _ | .batch _ _ _ | .sent _ _ => true
  | _ => false

/-- The connection in slot `i` is ready and has room for `k` more requests of the job. -/
def Worker.RoomFor (w : Worker P) (job : RateJob) (i k : ℕ) : Prop :=
  ∃ c, w.conn i = some c ∧ c.state = .ready ∧ c.inFlight + k ≤ job.batch * maxBatchesInFlight

inductive Ticking (w : Worker P) : List Task → Prop
  | rest {todo : List Task} : (∀ t ∈ todo, t.ticks = false) → Ticking w todo
  | sent {r : RatePhase} {n : ℕ} : w.phase = .rate r → Ticking w [.sent r.job n]
  | batch {r : RatePhase} {i k n : ℕ} : w.phase = .rate r → w.RoomFor r.job i k →
      Ticking w [.batch r.job i k, .sent r.job n]
  | request {r : RatePhase} {i k n : ℕ} : w.phase = .rate r → w.RoomFor r.job i (k + 1) →
      Ticking w [.request i .rate r.job.payload, .batch r.job i k, .sent r.job n]
  | posted {r : RatePhase} {i k n : ℕ} : w.phase = .rate r → w.RoomFor r.job i (k + 1) →
      Ticking w [.posted i, .batch r.job i k, .sent r.job n]

theorem Ticking.nil {w : Worker P} : Ticking w [] := .rest (by simp)

theorem ticks_sendTasks {i : ℕ} {kind : ReqKind} {body : Body} {r : Except SendError Unit}
    (hk : kind ≠ .rate) : ∀ t ∈ sendTasks i kind body r, t.ticks = false := by
  unfold sendTasks
  split
  · simp [hk]
  · intro t ht
    rw [List.mem_singleton.mp ht]
    cases kind <;> first | rfl | exact absurd rfl hk
  · split <;> simp [Task.ticks]

theorem ticks_eventTasks (i : ℕ) (ev : ConnEvent) : ∀ t ∈ eventTasks i ev, t.ticks = false := by
  unfold eventTasks
  split <;> simp [Task.ticks]

theorem ticks_closedTasks (i : ℕ) (reason : String) (s : Option (Conn P)) :
    ∀ t ∈ closedTasks i reason s, t.ticks = false := by
  unfold closedTasks
  split
  · split <;> simp [Task.ticks]
  · simp

theorem ticks_request {i : ℕ} {kind : ReqKind} {body : Body} (hk : kind ≠ .rate) :
    (Task.request i kind body).ticks = false := by
  cases kind <;> first | rfl | exact absurd rfl hk

theorem ticks_of_rank {t : Task} (h : t.rank = 1 ∨ t.rank = 2) : t.ticks = false := by
  cases t <;> first | rfl | simp [Task.rank] at h

theorem Worker.RoomFor.send {w : Worker P} {job : RateJob} {i k : ℕ} {c : Conn P}
    (h : w.RoomFor job i k) (kind : ReqKind) (body : Body) (hc : w.conn i = some c)
    (headers : List Header) :
    (w.afterSend i kind c (c.trySend headers kind body)).RoomFor job i k := by
  obtain ⟨c', hc', hst, hle⟩ := h
  obtain rfl := Option.some.inj (hc.symm.trans hc')
  rw [Worker.afterSend_eq]
  refine ⟨_, (Worker.conn_set rfl (Worker.lt_of_conn hc) i).trans (if_pos rfl), ?_⟩
  have hf : (c.trySend headers kind body).left.state = c.state ∧
      (c.trySend headers kind body).left.inFlight = c.inFlight := by
    have hframe := (trySend_cases headers kind body c).frame
    unfold Sent.left
    split <;> exact ⟨hframe.state, hframe.inFlight⟩
  rw [hf.1, hf.2]
  exact ⟨hst, hle⟩

theorem Worker.RoomFor.mono {w : Worker P} {job : RateJob} {i k k' : ℕ} (h : w.RoomFor job i k)
    (hle : k' ≤ k) : w.RoomFor job i k' := by
  obtain ⟨c, hc, hst, hroom⟩ := h
  exact ⟨c, hc, hst, by omega⟩

theorem room_of_skips {job : RateJob} {c : Conn P} (h : skips job c = false) :
    c.state = .ready ∧ c.inFlight + job.batch ≤ job.batch * maxBatchesInFlight := by
  simp only [skips, Bool.or_eq_false_iff, decide_eq_false_iff_not, not_not] at h
  exact ⟨h.1.1.1, by omega⟩

variable {x x' : Mach P} {ins outs : Multiset Op}

/-- Nothing but `rate_tick` puts a part of a tick on the agenda. -/
theorem Moves.ticks {full : Bool} (m : Moves full x ins outs x') (h : ∀ t ∈ x.todo, t.ticks = false) :
    (∀ t ∈ x'.todo, t.ticks = false) ∨
      full = true ∧ ∃ r, x'.w.phase = .rate r ∧ x'.todo = [.sent r.job 0] := by
  cases m with
  | tick hp hf => exact .inr ⟨hf, _, hp, rfl⟩
  | @send w st i kind body c hc =>
    have hk : kind ≠ .rate := fun hk => absurd (h _ List.mem_cons_self) (by simp [hk, Task.ticks])
    exact .inl (List.forall_mem_append.mpr ⟨ticks_sendTasks hk, (List.forall_mem_cons.mp h).2⟩)
  | dequeue hc hq hk =>
    have hst := List.forall_mem_cons.mp h
    exact .inl (List.forall_mem_cons.mpr ⟨ticks_request hk, List.forall_mem_cons.mpr ⟨rfl, hst.2⟩⟩)
  | event =>
    exact .inl (List.forall_mem_append.mpr ⟨ticks_eventTasks _ _, (List.forall_mem_cons.mp h).2⟩)
  | closedOther =>
    exact .inl (List.forall_mem_append.mpr ⟨ticks_closedTasks _ _ _, (List.forall_mem_cons.mp h).2⟩)
  | flushed =>
    refine .inl (List.forall_mem_append.mpr ⟨?_, (List.forall_mem_cons.mp h).2⟩)
    split <;> simp [Task.ticks]
  | read hc =>
    refine .inl (List.forall_mem_append.mpr ⟨fun t ht => ?_, ?_⟩)
    · exact ticks_of_rank (.inl (rank_events t ht))
    · exact List.forall_mem_cons.mpr ⟨rfl, (List.forall_mem_cons.mp h).2⟩
  | startRate =>
    refine .inl (List.forall_mem_append.mpr ⟨fun t ht => ?_, by simp [Task.ticks]⟩)
    exact ticks_of_rank (.inr (rank_jobs t ht))
  | startDials => exact .inl (fun t ht => ticks_of_rank (.inr (rank_jobs t ht)))
  | batch => exact absurd (h _ List.mem_cons_self) (by simp [Task.ticks])
  | post => exact absurd (h _ List.mem_cons_self) (by simp [Task.ticks])
  | posted => exact absurd (h _ List.mem_cons_self) (by simp [Task.ticks])
  | batchEnd => exact absurd (h _ List.mem_cons_self) (by simp [Task.ticks])
  | _ => first
    | exact .inl h
    | exact .inl (List.forall_mem_cons.mp h).2
    | exact .inl (List.forall_mem_cons.mpr ⟨rfl, (List.forall_mem_cons.mp h).2⟩)
    | exact .inl (by simp [Task.ticks])

/-- A tick goes on, one request after the other. -/
theorem Move.ticking (m : Move x ins outs x') (h : Ticking x.w x.todo) : Ticking x'.w x'.todo := by
  obtain ⟨w, todo⟩ := x
  cases h with
  | rest h =>
    rcases m.ticks h with h | ⟨_, r, hp, ht⟩
    · exact .rest h
    · rw [ht]
      exact .sent hp
  | sent hp =>
    cases m with
    | clock => exact .sent hp
    | batch hc hs => exact .batch hp ⟨_, hc, room_of_skips hs⟩
    | tickEnd => exact .nil
  | batch hp hr =>
    cases m with
    | clock => exact .batch hp hr
    | post => exact .request hp hr
    | batchEnd => exact .sent hp
  | @request r i k n hp hr =>
    cases m with
    | clock => exact .request hp hr
    | enqueue _ hk => exact absurd rfl hk
    | requeue _ hk => exact absurd rfl hk
    | giveBack => exact .batch hp (hr.mono (by omega))
    | @send _ _ _ _ _ c hc =>
      have hr := hr.send .rate r.job.payload hc (w.headersFor .rate)
      have hp' : (w.afterSend i .rate c
          (c.trySend (w.headersFor .rate) .rate r.job.payload)).phase = .rate r := by
        rw [Worker.afterSend_eq]
        exact hp
      cases hres : (c.trySend (w.headersFor .rate) .rate r.job.payload).result with
      | ok => exact .posted hp' hr
      | error e =>
        cases e with
        | blocked e => exact .request hp' hr
        | failed e => exact .batch hp' (hr.mono (Nat.le_succ k))
  | posted hp hr =>
    cases m with
    | clock => exact .posted hp hr
    | posted hc =>
      obtain ⟨c', hc', hst, hle⟩ := hr
      obtain rfl := Option.some.inj (hc.symm.trans hc')
      refine .batch hp ⟨_, (Worker.conn_set rfl (Worker.lt_of_conn hc) _).trans (if_pos rfl), ?_, ?_⟩
      · exact hst
      · simp only
        omega

theorem kept_ticking : Kept (fun _ => True) (fun x : Mach P => Ticking x.w x.todo) where
  new := fun _ _ _ => .nil
  move := fun m _ _ h => m.ticking h
  interfere := fun _ _ _ => .nil
  command := fun _ _ _ _ _ _ => .nil

end Http3Bench
