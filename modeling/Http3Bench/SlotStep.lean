import Http3Bench.ConnFrame

/-!
# What a move does to the slots

`SlotStep` says once how a move can change the slots, the free list and the ready counter; the
invariants of single connections follow from it without looking at the moves again.
-/

namespace Http3Bench

variable {P : Platform}

/-- A connection that stays in its slot, with its dial as far as it was. -/
structure Change (c c' : Conn P) : Prop where
  state : c'.state = c.state
  dial : c'.dial = c.dial
  attemptDeadline : c'.attemptDeadline = c.attemptDeadline
  uid : c'.uid = c.uid
  h3 : c.h3.isSome → c'.h3.isSome
  queued : ∀ r ∈ c'.queued, r ∈ c.queued ∨ r.1 ≠ .rate

/-- How a move on the agenda `todo` can change the slots, and what the worker counts of them. -/
inductive SlotStep (todo : List Task) (w w' : Worker P) : Prop
  | same : w'.slots = w.slots → w'.free = w.free → w'.ready = w.ready → w.serial ≤ w'.serial →
      w'.shared.connected = w.shared.connected → SlotStep todo w w'
  | change {i : ℕ} {c c' : Conn P} : w.conn i = some c → Change c c' →
      w'.slots = w.slots.set i (some c') → w'.free = w.free → w'.ready = w.ready →
      w'.serial = w.serial → w'.shared.connected = w.shared.connected → SlotStep todo w w'
  | closed {i : ℕ} {c : Conn P} : w.conn i = some c → c.state = .ready →
      w'.slots = w.slots.set i (some { c with state := .broken }) → w'.free = w.free →
      w'.ready = w.ready - 1 → w'.serial = w.serial →
      w'.shared.connected = w.shared.connected →
      (∃ reason, todo.head? = some (.event i (.closed reason))) → SlotStep todo w w'
  | up {i : ℕ} {c : Conn P} {j : DialJob} : w.conn i = some c → c.dial = some j →
      w'.slots = w.slots.set i (some c.up) → w'.free = w.free → w'.ready = w.ready + 1 →
      w'.serial = w.serial →
      w'.shared.connected = w.shared.connected + (if j.purpose = .new then 1 else 0) →
      todo.head? = some (.up i) → SlotStep todo w w'
  | broke {i : ℕ} {c : Conn P} {j : DialJob} : w.conn i = some c → c.dial = some j →
      j.purpose ≠ .new → w'.slots = w.slots.set i (some c.broke) → w'.free = w.free →
      w'.ready = w.ready → w'.serial = w.serial →
      w'.shared.connected = w.shared.connected → (∃ err, todo.head? = some (.down i err)) →
      SlotStep todo w w'
  | drop {i : ℕ} {c : Conn P} {j : DialJob} : w.conn i = some c → c.dial = some j →
      j.purpose = .new → w'.slots = w.slots.set i none → w'.free = i :: w.free →
      w'.ready = w.ready → w'.serial = w.serial →
      w'.shared.connected = w.shared.connected → (∃ err, todo.head? = some (.down i err)) →
      SlotStep todo w w'
  | vacate (slot : Option ℕ) : (∀ i, slot = some i → i < w.slots.length) →
      w'.slots = (w.takeSlot slot).2.slots → w'.free = (w.takeSlot slot).2.free →
      w'.ready = (w.takeSlot slot).2.ready → w'.serial = w.serial → .registerFailed ∈ w'.log →
      w'.shared.connected = w.shared.connected → (∃ j, todo.head? = some (.dialing j) ∧ j.slot = slot) →
      SlotStep todo w w'
  | seat (d : Dialed P) (j : DialJob) (now : Instant) : todo.head? = some (.dialing j) →
      (∀ i, j.slot = some i → i < w.slots.length) →
      (w.takeSlot j.slot).1 < (w.takeSlot j.slot).2.slots.length →
      w'.slots = (w.takeSlot j.slot).2.slots.set (w.takeSlot j.slot).1
        (some (d.conn (w.takeSlot j.slot).1 j w.cfg.dialTimeout now w.serial)) →
      w'.free = (w.takeSlot j.slot).2.free → w'.ready = (w.takeSlot j.slot).2.ready →
      w'.serial = w.serial + 1 → w'.shared.connected = w.shared.connected → SlotStep todo w w'
  | reset : w'.slots = w.slots.map (Option.map Conn.resetInFlight) → w'.free = w.free →
      w'.ready = w.ready → w'.serial = w.serial →
      w'.shared.connected = w.shared.connected → SlotStep todo w w'

theorem SlotStep.serial_le {todo : List Task} {w w' : Worker P} (h : SlotStep todo w w') :
    w.serial ≤ w'.serial := by
  cases h with
  | same _ _ _ hle => exact hle
  | change _ _ _ _ _ h => exact h.ge
  | closed _ _ _ _ _ h => exact h.ge
  | up _ _ _ _ _ h => exact h.ge
  | broke _ _ _ _ _ _ h => exact h.ge
  | drop _ _ _ _ _ _ h => exact h.ge
  | vacate _ _ _ _ _ h => exact h.ge
  | seat _ _ _ _ _ _ _ _ _ h => exact h ▸ Nat.le_succ _
  | reset _ _ _ h => exact h.ge

theorem Conn.Frame.change {c c' : Conn P} (h : Frame c c') (hq : c'.queued = c.queued)
    (hh : c.h3.isSome → c'.h3.isSome) : Change c c' where
  state := h.state
  dial := h.dial
  attemptDeadline := h.attemptDeadline
  uid := h.uid
  h3 := hh
  queued := fun _ hr => .inl (hq ▸ hr)

theorem change_left_trySend (c : Conn P) (headers : List Header) (kind : ReqKind) (body : Body) :
    Change c (c.trySend headers kind body).left := by
  have hs := trySend_cases headers kind body c
  have h := hs.frame.change hs.queued hs.h3
  unfold Sent.left
  split
  · exact ⟨h.state, h.dial, h.attemptDeadline, h.uid, h.h3, h.queued⟩
  · exact h

theorem change_sentAt (c : Conn P) (answers : List SockSend) (now : Instant) :
    Change c (Conn.sentAt (({ c with dirty := false } : Conn P).sendLoop false answers) now).rearm := by
  obtain ⟨q, e, heq, -⟩ := Conn.sendLoop_cases { c with dirty := false } false answers
  unfold Conn.sentAt
  rw [heq]
  split <;> exact ⟨rfl, rfl, rfl, rfl, id, fun _ hr => .inl hr⟩

theorem change_processConn (c : Conn P) (check : Bool) :
    Change c ({ (c.processConn check).1 with dirty := true } : Conn P) := by
  have hr := read_processConn check c
  refine ⟨hr.frame.state, hr.frame.dial, hr.frame.attemptDeadline, hr.frame.uid, hr.h3,
    fun r hm => .inl ?_⟩
  rcases hr.queued with hq | hq
  · exact hq ▸ hm
  · rw [show (c.processConn check).1.queued = [] from hq] at hm
    cases hm

theorem Change.of_put {c : Conn P} (q : P.Q) (scheduled deadline : Option Instant)
    (dirty : Bool) (inFlight : ℕ) :
    Change c { c with
      q := q, scheduled := scheduled, deadline := deadline, dirty := dirty, inFlight := inFlight } :=
  ⟨rfl, rfl, rfl, rfl, id, fun _ hr => .inl hr⟩

theorem Change.of_queue {c : Conn P} {q : List (ReqKind × Body)}
    (hq : ∀ r ∈ q, r ∈ c.queued ∨ r.1 ≠ .rate) : Change c { c with queued := q } :=
  ⟨rfl, rfl, rfl, rfl, id, hq⟩

theorem SlotStep.rateResponse {todo : List Task} {w : Worker P} {i : ℕ} {r : Except String ℕ}
    {cause : Cause} : SlotStep todo w (w.rateResponse i (w.conn i) r cause) := by
  unfold Worker.rateResponse
  cases hc : w.conn i with
  | none => exact .same rfl rfl rfl (Nat.le_refl _) rfl
  | some c => exact .change hc (.of_put c.q c.scheduled c.deadline c.dirty _) rfl rfl rfl rfl rfl

theorem Move.slotStep {x x' : Mach P} {ins outs : Multiset Op} (m : Move x ins outs x') :
    SlotStep x.todo x.w x'.w := by
  cases m with
  | enqueue hc hk =>
    refine .change hc (.of_queue (fun r hr => ?_)) rfl rfl rfl rfl rfl
    rcases List.mem_append.mp hr with hr | hr
    · exact .inl hr
    · rw [List.mem_singleton.mp hr]
      exact .inr hk
  | requeue hc hk =>
    refine .change hc (.of_queue (fun r hr => ?_)) rfl rfl rfl rfl rfl
    rcases List.mem_cons.mp hr with rfl | hr
    · exact .inr hk
    · exact .inl hr
  | dequeue hc hq =>
    refine .change hc (.of_queue (fun r hr => .inl ?_)) rfl rfl rfl rfl rfl
    rw [hq]
    exact List.mem_cons_of_mem _ hr
  | send hc =>
    rw [Worker.afterSend_eq]
    exact .change hc (change_left_trySend _ _ _ _) rfl rfl rfl rfl rfl
  | rateEvent => exact .rateResponse
  | closedReady hc hs => exact .closed hc hs rfl rfl rfl rfl rfl ⟨_, rfl⟩
  | upNew hc hd hj => exact .up hc hd rfl rfl rfl rfl (by rw [if_pos hj]; rfl) rfl
  | upEcho hc hd hj =>
    exact .up hc hd rfl rfl rfl rfl (by rw [if_neg (by simp [hj]), add_zero]; rfl) rfl
  | upEchoLate hc hd hj =>
    exact .up hc hd rfl rfl rfl rfl (by rw [if_neg (by simp [hj]), add_zero]; rfl) rfl
  | upRate hc hd hj =>
    exact .up hc hd rfl rfl rfl rfl (by rw [if_neg (by simp [hj]), add_zero]; rfl) rfl
  | downNew hc hd hj => exact .drop hc hd hj rfl rfl rfl rfl rfl ⟨_, rfl⟩
  | downRedial hc hd hj => exact .broke hc hd hj rfl rfl rfl rfl rfl ⟨_, rfl⟩
  | registerFailed o hlt =>
    exact .vacate _ hlt rfl rfl rfl (Worker.serial_takeSlot _ _) List.mem_cons_self
      (congrArg Shared.connected (Worker.shared_takeSlot _ _)) ⟨_, rfl, rfl⟩
  | @seated w st j d o₁ o₂ t hlt hidx =>
    refine SlotStep.seat d j (((w.takeSlot j.slot).2.wait o₁ 0).clock + t) rfl hlt hidx
      ?_ ?_ ?_ ?_ ?_
    · simp only [Worker.install, Worker.put, Worker.wait, Worker.cfg_takeSlot, Worker.serial_takeSlot]
    · simp only [Worker.install, Worker.put, Worker.wait]
    · simp only [Worker.install, Worker.put, Worker.wait]
    · simp only [Worker.install, Worker.put, Worker.wait, Worker.serial_takeSlot]
    · simp only [Worker.install, Worker.put, Worker.wait, Worker.shared_takeSlot]
  | closing hc => exact .change hc (.of_put _ _ _ _ _) rfl rfl rfl rfl rfl
  | flushed r as o t hc hr =>
    subst hr
    rw [Worker.flushed_eq (by exact Worker.lt_of_conn hc)]
    exact .change hc (change_sentAt _ _ _) rfl rfl rfl rfl rfl
  | read hc => exact .change hc (change_processConn _ _) rfl rfl rfl rfl rfl
  | received o t hc =>
    exact .change hc ((Conn.frame_received _ _ _).change rfl id) rfl rfl rfl rfl rfl
  | timerRearmed ht hc hs =>
    have hlt := Worker.lt_of_conn hc
    rw [Worker.schedule_eq (Worker.conn_set rfl hlt _ |>.trans (if_pos rfl))]
    exact .change hc (.of_put _ _ _ _ _) (List.set_set ..) rfl rfl rfl rfl
  | timerDown ht hc hs => exact .change hc (.of_put _ _ _ _ _) rfl rfl rfl rfl rfl
  | timerFired ht hc hs => exact .change hc (.of_put _ _ _ _ _) (List.set_set ..) rfl rfl rfl rfl
  | keepalive hc => exact .change hc (.of_put _ _ _ _ _) rfl rfl rfl rfl rfl
  | rateStart => exact .reset rfl rfl rfl rfl rfl
  | posted hc => exact .change hc (.of_put _ _ _ _ _) rfl rfl rfl rfl rfl
  | startRate => exact .same rfl rfl rfl (Nat.le_add_right _ _) rfl
  | startDials => exact .same rfl rfl rfl (Nat.le_add_right _ _) rfl
  | ticketRedial => exact .same rfl rfl rfl (Nat.le_add_right _ _) rfl
  | _ => exact .same rfl rfl rfl (Nat.le_refl _) rfl

end Http3Bench
