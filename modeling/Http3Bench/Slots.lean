import Http3Bench.Machine

/-!
# Reading the slots after an update

Every update of the worker replaces what one slot holds, or adds a slot. The lemmas say what a slot
holds afterwards, and how a quantity summed over the connections changes.
-/

namespace Http3Bench

open Finset

/-- A sum over `range n` after one summand has changed. -/
theorem sum_range_replace {M : Type} [AddCommMonoid M] {f g : ℕ → M} {n i : ℕ} (hi : i < n)
    (h : ∀ k, k ≠ i → g k = f k) : ∑ k ∈ range n, g k + f i = ∑ k ∈ range n, f k + g i := by
  have hmem : i ∈ range n := mem_range.mpr hi
  have hrest : ∑ k ∈ (range n).erase i, g k = ∑ k ∈ (range n).erase i, f k :=
    sum_congr rfl (fun k hk => h k (ne_of_mem_erase hk))
  rw [← add_sum_erase _ _ hmem, ← add_sum_erase _ f hmem, hrest]
  abel

variable {P : Platform}

/-- Whether `schedule` puts a timer on the heap for the connection. -/
def Conn.needsTimer (c : Conn P) : Bool := c.timeout.any (fun d => c.scheduled.all (fun s => d < s))

/-- What `schedule` makes of the connection. -/
def Conn.rearm (c : Conn P) : Conn P :=
  { c with deadline := c.timeout, scheduled := if c.needsTimer then c.timeout else c.scheduled }

/-- The connection `try_send` leaves in its slot. -/
def Sent.left (s : Sent P) : Conn P := if s.dirty then { s.conn with dirty := true } else s.conn

/-- The connection `flush` schedules. -/
def Conn.sentAt (r : Conn P × Bool × ℕ) (now : Instant) : Conn P :=
  if r.2.1 then { r.1 with lastActive := now } else r.1

namespace Worker

variable {w w' : Worker P} {i k : ℕ} {c c' : Conn P} {s : Option (Conn P)}

theorem conn_eq_some_iff : w.conn i = some c ↔ w.slots[i]? = some (some c) := by
  unfold conn
  cases w.slots[i]? <;> simp

theorem lt_of_conn (h : w.conn i = some c) : i < w.slots.length := by
  rw [conn_eq_some_iff] at h
  exact (List.getElem?_eq_some_iff.mp h).1

theorem conn_of_slots_eq (h : w'.slots = w.slots) (i : ℕ) : w'.conn i = w.conn i := by
  unfold conn
  rw [h]

theorem conn_set (h : w'.slots = w.slots.set i s) (hi : i < w.slots.length) (k : ℕ) :
    w'.conn k = if k = i then s else w.conn k := by
  unfold conn
  rw [h, List.getElem?_set]
  by_cases hk : k = i
  · subst hk
    simp [hi]
  · simp [hk, Ne.symm hk]

theorem conn_append (h : w'.slots = w.slots ++ [s]) (k : ℕ) :
    w'.conn k = if k = w.slots.length then s else w.conn k := by
  unfold conn
  rw [h]
  rcases Nat.lt_trichotomy k w.slots.length with hk | hk | hk
  · rw [List.getElem?_append_left hk, if_neg (by omega)]
  · subst hk
    simp
  · rw [List.getElem?_eq_none (by simp; omega), List.getElem?_eq_none (by omega),
      if_neg (by omega)]

theorem conn_map {f : Conn P → Conn P} (h : w'.slots = w.slots.map (Option.map f)) (k : ℕ) :
    w'.conn k = (w.conn k).map f := by
  unfold conn
  rw [h, List.getElem?_map]
  cases w.slots[k]? <;> rfl

/-- A quantity of the connections, summed over the slots. -/
def total {M : Type} [AddCommMonoid M] (f : ℕ → Conn P → M) (w : Worker P) : M :=
  ∑ i ∈ range w.slots.length, (w.conn i).elim 0 (f i)

variable {M : Type} [AddCommMonoid M] {f : ℕ → Conn P → M}

theorem total_of_slots_eq (h : w'.slots = w.slots) : w'.total f = w.total f := by
  unfold total
  simp only [conn, h]

theorem total_set (h : w'.slots = w.slots.set i s) (hi : i < w.slots.length) :
    w'.total f + (w.conn i).elim 0 (f i) = w.total f + s.elim 0 (f i) := by
  have hlen : w'.slots.length = w.slots.length := by simp [h]
  have hi' := sum_range_replace (f := fun k => (w.conn k).elim 0 (f k))
    (g := fun k => (w'.conn k).elim 0 (f k)) hi
    (fun k hk => by simp only [conn_set h hi, if_neg hk])
  simp only [conn_set h hi i, if_true] at hi'
  unfold total
  rw [hlen]
  exact hi'

theorem total_append (h : w'.slots = w.slots ++ [s]) :
    w'.total f = w.total f + s.elim 0 (f w.slots.length) := by
  have hlen : w'.slots.length = w.slots.length + 1 := by simp [h]
  unfold total
  rw [hlen, sum_range_succ, conn_append h, if_pos rfl]
  congr 1
  refine sum_congr rfl (fun k hk => ?_)
  rw [conn_append h, if_neg (by simp at hk; omega)]

theorem total_map {g : Conn P → Conn P} (h : w'.slots = w.slots.map (Option.map g))
    (hg : ∀ i c, f i (g c) = f i c) : w'.total f = w.total f := by
  unfold total
  rw [h, List.length_map]
  refine sum_congr rfl (fun k _ => ?_)
  rw [conn_map h]
  cases w.conn k with
  | none => rfl
  | some c => exact hg k c

theorem schedule_eq (h : w.conn i = some c) :
    w.schedule i = { w with
      slots := w.slots.set i (some c.rearm)
      timers := if c.needsTimer then w.timers.orderedInsert Timer.le (c.timeout.getD 0, i)
        else w.timers } := by
  unfold schedule
  simp only [h]
  cases ht : c.timeout with
  | none => simp [Conn.rearm, Conn.needsTimer, ht, put]
  | some d =>
    by_cases hs : c.scheduled.all (fun s => d < s)
    · have hn : c.needsTimer = true := by simpa [Conn.needsTimer, ht] using hs
      simp [Conn.rearm, hn, ht, hs, put, pushTimer]
    · have hn : c.needsTimer = false := by simpa [Conn.needsTimer, ht] using hs
      simp [Conn.rearm, hn, ht, hs, put]

theorem flushed_eq (hi : i < w.slots.length) (r : Conn P × Bool × ℕ) (now : Instant) :
    w.flushed i r now = { w with
      slots := w.slots.set i (some (Conn.sentAt r now).rearm)
      timers := if (Conn.sentAt r now).needsTimer then
          w.timers.orderedInsert Timer.le ((Conn.sentAt r now).timeout.getD 0, i)
        else w.timers
      dropped := w.dropped + r.2.2
      log := if r.1.socketError.isSome then .refused :: w.log else w.log } := by
  unfold flushed
  rw [schedule_eq (c := Conn.sentAt r now)]
  · simp [put]
  · rw [conn_set rfl (by exact hi), if_pos rfl]
    rfl

theorem afterSend_eq (kind : ReqKind) (s : Sent P) :
    w.afterSend i kind c s = { w with
      slots := w.slots.set i (some s.left)
      dirty := if s.dirty ∧ s.conn.dirty = false then i :: w.dirty else w.dirty
      log := s.entries c.uid kind ++ w.log } := by
  unfold afterSend Sent.left
  cases hs : s.dirty <;> cases hd : s.conn.dirty <;> simp [putDirty, put, hd]

section

variable (w : Worker P) (slot : Option ℕ)

/-- Taking a slot for a dial changes the slots, the free list, the ready counter and what the kernel
watches. -/
theorem takeSlot_eq : (w.takeSlot slot).2 =
    { w with
      slots := (w.takeSlot slot).2.slots
      free := (w.takeSlot slot).2.free
      ready := (w.takeSlot slot).2.ready
      os := (w.takeSlot slot).2.os } := by
  cases slot with
  | some i => rfl
  | none =>
    simp only [takeSlot, allocSlot]
    cases w.free <;> rfl

@[simp] theorem cfg_takeSlot : (w.takeSlot slot).2.cfg = w.cfg := by rw [takeSlot_eq]

@[simp] theorem phase_takeSlot : (w.takeSlot slot).2.phase = w.phase := by rw [takeSlot_eq]

@[simp] theorem clock_takeSlot : (w.takeSlot slot).2.clock = w.clock := by rw [takeSlot_eq]

@[simp] theorem retries_takeSlot : (w.takeSlot slot).2.retries = w.retries := by rw [takeSlot_eq]

@[simp] theorem serial_takeSlot : (w.takeSlot slot).2.serial = w.serial := by rw [takeSlot_eq]

@[simp] theorem rx_takeSlot : (w.takeSlot slot).2.rx = w.rx := by rw [takeSlot_eq]

@[simp] theorem given_takeSlot : (w.takeSlot slot).2.given = w.given := by rw [takeSlot_eq]

@[simp] theorem sent_takeSlot : (w.takeSlot slot).2.sent = w.sent := by rw [takeSlot_eq]

@[simp] theorem shared_takeSlot : (w.takeSlot slot).2.shared = w.shared := by rw [takeSlot_eq]

@[simp] theorem timers_takeSlot : (w.takeSlot slot).2.timers = w.timers := by rw [takeSlot_eq]

@[simp] theorem dirty_takeSlot : (w.takeSlot slot).2.dirty = w.dirty := by rw [takeSlot_eq]

@[simp] theorem log_takeSlot : (w.takeSlot slot).2.log = w.log := by rw [takeSlot_eq]

end

/-- Taking a slot leaves the connections of the others where they are. -/
theorem conn_of_takeSlot {slot : Option ℕ} (hlt : ∀ i, slot = some i → i < w.slots.length)
    (hc : (w.takeSlot slot).2.conn i = some c) : w.conn i = some c := by
  cases slot with
  | some k =>
    rw [takeSlot, conn_set (w := w) rfl (hlt k rfl)] at hc
    split at hc
    · cases hc
    · exact hc
  | none =>
    simp only [takeSlot, allocSlot] at hc
    split at hc
    · exact hc
    · rw [conn_append rfl] at hc
      split at hc
      · cases hc
      · exact hc

end Worker
/-- What a worker has done is never taken back. -/
theorem Move.log_suffix {x x' : Mach P} {ins outs : Multiset Op} (m : Move x ins outs x') :
    x.w.log <:+ x'.w.log := by
  cases m with
  | send => rw [Worker.afterSend_eq]; exact List.suffix_append ..
  | attempt => exact List.suffix_cons ..
  | refused => exact List.suffix_cons ..
  | upNew => exact List.suffix_cons ..
  | upEcho => exact List.suffix_cons ..
  | upEchoLate => exact List.suffix_cons ..
  | upRate => exact List.suffix_cons ..
  | registerFailed => simpa only [Worker.wait, Worker.log_takeSlot] using List.suffix_cons ..
  | seated => simp [Worker.install, Worker.put, Worker.wait]
  | flushed r as o t hc =>
    rw [Worker.flushed_eq (by exact Worker.lt_of_conn hc)]
    simp only
    split
    · exact List.suffix_cons ..
    · exact List.suffix_rfl
  | timerRearmed ht hc =>
    rw [Worker.schedule_eq (Worker.conn_set rfl (Worker.lt_of_conn hc) _ |>.trans (if_pos rfl))]
    exact List.suffix_rfl
  | _ => exact List.suffix_rfl

end Http3Bench
