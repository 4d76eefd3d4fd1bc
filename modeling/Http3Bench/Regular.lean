import Http3Bench.Bookkeeping
import Http3Bench.Loopback

/-!
# Regular states

The invariants every other one rests on, taken together, and what follows for a run: a worker never
counts below zero, and the ready counter is the number of connections that are ready.
-/

namespace Http3Bench

variable {P : Platform}

structure Regular (x : Mach P) : Prop where
  sound : x.w.Sound
  agenda : Agenda x
  books : Books x

theorem kept_regular : Kept (fun _ => True) (Regular (P := P)) where
  new := fun cfg os now =>
    ⟨kept_sound.new cfg os now, kept_agenda.new cfg os now, kept_books.new cfg os now⟩
  move := fun m _ _ h =>
    have hs := kept_sound.move m trivial trivial h.sound
    have ha := kept_agenda.move m h.sound hs h.agenda
    ⟨hs, ha, kept_books.move m ⟨h.sound, h.agenda⟩ ⟨hs, ha⟩ h.books⟩
  interfere := fun s _ h =>
    ⟨kept_sound.interfere s trivial h.sound, kept_agenda.interfere s h.sound h.agenda,
      kept_books.interfere s ⟨h.sound, h.agenda⟩ h.books⟩
  command := fun cmd hp hrx hg _ h =>
    ⟨kept_sound.command cmd hp hrx hg trivial h.sound,
      kept_agenda.command cmd hp hrx hg h.sound h.agenda,
      kept_books.command cmd hp hrx hg ⟨h.sound, h.agenda⟩ h.books⟩

theorem Regular.queued {w : Worker P} {st : List Task} {i : ℕ} {c : Conn P} (h : Regular ⟨w, st⟩)
    (hc : w.conn i = some c) : ∀ r ∈ c.queued, r.1 ≠ .rate :=
  (h.sound.conns hc).queued

/-- An invariant of regular states holds in every state a thread reaches. -/
theorem Kept.reached {I : Mach P → Prop} {t : Thread P} {cfg : EngineConfig} (h : Kept Regular I)
    (ht : t.Reach cfg) : Regular ⟨t.w, []⟩ ∧ I ⟨t.w, []⟩ ∧ (t.pt = .poll → t.w.dirty = []) := by
  have hk := (kept_regular.and h).reach (fun h hc => h.1.queued hc) ht
  exact ⟨hk.1.1, hk.1.2, hk.2⟩

/-- The counters of the phase are never decremented at zero. -/
theorem Regular.not_underflow {x : Mach P} (h : Regular x) : ¬ Stuck x .underflow := by
  intro hs
  cases hs with
  | @newUp w st j d hp h0 =>
    have hb := h.books.phase
    rw [hp] at hb
    have hm : j.op ∈ (⟨w, .newUp j :: st⟩ : Mach P).ops := op_mem_ops rfl
    have hn := newId_mem hm (h.agenda.tasks (.newUp j) List.mem_cons_self)
    rw [Multiset.card_eq_zero.mp (hb.2.1.trans h0)] at hn
    exact Multiset.notMem_zero _ hn
  | @loseNew w st j err d hj hp h0 =>
    have hb := h.books.phase
    rw [hp] at hb
    have hm : j.op ∈ (⟨w, .lost j err :: st⟩ : Mach P).ops := op_mem_ops rfl
    have hn := newId_mem hm hj
    rw [Multiset.card_eq_zero.mp (hb.2.1.trans h0)] at hn
    exact Multiset.notMem_zero _ hn
  | @settle w st j job f hp =>
    have hb := h.books.phase
    rw [hp] at hb
    have hm : j.op ∈ (⟨w, .settle j :: st⟩ : Mach P).ops := op_mem_ops rfl
    rw [DialJob.op_rate (h.agenda.tasks _ List.mem_cons_self)] at hm
    have hn : j.slot.getD 0 ∈ redials _ := (Multiset.mem_filterMap _ _).mpr ⟨_, hm, rfl⟩
    rw [Multiset.card_eq_zero.mp (Nat.le_zero.mp hb.2.2.2)] at hn
    exact Multiset.notMem_zero _ hn
  | @done w st i n r s e hp h0 =>
    have hb := h.books.phase
    rw [hp] at hb
    have hm : Op.echo i n ∈ (⟨w, .done i r s n :: st⟩ : Mach P).ops := op_mem_ops rfl
    have hn : (i, n) ∈ echoes _ := (Multiset.mem_filterMap _ _).mpr ⟨_, hm, rfl⟩
    have hle := hb.2.2.open_le
    rw [h0, Nat.le_zero, Multiset.card_eq_zero] at hle
    rw [hle] at hn
    exact Multiset.notMem_zero _ hn

/-- How often a property holds of the connections. -/
theorem length_slotsWhere (w : Worker P) (p : Conn P → Bool) :
    (w.slotsWhere p).length = w.total (fun _ c => if p c then 1 else 0) := by
  have h : ∀ n, ((List.range n).filter (fun i => (w.conn i).any p)).length =
      ∑ i ∈ Finset.range n, (w.conn i).elim 0 (fun c => if p c then 1 else 0) := by
    intro n
    induction n with
    | zero => rfl
    | succ n ih =>
      rw [List.range_succ, List.filter_append, List.length_append, ih, Finset.sum_range_succ]
      cases hc : w.conn n with
      | none => simp [hc]
      | some c =>
        by_cases hp : p c <;> simp [hc, hp]
  exact h _

def Conn.readyOne (c : Conn P) : ℤ := if c.state = .ready then 1 else 0

def Worker.ReadyOk (w : Worker P) : Prop := w.ready = w.total (fun _ c => c.readyOne)

variable {w w' : Worker P}

theorem Worker.ReadyOk.takeSlot (h : w.ReadyOk) {slot : Option ℕ}
    (hlt : ∀ i, slot = some i → i < w.slots.length) : (w.takeSlot slot).2.ReadyOk := by
  cases slot with
  | some i =>
    have ht : (w.evict i).total (fun _ (c : Conn P) => c.readyOne) +
        (w.conn i).elim 0 Conn.readyOne = w.total (fun _ (c : Conn P) => c.readyOne) + _ :=
      Worker.total_set (s := none) rfl (hlt i rfl)
    have hr : (w.evict i).ready + (w.conn i).elim 0 Conn.readyOne = w.ready := by
      cases hc : w.conn i with
      | none => simp [evict, hc]
      | some c => by_cases hs : c.state = .ready <;> simp [evict, hc, Conn.readyOne, hs]
    unfold ReadyOk at h ⊢
    simp only [Option.elim_none, add_zero] at ht
    change (w.evict i).ready = (w.evict i).total _
    linarith
  | none =>
    cases hf : w.free with
    | nil =>
      simp only [Worker.takeSlot, allocSlot, hf]
      exact h.trans ((Worker.total_append (s := none) rfl).trans (add_zero _)).symm
    | cons i rest =>
      simp only [Worker.takeSlot, allocSlot, hf]
      exact h

theorem Worker.FreeOk.conn_takeSlot (h : w.FreeOk) {slot : Option ℕ}
    (hlt : ∀ i, slot = some i → i < w.slots.length) :
    (w.takeSlot slot).2.conn (w.takeSlot slot).1 = none := by
  cases slot with
  | some i => exact (Worker.conn_set (w := w) rfl (hlt i rfl) i).trans (if_pos rfl)
  | none =>
    cases hf : w.free with
    | nil => simp [Worker.takeSlot, Worker.allocSlot, hf, Worker.conn]
    | cons i rest =>
      simp only [Worker.takeSlot, Worker.allocSlot, hf]
      exact (h.empty i (by simp [hf])).2

theorem SlotStep.readyOk {todo : List Task} (hs : SlotStep todo w w') (hw : w.Sound)
    (hf : w.FreeOk) (h : w.ReadyOk) : w'.ReadyOk := by
  have put : ∀ {i c c'}, w.conn i = some c → w'.slots = w.slots.set i (some c') →
      w'.ready = w.ready + (c'.readyOne - c.readyOne) → w'.ReadyOk := by
    intro i c c' hc hs hr
    have ht := Worker.total_set (f := fun _ (c : Conn P) => c.readyOne) hs (Worker.lt_of_conn hc)
    simp only [hc, Option.elim_some] at ht
    unfold Worker.ReadyOk at h ⊢
    linarith
  have connecting : ∀ {i c j}, w.conn i = some c → c.dial = some j → c.state = .connecting :=
    fun hc hd => (hw.conns hc).dial.mpr (by simp [hd])
  cases hs with
  | same hs _ hr => exact hr.trans (h.trans (Worker.total_of_slots_eq hs).symm)
  | change hc hch hs _ hr => exact put hc hs (by simp [hr, Conn.readyOne, hch.state])
  | closed hc hst hs _ hr => exact put hc hs (by simp [hr, Conn.readyOne, hst]; rfl)
  | up hc hd hs _ hr =>
    exact put hc hs (by simp [hr, Conn.readyOne, connecting hc hd, Conn.up])
  | broke hc hd _ hs _ hr =>
    exact put hc hs (by simp [hr, Conn.readyOne, connecting hc hd, Conn.broke])
  | @drop i c j hc hd _ hs _ hr =>
    have ht := Worker.total_set (f := fun _ (c : Conn P) => c.readyOne) hs (Worker.lt_of_conn hc)
    have hz : c.readyOne = 0 := by simp [Conn.readyOne, connecting hc hd]
    simp only [hc, Option.elim_some, Option.elim_none, hz, add_zero] at ht
    exact hr.trans (h.trans ht.symm)
  | vacate slot hlt hs _ hr =>
    exact hr.trans ((h.takeSlot hlt).trans (Worker.total_of_slots_eq hs).symm)
  | seat d j now _ hlt hidx hs _ hr =>
    have ht := Worker.total_set (f := fun _ (c : Conn P) => c.readyOne) hs hidx
    rw [hf.conn_takeSlot hlt] at ht
    have hz : (d.conn (w.takeSlot j.slot).1 j w.cfg.dialTimeout now w.serial).readyOne = 0 := by
      simp [Conn.readyOne, Dialed.conn]
    simp only [Option.elim_some, Option.elim_none, hz, add_zero] at ht
    exact hr.trans ((h.takeSlot hlt).trans ht.symm)
  | reset hs _ hr =>
    refine hr.trans (h.trans (Worker.total_map hs (fun _ c => ?_)).symm)
    unfold Conn.resetInFlight
    split <;> rfl

theorem kept_ready : Kept (Regular (P := P)) (fun x => x.w.ReadyOk) where
  new := fun _ _ _ => rfl
  move := fun m ha _ h => m.slotStep.readyOk ha.sound ha.books.free h
  interfere := fun _ _ h => h
  command := fun _ _ _ _ _ h => h

theorem Worker.ReadyOk.serving (h : w.ReadyOk) : w.ready = w.serving.length := by
  rw [Worker.serving, length_slotsWhere, h]
  unfold Worker.total
  push_cast
  refine Finset.sum_congr rfl (fun i _ => ?_)
  cases w.conn i with
  | none => rfl
  | some c => simp [Conn.readyOne]

/-- In every reachable state a connection is connecting exactly while it has a dial job, exactly
then it has a deadline for the attempt, and the ready counter is right. -/
theorem connection_states {cfg : EngineConfig} {t : Thread P} (ht : t.Reach cfg) :
    (∀ i c, t.w.conn i = some c →
      (c.state = .connecting ↔ c.dial.isSome) ∧ (c.dial.isSome ↔ c.attemptDeadline.isSome)) ∧
    t.w.ready = (t.w.slotsWhere (fun c => c.state = .ready)).length := by
  obtain ⟨hr, hok, _⟩ := kept_ready.reached ht
  exact ⟨fun i c hc => ⟨(hr.sound.conns hc).dial, (hr.sound.conns hc).attempt⟩, hok.serving⟩

/-- A connection is dialed, its handshake ends, and its first request is answered. -/
theorem connection_states_dialed : ∃ t : Thread loopback, t.Reach loopbackConfig ∧ t.w.ready = 1 ∧
    t.w.ready = (t.w.slotsWhere (fun c => c.state = .ready)).length := by
  obtain ⟨t, ht, hp⟩ := Thread.exists_reach (P := loopback) loopbackConfig
    { polls := [[.waker], [.slot 0], [.slot 0]], inbox := [([[1]], none), ([[2]], none)] }
    0 [(.dial 1 1, 14)] (fun t => t.w.ready = 1) (by decide +kernel)
  exact ⟨t, ht, of_decide_eq_true hp, (connection_states ht).2⟩

end Http3Bench
