import Http3Bench.Gets
import Http3Bench.Ticks

/-!
# The slot table

As long as no socket failed to be registered, the free list is the set of the empty slots, and every
slot the worker will come back to is occupied. `try_dial` empties the slot before it registers the
socket; when that fails the slot stays empty and off the free list.
-/

namespace Http3Bench

variable {P : Platform}

/-- Every empty slot is free. -/
def Worker.Filled (w : Worker P) : Prop := ∀ i < w.slots.length, w.conn i = none → i ∈ w.free

/-- The slot table without gaps: every empty slot is free, and the slots that operations come back
to exist. -/
structure Tight (x : Mach P) : Prop where
  filled : x.w.Filled
  known : ∀ i, Reserved x.w.phase x.ops i → i < x.w.slots.length

variable {w w' : Worker P} {todo : List Task}

theorem Worker.length_takeSlot (w : Worker P) (slot : Option ℕ) :
    w.slots.length ≤ (w.takeSlot slot).2.slots.length := by
  cases slot with
  | some i => simp [takeSlot, evict]
  | none =>
    simp only [takeSlot, allocSlot]
    split <;> simp

theorem SlotStep.length_le (hs : SlotStep todo w w') : w.slots.length ≤ w'.slots.length := by
  cases hs with
  | same hs => rw [hs]
  | change _ _ hs => rw [hs, List.length_set]
  | closed _ _ hs => rw [hs, List.length_set]
  | up _ _ hs => rw [hs, List.length_set]
  | broke _ _ _ hs => rw [hs, List.length_set]
  | drop _ _ _ hs => rw [hs, List.length_set]
  | vacate slot _ hs => rw [hs]; exact w.length_takeSlot slot
  | seat d j now _ _ _ hs => rw [hs, List.length_set]; exact w.length_takeSlot j.slot
  | reset hs => rw [hs, List.length_map]

theorem Worker.Filled.set {i : ℕ} {s : Option (Conn P)} (h : w.Filled) (hi : i < w.slots.length)
    (hs : w'.slots = w.slots.set i s) (hf : ∀ k ∈ w.free, k ≠ i → k ∈ w'.free)
    (hi' : s = none → i ∈ w'.free) : w'.Filled := by
  intro k hk hc
  rw [conn_set hs hi] at hc
  rw [hs, List.length_set] at hk
  split at hc
  · rename_i hki
    exact hki ▸ hi' hc
  · exact hf k (h k hk hc) ‹_›

theorem Worker.Filled.takeSlot {slot : Option ℕ} (h : w.Filled)
    (hlt : ∀ i, slot = some i → i < w.slots.length) {k : ℕ} (hk : k ≠ (w.takeSlot slot).1)
    (hlen : k < (w.takeSlot slot).2.slots.length) (hc : (w.takeSlot slot).2.conn k = none) :
    k ∈ (w.takeSlot slot).2.free := by
  cases slot with
  | some i =>
    rw [Worker.takeSlot] at hk hc hlen
    rw [conn_set (w := w) rfl (hlt i rfl), if_neg hk] at hc
    exact h k (by simpa [evict] using hlen) hc
  | none =>
    cases hf : w.free with
    | nil =>
      simp only [Worker.takeSlot, allocSlot, hf] at hk hc hlen ⊢
      rw [conn_append rfl, if_neg hk] at hc
      rw [List.length_append, List.length_singleton] at hlen
      exact hf ▸ h k (by omega) hc
    | cons i rest =>
      simp only [Worker.takeSlot, allocSlot, hf] at hk hc hlen ⊢
      exact (List.mem_cons.mp (hf ▸ h k hlen hc)).resolve_left hk

theorem SlotStep.filled (hs : SlotStep todo w w') (h : w.Filled) (hlog : .registerFailed ∉ w'.log) :
    w'.Filled := by
  have put : ∀ {i c c'}, w.conn i = some c → w'.slots = w.slots.set i (some c') →
      w'.free = w.free → w'.Filled := fun hc hs hf =>
    h.set (Worker.lt_of_conn hc) hs (fun k hk _ => hf ▸ hk) (by simp)
  cases hs with
  | same hs hf =>
    intro i hi hc
    rw [Worker.conn_of_slots_eq hs] at hc
    exact hf ▸ h i (hs ▸ hi) hc
  | change hc _ hs hf => exact put hc hs hf
  | closed hc _ hs hf => exact put hc hs hf
  | up hc _ hs hf => exact put hc hs hf
  | broke hc _ _ hs hf => exact put hc hs hf
  | drop hc _ _ hs hf =>
    exact h.set (Worker.lt_of_conn hc) hs (fun k hk _ => hf ▸ List.mem_cons_of_mem _ hk)
      (fun _ => hf ▸ List.mem_cons_self)
  | vacate _ _ _ _ _ _ hl => exact absurd hl hlog
  | seat d j now _ hlt hidx hs hf =>
    intro k hk hc
    rw [Worker.conn_set hs hidx] at hc
    split at hc
    · cases hc
    · exact hf ▸ h.takeSlot hlt ‹_› (by simpa [hs] using hk) hc
  | reset hs hf =>
    intro i hi hc
    rw [Worker.conn_map hs, Option.map_eq_none_iff] at hc
    exact hf ▸ h i (by simpa [hs] using hi) hc

variable {x x' : Mach P} {ins outs : Multiset Op}

theorem kept_tight :
    Kept (Regular (P := P)) (fun x => .registerFailed ∉ x.w.log → Tight x) where
  new := fun cfg os now _ => by
    refine ⟨by simp [Worker.Filled, Worker.new], fun i hi => ?_⟩
    rcases hi with hi | hi
    · exact absurd hi List.not_mem_nil
    · exact absurd hi (Multiset.notMem_zero _)
  move := fun m ha _ h hlog => by
    have ht := h (fun hm => hlog (m.log_suffix.subset hm))
    refine ⟨m.slotStep.filled ht.filled hlog, fun i hi => ?_⟩
    rcases m.reserved_cases ha.agenda hi with hr | ⟨⟨c, hc⟩, _⟩
    · exact (ht.known i hr).trans_le m.slotStep.length_le
    · exact (Worker.lt_of_conn hc).trans_le m.slotStep.length_le
  interfere := fun _ _ h hlog => ⟨(h hlog).filled, (h hlog).known⟩
  command := fun _ _ _ _ _ h hlog => ⟨(h hlog).filled, (h hlog).known⟩

/-- A slot an operation comes back to is occupied. -/
theorem Tight.occupied (h : Tight x) (ha : Regular x) {i : ℕ} (hr : Reserved x.w.phase x.ops i) :
    (x.w.conn i).isSome := by
  by_contra hc
  rw [Option.not_isSome_iff_eq_none] at hc
  exact ha.books.reserved i hr (h.filled i (h.known i hr) hc)

theorem Regular.reserved_echo (ha : Regular x) {i n : ℕ} (h : .echo i n ∈ x.ops) :
    Reserved x.w.phase x.ops i := by
  obtain ⟨e, hp⟩ := ha.echo_of_mem h
  have hb := ha.books.phase
  rw [hp] at hb ⊢
  exact .inl (hb.2.2.captured (echo_mem.mpr h))

/-- An unwrapped slot is occupied. -/
theorem Tight.not_unwrap (h : Tight x) (ha : Regular x) (hg : Gets x) (ht : Ticking x.w x.todo) :
    ¬ Stuck x .unwrap := by
  intro hs
  have echo : ∀ {i n}, .echo i n ∈ x.ops → x.w.conn i ≠ none := fun hm hc => by
    have := h.occupied ha (ha.reserved_echo hm)
    simp [hc] at this
  have opens : ∀ {i}, gets i x ≠ 0 → x.w.conn i ≠ none := fun hne hc => by
    obtain ⟨c, hc', _⟩ := hg.dialed _ hne
    simp [hc] at hc'
  have room : ∀ {w : Worker P} {job i k}, w.RoomFor job i k → w.conn i ≠ none := fun hr hc => by
    obtain ⟨c, hc', _⟩ := hr
    simp [hc] at hc'
  cases hs with
  | @request w st i kind body hc =>
    cases kind with
    | dial =>
      refine opens (i := i) ?_ hc
      rw [gets_eq, taskGets_cons]
      simp [Task.ops, ReqKind.op]
    | echo s n => exact echo (op_mem_ops rfl) hc
    | rate =>
      cases ht with
      | rest ht => exact absurd (ht _ List.mem_cons_self) (by simp [Task.ticks])
      | request _ hr => exact room hr hc
  | @up w st i hc =>
    refine opens (i := i) ?_ hc
    rw [gets_eq, taskGets_cons]
    simp [Task.opening]
  | ticket hc => exact echo (op_mem_ops rfl) hc
  | posted hc =>
    cases ht with
    | rest ht => exact absurd (ht _ List.mem_cons_self) (by simp [Task.ticks])
    | posted _ hr => exact room hr hc

theorem kept_seated : Kept (Regular (P := P)) (fun x =>
    Gets x ∧ Ticking x.w x.todo ∧ (.registerFailed ∉ x.w.log → Tight x)) :=
  kept_gets.both ((kept_ticking.mono (fun _ _ => trivial)).both kept_tight)

theorem slots_eq_none_iff {i : ℕ} :
    w.slots[i]? = some none ↔ i < w.slots.length ∧ w.conn i = none := by
  unfold Worker.conn
  by_cases hi : i < w.slots.length
  · rw [List.getElem?_eq_getElem hi]
    simp [hi]
  · rw [List.getElem?_eq_none (by omega)]
    simp [hi]

theorem Regular.reserved_retry {r : Instant × DialJob} {i : ℕ} (ha : Regular x)
    (hr : r ∈ x.w.retries) (hi : r.2.slot = some i) : Reserved x.w.phase x.ops i := by
  have hop : r.2.op ∈ x.ops := Multiset.mem_add.mpr (.inl (Multiset.mem_add.mpr
    (.inr (Multiset.mem_coe.mpr (List.mem_map_of_mem hr)))))
  exact (ha.books.phase.of_redial (ha.agenda.retries r hr) hi hop).1

/-- In every run in which no socket failed to be registered, the free list is the set of the empty
slots, idle slots and slots waiting for a redial are occupied, and no turn unwraps an empty slot. -/
theorem slot_table {cfg : EngineConfig} {t : Thread P} (ht : t.Reach cfg)
    (hlog : .registerFailed ∉ t.w.log) :
    t.w.free.Nodup ∧ (∀ i, i ∈ t.w.free ↔ t.w.slots[i]? = some none) ∧
    (∀ e, t.w.phase = .echo e → ∀ i ∈ e.idle, (t.w.conn i).isSome) ∧
    (∀ r ∈ t.w.retries, ∀ i, r.2.slot = some i → (t.w.conn i).isSome) ∧
    ∀ w', turn t.pt t.w = .error .unwrap w' → .registerFailed ∈ w'.log := by
  obtain ⟨ha, hk, _⟩ := kept_seated.reached ht
  have htight := hk.2.2 hlog
  refine ⟨ha.books.free.nodup, fun i => ?_, fun e hp i hi => ?_, fun r hr i hi => ?_,
    fun w' herr => ?_⟩
  · rw [slots_eq_none_iff]
    exact ⟨ha.books.free.empty i, fun h => htight.filled i h.1 h.2⟩
  · have hb := ha.books.phase
    rw [show (⟨t.w, []⟩ : Mach P).w.phase = .echo e from hp] at hb
    refine htight.occupied ha (.inl ?_)
    rw [show (⟨t.w, []⟩ : Mach P).w.phase = .echo e from hp]
    exact Multiset.mem_coe.mp (Multiset.mem_of_le hb.2.2.slots
      (Multiset.mem_add.mpr (.inl (Multiset.mem_coe.mpr hi))))
  · exact htight.occupied ha (ha.reserved_retry hr hi)
  · by_contra hno
    obtain ⟨todo, hs, ha', hg, htick, ht'⟩ := (kept_regular.and kept_seated).stuck
      (fun h hc => h.1.queued hc) ⟨ha, hk⟩ herr (.inl rfl)
    exact (ht' hno).not_unwrap ha' hg htick hs

/-- Of three connections the first comes up, the kernel has no port for the second, and the third is
closed by the server before it is up: its slot is empty again, and free. -/
theorem slot_table_dialed : ∃ t : Thread loopback, t.Reach loopbackConfig ∧
    (t.w.slots.length = 2 ∧ t.w.free = [1] ∧ t.w.sent.length = 1) ∧
    t.w.free.Nodup ∧ ∀ i, i ∈ t.w.free ↔ t.w.slots[i]? = some none := by
  obtain ⟨t, ht, hp⟩ := Thread.exists_reach (P := loopback) loopbackConfig {
      polls := [[.waker], [.slot 0], [.slot 0], [.slot 1], [.slot 1]]
      inbox := [([[1]], none), ([[2]], none), ([[3]], none)]
      binds := [true, false] }
    0 [(.dial 3 1, 28)]
    (fun t => (t.w.slots.length = 2 ∧ t.w.free = [1] ∧ t.w.sent.length = 1) ∧
      .registerFailed ∉ t.w.log) (by decide +kernel)
  obtain ⟨hends, hlog⟩ := of_decide_eq_true hp
  exact ⟨t, ht, hends, (slot_table ht hlog).1, (slot_table ht hlog).2.1⟩

/-- A broken connection is dialed again for a round trip and its new socket is not registered: its
slot is neither occupied nor free, and the next round trip on it unwraps it. -/
theorem slot_table_gap : ∃ t : Thread loopback, t.Reach loopbackConfig ∧
    t.w.slots[0]? = some none ∧ 0 ∉ t.w.free ∧ ∃ w', turn t.pt t.w = .error .unwrap w' := by
  obtain ⟨t, ht, hp⟩ := Thread.exists_reach (P := loopback) loopbackConfig {
      polls := [[.waker], [.slot 0], [.slot 0], [.slot 0], [.waker]]
      inbox := [([[1]], none), ([[2]], none), ([[3]], none)]
      registers := [true, false] }
    0 [(.dial 1 1, 22), (.echo ⟨2, [[7]], true, false⟩ 1, 6)]
    (fun t => (0 < t.w.slots.length ∧ (t.w.conn 0).isNone) ∧ 0 ∉ t.w.free ∧ t.panics .unwrap)
    (by decide +kernel)
  obtain ⟨⟨hlen, hconn⟩, hfree, hpanic⟩ := of_decide_eq_true hp
  exact ⟨t, ht, slots_eq_none_iff.mpr ⟨hlen, Option.isNone_iff_eq_none.mp hconn⟩, hfree,
    Thread.exists_of_panics hpanic⟩

end Http3Bench
