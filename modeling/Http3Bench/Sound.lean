import Http3Bench.SlotStep
import Http3Bench.Thread

/-!
# The state of every connection, and the ready counter

A connection is connecting exactly while it has a dial job, and exactly then it has a deadline for
the attempt. The ready counter is the number of connections that are ready.
-/

namespace Http3Bench

variable {P : Platform}

/-- What holds of the connection in slot `i`. -/
structure Conn.Sound (c : Conn P) (i serial : ℕ) : Prop where
  dial : c.state = .connecting ↔ c.dial.isSome
  attempt : c.dial.isSome ↔ c.attemptDeadline.isSome
  slot : ∀ j, c.dial = some j → j.slot = some i
  queued : ∀ r ∈ c.queued, r.1 ≠ .rate
  uid : c.uid < serial

/-- Every connection is sound, and no two have the same identity. -/
structure Worker.Sound (w : Worker P) : Prop where
  conns : ∀ {i c}, w.conn i = some c → c.Sound i w.serial
  uids : ∀ {i k c c'}, w.conn i = some c → w.conn k = some c' → c.uid = c'.uid → i = k

variable {w w' : Worker P} {c c' : Conn P} {i serial : ℕ}

theorem Conn.Sound.change (h : c.Sound i serial) (hc : Change c c') : c'.Sound i serial where
  dial := by rw [hc.state, hc.dial, h.dial]
  attempt := by rw [hc.dial, hc.attemptDeadline, h.attempt]
  slot := by rw [hc.dial]; exact h.slot
  queued := fun r hr => (hc.queued r hr).elim (h.queued r) id
  uid := by rw [hc.uid]; exact h.uid

theorem Conn.Sound.closed (h : c.Sound i serial) (hs : c.state = .ready) :
    ({ c with state := .broken } : Conn P).Sound i serial where
  dial := by simp [← h.dial, hs]
  attempt := h.attempt
  slot := h.slot
  queued := h.queued
  uid := h.uid

theorem Conn.Sound.up (h : c.Sound i serial) : c.up.Sound i serial where
  dial := by simp [Conn.up]
  attempt := by simp [Conn.up]
  slot := by simp [Conn.up]
  queued := h.queued
  uid := h.uid

theorem Conn.Sound.broke (h : c.Sound i serial) : c.broke.Sound i serial where
  dial := by simp [Conn.broke]
  attempt := by simp [Conn.broke]
  slot := by simp [Conn.broke]
  queued := by simp [Conn.broke]
  uid := h.uid

theorem Dialed.sound_conn (d : Dialed P) (j : DialJob) (timeout : Duration) (now : Instant) :
    (d.conn i j timeout now serial).Sound i (serial + 1) where
  dial := by simp [Dialed.conn]
  attempt := by simp [Dialed.conn]
  slot := by simp [Dialed.conn]
  queued := by simp [Dialed.conn]
  uid := by simp [Dialed.conn]

theorem Conn.Sound.resetInFlight (h : c.Sound i serial) : c.resetInFlight.Sound i serial := by
  unfold Conn.resetInFlight
  split
  · exact ⟨h.dial, h.attempt, h.slot, h.queued, h.uid⟩
  · exact h

theorem Conn.uid_resetInFlight (c : Conn P) : c.resetInFlight.uid = c.uid := by
  unfold Conn.resetInFlight
  split <;> rfl

theorem Conn.Sound.mono {serial' : ℕ} (h : c.Sound i serial) (hle : serial ≤ serial') :
    c.Sound i serial' :=
  ⟨h.dial, h.attempt, h.slot, h.queued, h.uid.trans_le hle⟩

namespace Worker

/-- A slot is emptied, or its connection changes and stays sound. -/
theorem Sound.set {s : Option (Conn P)} (h : w.Sound) (hi : i < w.slots.length)
    (hs : w'.slots = w.slots.set i s) (hle : w.serial ≤ w'.serial)
    (hsound : ∀ c', s = some c' → c'.Sound i w'.serial ∧
      ((∃ c, w.conn i = some c ∧ c'.uid = c.uid) ∨ c'.uid = w.serial)) : w'.Sound where
  conns := by
    intro k c hc
    rw [conn_set hs hi] at hc
    split at hc
    · rename_i hk
      subst hk
      exact (hsound c hc).1
    · exact (h.conns hc).mono hle
  uids := by
    have key : ∀ {k c c'}, s = some c → k ≠ i → w.conn k = some c' → c.uid ≠ c'.uid := by
      intro k c c' hs' hk hc' heq
      rcases (hsound c hs').2 with ⟨c₀, hc₀, hu⟩ | hu
      · exact hk (h.uids hc' hc₀ (by rw [← heq, hu]))
      · exact absurd (h.conns hc').uid (by omega)
    intro k l c c' hc hc' heq
    rw [conn_set hs hi] at hc hc'
    split at hc <;> split at hc'
    · rename_i hk hl
      rw [hk, hl]
    · exact absurd heq (key hc ‹_› hc')
    · exact absurd heq.symm (key hc' ‹_› hc)
    · exact h.uids hc hc' heq

theorem Sound.replace (h : w.Sound) (hc : w.conn i = some c)
    (hs : w'.slots = w.slots.set i (some c')) (hser : w'.serial = w.serial)
    (hsound : c'.Sound i w.serial) (huid : c'.uid = c.uid) : w'.Sound := by
  refine h.set (lt_of_conn hc) hs hser.ge (fun c'' hc'' => ?_)
  obtain rfl := Option.some.inj hc''
  exact ⟨hser ▸ hsound, .inl ⟨c, hc, huid⟩⟩

theorem Sound.of_conn_eq (h : w.Sound) (hc : ∀ k, w'.conn k = w.conn k)
    (hle : w.serial ≤ w'.serial) : w'.Sound where
  conns := fun hk => (h.conns (by rwa [hc] at hk)).mono hle
  uids := fun hk hl => h.uids (by rwa [hc] at hk) (by rwa [hc] at hl)

theorem Sound.takeSlot (h : w.Sound) {slot : Option ℕ}
    (hlt : ∀ i, slot = some i → i < w.slots.length) : (w.takeSlot slot).2.Sound := by
  cases slot with
  | some i => exact h.set (hlt i rfl) rfl (Nat.le_refl _) (by simp)
  | none =>
    simp only [Worker.takeSlot, allocSlot]
    split
    · exact h.of_conn_eq (fun _ => rfl) (Nat.le_refl _)
    · refine h.of_conn_eq (fun k => ?_) (Nat.le_refl _)
      rw [conn_append rfl]
      split
      · rename_i hk
        simp [conn, hk]
      · rfl

end Worker

theorem SlotStep.sound {todo : List Task} (hs : SlotStep todo w w') (h : w.Sound) : w'.Sound := by
  cases hs with
  | same hs _ _ hle => exact h.of_conn_eq (Worker.conn_of_slots_eq hs) hle
  | change hc hch hs _ _ hser => exact h.replace hc hs hser ((h.conns hc).change hch) hch.uid
  | closed hc hst hs _ _ hser => exact h.replace hc hs hser ((h.conns hc).closed hst) rfl
  | up hc _ hs _ _ hser => exact h.replace hc hs hser (h.conns hc).up rfl
  | broke hc _ _ hs _ _ hser => exact h.replace hc hs hser (h.conns hc).broke rfl
  | drop hc _ _ hs _ _ hser => exact h.set (Worker.lt_of_conn hc) hs hser.ge (by simp)
  | vacate slot hlt hs _ _ hser =>
    exact (h.takeSlot hlt).of_conn_eq (Worker.conn_of_slots_eq hs) (by simp [hser])
  | seat d j now _ hlt hidx hs _ _ hser =>
    have hle : (w.takeSlot j.slot).2.serial ≤ w'.serial := by simp [hser]
    refine (h.takeSlot hlt).set hidx hs hle (fun c hc => ?_)
    obtain rfl := Option.some.inj hc
    rw [hser]
    exact ⟨Dialed.sound_conn d j _ now, .inr (Worker.serial_takeSlot ..).symm⟩
  | reset hs _ _ hser =>
    refine ⟨fun {k c} hk => ?_, fun {k l c c'} hk hl huid => ?_⟩
    · rw [Worker.conn_map hs] at hk
      obtain ⟨c₀, hc₀, rfl⟩ := Option.map_eq_some_iff.mp hk
      rw [hser]
      exact (h.conns hc₀).resetInFlight
    · rw [Worker.conn_map hs] at hk hl
      obtain ⟨c₀, hc₀, rfl⟩ := Option.map_eq_some_iff.mp hk
      obtain ⟨c₁, hc₁, rfl⟩ := Option.map_eq_some_iff.mp hl
      exact h.uids hc₀ hc₁ (by simpa [Conn.uid_resetInFlight] using huid)

theorem kept_sound : Kept (fun _ => True) (fun x : Mach P => x.w.Sound) where
  new := fun cfg os now => ⟨by simp [Worker.new, Worker.conn], by simp [Worker.new, Worker.conn]⟩
  move := fun m _ _ h => m.slotStep.sound h
  interfere := fun s _ h => h.of_conn_eq (fun _ => rfl) (Nat.le_refl _)
  command := fun _ _ _ _ _ h => h.of_conn_eq (fun _ => rfl) (Nat.le_refl _)

end Http3Bench
