import Http3Bench.Simulation

/-!
# Dialing, timers and sockets are sequences of moves

The functions of `Dialing`, each turn started with an empty agenda and ended with one.
-/

namespace Http3Bench.Closed

variable {P : Platform} {d : Bool} {I : Mach P → Prop} {E : Panic → Worker P → Prop} {w : Worker P}
  {st : List Task}

theorem ends_flush (h : Closed d I E) {i : ℕ} (hI : I ⟨w, .flush i :: st⟩) :
    Ends (flush i) w (fun _ w' => I ⟨w', st⟩) E := by
  simp only [flush, ends_bind, ends_get]
  cases hc : w.conn i with
  | none => exact h.move (.flushNone hc) hI
  | some c =>
    simp only [osCall, instantNow, ends_bind, ends_modifyGet, ends_modify]
    have hI' := h.move (.flushed _ (P.sendAnswers c.sock w.os).1
      (P.elapsed (P.sendAnswers c.sock w.os).2).2 (P.elapsed (P.sendAnswers c.sock w.os).2).1 hc rfl) hI
    split
    · rename_i he
      rw [if_pos he] at hI'
      exact h.ends_process hI'
    · rename_i he
      rw [if_neg he] at hI'
      exact hI'

theorem ends_flushDirtyTurn (h : Closed d I E) (hI : I ⟨w, []⟩) :
    Ends (flushDirtyTurn : WorkerM P Bool) w
      (fun more w' => I ⟨w', []⟩ ∧ (more = false → w'.dirty = [])) E := by
  simp only [flushDirtyTurn, ends_bind, ends_get]
  cases hd : w.dirty with
  | nil => exact ⟨hI, fun _ => hd⟩
  | cons i rest =>
    simp only [ends_bind, ends_set]
    split
    · simp only [ends_bind, ends_pure]
      refine (h.ends_flush (h.move (.flushPop hd) hI)).mono ?_
      exact fun _ _ hI' => ⟨hI', by simp⟩
    · rename_i hc
      refine ⟨h.move (.clean hd ?_) hI, by simp⟩
      intro c hc'
      simpa [hc'] using hc

theorem ends_openSocket (h : Closed d I E) (peer : SocketAddr) (hI : I ⟨w, st⟩)
    {Q : Except String (Dialed P) → Worker P → Prop} (hQ : ∀ r w', I ⟨w', st⟩ → Q r w') :
    Ends (openSocket peer) w Q E := by
  simp only [openSocket, ends_bind, ends_get]
  apply h.ends_osCall hI
  intro r o hI
  cases r with
  | error e => exact hQ _ _ hI
  | ok sock =>
    simp only [ends_bind]
    apply h.ends_osCall hI
    intro r o hI
    cases r with
    | error e => exact hQ _ _ hI
    | ok _ =>
      simp only [ends_bind]
      apply h.ends_osCall hI
      intro r o hI
      cases r with
      | error e => exact hQ _ _ hI
      | ok localAddr =>
        simp only [ends_bind]
        apply h.ends_osCall hI
        intro r o hI
        cases r with
        | error e => exact hQ _ _ hI
        | ok q => exact hQ _ _ hI

theorem ends_dial (h : Closed d I E) {j : DialJob} (hI : I ⟨w, .job j :: st⟩) :
    Ends (dial j) w (fun _ w' => I ⟨w', st⟩) E := by
  simp only [dial, tryDial, nextPeer, ends_bind, ends_get, ends_set]
  have hI' := h.move .attempt hI
  split
  · exact h.other (by simp) (by simp)
  · simp only [ends_pure]
    apply h.ends_openSocket _ hI'
    intro r w hI
    cases r with
    | error e =>
      simp only [note, ends_bind, ends_modify, ends_pure]
      exact h.ends_dialFailedJob (h.move .refused hI)
    | ok d =>
      simp only [takeSlot, ends_bind, ends_get]
      split
      · exact h.other (by simp) (by simp)
      · rename_i hlt
        have hslot : ∀ i, j.slot = some i → i < w.slots.length := by
          intro i hi
          simpa [hi] using hlt
        simp only [osCall, ends_bind, ends_set, ends_pure, ends_modifyGet]
        split
        · simp only [note, ends_bind, ends_modify, ends_pure]
          exact h.ends_dialFailedJob (h.move (.registerFailed _ hslot) hI)
        · simp only [instantNow, checkSlot, ends_bind, ends_modifyGet, ends_get]
          split
          · simp only [ends_pure, ends_modify]
            exact h.ends_flush (h.move (.seated _ _ _ hslot ‹_›) hI)
          · exact h.other (by simp) (by simp)

theorem ends_dialAll (h : Closed d I E) (js : List DialJob) (hI : I ⟨w, js.map Task.job ++ st⟩) :
    Ends (dialAll js) w (fun _ w' => I ⟨w', st⟩) E := by
  induction js generalizing w with
  | nil => exact hI
  | cons j rest ih =>
    simp only [dialAll, ends_bind]
    exact (h.ends_dial hI).mono (fun _ _ hI' => ih hI')

theorem ends_fireRetriesTurn (h : Closed d I E) {now : Instant} (hI : I ⟨w, []⟩) :
    Ends (fireRetriesTurn now : WorkerM P Bool) w (fun _ w' => I ⟨w', []⟩) E := by
  simp only [fireRetriesTurn, ends_bind, ends_get]
  cases hr : w.retries with
  | nil => exact hI
  | cons r rest =>
    obtain ⟨t, j⟩ := r
    simp only
    split
    · exact hI
    · simp only [ends_bind, ends_set, ends_pure]
      exact h.ends_dial (h.move (.retryDue hr) hI)

theorem ends_fireTimersTurn (h : Closed d I E) {now : Instant} (hI : I ⟨w, []⟩) :
    Ends (fireTimersTurn now : WorkerM P Bool) w (fun _ w' => I ⟨w', []⟩) E := by
  simp only [fireTimersTurn, ends_bind, ends_get]
  cases ht : w.timers with
  | nil => exact hI
  | cons x rest =>
    obtain ⟨t, i⟩ := x
    simp only
    split
    · exact hI
    · cases hc : w.conn i with
      | none => exact h.move (.timerStale ht (by simp [hc])) hI
      | some c =>
        simp only
        split
        · rename_i hs
          exact h.move (.timerStale ht (by simpa [hc] using hs)) hI
        · rename_i hs
          rw [ne_eq, not_not] at hs
          split
          · exact h.move (.timerRearmed ht hc hs) hI
          · split
            · rename_i hst
              simp only [ends_bind, ends_set, ends_pure]
              exact h.ends_dialFailed (h.move (.timerDown ht hc hs hst.1) hI)
            · simp only [ends_bind, ends_set, ends_pure]
              exact h.ends_process (h.move (@Moves.timerFired P _ _ _ now _ _ _ ht hc hs) hI)

theorem ends_onReadable (h : Closed d I E) {i : ℕ} (hI : I ⟨w, []⟩) :
    Ends (onReadable i) w (fun _ w' => I ⟨w', []⟩) E := by
  simp only [onReadable, ends_bind, ends_get]
  cases hc : w.conn i with
  | none => exact hI
  | some c =>
    simp only [osCall, instantNow, ends_bind, ends_modifyGet, ends_modify]
    exact h.ends_process (h.move (.received _ _ hc) (h.move (.clock _ 0) hI))

theorem ends_keepaliveFrom (h : Closed d I E) {now : Instant} (is : List ℕ) (hI : I ⟨w, []⟩) :
    Ends (keepaliveFrom now is) w (fun _ w' => I ⟨w', []⟩) E := by
  induction is generalizing w with
  | nil => exact hI
  | cons i rest ih =>
    simp only [keepaliveFrom, ends_bind]
    apply h.ends_slotAt
    cases hc : w.conn i with
    | none => exact ih hI
    | some c =>
      simp only [ends_bind, ends_get]
      split
      · simp only [ends_bind, ends_set]
        exact ih (h.move (.keepalive hc) hI)
      · exact ih hI

theorem ends_keepalive (h : Closed d I E) {now : Instant} (hI : I ⟨w, []⟩) :
    Ends (keepalive now) w (fun _ w' => I ⟨w', []⟩) E := by
  simp only [keepalive, ends_bind, ends_get]
  split
  · exact hI
  · simp only [ends_bind, ends_set]
    exact h.ends_keepaliveFrom _ (h.move (.keepaliveNext _) hI)

theorem ends_closeFrom (h : Closed d I E) (is : List ℕ) (hI : I ⟨w, []⟩) :
    Ends (closeFrom is) w (fun _ w' => I ⟨w', []⟩) E := by
  induction is generalizing w with
  | nil => exact hI
  | cons i rest ih =>
    simp only [closeFrom, ends_bind]
    apply h.ends_slotAt
    cases hc : w.conn i with
    | none => exact ih hI
    | some c =>
      simp only
      split
      · exact ih hI
      · simp only [ends_bind, ends_modify]
        exact (h.ends_flush (h.move (.closing hc) hI)).mono (fun _ _ hI' => ih hI')

end Http3Bench.Closed
