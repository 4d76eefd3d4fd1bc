import Http3Bench.SimulationLoop

/-!
# Commands and benchmarks are sequences of moves

From `start` to a whole turn of the event loop: a turn is started with an empty agenda and leaves
an empty one.
-/

namespace Http3Bench.Closed

variable {P : Platform} {d : Bool} {I : Mach P → Prop} {E : Panic → Worker P → Prop} {w : Worker P}

theorem ends_start (h : Closed d I E) {cmd : Command} {rest : List Command}
    (hrx : w.rx = cmd :: rest) (hI : I ⟨w, []⟩) :
    Ends (start cmd) { w with rx := rest } (fun _ w' => I ⟨w', []⟩) E := by
  cases cmd with
  | dial count conc => exact h.move (.startDial (w := w) hrx) hI
  | echo job conc => exact h.move (.startEcho (w := w) hrx) hI
  | rate job =>
    simp only [start, instantNow, newJobs, ends_bind, ends_modify, ends_get, ends_modifyGet]
    refine (h.ends_dialAll _ (h.move (.startRate (w := w) _ _ hrx) hI)).mono ?_
    exact fun _ _ hI' => h.move .prepared hI'
  | stop => exact h.move (.startStop (w := w) hrx) hI

theorem ends_recvCommands (h : Closed d I E) (fuel : ℕ) (stop : Bool) (hI : I ⟨w, []⟩) :
    Ends (recvCommands fuel stop) w (fun _ w' => I ⟨w', []⟩) E := by
  induction fuel generalizing w stop with
  | zero => exact hI
  | succ fuel ih =>
    simp only [recvCommands, ends_bind, ends_get]
    cases hrx : w.rx with
    | nil => exact hI
    | cons cmd rest =>
      simp only [ends_bind, ends_set]
      exact (h.ends_start hrx hI).mono (fun _ _ hI' => ih _ hI')

theorem ends_wake (h : Closed d I E) (tokens : List Token) (stop : Bool) (readable : List ℕ)
    (hI : I ⟨w, []⟩) : Ends (wake tokens stop readable) w (fun _ w' => I ⟨w', []⟩) E := by
  induction tokens generalizing w stop readable with
  | nil => exact hI
  | cons token rest ih =>
    cases token with
    | waker =>
      simp only [wake, ends_bind, ends_get]
      exact (h.ends_recvCommands _ _ hI).mono (fun _ _ hI' => ih _ _ hI')
    | slot i => exact ih _ _ hI

theorem ends_readAll (h : Closed d I E) (is : List ℕ) (hI : I ⟨w, []⟩) :
    Ends (readAll is) w (fun _ w' => I ⟨w', []⟩) E := by
  induction is generalizing w with
  | nil => exact hI
  | cons i rest ih =>
    simp only [readAll, ends_bind]
    exact (h.ends_onReadable hI).mono (fun _ _ hI' => ih hI')

theorem ends_limiterTake (h : Closed d I E) {st : List Task} {limited : Bool} {n : ℕ}
    (hI : I ⟨w, st⟩) {Q : Option Duration → Worker P → Prop}
    (hQ : ∀ r o, I ⟨w.wait o 0, st⟩ → Q r (w.wait o 0)) :
    Ends (limiterTake limited n) w Q E := by
  unfold limiterTake
  split
  · exact h.ends_osCall hI hQ
  · exact hQ none w.os hI

theorem ends_runTicket (h : Closed d I E) {e : EchoPhase} {i n : ℕ} (hI : I ⟨w, [.ticket i n]⟩) :
    Ends (runTicket e i n) w (fun _ w' => I ⟨w', []⟩) E := by
  simp only [runTicket]
  cases e.job.payloads[n % e.job.payloads.length]? with
  | none => exact h.other (by simp) (by simp)
  | some payload =>
    simp only [ends_bind]
    apply h.ends_instantNow hI
    intro o t hI'
    apply h.ends_unwrapSlot (fun hc => h.stuck (.ticket hc) hI')
    intro c hc
    split
    · rename_i hb
      simp only [newJob, ends_bind, ends_modifyGet]
      exact h.ends_dial (h.move (.ticketRedial hc hb) hI')
    · rename_i hb
      simp only [ends_bind]
      refine (h.ends_sendRequest (h.move (.ticketSend payload hc hb) hI')).mono ?_
      intro r w' hI''
      cases r with
      | ok u => exact hI''
      | error e => exact h.ends_echoDone hI''

theorem ends_drawTicket (h : Closed d I E) {e : EchoPhase} (hp : w.phase = .echo e)
    (hex : e.exhausted = false) (hfl : e.inFlight < e.slots) (hI : I ⟨w, []⟩) :
    Ends (drawTicket e) w (fun _ w' => I ⟨w', []⟩) E := by
  unfold drawTicket
  cases hi : e.idle with
  | nil => exact hI
  | cons i rest =>
    simp only [fetchIssued, ends_bind, ends_modifyGet]
    split
    · exact h.move (.overdraw hp ‹_›) hI
    · rename_i hlt
      simp only [ends_bind, ends_modify, ends_pure]
      exact h.ends_runTicket (h.move (.draw hp hex hfl hi (by omega)) hI)

theorem ends_driveEchoTurn (h : Closed true I E) {now : Instant} (hI : I ⟨w, []⟩) :
    Ends (driveEchoTurn now : WorkerM P Bool) w (fun _ w' => I ⟨w', []⟩) E := by
  simp only [driveEchoTurn, ends_bind, ends_get]
  cases hp : w.phase with
  | echo e =>
    simp only
    split
    · rename_i hf
      refine h.move (.finish ?_ rfl) hI
      rw [hp]
      exact .echo hf.1 hf.2
    · split
      · exact hI
      · rename_i hgo
        rw [not_or, not_le] at hgo
        split
        · exact hI
        · simp only [ends_bind, ends_set]
          have hI' := h.move (.echoWait none hp) hI
          apply h.ends_limiterTake hI'
          intro r o hI''
          cases r with
          | some wait => exact h.move (.echoWait (e := { e with waitUntil := none }) (some (now + wait)) rfl) hI''
          | none => exact h.ends_drawTicket rfl (by simpa using hgo.1) hgo.2 hI''
  | _ => exact hI

theorem ends_rateBatch (h : Closed d I E) {job : RateJob} {i : ℕ} (k n : ℕ)
    (hI : I ⟨w, [.batch job i k, .sent job n]⟩) :
    Ends (rateBatch job i k n) w (fun m w' => I ⟨w', [.sent job m]⟩) E := by
  induction k generalizing w n with
  | zero => exact h.move .batchEnd hI
  | succ k ih =>
    simp only [rateBatch, ends_bind]
    refine (h.ends_sendRequest (h.move .post hI)).mono ?_
    intro r w' hI'
    cases r with
    | error e => exact h.move .batchEnd hI'
    | ok u =>
      simp only [ends_bind]
      apply h.ends_unwrapSlot (fun hc => h.stuck (.posted hc) hI')
      intro c hc
      simp only [ends_modify]
      exact ih _ (h.move (.posted hc) hI')

theorem ends_rateConns (h : Closed d I E) {job : RateJob} (is : List ℕ) (n : ℕ)
    (hI : I ⟨w, [.sent job n]⟩) :
    Ends (rateConns job is n) w (fun m w' => I ⟨w', [.sent job m]⟩) E := by
  induction is generalizing w n with
  | nil => exact hI
  | cons i rest ih =>
    simp only [rateConns, ends_bind]
    apply h.ends_slotAt
    cases hc : w.conn i with
    | none => exact ih _ hI
    | some c =>
      simp only
      split
      · exact ih _ hI
      · rename_i hs
        simp only [ends_bind]
        apply h.ends_limiterTake hI
        intro r o hI'
        cases r with
        | some _ => exact ih _ hI'
        | none =>
          simp only [ends_bind]
          have hb := h.move (.batch (w := w.wait o 0) hc (by simpa using hs)) hI'
          refine (h.ends_rateBatch _ _ hb).mono ?_
          exact fun _ _ hI'' => ih _ hI''

theorem ends_driveRate (h : Closed true I E) {now : Instant} (hI : I ⟨w, []⟩) :
    Ends (driveRate now) w (fun _ w' => I ⟨w', []⟩) E := by
  simp only [driveRate, ends_bind, ends_get]
  cases hp : w.phase with
  | rate r =>
    simp only
    cases hg : r.graceUntil with
    | some grace =>
      simp only
      split
      · refine h.move (.finish ?_ rfl) hI
        rw [hp]
        exact .rate
      · exact hI
    | none =>
      simp only
      split
      · exact h.move (.rateTimes r.nextTick (some (now + r.job.tick)) hp rfl) hI
      · split
        · exact hI
        · split
          · exact h.other (by simp) (by simp)
          · have hI' := h.move (.rateTimes (catchUp r.nextTick now r.job.tick) none hp rfl) hI
            simp only [rateTick, ends_bind, ends_set, ends_get]
            have ht := h.move (.tick (r := { r with
              nextTick := catchUp r.nextTick now r.job.tick, graceUntil := none }) rfl rfl) hI'
            refine (h.ends_rateConns _ 0 ht).mono ?_
            exact fun _ _ hI'' => h.move .tickEnd hI''
  | _ => exact hI

theorem ends_drive (h : Closed true I E) {now : Instant} (hI : I ⟨w, []⟩) :
    Ends (drive now) w (fun _ w' => I ⟨w', []⟩) E := by
  simp only [drive, ends_bind, ends_get]
  cases hp : w.phase with
  | idle => exact hI
  | echo e => exact hI
  | dial d =>
    simp only
    split
    · rename_i hf
      refine h.move (.finish ?_ rfl) hI
      rw [hp]
      exact .dial hf.1 hf.2
    · simp only [newJobs, ends_bind, ends_set, ends_modifyGet]
      have hI' := h.move (.startDials now _ hp rfl) hI
      rw [← List.append_nil (List.map _ _)] at hI'
      refine h.ends_dialAll _ ?_
      simpa using hI'
  | ratePrep job r f =>
    simp only
    split
    · rename_i hr
      subst hr
      exact h.move (.rateStart now hp rfl) hI
    · exact hI
  | rate r => exact h.ends_driveRate hI

/-- A turn keeps every invariant of its moves, and `run` is back at its poll with no connection
left to be flushed. -/
theorem ends_turn (h : Closed d I E) (pt : Point) (hd : pt.driving → d = true) (hI : I ⟨w, []⟩) :
    Ends (turn pt) w (fun pt' w' => I ⟨w', []⟩ ∧ (pt' = .poll → w'.dirty = [])) E := by
  cases pt with
  | poll =>
    simp only [turn, ends_bind, ends_get]
    apply h.ends_osCall hI
    intro tokens o hI
    refine (h.ends_wake _ _ _ hI).mono ?_
    rintro ⟨stop, readable⟩ w hI
    refine (h.ends_readAll _ hI).mono ?_
    intro _ w hI
    apply h.ends_instantNow hI
    exact fun o t hI => ⟨hI, by simp⟩
  | timers now stop =>
    simp only [turn, ends_bind]
    refine (h.ends_fireTimersTurn hI).mono ?_
    intro more w hI
    cases more <;> exact ⟨hI, by simp⟩
  | retries now stop =>
    simp only [turn, ends_bind]
    refine (h.ends_fireRetriesTurn hI).mono ?_
    intro more w hI
    cases more <;> exact ⟨hI, by simp⟩
  | drive now stop =>
    obtain rfl := hd rfl
    simp only [turn, ends_bind, ends_get]
    split
    · exact ⟨hI, by simp⟩
    · simp only [ends_bind]
      refine (h.ends_drive hI).mono (fun _ w hI => ?_)
      refine (h.ends_keepalive hI).mono (fun _ w hI => ?_)
      exact ⟨hI, by simp⟩
  | echo now stop =>
    obtain rfl := hd rfl
    simp only [turn, ends_bind]
    refine (h.ends_driveEchoTurn hI).mono (fun more w hI => ?_)
    cases more with
    | true => exact ⟨hI, by simp⟩
    | false =>
      simp only [Bool.false_eq_true, if_false, ends_bind]
      refine (h.ends_keepalive hI).mono (fun _ w hI => ?_)
      exact ⟨hI, by simp⟩
  | dirty stop =>
    simp only [turn, ends_bind]
    refine (h.ends_flushDirtyTurn hI).mono (fun more w hI => ?_)
    cases more with
    | true => exact ⟨hI.1, by simp⟩
    | false =>
      simp only [Bool.false_eq_true, if_false]
      split
      · simp only [ends_bind, closeAll, ends_get]
        refine (h.ends_closeFrom _ hI.1).mono (fun _ w hI => ?_)
        exact ⟨hI, by simp⟩
      · exact ⟨hI.1, fun _ => hI.2 rfl⟩
  | stopped => exact ⟨hI, by simp⟩

end Http3Bench.Closed
