import Http3Bench.Machine

/-!
# The request functions are sequences of moves

`Closed d I E` says that `I` is kept by every move and that a worker that would panic on an empty
slot or on a counter at zero meets `E`. Each lemma takes one function from the agenda it is called
with to the agenda it leaves behind, whatever else is on it.
-/

namespace Http3Bench

variable {P : Platform}

structure Closed (d : Bool) (I : Mach P → Prop) (E : Panic → Worker P → Prop) : Prop where
  move : ∀ {x ins outs x'}, Moves d x ins outs x' → I x → I x'
  stuck : ∀ {x p}, Stuck x p → I x → E p x.w
  other : ∀ {p w}, p ≠ .unwrap → p ≠ .underflow → E p w
  queued : ∀ {w st i c}, I ⟨w, st⟩ → w.conn i = some c → ∀ r ∈ c.queued, r.1 ≠ .rate

namespace Closed

variable {d : Bool} {I : Mach P → Prop} {E : Panic → Worker P → Prop} {w : Worker P} {st : List Task}

theorem ends_slotAt (h : Closed d I E) {i : ℕ} {Q : Option (Conn P) → Worker P → Prop}
    (hQ : Q (w.conn i) w) : Ends (slotAt i) w Q E := by
  simp only [slotAt, ends_bind, ends_get]
  cases hs : w.slots[i]? with
  | none => exact h.other (by simp) (by simp)
  | some s =>
    have hc : w.conn i = s := by simp [Worker.conn, hs]
    rw [hc] at hQ
    exact hQ

theorem ends_unwrapSlot (h : Closed d I E) {i : ℕ} {Q : Conn P → Worker P → Prop}
    (hs : w.conn i = none → E .unwrap w) (hQ : ∀ c, w.conn i = some c → Q c w) :
    Ends (unwrapSlot i) w Q E := by
  simp only [unwrapSlot, ends_bind]
  apply h.ends_slotAt
  cases hc : w.conn i with
  | none => exact hs hc
  | some c => exact hQ c hc

theorem ends_instantNow (h : Closed d I E) (hI : I ⟨w, st⟩) {Q : Instant → Worker P → Prop}
    (hQ : ∀ o t, I ⟨w.wait o t, st⟩ → Q (w.clock + t) (w.wait o t)) :
    Ends (instantNow : WorkerM P Instant) w Q E :=
  hQ _ _ (h.move (.clock _ _) hI)

theorem ends_osCall (h : Closed d I E) (hI : I ⟨w, st⟩) {β : Type} {f : P.Os → β × P.Os}
    {Q : β → Worker P → Prop} (hQ : ∀ b o, I ⟨w.wait o 0, st⟩ → Q b (w.wait o 0)) :
    Ends (osCall f) w Q E :=
  hQ _ _ (h.move (.clock _ _) hI)

theorem ends_echoDone (h : Closed d I E) {i n : ℕ} {r : Except String ℕ} {s : Instant}
    (hI : I ⟨w, .done i r s n :: st⟩) :
    Ends (echoDone i r s n) w (fun _ w' => I ⟨w', st⟩) E := by
  simp only [echoDone, ends_bind]
  apply h.ends_instantNow hI
  intro o t hI'
  simp only [ends_get]
  cases hp : (w.wait o t).phase with
  | echo e =>
    simp only
    split
    · exact h.stuck (.done hp ‹_›) hI'
    · exact h.move (.done _ hp ‹_›) hI'
  | _ => exact h.move (.doneLate (by simp [hp])) hI'

theorem ends_settleRate (h : Closed d I E) {j : DialJob} (hI : I ⟨w, .settle j :: st⟩) :
    Ends (settleRate : WorkerM P Unit) w (fun _ w' => I ⟨w', st⟩) E := by
  simp only [settleRate, ends_bind, ends_get]
  cases hp : w.phase with
  | ratePrep job r f =>
    simp only
    split
    · rename_i hr
      exact h.stuck (.settle (by rw [hp, hr])) hI
    · exact h.move (.settle hp ‹_›) hI
  | _ => exact h.move (.settleLate (by simp [hp])) hI

theorem ends_dialFailedJob (h : Closed d I E) {j : DialJob} {err : String}
    (hI : I ⟨w, .lost j err :: st⟩) :
    Ends (dialFailedJob j err) w (fun _ w' => I ⟨w', st⟩) E := by
  simp only [dialFailedJob, ends_bind, ends_get]
  by_cases ha : j.attempt < w.cfg.dialRetries
  · simp only [if_pos ha, ends_bind]
    apply h.ends_instantNow hI
    intro o t hI'
    exact h.move (.retry ha) hI'
  · simp only [if_neg ha]
    cases hj : j.purpose with
    | new =>
      cases hp : w.phase with
      | dial d =>
        simp only
        split
        · exact h.stuck (.loseNew hj hp ‹_›) hI
        · exact h.move (.loseNew ha hj hp ‹_›) hI
      | _ => exact h.move (.loseNewLate ha hj (by simp [hp])) hI
    | redialEcho s n =>
      cases hs : j.slot with
      | none => exact h.move (.loseEchoNone ha hj hs) hI
      | some i => exact h.ends_echoDone (h.move (.loseEcho ha hj hs) hI)
    | redialRate => exact h.ends_settleRate (h.move (.loseRate ha hj) hI)

theorem ends_dialFailed (h : Closed d I E) {i : ℕ} {err : String} (hI : I ⟨w, .down i err :: st⟩) :
    Ends (dialFailed i err) w (fun _ w' => I ⟨w', st⟩) E := by
  simp only [dialFailed, ends_bind]
  apply h.ends_slotAt
  cases hc : w.conn i with
  | none => exact h.move (.downNone (by simp [hc])) hI
  | some c =>
    cases hd : c.dial with
    | none => simpa only [hd, ends_pure] using h.move (.downNone (by simp [hc, hd])) hI
    | some j =>
      simp only [hd]
      split
      · rename_i hj
        simp only [ends_bind, ends_modify]
        exact h.ends_dialFailedJob (h.move (.downNew hc hd hj) hI)
      · rename_i hj
        simp only [ends_bind, ends_modify]
        exact h.ends_dialFailedJob (h.move (.downRedial hc hd hj) hI)

theorem ends_trySend (h : Closed d I E) {i : ℕ} {kind : ReqKind} {body : Body}
    (hI : I ⟨w, .request i kind body :: st⟩) :
    Ends (trySend i kind body) w (fun r w' => I ⟨w', sendTasks i kind body r ++ st⟩) E := by
  simp only [trySend, ends_bind]
  apply h.ends_unwrapSlot (fun hc => h.stuck (.request hc) hI)
  intro c hc
  simp only [ends_get, ends_set, ends_pure]
  exact h.move (.send hc) hI

/-- What a request is handed on as once `send_request` has answered. -/
def requestTasks (i : ℕ) : ReqKind → Except String Unit → List Task
  | .rate, .ok () => [.posted i]
  | .dial, .error e => [.down i e]
  | .echo s n, .error e => [.done i (.error e) s n]
  | _, _ => []

theorem ends_enqueue (h : Closed d I E) {i : ℕ} {kind : ReqKind} {body : Body} (hk : kind ≠ .rate)
    (hI : I ⟨w, .request i kind body :: st⟩) :
    Ends (do
      let c ← unwrapSlot i
      modify fun w => w.put i { c with queued := c.queued ++ [(kind, body)] }
      return (.ok () : Except String Unit)) w
      (fun r w' => I ⟨w', requestTasks i kind r ++ st⟩) E := by
  simp only [ends_bind]
  apply h.ends_unwrapSlot (fun hc => h.stuck (.request hc) hI)
  intro c hc
  simp only [ends_modify, ends_pure]
  cases kind with
  | rate => exact absurd rfl hk
  | dial => exact h.move (.enqueue hc hk) hI
  | echo s n => exact h.move (.enqueue hc hk) hI

theorem ends_sendRequest (h : Closed d I E) {i : ℕ} {kind : ReqKind} {body : Body}
    (hI : I ⟨w, .request i kind body :: st⟩) :
    Ends (sendRequest i kind body) w (fun r w' => I ⟨w', requestTasks i kind r ++ st⟩) E := by
  simp only [sendRequest, ends_bind]
  apply h.ends_unwrapSlot (fun hc => h.stuck (.request hc) hI)
  intro c hc
  split
  · rename_i hk
    simp only [ends_bind, ends_modify, ends_pure]
    have := h.move (.enqueue hc hk.1) hI
    cases kind with
    | rate => exact absurd rfl hk.1
    | dial => exact this
    | echo s n => exact this
  · simp only [ends_bind]
    refine (h.ends_trySend hI).mono ?_
    intro r w' hI'
    cases r with
    | ok u =>
      cases kind <;> simpa [sendTasks, requestTasks] using hI'
    | error e =>
      cases e with
      | blocked e =>
        simp only
        by_cases hk : kind = .rate
        · subst hk
          simp only [if_true, ends_pure]
          exact h.move .giveBack hI'
        · simp only [if_neg hk]
          exact h.ends_enqueue hk hI'
      | failed e =>
        cases kind <;> simpa [sendTasks, requestTasks] using hI'

theorem ends_dialOk (h : Closed d I E) {i : ℕ} (hI : I ⟨w, .up i :: st⟩) :
    Ends (dialOk i) w (fun _ w' => I ⟨w', st⟩) E := by
  simp only [dialOk, ends_bind]
  apply h.ends_unwrapSlot (fun hc => h.stuck (.up hc) hI)
  intro c hc
  cases hd : c.dial with
  | none => simpa only [ends_pure] using h.move (.upNone hc hd) hI
  | some j =>
    simp only [ends_bind, ends_modify]
    cases hj : j.purpose with
    | new =>
      simp only [ends_bind, ends_modify, ends_get]
      have hI' := h.move (.upNew hc hd hj) hI
      cases hp : (w.up i c j).countConnected.phase with
      | dial d =>
        simp only
        split
        · exact h.stuck (.newUp hp ‹_›) hI'
        · rename_i ha
          simp only [ends_bind]
          apply h.ends_instantNow hI'
          intro o t hI''
          exact h.move (.newUp _ hp ha) hI''
      | _ => exact h.move (.newUpLate (by simp [hp])) hI'
    | redialEcho s n =>
      simp only [ends_bind, ends_get]
      cases hp : (w.up i c j).phase with
      | echo e =>
        simp only
        cases e.job.payloads.head? with
        | none => exact h.other (by simp) (by simp)
        | some body =>
          simp only [ends_bind]
          refine (h.ends_sendRequest (h.move (.upEcho hc hd hj hp) hI)).mono ?_
          intro r w' hI'
          cases r with
          | ok u => exact hI'
          | error e => exact h.ends_echoDone hI'
      | _ =>
        refine h.move (.upEchoLate hc hd hj ?_) hI
        intro e he
        rw [show w.phase = _ from hp] at he
        cases he
    | redialRate => exact h.ends_settleRate (h.move (.upRate hc hd hj) hI)

theorem ends_response (h : Closed d I E) {i : ℕ} {kind : ReqKind} {r : Except String ℕ} {cause : Cause}
    (hI : I ⟨w, .event i (.response kind r cause) :: st⟩) :
    Ends (response i kind r cause) w (fun _ w' => I ⟨w', st⟩) E := by
  cases kind with
  | dial =>
    have hI' := h.move (.event (by simp) (by simp)) hI
    cases r with
    | ok n => exact h.ends_dialOk hI'
    | error e => exact h.ends_dialFailed hI'
  | echo s n => exact h.ends_echoDone (h.move (.event (by simp) (by simp)) hI)
  | rate =>
    simp only [response, ends_bind]
    apply h.ends_slotAt
    exact h.move .rateEvent hI

theorem ends_sendQueuedWithin (h : Closed d I E) {i : ℕ} (fuel : ℕ) (hI : I ⟨w, .drain i :: st⟩) :
    Ends (sendQueuedWithin i fuel) w (fun _ w' => I ⟨w', st⟩) E := by
  induction fuel generalizing w with
  | zero => exact h.move .drained hI
  | succ fuel ih =>
    simp only [sendQueuedWithin, ends_bind]
    apply h.ends_slotAt
    cases hc : w.conn i with
    | none => exact h.move .drained hI
    | some c =>
      simp only
      split
      · exact h.move .drained hI
      · rename_i hcl
        cases hq : c.queued with
        | nil => exact h.move .drained hI
        | cons r rest =>
          obtain ⟨kind, body⟩ := r
          have hk : kind ≠ .rate := h.queued hI hc (kind, body) (by simp [hq])
          simp only [ends_bind, ends_modify]
          have hI' := h.move (.dequeue hc hq hk (by simpa using hcl)) hI
          refine (h.ends_trySend hI').mono ?_
          intro res w' hs
          cases res with
          | ok u => exact ih (by simpa [sendTasks, hk] using hs)
          | error e =>
            cases e with
            | blocked e =>
              simp only [ends_bind]
              apply h.ends_unwrapSlot (fun hc' => h.stuck (.request hc') hs)
              intro c' hc'
              exact h.move .drained (h.move (.requeue hc' hk) hs)
            | failed e =>
              simp only [ends_bind]
              refine Ends.mono (Q := fun _ w' => I ⟨w', .drain i :: st⟩) ?_ (fun _ _ hI => ih hI)
              cases kind with
              | rate => exact absurd rfl hk
              | dial => exact h.ends_dialFailed hs
              | echo s n => exact h.ends_echoDone hs

theorem ends_closed (h : Closed d I E) {i : ℕ} {reason : String}
    (hI : I ⟨w, .event i (.closed reason) :: st⟩) :
    Ends (closed i reason) w (fun _ w' => I ⟨w', st⟩) E := by
  simp only [closed, ends_bind]
  apply h.ends_slotAt
  cases hc : w.conn i with
  | none =>
    have hI' := h.move (.closedOther (by simp [hc])) hI
    rw [hc] at hI'
    exact hI'
  | some c =>
    cases hs : c.state with
    | connecting =>
      have hI' := h.move (.closedOther (by simp [hc, hs])) hI
      simp only [hc, closedTasks, hs, if_true, List.singleton_append] at hI'
      simpa only [hs] using h.ends_dialFailed hI'
    | ready => simpa only [hs, ends_modify] using h.move (.closedReady hc hs) hI
    | broken =>
      have hI' := h.move (.closedOther (by simp [hc, hs])) hI
      simpa only [hs, hc, closedTasks, reduceCtorEq, if_false, List.nil_append, ends_pure] using hI'

theorem ends_handle (h : Closed d I E) {i : ℕ} {ev : ConnEvent} (hI : I ⟨w, .event i ev :: st⟩) :
    Ends (handle i ev) w (fun _ w' => I ⟨w', st⟩) E := by
  cases ev with
  | established =>
    simp only [handle, ends_bind]
    refine (h.ends_sendRequest (h.move (.event (by simp) (by simp)) hI)).mono ?_
    intro r w' hI'
    cases r with
    | ok u => exact hI'
    | error e => exact h.ends_dialFailed hI'
  | response kind r cause => exact h.ends_response hI
  | closed reason => exact h.ends_closed hI

theorem ends_handleAll (h : Closed d I E) {i : ℕ} (evs : List ConnEvent)
    (hI : I ⟨w, events i evs ++ st⟩) :
    Ends (handleAll i evs) w (fun _ w' => I ⟨w', st⟩) E := by
  induction evs generalizing w with
  | nil => exact hI
  | cons ev rest ih =>
    simp only [handleAll, ends_bind]
    exact (h.ends_handle hI).mono (fun _ _ hI' => ih hI')

theorem ends_process (h : Closed d I E) {i : ℕ} (hI : I ⟨w, .read i :: st⟩) :
    Ends (process i) w (fun _ w' => I ⟨w', st⟩) E := by
  simp only [process, ends_bind, ends_get]
  cases hc : w.conn i with
  | none => exact h.move (.readNone hc) hI
  | some c =>
    simp only [ends_bind, ends_set]
    refine (h.ends_handleAll _ (h.move (.read hc) hI)).mono ?_
    intro _ w' hI'
    simp only [sendQueued, ends_bind, ends_get]
    exact h.ends_sendQueuedWithin _ hI'

end Closed
end Http3Bench
