import Http3Bench.ConnFrame
import Http3Bench.Lib.Heap
import Http3Bench.Loopback

/-!
# The loop of `fire_timers` ends

A turn takes the first entry off the heap of timers, and may put another one there: the connection
whose entry came up before its deadline is scheduled again, and the new entry may be due as well. A
slot is scheduled again at most once, though. From then on its deadline is the instant it is scheduled
for, so that the next entry of the slot that is not stale is handled; and nothing that handles it, be
it `process` or `dial_failed`, calls `schedule`.
-/

namespace Http3Bench

variable {P : Platform} {α β : Type} {w w' w'' : Worker P} {i : ℕ} {c c' : Conn P}

/-! ### What the request functions leave alone -/

/-- What the connection in slot `i` is scheduled for, and its deadline. -/
def Worker.arm (w : Worker P) (i : ℕ) : Option (Option Instant × Option Instant) :=
  (w.conn i).map (fun c => (c.scheduled, c.deadline))

/-- No timer is set between `w` and `w'`: a connection keeps the ones it has, unless it is dropped. -/
structure Worker.Quiet (w w' : Worker P) : Prop where
  timers : w'.timers = w.timers
  length : w'.slots.length = w.slots.length
  arm : ∀ k, w'.arm k = w.arm k ∨ w'.arm k = none

namespace Worker.Quiet

theorem of_slots_eq (ht : w'.timers = w.timers) (hs : w'.slots = w.slots) : w.Quiet w' where
  timers := ht
  length := by rw [hs]
  arm := fun k => .inl (by unfold Worker.arm; rw [conn_of_slots_eq hs])

theorem refl (w : Worker P) : w.Quiet w := of_slots_eq rfl rfl

theorem trans (h : w.Quiet w') (h' : w'.Quiet w'') : w.Quiet w'' where
  timers := h'.timers.trans h.timers
  length := h'.length.trans h.length
  arm := fun k => by
    rcases h'.arm k with hk | hk
    · rw [hk]
      exact h.arm k
    · exact .inr hk

theorem set {s : Option (Conn P)} (hc : w.conn i = some c) (ht : w'.timers = w.timers)
    (hs : w'.slots = w.slots.set i s)
    (h : ∀ c', s = some c' → c'.scheduled = c.scheduled ∧ c'.deadline = c.deadline) : w.Quiet w' where
  timers := ht
  length := by rw [hs, List.length_set]
  arm := fun k => by
    have hk := conn_set hs (lt_of_conn hc) k
    unfold Worker.arm
    by_cases hi : k = i
    · subst hi
      rw [hk, if_pos rfl, hc]
      cases s with
      | none => exact .inr rfl
      | some c' =>
        obtain ⟨hsched, hdead⟩ := h c' rfl
        exact .inl (by simp only [Option.map_some, hsched, hdead])
    · rw [hk, if_neg hi]
      exact .inl rfl

theorem put (hc : w.conn i = some c) (hs : c'.scheduled = c.scheduled)
    (hd : c'.deadline = c.deadline) : w.Quiet (w.put i c') :=
  set hc rfl rfl (fun _ h => by cases h; exact ⟨hs, hd⟩)

end Worker.Quiet

/-- The program sets no timer from `w`, and is not caught in a loop. -/
def Quiets (m : WorkerM P α) (w : Worker P) : Prop :=
  Ends m w (fun _ w' => w.Quiet w') (fun p _ => p ≠ .spin)

namespace Quiets

variable {m : WorkerM P α} {f : α → WorkerM P β}

theorem pure (a : α) : Quiets (pure a : WorkerM P α) w := .refl w

theorem throw {p : Panic} (hp : p ≠ .spin) : Quiets (throw p : WorkerM P α) w := hp

theorem set (h : w.Quiet w') : Quiets (set w' : WorkerM P PUnit) w := h

theorem modify {g : Worker P → Worker P} (h : w.Quiet (g w)) : Quiets (modify g) w := h

theorem bind (hm : Quiets m w) (hf : ∀ a w', m w = .ok a w' → Quiets (f a) w') :
    Quiets (m >>= f) w := by
  simp only [Quiets, ends_bind]
  refine ends_iff.mpr ⟨fun a w₁ h₁ => ?_, fun p w₁ h₁ => Ends.error hm h₁⟩
  exact (hf a w₁ h₁).mono (fun _ _ h₂ => (Ends.ok hm h₁).trans h₂)

theorem get {f : Worker P → WorkerM P β} (hf : Quiets (f w) w) : Quiets (get >>= f) w := hf

theorem slotAt {f : Option (Conn P) → WorkerM P β} (hf : Quiets (f (w.conn i)) w) :
    Quiets (slotAt i >>= f) w := by
  simp only [Quiets, Http3Bench.slotAt, ends_bind, ends_get]
  cases hs : w.slots[i]? with
  | none => exact (by decide : Panic.index ≠ .spin)
  | some s =>
    have hc : w.conn i = s := by simp [Worker.conn, hs]
    rw [hc] at hf
    exact hf

theorem unwrapSlot {f : Conn P → WorkerM P β} (hf : ∀ c, w.conn i = some c → Quiets (f c) w) :
    Quiets (unwrapSlot i >>= f) w := by
  simp only [Quiets, Http3Bench.unwrapSlot, Http3Bench.slotAt, ends_bind, ends_get]
  cases hs : w.slots[i]? with
  | none => exact (by decide : Panic.index ≠ .spin)
  | some s =>
    cases s with
    | none => exact (by decide : Panic.unwrap ≠ .spin)
    | some c => exact hf c (Worker.conn_eq_some_iff.mpr hs)

theorem instantNow : Quiets (instantNow : WorkerM P Instant) w := .of_slots_eq rfl rfl

theorem echoDone {r : Except String ℕ} {start : Instant} {n : ℕ} :
    Quiets (echoDone i r start n : WorkerM P Unit) w := by
  refine instantNow.bind (fun now w₁ _ => get ?_)
  cases w₁.phase with
  | echo e =>
    by_cases he : e.inFlight = 0
    · simpa only [if_pos he] using throw (by decide)
    · simp only [if_neg he]
      exact set (.of_slots_eq rfl rfl)
  | _ => exact pure ()

theorem settleRate : Quiets (settleRate : WorkerM P Unit) w := by
  refine get ?_
  cases w.phase with
  | ratePrep job redials f =>
    by_cases hr : redials = 0
    · simpa only [if_pos hr] using throw (by decide)
    · simp only [if_neg hr]
      exact set (.of_slots_eq rfl rfl)
  | _ => exact pure ()

theorem dialFailedJob {job : DialJob} {err : String} :
    Quiets (dialFailedJob job err : WorkerM P Unit) w := by
  refine get ?_
  by_cases ha : job.attempt < w.cfg.dialRetries
  · simp only [if_pos ha]
    exact instantNow.bind (fun now w₁ _ => modify (.of_slots_eq rfl rfl))
  · simp only [if_neg ha]
    cases job.purpose with
    | new =>
      cases w.phase with
      | dial d =>
        by_cases hd : d.active = 0
        · simpa only [if_pos hd] using throw (by decide)
        · simp only [if_neg hd]
          exact set (.of_slots_eq rfl rfl)
      | _ => exact pure ()
    | redialEcho start n =>
      cases job.slot with
      | some idx => exact echoDone
      | none => exact pure ()
    | redialRate => exact settleRate

theorem dialFailed {err : String} : Quiets (dialFailed i err : WorkerM P Unit) w := by
  refine slotAt ?_
  cases hc : w.conn i with
  | none => exact pure ()
  | some c =>
    cases hd : c.dial with
    | none => simpa only [hd] using pure ()
    | some job =>
      simp only [hd]
      by_cases hj : job.purpose = .new
      · simp only [if_pos hj]
        exact (modify (.set hc rfl rfl (by simp))).bind (fun _ _ _ => dialFailedJob)
      · simp only [if_neg hj]
        exact (modify (.put hc (by rfl) (by rfl))).bind (fun _ _ _ => dialFailedJob)

theorem trySend {kind : ReqKind} {body : Body} :
    Quiets (trySend i kind body : WorkerM P (Except SendError Unit)) w := by
  refine unwrapSlot (fun c hc => get ?_)
  refine (set ?_).bind (fun _ _ _ => pure _)
  have hf := (trySend_cases (w.headersFor kind) kind body c).frame
  rw [Worker.afterSend_eq]
  refine .set hc rfl rfl (fun c' hc' => ?_)
  obtain rfl := Option.some.inj hc'
  unfold Sent.left
  split
  · exact ⟨hf.scheduled, hf.deadline⟩
  · exact ⟨hf.scheduled, hf.deadline⟩

theorem sendRequest {kind : ReqKind} {body : Body} :
    Quiets (sendRequest i kind body : WorkerM P (Except String Unit)) w := by
  refine unwrapSlot (fun c hc => ?_)
  split
  · exact (modify (.put hc (by rfl) (by rfl))).bind (fun _ _ _ => pure _)
  · refine trySend.bind (fun r w₁ _ => ?_)
    cases r with
    | ok u => exact pure _
    | error e =>
      cases e with
      | blocked e =>
        by_cases hk : kind = .rate
        · simpa only [if_pos hk] using pure _
        · simp only [if_neg hk]
          exact unwrapSlot (fun c hc => (modify (.put hc (by rfl) (by rfl))).bind (fun _ _ _ => pure _))
      | failed e => exact pure _

theorem dialOk : Quiets (dialOk i : WorkerM P Unit) w := by
  refine unwrapSlot (fun c hc => ?_)
  cases hd : c.dial with
  | none => exact pure ()
  | some job =>
    refine (modify (.set hc rfl rfl (by simp [Conn.up]))).bind (fun _ w₁ _ => ?_)
    cases job.purpose with
    | new =>
      refine (modify (.of_slots_eq rfl rfl)).bind (fun _ w₂ _ => get ?_)
      cases w₂.phase with
      | dial d =>
        by_cases ha : d.active = 0
        · simpa only [if_pos ha] using throw (by decide)
        · simp only [if_neg ha]
          exact instantNow.bind (fun _ _ _ => modify (.of_slots_eq rfl rfl))
      | _ => exact pure ()
    | redialEcho start n =>
      refine get ?_
      cases w₁.phase with
      | echo e =>
        cases he : e.job.payloads.head? with
        | none => simpa only [he] using throw (by decide)
        | some payload =>
          simp only [he]
          refine sendRequest.bind (fun r w₂ _ => ?_)
          cases r with
          | ok u => exact pure ()
          | error e => exact echoDone
      | _ => exact pure ()
    | redialRate => exact settleRate

theorem response {kind : ReqKind} {r : Except String ℕ} {cause : Cause} :
    Quiets (response i kind r cause : WorkerM P Unit) w := by
  cases kind with
  | dial =>
    cases r with
    | ok n => exact dialOk
    | error e => exact dialFailed
  | echo start n => exact echoDone
  | rate =>
    refine slotAt (modify ?_)
    cases hc : w.conn i with
    | none => exact .of_slots_eq rfl rfl
    | some c => exact .set hc rfl rfl (by simp)

theorem sendQueuedWithin (fuel : ℕ) : Quiets (sendQueuedWithin i fuel : WorkerM P Unit) w := by
  induction fuel generalizing w with
  | zero => exact pure ()
  | succ fuel ih =>
    refine slotAt ?_
    cases hc : w.conn i with
    | none => exact pure ()
    | some c =>
      simp only
      split
      · exact pure ()
      · cases hq : c.queued with
        | nil => exact pure ()
        | cons r rest =>
          refine (modify (.put hc (by rfl) (by rfl))).bind (fun _ w₁ _ => trySend.bind (fun res w₂ _ => ?_))
          cases res with
          | ok u => exact ih
          | error e =>
            cases e with
            | blocked e => exact unwrapSlot (fun c' hc' => modify (.put hc' (by rfl) (by rfl)))
            | failed e => exact response.bind (fun _ _ _ => ih)

theorem closed {reason : String} : Quiets (closed i reason : WorkerM P Unit) w := by
  refine slotAt ?_
  cases hc : w.conn i with
  | none => exact pure ()
  | some c =>
    cases hs : c.state with
    | connecting => simpa only [hs] using dialFailed
    | ready =>
      simp only [hs]
      exact modify (.set hc rfl rfl (by simp))
    | broken => simpa only [hs] using pure ()

theorem handle (ev : ConnEvent) : Quiets (handle i ev : WorkerM P Unit) w := by
  cases ev with
  | established =>
    refine sendRequest.bind (fun r w₁ _ => ?_)
    cases r with
    | ok u => exact pure ()
    | error e => exact dialFailed
  | response kind r cause => exact response
  | closed reason => exact closed

theorem handleAll (evs : List ConnEvent) : Quiets (handleAll i evs : WorkerM P Unit) w := by
  induction evs generalizing w with
  | nil => exact pure ()
  | cons ev rest ih => exact (handle ev).bind (fun _ _ _ => ih)

theorem process : Quiets (process i : WorkerM P Unit) w := by
  refine get ?_
  cases hc : w.conn i with
  | none => exact pure ()
  | some c =>
    have hf := (read_processConn w.cfg.check c).frame
    have hq : w.Quiet (w.putDirty i (c.processConn w.cfg.check).1) := by
      refine .set hc rfl rfl (fun c' hc' => ?_)
      obtain rfl := Option.some.inj hc'
      exact ⟨hf.scheduled, hf.deadline⟩
    exact (set hq).bind (fun _ _ _ => (handleAll _).bind (fun _ _ _ => get (sendQueuedWithin _)))

end Quiets

/-! ### One turn -/

/-- What a turn of `fire_timers` makes of the entry it takes off the heap: it is stale, its slot is
scheduled again, or the timeout of its slot is handled. -/
inductive Firing
  | stale
  | rearm (i : ℕ)
  | handle (i : ℕ)
  deriving DecidableEq

/-- The branch the next turn of `fire_timers` takes, unless the loop is over. -/
def Worker.firing (w : Worker P) (now : Instant) : Option Firing :=
  match w.timers with
  | [] => none
  | (t, idx) :: _ =>
    if now < t then none
    else match w.conn idx with
      | none => some .stale
      | some c =>
        if c.scheduled ≠ some t then some .stale
        else if ¬ c.deadline.any (fun d => d ≤ now) then some (.rearm idx)
        else some (.handle idx)

/-- What a turn that takes the branch `f` makes of the worker. -/
inductive Fired (now : Instant) (w : Worker P) : Firing → Worker P → Prop
  | stale {t : Timer} {rest : List Timer} : w.timers = t :: rest →
      Fired now w .stale { w with timers := rest }
  | rearm {t : Instant} {i : ℕ} {rest : List Timer} {c : Conn P} : w.timers = (t, i) :: rest →
      t ≤ now → w.conn i = some c → c.scheduled = some t → c.deadline.any (fun d => d ≤ now) = false →
      Fired now w (.rearm i) ((w.popTimer rest i c).schedule i)
  | handle {t : Instant} {i : ℕ} {rest : List Timer} {c : Conn P} {w' : Worker P} :
      w.timers = (t, i) :: rest → w.conn i = some c → (w.popTimer rest i c).Quiet w' →
      Fired now w (.handle i) w'

theorem Worker.conn_popTimer {rest : List Timer} (hc : w.conn i = some c) :
    (w.popTimer rest i c).conn i = some { c with scheduled := none } :=
  (Worker.conn_set rfl (Worker.lt_of_conn hc) i).trans (if_pos rfl)

theorem fired_turn (now : Instant) (w : Worker P) :
    Ends (fireTimersTurn now) w
      (fun more w' => more = true → ∃ f, w.firing now = some f ∧ Fired now w f w')
      (fun p _ => p ≠ .spin) := by
  simp only [fireTimersTurn, Worker.firing, ends_bind, ends_get]
  cases ht : w.timers with
  | nil => exact fun h => by cases h
  | cons e rest =>
    obtain ⟨t, i⟩ := e
    simp only
    by_cases hn : now < t
    · simp only [if_pos hn]
      exact fun h => by cases h
    · simp only [if_neg hn]
      cases hc : w.conn i with
      | none => exact fun _ => ⟨_, rfl, .stale ht⟩
      | some c =>
        simp only
        by_cases hs : c.scheduled = some t
        · rw [if_neg (not_not.mpr hs), if_neg (not_not.mpr hs)]
          by_cases hd : c.deadline.any (fun d => d ≤ now)
          · rw [if_neg (not_not.mpr hd), if_neg (not_not.mpr hd)]
            split
            · simp only [ends_bind, ends_set]
              exact Quiets.dialFailed.mono (fun _ _ hq _ => ⟨_, rfl, .handle ht hc hq⟩)
            · simp only [ends_bind, ends_set]
              refine Quiets.process.mono (fun _ _ hq _ => ⟨_, rfl, .handle ht hc (.trans ?_ hq)⟩)
              exact .set (Worker.conn_popTimer hc) rfl rfl (by simp [Conn.timedOut])
          · rw [if_pos hd, if_pos hd]
            exact fun _ => ⟨_, rfl, .rearm ht (not_lt.mp hn) hc hs (by simpa using hd)⟩
        · rw [if_pos hs, if_pos hs]
          exact fun _ => ⟨_, rfl, .stale ht⟩

/-! ### What a turn does to the timers of a slot -/

/-- What the connection in slot `i` is scheduled for. -/
def Worker.scheduledAt (w : Worker P) (i : ℕ) : Option Instant := (w.arm i).bind Prod.fst

/-- The entries of the heap that are about slot `i`. -/
def Worker.entriesOf (w : Worker P) (i : ℕ) : List Timer := w.timers.filter (fun t => t.2 = i)

/-- The entry slot `i` is scheduled for is due, and its deadline is not. -/
def Worker.early (w : Worker P) (now : Instant) (i : ℕ) : Bool :=
  (w.arm i).any (fun a => a.1.any (fun s => s ≤ now) && !a.2.any (fun d => d ≤ now))

variable {now : Instant} {f : Firing} {k : ℕ}

theorem Worker.scheduledAt_of_early (h : w.early now i = true) : ∃ s, w.scheduledAt i = some s := by
  unfold early at h
  unfold scheduledAt
  cases ha : w.arm i with
  | none => simp [ha] at h
  | some a =>
    obtain ⟨s, d⟩ := a
    cases s with
    | none => simp [ha] at h
    | some s => exact ⟨s, rfl⟩

theorem Worker.arm_set {s : Option (Conn P)} (hs : w'.slots = w.slots.set i s)
    (hi : i < w.slots.length) (k : ℕ) :
    w'.arm k = if k = i then s.map (fun c => (c.scheduled, c.deadline)) else w.arm k := by
  unfold arm
  rw [conn_set hs hi]
  split <;> rfl

/-- A connection that is scheduled anew has its deadline at the instant it is scheduled for. -/
theorem Conn.rearm_of_unscheduled (hc : c.scheduled = none) : c.rearm.scheduled = c.timeout := by
  unfold Conn.rearm Conn.needsTimer
  cases c.timeout <;> simp [hc]

section

variable {rest : List Timer}

theorem Worker.schedule_popTimer (hc : w.conn i = some c) :
    (w.popTimer rest i c).schedule i = { w with
      slots := w.slots.set i (some ({ c with scheduled := none } : Conn P).rearm)
      timers := if c.timeout.isSome then rest.orderedInsert Timer.le (c.timeout.getD 0, i)
        else rest } := by
  have hn : ({ c with scheduled := none } : Conn P).needsTimer = c.timeout.isSome := by
    rw [show c.timeout = ({ c with scheduled := none } : Conn P).timeout from rfl]
    unfold Conn.needsTimer
    cases ({ c with scheduled := none } : Conn P).timeout <;> rfl
  rw [Worker.schedule_eq (Worker.conn_popTimer hc), hn]
  simp only [popTimer, put, List.set_set]
  rfl

theorem Worker.arm_schedule_popTimer (hc : w.conn i = some c) (k : ℕ) :
    ((w.popTimer rest i c).schedule i).arm k =
      if k = i then some (c.timeout, c.timeout) else w.arm k := by
  rw [Worker.schedule_popTimer hc, Worker.arm_set rfl (lt_of_conn hc)]
  split
  · rw [Option.map_some, Conn.rearm_of_unscheduled rfl]
    rfl
  · rfl

end

namespace Fired

theorem length_eq (h : Fired now w f w') : w'.slots.length = w.slots.length := by
  cases h with
  | stale ht => rfl
  | rearm ht hn hc => rw [Worker.schedule_popTimer hc, List.length_set]
  | handle ht hc hq => rw [hq.length, Worker.popTimer, Worker.put, List.length_set]

/-- A turn on a slot that is scheduled again. -/
theorem rearmed (h : Fired now w (.rearm i) w') : w.early now i = true ∧ w'.early now i = false := by
  cases h with
  | rearm ht hn hc hs hd =>
    constructor
    · simp [Worker.early, Worker.arm, hc, hs, hn, hd]
    · rw [Worker.early, Worker.arm_schedule_popTimer hc, if_pos rfl]
      simp

theorem handled (h : Fired now w (.handle i) w') : w'.scheduledAt i = none := by
  cases h with
  | handle ht hc hq =>
    unfold Worker.scheduledAt
    rcases hq.arm i with hi | hi
    · rw [hi, Worker.arm, Worker.conn_popTimer hc]
      rfl
    · rw [hi]
      rfl

/-- A slot a turn does not schedule keeps its timers, unless they are taken off. -/
theorem arm_cases (h : Fired now w f w') (hf : f ≠ .rearm k) :
    w'.arm k = w.arm k ∨ w'.scheduledAt k = none := by
  cases h with
  | stale ht => exact .inl rfl
  | rearm ht hn hc =>
    rw [Worker.arm_schedule_popTimer hc, if_neg (fun hk => hf (by rw [hk]))]
    exact .inl rfl
  | handle ht hc hq =>
    rename_i i _ c
    by_cases hk : k = i
    · subst hk
      have hf : Fired now w (.handle k) w' := .handle ht hc hq
      exact .inr hf.handled
    · rcases hq.arm k with hi | hi
      · rw [hi, Worker.popTimer, Worker.arm_set rfl (Worker.lt_of_conn hc), if_neg hk]
        exact .inl rfl
      · exact .inr (by rw [Worker.scheduledAt, hi]; rfl)

theorem early_of (h : Fired now w f w') (he : w'.early now k = true) : w.early now k = true := by
  by_cases hf : f = .rearm k
  · subst hf
    exact h.rearmed.1
  · rcases h.arm_cases hf with hk | hk
    · unfold Worker.early at he ⊢
      rwa [hk] at he
    · obtain ⟨s, hs⟩ := Worker.scheduledAt_of_early he
      rw [hk] at hs
      cases hs

/-- Once a slot is scheduled for nothing, no turn schedules it. -/
theorem unscheduled (h : Fired now w f w') (hk : w.scheduledAt k = none) :
    f ≠ .rearm k ∧ w'.scheduledAt k = none := by
  have hf : f ≠ .rearm k := by
    rintro rfl
    obtain ⟨s, hs⟩ := Worker.scheduledAt_of_early h.rearmed.1
    rw [hk] at hs
    cases hs
  refine ⟨hf, ?_⟩
  rcases h.arm_cases hf with ha | ha
  · unfold Worker.scheduledAt at hk ⊢
    rwa [ha]
  · exact ha

theorem entriesOf (h : Fired now w f w') (hf : f ≠ .rearm k) :
    (w'.entriesOf k).Sublist (w.entriesOf k) := by
  unfold Worker.entriesOf
  cases h with
  | stale ht =>
    rw [ht]
    exact (List.sublist_cons_self _ _).filter _
  | rearm ht hn hc hs hd =>
    rename_i t i rest c
    have hik : i ≠ k := fun hik => hf (by rw [hik])
    rw [Worker.schedule_popTimer hc, ht]
    dsimp only
    split
    · rw [Heap.filter_orderedInsert (by simpa using hik)]
      exact (List.sublist_cons_self _ _).filter _
    · exact (List.sublist_cons_self _ _).filter _
  | handle ht hc hq =>
    rw [hq.timers, ht]
    exact (List.sublist_cons_self _ _).filter _

end Fired

/-- How many turns are left at most: one for each entry, and one more for each slot that is yet to be
scheduled again. -/
def Worker.turnsLeft (w : Worker P) (now : Instant) : ℕ :=
  w.timers.length + ((Finset.range w.slots.length).filter (fun k => w.early now k)).card

theorem Fired.turnsLeft_lt (h : Fired now w f w') : w'.turnsLeft now < w.turnsLeft now := by
  have hsub : (Finset.range w'.slots.length).filter (fun k => w'.early now k) ⊆
      (Finset.range w.slots.length).filter (fun k => w.early now k) := by
    rw [h.length_eq]
    exact Finset.monotone_filter_right _ (fun k _ he => h.early_of he)
  have hle := Finset.card_le_card hsub
  unfold Worker.turnsLeft
  cases h with
  | stale ht =>
    rw [ht, List.length_cons]
    exact Nat.add_lt_add_of_lt_of_le (Nat.lt_succ_self _) hle
  | rearm ht hn hc hs hd =>
    rename_i t i rest c
    have hr : Fired now w (.rearm i) _ := .rearm ht hn hc hs hd
    -- the heap keeps its length; the slot is early no more
    have hlt := Finset.card_lt_card (Finset.ssubset_iff_of_subset hsub |>.mpr ⟨i,
      Finset.mem_filter.mpr ⟨Finset.mem_range.mpr (Worker.lt_of_conn hc), hr.rearmed.1⟩,
      fun hi => by simp [hr.rearmed.2] at hi⟩)
    have hlen : ((w.popTimer rest i c).schedule i).timers.length ≤ w.timers.length := by
      rw [Worker.schedule_popTimer hc, ht]
      dsimp only
      split
      · rw [List.orderedInsert_length, List.length_cons]
      · exact Nat.le_succ _
    exact Nat.add_lt_add_of_le_of_lt hlen hlt
  | handle ht hc hq =>
    rw [hq.timers, ht, List.length_cons]
    exact Nat.add_lt_add_of_lt_of_le (Nat.lt_succ_self _) hle

/-! ### The loop -/

/-- Turns of `fire_timers`, each with the branch it takes. -/
inductive FireRun (now : Instant) : Worker P → List Firing → Worker P → Prop
  | nil (w : Worker P) : FireRun now w [] w
  | cons {w v w' : Worker P} {f : Firing} {fs : List Firing} : w.firing now = some f →
      fireTimersTurn now w = .ok true v → FireRun now v fs w' → FireRun now w (f :: fs) w'

theorem fired_of_firing {v : Worker P} (hf : w.firing now = some f)
    (hturn : fireTimersTurn now w = .ok true v) : Fired now w f v := by
  obtain ⟨f', hf', h⟩ := (fired_turn now w).ok hturn rfl
  rw [hf] at hf'
  obtain rfl := Option.some.inj hf'
  exact h

namespace FireRun

variable {fs gs : List Firing} {v u : Worker P}

theorem of_append (h : FireRun now w (fs ++ gs) v) : ∃ u, FireRun now w fs u ∧ FireRun now u gs v := by
  induction fs generalizing w with
  | nil => exact ⟨w, .nil w, h⟩
  | cons f fs ih =>
    cases h with
    | cons hf hturn hrest =>
      obtain ⟨u, hu, hv⟩ := ih hrest
      exact ⟨u, .cons hf hturn hu, hv⟩

theorem count_rearm (h : FireRun now w fs v) (i : ℕ) :
    fs.count (.rearm i) ≤ if w.early now i then 1 else 0 := by
  induction h with
  | nil w => exact Nat.zero_le _
  | cons hf hturn _ ih =>
    have hfired := fired_of_firing hf hturn
    rw [List.count_cons]
    split
    · rename_i hi
      obtain rfl := eq_of_beq hi
      obtain ⟨he, he'⟩ := hfired.rearmed
      simp only [he', Bool.false_eq_true, if_false] at ih
      simp only [he, if_true]
      omega
    · refine ih.trans ?_
      split
      · rename_i he
        rw [if_pos (hfired.early_of he)]
      · exact Nat.zero_le _

theorem unscheduled (h : FireRun now w fs v) (hi : w.scheduledAt i = none) :
    .rearm i ∉ fs ∧ v.scheduledAt i = none ∧ (v.entriesOf i).Sublist (w.entriesOf i) := by
  induction h with
  | nil w => exact ⟨by simp, hi, .refl _⟩
  | cons hf hturn _ ih =>
    have hfired := fired_of_firing hf hturn
    obtain ⟨hne, hnone⟩ := hfired.unscheduled hi
    obtain ⟨hmem, hsched, hsub⟩ := ih hnone
    refine ⟨?_, hsched, hsub.trans (hfired.entriesOf hne)⟩
    rw [List.mem_cons, not_or]
    exact ⟨Ne.symm hne, hmem⟩

end FireRun

/-- The loop of `fire_timers` ends, whatever is on the heap and in the slots: it runs for at most one
turn for each entry and each slot. A slot is scheduled again at most once for the entry it was
scheduled for, and not at all once its timeout is handled: from then on it is scheduled for nothing,
and the heap gets no entry for it. -/
theorem fireTimers_terminates (now : Instant) (w : Worker P) :
    Ends (turns (fireTimersTurn now) (w.timers.length + w.slots.length + 1)) w
      (fun more _ => more = false) (fun p _ => p ≠ .spin) ∧
    (∀ fs v, FireRun now w fs v → ∀ i, fs.count (.rearm i) ≤ (w.scheduledAt i).toList.length) ∧
    ∀ fs i v gs u, FireRun now w (fs ++ [.handle i]) v → FireRun now v gs u →
      .rearm i ∉ gs ∧ u.scheduledAt i = none ∧ (u.entriesOf i).Sublist (v.entriesOf i) := by
  refine ⟨ends_turns (μ := fun w => w.turnsLeft now) (fun w => ?_) ?_, ?_, ?_⟩
  · exact (fired_turn now w).mono (fun more w' h hmore => by
      obtain ⟨f, -, hf⟩ := h hmore
      exact hf.turnsLeft_lt)
  · have hle := Finset.card_filter_le (Finset.range w.slots.length) (fun k => w.early now k = true)
    rw [Finset.card_range] at hle
    unfold Worker.turnsLeft
    omega
  · intro fs v h i
    refine (h.count_rearm i).trans ?_
    split
    · rename_i he
      obtain ⟨s, hs⟩ := Worker.scheduledAt_of_early he
      rw [hs]
      exact le_rfl
    · exact Nat.zero_le _
  · intro fs i v gs u h h'
    obtain ⟨w₁, -, hlast⟩ := h.of_append
    cases hlast with
    | cons hf hturn hnil =>
      cases hnil
      exact h'.unscheduled (fired_of_firing hf hturn).handled

/-- The platform with a script, where every QUIC connection wants to be woken at 7. -/
def loopbackAtSeven : Platform := { loopback with timeoutInstant := fun _ => some 7 }

/-- A connection whose entry at 5 comes up before its deadline, among entries that are stale. -/
def crowded : Worker loopbackAtSeven :=
  { Worker.new loopbackConfig ({} : Script) 0 with
    timers := [(3, 4), (5, 0), (6, 0), (7, 0)]
    slots := [some {
      sock := 3
      q := Peer.established
      localAddr := ⟨true, "10.0.0.1:40000"⟩
      peer := ⟨true, "10.0.0.2:3000"⟩
      state := .ready
      dial := none
      attemptDeadline := none
      deadline := some 20
      scheduled := some 5
      lastActive := 0
      uid := 0 }] }

theorem fireTimers_terminates_crowded : ∃ v u : Worker loopbackAtSeven,
    FireRun 10 crowded ([.stale, .rearm 0, .stale] ++ [.handle 0]) v ∧ FireRun 10 v [.stale] u ∧
    Ends (turns (fireTimersTurn 10) 6) crowded (fun more _ => more = false) (fun p _ => p ≠ .spin) ∧
    [Firing.stale, .rearm 0, .stale, .handle 0].count (.rearm 0) ≤ 1 ∧ u.scheduledAt 0 = none ∧
    (u.entriesOf 0).Sublist (v.entriesOf 0) := by
  obtain ⟨v, hv⟩ : ∃ v, FireRun 10 crowded ([.stale, .rearm 0, .stale] ++ [.handle 0]) v ∧
      ∃ u, FireRun 10 v [.stale] u :=
    ⟨_, .cons rfl rfl (.cons rfl rfl (.cons rfl rfl (.cons rfl rfl (.nil _)))),
      _, .cons rfl rfl (.nil _)⟩
  obtain ⟨hv, u, hu⟩ := hv
  obtain ⟨hends, hcount, hafter⟩ := fireTimers_terminates 10 crowded
  obtain ⟨-, hsched, hsub⟩ := hafter _ 0 v _ u hv hu
  exact ⟨v, u, hv, hu, hends, hcount _ v hv 0, hsched, hsub⟩

end Http3Bench
