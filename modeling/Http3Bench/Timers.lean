import Http3Bench.Gets
import Http3Bench.Lib.Heap

/-!
# The timers of a worker

The heap of timers is lazy: `schedule` leaves an earlier entry in place, a connection that leaves its
slot leaves its entries behind, and a deadline is computed anew only when the connection is flushed.
What makes the next wakeup early enough is an invariant of the connections. One that is not broken has
a timer that is early enough for all it waits for, unless it is marked dirty or the agenda has a task
that will flush it, read it or give it up.
-/

namespace Http3Bench

variable {P : Platform}

/-! ### The queues -/

theorem earlier_le_left {t x : Option Instant} {a : Instant} (h : t = some a) :
    ∃ m, earlier t x = some m ∧ m ≤ a := by
  subst h
  cases x with
  | none => exact ⟨a, rfl, le_rfl⟩
  | some b => exact ⟨min b a, rfl, min_le_right _ _⟩

theorem earlier_le_right {t x : Option Instant} {b : Instant} (h : x = some b) :
    ∃ m, earlier t x = some m ∧ m ≤ b := by
  subst h
  cases t with
  | none => exact ⟨b, rfl, le_rfl⟩
  | some a => exact ⟨min b a, rfl, min_le_left _ _⟩

/-- The heap is in order, and so are the retries: each is due one interval after it was put there. -/
structure Worker.Queues (w : Worker P) : Prop where
  timers : w.timers.Pairwise Timer.le
  retries : w.retries.Pairwise (fun a b => a.1 ≤ b.1)
  due : ∀ r ∈ w.retries, r.1 ≤ w.clock + w.cfg.dialRetryInterval

variable {w w' : Worker P} {x x' : Mach P} {ins outs : Multiset Op}

theorem Worker.Queues.of_timers (h : w.Queues) (ht : w'.timers.Pairwise Timer.le)
    (hr : w'.retries = w.retries) (hc : w.clock ≤ w'.clock) (hcfg : w'.cfg = w.cfg) : w'.Queues where
  timers := ht
  retries := hr ▸ h.retries
  due := by
    rw [hr, hcfg]
    exact fun r hm => (h.due r hm).trans (Nat.add_le_add_right hc _)

theorem Worker.Queues.of_eq (h : w.Queues) (ht : w'.timers = w.timers) (hr : w'.retries = w.retries)
    (hc : w.clock ≤ w'.clock) (hcfg : w'.cfg = w.cfg) : w'.Queues :=
  h.of_timers (ht ▸ h.timers) hr hc hcfg

theorem Worker.Queues.pop {t : Timer} {rest : List Timer} (h : w.Queues) (ht : w.timers = t :: rest) :
    rest.Pairwise Timer.le := by
  have hs := h.timers
  rw [ht] at hs
  exact hs.of_cons

theorem Worker.Queues.retry (h : w.Queues) (j : DialJob) : (w.retry w.clock j).Queues where
  timers := h.timers
  retries := by
    refine List.pairwise_append.mpr ⟨h.retries, List.pairwise_singleton _ _, fun a ha b hb => ?_⟩
    rw [List.mem_singleton.mp hb]
    exact h.due a ha
  due := fun r hr => by
    rcases List.mem_append.mp hr with hr | hr
    · exact h.due r hr
    · rw [List.mem_singleton.mp hr]
      exact le_rfl

theorem Worker.Queues.retryDue {r : Instant × DialJob} {rest : List (Instant × DialJob)} (h : w.Queues)
    (hr : w.retries = r :: rest) : ({ w with retries := rest } : Worker P).Queues where
  timers := h.timers
  retries := by
    have hs := h.retries
    rw [hr] at hs
    exact hs.of_cons
  due := fun r' hr' => h.due r' (hr ▸ List.mem_cons_of_mem _ hr')

theorem Move.queues (m : Move x ins outs x') (h : x.w.Queues) : x'.w.Queues := by
  cases m with
  | clock o t => exact h.of_eq rfl rfl (Nat.le_add_right _ _) rfl
  | send hc =>
    rw [Worker.afterSend_eq]
    exact h.of_eq rfl rfl le_rfl rfl
  | retry ha => exact h.retry _
  | retryDue hr => exact h.retryDue hr
  | registerFailed o =>
    refine h.of_eq ?_ ?_ ?_ ?_ <;> simp [Worker.wait]
  | seated o₁ o₂ t =>
    refine h.of_eq ?_ ?_ ?_ ?_ <;> simp [Worker.install, Worker.put, Worker.wait]
  | flushed r as o t hc =>
    rw [Worker.flushed_eq (by exact Worker.lt_of_conn hc)]
    refine h.of_timers ?_ rfl (Nat.le_add_right _ _) rfl
    dsimp only
    split
    · exact Heap.pairwise_orderedInsert (r := Timer.le) rfl h.timers _
    · exact h.timers
  | received o t hc => exact h.of_eq rfl rfl (Nat.le_add_right _ _) rfl
  | timerStale ht => exact h.of_timers (h.pop ht) rfl le_rfl rfl
  | timerRearmed ht hc =>
    rw [Worker.schedule_eq (Worker.conn_set rfl (Worker.lt_of_conn hc) _ |>.trans (if_pos rfl))]
    refine h.of_timers ?_ rfl le_rfl rfl
    dsimp only
    split
    · exact Heap.pairwise_orderedInsert (r := Timer.le) rfl (h.pop ht) _
    · exact h.pop ht
  | timerDown ht => exact h.of_timers (h.pop ht) rfl le_rfl rfl
  | timerFired ht => exact h.of_timers (h.pop ht) rfl le_rfl rfl
  | startRate o t => exact h.of_eq rfl rfl (Nat.le_add_right _ _) rfl
  | _ => exact h.of_eq rfl rfl le_rfl rfl

theorem kept_queues : Kept (fun _ => True) (fun x : Mach P => x.w.Queues) where
  new := fun _ _ _ => ⟨.nil, .nil, by simp [Worker.new]⟩
  move := fun m _ _ h => m.queues h
  interfere := fun _ _ h => h.of_eq rfl rfl le_rfl rfl
  command := fun _ _ _ _ _ h => h.of_eq rfl rfl le_rfl rfl

/-! ### The timers of a connection -/

/-- The connection has a timer no later than `d`. -/
def Conn.Covers (c : Conn P) (d : Option Instant) : Prop :=
  ∀ t, d = some t → ∃ s, c.scheduled = some s ∧ s ≤ t

/-- Its timer is early enough for all it waits for. -/
structure Conn.Armed (c : Conn P) : Prop where
  timeout : c.Covers (P.timeoutInstant c.q)
  attempt : c.Covers c.attemptDeadline
  deadline : c.Covers c.deadline

theorem Conn.covers_rearm (c : Conn P) {d : Instant} (h : c.timeout = some d) :
    ∃ s, c.rearm.scheduled = some s ∧ s ≤ d := by
  unfold Conn.rearm
  by_cases hn : c.needsTimer
  · exact ⟨d, by simp [hn, h], le_rfl⟩
  · simp only [hn, Bool.false_eq_true, if_false]
    cases hs : c.scheduled with
    | none => simp [Conn.needsTimer, h, hs] at hn
    | some s =>
      simp only [Conn.needsTimer, h, hs, Option.any_some, Option.all_some, decide_eq_true_eq,
        not_lt] at hn
      exact ⟨s, rfl, hn⟩

theorem Conn.armed_rearm (c : Conn P) : c.rearm.Armed where
  timeout := fun t ht => by
    obtain ⟨m, hm, hle⟩ := earlier_le_left (x := c.attemptDeadline) ht
    obtain ⟨s, hs, hsle⟩ := c.covers_rearm hm
    exact ⟨s, hs, hsle.trans hle⟩
  attempt := fun t ht => by
    obtain ⟨m, hm, hle⟩ := earlier_le_right (t := P.timeoutInstant c.q) ht
    obtain ⟨s, hs, hsle⟩ := c.covers_rearm hm
    exact ⟨s, hs, hsle.trans hle⟩
  deadline := fun t ht => c.covers_rearm ht

/-- The slot whose connection the task will flush, read or give up. -/
def Task.spares : Task → Option ℕ
  | .flush i | .read i | .down i _ => some i
  | _ => none

/-- The connection `c` in slot `i` will be looked after by the agenda. -/
def Spared (todo : List Task) (i : ℕ) (c : Conn P) : Prop :=
  .flush i ∈ todo ∨ .read i ∈ todo ∨ (c.state = .connecting ∧ ∃ err, .down i err ∈ todo)

structure Timed (x : Mach P) : Prop where
  heap : ∀ {i c s}, x.w.conn i = some c → c.scheduled = some s → (s, i) ∈ x.w.timers
  listed : ∀ {i c}, x.w.conn i = some c → c.dirty = true → i ∈ x.w.dirty ∨ .flush i ∈ x.todo
  armed : ∀ {i c}, x.w.conn i = some c → c.state ≠ .broken → c.dirty = false →
    Spared x.todo i c ∨ c.Armed

/-- The tasks of `todo` that look after a slot other than `i` are in `todo'`. -/
def Keeps (i : Option ℕ) (todo todo' : List Task) : Prop :=
  ∀ t ∈ todo, ∀ k, t.spares = some k → some k ≠ i → t ∈ todo'

theorem Spared.keeps {i : Option ℕ} {todo todo' : List Task} {k : ℕ} {c : Conn P}
    (h : Spared todo k c) (hk : Keeps i todo todo') (hne : some k ≠ i) : Spared todo' k c := by
  rcases h with h | h | ⟨hs, err, h⟩
  · exact .inl (hk _ h k rfl hne)
  · exact .inr (.inl (hk _ h k rfl hne))
  · exact .inr (.inr ⟨hs, err, hk _ h k rfl hne⟩)

/-- The top of the agenda is replaced; it looked after nothing, or after slot `i`. -/
theorem Keeps.cons {i : Option ℕ} {t : Task} {st : List Task} (l : List Task)
    (ht : t.spares = none ∨ t.spares = i) : Keeps i (t :: st) (l ++ st) := by
  intro t' hm k hk hne
  rcases List.mem_cons.mp hm with rfl | hm
  · rw [hk] at ht
    exact absurd ht (by simp [hne])
  · exact List.mem_append_right _ hm

theorem Keeps.refl (i : Option ℕ) (todo : List Task) : Keeps i todo todo := fun _ h _ _ _ => h

theorem Keeps.nil (i : Option ℕ) (todo : List Task) : Keeps i [] todo := by simp [Keeps]

/-- The connections stay as they are. -/
theorem Timed.same (h : Timed x) (hs : x'.w.slots = x.w.slots) (ht : x'.w.timers = x.w.timers)
    (hd : x'.w.dirty = x.w.dirty) (hk : Keeps none x.todo x'.todo) : Timed x' where
  heap := fun hc hsch => ht ▸ h.heap (Worker.conn_of_slots_eq hs _ ▸ hc) hsch
  listed := fun hc hdirty => by
    rw [Worker.conn_of_slots_eq hs] at hc
    rw [hd]
    exact (h.listed hc hdirty).imp_right (fun hm => hk _ hm _ rfl (by simp))
  armed := fun hc hst hdirty => by
    rw [Worker.conn_of_slots_eq hs] at hc
    exact (h.armed hc hst hdirty).imp_left (fun hsp => hsp.keeps hk (by simp))

/-- What slot `i` holds is replaced. -/
theorem Timed.set {i : ℕ} {s : Option (Conn P)} (h : Timed x) (hi : i < x.w.slots.length)
    (hs : x'.w.slots = x.w.slots.set i s)
    (ht : ∀ t k, k ≠ i → (t, k) ∈ x.w.timers → (t, k) ∈ x'.w.timers)
    (hd : ∀ k, k ≠ i → k ∈ x.w.dirty → k ∈ x'.w.dirty) (hk : Keeps (some i) x.todo x'.todo)
    (hi' : ∀ c, s = some c → (∀ t, c.scheduled = some t → (t, i) ∈ x'.w.timers) ∧
      (c.dirty = true → i ∈ x'.w.dirty ∨ .flush i ∈ x'.todo) ∧
      (c.state ≠ .broken → c.dirty = false → Spared x'.todo i c ∨ c.Armed)) : Timed x' where
  heap := fun {k c t} hc hsch => by
    rw [Worker.conn_set hs hi] at hc
    split at hc
    · rename_i hki
      rw [hki]
      exact (hi' c hc).1 t hsch
    · exact ht t k ‹_› (h.heap hc hsch)
  listed := fun {k c} hc hdirty => by
    rw [Worker.conn_set hs hi] at hc
    split at hc
    · rename_i hki
      rw [hki]
      exact (hi' c hc).2.1 hdirty
    · rename_i hne
      refine (h.listed hc hdirty).imp (hd k hne) (fun hm => hk _ hm k rfl (by simpa using hne))
  armed := fun {k c} hc hst hdirty => by
    rw [Worker.conn_set hs hi] at hc
    split at hc
    · rename_i hki
      rw [hki]
      exact (hi' c hc).2.2 hst hdirty
    · rename_i hne
      exact (h.armed hc hst hdirty).imp_left (fun hsp => hsp.keeps hk (by simpa using hne))

section

variable {i : ℕ} {c c' : Conn P}

/-- The connection in slot `i` changes in nothing its timer is for. -/
theorem Timed.touch (h : Timed x) (hc : x.w.conn i = some c)
    (hs : x'.w.slots = x.w.slots.set i (some c')) (ht : x'.w.timers = x.w.timers)
    (hd : x'.w.dirty = x.w.dirty) (hk : Keeps none x.todo x'.todo) (hst : c'.state = c.state)
    (hsch : c'.scheduled = c.scheduled) (hdirty : c'.dirty = c.dirty) (ha : c.Armed → c'.Armed) :
    Timed x' := by
  refine h.set (Worker.lt_of_conn hc) hs (fun _ _ _ hm => ht ▸ hm) (fun _ _ hm => hd ▸ hm)
    (fun t hm k hk' _ => hk t hm k hk' (by simp)) (fun c'' heq => ?_)
  obtain rfl := Option.some.inj heq
  refine ⟨fun t htm => ht ▸ h.heap hc (hsch ▸ htm), fun hdt => ?_, fun hst' hdt => ?_⟩
  · rw [hd]
    exact (h.listed hc (hdirty ▸ hdt)).imp_right (fun hm => hk _ hm i rfl (by simp))
  · rcases h.armed hc (hst ▸ hst') (hdirty ▸ hdt) with hsp | harm
    · refine .inl ?_
      have hsp' := hsp.keeps hk (by simp)
      unfold Spared at hsp' ⊢
      rwa [hst]
    · exact .inr (ha harm)

/-- It is marked dirty. -/
theorem Timed.marked (h : Timed x) (hc : x.w.conn i = some c)
    (hs : x'.w.slots = x.w.slots.set i (some { c' with dirty := true }))
    (ht : ∀ t k, k ≠ i → (t, k) ∈ x.w.timers → (t, k) ∈ x'.w.timers)
    (hd : x'.w.dirty = if c'.dirty then x.w.dirty else i :: x.w.dirty)
    (hk : Keeps (some i) x.todo x'.todo) (hf : .flush i ∈ x.todo → .flush i ∈ x'.todo)
    (hsch : ∀ t, c'.scheduled = some t → (t, i) ∈ x'.w.timers) (hdirty : c'.dirty = c.dirty) :
    Timed x' := by
  refine h.set (Worker.lt_of_conn hc) hs ht (fun k hne hm => ?_) hk (fun c'' heq => ?_)
  · rw [hd]
    split
    · exact hm
    · exact List.mem_cons_of_mem _ hm
  · obtain rfl := Option.some.inj heq
    refine ⟨hsch, fun _ => ?_, fun _ hno => (by cases hno)⟩
    rw [hd]
    split
    · rename_i hdt
      exact (h.listed hc (hdirty ▸ hdt)).imp_right hf
    · exact .inl List.mem_cons_self

/-- Its timer is set anew, with `timers` the heap before. -/
theorem Timed.rearmed {timers : List Timer} (h : Timed x) (hc : x.w.conn i = some c)
    (hs : x'.w.slots = x.w.slots.set i (some c'.rearm))
    (ht : x'.w.timers = if c'.needsTimer then timers.orderedInsert Timer.le (c'.timeout.getD 0, i)
      else timers)
    (hothers : ∀ t k, k ≠ i → (t, k) ∈ x.w.timers → (t, k) ∈ timers)
    (hd : x'.w.dirty = x.w.dirty) (hk : Keeps (some i) x.todo x'.todo)
    (hsch : ∀ t, c'.scheduled = some t → (t, i) ∈ timers)
    (hdirty : c'.dirty = true → i ∈ x'.w.dirty ∨ .flush i ∈ x'.todo) : Timed x' := by
  have hsub : ∀ y ∈ timers, y ∈ x'.w.timers := by
    intro y hy
    rw [ht]
    split
    · exact (List.mem_orderedInsert ..).mpr (.inr hy)
    · exact hy
  refine h.set (Worker.lt_of_conn hc) hs (fun t k hne hm => hsub _ (hothers t k hne hm))
    (fun _ _ hm => hd ▸ hm) hk (fun c'' heq => ?_)
  obtain rfl := Option.some.inj heq
  refine ⟨fun t hrearm => ?_, hdirty, fun _ _ => .inr c'.armed_rearm⟩
  unfold Conn.rearm at hrearm
  by_cases hn : c'.needsTimer
  · simp only [hn, if_true] at hrearm
    rw [ht, if_pos hn, hrearm]
    exact (List.mem_orderedInsert ..).mpr (.inl rfl)
  · simp only [hn, Bool.false_eq_true, if_false] at hrearm
    exact hsub _ (hsch t hrearm)

end

theorem Keeps.push {t : Task} {st : List Task} (ht : t.spares = none) (l : List Task) :
    Keeps none (t :: st) (l ++ st) := .cons l (.inl ht)

/-- Slots taken for a dial: none of the others changes. -/
theorem Timed.takeSlot {w : Worker P} {st : List Task} {slot : Option ℕ} (h : Timed ⟨w, st⟩)
    (hlt : ∀ i, slot = some i → i < w.slots.length) : Timed ⟨(w.takeSlot slot).2, st⟩ where
  heap := fun hc hsch => by
    rw [Worker.timers_takeSlot]
    exact h.heap (Worker.conn_of_takeSlot hlt hc) hsch
  listed := fun hc hdirty => by
    rw [Worker.dirty_takeSlot]
    exact h.listed (Worker.conn_of_takeSlot hlt hc) hdirty
  armed := fun hc => h.armed (Worker.conn_of_takeSlot hlt hc)

/-- What `try_send` leaves of a connection that it does not mark dirty. -/
theorem TrySend.armed (hq : KeepsTimeout P) {headers : List Header} {kind : ReqKind} {body : Body}
    {c : Conn P} {s : Sent P} (hs : TrySend headers kind body c s) (hd : s.dirty = false)
    (h : c.Armed) : s.conn.Armed := by
  cases hs with
  | noH3 => exact h
  | @blocked h₁ h' q' e hh hsend hb =>
    have hkeep := hq headers body.isEmpty h₁ c.q e (by rw [hsend]) hb
    rw [hsend] at hkeep
    exact ⟨fun t ht => h.timeout t (hkeep ▸ ht), h.attempt, h.deadline⟩
  | refused => cases hd
  | bodyRefused => cases hd
  | sent => cases hd

theorem Timed.send (hq : KeepsTimeout P) {w : Worker P} {st : List Task} {i : ℕ} {kind : ReqKind}
    {body : Body} {c : Conn P} (h : Timed ⟨w, .request i kind body :: st⟩) (hc : w.conn i = some c) :
    Timed ⟨w.afterSend i kind c (c.trySend (w.headersFor kind) kind body),
      sendTasks i kind body (c.trySend (w.headersFor kind) kind body).result ++ st⟩ := by
  have hs := trySend_cases (w.headersFor kind) kind body c
  have hf := hs.frame
  rw [Worker.afterSend_eq]
  have hk : ∀ l, Keeps none (.request i kind body :: st) (l ++ st) := Keeps.push rfl
  cases hd : (c.trySend (w.headersFor kind) kind body).dirty with
  | false =>
    have hleft : (c.trySend (w.headersFor kind) kind body).left =
        (c.trySend (w.headersFor kind) kind body).conn := by simp [Sent.left, hd]
    rw [hleft]
    exact h.touch hc rfl rfl (by simp) (hk _) hf.state hf.scheduled hf.dirty (hs.armed hq hd)
  | true =>
    have hleft : (c.trySend (w.headersFor kind) kind body).left =
        { (c.trySend (w.headersFor kind) kind body).conn with dirty := true } := by simp [Sent.left, hd]
    rw [hleft]
    refine h.marked hc rfl (fun _ _ _ hm => hm) ?_ (.cons _ (.inl rfl)) (fun hm => ?_) ?_ hf.dirty
    · cases (c.trySend (w.headersFor kind) kind body).conn.dirty <;> simp
    · exact List.mem_append_right _ (by simpa using hm)
    · exact fun t ht => h.heap hc (hf.scheduled ▸ ht)

theorem Timed.rateResponse {w : Worker P} {st st' : List Task} {i : ℕ} {r : Except String ℕ}
    {cause : Cause} (h : Timed ⟨w, st⟩) (hk : Keeps none st st') :
    Timed ⟨w.rateResponse i (w.conn i) r cause, st'⟩ := by
  unfold Worker.rateResponse
  cases hc : w.conn i with
  | none => exact h.same rfl rfl rfl hk
  | some c =>
    exact h.touch hc rfl rfl rfl hk rfl rfl rfl (fun ha => ⟨ha.timeout, ha.attempt, ha.deadline⟩)

/-- A connection that comes up: no attempt to give it up is under way. -/
theorem Timed.up {w : Worker P} {st l : List Task} {i : ℕ} {c : Conn P} {v : Worker P}
    (h : Timed ⟨w, .up i :: st⟩) (hg : Gets ⟨w, .up i :: st⟩) (hc : w.conn i = some c)
    (hd : c.dial.isSome) (hw : w.Sound) (hs : v.slots = w.slots.set i (some c.up))
    (ht : v.timers = w.timers) (hdirty : v.dirty = w.dirty) : Timed ⟨v, l ++ st⟩ := by
  have hconn : c.state = .connecting := (hw.conns hc).dial.mpr hd
  have hno : ∀ err, .down i err ∉ st := by
    intro err hm
    have hz := hg.down i ⟨_, List.mem_cons_of_mem _ hm, by simp [Task.downs]⟩
    simp [taskGets_cons, Task.opening] at hz
  refine h.set (Worker.lt_of_conn hc) hs (fun _ _ _ hm => ht ▸ hm) (fun _ _ hm => hdirty ▸ hm)
    (.cons _ (.inl rfl)) (fun c' heq => ?_)
  obtain rfl := Option.some.inj heq
  refine ⟨fun t hsch => ht ▸ h.heap hc hsch, fun hdt => ?_, fun _ hdt => ?_⟩
  · rw [hdirty]
    exact (h.listed hc hdt).imp_right (fun hm => List.mem_append_right _ (by simpa using hm))
  · rcases h.armed hc (by simp [hconn]) hdt with hsp | ha
    · rcases hsp with hm | hm | ⟨_, err, hm⟩
      · exact .inl (.inl (List.mem_append_right _ (by simpa using hm)))
      · exact .inl (.inr (.inl (List.mem_append_right _ (by simpa using hm))))
      · exact absurd (by simpa using hm) (hno err)
    · exact .inr ⟨ha.timeout, (fun _ ht => (by cases ht)), ha.deadline⟩

/-- The dial of a connection is given up: it is broken, or gone. -/
theorem Timed.down {w : Worker P} {st l : List Task} {i : ℕ} {err : String} {c : Conn P} {v : Worker P}
    {s : Option (Conn P)} (h : Timed ⟨w, .down i err :: st⟩) (hc : w.conn i = some c)
    (hs : v.slots = w.slots.set i s) (ht : v.timers = w.timers) (hdirty : v.dirty = w.dirty)
    (hbroke : ∀ c', s = some c' → c' = c.broke) : Timed ⟨v, l ++ st⟩ := by
  refine h.set (Worker.lt_of_conn hc) hs (fun _ _ _ hm => ht ▸ hm) (fun _ _ hm => hdirty ▸ hm)
    (.cons _ (.inr rfl)) (fun c' heq => ?_)
  rw [hbroke c' heq]
  refine ⟨fun t hsch => ht ▸ h.heap hc hsch, fun hdt => ?_, fun hno => absurd rfl hno⟩
  rw [hdirty]
  exact (h.listed hc hdt).imp_right (fun hm => List.mem_append_right _ (by simpa using hm))

theorem Timed.downNone {w : Worker P} {st : List Task} {i : ℕ} {err : String}
    (h : Timed ⟨w, .down i err :: st⟩) (hw : w.Sound) (hd : ∀ c, w.conn i = some c → c.dial = none) :
    Timed ⟨w, st⟩ where
  heap := h.heap
  listed := fun hc hdirty => (h.listed hc hdirty).imp_right (fun hm => by simpa using hm)
  armed := fun {k c} hc hst hdirty => by
    refine (h.armed hc hst hdirty).imp_left (fun hsp => ?_)
    rcases hsp with hm | hm | ⟨hconn, e, hm⟩
    · exact .inl (by simpa using hm)
    · exact .inr (.inl (by simpa using hm))
    · refine .inr (.inr ⟨hconn, e, ?_⟩)
      rcases List.mem_cons.mp hm with heq | hm
      · obtain ⟨rfl, rfl⟩ := Task.down.inj heq
        have hsome := (hw.conns hc).dial.mp hconn
        rw [hd c hc] at hsome
        cases hsome
      · exact hm

theorem Timed.resetInFlight {w v : Worker P} (h : Timed ⟨w, []⟩)
    (hs : v.slots = w.slots.map (Option.map Conn.resetInFlight)) (ht : v.timers = w.timers)
    (hdirty : v.dirty = w.dirty) : Timed ⟨v, []⟩ := by
  have old : ∀ {i : ℕ} {c : Conn P}, v.conn i = some c → ∃ c₀, w.conn i = some c₀ ∧
      c.scheduled = c₀.scheduled ∧ c.dirty = c₀.dirty ∧ c.state = c₀.state ∧ (c₀.Armed → c.Armed) := by
    intro i c hc
    rw [Worker.conn_map hs] at hc
    obtain ⟨c₀, hc₀, rfl⟩ := Option.map_eq_some_iff.mp hc
    refine ⟨c₀, hc₀, ?_⟩
    unfold Conn.resetInFlight
    split
    · exact ⟨rfl, rfl, rfl, fun ha => ⟨ha.timeout, ha.attempt, ha.deadline⟩⟩
    · exact ⟨rfl, rfl, rfl, id⟩
  refine ⟨fun hc hsch => ?_, fun hc hd => ?_, fun hc hst hd => ?_⟩
  · obtain ⟨c₀, hc₀, hs₀, _⟩ := old hc
    exact ht ▸ h.heap hc₀ (hs₀ ▸ hsch)
  · obtain ⟨c₀, hc₀, _, hd₀, _⟩ := old hc
    rw [hdirty]
    exact h.listed hc₀ (hd₀ ▸ hd)
  · obtain ⟨c₀, hc₀, _, hd₀, hst₀, ha₀⟩ := old hc
    rcases h.armed hc₀ (hst₀ ▸ hst) (hd₀ ▸ hd) with hsp | ha
    · exact absurd hsp (by simp [Spared])
    · exact .inr (ha₀ ha)

/-- The timer at the top of the heap belongs to slot `i`. -/
theorem Worker.timers_pop {w : Worker P} {t : Instant} {i : ℕ} {rest : List Timer}
    (ht : w.timers = (t, i) :: rest) {s : Instant} {k : ℕ} (hne : k ≠ i) (hm : (s, k) ∈ w.timers) :
    (s, k) ∈ rest := by
  rw [ht, List.mem_cons] at hm
  exact hm.resolve_left (fun heq => hne (congrArg Prod.snd heq))

theorem Timed.stale {w : Worker P} {t : Instant} {i : ℕ} {rest : List Timer} (h : Timed ⟨w, []⟩)
    (ht : w.timers = (t, i) :: rest) (hs : ∀ c, w.conn i = some c → c.scheduled ≠ some t) :
    Timed ⟨{ w with timers := rest }, []⟩ where
  heap := fun {k c s} hc hsch => by
    have hm := h.heap hc hsch
    rw [show (⟨w, []⟩ : Mach P).w.timers = _ from ht, List.mem_cons] at hm
    refine hm.resolve_left (fun heq => ?_)
    obtain ⟨rfl, rfl⟩ := Prod.mk.inj heq
    exact hs c hc hsch
  listed := h.listed
  armed := h.armed

/-- The task at the top was for a slot that is empty. -/
theorem Timed.gone {w : Worker P} {t : Task} {st : List Task} {i : ℕ} (h : Timed ⟨w, t :: st⟩)
    (ht : t.spares = some i) (hc : w.conn i = none) : Timed ⟨w, st⟩ := by
  have hk : Keeps (some i) (t :: st) st := .cons [] (.inr ht)
  have hne : ∀ {k : ℕ} {c : Conn P}, w.conn k = some c → some k ≠ some i := by
    intro k c hc' heq
    rw [Option.some.inj heq] at hc'
    cases hc.symm.trans hc'
  refine ⟨h.heap, fun hc' hd => ?_, fun hc' hst hd => ?_⟩
  · exact (h.listed hc' hd).imp_right (fun hm => hk _ hm _ rfl (hne hc'))
  · exact (h.armed hc' hst hd).imp_left (fun hsp => hsp.keeps hk (hne hc'))

theorem Conn.sentAt_timer (c : Conn P) (answers : List SockSend) (now : Instant) :
    (Conn.sentAt (({ c with dirty := false } : Conn P).sendLoop false answers) now).scheduled =
        c.scheduled ∧
      (Conn.sentAt (({ c with dirty := false } : Conn P).sendLoop false answers) now).dirty = false := by
  obtain ⟨q, e, heq, -⟩ := Conn.sendLoop_cases { c with dirty := false } false answers
  unfold Conn.sentAt
  rw [heq]
  split <;> exact ⟨rfl, rfl⟩

/-- A connection is put in the slot taken for it, to be flushed at once. -/
theorem Timed.seat {w v : Worker P} {st : List Task} {j : DialJob} (h : Timed ⟨w, .dialing j :: st⟩)
    (d : Dialed P) (timeout : Duration) (now : Instant) (uid : ℕ)
    (hlt : ∀ i, j.slot = some i → i < w.slots.length)
    (hidx : (w.takeSlot j.slot).1 < (w.takeSlot j.slot).2.slots.length)
    (hs : v.slots = (w.takeSlot j.slot).2.slots.set (w.takeSlot j.slot).1
      (some (d.conn (w.takeSlot j.slot).1 j timeout now uid)))
    (ht : v.timers = w.timers) (hd : v.dirty = w.dirty) :
    Timed ⟨v, .flush (w.takeSlot j.slot).1 :: st⟩ := by
  refine (h.takeSlot hlt).set hidx hs (fun _ _ _ hm => ?_) (fun _ _ hm => ?_) (.cons [_] (.inl rfl))
    (fun c heq => ?_)
  · rw [Worker.timers_takeSlot] at hm
    exact ht ▸ hm
  · rw [Worker.dirty_takeSlot] at hm
    exact hd ▸ hm
  · obtain rfl := Option.some.inj heq
    exact ⟨(fun _ hno => (by cases hno)), (fun hno => (by cases hno)),
      fun _ _ => .inl (.inl List.mem_cons_self)⟩

theorem Move.timed (hq : KeepsTimeout P) (m : Move x ins outs x') (hx : Regular x) (hg : Gets x)
    (h : Timed x) : Timed x' := by
  have same : ∀ {c c' : Conn P}, c'.q = c.q → c'.attemptDeadline = c.attemptDeadline →
      c'.deadline = c.deadline → c'.scheduled = c.scheduled → c.Armed → c'.Armed := by
    intro c c' h₁ h₂ h₃ h₄ ha
    refine ⟨fun t ht => ?_, fun t ht => ?_, fun t ht => ?_⟩
    · exact h₄ ▸ ha.timeout t (h₁ ▸ ht)
    · exact h₄ ▸ ha.attempt t (h₂ ▸ ht)
    · exact h₄ ▸ ha.deadline t (h₃ ▸ ht)
  cases m with
  | enqueue hc =>
    exact h.touch hc rfl rfl rfl (.push rfl []) rfl rfl rfl (same rfl rfl rfl rfl)
  | requeue hc =>
    exact h.touch hc rfl rfl rfl (.push rfl []) rfl rfl rfl (same rfl rfl rfl rfl)
  | dequeue hc =>
    exact h.touch hc rfl rfl rfl (.push rfl [_, _]) rfl rfl rfl (same rfl rfl rfl rfl)
  | send hc => exact h.send hq hc
  | event => exact h.same rfl rfl rfl (.push rfl _)
  | rateEvent => exact h.rateResponse (.push rfl [])
  | closedReady hc hst =>
    refine h.set (Worker.lt_of_conn hc) rfl (fun _ _ _ hm => hm) (fun _ _ hm => hm)
      (.cons [] (.inl rfl)) (fun c' heq => ?_)
    obtain rfl := Option.some.inj heq
    refine ⟨fun t hsch => h.heap hc hsch, fun hdt => ?_, fun hno => absurd rfl hno⟩
    exact (h.listed hc hdt).imp_right (fun hm => by simpa using hm)
  | closedOther => exact h.same rfl rfl rfl (.push rfl _)
  | upNew hc hd hj => exact h.up (l := [_]) hg hc (by simp [hd]) hx.sound rfl rfl rfl
  | upEcho hc hd hj => exact h.up (l := [_]) hg hc (by simp [hd]) hx.sound rfl rfl rfl
  | upEchoLate hc hd hj => exact h.up (l := []) hg hc (by simp [hd]) hx.sound rfl rfl rfl
  | upRate hc hd hj => exact h.up (l := [_]) hg hc (by simp [hd]) hx.sound rfl rfl rfl
  | downNone hd => exact h.downNone hx.sound hd
  | downNew hc hd => exact h.down (l := [_]) hc rfl rfl rfl (by simp)
  | downRedial hc hd =>
    exact h.down (l := [_]) hc rfl rfl rfl (fun c' heq => (Option.some.inj heq).symm)
  | registerFailed o hlt =>
    refine (h.takeSlot hlt).same ?_ ?_ ?_ (.push rfl [_]) <;> simp only [Worker.wait]
  | @seated w st j d o₁ o₂ t hlt hidx =>
    refine h.seat d w.cfg.dialTimeout (((w.takeSlot j.slot).2.wait o₁ 0).clock + t) w.serial hlt hidx
      ?_ ?_ ?_
    · simp only [Worker.install, Worker.put, Worker.wait, Worker.cfg_takeSlot, Worker.serial_takeSlot]
    · simp only [Worker.install, Worker.put, Worker.wait, Worker.timers_takeSlot]
    · simp only [Worker.install, Worker.put, Worker.wait, Worker.dirty_takeSlot]
  | flushPop hd =>
    refine ⟨h.heap, fun hc hdirty => ?_, fun hc hst hdirty => ?_⟩
    · have hm := (h.listed hc hdirty).resolve_right (by simp)
      rw [show (⟨_, []⟩ : Mach P).w.dirty = _ from hd, List.mem_cons] at hm
      rcases hm with rfl | hm
      · exact .inr List.mem_cons_self
      · exact .inl hm
    · exact (h.armed hc hst hdirty).imp_left (fun hsp => hsp.keeps (.nil none _) (by simp))
  | clean hd hno =>
    refine ⟨h.heap, fun hc hdirty => .inl ?_, h.armed⟩
    have hm := (h.listed hc hdirty).resolve_right (by simp)
    rw [show (⟨_, []⟩ : Mach P).w.dirty = _ from hd, List.mem_cons] at hm
    rcases hm with rfl | hm
    · exact absurd hdirty (by simp [hno _ hc])
    · exact hm
  | closing hc =>
    refine h.set (Worker.lt_of_conn hc) rfl (fun _ _ _ hm => hm) (fun _ _ hm => hm) (.nil _ _)
      (fun c' heq => ?_)
    obtain rfl := Option.some.inj heq
    exact ⟨fun t hsch => h.heap hc hsch, fun _ => .inr List.mem_cons_self,
      fun _ _ => .inl (.inl List.mem_cons_self)⟩
  | flushNone hc => exact h.gone rfl hc
  | flushed r as o t hc hr =>
    subst hr
    obtain ⟨hsch, hdirty⟩ := Conn.sentAt_timer _ as _
    rw [Worker.flushed_eq (by exact Worker.lt_of_conn hc)]
    refine h.rearmed hc rfl rfl (fun _ _ _ hm => hm) rfl (.cons _ (.inr rfl)) (fun s hs => ?_) ?_
    · exact h.heap hc (hsch ▸ hs)
    · exact fun hd => (by cases hdirty.symm.trans hd)
  | readNone hc => exact h.gone rfl hc
  | @read w st i c hc =>
    have hf := (read_processConn w.cfg.check c).frame
    refine h.marked hc rfl (fun _ _ _ hm => hm) rfl ?_ (fun hm => ?_) (fun s hs => ?_) hf.dirty
    · rw [List.append_cons]
      exact .cons _ (.inr rfl)
    · exact List.mem_append_right _ (List.mem_cons_of_mem _ (by simpa using hm))
    · exact h.heap hc (hf.scheduled ▸ hs)
  | received o t hc =>
    refine h.set (Worker.lt_of_conn hc) rfl (fun _ _ _ hm => hm) (fun _ _ hm => hm) (.nil _ _)
      (fun c' heq => ?_)
    obtain rfl := Option.some.inj heq
    refine ⟨fun s hs => h.heap hc hs, fun hd => .inl ?_, fun _ _ => .inl (.inr (.inl List.mem_cons_self))⟩
    exact (h.listed hc hd).resolve_right (by simp)
  | timerStale ht hs => exact h.stale ht hs
  | timerRearmed ht hc hs =>
    have hlt := Worker.lt_of_conn hc
    rw [Worker.schedule_eq (Worker.conn_set rfl hlt _ |>.trans (if_pos rfl))]
    refine h.rearmed hc (List.set_set ..) rfl (fun _ _ => Worker.timers_pop ht) rfl (.nil _ _)
      (fun _ hno => (by cases hno)) (fun hd => .inl ?_)
    exact (h.listed hc hd).resolve_right (by simp)
  | timerDown ht hc hs hst =>
    refine h.set (Worker.lt_of_conn hc) rfl (fun _ _ => Worker.timers_pop ht) (fun _ _ hm => hm)
      (.nil _ _) (fun c' heq => ?_)
    obtain rfl := Option.some.inj heq
    refine ⟨(fun _ hno => (by cases hno)), fun hd => .inl ?_,
      fun _ _ => .inl (.inr (.inr ⟨hst, _, List.mem_cons_self⟩))⟩
    exact (h.listed hc hd).resolve_right (by simp)
  | timerFired ht hc hs =>
    exact h.marked hc (List.set_set ..) (fun _ _ => Worker.timers_pop ht) rfl (.nil _ _)
      (fun hm => (by cases hm)) (fun _ hno => (by cases hno)) rfl
  | keepalive hc =>
    exact h.marked hc rfl (fun _ _ _ hm => hm) rfl (.nil _ _) (fun hm => (by cases hm))
      (fun _ hs => h.heap hc hs) rfl
  | startRate => exact h.same rfl rfl rfl (.nil _ _)
  | rateStart => exact h.resetInFlight rfl rfl rfl
  | posted hc =>
    exact h.touch hc rfl rfl rfl (by simp [Keeps, Task.spares]) rfl rfl rfl (same rfl rfl rfl rfl)
  | _ => first
    | exact h.same rfl rfl rfl (.refl _ _)
    | exact h.same rfl rfl rfl (.push rfl [])
    | exact h.same rfl rfl rfl (.push rfl [_])
    | exact h.same rfl rfl rfl (.nil _ _)
    | exact h.same rfl rfl rfl (.push rfl [_, _])

theorem kept_timed (hq : KeepsTimeout P) :
    Kept (fun x : Mach P => Regular x ∧ Gets x) (Timed (P := P)) where
  new := fun _ _ _ => ⟨by simp [Worker.new, Worker.conn], by simp [Worker.new, Worker.conn],
    by simp [Worker.new, Worker.conn]⟩
  move := fun m hx _ h => m.timed hq hx.1 hx.2 h
  interfere := fun _ _ h => h.same rfl rfl rfl (.nil _ _)
  command := fun _ _ _ _ _ h => h.same rfl rfl rfl (.nil _ _)

theorem Timed.armed_at_rest {w : Worker P} {i : ℕ} {c : Conn P} (h : Timed ⟨w, []⟩)
    (hd : w.dirty = []) (hc : w.conn i = some c) (hst : c.state ≠ .broken) : c.Armed := by
  cases hdirty : c.dirty with
  | true =>
    have hm := (h.listed hc hdirty).resolve_right (by simp)
    rw [show (⟨w, []⟩ : Mach P).w.dirty = [] from hd] at hm
    cases hm
  | false => exact (h.armed hc hst hdirty).resolve_left (by simp [Spared])

/-! ### The next wakeup -/

/-- The instant `n` is no later than what the phase waits for. -/
def Phase.WaitsFor (n : Instant) : Phase → Prop
  | .echo e => ∀ t, e.waitUntil = some t → n ≤ t
  | .rate r => match r.graceUntil with
    | some g => n ≤ g
    | none => n ≤ r.nextTick ∧ n ≤ r.deadline
  | _ => True

/-- The poll of a worker that wakes up at `n` at the latest does not sleep past a deadline. -/
structure Worker.WakesBy (w : Worker P) (n : Instant) : Prop where
  timeout : ∀ {i c t}, w.conn i = some c → c.state ≠ .broken → P.timeoutInstant c.q = some t → n ≤ t
  attempt : ∀ {i c t}, w.conn i = some c → c.state ≠ .broken → c.attemptDeadline = some t → n ≤ t
  retries : ∀ r ∈ w.retries, n ≤ r.1
  phase : w.phase.WaitsFor n

theorem Worker.nextWakeup_le (w : Worker P) : ∃ n, w.nextWakeup = some n ∧
    (∀ t, w.timers.head?.map Prod.fst = some t → n ≤ t) ∧
    (∀ t, w.retries.head?.map Prod.fst = some t → n ≤ t) ∧ ∀ t, w.phase.wakeup = some t → n ≤ t := by
  obtain ⟨a, ha, _⟩ := earlier_le_left (x := w.timers.head?.map Prod.fst)
    (t := some w.nextKeepalive) rfl
  obtain ⟨b, hb, hab⟩ := earlier_le_left (x := w.retries.head?.map Prod.fst) ha
  obtain ⟨n, hn, hbn⟩ := earlier_le_left (x := w.phase.wakeup) hb
  refine ⟨n, hn, fun t ht => ?_, fun t ht => ?_, fun t ht => ?_⟩
  · obtain ⟨a', ha', hle⟩ := earlier_le_right (t := some w.nextKeepalive) ht
    rw [ha] at ha'
    obtain rfl := Option.some.inj ha'
    exact hbn.trans (hab.trans hle)
  · obtain ⟨b', hb', hle⟩ := earlier_le_right
      (t := earlier (some w.nextKeepalive) (w.timers.head?.map Prod.fst)) ht
    rw [hb] at hb'
    obtain rfl := Option.some.inj hb'
    exact hbn.trans hle
  · obtain ⟨n', hn', hle⟩ := earlier_le_right (t := earlier (earlier (some w.nextKeepalive)
      (w.timers.head?.map Prod.fst)) (w.retries.head?.map Prod.fst)) ht
    rw [show earlier _ w.phase.wakeup = some n from hn] at hn'
    obtain rfl := Option.some.inj hn'
    exact hle

theorem Phase.waitsFor {p : Phase} {n : Instant} (h : ∀ t, p.wakeup = some t → n ≤ t) :
    p.WaitsFor n := by
  cases p with
  | echo e => exact h
  | rate r =>
    simp only [Phase.wakeup] at h
    simp only [Phase.WaitsFor]
    cases hg : r.graceUntil with
    | some g =>
      simp only [hg] at h
      exact h g rfl
    | none =>
      simp only [hg] at h
      split at h
      · rename_i hlt
        exact ⟨h _ rfl, (h _ rfl).trans hlt.le⟩
      · rename_i hle
        exact ⟨(h _ rfl).trans (not_lt.mp hle), h _ rfl⟩
  | _ => exact trivial

theorem Worker.Queues.wakesBy {w : Worker P} {n : Instant} (hq : w.Queues) (ht : Timed ⟨w, []⟩)
    (hd : w.dirty = []) (htimers : ∀ t, w.timers.head?.map Prod.fst = some t → n ≤ t)
    (hretries : ∀ t, w.retries.head?.map Prod.fst = some t → n ≤ t)
    (hphase : ∀ t, w.phase.wakeup = some t → n ≤ t) : w.WakesBy n := by
  have covered : ∀ {i : ℕ} {c : Conn P} {d : Option Instant} {t : Instant}, w.conn i = some c →
      c.Covers d → d = some t → n ≤ t := by
    intro i c d t hc hcov hdt
    obtain ⟨s, hs, hle⟩ := hcov t hdt
    obtain ⟨t', ht', hle'⟩ := Heap.head_le (hq.timers.imp Heap.Before.fst_le) (ht.heap hc hs)
    exact (htimers t' ht').trans (hle'.trans hle)
  refine ⟨fun hc hst => ?_, fun hc hst => ?_, fun r hr => ?_, Phase.waitsFor hphase⟩
  · exact covered hc (ht.armed_at_rest hd hc hst).timeout
  · exact covered hc (ht.armed_at_rest hd hc hst).attempt
  · obtain ⟨t, ht, hle⟩ := Heap.head_le hq.retries hr
    exact (hretries t ht).trans hle

/-- The event loop never sleeps past a deadline. -/
theorem next_wakeup_in_time (hq : KeepsTimeout P) {cfg : EngineConfig} {t : Thread P}
    (ht : t.Reach cfg) :
    (∀ i c, t.w.conn i = some c → c.dirty = true → i ∈ t.w.dirty) ∧
    t.w.retries.Pairwise (fun a b => a.1 ≤ b.1) ∧
    (t.pt = .poll →
      (∀ i c d, t.w.conn i = some c → c.state ≠ .broken → c.deadline = some d →
        ∃ s, c.scheduled = some s ∧ s ≤ d ∧ (s, i) ∈ t.w.timers) ∧
      ∃ n, t.w.nextWakeup = some n ∧ t.w.WakesBy n) := by
  have hA := (kept_regular.and kept_gets).and ((kept_timed hq).both (kept_queues.mono (fun _ _ => trivial)))
  obtain ⟨⟨_, htimed, hqueues⟩, hpoll⟩ := hA.reach (fun h hc => h.1.1.queued hc) ht
  refine ⟨fun i c hc hd => (htimed.listed hc hd).resolve_right (by simp), hqueues.retries, fun hpt => ?_⟩
  have hdirty := hpoll hpt
  refine ⟨fun i c d hc hst hdl => ?_, ?_⟩
  · obtain ⟨s, hs, hle⟩ := (htimed.armed_at_rest hdirty hc hst).deadline d hdl
    exact ⟨s, hs, hle, htimed.heap hc hs⟩
  · obtain ⟨n, hn, h₁, h₂, h₃⟩ := t.w.nextWakeup_le
    exact ⟨n, hn, hqueues.wakesBy htimed hdirty h₁ h₂ h₃⟩

/-- A worker that waits for a handshake wakes up for the deadline of the attempt. -/
theorem next_wakeup_in_time_dialing : ∃ t : Thread loopback,
    t.Reach { loopbackConfig with dialTimeout := 5 } ∧ t.pt = .poll ∧
    (t.w.conn 0).any (fun c => c.state = .connecting ∧ c.attemptDeadline = some 7) ∧
    t.w.nextWakeup = some 7 ∧ t.w.WakesBy 7 := by
  obtain ⟨t, ht, hp⟩ := Thread.exists_reach (P := loopback) { loopbackConfig with dialTimeout := 5 }
    { polls := [[.waker]] } 0 [(.dial 1 1, 5)]
    (fun t => t.pt = .poll ∧ t.w.nextWakeup = some 7 ∧
      (t.w.conn 0).any (fun c => c.state = .connecting ∧ c.attemptDeadline = some 7)) (by decide +kernel)
  obtain ⟨hpt, hn, hconn⟩ := of_decide_eq_true hp
  have hq : KeepsTimeout loopback := fun _ _ _ _ _ _ _ => rfl
  obtain ⟨_, n, hn', hw⟩ := (next_wakeup_in_time hq ht).2.2 hpt
  obtain rfl := Option.some.inj (hn.symm.trans hn')
  exact ⟨t, ht, hpt, hconn, hn, hw⟩

end Http3Bench
