import Http3Bench.Places

/-!
# The first request of a connection

A connection that is being dialed is up once its first request is answered. There is one such
request for each dial, from the moment the handshake is over until `dial_ok` or `dial_failed` takes
the dial job; none of these tasks is left on the agenda when a connection leaves its slot.
-/

namespace Http3Bench

variable {P : Platform}

/-- The steps of a dial that are not requests: the handshake is over, the first request was
answered. -/
def Task.opening (i : ℕ) : Task → ℕ
  | .event k .established | .up k => if k = i then 1 else 0
  | _ => 0

def opening (i : ℕ) (todo : List Task) : ℕ := (todo.map (Task.opening i)).sum

/-- How many first requests slot `i` has, in any of their stages. -/
def gets (i : ℕ) (x : Mach P) : ℕ := x.ops.count (.get i) + opening i x.todo

/-- The stages among them that are on the agenda. -/
def taskGets (i : ℕ) (todo : List Task) : ℕ := (agendaOps todo).count (.get i) + opening i todo

def Task.isEvent : Task → Bool
  | .event _ _ => true
  | _ => false

/-- What the events of a connection end with, and what they come from. -/
def Task.closes : Task → Bool
  | .event _ (.closed _) | .read _ => true
  | _ => false

def Task.downs (i : ℕ) : Task → Bool
  | .down k _ => k = i
  | _ => false

structure Gets (x : Mach P) : Prop where
  one : ∀ i, gets i x ≤ 1
  dialed : ∀ i, gets i x ≠ 0 → ∃ c, x.w.conn i = some c ∧ c.h3.isSome ∧ c.dial.isSome
  down : ∀ i, (∃ t ∈ x.todo, t.downs i) → taskGets i x.todo = 0
  order : x.todo.Pairwise (fun t t' => t.closes = true → t'.isEvent = false)

@[simp] theorem opening_nil (i : ℕ) : opening i [] = 0 := rfl

@[simp] theorem opening_cons (i : ℕ) (t : Task) (st : List Task) :
    opening i (t :: st) = t.opening i + opening i st := by simp [opening]

@[simp] theorem opening_append (i : ℕ) (s t : List Task) :
    opening i (s ++ t) = opening i s + opening i t := by simp [opening]

theorem opening_eq_zero {i : ℕ} {todo : List Task} (h : ∀ t ∈ todo, 2 ≤ t.rank) :
    opening i todo = 0 := by
  induction todo with
  | nil => rfl
  | cons t rest ih =>
    have ht := h t (by simp)
    rw [opening_cons, ih (fun t ht => h t (by simp [ht]))]
    cases t <;> first | rfl | simp [Task.rank] at ht

theorem agendaOps_get_eq_zero {i : ℕ} {todo : List Task} (h : ∀ t ∈ todo, 2 ≤ t.rank) :
    (agendaOps todo).count (.get i) = 0 := by
  induction todo with
  | nil => rfl
  | cons t rest ih =>
    have ht := h t (by simp)
    rw [agendaOps_cons, Multiset.count_add, ih (fun t ht => h t (by simp [ht]))]
    cases t <;> first | rfl | simp [Task.rank] at ht
    all_goals
      rename_i j
      cases hp : j.purpose <;> simp [Task.ops, DialJob.op, hp]

theorem opening_active {i : ℕ} {l : List Task} (h : ∀ t ∈ l, t.opening i = 0) (st : List Task) :
    opening i (l ++ st) = opening i st := by
  rw [opening_append, show opening i l = 0 from List.sum_eq_zero (by simpa using h), zero_add]

theorem opening_sendTasks (i k : ℕ) (kind : ReqKind) (body : Body) (r : Except SendError Unit)
    (st : List Task) : opening i (sendTasks k kind body r ++ st) = opening i st := by
  refine opening_active ?_ st
  unfold sendTasks
  split
  · split <;> simp [Task.opening]
  · simp [Task.opening]
  · split <;> simp [Task.opening]

theorem opening_closedTasks (i k : ℕ) (reason : String) (s : Option (Conn P)) (st : List Task) :
    opening i (closedTasks k reason s ++ st) = opening i st := by
  refine opening_active ?_ st
  unfold closedTasks
  split
  · split <;> simp [Task.opening]
  · simp

theorem opening_jobs (i : ℕ) (js : List DialJob) (st : List Task) :
    opening i (js.map Task.job ++ st) = opening i st :=
  opening_active (by simp [Task.opening]) st

variable {x x' : Mach P} {ins outs : Multiset Op}

/-- No move adds to the first requests of a slot, but for reading that a handshake is over. -/
theorem Move.gets_le (m : Move x ins outs x') (i : ℕ) :
    gets i x' ≤ gets i x ∨ ∃ k c st, x.todo = .read k :: st ∧ x.w.conn k = some c ∧
      x' = ⟨x.w.putDirty k (c.processConn x.w.cfg.check).1,
        events k (c.processConn x.w.cfg.check).2 ++ .drain k :: st⟩ := by
  have hl := congrArg (Multiset.count (.get i)) m.ledger
  simp only [Multiset.count_add] at hl
  have quiet : ins.count (.get i) = 0 → opening i x'.todo ≤ opening i x.todo →
      gets i x' ≤ gets i x := by
    intro h₀ h₁
    unfold gets
    omega
  cases m with
  | read hc => exact .inr ⟨_, _, _, rfl, hc, rfl⟩
  | send => exact .inl (quiet rfl (by rw [opening_sendTasks]; simp))
  | @event w st k ev h₁ h₂ =>
    left
    unfold gets
    simp only [opening_append, opening_cons]
    match ev with
    | .established =>
      simp only [eventIns, eventOuts, eventTasks, Task.opening, opening_cons, opening_nil,
        Multiset.count_zero, Multiset.count_singleton, Op.get.injEq] at hl ⊢
      split at hl <;> simp_all
      omega
    | .response .dial (.ok n) cause =>
      simp only [eventIns, eventOuts, eventTasks, Task.opening, opening_cons, opening_nil,
        Multiset.count_zero, Multiset.count_singleton, Op.get.injEq] at hl ⊢
      rw [if_congr eq_comm rfl rfl] at hl
      split at hl <;> simp_all
      omega
    | .response .dial (.error e) cause =>
      simp only [eventIns, eventOuts, eventTasks, Task.opening, opening_cons, opening_nil,
        Multiset.count_zero] at hl ⊢
      omega
    | .response (.echo s n) r cause =>
      simp only [eventIns, eventOuts, eventTasks, Task.opening, opening_cons, opening_nil,
        Multiset.count_zero] at hl ⊢
      omega
    | .response .rate r cause => exact absurd rfl (h₁ r cause)
    | .closed reason => exact absurd rfl (h₂ reason)
  | closedOther => exact .inl (quiet rfl (by rw [opening_closedTasks]; simp))
  | upEcho => exact .inl (quiet (by simp) (by simp [Task.opening]))
  | seated =>
    refine .inl (quiet ?_ (by simp [Task.opening]))
    rw [Multiset.count_singleton, if_neg (Op.At.not_dial (.inl rfl) _).symm]
  | flushed r as o t hc =>
    refine .inl (quiet rfl ?_)
    rw [opening_append, opening_cons]
    split <;> simp [Task.opening]
  | startRate =>
    refine .inl (quiet ?_ (by rw [opening_jobs]; simp [Task.opening]))
    rw [Multiset.coe_count, List.count_eq_zero]
    simp
  | startDials now n =>
    refine .inl (quiet ?_ (by rw [← List.append_nil (List.map _ _), opening_jobs]))
    rw [Multiset.coe_count, List.count_eq_zero]
    simp
  | draw => exact .inl (quiet (by simp) (by simp [Task.opening]))
  | post => exact .inl (quiet (by simp) (by simp [Task.opening]))
  | clock => exact .inl (quiet rfl (Nat.le_refl _))
  | _ => exact .inl (quiet rfl (by simp [Task.opening]))

/-- What lies at the end of the events of a connection, and what before it. -/
def ConnEvent.isResponse : ConnEvent → Bool
  | .response _ _ _ => true
  | _ => false

theorem Conn.isResponse_onEvents (check : Bool) (c : Conn P) (evs : List (ℕ × H3Event)) :
    ∀ e ∈ (c.onEvents check evs).2, e.isResponse := by
  induction evs generalizing c with
  | nil => simp [Conn.onEvents]
  | cons ev rest ih =>
    intro e he
    rcases List.mem_append.mp he with he | he
    · obtain ⟨sid, ev⟩ := ev
      cases ev with
      | headers list => simp [Conn.onEvent] at he
      | data reads => simp [Conn.onEvent] at he
      | finished =>
        simp only [Conn.onEvent] at he
        split at he
        · rw [List.mem_singleton.mp he]
          rfl
        · simp at he
      | reset code =>
        simp only [Conn.onEvent] at he
        split at he
        · rw [List.mem_singleton.mp he]
          rfl
        · simp at he
      | goAway => simp [Conn.onEvent] at he
      | priorityUpdate => simp [Conn.onEvent] at he
    · exact ih _ e he

theorem Conn.isResponse_failStreams (c : Conn P) (reason : String) :
    ∀ e ∈ (c.failStreams reason).2, e.isResponse := by
  intro e he
  rcases List.mem_append.mp he with he | he <;> obtain ⟨_, _, rfl⟩ := List.mem_map.mp he <;> rfl

/-- The events of one `process_conn`: the end of the handshake, responses, the end of the
connection. -/
structure Reading (c c' : Conn P) (start mid fin : List ConnEvent) : Prop where
  start : start = [] ∨
    start = [.established] ∧ c.h3 = none ∧ c.state = .connecting ∧ c'.h3.isSome
  mid : ∀ e ∈ mid, e.isResponse
  fin : fin = [] ∨ ∃ reason, fin = [.closed reason]

theorem Setup.start {c c₁ c' : Conn P} {h : P.H3} {evs : List ConnEvent} (hs : Setup c c₁ h evs)
    (hh : c'.h3.isSome) :
    evs = [] ∨ evs = [.established] ∧ c.h3 = none ∧ c.state = .connecting ∧ c'.h3.isSome := by
  cases hs with
  | old => exact .inl rfl
  | new hc =>
    split
    · exact .inr ⟨rfl, hc, ‹_›, hh⟩
    · exact .inl rfl

theorem Read.reading {check : Bool} {c c' : Conn P} {evs : List ConnEvent}
    (hr : Read check c c' evs) : ∃ start mid fin, evs = start ++ (mid ++ fin) ∧
      Reading c c' start mid fin := by
  cases hr with
  | shut reason =>
    exact ⟨[], _, _, rfl, .inl rfl, Conn.isResponse_failStreams _ _, .inr ⟨reason, rfl⟩⟩
  | failed q reason => exact ⟨[], [], _, rfl, .inl rfl, by simp, .inr ⟨reason, rfl⟩⟩
  | waiting => exact ⟨[], [], [], rfl, .inl rfl, by simp, .inl rfl⟩
  | polled hs =>
    exact ⟨_, _, [], congrArg _ (List.append_nil _).symm, hs.start rfl,
      Conn.isResponse_onEvents _ _ _, .inl rfl⟩
  | @polledShut c₁ h evs reason hs =>
    exact ⟨evs, (c₁.polled check h).2 ++ ((c₁.resumed check h).failStreams reason).2,
      [.closed reason], congrArg _ (List.append_assoc ..).symm, hs.start rfl,
      List.forall_mem_append.mpr ⟨Conn.isResponse_onEvents _ _ _, Conn.isResponse_failStreams _ _⟩,
      .inr ⟨reason, rfl⟩⟩

section

variable {c c' : Conn P} {start mid fin : List ConnEvent} (h : Reading c c' start mid fin)
include h

/-- Nothing follows the end of the connection. -/
theorem Reading.order (i : ℕ) : (events i (start ++ (mid ++ fin))).Pairwise
    (fun t t' => t.closes = true → t'.isEvent = false) := by
  have open_ : ∀ e ∈ start ++ mid, (Task.event i e).closes = false := by
    intro e he
    rcases List.mem_append.mp he with he | he
    · rcases h.start with hs | ⟨hs, _⟩ <;> rw [hs] at he
      · cases he
      · rw [List.mem_singleton.mp he]
        rfl
    · have := h.mid e he
      cases e <;> first | rfl | cases this
  rw [← List.append_assoc, events, List.map_append]
  refine List.pairwise_append.mpr ⟨?_, ?_, fun t ht t' _ hcl => ?_⟩
  · refine List.pairwise_of_forall_mem_list (fun t ht t' _ hcl => ?_)
    obtain ⟨e, he, rfl⟩ := List.mem_map.mp ht
    rw [open_ e he] at hcl
    cases hcl
  · rcases h.fin with hf | ⟨reason, hf⟩ <;> rw [hf] <;> simp
  · obtain ⟨e, he, rfl⟩ := List.mem_map.mp ht
    rw [open_ e he] at hcl
    cases hcl

theorem Reading.opening_mid (i k : ℕ) : opening i (events k (mid ++ fin)) = 0 := by
  refine List.sum_eq_zero (fun n hn => ?_)
  obtain ⟨t, ht, rfl⟩ := List.mem_map.mp hn
  obtain ⟨e, he, rfl⟩ := List.mem_map.mp ht
  rcases List.mem_append.mp he with he | he
  · have := h.mid e he
    cases e <;> first | rfl | cases this
  · rcases h.fin with hf | ⟨reason, hf⟩ <;> rw [hf] at he
    · cases he
    · rw [List.mem_singleton.mp he]
      rfl

end

theorem Shape.downs {t : Task} {st : List Task} (h : Shape (t :: st)) (i : ℕ) :
    ∀ t' ∈ st, t'.downs i = false := by
  intro t' ht
  have := h.waiting t' ht
  cases t' <;> first | rfl | simp [Task.rank] at this

/-- The tasks of an agenda after the move of its top task: none of them is an event after a close. -/
theorem order_append {l st : List Task} (hl : ∀ t ∈ l, t.closes = false)
    (h : st.Pairwise (fun t t' => t.closes = true → t'.isEvent = false)) :
    (l ++ st).Pairwise (fun t t' => t.closes = true → t'.isEvent = false) := by
  have quiet : ∀ t ∈ l, ∀ t' : Task, t.closes = true → t'.isEvent = false := by
    intro t ht t' hcl
    rw [hl t ht] at hcl
    cases hcl
  exact List.pairwise_append.mpr ⟨List.pairwise_of_forall_mem_list (fun t ht t' _ => quiet t ht t'),
    h, fun t ht t' _ => quiet t ht t'⟩

theorem closes_of_rank {t : Task} (h : t.rank ≠ 1) : t.closes = false := by
  cases t <;> first | rfl | exact absurd rfl h

theorem isEvent_of_rank {t : Task} (h : t.rank ≠ 1) : t.isEvent = false := by
  cases t <;> first | rfl | exact absurd rfl h

theorem Move.order (m : Move x ins outs x') (hs : Shape x.todo)
    (h : x.todo.Pairwise (fun t t' => t.closes = true → t'.isEvent = false)) :
    x'.todo.Pairwise (fun t t' => t.closes = true → t'.isEvent = false) := by
  have quiet : ∀ {t st l}, x.todo = t :: st → (∀ t ∈ l, t.rank ≠ 1) →
      (l ++ st).Pairwise (fun t t' => t.closes = true → t'.isEvent = false) := by
    intro t st l hx hl
    rw [hx] at h
    exact order_append (fun t ht => closes_of_rank (hl t ht)) (List.pairwise_cons.mp h).2
  cases m with
  | clock => exact h
  | send => exact quiet rfl (fun t ht => by simp [(active_sendTasks _ _ _ _).2 t ht])
  | event => exact quiet rfl (fun t ht => by simp [(active_eventTasks _ _).2 t ht])
  | closedOther => exact quiet rfl (fun t ht => by simp [(active_closedTasks _ _ _).2 t ht])
  | dequeue => exact List.pairwise_cons.mpr ⟨fun t _ hcl => (by cases hcl), h⟩
  | post => exact quiet (l := [_, _]) rfl (by simp [Task.rank])
  | flushed r as o t hc =>
    split
    · refine List.pairwise_cons.mpr ⟨fun t ht _ => isEvent_of_rank ?_, (List.pairwise_cons.mp h).2⟩
      have : 2 ≤ t.rank := ((List.pairwise_cons.mp hs).1 t ht).2
      omega
    · exact (List.pairwise_cons.mp h).2
  | @read w st i c hc =>
    obtain ⟨start, mid, fin, hevs, hread⟩ := (read_processConn w.cfg.check c).reading
    have htail := List.pairwise_cons.mp h
    rw [hevs]
    refine List.pairwise_append.mpr ⟨hread.order i, List.pairwise_cons.mpr
      ⟨fun t _ hcl => (by cases hcl), htail.2⟩, fun t _ t' ht' _ => ?_⟩
    rcases List.mem_cons.mp ht' with rfl | ht'
    · rfl
    · exact htail.1 t' ht' rfl
  | startRate =>
    exact order_append (fun t ht => closes_of_rank (by simp [rank_jobs t ht]))
      (List.pairwise_singleton ..)
  | startDials =>
    rw [← List.append_nil (List.map _ _)]
    exact order_append (fun t ht => closes_of_rank (by simp [rank_jobs t ht])) List.Pairwise.nil
  | batch => exact order_append (l := [_]) (by simp [Task.closes]) h
  | posted => exact order_append (l := [_, _]) (by simp [Task.closes]) List.Pairwise.nil
  | _ => first
    | exact quiet (l := []) rfl (by simp)
    | exact quiet (l := [_]) rfl (by simp [Task.rank])
    | exact List.pairwise_singleton ..
    | exact List.Pairwise.nil

theorem gets_eq (i : ℕ) (x : Mach P) :
    gets i x = (x.w.conn i).elim 0 (fun c => (c.entryOps i).count (.get i)) + taskGets i x.todo := by
  unfold gets taskGets
  rw [count_ops (.inl rfl), Nat.add_assoc]

theorem taskGets_cons (i : ℕ) (t : Task) (st : List Task) :
    taskGets i (t :: st) = t.ops.count (.get i) + t.opening i + taskGets i st := by
  simp only [taskGets, agendaOps_cons, opening_cons, Multiset.count_add]
  omega

theorem taskGets_eq_zero {i : ℕ} {todo : List Task} (h : ∀ t ∈ todo, 2 ≤ t.rank) :
    taskGets i todo = 0 := by
  rw [taskGets, agendaOps_get_eq_zero h, opening_eq_zero h]

/-- Tasks that wait, and no event among them. -/
theorem taskGets_quiet {i : ℕ} {todo : List Task} (h : ∀ t ∈ todo, 1 ≤ t.rank ∧ t.isEvent = false) :
    taskGets i todo = 0 := by
  induction todo with
  | nil => rfl
  | cons t rest ih =>
    have ht := h t (by simp)
    rw [taskGets_cons, ih (fun t ht => h t (by simp [ht]))]
    cases t with
    | event => exact absurd ht.2 (by simp [Task.isEvent])
    | job j => simp [Task.ops, Task.opening, (Op.At.not_dial (i := i) (.inl rfl) j).symm]
    | dialing j => simp [Task.ops, Task.opening, (Op.At.not_dial (i := i) (.inl rfl) j).symm]
    | _ => first | rfl | exact absurd ht.1 (by simp [Task.rank])

theorem downs_sendTasks {i k : ℕ} {kind : ReqKind} {body : Body} {r : Except SendError Unit}
    (h : ∃ t ∈ sendTasks k kind body r, t.downs i) :
    (Task.request k kind body).ops = {.get i} ∧ ∃ e, sendTasks k kind body r = [.down i e] := by
  obtain ⟨t, ht, hd⟩ := h
  unfold sendTasks at ht ⊢
  split at ht
  · split at ht <;> simp at ht
    simp [ht, Task.downs] at hd
  · simp only [List.mem_singleton] at ht
    simp [ht, Task.downs] at hd
  · split at ht <;> simp only [List.mem_singleton, List.not_mem_nil] at ht
    · obtain rfl : k = i := by simpa [ht, Task.downs] using hd
      exact ⟨rfl, _, rfl⟩
    · simp [ht, Task.downs] at hd

theorem downs_eventTasks {i k : ℕ} {ev : ConnEvent} (h : ∃ t ∈ eventTasks k ev, t.downs i) :
    (Task.event k ev).ops = {.get i} ∧ ∃ e, eventTasks k ev = [.down i e] := by
  obtain ⟨t, ht, hd⟩ := h
  unfold eventTasks at ht ⊢
  split at ht <;> simp only [List.mem_singleton, List.not_mem_nil] at ht
  · simp [ht, Task.downs] at hd
  · simp [ht, Task.downs] at hd
  · obtain rfl : k = i := by simpa [ht, Task.downs] using hd
    exact ⟨rfl, _, rfl⟩
  · simp [ht, Task.downs] at hd

/-- Once a first request has failed, no other stage of it is on the agenda. -/
theorem Move.down (m : Move x ins outs x') (hs : Shape x.todo) (h : Gets x) (i : ℕ)
    (hd : ∃ t ∈ x'.todo, t.downs i) : taskGets i x'.todo = 0 := by
  have top : ∀ {t st l}, x.todo = t :: st → (∃ t ∈ l ++ st, t.downs i) → ∃ t ∈ l, t.downs i := by
    intro t st l hx hd
    obtain ⟨t', ht', hd⟩ := hd
    rcases List.mem_append.mp ht' with ht' | ht'
    · exact ⟨t', ht', hd⟩
    · rw [hx] at hs
      simp [hs.downs i t' ht'] at hd
  -- a request or its answer turns into the failure of the dial
  have failed : ∀ {t st l}, x.todo = t :: st → t.ops = {.get i} ∧ (∃ e, l = [.down i e]) →
      taskGets i (l ++ st) = 0 := by
    intro t st l hx ht
    obtain ⟨ht, e, rfl⟩ := ht
    have hle : taskGets i x.todo ≤ 1 := by
      have := h.one i
      rw [gets_eq] at this
      omega
    rw [hx, taskGets_cons, ht] at hle
    refine (taskGets_cons ..).trans ?_
    simp [Task.ops, Task.opening] at hle ⊢
    omega
  cases m with
  | clock => exact h.down i hd
  | send => exact failed rfl (downs_sendTasks (top rfl hd))
  | event => exact failed rfl (downs_eventTasks (top rfl hd))
  | @closedOther w st k reason hst =>
    have hz : taskGets i st = 0 := taskGets_quiet (fun t ht =>
      ⟨hs.waiting t ht, (List.pairwise_cons.mp h.order).1 t ht rfl⟩)
    unfold closedTasks
    split
    · split
      · exact (taskGets_cons ..).trans (by simp [hz, Task.ops, Task.opening])
      · exact hz
    · exact hz
  | timerDown => rfl
  | dequeue => exact absurd (top (l := [_, _]) rfl hd) (by simp [Task.downs])
  | post => exact absurd (top (l := [_, _]) rfl hd) (by simp [Task.downs])
  | flushed r as o t hc => exact absurd (top rfl hd) (by split <;> simp [Task.downs])
  | read hc =>
    rw [List.append_cons] at hd
    exact absurd (top rfl hd) (by simp [events, Task.downs])
  | startRate => exact absurd hd (by simp [Task.downs])
  | startDials => exact absurd hd (by simp [Task.downs])
  | batch => exact absurd hd (by simp [Task.downs])
  | posted => exact absurd hd (by simp [Task.downs])
  | _ => first
    | exact absurd (top (l := []) rfl hd) (by simp)
    | exact absurd (top (l := [_]) rfl hd) (by simp [Task.downs])
    | exact absurd hd (by simp [Task.downs])

/-- A connection that is being dialed and can carry requests. -/
def Worker.Opens (w : Worker P) (i : ℕ) : Prop :=
  ∃ c, w.conn i = some c ∧ c.h3.isSome ∧ c.dial.isSome

section

variable {w w' : Worker P} {i k : ℕ}

theorem Worker.Opens.set {c c' : Conn P} (h : w.Opens k) (hc : w.conn i = some c)
    (hs : w'.slots = w.slots.set i (some c'))
    (hk : k = i → c.h3.isSome ∧ c.dial.isSome → c'.h3.isSome ∧ c'.dial.isSome) : w'.Opens k := by
  obtain ⟨c₀, hc₀, hd⟩ := h
  have hget := Worker.conn_set hs (Worker.lt_of_conn hc) k
  by_cases hki : k = i
  · rw [if_pos hki] at hget
    obtain rfl := Option.some.inj ((hki ▸ hc₀).symm.trans hc)
    exact ⟨c', hget, hk hki hd⟩
  · rw [if_neg hki] at hget
    exact ⟨c₀, hget.trans hc₀, hd⟩

/-- A move that does not end a dial or take a slot leaves the connections being dialed as they
are. -/
theorem SlotStep.opens {todo : List Task} (hs : SlotStep todo w w') (h : w.Opens k)
    (hup : ∀ i, todo.head? ≠ some (.up i)) (hdown : ∀ i err, todo.head? ≠ some (.down i err))
    (hdial : ∀ j, todo.head? ≠ some (.dialing j)) : w'.Opens k := by
  cases hs with
  | same hs =>
    obtain ⟨c, hc, hd⟩ := h
    exact ⟨c, (Worker.conn_of_slots_eq hs k).trans hc, hd⟩
  | change hc hch hs =>
    exact h.set hc hs (fun _ hd => ⟨hch.h3 hd.1, by rw [hch.dial]; exact hd.2⟩)
  | closed hc _ hs => exact h.set hc hs (fun _ hd => hd)
  | up _ _ _ _ _ _ _ hh => exact absurd hh (hup _)
  | broke _ _ _ _ _ _ _ _ hh => exact absurd hh.choose_spec (hdown _ _)
  | drop _ _ _ _ _ _ _ _ hh => exact absurd hh.choose_spec (hdown _ _)
  | vacate _ _ _ _ _ _ _ _ hh => exact absurd hh.choose_spec.1 (hdial _)
  | seat _ _ _ hh => exact absurd hh (hdial _)
  | reset hs =>
    obtain ⟨c, hc, hd⟩ := h
    refine ⟨c.resetInFlight, by rw [Worker.conn_map hs, hc]; rfl, ?_⟩
    unfold Conn.resetInFlight
    split <;> exact hd

end

/-- The slot whose dial comes up has no first request left. -/
theorem gets_up {i k : ℕ} {w w' : Worker P} {st l : List Task} (h : Gets ⟨w, .up i :: st⟩)
    (hops : (⟨w', l ++ st⟩ : Mach P).ops.count (.get k) ≤
      (⟨w, .up i :: st⟩ : Mach P).ops.count (.get k)) (hl : ∀ t ∈ l, t.opening k = 0)
    (hne : gets k ⟨w', l ++ st⟩ ≠ 0) : k ≠ i ∧ gets k ⟨w, .up i :: st⟩ ≠ 0 := by
  have hone := h.one k
  simp only [gets, opening_active hl, opening_cons, Task.opening] at hone hne ⊢
  refine ⟨fun hk => ?_, by omega⟩
  rw [if_pos hk.symm] at hone
  omega

theorem opens_up {i k : ℕ} {c : Conn P} {w w' : Worker P} {st l : List Task}
    (h : Gets ⟨w, .up i :: st⟩) (hc : w.conn i = some c)
    (hs : w'.slots = w.slots.set i (some c.up))
    (hops : (⟨w', l ++ st⟩ : Mach P).ops.count (.get k) ≤
      (⟨w, .up i :: st⟩ : Mach P).ops.count (.get k)) (hl : ∀ t ∈ l, t.opening k = 0)
    (hne : gets k ⟨w', l ++ st⟩ ≠ 0) : w'.Opens k := by
  obtain ⟨hk, hne⟩ := gets_up h hops hl hne
  exact Worker.Opens.set (h.dialed k hne) hc hs (fun hki => absurd hki hk)

/-- Nothing of a first request is left once its dial has failed. -/
theorem opens_down {i k : ℕ} {err : String} {w w' : Worker P} {t : Task} {st : List Task}
    {s : Option (Conn P)} (h : Gets ⟨w, .down i err :: st⟩) (hi : i < w.slots.length)
    (hs : w'.slots = w.slots.set i s) (hs' : ∀ c, s = some c → c.entryOps i = 0)
    (ht : t.ops.count (.get k) + t.opening k = 0)
    (hle : gets k ⟨w', t :: st⟩ ≤ gets k ⟨w, .down i err :: st⟩) (hne : gets k ⟨w', t :: st⟩ ≠ 0) :
    w'.Opens k := by
  have hget := Worker.conn_set hs hi k
  by_cases hk : k = i
  · subst hk
    have hz := h.down k ⟨_, List.mem_cons_self, by simp [Task.downs]⟩
    rw [taskGets_cons] at hz
    rw [gets_eq, taskGets_cons, ht, hget, if_pos rfl] at hne
    cases s with
    | none =>
      simp only [Option.elim_none] at hne
      omega
    | some c =>
      simp only [Option.elim_some, hs' c rfl, Multiset.count_zero] at hne
      omega
  · obtain ⟨c, hc, hd⟩ := h.dialed k (by omega)
    exact ⟨c, (hget.trans (if_neg hk)).trans hc, hd⟩

/-- A slot is taken only while no first request is on the agenda. -/
theorem opens_take {k : ℕ} {j : DialJob} {w w' : Worker P} {t : Task} {st : List Task}
    (hs : Shape (.dialing j :: st)) (h : Gets ⟨w, .dialing j :: st⟩)
    (hconn : ∀ c, w'.conn k = some c → w.conn k = some c ∨ c.entryOps k = 0)
    (ht : t.ops.count (.get k) + t.opening k = 0)
    (hle : gets k ⟨w', t :: st⟩ ≤ gets k ⟨w, .dialing j :: st⟩) (hne : gets k ⟨w', t :: st⟩ ≠ 0) :
    w'.Opens k := by
  have hst : taskGets k st = 0 := taskGets_eq_zero (fun t ht => ((List.pairwise_cons.mp hs).1 t ht).2)
  obtain ⟨c, hc, hd⟩ := h.dialed k (by omega)
  rw [gets_eq, taskGets_cons, ht, hst] at hne
  cases hc' : w'.conn k with
  | none => simp [hc'] at hne
  | some c' =>
    rcases hconn c' hc' with h | h
    · exact ⟨c', hc', by
        obtain rfl := Option.some.inj (hc.symm.trans h)
        exact hd⟩
    · simp [hc', h] at hne

theorem entryOps_seated (d : Dialed P) (i : ℕ) (j : DialJob) (timeout : Duration) (now : Instant)
    (uid : ℕ) : (d.conn i j timeout now uid).entryOps i = 0 := rfl

theorem entryOps_broke (c : Conn P) (i : ℕ) : c.broke.entryOps i = 0 := rfl

theorem count_get_dial (j : DialJob) (k : ℕ) : Multiset.count (.get k) {j.op} = 0 := by
  rw [Multiset.count_singleton, if_neg (Op.At.not_dial (i := k) (.inl rfl) j).symm]

theorem Move.opens (m : Move x ins outs x') (ha : Regular x) (h : Gets x) {k : ℕ}
    (hle : gets k x' ≤ gets k x) (hne : gets k x' ≠ 0) : x'.w.Opens k := by
  have hd : x.w.Opens k := h.dialed k (by omega)
  have hl := congrArg (Multiset.count (.get k)) m.ledger
  simp only [Multiset.count_add] at hl
  have hs := m.slotStep
  cases m with
  | clock => exact hd
  | upNone => exact hd
  | downNone => exact hd
  | refused => exact hd
  | upNew hc => exact opens_up (l := [_]) h hc rfl (by simpa using hl.le) (by simp [Task.opening]) hne
  | upEcho hc hd' hj =>
    refine opens_up (l := [_]) h hc rfl ?_ (by simp [Task.opening]) hne
    simp only [Multiset.count_singleton, reduceCtorEq, if_false] at hl
    exact (Nat.le_add_right _ _).trans hl.le
  | upEchoLate hc => exact opens_up (l := []) h hc rfl ((Nat.le_add_right _ _).trans hl.le) (by simp) hne
  | upRate hc => exact opens_up (l := [_]) h hc rfl (by simpa using hl.le) (by simp [Task.opening]) hne
  | @downNew w st i err c j hc =>
    exact opens_down h (Worker.lt_of_conn hc) rfl (by simp)
      (by simp only [Task.ops, Task.opening, count_get_dial]) hle hne
  | downRedial hc =>
    exact opens_down h (Worker.lt_of_conn hc) rfl (fun c hc => Option.some.inj hc ▸ entryOps_broke ..)
      (by simp only [Task.ops, Task.opening, count_get_dial]) hle hne
  | registerFailed o hlt =>
    exact opens_take ha.agenda.shape h (fun c hc => .inl (Worker.conn_of_takeSlot hlt hc))
      (by simp only [Task.ops, Task.opening, count_get_dial]) hle hne
  | seated o₁ o₂ t hlt hidx =>
    refine opens_take ha.agenda.shape h (fun c hc => ?_) rfl hle hne
    rw [Worker.install, Worker.put] at hc
    replace hc := (Worker.conn_set rfl hidx k).symm.trans hc
    split at hc
    · rename_i hk
      subst hk
      exact .inr (Option.some.inj hc ▸ entryOps_seated ..)
    · exact .inl (Worker.conn_of_takeSlot hlt hc)
  | _ => exact hs.opens hd (by simp) (by simp) (by simp)

/-- Reading a connection opens its first request, or adds to none. -/
theorem gets_read {w : Worker P} {st : List Task} {i : ℕ} {c : Conn P} (hc : w.conn i = some c)
    (ha : Regular ⟨w, .read i :: st⟩) (h : Gets ⟨w, .read i :: st⟩) (k : ℕ) {x' : Mach P}
    (hx' : x' = ⟨w.putDirty i (c.processConn w.cfg.check).1,
      events i (c.processConn w.cfg.check).2 ++ .drain i :: st⟩) :
    gets k x' ≤ gets k ⟨w, .read i :: st⟩ ∨ gets k x' ≤ 1 ∧ x'.w.Opens k := by
  have hl := congrArg (Multiset.count (.get k)) (Move.ledger (@Moves.read P true w st i c hc))
  simp only [add_zero] at hl
  rw [← hx'] at hl
  obtain ⟨start, mid, fin, hevs, hr⟩ := (read_processConn w.cfg.check c).reading
  have hopen : opening k x'.todo = opening k (events i start) + opening k st := by
    rw [hx', hevs, events, List.map_append, opening_append, opening_append, opening_cons]
    rw [show opening k (List.map (Task.event i) (mid ++ fin)) = 0 from hr.opening_mid k i]
    simp [Task.opening, events]
  have hgets : gets k x' = gets k ⟨w, .read i :: st⟩ + opening k (events i start) := by
    simp only [gets, hl, hopen, opening_cons, Task.opening]
    omega
  rcases hr.start with hs | ⟨hs, hh, hst, hh'⟩
  · left
    rw [hgets, hs]
    exact Nat.le_refl _
  · rw [hs] at hgets
    by_cases hk : i = k
    · right
      subst hk
      have hz : gets i ⟨w, .read i :: st⟩ = 0 := by
        by_contra hne
        obtain ⟨c', hc', hsome, _⟩ := h.dialed i hne
        obtain rfl := Option.some.inj (hc.symm.trans hc')
        simp [hh] at hsome
      refine ⟨by rw [hgets, hz]; simp [events, Task.opening],
        { (c.processConn w.cfg.check).1 with dirty := true },
        hx' ▸ (Worker.conn_set rfl (Worker.lt_of_conn hc) i).trans (if_pos rfl), hh', ?_⟩
      rw [show Conn.dial _ = c.dial from (read_processConn w.cfg.check c).frame.dial]
      exact (ha.sound.conns hc).dial.mp hst
    · left
      rw [hgets]
      simp [events, Task.opening, hk]

theorem kept_gets : Kept (Regular (P := P)) Gets where
  new := fun cfg os now => by
    have hz : ∀ i, gets i ⟨Worker.new cfg os now, []⟩ = 0 := fun i => by
      rw [gets_eq]
      simp [Worker.new, Worker.conn, taskGets]
    exact ⟨fun i => by simp [hz], fun i h => absurd (hz i) h, by simp, List.Pairwise.nil⟩
  move := by
    intro x ins outs x' m ha _ h
    have key : ∀ i, gets i x' ≤ 1 ∧ (gets i x' ≠ 0 → x'.w.Opens i) := by
      intro i
      have stays : gets i x' ≤ gets i x → gets i x' ≤ 1 ∧ (gets i x' ≠ 0 → x'.w.Opens i) :=
        fun hle => ⟨hle.trans (h.one i), m.opens ha h hle⟩
      rcases m.gets_le i with hle | ⟨k, c, st, htodo, hc, hx'⟩
      · exact stays hle
      · obtain ⟨w, todo⟩ := x
        obtain rfl : todo = .read k :: st := htodo
        rcases gets_read hc ha h i hx' with hle | ⟨h₁, h₂⟩
        · exact stays hle
        · exact ⟨h₁, fun _ => h₂⟩
    exact ⟨fun i => (key i).1, fun i => (key i).2, m.down ha.agenda.shape h,
      m.order ha.agenda.shape h.order⟩
  interfere := fun _ _ h => ⟨h.one, h.dialed, h.down, h.order⟩
  command := fun _ _ _ _ _ h => ⟨h.one, h.dialed, h.down, h.order⟩

end Http3Bench
