import Http3Bench.Replies
import Http3Bench.Ticks

/-!
# The requests of BenchMultiplex

A request of BenchMultiplex is on its stream, has ended with an event not yet acted on, or is being
sent by `rate_tick`. `PostStep` says once what a move does to these requests, to the counters of their
connections and to the counts of the phase.
-/

namespace Http3Bench

variable {P : Platform}

def Op.posted : Op → Option ℕ
  | .post i => some i
  | _ => none

def posts (m : Multiset Op) : Multiset ℕ := m.filterMap Op.posted

section

variable (a b : Multiset Op)

@[simp] theorem posts_zero : posts 0 = 0 := rfl

@[simp] theorem posts_add : posts (a + b) = posts a + posts b := Multiset.filterMap_add ..

theorem count_posts (k : ℕ) : (posts a).count k = a.count (.post k) := by
  induction a using Multiset.induction_on with
  | empty => rfl
  | cons o a ih =>
    have hcons : posts (o ::ₘ a) = posts {o} + posts a := by
      rw [← Multiset.singleton_add, posts_add]
    have hone : (posts {o}).count k = Multiset.count (.post k) {o} := by
      cases o with
      | post i =>
        rw [show posts {Op.post i} = {i} from rfl, Multiset.count_singleton, Multiset.count_singleton]
        simp
      | _ => simp [posts, Op.posted]
    rw [hcons, Multiset.count_add, ih, hone, ← Multiset.singleton_add, Multiset.count_add]

end

theorem posts_eq_zero {m : Multiset Op} (h : ∀ i, .post i ∉ m) : posts m = 0 := by
  rw [Multiset.eq_zero_iff_forall_notMem]
  intro i hi
  rw [← Multiset.count_pos, count_posts, Multiset.count_pos] at hi
  exact h i hi

/-- What `rate_tick` is in the middle of: the requests in hand, the number sent so far. -/
def Task.raised : Task → Multiset ℕ
  | .request i .rate _ | .posted i => {i}
  | _ => 0

def raised (todo : List Task) : Multiset ℕ := (todo.map Task.raised).sum

def Task.soFar : Task → ℕ
  | .sent _ n => n
  | _ => 0

def soFar (todo : List Task) : ℕ := (todo.map Task.soFar).sum

theorem raised_of_rest {todo : List Task} (h : ∀ t ∈ todo, t.ticks = false) :
    raised todo = 0 ∧ soFar todo = 0 := by
  have hzero : ∀ t ∈ todo, t.raised = 0 ∧ t.soFar = 0 := by
    intro t ht
    have hticks := h t ht
    cases t with
    | request i kind body => cases kind <;> simp_all [Task.ticks, Task.raised, Task.soFar]
    | posted i => cases hticks
    | batch job i k => cases hticks
    | sent job n => cases hticks
    | _ => exact ⟨rfl, rfl⟩
  constructor
  · refine List.sum_eq_zero (fun a ha => ?_)
    obtain ⟨t, ht, rfl⟩ := List.mem_map.mp ha
    exact (hzero t ht).1
  · refine List.sum_eq_zero (fun a ha => ?_)
    obtain ⟨t, ht, rfl⟩ := List.mem_map.mp ha
    exact (hzero t ht).2

/-- The number a connection believes to have in flight. -/
def Worker.flight (w : Worker P) (k : ℕ) : ℕ := (w.conn k).elim 0 Conn.inFlight

/-- The books of a BenchMultiplex. -/
structure RateBook where
  job : RateJob
  counts : RateCounts
  finished : ℕ
  ended : ℕ

def RatePhase.book (r : RatePhase) : RateBook := ⟨r.job, r.counts, r.finished, r.ended⟩

def Phase.book : Phase → Option RateBook
  | .rate r => some r.book
  | _ => none

namespace Worker

variable {w w' : Worker P} {i : ℕ} {c c' : Conn P}

theorem flight_of_slots_eq (h : w'.slots = w.slots) (k : ℕ) : w'.flight k = w.flight k := by
  rw [flight, conn_of_slots_eq h, flight]

theorem flight_set {s : Option (Conn P)} (h : w'.slots = w.slots.set i s) (hi : i < w.slots.length)
    (k : ℕ) : w'.flight k = if k = i then s.elim 0 Conn.inFlight else w.flight k := by
  rw [flight, conn_set h hi, flight]
  split <;> rfl

theorem flight_put (hc : w.conn i = some c) (h : w'.slots = w.slots.set i (some c'))
    (hf : c'.inFlight = c.inFlight) (k : ℕ) : w'.flight k = w.flight k := by
  rw [flight_set h (lt_of_conn hc)]
  split
  · rename_i hk
    subst hk
    rw [flight, hc]
    exact hf
  · rfl

/-- A response takes one request off its connection. -/
theorem flight_rateResponse (w : Worker P) (i : ℕ) (res : Except String ℕ) (cause : Cause) (k : ℕ) :
    (w.rateResponse i (w.conn i) res cause).flight k =
      if k = i then w.flight k - 1 else w.flight k := by
  cases hc : w.conn i with
  | none =>
    rw [show (w.rateResponse i none res cause).flight k = w.flight k from flight_of_slots_eq rfl k]
    split
    · rename_i hk
      subst hk
      simp [flight, hc]
    · rfl
  | some c =>
    rw [flight_set (w := w) rfl (lt_of_conn hc)]
    split
    · rename_i hk
      subst hk
      simp [flight, hc]
    · rfl

theorem flight_takeSlot_le {slot : Option ℕ} (hlt : ∀ i, slot = some i → i < w.slots.length) (k : ℕ) :
    (w.takeSlot slot).2.flight k ≤ w.flight k := by
  unfold flight
  cases hc : (w.takeSlot slot).2.conn k with
  | none => exact Nat.zero_le _
  | some c => rw [conn_of_takeSlot hlt hc]

end Worker

/-- What a move does to the requests of BenchMultiplex. -/
inductive PostStep (x x' : Mach P) : Prop
  | quiet : (∀ k, x'.w.flight k = x.w.flight k) → posts x'.ops = posts x.ops →
      raised x'.todo = raised x.todo → soFar x'.todo = soFar x.todo →
      x'.w.phase.book = x.w.phase.book → PostStep x x'
  /-- A connection is dialed, or its dial is lost. -/
  | dialed (j : DialJob) : j.op ∈ x.ops → (∀ k, x'.w.flight k ≤ x.w.flight k) →
      posts x'.ops ≤ posts x.ops → raised x'.todo = 0 → x'.w.phase.book = x.w.phase.book → PostStep x x'
  | answered {i : ℕ} {res : Except String ℕ} {cause : Cause} {st : List Task} :
      x.todo = .event i (.response .rate res cause) :: st →
      (∀ k, x'.w.flight k = if k = i then x.w.flight k - 1 else x.w.flight k) →
      posts x.ops = i ::ₘ posts x'.ops → raised x.todo = 0 → raised x'.todo = 0 →
      soFar x'.todo = soFar x.todo → x'.w.phase = x.w.phase.answer res cause → PostStep x x'
  | post {r : RatePhase} (i : ℕ) : x.w.phase = .rate r → (∀ k, x'.w.flight k = x.w.flight k) → posts x'.ops = i ::ₘ posts x.ops →
      raised x'.todo = i ::ₘ raised x.todo → soFar x'.todo = soFar x.todo →
      x'.w.phase.book = x.w.phase.book → PostStep x x'
  /-- A request is given back to `rate_tick`. -/
  | unpost (i : ℕ) : (∀ k, x'.w.flight k = x.w.flight k) → posts x.ops = i ::ₘ posts x'.ops →
      raised x.todo = i ::ₘ raised x'.todo → soFar x'.todo = soFar x.todo →
      x'.w.phase.book = x.w.phase.book → PostStep x x'
  | posted {r : RatePhase} (i : ℕ) : x.w.phase = .rate r → x.w.flight i + 1 ≤ r.job.batch * maxBatchesInFlight →
      (∀ k, x'.w.flight k = if k = i then x.w.flight k + 1 else x.w.flight k) →
      posts x'.ops = posts x.ops → raised x.todo = i ::ₘ raised x'.todo →
      soFar x'.todo = soFar x.todo + 1 → x'.w.phase = x.w.phase → PostStep x x'
  | ticked (n : ℕ) : (∀ k, x'.w.flight k = x.w.flight k) → posts x'.ops = posts x.ops →
      raised x'.todo = raised x.todo → soFar x.todo = n → soFar x'.todo = 0 →
      x'.w.phase = x.w.phase.addSent n → PostStep x x'
  | start {job : RateJob} {f : ℕ} {conns : List ℕ} {now : Instant} : x.w.phase = .ratePrep job 0 f →
      (∀ k, x'.w.flight k ≤ x.w.flight k) → posts x'.ops = posts x.ops → x'.todo = [] →
      x'.w.phase = .rate (RatePhase.start job conns now) → PostStep x x'
  | finish {o : Outcome} : Finishes x.w.phase o → (∀ k, x'.w.flight k = x.w.flight k) →
      posts x'.ops = posts x.ops → x'.w.phase = .idle → x'.w.sent = x.w.sent ++ [o] → PostStep x x'

section

variable {x x' : Mach P} {ins outs : Multiset Op}

theorem posts_sendOuts (i : ℕ) {kind : ReqKind} (hk : kind ≠ .rate) (r : Except SendError Unit) :
    posts (sendOuts i kind none r) = 0 := by
  unfold sendOuts
  split
  · rfl
  · rfl
  · cases kind with
    | dial => rfl
    | echo start n => rfl
    | rate => exact absurd rfl hk

theorem posts_eventOuts (i : ℕ) (ev : ConnEvent) : posts (eventOuts i ev) = 0 := by
  unfold eventOuts
  split <;> rfl

theorem posts_eventIns (i : ℕ) (ev : ConnEvent) : posts (eventIns i ev) = 0 := by
  unfold eventIns
  split <;> rfl

theorem posts_dial (j : DialJob) : posts {j.op} = 0 := by
  refine posts_eq_zero (fun i hi => ?_)
  rw [Multiset.mem_singleton] at hi
  cases hp : j.purpose <;> simp [DialJob.op, hp] at hi

theorem Conn.inFlight_left (c : Conn P) (headers : List Header) (kind : ReqKind) (body : Body) :
    (c.trySend headers kind body).left.inFlight = c.inFlight := by
  have hframe := (trySend_cases headers kind body c).frame
  unfold Sent.left
  split <;> exact hframe.inFlight

/-- Outside of a tick only responses concern the requests of BenchMultiplex. -/
theorem Move.postStep_rest (m : Move x ins outs x') (h : ∀ t ∈ x.todo, t.ticks = false)
    (hw : Waits x.w.rx x.w.phase (calm x.todo))
    (hover : ∀ k c, x.w.conn k = some c → ∀ headers body, c.overwrites headers body = none) :
    PostStep x x' := by
  have hl := congrArg posts m.ledger
  rw [posts_add, posts_add] at hl
  have hz := raised_of_rest h
  have hz' : raised x'.todo = 0 ∧ soFar x'.todo = 0 := by
    rcases m.ticks h with h' | ⟨_, r, _, ht⟩
    · exact raised_of_rest h'
    · rw [ht]
      exact ⟨rfl, rfl⟩
  have quiet : posts ins = 0 → posts outs = 0 → (∀ k, x'.w.flight k = x.w.flight k) →
      x'.w.phase.book = x.w.phase.book → PostStep x x' := by
    intro hi ho hf hb
    rw [hi, ho, add_zero, add_zero] at hl
    exact .quiet hf hl (hz'.1.trans hz.1.symm) (hz'.2.trans hz.2.symm) hb
  have dialed : ∀ j : DialJob, j.op ∈ x.ops → posts ins = 0 →
      (∀ k, x'.w.flight k ≤ x.w.flight k) → x'.w.phase.book = x.w.phase.book → PostStep x x' := by
    intro j hj hi hf hb
    rw [hi, add_zero] at hl
    exact .dialed j hj hf (hl ▸ Multiset.le_add_right _ _) hz'.1 hb
  have put : ∀ {i : ℕ} {c c' : Conn P}, x.w.conn i = some c → x'.w.slots = x.w.slots.set i (some c') →
      c'.inFlight = c.inFlight → ∀ k, x'.w.flight k = x.w.flight k :=
    fun hc hs hf => Worker.flight_put hc hs hf
  cases m with
  | enqueue hc => exact quiet rfl rfl (put hc rfl rfl) rfl
  | requeue hc => exact quiet rfl rfl (put hc rfl rfl) rfl
  | dequeue hc => exact quiet rfl rfl (put hc rfl rfl) rfl
  | @send w st i kind body c hc =>
    have hk : kind ≠ .rate := fun hk => absurd (h _ List.mem_cons_self) (by simp [hk, Task.ticks])
    refine quiet rfl ?_ (put hc (by rw [Worker.afterSend_eq]) (c.inFlight_left _ kind body)) ?_
    · rw [hover i c hc]
      exact posts_sendOuts i hk _
    · rw [Worker.afterSend_eq]
  | giveBack => exact absurd (h _ List.mem_cons_self) (by simp [Task.ticks])
  | event => exact quiet (posts_eventIns _ _) (posts_eventOuts _ _) (fun _ => rfl) rfl
  | @rateEvent w st i r cause =>
    refine .answered rfl (w.flight_rateResponse i r cause) ?_ hz.1 hz'.1 (hz'.2.trans hz.2.symm) rfl
    rw [show posts {Op.post i} = {i} from rfl, posts_zero, add_zero] at hl
    rw [← hl, ← Multiset.singleton_add, add_comm]
  | closedReady hc => exact quiet rfl rfl (put hc rfl rfl) rfl
  | upNew hc => exact quiet rfl rfl (put hc rfl rfl) rfl
  | upEcho hc => exact quiet rfl (posts_dial _) (put hc rfl rfl) rfl
  | upEchoLate hc => exact quiet rfl (posts_dial _) (put hc rfl rfl) rfl
  | upRate hc => exact quiet rfl rfl (put hc rfl rfl) rfl
  | @downNew w st i err c j hc hd =>
    refine dialed j (mem_ops_of_dial hc hd) rfl (fun k => ?_) rfl
    rw [Worker.flight_set rfl (Worker.lt_of_conn hc)]
    split
    · exact Nat.zero_le _
    · exact le_rfl
  | downRedial hc hd => exact dialed _ (mem_ops_of_dial hc hd) rfl (fun k => (put hc rfl rfl k).le) rfl
  | loseNew _ _ hp => exact quiet rfl (posts_dial _) (fun _ => rfl) (by rw [hp]; rfl)
  | loseNewLate => exact quiet rfl (posts_dial _) (fun _ => rfl) rfl
  | loseEchoNone => exact quiet rfl (posts_dial _) (fun _ => rfl) rfl
  | newUp cost hp => exact quiet rfl (posts_dial _) (fun _ => rfl) (by rw [hp]; rfl)
  | newUpLate => exact quiet rfl (posts_dial _) (fun _ => rfl) rfl
  | settle hp => exact quiet rfl (posts_dial _) (fun _ => rfl) (by rw [hp]; rfl)
  | settleLate => exact quiet rfl (posts_dial _) (fun _ => rfl) rfl
  | done cost hp => exact quiet rfl rfl (fun _ => rfl) (by rw [hp]; rfl)
  | @registerFailed w st j err o hlt =>
    refine dialed j (op_mem_ops rfl) rfl (fun k => ?_) (by simp only [Worker.wait, Worker.phase_takeSlot])
    exact Worker.flight_takeSlot_le hlt k
  | @seated w st j d o₁ o₂ t hlt hidx =>
    refine dialed j (op_mem_ops rfl) (posts_dial _) (fun k => ?_)
      (by simp only [Worker.install, Worker.put, Worker.wait, Worker.phase_takeSlot])
    rw [Worker.flight_set rfl hidx]
    split
    · exact Nat.zero_le _
    · exact Worker.flight_takeSlot_le hlt k
  | closing hc => exact quiet rfl rfl (put hc rfl rfl) rfl
  | @flushed w st i c r as o t hc hr =>
    subst hr
    have hf := Worker.flushed_eq (w := w.wait o t) (by exact Worker.lt_of_conn hc)
      (({ c with dirty := false } : Conn P).sendLoop false as) (w.clock + t)
    refine quiet rfl rfl (put hc (by rw [hf]; rfl) ?_) (by rw [hf]; rfl)
    obtain ⟨q, e, heq, -⟩ := Conn.sendLoop_cases ({ c with dirty := false } : Conn P) false as
    unfold Conn.rearm Conn.sentAt
    rw [heq]
    split <;> rfl
  | @read w st i c hc =>
    exact quiet rfl rfl (put hc rfl (read_processConn w.cfg.check c).frame.inFlight) rfl
  | received o t hc => exact quiet rfl rfl (put hc rfl rfl) rfl
  | @timerRearmed w t i rest c ht hc hs =>
    have hlt := Worker.lt_of_conn hc
    refine quiet rfl rfl (fun k => ?_) ?_
    · rw [Worker.schedule_eq (Worker.conn_set rfl hlt _ |>.trans (if_pos rfl))]
      exact @Worker.flight_put P w _ i c (Conn.rearm { c with scheduled := none }) hc
        (List.set_set ..) rfl k
    · rw [Worker.schedule_eq (Worker.conn_set rfl hlt _ |>.trans (if_pos rfl))]
      rfl
  | timerDown ht hc hs => exact quiet rfl rfl (put hc rfl rfl) rfl
  | timerFired ht hc hs => exact quiet rfl rfl (put hc (List.set_set ..) rfl) rfl
  | keepalive hc => exact quiet rfl rfl (put hc rfl rfl) rfl
  | startDial hrx =>
    rw [show _ = _ from hrx] at hw
    exact quiet rfl rfl (fun _ => rfl) (by rw [hw.idle.2.1]; rfl)
  | startEcho hrx =>
    rw [show _ = _ from hrx] at hw
    exact quiet rfl rfl (fun _ => rfl) (by rw [hw.idle.2.1]; rfl)
  | startRate =>
    refine quiet (posts_eq_zero (fun i hi => ?_)) rfl (fun _ => rfl) rfl
    obtain ⟨k, _, hk⟩ := List.mem_map.mp (Multiset.mem_coe.mp hi)
    cases hk
  | @prepared w job n before =>
    have hidle : w.phase = .idle := hw.prep.resolve_right (fun hcalm => (by cases hcalm))
    exact quiet rfl rfl (fun _ => rfl) (by rw [hidle]; rfl)
  | finish hf => exact .finish hf (fun _ => rfl) (eq_of_balance hl rfl) rfl rfl
  | startDials now n hp =>
    refine quiet (posts_eq_zero (fun i hi => ?_)) rfl (fun _ => rfl) (by rw [hp]; rfl)
    obtain ⟨k, _, hk⟩ := List.mem_map.mp (Multiset.mem_coe.mp hi)
    cases hk
  | echoWait t hp => exact quiet rfl rfl (fun _ => rfl) (by rw [hp]; rfl)
  | overdraw hp => exact quiet rfl rfl (fun _ => rfl) (by rw [hp]; rfl)
  | draw hp => exact quiet rfl rfl (fun _ => rfl) (by rw [hp]; rfl)
  | @rateStart w job f now hp =>
    refine .start hp (fun k => ?_) (eq_of_balance hl rfl) rfl rfl
    unfold Worker.flight
    rw [Worker.conn_map rfl]
    cases hc : w.conn k with
    | none => exact le_rfl
    | some c =>
      simp only [Option.map_some, Option.elim_some]
      unfold Conn.resetInFlight
      split
      · exact Nat.zero_le _
      · exact le_rfl
  | rateTimes next grace hp => exact quiet rfl rfl (fun _ => rfl) (by rw [hp]; rfl)
  | batch => exact absurd (h _ List.mem_cons_self) (by simp [Task.ticks])
  | post => exact absurd (h _ List.mem_cons_self) (by simp [Task.ticks])
  | posted => exact absurd (h _ List.mem_cons_self) (by simp [Task.ticks])
  | batchEnd => exact absurd (h _ List.mem_cons_self) (by simp [Task.ticks])
  | tickEnd => exact absurd (h _ List.mem_cons_self) (by simp [Task.ticks])
  | _ => exact quiet rfl rfl (fun _ => rfl) rfl

/-- The send of a request that `rate_tick` has in hand. -/
theorem Move.postStep_send {w : Worker P} {i : ℕ} {body : Body} {st : List Task} {c : Conn P}
    (hc : w.conn i = some c) (hover : c.overwrites (w.headersFor .rate) body = none) :
    PostStep ⟨w, .request i .rate body :: st⟩
      ⟨w.afterSend i .rate c (c.trySend (w.headersFor .rate) .rate body),
        sendTasks i .rate body (c.trySend (w.headersFor .rate) .rate body).result ++ st⟩ := by
  have hl := congrArg posts (Move.ledger (Moves.send hc : Move ⟨w, .request i .rate body :: st⟩ _ _ _))
  have hf : ∀ k, (w.afterSend i .rate c (c.trySend (w.headersFor .rate) .rate body)).flight k =
      w.flight k := Worker.flight_put hc (by rw [Worker.afterSend_eq]) (c.inFlight_left _ .rate body)
  have hb : (w.afterSend i .rate c (c.trySend (w.headersFor .rate) .rate body)).phase.book =
      w.phase.book := by rw [Worker.afterSend_eq]
  rw [posts_add, posts_add, hover] at hl
  cases hres : (c.trySend (w.headersFor .rate) .rate body).result with
  | ok =>
    rw [hres] at hl
    exact .quiet hf (eq_of_balance hl rfl) rfl rfl hb
  | error e =>
    rw [hres] at hl
    cases e with
    | blocked e => exact .quiet hf (eq_of_balance hl rfl) rfl rfl hb
    | failed e =>
      refine .unpost i hf ?_ (by simp [raised, Task.raised, sendTasks])
        (by simp [soFar, Task.soFar, sendTasks]) hb
      rw [posts_zero, add_zero] at hl
      rw [← hl, ← Multiset.singleton_add, add_comm]
      rfl

theorem Move.postStep (m : Move x ins outs x') (ht : Ticking x.w x.todo)
    (hw : Waits x.w.rx x.w.phase (calm x.todo))
    (hover : ∀ k c, x.w.conn k = some c → ∀ headers body, c.overwrites headers body = none) :
    PostStep x x' := by
  have hl := congrArg posts m.ledger
  rw [posts_add, posts_add] at hl
  obtain ⟨w, todo⟩ := x
  cases ht with
  | rest h => exact m.postStep_rest h hw hover
  | sent hp =>
    cases m with
    | clock => exact .quiet (fun _ => rfl) (eq_of_balance hl rfl) rfl rfl rfl
    | batch =>
      exact .quiet (fun _ => rfl) (eq_of_balance hl rfl) rfl (by simp [soFar, Task.soFar]) rfl
    | tickEnd => exact .ticked _ (fun _ => rfl) (eq_of_balance hl rfl) rfl rfl rfl rfl
  | @batch r i k n hp hr =>
    cases m with
    | clock => exact .quiet (fun _ => rfl) (eq_of_balance hl rfl) rfl rfl rfl
    | post =>
      rw [posts_zero, add_zero, show posts {Op.post i} = {i} from rfl, add_comm,
        Multiset.singleton_add] at hl
      exact .post i hp (fun _ => rfl) hl (by simp [raised, Task.raised])
        (by simp [soFar, Task.soFar]) rfl
    | batchEnd =>
      exact .quiet (fun _ => rfl) (eq_of_balance hl rfl) rfl (by simp [soFar, Task.soFar]) rfl
  | @request r i k n hp hr =>
    cases m with
    | clock => exact .quiet (fun _ => rfl) (eq_of_balance hl rfl) rfl rfl rfl
    | enqueue _ hk => exact absurd rfl hk
    | requeue _ hk => exact absurd rfl hk
    | giveBack =>
      rw [posts_zero, add_zero, show posts {Op.post i} = {i} from rfl, add_comm,
        Multiset.singleton_add] at hl
      exact .unpost i (fun _ => rfl) hl.symm (by simp [raised, Task.raised])
        (by simp [soFar, Task.soFar]) rfl
    | send hc => exact postStep_send hc (hover i _ hc _ _)
  | @posted r i k n hp hr =>
    cases m with
    | clock => exact .quiet (fun _ => rfl) (eq_of_balance hl rfl) rfl rfl rfl
    | @posted _ _ _ _ _ c hc =>
      obtain ⟨c', hc', hst, hle⟩ := hr
      obtain rfl := Option.some.inj (hc.symm.trans hc')
      refine .posted i hp ?_ (fun k => ?_) (eq_of_balance hl rfl) (by simp [raised, Task.raised])
        (by simp [soFar, Task.soFar]) rfl
      · simp only [Worker.flight, hc, Option.elim_some]
        omega
      · rw [Worker.flight_set (w := w) rfl (Worker.lt_of_conn hc)]
        split
        · rename_i hk
          subst hk
          simp [Worker.flight, hc]
        · rfl

end

end Http3Bench
