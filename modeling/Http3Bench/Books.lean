import Http3Bench.Agenda
import Http3Bench.Ledger

/-!
# The books of a phase

What the operations of the ledger have to do with the counters of the phase: the dial phase counts
its new connections, a BenchEcho phase has its slots and its tickets either at rest or in one
operation, and BenchMultiplex waits for at least the redials that are still open. No other phase
has such operations, and the slots an operation will come back to are not on the free list.
-/

namespace Http3Bench

variable {P : Platform}

def Op.newId : Op → Option ℕ
  | .new id => some id
  | _ => none

def Op.echoed : Op → Option (ℕ × ℕ)
  | .echo i n => some (i, n)
  | _ => none

def Op.redialed : Op → Option ℕ
  | .redial i => some i
  | _ => none

def news (m : Multiset Op) : Multiset ℕ := m.filterMap Op.newId

def echoes (m : Multiset Op) : Multiset (ℕ × ℕ) := m.filterMap Op.echoed

def redials (m : Multiset Op) : Multiset ℕ := m.filterMap Op.redialed

section

variable (a b : Multiset Op)

@[simp] theorem news_zero : news 0 = 0 := rfl

@[simp] theorem echoes_zero : echoes 0 = 0 := rfl

@[simp] theorem redials_zero : redials 0 = 0 := rfl

@[simp] theorem news_add : news (a + b) = news a + news b := Multiset.filterMap_add ..

@[simp] theorem echoes_add : echoes (a + b) = echoes a + echoes b := Multiset.filterMap_add ..

@[simp] theorem redials_add : redials (a + b) = redials a + redials b := Multiset.filterMap_add ..

@[simp] theorem news_cons (o : Op) : news (o ::ₘ a) = news {o} + news a := by
  rw [← Multiset.singleton_add, news_add]

@[simp] theorem echoes_cons (o : Op) : echoes (o ::ₘ a) = echoes {o} + echoes a := by
  rw [← Multiset.singleton_add, echoes_add]

@[simp] theorem redials_cons (o : Op) : redials (o ::ₘ a) = redials {o} + redials a := by
  rw [← Multiset.singleton_add, redials_add]

end

/-- Requests are neither dials of new connections nor redials for BenchMultiplex. -/
theorem news_request (kind : ReqKind) (i : ℕ) : news {kind.op i} = 0 := by cases kind <;> rfl

theorem redials_request (kind : ReqKind) (i : ℕ) : redials {kind.op i} = 0 := by cases kind <;> rfl

theorem news_map_request {α : Type} (l : List α) (f : α → ReqKind) (i : ℕ) :
    news (l.map (fun a => (f a).op i) : List Op) = 0 := by
  induction l with
  | nil => rfl
  | cons a l ih => rw [List.map_cons, ← Multiset.cons_coe, news_cons, ih, news_request, zero_add]

theorem news_entryOps (c : Conn P) (i : ℕ) : news (c.entryOps i) = 0 := by
  rw [Conn.entryOps_eq, news_add, streamOps, queueOps, news_map_request, news_map_request, zero_add]

theorem news_sendOuts (i : ℕ) (kind : ReqKind) (old : Option Req) (r : Except SendError Unit) :
    news (sendOuts i kind old r) = 0 := by
  unfold sendOuts
  split
  · exact news_map_request _ _ _
  · rfl
  · split
    · rfl
    · exact news_request _ _

theorem news_eventOuts (i : ℕ) (ev : ConnEvent) : news (eventOuts i ev) = 0 := by
  unfold eventOuts
  split <;> rfl

/-- The tickets a phase drew and has to run. -/
def EchoPhase.taken (e : EchoPhase) : List ℕ := e.drawn.filter (fun n => n < e.job.times)

/-- The slots and the tickets of a BenchEcho phase, with the operations that carry them. -/
structure EchoPhase.Books (e : EchoPhase) (open_ : Multiset (ℕ × ℕ)) : Prop where
  nodup : e.captured.Nodup
  slots : (e.idle : Multiset ℕ) + open_.map Prod.fst ≤ e.captured
  size : e.inFlight + e.idle.length = e.captured.length
  bound : e.inFlight ≤ e.slots
  room : e.slots ≤ e.captured.length
  tickets : (e.completed : Multiset ℕ) + open_.map Prod.snd ≤ e.taken
  count : e.completed.length + e.inFlight = e.taken.length

/-- How many broken connections `start` is dialing again. -/
def prepSize (todo : List Task) : Option ℕ := (prepOf todo).map (fun p => p.2.1)

def Phase.Books (prep : Option ℕ) (m : Multiset Op) : Phase → Prop
  | .idle => news m = 0 ∧ echoes m = 0 ∧ (redials m).Nodup ∧ (redials m).card ≤ prep.getD 0
  | .dial d => (news m).Nodup ∧ (news m).card = d.active ∧ echoes m = 0 ∧ redials m = 0
  | .echo e => news m = 0 ∧ redials m = 0 ∧ e.Books (echoes m)
  | .ratePrep _ r _ => news m = 0 ∧ echoes m = 0 ∧ (redials m).Nodup ∧ (redials m).card ≤ r
  | .rate _ => news m = 0 ∧ echoes m = 0 ∧ redials m = 0

def Phase.captured : Phase → List ℕ
  | .echo e => e.captured
  | _ => []

/-- A slot that an operation of the phase will come back to. -/
def Reserved (phase : Phase) (m : Multiset Op) (i : ℕ) : Prop := i ∈ phase.captured ∨ i ∈ redials m

structure Worker.FreeOk (w : Worker P) : Prop where
  nodup : w.free.Nodup
  empty : ∀ i ∈ w.free, i < w.slots.length ∧ w.conn i = none

structure Books (x : Mach P) : Prop where
  phase : x.w.phase.Books (prepSize x.todo) x.ops
  ids : ∀ id ∈ news x.ops, id < x.w.serial
  free : x.w.FreeOk
  reserved : ∀ i, Reserved x.w.phase x.ops i → i ∉ x.w.free

theorem EchoPhase.Books.mono {e : EchoPhase} {m m' : Multiset (ℕ × ℕ)} (h : e.Books m)
    (hle : m' ≤ m) : e.Books m' where
  nodup := h.nodup
  slots := le_trans (add_le_add_right (Multiset.map_le_map hle) _) h.slots
  size := h.size
  bound := h.bound
  room := h.room
  tickets := le_trans (add_le_add_right (Multiset.map_le_map hle) _) h.tickets
  count := h.count

end Http3Bench
