import Http3Bench.SlotStep
import Http3Bench.Thread

/-!
# What a worker does to a connection

A connection that stays in its slot is sent on, is read, is given up, or has its streams and its
HTTP/3 connection left alone. `ConnInv` are the properties that all of this keeps; they hold of every
connection a worker has.
-/

namespace Http3Bench

variable {P : Platform}

/-- A call on a QUIC connection, of whatever kind. -/
inductive Touch (q : P.Q) : P.Q → Prop
  | call {q' : P.Q} : Call q q' → Touch q q'
  | recv (src dst : SocketAddr) (d : Body) : Touch q (P.recv src dst d q)
  | onTimeout (now : Instant) : Touch q (P.onTimeout now q)

def Touches : P.Q → P.Q → Prop := Relation.ReflTransGen Touch

theorem Calls.touches {q q' : P.Q} (h : Calls q q') : Touches q q' := by
  induction h with
  | refl => exact .refl
  | tail _ hcall ih => exact ih.tail (.call hcall)

theorem touches_recvs (src dst : SocketAddr) (ds : List Body) (q : P.Q) :
    Touches q (ds.foldl (fun q d => P.recv src dst d q) q) := by
  induction ds generalizing q with
  | nil => exact .refl
  | cons d ds ih => exact .head (.recv src dst d) (ih _)

namespace Conn

/-- The part of a connection its requests are on. -/
structure Like (c c' : Conn P) : Prop where
  streams : c'.streams = c.streams
  pending : c'.pending = c.pending
  h3 : c'.h3 = c.h3
  q : c'.q = c.q

/-- What the task `t` on top of the agenda can make of the connection in slot `k`. -/
inductive Acts (check : Bool) (t : Option Task) (k : ℕ) (c c' : Conn P) : Prop
  | send (headers : List Header) (kind : ReqKind) (body : Body) : t = some (.request k kind body) →
      Like (c.trySend headers kind body).conn c' → Acts check t k c c'
  | read : t = some (.read k) → Like (c.processConn check).1 c' → Acts check t k c c'
  | touch : c'.streams = c.streams → c'.pending = c.pending → c'.h3 = c.h3 → Touches c.q c'.q →
      Acts check t k c c'
  | clear : c'.streams = ∅ → c'.pending = [] → c'.h3 = c.h3 → c'.q = c.q → Acts check t k c c'

theorem Acts.refl {check : Bool} {t : Option Task} {k : ℕ} (c : Conn P) : Acts check t k c c :=
  .touch rfl rfl rfl .refl

end Conn

namespace Worker

/-- Every connection of `w'` was in its slot before, or is new. -/
def Acts (check : Bool) (t : Option Task) (w w' : Worker P) : Prop :=
  ∀ k c', w'.conn k = some c' → (∃ c, w.conn k = some c ∧ c.Acts check t k c') ∨
    (c'.streams = ∅ ∧ c'.pending = [] ∧ c'.h3 = none)

variable {w w' : Worker P} {check : Bool} {t : Option Task}

theorem Acts.same (h : w'.slots = w.slots) : w.Acts check t w' := by
  intro k c' hk
  rw [Worker.conn_of_slots_eq h] at hk
  exact .inl ⟨c', hk, .refl c'⟩

theorem Acts.set {i : ℕ} {c : Conn P} {s : Option (Conn P)} (hc : w.conn i = some c)
    (h : w'.slots = w.slots.set i s) (he : ∀ c', s = some c' → c.Acts check t i c') : w.Acts check t w' := by
  intro k c' hk
  rw [Worker.conn_set h (Worker.lt_of_conn hc)] at hk
  split at hk
  · rename_i hi
    subst hi
    exact .inl ⟨c, hc, he c' hk⟩
  · exact .inl ⟨c', hk, .refl c'⟩

theorem Acts.put {i : ℕ} {c c' : Conn P} (hc : w.conn i = some c)
    (h : w'.slots = w.slots.set i (some c')) (he : c.Acts check t i c') : w.Acts check t w' :=
  .set hc h (fun _ hs => Option.some.inj hs ▸ he)

theorem Acts.touch {i : ℕ} {c c' : Conn P} (hc : w.conn i = some c)
    (h : w'.slots = w.slots.set i (some c')) (hs : c'.streams = c.streams)
    (hp : c'.pending = c.pending) (hh : c'.h3 = c.h3) (hq : Touches c.q c'.q) : w.Acts check t w' :=
  .put hc h (.touch hs hp hh hq)

theorem Acts.takeSlot {slot : Option ℕ} (hlt : ∀ i, slot = some i → i < w.slots.length)
    (h : w'.slots = (w.takeSlot slot).2.slots) : w.Acts check t w' := by
  intro k c' hk
  rw [Worker.conn_of_slots_eq h] at hk
  exact .inl ⟨c', Worker.conn_of_takeSlot hlt hk, .refl c'⟩

end Worker

theorem Sent.like_left (s : Sent P) : Conn.Like s.conn s.left := by
  unfold Sent.left
  split <;> exact ⟨rfl, rfl, rfl, rfl⟩

theorem Move.acts {x x' : Mach P} {ins outs : Multiset Op} (m : Move x ins outs x') :
    x.w.Acts x.w.cfg.check x.todo.head? x'.w := by
  cases m with
  | enqueue hc hk => exact .touch hc rfl rfl rfl rfl .refl
  | requeue hc hk => exact .touch hc rfl rfl rfl rfl .refl
  | dequeue hc hq => exact .touch hc rfl rfl rfl rfl .refl
  | send hc =>
    rw [Worker.afterSend_eq]
    exact .put hc rfl (.send _ _ _ rfl (Sent.like_left _))
  | @rateEvent w st i r cause =>
    dsimp only
    unfold Worker.rateResponse
    cases hc : w.conn i with
    | none => exact .same rfl
    | some c => exact .touch hc rfl rfl rfl rfl .refl
  | closedReady hc hs => exact .touch hc rfl rfl rfl rfl .refl
  | upNew hc => exact .touch hc rfl rfl rfl rfl .refl
  | upEcho hc => exact .touch hc rfl rfl rfl rfl .refl
  | upEchoLate hc => exact .touch hc rfl rfl rfl rfl .refl
  | upRate hc => exact .touch hc rfl rfl rfl rfl .refl
  | downNew hc => exact .set hc rfl (by simp)
  | downRedial hc => exact .put hc rfl (.clear rfl rfl rfl rfl)
  | registerFailed o hlt => exact .takeSlot hlt rfl
  | @seated w st j d o₁ o₂ t hlt hidx =>
    intro k c' hk
    simp only [Worker.install, Worker.put, Worker.wait] at hk
    rw [Worker.conn_set rfl hidx] at hk
    split at hk
    · obtain rfl := Option.some.inj hk
      exact .inr ⟨rfl, rfl, rfl⟩
    · exact .inl ⟨c', Worker.conn_of_takeSlot hlt hk, .refl c'⟩
  | closing hc => exact .touch hc rfl rfl rfl rfl (Call.close _ _ _).calls.touches
  | @flushed w st i c r as o t hc hr =>
    subst hr
    rw [Worker.flushed_eq (by exact Worker.lt_of_conn hc)]
    refine .put hc rfl ?_
    obtain ⟨q, e, heq, hq⟩ := Conn.sendLoop_cases ({ c with dirty := false } : Conn P) false as
    unfold Conn.rearm Conn.sentAt
    rw [heq]
    split <;> exact .touch rfl rfl rfl hq.touches
  | read hc => exact .put hc rfl (.read rfl ⟨rfl, rfl, rfl, rfl⟩)
  | received o t hc => exact .touch hc rfl rfl rfl rfl (touches_recvs _ _ _ _)
  | timerRearmed ht hc hs =>
    have hlt := Worker.lt_of_conn hc
    rw [Worker.schedule_eq (Worker.conn_set rfl hlt _ |>.trans (if_pos rfl))]
    exact .touch hc (List.set_set ..) rfl rfl rfl .refl
  | timerDown ht hc hs => exact .touch hc rfl rfl rfl rfl .refl
  | timerFired ht hc hs =>
    exact .touch hc (List.set_set ..) rfl rfl rfl (.single (.onTimeout _))
  | keepalive hc => exact .touch hc rfl rfl rfl rfl Call.sendAckEliciting.calls.touches
  | rateStart =>
    intro k c' hk
    rw [Worker.conn_map rfl] at hk
    obtain ⟨c, hc, rfl⟩ := Option.map_eq_some_iff.mp hk
    refine .inl ⟨c, hc, ?_⟩
    unfold Conn.resetInFlight
    split <;> exact .touch rfl rfl rfl .refl
  | posted hc => exact .touch hc rfl rfl rfl rfl .refl
  | _ => exact .same rfl

/-- A property that everything a worker does to a connection keeps. -/
structure ConnInv (I : Conn P → Prop) : Prop where
  new : ∀ {c : Conn P}, c.streams = ∅ → c.h3 = none → I c
  send : ∀ {c : Conn P} (headers kind body), I c → I (c.trySend headers kind body).conn
  read : ∀ {c : Conn P} (check), I c → I (c.processConn check).1
  touch : ∀ {c c' : Conn P}, I c → c'.streams = c.streams → c'.h3 = c.h3 → Touches c.q c'.q → I c'
  clear : ∀ {c c' : Conn P}, I c → c'.streams = ∅ → c'.h3 = c.h3 → c'.q = c.q → I c'

theorem ConnInv.acts {I : Conn P → Prop} (h : ConnInv I) {check : Bool} {t : Option Task} {k : ℕ}
    {c c' : Conn P} (ha : c.Acts check t k c') (hc : I c) : I c' := by
  cases ha with
  | send headers kind body _ hl =>
    exact h.touch (h.send headers kind body hc) hl.streams hl.h3 (hl.q ▸ .refl)
  | read _ hl => exact h.touch (h.read check hc) hl.streams hl.h3 (hl.q ▸ .refl)
  | touch hs _ hh hq => exact h.touch hc hs hh hq
  | clear hs _ hh hq => exact h.clear hc hs hh hq

def Worker.Every (I : Conn P → Prop) (w : Worker P) : Prop := ∀ k c, w.conn k = some c → I c

theorem ConnInv.kept {I : Conn P → Prop} (h : ConnInv I) :
    Kept (fun _ => True) (fun x : Mach P => x.w.Every I) where
  new := fun cfg os now k c hc => by simp [Worker.new, Worker.conn] at hc
  move := by
    intro x ins outs x' m _ _ hx k c' hc'
    rcases m.acts k c' hc' with ⟨c, hc, ha⟩ | ⟨hs, -, hh⟩
    · exact h.acts ha (hx k c hc)
    · exact h.new hs hh
  interfere := fun _ _ hx k c hc => hx k c hc
  command := fun _ _ _ _ _ hx k c hc => hx k c hc

end Http3Bench
