import Http3Bench.Gets

/-!
# What a connection carries

How the connection in a slot can come from the one before a move: it stays, with its dial as far as
it was, it is closed, its dial ends one way or the other, or it is a new one. The requests it
carries after the move are ones it carried before, or the one the move was about.
-/

namespace Http3Bench

variable {P : Platform}

/-- What a move on the agenda `todo` makes of the connection `c` in slot `k`. -/
inductive Came (todo : List Task) (k : ℕ) (c : Conn P) : Conn P → Prop
  | change {c' : Conn P} : Change c c' → Came todo k c c'
  | closed {reason : String} : c.state = .ready → todo.head? = some (.event k (.closed reason)) →
      Came todo k c { c with state := .broken }
  | up {j : DialJob} : c.dial = some j → todo.head? = some (.up k) → Came todo k c c.up
  | broke {j : DialJob} {err : String} : c.dial = some j → todo.head? = some (.down k err) →
      Came todo k c c.broke

variable {todo : List Task} {w w' : Worker P} {k : ℕ} {c c' : Conn P}

theorem Change.refl (c : Conn P) : Change c c := ⟨rfl, rfl, rfl, rfl, id, fun _ hr => .inl hr⟩

theorem Came.uid (h : Came todo k c c') : c'.uid = c.uid := by
  cases h with
  | change h => exact h.uid
  | _ => rfl

theorem Came.h3 (h : Came todo k c c') : c.h3.isSome → c'.h3.isSome := by
  cases h with
  | change h => exact h.h3
  | _ => exact id

/-- A connection after a move was in its slot before, or has just been dialed. -/
theorem SlotStep.came (hs : SlotStep todo w w') (hc' : w'.conn k = some c') :
    (∃ c, w.conn k = some c ∧ Came todo k c c') ∨
      ∃ d j now, todo.head? = some (.dialing j) ∧ c' = Dialed.conn d k j w.cfg.dialTimeout now w.serial := by
  have put : ∀ {i c₀ c₁}, w.conn i = some c₀ → w'.slots = w.slots.set i (some c₁) →
      (Came todo i c₀ c₁) → ∃ c, w.conn k = some c ∧ Came todo k c c' := by
    intro i c₀ c₁ hc₀ hs hcame
    rw [Worker.conn_set hs (Worker.lt_of_conn hc₀)] at hc'
    by_cases hk : k = i
    · subst hk
      rw [if_pos rfl] at hc'
      obtain rfl := Option.some.inj hc'
      exact ⟨c₀, hc₀, hcame⟩
    · rw [if_neg hk] at hc'
      exact ⟨c', hc', .change (.refl c')⟩
  cases hs with
  | same hs =>
    rw [Worker.conn_of_slots_eq hs] at hc'
    exact .inl ⟨c', hc', .change (.refl c')⟩
  | change hc hch hs => exact .inl (put hc hs (.change hch))
  | closed hc hst hs _ _ _ _ hh => exact .inl (put hc hs (.closed hst hh.choose_spec))
  | up hc hd hs _ _ _ _ hh => exact .inl (put hc hs (.up hd hh))
  | broke hc hd _ hs _ _ _ _ hh => exact .inl (put hc hs (.broke hd hh.choose_spec))
  | drop hc _ _ hs =>
    rw [Worker.conn_set hs (Worker.lt_of_conn hc)] at hc'
    split at hc'
    · cases hc'
    · exact .inl ⟨c', hc', .change (.refl c')⟩
  | vacate slot hlt hs =>
    rw [Worker.conn_of_slots_eq hs] at hc'
    exact .inl ⟨c', Worker.conn_of_takeSlot hlt hc', .change (.refl c')⟩
  | seat d j now hj hlt hidx hs =>
    rw [Worker.conn_set hs hidx] at hc'
    split at hc'
    · rename_i hk
      subst hk
      obtain rfl := Option.some.inj hc'
      exact .inr ⟨d, j, now, hj, rfl⟩
    · exact .inl ⟨c', Worker.conn_of_takeSlot hlt hc', .change (.refl c')⟩
  | reset hs =>
    rw [Worker.conn_map hs] at hc'
    obtain ⟨c₀, hc₀, rfl⟩ := Option.map_eq_some_iff.mp hc'
    refine .inl ⟨c₀, hc₀, .change ?_⟩
    unfold Conn.resetInFlight
    split
    · exact .of_put c₀.q c₀.scheduled c₀.deadline c₀.dirty 0
    · exact .refl c₀

/-! ### Requests -/

/-- The requests of a connection whose dial stays as it is. -/
theorem Conn.mem_entryOps {i : ℕ} {s : Multiset Op} {o : Op} (hd : c'.dial = c.dial)
    (h : c'.ops i ≤ c.ops i + s) (ho : o ∈ c'.entryOps i) : o ∈ c.entryOps i ∨ o ∈ s := by
  unfold Conn.ops at h
  rw [hd, add_assoc] at h
  exact Multiset.mem_add.mp (Multiset.mem_of_le (le_of_add_le_add_left h) ho)

theorem Conn.mem_entryOps_of_le {i : ℕ} {o : Op} (hd : c'.dial = c.dial) (h : c'.ops i ≤ c.ops i)
    (ho : o ∈ c'.entryOps i) : o ∈ c.entryOps i :=
  (Conn.mem_entryOps hd (h.trans (Multiset.le_add_right _ 0)) ho).resolve_right (Multiset.notMem_zero _)

variable {x x' : Mach P} {ins outs : Multiset Op}

theorem Move.entries (m : Move x ins outs x') (hx : x.w.Sound) (hc : x.w.conn k = some c)
    (hc' : x'.w.conn k = some c') (hu : c'.uid = c.uid) {o : Op} (ho : o ∈ c'.entryOps k) :
    o ∈ c.entryOps k ∨ ∃ kind body st, x.todo = .request k kind body :: st ∧ o = kind.op k := by
  have same : x'.w.slots = x.w.slots → o ∈ c.entryOps k := by
    intro hs
    rw [Worker.conn_of_slots_eq hs, hc] at hc'
    rwa [Option.some.inj hc']
  have put : ∀ {i c₀ c₁} {p : Prop}, x.w.conn i = some c₀ → x'.w.slots = x.w.slots.set i (some c₁) →
      (k = i → o ∈ c₁.entryOps k → o ∈ c₀.entryOps k ∨ p) → o ∈ c.entryOps k ∨ p := by
    intro i c₀ c₁ p hc₀ hs h
    rw [Worker.conn_set hs (Worker.lt_of_conn hc₀)] at hc'
    by_cases hk : k = i
    · rw [if_pos hk] at hc'
      obtain rfl := Option.some.inj hc'
      rw [hk] at hc
      obtain rfl := Option.some.inj (hc.symm.trans hc₀)
      exact h hk ho
    · rw [if_neg hk, hc] at hc'
      rw [Option.some.inj hc']
      exact .inl ho
  cases m with
  | @enqueue w st i kind body c₀ hc₀ hk =>
    refine put hc₀ rfl (fun hi ho => ?_)
    subst hi
    refine (Conn.mem_entryOps (by rfl) (Conn.ops_enqueue c₀ k (kind, body)).le ho).imp_right (fun hs => ?_)
    exact ⟨_, _, _, rfl, Multiset.mem_singleton.mp hs⟩
  | @requeue w st i kind body c₀ hc₀ hk =>
    refine put hc₀ rfl (fun hi ho => ?_)
    subst hi
    refine (Conn.mem_entryOps (by rfl) (Conn.ops_requeue c₀ k (kind, body) c₀.queued).le ho).imp_right
      (fun hs => ?_)
    exact ⟨_, _, _, rfl, Multiset.mem_singleton.mp hs⟩
  | @dequeue w st i kind body c₀ rest hc₀ hq =>
    refine put hc₀ rfl (fun hi ho => .inl (Conn.mem_entryOps_of_le (by rfl) ?_ ho))
    have h := Conn.ops_requeue c₀ k (kind, body) rest
    rw [← hq] at h
    exact (Multiset.le_add_right _ _).trans h.ge
  | @send w st i kind body c₀ hc₀ =>
    refine put hc₀ (by rw [Worker.afterSend_eq]) (fun hi ho => ?_)
    subst hi
    have hts := trySend_cases (w.headersFor kind) kind body c₀
    have hd : (c₀.trySend (w.headersFor kind) kind body).left.dial = c₀.dial := by
      unfold Sent.left
      split <;> exact hts.frame.dial
    have hle : (c₀.trySend (w.headersFor kind) kind body).left.ops k ≤ c₀.ops k + {kind.op k} := by
      rw [← hts.ops k, add_assoc]
      exact Multiset.le_add_right _ _
    refine (Conn.mem_entryOps hd hle ho).imp_right (fun hs => ?_)
    exact ⟨_, _, _, rfl, Multiset.mem_singleton.mp hs⟩
  | @rateEvent w st i r cause =>
    cases hi : w.conn i with
    | none => exact .inl (same (by simp [Worker.rateResponse, hi]))
    | some c₀ =>
      exact @put i c₀ { c₀ with inFlight := c₀.inFlight - 1 } _ hi
        (by simp [Worker.rateResponse, hi]) (fun _ => .inl)
  | closedReady hc₀ hs => exact put hc₀ rfl (fun _ => .inl)
  | upNew hc₀ => exact put hc₀ rfl (fun _ => .inl)
  | upEcho hc₀ => exact put hc₀ rfl (fun _ => .inl)
  | upEchoLate hc₀ => exact put hc₀ rfl (fun _ => .inl)
  | upRate hc₀ => exact put hc₀ rfl (fun _ => .inl)
  | @downNew w st i err c₀ j hc₀ =>
    rw [Worker.conn_set (s := none) rfl (Worker.lt_of_conn hc₀)] at hc'
    split at hc'
    · cases hc'
    · rw [hc] at hc'
      exact .inl (by rwa [Option.some.inj hc'])
  | downRedial hc₀ hd hj => exact put hc₀ rfl (fun _ ho => absurd ho (by simp [entryOps_broke]))
  | @registerFailed w st j err o' hlt =>
    have hcame := Worker.conn_of_takeSlot hlt hc'
    rw [hc] at hcame
    exact .inl (by rwa [Option.some.inj hcame])
  | @seated w st j d o₁ o₂ t hlt hidx =>
    rw [Worker.conn_set (w := (w.takeSlot j.slot).2) rfl hidx] at hc'
    split at hc'
    · obtain rfl := Option.some.inj hc'
      have hlt := (hx.conns hc).uid
      have hser : c.uid = w.serial := hu.symm.trans (Worker.serial_takeSlot _ _)
      exact absurd hlt (by simp [hser])
    · have hcame := Worker.conn_of_takeSlot hlt hc'
      rw [hc] at hcame
      exact .inl (by rwa [Option.some.inj hcame])
  | closing hc₀ => exact put hc₀ rfl (fun _ => .inl)
  | @flushed w st i c₀ r as o' t hc₀ hr =>
    subst hr
    refine put hc₀ (by rw [Worker.flushed_eq (by exact Worker.lt_of_conn hc₀)]; rfl)
      (fun hi ho => .inl (Conn.mem_entryOps_of_le ?_ ?_ ho))
    · exact (change_sentAt _ _ _).dial
    · rw [Conn.ops_sentAt, Conn.ops_sendLoop]
      exact le_refl _
  | @read w st i c₀ hc₀ =>
    have hr := read_processConn w.cfg.check c₀
    refine put hc₀ rfl (fun hi ho => .inl (Conn.mem_entryOps_of_le hr.frame.dial ?_ ho))
    rw [← hr.ops k]
    exact Multiset.le_add_right _ _
  | received o' t hc₀ => exact put hc₀ rfl (fun _ => .inl)
  | timerRearmed ht hc₀ hs =>
    have hlt := Worker.lt_of_conn hc₀
    rw [Worker.schedule_eq (Worker.conn_set rfl hlt _ |>.trans (if_pos rfl))] at put
    exact put hc₀ (List.set_set ..) (fun _ => .inl)
  | timerDown ht hc₀ => exact put hc₀ rfl (fun _ => .inl)
  | timerFired ht hc₀ => exact put hc₀ (List.set_set ..) (fun _ => .inl)
  | keepalive hc₀ => exact put hc₀ rfl (fun _ => .inl)
  | posted hc₀ => exact put hc₀ rfl (fun _ => .inl)
  | rateStart =>
    rw [Worker.conn_map rfl, hc, Option.map_some] at hc'
    obtain rfl := Option.some.inj hc'
    unfold Conn.resetInFlight at ho
    split at ho <;> exact .inl ho
  | _ => exact .inl (same rfl)

/-- How a request gets on top of the agenda, and what the move that brings it there does to the
worker. -/
inductive Asked (x x' : Mach P) (i : ℕ) (kind : ReqKind) (body : Body) (st : List Task) : Prop
  | same : x.todo = .request i kind body :: st → x'.w.slots = x.w.slots → x'.w.log = x.w.log →
      Asked x x' i kind body st
  | blocked {c : Conn P} {e : String} : x.todo = .request i kind body :: st → x.w.conn i = some c →
      (c.trySend (x.w.headersFor kind) kind body).result = .error (.blocked e) →
      x'.w = x.w.afterSend i kind c (c.trySend (x.w.headersFor kind) kind body) →
      Asked x x' i kind body st
  | queued {c : Conn P} {rest : List (ReqKind × Body)} {st₀ : List Task} : x.todo = .drain i :: st₀ →
      x.w.conn i = some c → c.queued = (kind, body) :: rest →
      x'.w = x.w.put i { c with queued := rest } → Asked x x' i kind body st
  | established : kind = .dial → x.todo = .event i .established :: st → x'.w = x.w →
      Asked x x' i kind body st
  | up {c : Conn P} {j : DialJob} {s : Instant} {n : ℕ} : kind = .echo s n → x.todo = .up i :: st →
      x.w.conn i = some c → x'.w = x.w.up i c j → Asked x x' i kind body st
  | ticket {c : Conn P} {n : ℕ} : x.todo = [.ticket i n] → x.w.conn i = some c → c.state ≠ .broken →
      x'.w = x.w → Asked x x' i kind body st
  | post {job : RateJob} {n : ℕ} {st₀ : List Task} : kind = .rate →
      x.todo = .batch job i (n + 1) :: st₀ → x'.w = x.w → Asked x x' i kind body st

theorem Move.asked {i : ℕ} {kind : ReqKind} {body : Body} {st : List Task} (m : Move x ins outs x')
    (hshape : Shape x.todo) (htodo : x'.todo = .request i kind body :: st) :
    Asked x x' i kind body st := by
  have rest : ∀ {t st'}, x.todo = t :: st' → st' ≠ .request i kind body :: st := by
    intro t st' he hst
    rw [he] at hshape
    exact absurd (hshape.waiting (.request i kind body) (hst ▸ List.mem_cons_self)) (by simp [Task.rank])
  cases m with
  | clock => exact .same htodo rfl rfl
  | dequeue hc hq =>
    obtain ⟨hreq, rfl⟩ := List.cons.inj htodo
    obtain ⟨rfl, rfl, rfl⟩ := Task.request.inj hreq
    exact .queued rfl hc hq rfl
  | @send w st₀ i₀ kind₀ body₀ c hc =>
    cases hres : (c.trySend (w.headersFor kind₀) kind₀ body₀).result with
    | ok =>
      simp only [hres, sendTasks] at htodo
      split at htodo
      · cases htodo
      · exact absurd htodo (rest rfl)
    | error e =>
      cases e with
      | blocked e =>
        simp only [hres, sendTasks, List.singleton_append] at htodo
        obtain ⟨hreq, rfl⟩ := List.cons.inj htodo
        obtain ⟨rfl, rfl, rfl⟩ := Task.request.inj hreq
        exact .blocked rfl hc hres rfl
      | failed e =>
        simp only [hres, sendTasks] at htodo
        split at htodo
        · cases htodo
        · cases htodo
        · exact absurd htodo (rest rfl)
  | event =>
    unfold eventTasks at htodo
    split at htodo
    · obtain ⟨hreq, rfl⟩ := List.cons.inj htodo
      obtain ⟨rfl, rfl, rfl⟩ := Task.request.inj hreq
      exact .established rfl rfl rfl
    · cases htodo
    · cases htodo
    · cases htodo
    · exact absurd htodo (rest rfl)
  | closedOther =>
    unfold closedTasks at htodo
    split at htodo
    · split at htodo
      · cases htodo
      · exact absurd htodo (rest rfl)
    · exact absurd htodo (rest rfl)
  | upEcho hc =>
    obtain ⟨hreq, rfl⟩ := List.cons.inj htodo
    obtain ⟨rfl, rfl, rfl⟩ := Task.request.inj hreq
    exact .up rfl rfl hc rfl
  | flushed =>
    split at htodo
    · cases htodo
    · exact absurd htodo (rest rfl)
  | @read w st₀ i₀ c hc =>
    cases hev : (c.processConn w.cfg.check).2 with
    | nil =>
      rw [hev] at htodo
      cases htodo
    | cons ev evs =>
      rw [hev] at htodo
      cases htodo
  | @startRate w rest' job o t hrx =>
    cases hb : w.broken with
    | nil =>
      rw [hb] at htodo
      cases htodo
    | cons b bs =>
      rw [hb] at htodo
      cases htodo
  | @startDials w d now n hp hn =>
    cases n with
    | zero => cases htodo
    | succ n => cases htodo
  | ticketSend body₀ hc hs =>
    obtain ⟨hreq, rfl⟩ := List.cons.inj htodo
    obtain ⟨rfl, rfl, rfl⟩ := Task.request.inj hreq
    exact .ticket rfl hc hs rfl
  | post =>
    obtain ⟨hreq, rfl⟩ := List.cons.inj htodo
    obtain ⟨rfl, rfl, rfl⟩ := Task.request.inj hreq
    exact .post rfl rfl rfl
  | _ => first
    | exact absurd htodo (rest rfl)
    | cases htodo

/-- A ticket is drawn for a connection that is ready or broken. -/
theorem Regular.ready_of_ticket {w : Worker P} {st : List Task} {i n : ℕ}
    (hx : Regular ⟨w, .ticket i n :: st⟩) (hc : w.conn i = some c) (hs : c.state ≠ .broken) :
    c.state = .ready := by
  have hnot := (hx.echoes_slotOps (t := .ticket i n) rfl).2 c hc
  cases hst : c.state with
  | connecting => exact absurd hst hnot
  | ready => rfl
  | broken => exact absurd hst hs

theorem gets_up_ne_zero {w : Worker P} {st : List Task} (i : ℕ) : gets i ⟨w, .up i :: st⟩ ≠ 0 := by
  rw [gets, opening_cons]
  simp [Task.opening]

/-- A connection that is ready has got as far as HTTP/3. -/
theorem Move.ready_h3 (m : Move x ins outs x') (hg : Gets x)
    (h : ∀ {k c}, x.w.conn k = some c → c.state = .ready → c.h3.isSome)
    (hc' : x'.w.conn k = some c') (hs : c'.state = .ready) : c'.h3.isSome := by
  rcases m.slotStep.came hc' with ⟨c, hc, hcame⟩ | ⟨d, j, now, -, rfl⟩
  · refine hcame.h3 ?_
    cases hcame with
    | change hch => exact h hc (hch.state ▸ hs)
    | closed hst => exact h hc hst
    | @up j hd hh =>
      obtain ⟨st, ht⟩ := List.head?_eq_some_iff.mp hh
      obtain ⟨w, todo⟩ := x
      obtain rfl : todo = .up k :: st := ht
      obtain ⟨c₀, hc₀, hh3, -⟩ := hg.dialed k (gets_up_ne_zero k)
      obtain rfl := Option.some.inj (hc.symm.trans hc₀)
      exact hh3
    | broke => cases hs
  · cases hs

end Http3Bench
