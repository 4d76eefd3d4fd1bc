import Http3Bench.Carried
import Http3Bench.Replies
import Http3Bench.Ticks

/-!
# The connections that carry round trips

A round trip is sent on a connection that is ready, and the connection is marked broken only when its
`Closed` event is acted on. `process_conn` reports that event in two cases: every request of the
connection has been handed on before it, or HTTP/3 could not be set up on it. What stands between the
event and its turn does not bring a round trip to the connection either, as long as a connection is
not closed by the calls that read it: otherwise a response that ends a redial could come right before
the end of the connection.
-/

namespace Http3Bench

variable {P : Platform}

/-- The connection in slot `i` carries a round trip. -/
def Conn.Carries (i : ℕ) (c : Conn P) : Prop := ∃ n, .echo i n ∈ c.entryOps i

/-- What leads to a round trip on the connection in slot `i`. -/
def Task.raises (i : ℕ) : Task → Bool
  | .up k | .request k (.echo _ _) _ | .event k (.response .dial (.ok _) _) => k = i
  | _ => false

section

variable {i k : ℕ}

theorem raises_sendTasks {kind : ReqKind} {body : Body} {r : Except SendError Unit} {t : Task}
    (ht : t ∈ sendTasks k kind body r) (hr : t.raises i = true) : t = .request k kind body := by
  unfold sendTasks at ht
  split at ht
  · split at ht
    · rw [List.mem_singleton.mp ht] at hr
      cases hr
    · cases ht
  · exact List.mem_singleton.mp ht
  · split at ht
    · rw [List.mem_singleton.mp ht] at hr
      cases hr
    · rw [List.mem_singleton.mp ht] at hr
      cases hr
    · cases ht

theorem raises_eventTasks {ev : ConnEvent} {t : Task} (ht : t ∈ eventTasks k ev)
    (hr : t.raises i = true) : (Task.event k ev).raises i = true := by
  unfold eventTasks at ht
  split at ht
  · rw [List.mem_singleton.mp ht] at hr
    cases hr
  · rw [List.mem_singleton.mp ht] at hr
    exact hr
  · rw [List.mem_singleton.mp ht] at hr
    cases hr
  · rw [List.mem_singleton.mp ht] at hr
    cases hr
  · cases ht

theorem raises_closedTasks {reason : String} {s : Option (Conn P)} {t : Task}
    (ht : t ∈ closedTasks k reason s) : t.raises i = false := by
  unfold closedTasks at ht
  split at ht
  · split at ht
    · rw [List.mem_singleton.mp ht]
      rfl
    · cases ht
  · cases ht

theorem raises_of_rank {t : Task} (h : 2 ≤ t.rank) : t.raises i = false := by
  cases t <;> first | rfl | simp [Task.rank] at h

/-- Tasks that wait below the top lead to a round trip only as events. -/
theorem raises_waiting {t : Task} (h : 1 ≤ t.rank) (he : t.isEvent = false) : t.raises i = false := by
  cases t with
  | event => cases he
  | _ => first | rfl | simp [Task.rank] at h

theorem carries_of_queued {c : Conn P} {s : Instant} {n : ℕ} {body : Body}
    (hq : (.echo s n, body) ∈ c.queued) : c.Carries i := by
  refine ⟨n, ?_⟩
  rw [Conn.entryOps_eq]
  exact Multiset.mem_add.mpr (.inr (List.mem_map.mpr ⟨_, hq, rfl⟩))

end

variable {x x' : Mach P} {ins outs : Multiset Op} {i k : ℕ} {c c' : Conn P}

/-- What leads to a round trip comes from something that does, from a round trip that waits on the
connection, from a ticket, or has just been read. -/
theorem Move.raises_mem (m : Move x ins outs x') {t : Task} (ht : t ∈ x'.todo)
    (hr : t.raises i = true) : (∃ t ∈ x.todo, t.raises i = true) ∨
      (∃ c, x.w.conn i = some c ∧ c.Carries i) ∨ (∃ n, x.todo = [.ticket i n]) ∨
      ∃ st, x.todo = .read i :: st := by
  have stays : ∀ {t₀ st}, x.todo = t₀ :: st → t ∈ st → ∃ t ∈ x.todo, t.raises i = true := by
    intro t₀ st he hst
    exact ⟨t, he ▸ List.mem_cons_of_mem _ hst, hr⟩
  cases m with
  | clock => exact .inl ⟨t, ht, hr⟩
  | send =>
    rcases List.mem_append.mp ht with ht | ht
    · rw [raises_sendTasks ht hr] at hr
      exact .inl ⟨_, List.mem_cons_self, hr⟩
    · exact .inl (stays rfl ht)
  | @dequeue w st i₀ kind body c rest hc hq =>
    rcases List.mem_cons.mp ht with rfl | ht
    · cases kind with
      | echo s n =>
        obtain rfl : i₀ = i := of_decide_eq_true hr
        exact .inr (.inl ⟨c, hc, carries_of_queued (hq ▸ List.mem_cons_self)⟩)
      | _ => cases hr
    · exact .inl ⟨t, ht, hr⟩
  | event =>
    rcases List.mem_append.mp ht with ht | ht
    · exact .inl ⟨_, List.mem_cons_self, raises_eventTasks ht hr⟩
    · exact .inl (stays rfl ht)
  | closedOther =>
    rcases List.mem_append.mp ht with ht | ht
    · cases hr.symm.trans (raises_closedTasks ht)
    · exact .inl (stays rfl ht)
  | upEcho =>
    rcases List.mem_cons.mp ht with rfl | ht
    · exact .inl ⟨_, List.mem_cons_self, hr⟩
    · exact .inl (stays rfl ht)
  | flushed =>
    rcases List.mem_append.mp ht with ht | ht
    · split at ht
      · rw [List.mem_singleton.mp ht] at hr
        cases hr
      · cases ht
    · exact .inl (stays rfl ht)
  | @read w st i₀ c hc =>
    rcases List.mem_append.mp ht with ht | ht
    · obtain ⟨ev, -, rfl⟩ := List.mem_map.mp ht
      have hi : i₀ = i := by
        unfold Task.raises at hr
        split at hr <;> simp_all
      exact .inr (.inr (.inr ⟨st, hi ▸ rfl⟩))
    · rcases List.mem_cons.mp ht with rfl | ht
      · cases hr
      · exact .inl (stays rfl ht)
  | startRate =>
    rcases List.mem_append.mp ht with ht | ht
    · cases hr.symm.trans (raises_of_rank (rank_jobs _ ht).ge)
    · rw [List.mem_singleton.mp ht] at hr
      cases hr
  | startDials => cases hr.symm.trans (raises_of_rank (rank_jobs _ ht).ge)
  | ticketSend =>
    rw [List.mem_singleton.mp ht] at hr
    obtain rfl := of_decide_eq_true hr
    exact .inr (.inr (.inl ⟨_, rfl⟩))
  | post =>
    rcases List.mem_cons.mp ht with rfl | ht
    · cases hr
    · rcases List.mem_cons.mp ht with rfl | ht
      · cases hr
      · exact .inl (stays rfl ht)
  | posted =>
    rcases List.mem_cons.mp ht with rfl | ht
    · cases hr
    · rw [List.mem_singleton.mp ht] at hr
      cases hr
  | _ => first
    | exact .inl (stays rfl ht)
    | (rcases List.mem_cons.mp ht with rfl | ht
       · cases hr
       · first
         | exact .inl (stays rfl ht)
         | exact .inl ⟨t, ht, hr⟩)
    | cases ht

/-- A connection that is closed answers its requests with errors. -/
theorem raises_shut (c : Conn P) (reason : String) :
    ∀ ev ∈ (c.shut reason).2, (Task.event k ev).raises i = false := by
  intro ev hm
  rcases List.mem_append.mp hm with hm | hm
  · rcases List.mem_append.mp hm with hm | hm
    · obtain ⟨r, -, rfl⟩ := List.mem_map.mp hm
      cases r.1 <;> rfl
    · obtain ⟨e, -, rfl⟩ := List.mem_map.mp hm
      cases e.2.kind <;> rfl
  · rw [List.mem_singleton.mp hm]
    rfl

/-- When reading a connection finds it closed, its round trips have been handed on and no response
ends its dial. -/
theorem Conn.Heard.closes {heard : P.Q → Prop} (hp : ClosesOnInput heard) (hc : c.Heard heard)
    (hh : c.Carries i → c.h3.isSome) {check : Bool} {reason : String}
    (hev : .closed reason ∈ (c.processConn check).2) : ¬ (c.processConn check).1.Carries i ∧
      ∀ ev ∈ (c.processConn check).2, (Task.event i ev).raises i = false := by
  have hr := read_processConn check c
  generalize c.processConn check = r at hev hr ⊢
  obtain ⟨c', evs⟩ := r
  cases hr with
  | @shut q reason =>
    refine ⟨fun ⟨n, hn⟩ => ?_, fun ev hm => ?_⟩
    · exact Multiset.notMem_zero _ hn
    · exact raises_shut _ _ ev hm
  | failed q reason hn =>
    refine ⟨fun hcar => ?_, fun ev hm => ?_⟩
    · have hsome := hh hcar
      rw [hn] at hsome
      cases hsome
    · rw [List.mem_singleton.mp hm]
      rfl
  | waiting => cases hev
  | @polled c₁ h evs hs =>
    rcases List.mem_append.mp hev with hev | hev
    · rcases hs.start (show (c₁.resumed check h).h3.isSome from rfl) with he | ⟨he, -⟩
      · rw [he] at hev
        cases hev
      · rw [he] at hev
        cases List.mem_singleton.mp hev
    · cases Conn.isResponse_onEvents _ _ _ _ hev
  | polledShut reason hs hq hcl => cases hcl.symm.trans (hc.not_closed hp hs hq check)

/-- The events of a connection have been acted on before it is read again. -/
theorem Gets.no_event (hg : Gets x) {st : List Task} (htodo : x.todo = .read i :: st) {ev : ConnEvent} :
    .event k ev ∉ x.todo := by
  intro hev
  have horder := hg.order
  rw [htodo] at horder hev
  have hlater := (List.pairwise_cons.mp horder).1 _ ((List.mem_cons.mp hev).resolve_left nofun) rfl
  cases hlater

/-- A round trip is on a connection that is ready or on its way to one, and there is none on a
connection whose end has been read. -/
structure Carrying (x : Mach P) : Prop where
  ready : ∀ {k c}, x.w.conn k = some c → c.state = .ready → c.h3.isSome
  echo : ∀ {k c}, x.w.conn k = some c → c.Carries k → c.state = .ready
  request : ∀ {i s n body st}, x.todo = .request i (.echo s n) body :: st →
    ∃ c, x.w.conn i = some c ∧ c.state = .ready
  closed : ∀ {i reason}, .event i (.closed reason) ∈ x.todo →
    (∀ c, x.w.conn i = some c → ¬ c.Carries i) ∧ ∀ t ∈ x.todo, t.raises i = false

namespace Carrying

theorem request_move {s : Instant} {n : ℕ} {body : Body} {st : List Task} (m : Move x ins outs x')
    (hx : Regular x) (h : Carrying x) (htodo : x'.todo = .request i (.echo s n) body :: st) :
    ∃ c, x'.w.conn i = some c ∧ c.state = .ready := by
  obtain ⟨w, todo⟩ := x
  obtain ⟨w', todo'⟩ := x'
  cases m.asked hx.agenda.shape htodo with
  | same hst hslots =>
    obtain ⟨c, hc, hs⟩ := h.request hst
    exact ⟨c, (Worker.conn_of_slots_eq hslots i).trans hc, hs⟩
  | @blocked c e hst hc hres hw =>
    obtain rfl : w' = _ := hw
    obtain ⟨c₀, hc₀, hs⟩ := h.request hst
    obtain rfl := Option.some.inj (hc.symm.trans hc₀)
    have hts := trySend_cases (w.headersFor (.echo s n)) (.echo s n) body c
    rw [Worker.afterSend_eq]
    refine ⟨_, (Worker.conn_set rfl (Worker.lt_of_conn hc) _).trans (if_pos rfl), ?_⟩
    unfold Sent.left
    split <;> exact hts.frame.state.trans hs
  | @queued c rest st₀ hst hc hq hw =>
    obtain rfl : w' = _ := hw
    have hs : c.state = .ready := h.echo hc (carries_of_queued (hq ▸ List.mem_cons_self))
    refine ⟨_, (Worker.conn_set rfl (Worker.lt_of_conn hc) _).trans (if_pos rfl), ?_⟩
    exact hs
  | up hk hst hc hw =>
    obtain rfl : w' = _ := hw
    exact ⟨_, (Worker.conn_set rfl (Worker.lt_of_conn hc) _).trans (if_pos rfl), rfl⟩
  | @ticket c n hst hc hs hw =>
    obtain rfl : w' = w := hw
    obtain rfl : todo = [.ticket i n] := hst
    exact ⟨c, hc, hx.ready_of_ticket hc hs⟩
  | established hk => cases hk
  | post hk => cases hk

/-- A round trip a connection carries was there before, or has just been sent. -/
theorem carries_move (m : Move x ins outs x') (hx : x.w.Sound) (hc' : x'.w.conn k = some c')
    (hcar : c'.Carries k) : ∃ c, x.w.conn k = some c ∧ Came x.todo k c c' ∧
      (c.Carries k ∨ ∃ s n body st, x.todo = .request k (.echo s n) body :: st) := by
  obtain ⟨n, hn⟩ := hcar
  rcases m.slotStep.came hc' with ⟨c, hc, hcame⟩ | ⟨d, j, now, -, rfl⟩
  · refine ⟨c, hc, hcame, ?_⟩
    rcases m.entries hx hc hc' hcame.uid hn with hn | ⟨kind, body, st, htodo, hop⟩
    · exact .inl ⟨n, hn⟩
    · cases kind with
      | echo s n => exact .inr ⟨s, n, body, st, htodo⟩
      | _ => cases hop
  · rw [entryOps_seated] at hn
    exact absurd hn (Multiset.notMem_zero _)

theorem echo_move (m : Move x ins outs x') (hx : Regular x) (h : Carrying x)
    (hc' : x'.w.conn k = some c') (hcar : c'.Carries k) : c'.state = .ready := by
  obtain ⟨c, hc, hcame, hfrom⟩ := carries_move m hx.sound hc' hcar
  have hs : c.state = .ready := by
    rcases hfrom with hcar | ⟨s, n, body, st, htodo⟩
    · exact h.echo hc hcar
    · obtain ⟨c₀, hc₀, hs⟩ := h.request htodo
      obtain rfl := Option.some.inj (hc.symm.trans hc₀)
      exact hs
  cases hcame with
  | change hch => exact hch.state.trans hs
  | closed _ hh =>
    obtain ⟨st, ht⟩ := List.head?_eq_some_iff.mp hh
    have hno := h.closed (ht ▸ List.mem_cons_self)
    rcases hfrom with hcar | ⟨s, n, body, st, htodo⟩
    · exact absurd hcar (hno.1 c hc)
    · cases htodo.symm.trans ht
  | up => rfl
  | broke =>
    obtain ⟨n, hn⟩ := hcar
    rw [entryOps_broke] at hn
    exact absurd hn (Multiset.notMem_zero _)

theorem closed_move {heard : P.Q → Prop} (hp : ClosesOnInput heard) (m : Move x ins outs x')
    (hx : Regular x) (hg : Gets x) (hh : x.w.Every (Conn.Heard heard)) (h : Carrying x)
    {reason : String} (hev : .event i (.closed reason) ∈ x'.todo) :
    (∀ c, x'.w.conn i = some c → ¬ c.Carries i) ∧ ∀ t ∈ x'.todo, t.raises i = false := by
  rcases m.event_mem hev with hold | ⟨c, st, htodo, hc, hnew⟩
  · obtain ⟨hno, hquiet⟩ := h.closed hold
    refine ⟨fun c' hc' hcar => ?_, fun t ht => ?_⟩
    · obtain ⟨c, hc, -, hcar | ⟨s, n, body, st, htodo⟩⟩ := carries_move m hx.sound hc' hcar
      · exact hno c hc hcar
      · have := hquiet _ (htodo ▸ List.mem_cons_self)
        simp [Task.raises] at this
    · by_contra hr
      rcases m.raises_mem ht (by simpa using hr) with ⟨t, ht, hr⟩ | ⟨c, hc, hcar⟩ | ⟨n, htodo⟩ |
        ⟨st, htodo⟩
      · rw [hquiet t ht] at hr
        cases hr
      · exact hno c hc hcar
      · rw [htodo] at hold
        cases List.mem_singleton.mp hold
      · exact hg.no_event htodo hold
  · have hready : c.Carries i → c.h3.isSome := fun hcar => h.ready hc (h.echo hc hcar)
    obtain ⟨hno, hquiet⟩ := (hh i c hc).closes hp hready hnew
    have hshape := hx.agenda.shape
    have horder := hg.order
    cases m with
    | clock => exact absurd hev (hg.no_event htodo)
    | readNone hnone =>
      obtain ⟨hi, -⟩ := List.cons.inj htodo
      obtain rfl := Task.read.inj hi
      cases hc.symm.trans hnone
    | @read w st₀ i₀ c₀ hc₀ =>
      obtain ⟨hi, rfl⟩ := List.cons.inj htodo
      obtain rfl := Task.read.inj hi
      obtain rfl := Option.some.inj (hc.symm.trans hc₀)
      refine ⟨fun c' hc' => ?_, fun t ht => ?_⟩
      · rw [Worker.conn_set rfl (Worker.lt_of_conn hc), if_pos rfl] at hc'
        obtain rfl := Option.some.inj hc'
        exact hno
      · rcases List.mem_append.mp ht with ht | ht
        · obtain ⟨ev, hm, rfl⟩ := List.mem_map.mp ht
          exact hquiet ev hm
        · rcases List.mem_cons.mp ht with rfl | ht
          · rfl
          · exact raises_waiting (hshape.waiting t ht) ((List.pairwise_cons.mp horder).1 t ht rfl)
    | _ => cases htodo

theorem move {heard : P.Q → Prop} (hp : ClosesOnInput heard) (m : Move x ins outs x') (hx : Regular x)
    (hg : Gets x) (hh : x.w.Every (Conn.Heard heard)) (h : Carrying x) : Carrying x' where
  ready := fun hc' hs => m.ready_h3 hg h.ready hc' hs
  echo := fun hc' hcar => echo_move m hx h hc' hcar
  request := fun htodo => request_move m hx h htodo
  closed := fun hev => closed_move hp m hx hg hh h hev

end Carrying

theorem kept_carrying {heard : P.Q → Prop} (hp : ClosesOnInput heard) :
    Kept (fun x : Mach P => Regular x ∧ Gets x ∧ x.w.Every (Conn.Heard heard)) Carrying where
  new := fun cfg os now => by
    refine ⟨?_, ?_, fun htodo => (by cases htodo), fun hev => (by cases hev)⟩
    · intro k c hc
      simp [Worker.new, Worker.conn] at hc
    · intro k c hc
      simp [Worker.new, Worker.conn] at hc
  move := fun m hx _ h => h.move hp m hx.1 hx.2.1 hx.2.2
  interfere := fun _ _ h => ⟨h.ready, h.echo, fun htodo => (by cases htodo), fun hev => (by cases hev)⟩
  command := fun _ _ _ _ _ h =>
    ⟨h.ready, h.echo, fun htodo => (by cases htodo), fun hev => (by cases hev)⟩

end Http3Bench
