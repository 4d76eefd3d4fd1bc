import Http3Bench.Carried
import Http3Bench.Ticks

/-!
# A connection on which a request has failed

`try_send` closes the QUIC connection when quiche refuses a request, and the slot is marked broken
only when a later `Closed` event is processed. The first request of a connection is an exception: its
failure ends the dial at once. As long as no other request is refused, a connection is not used again
after `try_send` has failed on it.
-/

namespace Http3Bench

variable {P : Platform}

def Entry.isSend : Entry → Bool
  | .trySend _ | .hardError _ _ | .failed _ => true
  | _ => false

/-- The history, latest entry first, in which no request is tried after one has failed on the same
connection. -/
def NoneAfterFailure (log : List Entry) : Prop :=
  ∀ l₁ u l₂, log = l₁ ++ .failed u :: l₂ → .trySend u ∉ l₁

/-- Only first requests of connections were refused. -/
def OnlyFirstRefused (log : List Entry) : Prop := ∀ u kind, .hardError u kind ∈ log → kind = .dial

theorem NoneAfterFailure.cons {log : List Entry} {e : Entry} (h : NoneAfterFailure log)
    (he : ∀ u, e = .trySend u → .failed u ∉ log) : NoneAfterFailure (e :: log) := by
  intro l₁ u l₂ hl
  cases l₁ with
  | nil => exact List.not_mem_nil
  | cons e' l₁ =>
    obtain ⟨rfl, hrest⟩ := List.cons.inj hl
    have hrest : log = l₁ ++ .failed u :: l₂ := hrest
    rw [List.mem_cons, not_or]
    refine ⟨fun heq => he u heq.symm ?_, h l₁ u l₂ hrest⟩
    rw [hrest]
    exact List.mem_append_right _ List.mem_cons_self

theorem NoneAfterFailure.append {log l : List Entry} (h : NoneAfterFailure log)
    (hl : ∀ e ∈ l, ∀ u, e ≠ .trySend u) : NoneAfterFailure (l ++ log) := by
  induction l with
  | nil => exact h
  | cons e l ih =>
    refine (ih (fun e' he' => hl e' (List.mem_cons_of_mem _ he'))).cons (fun u heq => ?_)
    exact absurd heq (hl e List.mem_cons_self u)

theorem NoneAfterFailure.entries {log : List Entry} {uid : ℕ} (h : NoneAfterFailure log)
    (hu : .failed uid ∉ log) (s : Sent P) (kind : ReqKind) :
    NoneAfterFailure (s.entries uid kind ++ log) := by
  have htry : NoneAfterFailure (.trySend uid :: log) := by
    refine h.cons (fun u he => ?_)
    obtain rfl := Entry.trySend.inj he
    exact hu
  rw [Sent.entries, List.append_assoc]
  refine htry.append (fun e he => ?_)
  rcases List.mem_append.mp he with he | he
  · split at he
    · rw [List.mem_singleton.mp he]
      simp
    · cases he
  · split at he
    · rw [List.mem_singleton.mp he]
      simp
    · cases he

variable {x x' : Mach P} {ins outs : Multiset Op}

/-- Requests are tried by one move only. -/
theorem Move.log_quiet (m : Move x ins outs x') :
    (∃ i kind body st c, x = ⟨x.w, .request i kind body :: st⟩ ∧ x.w.conn i = some c ∧
      x' = ⟨x.w.afterSend i kind c (c.trySend (x.w.headersFor kind) kind body),
        sendTasks i kind body (c.trySend (x.w.headersFor kind) kind body).result ++ st⟩) ∨
    ∃ l, x'.w.log = l ++ x.w.log ∧ ∀ e ∈ l, e.isSend = false := by
  cases m with
  | send hc => exact .inl ⟨_, _, _, _, _, rfl, hc, rfl⟩
  | @attempt w st j => exact .inr ⟨[.attempt j.purpose j.id], rfl, by simp [Entry.isSend]⟩
  | refused => exact .inr ⟨[.refused], rfl, by simp [Entry.isSend]⟩
  | @upNew w st i c j => exact .inr ⟨[.up j.purpose], rfl, by simp [Entry.isSend]⟩
  | @upEcho w st i c j => exact .inr ⟨[.up j.purpose], rfl, by simp [Entry.isSend]⟩
  | @upEchoLate w st i c j => exact .inr ⟨[.up j.purpose], rfl, by simp [Entry.isSend]⟩
  | @upRate w st i c j => exact .inr ⟨[.up j.purpose], rfl, by simp [Entry.isSend]⟩
  | registerFailed => exact .inr ⟨[.registerFailed], by simp [Worker.wait], by simp [Entry.isSend]⟩
  | seated => exact .inr ⟨[], by simp [Worker.install, Worker.put, Worker.wait], by simp⟩
  | flushed r as o t hc hr =>
    refine .inr ⟨if r.1.socketError.isSome then [.refused] else [], ?_, ?_⟩
    · rw [Worker.flushed_eq (by exact Worker.lt_of_conn hc)]
      cases r.1.socketError <;> rfl
    · split <;> simp [Entry.isSend]
  | timerRearmed ht hc hs =>
    rw [Worker.schedule_eq (Worker.conn_set rfl (Worker.lt_of_conn hc) _ |>.trans (if_pos rfl))]
    exact .inr ⟨[], rfl, by simp⟩
  | _ => exact .inr ⟨[], rfl, by simp⟩

/-- What becomes of the connection whose dial is to be given up. -/
theorem Move.of_down (m : Move x ins outs x') {k : ℕ} {err : String} {st : List Task}
    (h : x.todo = .down k err :: st) :
    (x'.todo = x.todo ∧ x'.w.slots = x.w.slots) ∨ (∀ c, x.w.conn k = some c → c.dial = none) ∨
      ∀ c', x'.w.conn k = some c' → c'.state = .broken ∧ c'.entryOps k = 0 := by
  cases m with
  | clock => exact .inl ⟨rfl, rfl⟩
  | downNone hd =>
    obtain ⟨⟨rfl, rfl⟩, rfl⟩ := List.cons.inj h
    exact .inr (.inl hd)
  | downNew hc =>
    obtain ⟨⟨rfl, rfl⟩, rfl⟩ := List.cons.inj h
    refine .inr (.inr (fun c' hc' => ?_))
    rw [Worker.conn_set (s := none) rfl (Worker.lt_of_conn hc), if_pos rfl] at hc'
    cases hc'
  | downRedial hc =>
    obtain ⟨⟨rfl, rfl⟩, rfl⟩ := List.cons.inj h
    refine .inr (.inr (fun c' hc' => ?_))
    rw [Worker.conn_set rfl (Worker.lt_of_conn hc), if_pos rfl] at hc'
    obtain rfl := Option.some.inj hc'
    exact ⟨rfl, entryOps_broke _ _⟩
  | _ => cases h

/-- A connection on which `try_send` failed has its dial given up next, or is broken and carries
nothing; no request is on its way to it. -/
structure Retired (x : Mach P) : Prop where
  known : ∀ u, .failed u ∈ x.w.log → u < x.w.serial
  ready : ∀ {k c}, x.w.conn k = some c → c.state = .ready → c.h3.isSome
  carried : ∀ {k c}, x.w.conn k = some c → c.entryOps k ≠ 0 → c.h3.isSome
  request : ∀ {i kind body st}, x.todo = .request i kind body :: st →
    ∃ c, x.w.conn i = some c ∧ c.h3.isSome ∧ .failed c.uid ∉ x.w.log
  retired : ∀ {k c}, x.w.conn k = some c → .failed c.uid ∈ x.w.log →
    (c.dial.isSome ∧ ∃ err st, x.todo = .down k err :: st) ∨ (c.state = .broken ∧ c.entryOps k = 0)
  clean : NoneAfterFailure x.w.log

namespace Retired

variable {k : ℕ} {c c' : Conn P}

/-- A connection that is not broken has not failed, unless that is just being dealt with. -/
theorem not_failed (h : Retired x) (hc : x.w.conn k = some c) (hs : c.state ≠ .broken)
    (hd : ∀ err st, x.todo ≠ .down k err :: st) : .failed c.uid ∉ x.w.log := by
  intro hf
  rcases h.retired hc hf with ⟨-, err, st, ht⟩ | ⟨hb, -⟩
  · exact hd err st ht
  · exact hs hb

theorem carried_move (m : Move x ins outs x') (hx : x.w.Sound) (h : Retired x)
    (hc' : x'.w.conn k = some c') (hne : c'.entryOps k ≠ 0) : c'.h3.isSome := by
  rcases m.slotStep.came hc' with ⟨c, hc, hcame⟩ | ⟨d, j, now, -, rfl⟩
  · refine hcame.h3 ?_
    obtain ⟨o, ho⟩ := Multiset.exists_mem_of_ne_zero hne
    rcases m.entries hx hc hc' hcame.uid ho with ho | ⟨kind, body, st, htodo, -⟩
    · exact h.carried hc (fun h0 => Multiset.notMem_zero o (h0 ▸ ho))
    · obtain ⟨c₀, hc₀, hh3, -⟩ := h.request htodo
      obtain rfl := Option.some.inj (hc.symm.trans hc₀)
      exact hh3
  · exact absurd (entryOps_seated ..) hne

theorem retired_move (m : Move x ins outs x') (hx : x.w.Sound) (h : Retired x)
    (hc' : x'.w.conn k = some c') (hold : .failed c'.uid ∈ x.w.log) :
    (c'.dial.isSome ∧ ∃ err st, x'.todo = .down k err :: st) ∨
      (c'.state = .broken ∧ c'.entryOps k = 0) := by
  rcases m.slotStep.came hc' with ⟨c, hc, hcame⟩ | ⟨d, j, now, -, rfl⟩
  · rw [hcame.uid] at hold
    rcases h.retired hc hold with ⟨hd, err, st, ht⟩ | ⟨hb, h0⟩
    · rcases m.of_down ht with ⟨htodo, hslots⟩ | hnone | hbroke
      · rw [Worker.conn_of_slots_eq hslots, hc] at hc'
        obtain rfl := Option.some.inj hc'
        exact .inl ⟨hd, err, st, htodo.trans ht⟩
      · rw [hnone c hc] at hd
        cases hd
      · exact .inr (hbroke c' hc')
    · have hdial : ∀ j, c.dial ≠ some j := fun j hj => by
        have hs := (hx.conns hc).dial.mpr (by simp [hj])
        rw [hb] at hs
        cases hs
      refine .inr ⟨?_, ?_⟩
      · cases hcame with
        | change hch => exact hch.state.trans hb
        | closed => rfl
        | up hd => exact absurd hd (hdial _)
        | broke => rfl
      · by_contra hne
        obtain ⟨o, ho⟩ := Multiset.exists_mem_of_ne_zero hne
        rcases m.entries hx hc hc' hcame.uid ho with ho | ⟨kind, body, st, htodo, -⟩
        · rw [h0] at ho
          exact Multiset.notMem_zero o ho
        · obtain ⟨c₀, hc₀, -, hnot⟩ := h.request htodo
          obtain rfl := Option.some.inj (hc.symm.trans hc₀)
          exact hnot hold
  · exact absurd (h.known _ hold) (lt_irrefl _)

/-- A request that waits on a connection. -/
theorem entryOps_of_queued {r : ReqKind × Body} {rest : List (ReqKind × Body)}
    (h : c.queued = r :: rest) : c.entryOps k ≠ 0 := by
  rw [Conn.entryOps_eq, h]
  simp [queueOps]

/-- A request on its way is for a connection that can take it. -/
theorem request_move {i : ℕ} {kind : ReqKind} {body : Body} {st : List Task} (m : Move x ins outs x')
    (hx : Regular x) (hg : Gets x) (ht : Ticking x.w x.todo) (h : Retired x)
    (htodo : x'.todo = .request i kind body :: st) :
    ∃ c, x'.w.conn i = some c ∧ c.h3.isSome ∧ .failed c.uid ∉ x'.w.log := by
  -- a connection whose first request is on its way is being dialed
  have opens : gets i x ≠ 0 → (∀ err st, x.todo ≠ .down i err :: st) →
      ∃ c, x.w.conn i = some c ∧ c.h3.isSome ∧ .failed c.uid ∉ x.w.log := by
    intro hne hd
    obtain ⟨c, hc, hh3, hdial⟩ := hg.dialed i hne
    refine ⟨c, hc, hh3, h.not_failed hc (fun hb => ?_) hd⟩
    have hs := (hx.sound.conns hc).dial.mpr hdial
    rw [hb] at hs
    cases hs
  obtain ⟨w, todo⟩ := x
  obtain ⟨w', todo'⟩ := x'
  cases m.asked hx.agenda.shape htodo with
  | same hst hslots hlog =>
    obtain ⟨c, hc, hh3, hnot⟩ := h.request hst
    refine ⟨c, (Worker.conn_of_slots_eq hslots i).trans hc, hh3, ?_⟩
    exact hlog ▸ hnot
  | @blocked c e hst hc hres hw =>
    obtain rfl : w' = _ := hw
    obtain ⟨c₀, hc₀, hh3, hnot⟩ := h.request hst
    obtain rfl := Option.some.inj (hc.symm.trans hc₀)
    have hts := trySend_cases (w.headersFor kind) kind body c
    rw [Worker.afterSend_eq]
    refine ⟨_, (Worker.conn_set rfl (Worker.lt_of_conn hc) _).trans (if_pos rfl), ?_, ?_⟩
    · unfold Sent.left
      split <;> exact hts.h3 hh3
    · have hu : (c.trySend (w.headersFor kind) kind body).left.uid = c.uid := by
        unfold Sent.left
        split <;> exact hts.frame.uid
      rw [hu, List.mem_append, not_or]
      refine ⟨?_, hnot⟩
      simp only [Sent.entries, hres]
      split <;> simp
  | @queued c rest st₀ hst hc hq hw =>
    obtain rfl : w' = _ := hw
    have hne := entryOps_of_queued (k := i) hq
    have hh3 : c.h3.isSome := h.carried hc hne
    have hnot : .failed c.uid ∉ w.log := by
      intro hf
      rcases h.retired hc hf with ⟨-, err, st, ht⟩ | ⟨-, h0⟩
      · cases hst.symm.trans ht
      · exact hne h0
    refine ⟨_, (Worker.conn_set rfl (Worker.lt_of_conn hc) _).trans (if_pos rfl), ?_, ?_⟩
    · exact hh3
    · exact hnot
  | established hk hst hw =>
    obtain rfl : w' = w := hw
    obtain rfl : todo = .event i .established :: st := hst
    refine opens ?_ (by simp)
    rw [gets, opening_cons]
    simp [Task.opening]
  | up hk hst hc hw =>
    obtain rfl : w' = _ := hw
    obtain rfl : todo = .up i :: st := hst
    obtain ⟨c₀, hc₀, hh3, hnot⟩ := opens (gets_up_ne_zero i) (by simp)
    obtain rfl := Option.some.inj (hc.symm.trans hc₀)
    refine ⟨_, (Worker.conn_set rfl (Worker.lt_of_conn hc) _).trans (if_pos rfl), ?_, ?_⟩
    · exact hh3
    · exact List.not_mem_cons_of_ne_of_not_mem (by simp) hnot
  | @ticket c n hst hc hs hw =>
    obtain rfl : w' = w := hw
    obtain rfl : todo = [.ticket i n] := hst
    exact ⟨c, hc, h.ready hc (hx.ready_of_ticket hc hs), h.not_failed hc hs (by simp)⟩
  | post hk hst hw =>
    obtain rfl : w' = w := hw
    obtain rfl : todo = _ := hst
    cases ht with
    | rest h => exact absurd (h _ List.mem_cons_self) (by simp [Task.ticks])
    | batch hp hr =>
      obtain ⟨c, hc, hst, -⟩ := hr
      exact ⟨c, hc, h.ready hc hst, h.not_failed hc (by simp [hst]) (by simp)⟩

/-- A request that is refused is the first of a connection, and what it leaves is given up next. -/
theorem send_failed {w : Worker P} {st : List Task} {i : ℕ} {kind : ReqKind} {body : Body} {e : String}
    (hg : Gets ⟨w, .request i kind body :: st⟩) (h : Retired ⟨w, .request i kind body :: st⟩)
    (hc : w.conn i = some c)
    (hfirst : OnlyFirstRefused (w.afterSend i kind c (c.trySend (w.headersFor kind) kind body)).log)
    (hres : (c.trySend (w.headersFor kind) kind body).result = .error (.failed e)) :
    c.dial.isSome ∧ kind = .dial := by
  obtain ⟨c₀, hc₀, hh3, -⟩ := h.request rfl
  obtain rfl := Option.some.inj (hc.symm.trans hc₀)
  have hhard : (c.trySend (w.headersFor kind) kind body).hard = true := by
    have hts := trySend_cases (w.headersFor kind) kind body c
    generalize c.trySend (w.headersFor kind) kind body = s at hts hres
    cases hts with
    | noH3 hn => rw [hn] at hh3; cases hh3
    | blocked => cases hres
    | refused => rfl
    | bodyRefused => rfl
    | sent => cases hres
  have hkind : kind = .dial := by
    refine hfirst c.uid kind ?_
    rw [Worker.afterSend_eq]
    simp [Sent.entries, hhard]
  subst hkind
  refine ⟨?_, rfl⟩
  obtain ⟨c₀, hc₀, -, hd⟩ := hg.dialed i (by rw [gets_eq, taskGets_cons]; simp [Task.ops, ReqKind.op])
  obtain rfl := Option.some.inj (hc.symm.trans hc₀)
  exact hd

theorem send {w : Worker P} {st : List Task} {i : ℕ} {kind : ReqKind} {body : Body}
    (hx : Regular ⟨w, .request i kind body :: st⟩) (hg : Gets ⟨w, .request i kind body :: st⟩)
    (ht : Ticking w (.request i kind body :: st)) (h : Retired ⟨w, .request i kind body :: st⟩)
    (hc : w.conn i = some c)
    (hfirst : OnlyFirstRefused (w.afterSend i kind c (c.trySend (w.headersFor kind) kind body)).log) :
    Retired ⟨w.afterSend i kind c (c.trySend (w.headersFor kind) kind body),
      sendTasks i kind body (c.trySend (w.headersFor kind) kind body).result ++ st⟩ := by
  have m : Move ⟨w, .request i kind body :: st⟩ _ _ _ := .send hc
  obtain ⟨c₀, hc₀, hh3, hnot⟩ := h.request rfl
  obtain rfl := Option.some.inj (hc.symm.trans hc₀)
  have hfailed : ∀ u, .failed u ∈ (w.afterSend i kind c (c.trySend (w.headersFor kind) kind body)).log →
      .failed u ∈ w.log ∨ (u = c.uid ∧
        ∃ e, (c.trySend (w.headersFor kind) kind body).result = .error (.failed e)) := by
    intro u hu
    rw [Worker.afterSend_eq] at hu
    rcases List.mem_append.mp hu with hu | hu
    · right
      unfold Sent.entries at hu
      split at hu
      · rename_i e he
        refine ⟨?_, e, he⟩
        split at hu <;> simpa using hu
      · split at hu <;> simp at hu
    · exact .inl hu
  refine ⟨fun u hu => ?_, fun hc' hs => m.ready_h3 hg h.ready hc' hs,
    fun hc' hne => carried_move m hx.sound h hc' hne, fun htodo => request_move m hx hg ht h htodo,
    fun {k c'} hc' hf => ?_, ?_⟩
  · rw [Worker.afterSend_eq]
    rcases hfailed u hu with hu | ⟨rfl, -⟩
    · exact h.known u hu
    · exact (hx.sound.conns hc).uid
  · rcases hfailed _ hf with hf | ⟨hu, e, he⟩
    · exact retired_move m hx.sound h hc' hf
    · -- the connection the request was for: only a first request is refused
      obtain ⟨hd, rfl⟩ := send_failed hg h hc hfirst he
      obtain ⟨c₁, hc₁, hcame⟩ := (m.slotStep.came hc').resolve_right (by simp)
      obtain rfl := hx.sound.uids hc₁ hc (hcame.uid.symm.trans hu)
      obtain rfl := Option.some.inj (hc.symm.trans hc₁)
      refine .inl ⟨?_, e, st, by simp [he, sendTasks]⟩
      have hframe := (trySend_cases (w.headersFor .dial) .dial body c).frame
      rw [Worker.afterSend_eq, Worker.conn_set rfl (Worker.lt_of_conn hc), if_pos rfl] at hc'
      obtain rfl := Option.some.inj hc'
      unfold Sent.left
      split <;> exact hframe.dial ▸ hd
  · rw [Worker.afterSend_eq]
    exact h.clean.entries hnot _ _

theorem move (m : Move x ins outs x') (hx : Regular x) (hg : Gets x) (ht : Ticking x.w x.todo)
    (hfirst : OnlyFirstRefused x'.w.log) (h : Retired x) : Retired x' := by
  rcases m.log_quiet with ⟨i, kind, body, st, c, he, hc, rfl⟩ | ⟨l, hlog, hl⟩
  · obtain ⟨w, todo⟩ := x
    obtain rfl : todo = .request i kind body :: st := congrArg Mach.todo he
    exact h.send hx hg ht hc hfirst
  · have hold : ∀ u, .failed u ∈ x'.w.log → .failed u ∈ x.w.log := by
      intro u hu
      rw [hlog] at hu
      exact (List.mem_append.mp hu).resolve_left (fun hm => (by cases hl _ hm))
    refine ⟨fun u hu => (h.known u (hold u hu)).trans_le m.slotStep.serial_le,
      fun hc' hs => m.ready_h3 hg h.ready hc' hs, fun hc' hne => carried_move m hx.sound h hc' hne,
      fun htodo => request_move m hx hg ht h htodo,
      fun hc' hf => retired_move m hx.sound h hc' (hold _ hf), ?_⟩
    rw [hlog]
    refine h.clean.append (fun e he u heq => ?_)
    rw [heq] at he
    cases hl _ he

end Retired

theorem kept_retired : Kept (fun x : Mach P => Regular x ∧ Gets x ∧ Ticking x.w x.todo)
    (fun x => OnlyFirstRefused x.w.log → Retired x) where
  new := fun cfg os now _ => by
    refine ⟨by simp [Worker.new], ?_, ?_, fun htodo => (by cases htodo), ?_, ?_⟩
    · intro k c hc
      simp [Worker.new, Worker.conn] at hc
    · intro k c hc
      simp [Worker.new, Worker.conn] at hc
    · intro k c hc
      simp [Worker.new, Worker.conn] at hc
    · intro l₁ u l₂ hl
      exact absurd hl (by simp [Worker.new])
  move := fun m hx _ h hfirst =>
    (h (fun u kind hm => hfirst u kind (m.log_suffix.subset hm))).move m hx.1 hx.2.1 hx.2.2 hfirst
  interfere := fun _ _ h hfirst =>
    have h := h hfirst
    ⟨h.known, h.ready, h.carried, fun htodo => (by cases htodo), h.retired, h.clean⟩
  command := fun _ _ _ _ _ h hfirst =>
    have h := h hfirst
    ⟨h.known, h.ready, h.carried, fun htodo => (by cases htodo), h.retired, h.clean⟩

/-- As long as only first requests are refused, `try_send` is never called again on a connection on
which it has failed. -/
theorem no_send_after_failure {cfg : EngineConfig} {t : Thread P} (ht : t.Reach cfg)
    (hfirst : OnlyFirstRefused t.w.log) : NoneAfterFailure t.w.log := by
  have hA : Kept (fun _ => True) (fun x : Mach P => Regular x ∧ Gets x ∧ Ticking x.w x.todo) :=
    kept_regular.and (kept_gets.both (kept_ticking.mono (fun _ _ => trivial)))
  have hk := (hA.and kept_retired).reach (fun h hc => h.1.1.queued hc) ht
  exact (hk.1.2 hfirst).clean

/-- The server takes no requests from the start: the first one of a connection is refused. -/
theorem no_send_after_failure_first : ∃ t : Thread loopback, t.Reach loopbackConfig ∧
    .failed 1 ∈ t.w.log ∧ OnlyFirstRefused t.w.log ∧ NoneAfterFailure t.w.log := by
  obtain ⟨t, ht, hp⟩ := Thread.exists_reach (P := loopback) loopbackConfig
    { polls := [[.waker], [.slot 0]], inbox := [([[4]], none)] } 0 [(.dial 1 1, 14)]
    (fun t => t.w.log = [.failed 1, .hardError 1 .dial, .trySend 1, .attempt .new 0])
    (by decide +kernel)
  have hlog := of_decide_eq_true hp
  have hfirst : OnlyFirstRefused t.w.log := by
    intro u kind hm
    rw [hlog] at hm
    simp at hm
    exact hm.2
  exact ⟨t, ht, by simp [hlog], hfirst, no_send_after_failure ht hfirst⟩

/-- The server leaves after the dial. The connection stays ready, and both round trips are tried on
it. -/
theorem no_send_after_failure_leaving : ¬ ∀ t : Thread loopback, t.Reach loopbackConfig →
    NoneAfterFailure t.w.log := by
  intro h
  obtain ⟨t, ht, hp⟩ := Thread.exists_reach (P := loopback) loopbackConfig {
      polls := [[.waker], [.slot 0], [.slot 0], [.slot 0], [.waker]]
      inbox := [([[1]], none), ([[2]], none), ([[4]], none)] }
    0 [(.dial 1 1, 22), (.echo ⟨2, [[7]], true, false⟩ 1, 7)]
    (fun t => t.w.log[2]? = some (.trySend 1) ∧ t.w.log[3]? = some (.failed 1)) (by decide +kernel)
  obtain ⟨hsend, hfail⟩ := of_decide_eq_true hp
  obtain ⟨hlen, heq⟩ := List.getElem?_eq_some_iff.mp hfail
  have hsplit : t.w.log = t.w.log.take 3 ++ .failed 1 :: t.w.log.drop 4 := by
    rw [← heq, ← List.drop_eq_getElem_cons hlen, List.take_append_drop]
  refine h t ht _ 1 _ hsplit ?_
  rw [← List.getElem?_take_of_lt (show 2 < 3 by omega)] at hsend
  exact List.mem_of_getElem? hsend

end Http3Bench
