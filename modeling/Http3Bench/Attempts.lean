import Http3Bench.Dialog

/-!
# How often a connection is attempted

A dial job is in one place at a time: waiting to be dialed, or being tried. While it waits it has
been attempted fewer times than its counter says, while it is tried at most as often, and the
counter stops at the number of attempts the configuration allows.
-/

namespace Http3Bench

variable {P : Platform}

/-- How often the new connection `id` was attempted. -/
def Worker.attempts (w : Worker P) (id : ℕ) : ℕ := w.log.count (.attempt .new id)

/-- The job waits to be attempted once more than `a` counts. -/
def DialJob.Waits (a : ℕ → ℕ) (n : ℕ) (j : DialJob) : Prop :=
  j.purpose = .new → a j.id < j.attempt ∧ j.attempt ≤ n

/-- The last attempt `a` counts is being made. -/
def DialJob.Tried (a : ℕ → ℕ) (n : ℕ) (j : DialJob) : Prop :=
  j.purpose = .new → a j.id ≤ j.attempt ∧ j.attempt ≤ n

def Task.Tries (a : ℕ → ℕ) (n : ℕ) : Task → Prop
  | .job j => j.Waits a n
  | .dialing j | .lost j _ => j.Tried a n
  | _ => True

structure TriesWith (a : ℕ → ℕ) (n : ℕ) (x : Mach P) : Prop where
  tasks : ∀ t ∈ x.todo, t.Tries a n
  retries : ∀ r ∈ x.w.retries, r.2.Waits a n
  conns : ∀ {i c j}, x.w.conn i = some c → c.dial = some j → j.Tried a n

structure Tries (x : Mach P) : Prop where
  bound : ∀ id, x.w.attempts id ≤ x.w.cfg.dialRetries
  fresh : ∀ id, x.w.serial ≤ id → x.w.attempts id = 0
  jobs : TriesWith x.w.attempts x.w.cfg.dialRetries x

variable {x x' : Mach P} {ins outs : Multiset Op}

theorem mem_mkJobs {start : Instant} {purpose : Purpose} {serial : ℕ} {slots : List (Option ℕ)}
    {j : DialJob} (h : j ∈ mkJobs start purpose serial slots) :
    j.attempt = 1 ∧ serial ≤ j.id ∧ j.purpose = purpose := by
  induction slots generalizing serial with
  | nil => cases h
  | cons s rest ih =>
    rcases List.mem_cons.mp h with rfl | h
    · exact ⟨rfl, Nat.le_refl _, rfl⟩
    · have := ih h
      exact ⟨this.1, (Nat.le_succ _).trans this.2.1, this.2.2⟩

theorem Move.cfg (m : Move x ins outs x') : x'.w.cfg = x.w.cfg := by
  cases m with
  | send => rw [Worker.afterSend_eq]
  | registerFailed => simp only [Worker.wait, Worker.cfg_takeSlot]
  | seated => simp only [Worker.install, Worker.put, Worker.wait, Worker.cfg_takeSlot]
  | flushed r as o t hc =>
    rw [Worker.flushed_eq (by exact Worker.lt_of_conn hc)]
    rfl
  | timerRearmed ht hc =>
    rw [Worker.schedule_eq (Worker.conn_set rfl (Worker.lt_of_conn hc) _ |>.trans (if_pos rfl))]
    rfl
  | _ => rfl

/-- The dial of a connection after a move: it had it before, or it has just been seated. -/
theorem SlotStep.dial_cases {todo : List Task} {w w' : Worker P} (hs : SlotStep todo w w') {i : ℕ}
    {c : Conn P} {j : DialJob} (hc : w'.conn i = some c) (hd : c.dial = some j) :
    (∃ c₀, w.conn i = some c₀ ∧ c₀.dial = some j) ∨
      ∃ j₀, .dialing j₀ ∈ todo ∧ j = { j₀ with slot := some i } := by
  have put : ∀ {k c₀ c₁}, w.conn k = some c₀ → w'.slots = w.slots.set k (some c₁) →
      (c₁.dial = some j → c₀.dial = some j) → ∃ c₀, w.conn i = some c₀ ∧ c₀.dial = some j := by
    intro k c₀ c₁ hc₀ hs hdial
    rw [Worker.conn_set hs (Worker.lt_of_conn hc₀)] at hc
    split at hc
    · obtain rfl := Option.some.inj hc
      rename_i hk
      exact ⟨c₀, hk ▸ hc₀, hdial hd⟩
    · exact ⟨c, hc, hd⟩
  cases hs with
  | same hs => exact .inl ⟨c, by rwa [Worker.conn_of_slots_eq hs] at hc, hd⟩
  | change hc₀ hch hs => exact .inl (put hc₀ hs (fun h => hch.dial ▸ h))
  | closed hc₀ _ hs => exact .inl (put hc₀ hs id)
  | up hc₀ _ hs => exact .inl (put hc₀ hs (fun h => by cases h))
  | broke hc₀ _ _ hs => exact .inl (put hc₀ hs (fun h => by cases h))
  | drop hc₀ _ _ hs =>
    rw [Worker.conn_set hs (Worker.lt_of_conn hc₀)] at hc
    split at hc
    · cases hc
    · exact .inl ⟨c, hc, hd⟩
  | vacate slot hlt hs =>
    rw [Worker.conn_of_slots_eq hs] at hc
    exact .inl ⟨c, Worker.conn_of_takeSlot hlt hc, hd⟩
  | seat d j₀ now hj hlt hidx hs =>
    rw [Worker.conn_set hs hidx] at hc
    split at hc
    · rename_i hi
      subst hi
      obtain rfl := Option.some.inj hc
      exact .inr ⟨j₀, List.mem_of_mem_head? hj, (Option.some.inj hd).symm⟩
    · exact .inl ⟨c, Worker.conn_of_takeSlot hlt hc, hd⟩
  | reset hs =>
    rw [Worker.conn_map hs] at hc
    obtain ⟨c₀, hc₀, rfl⟩ := Option.map_eq_some_iff.mp hc
    refine .inl ⟨c₀, hc₀, ?_⟩
    unfold Conn.resetInFlight at hd
    split at hd <;> exact hd

theorem tries_sendTasks (a : ℕ → ℕ) (n i : ℕ) (kind : ReqKind) (body : Body)
    (r : Except SendError Unit) : ∀ t ∈ sendTasks i kind body r, t.Tries a n := by
  unfold sendTasks
  split
  · split <;> simp [Task.Tries]
  · simp [Task.Tries]
  · split <;> simp [Task.Tries]

theorem tries_eventTasks (a : ℕ → ℕ) (n i : ℕ) (ev : ConnEvent) :
    ∀ t ∈ eventTasks i ev, t.Tries a n := by
  unfold eventTasks
  split <;> simp [Task.Tries]

theorem tries_closedTasks (a : ℕ → ℕ) (n i : ℕ) (reason : String) (s : Option (Conn P)) :
    ∀ t ∈ closedTasks i reason s, t.Tries a n := by
  unfold closedTasks
  split
  · split <;> simp [Task.Tries]
  · simp

theorem tries_mkJobs {a : ℕ → ℕ} {n serial : ℕ} (hn : 1 ≤ n) (hf : ∀ id, serial ≤ id → a id = 0)
    (start : Instant) (purpose : Purpose) (slots : List (Option ℕ)) :
    ∀ t ∈ (mkJobs start purpose serial slots).map Task.job, t.Tries a n := by
  intro t ht
  obtain ⟨j, hj, rfl⟩ := List.mem_map.mp ht
  have h := mem_mkJobs hj
  intro _
  rw [h.1, hf j.id h.2.1]
  exact ⟨Nat.one_pos, hn⟩

/-- A job moves on as it was attempted so far. -/
theorem Move.triesWith (m : Move x ins outs x') {a : ℕ → ℕ} {n : ℕ} (hn : 1 ≤ n)
    (hcfg : x.w.cfg.dialRetries = n) (hf : ∀ id, x.w.serial ≤ id → a id = 0)
    (h : TriesWith a n x) :
    (∀ t ∈ x'.todo, t.Tries a n) ∧ ∀ r ∈ x'.w.retries, r.2.Waits a n := by
  have ht := h.tasks
  have hr := h.retries
  have tl : ∀ {t st}, x.todo = t :: st → ∀ t' ∈ st, t'.Tries a n := fun h t' ht' =>
    ht t' (h ▸ List.mem_cons_of_mem _ ht')
  have top : ∀ {t st}, x.todo = t :: st → t.Tries a n := fun h => ht _ (h ▸ List.mem_cons_self)
  cases m with
  | clock => exact ⟨ht, hr⟩
  | send hc =>
    rw [Worker.afterSend_eq]
    exact ⟨List.forall_mem_append.mpr ⟨tries_sendTasks _ _ _ _ _ _, tl rfl⟩, hr⟩
  | event => exact ⟨List.forall_mem_append.mpr ⟨tries_eventTasks _ _ _ _, tl rfl⟩, hr⟩
  | closedOther => exact ⟨List.forall_mem_append.mpr ⟨tries_closedTasks _ _ _ _ _, tl rfl⟩, hr⟩
  | downNew hc hd hj =>
    have hj : DialJob.Tried a n _ := h.conns hc hd
    exact ⟨List.forall_mem_cons.mpr ⟨hj, tl rfl⟩, hr⟩
  | downRedial hc hd hj => exact ⟨List.forall_mem_cons.mpr ⟨h.conns hc hd, tl rfl⟩, hr⟩
  | @retry w st j err ha =>
    have hj : j.Tried a n := top (t := .lost j err) rfl
    refine ⟨tl rfl, List.forall_mem_append.mpr ⟨hr, ?_⟩⟩
    simp only [List.mem_singleton, forall_eq]
    intro hp
    have := hj hp
    exact ⟨Nat.lt_succ_of_le this.1, hcfg ▸ ha⟩
  | @attempt w st j =>
    have hj : j.Waits a n := top (t := .job j) rfl
    exact ⟨List.forall_mem_cons.mpr ⟨fun hp => ⟨(hj hp).1.le, (hj hp).2⟩, tl rfl⟩, hr⟩
  | refused => exact ⟨List.forall_mem_cons.mpr ⟨top (t := .dialing _) rfl, tl rfl⟩, hr⟩
  | registerFailed o hlt =>
    refine ⟨List.forall_mem_cons.mpr ⟨top (t := .dialing _) rfl, tl rfl⟩, ?_⟩
    simpa [Worker.wait] using hr
  | seated o₁ o₂ t hlt hidx =>
    refine ⟨List.forall_mem_cons.mpr ⟨trivial, tl rfl⟩, ?_⟩
    simpa [Worker.install, Worker.put, Worker.wait] using hr
  | flushed r as o t hc hr' =>
    rw [Worker.flushed_eq (by exact Worker.lt_of_conn hc)]
    refine ⟨List.forall_mem_append.mpr ⟨?_, tl rfl⟩, hr⟩
    split <;> simp [Task.Tries]
  | read hc =>
    refine ⟨List.forall_mem_append.mpr ⟨?_, List.forall_mem_cons.mpr ⟨trivial, tl rfl⟩⟩, hr⟩
    simp [events, Task.Tries]
  | timerRearmed ht hc hs =>
    rw [Worker.schedule_eq (Worker.conn_set rfl (Worker.lt_of_conn hc) _ |>.trans (if_pos rfl))]
    exact ⟨by simp, hr⟩
  | retryDue hq =>
    rw [hq] at hr
    exact ⟨by simpa [Task.Tries] using (List.forall_mem_cons.mp hr).1,
      (List.forall_mem_cons.mp hr).2⟩
  | startRate o t hrx =>
    exact ⟨List.forall_mem_append.mpr ⟨tries_mkJobs hn hf _ _ _, by simp [Task.Tries]⟩, hr⟩
  | startDials now k hp hk => exact ⟨tries_mkJobs hn hf _ _ _, hr⟩
  | ticketRedial => exact ⟨by simp [Task.Tries, DialJob.Waits], hr⟩
  | batch => exact ⟨List.forall_mem_cons.mpr ⟨trivial, ht⟩, hr⟩
  | dequeue => exact ⟨List.forall_mem_cons.mpr ⟨trivial, ht⟩, hr⟩
  | post => exact ⟨List.forall_mem_cons.mpr ⟨trivial, List.forall_mem_cons.mpr ⟨trivial, tl rfl⟩⟩, hr⟩
  | posted => exact ⟨by simp [Task.Tries], hr⟩
  | _ => first
    | exact ⟨tl rfl, hr⟩
    | exact ⟨List.forall_mem_cons.mpr ⟨trivial, tl rfl⟩, hr⟩
    | exact ⟨by simp [Task.Tries], hr⟩

theorem Sent.count_attempt (s : Sent P) (uid : ℕ) (kind : ReqKind) (id : ℕ) :
    (s.entries uid kind).count (.attempt .new id) = 0 := by
  unfold Sent.entries
  rw [List.count_eq_zero]
  split <;> split <;> simp

/-- Only `try_dial` attempts a connection. -/
theorem Move.attempts (m : Move x ins outs x') :
    (∃ j st, x.todo = .job j :: st ∧ x' = ⟨x.w.countAttempt j, .dialing j :: st⟩) ∨
      x'.w.attempts = x.w.attempts := by
  cases m with
  | attempt => exact .inl ⟨_, _, rfl, rfl⟩
  | send hc =>
    right
    funext id
    simp only [Worker.attempts, Worker.afterSend_eq, List.count_append, Sent.count_attempt,
      zero_add]
  | refused => exact .inr (by funext id; simp [Worker.attempts])
  | registerFailed => exact .inr (by funext id; simp [Worker.attempts, Worker.wait])
  | seated =>
    exact .inr (by funext id; simp [Worker.attempts, Worker.install, Worker.put, Worker.wait])
  | flushed r as o t hc =>
    rw [Worker.flushed_eq (by exact Worker.lt_of_conn hc)]
    right
    funext id
    simp only [Worker.attempts]
    split
    · rw [List.count_cons_of_ne (by simp)]
      rfl
    · rfl
  | timerRearmed ht hc =>
    rw [Worker.schedule_eq (Worker.conn_set rfl (Worker.lt_of_conn hc) _ |>.trans (if_pos rfl))]
    exact .inr rfl
  | _ => exact .inr rfl

theorem Phase.Books.nodup_news {p : Phase} {prep : Option ℕ} {m : Multiset Op}
    (h : p.Books prep m) : (news m).Nodup := by
  cases p with
  | dial d => exact h.1
  | _ => exact h.1 ▸ Multiset.nodup_zero

theorem attempts_countAttempt (w : Worker P) (j : DialJob) (id : ℕ) :
    (w.countAttempt j).attempts id =
      w.attempts id + if j.purpose = .new ∧ j.id = id then 1 else 0 := by
  simp only [Worker.attempts, Worker.countAttempt, List.count_cons, beq_iff_eq, Entry.attempt.injEq]

/-- While a job is dialed no other one has its identity. -/
theorem TriesWith.countAttempt {w : Worker P} {st : List Task} {j : DialJob} {n : ℕ}
    (hnd : (news (⟨w, .job j :: st⟩ : Mach P).ops).Nodup)
    (h : TriesWith w.attempts n (⟨w, .job j :: st⟩ : Mach P)) :
    TriesWith (w.countAttempt j).attempts n (⟨w.countAttempt j, .dialing j :: st⟩ : Mach P) := by
  have hother : ∀ j' : DialJob, j'.purpose = .new →
      j'.op ∈ w.total (fun i c => c.ops i) + w.retryOps + agendaOps st →
      (w.countAttempt j).attempts j'.id = w.attempts j'.id := by
    intro j' hp' hm
    rw [attempts_countAttempt, if_neg, add_zero]
    rintro ⟨hp, hid⟩
    have hops : (⟨w, .job j :: st⟩ : Mach P).ops =
        w.total (fun i c => c.ops i) + w.retryOps + agendaOps st + {j.op} := by
      simp only [Mach.ops, agendaOps_cons, Task.ops]
      abel
    rw [hops, news_add, Multiset.nodup_add] at hnd
    have hj : j.id ∈ news {j.op} := newId_mem (Multiset.mem_singleton_self _) hp
    exact Multiset.disjoint_left.mp hnd.2.2 (newId_mem hm hp') (hid ▸ hj)
  refine ⟨List.forall_mem_cons.mpr ⟨fun hp => ?_, fun t ht => ?_⟩, fun r hr => ?_,
    fun {i c j'} hc hd hp => ?_⟩
  · have hj : j.Waits w.attempts n := h.tasks (.job j) List.mem_cons_self
    rw [attempts_countAttempt, if_pos ⟨hp, rfl⟩]
    exact ⟨(hj hp).1, (hj hp).2⟩
  · have hold := h.tasks t (List.mem_cons_of_mem _ ht)
    have hmem : ∀ {o}, o ∈ t.ops → o ∈ w.total (fun i c => c.ops i) + w.retryOps + agendaOps st :=
      fun ho => Multiset.mem_add.mpr (.inr (mem_agendaOps ht ho))
    cases t with
    | job j' =>
      intro hp
      rw [hother j' hp (hmem (Multiset.mem_singleton_self _))]
      exact hold hp
    | dialing j' =>
      intro hp
      rw [hother j' hp (hmem (Multiset.mem_singleton_self _))]
      exact hold hp
    | lost j' err =>
      intro hp
      rw [hother j' hp (hmem (Multiset.mem_singleton_self _))]
      exact hold hp
    | _ => trivial
  · intro hp
    have hmem : r.2.op ∈ w.retryOps := Multiset.mem_coe.mpr (List.mem_map_of_mem hr)
    rw [hother r.2 hp (Multiset.mem_add.mpr (.inl (Multiset.mem_add.mpr (.inr hmem))))]
    exact h.retries r hr hp
  · have hmem : j'.op ∈ w.total (fun i c => c.ops i) :=
      Multiset.mem_sum.mpr ⟨i, Finset.mem_range.mpr (Worker.lt_of_conn hc),
        by simp [show w.conn i = some c from hc, Conn.ops, hd]⟩
    rw [hother j' hp (Multiset.mem_add.mpr (.inl (Multiset.mem_add.mpr (.inl hmem))))]
    exact h.conns hc hd hp

theorem Tries.move (m : Move x ins outs x') (hr : Regular x) (hn : 1 ≤ x.w.cfg.dialRetries)
    (h : Tries x) : Tries x' := by
  have hcfg : x'.w.cfg = x.w.cfg := m.cfg
  rcases m.attempts with ⟨j, st, htodo, rfl⟩ | hsame
  · obtain ⟨w, todo⟩ := x
    obtain rfl : todo = .job j :: st := htodo
    have hj : j.Waits w.attempts w.cfg.dialRetries := h.jobs.tasks (.job j) List.mem_cons_self
    refine ⟨fun id => ?_, fun id hid => ?_, h.jobs.countAttempt hr.books.phase.nodup_news⟩
    · rw [attempts_countAttempt]
      split
      · rename_i hp
        obtain ⟨hp, rfl⟩ := hp
        exact (Nat.succ_le_of_lt (hj hp).1).trans (hj hp).2
      · exact h.bound id
    · rw [attempts_countAttempt, h.fresh id hid, if_neg]
      rintro ⟨hp, rfl⟩
      have hlt := hr.books.ids j.id (newId_mem (op_mem_ops rfl) hp)
      exact absurd hlt (Nat.not_lt.mpr hid)
  · have hw := m.triesWith hn rfl h.fresh h.jobs
    refine ⟨fun id => ?_, fun id hid => ?_, ?_⟩
    · rw [hsame, hcfg]
      exact h.bound id
    · rw [hsame]
      exact h.fresh id (m.slotStep.serial_le.trans hid)
    · rw [hsame, hcfg]
      refine ⟨hw.1, hw.2, fun hc hd => ?_⟩
      rcases m.slotStep.dial_cases hc hd with ⟨c₀, hc₀, hd₀⟩ | ⟨j₀, hj₀, rfl⟩
      · exact h.jobs.conns hc₀ hd₀
      · exact h.jobs.tasks _ hj₀

theorem kept_tries : Kept (Regular (P := P)) (fun x => 1 ≤ x.w.cfg.dialRetries → Tries x) where
  new := fun cfg os now _ => by
    refine ⟨fun id => Nat.zero_le _, fun _ _ => rfl, by simp, by simp [Worker.new], ?_⟩
    intro i c j hc
    simp [Worker.new, Worker.conn] at hc
  move := fun m hr _ h hn => by
    rw [m.cfg] at hn
    exact (h hn).move m hr hn
  interfere := fun _ _ h hn => ⟨(h hn).bound, (h hn).fresh, (h hn).jobs.tasks, (h hn).jobs.retries,
    (h hn).jobs.conns⟩
  command := fun _ _ _ _ _ h hn => ⟨(h hn).bound, (h hn).fresh, (h hn).jobs.tasks,
    (h hn).jobs.retries, (h hn).jobs.conns⟩

theorem Thread.Reach.cfg_eq {cfg : EngineConfig} {t : Thread P} (h : t.Reach cfg) : t.w.cfg = cfg := by
  obtain ⟨os, now, hrun⟩ := h
  induction hrun with
  | refl => rfl
  | @tail t₁ t₂ hrun hstep ih =>
    cases hstep with
    | @turn w w' pt pt' hturn =>
      have hreg := (kept_ready.reached ⟨os, now, hrun⟩).1
      have hc : Closed true (fun x : Mach P => Regular x ∧ x.w.cfg = cfg) (fun _ _ => True) := {
        move := fun m h => ⟨kept_regular.move m trivial trivial h.1, (Move.cfg m).trans h.2⟩
        stuck := fun _ _ => trivial
        other := fun _ _ => trivial
        queued := fun h hc => h.1.queued hc }
      exact ((hc.ends_turn pt (fun _ => rfl) ⟨hreg, ih⟩).ok hturn).1.2
    | interfere s => exact ih
    | command cmd hp hrx hg => exact ih

end Http3Bench
