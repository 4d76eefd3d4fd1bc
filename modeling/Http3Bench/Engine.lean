import Http3Bench.Dialog

/-!
# The engine and its workers

`Engine::run` sends one command to each worker and waits for every outcome. A step of the engine is
a turn of one worker on the shared cells, the start of a round, or one command being sent; the
workers take their turns in any order. A round is for one BenchEcho job, whose ticket counter
starts at zero.
-/

namespace Http3Bench

variable {P : Platform}

structure Engine (P : Platform) where
  threads : List (Thread P)
  shared : Shared := {}
  /-- The commands of this round still to be sent, by worker. -/
  outbox : List (ℕ × Command) := []
  /-- The commands of every round so far. -/
  rounds : List (List Command) := []

namespace Engine

/-- `Engine::new`, each worker with its own kernel and clock. -/
def new (cfg : EngineConfig) (starts : List (P.Os × Instant)) : Engine P where
  threads := starts.map (fun s => Thread.new cfg s.1 s.2)

/-- The commands of `run`, one for each worker. -/
def numbered (cmds : List Command) : List (ℕ × Command) := cmds.zipIdx.map Prod.swap

inductive Step : Engine P → Engine P → Prop
  | turn {s : Engine P} {i : ℕ} {t : Thread P} {pt : Point} {w : Worker P} :
      s.threads[i]? = some t → turn t.pt { t.w with shared := s.shared } = .ok pt w →
      Step s { s with threads := s.threads.set i ⟨w, pt⟩, shared := w.shared }
  | run {s : Engine P} (cmds : List Command) :
      s.outbox = [] → (∀ t ∈ s.threads, t.w.sent.length = s.rounds.length) →
      cmds.length = s.threads.length →
      Step s { s with
        outbox := numbered cmds
        shared := { s.shared with issued := 0 }
        rounds := s.rounds ++ [cmds] }
  | send {s : Engine P} {i : ℕ} {cmd : Command} {rest : List (ℕ × Command)} {t : Thread P} :
      s.outbox = (i, cmd) :: rest → s.threads[i]? = some t →
      Step s { s with threads := s.threads.set i ⟨t.w.give cmd, t.pt⟩, outbox := rest }

def Reach (cfg : EngineConfig) (s : Engine P) : Prop :=
  ∃ starts, Relation.ReflTransGen Step (new cfg starts) s

end Engine

namespace Engine

/-- What is done next: a round is started, its next command is sent, a worker takes a turn. -/
inductive Action
  | run (cmds : List Command)
  | send
  | turn (i : ℕ)

def act (s : Engine P) : Action → Option (Engine P)
  | .run cmds =>
    if s.outbox.isEmpty ∧ s.threads.all (fun t => t.w.sent.length = s.rounds.length) ∧
        cmds.length = s.threads.length then
      some { s with
        outbox := numbered cmds
        shared := { s.shared with issued := 0 }
        rounds := s.rounds ++ [cmds] }
    else none
  | .send => match s.outbox with
    | [] => none
    | (i, cmd) :: rest => (s.threads[i]?).map (fun t =>
        { s with threads := s.threads.set i ⟨t.w.give cmd, t.pt⟩, outbox := rest })
  | .turn i => match s.threads[i]? with
    | none => none
    | some t => match Http3Bench.turn t.pt { t.w with shared := s.shared } with
      | .ok pt w => some { s with threads := s.threads.set i ⟨w, pt⟩, shared := w.shared }
      | .error _ _ => none

def follow : List Action → Engine P → Option (Engine P)
  | [], s => some s
  | a :: rest, s => (s.act a).bind (follow rest)

theorem step_of_act {s s' : Engine P} {a : Action} (h : s.act a = some s') : Step s s' := by
  cases a with
  | run cmds =>
    simp only [act] at h
    split at h
    · rename_i hif
      exact Option.some.inj h ▸ .run cmds (List.isEmpty_iff.mp hif.1) (by simpa using hif.2.1) hif.2.2
    · cases h
  | send =>
    simp only [act] at h
    split at h
    · cases h
    · rename_i hout
      obtain ⟨t, ht, rfl⟩ := Option.map_eq_some_iff.mp h
      exact .send hout ht
  | turn i =>
    simp only [act] at h
    split at h
    · cases h
    · rename_i ht
      split at h
      · exact Option.some.inj h ▸ .turn ht ‹_›
      · cases h

/-- A run that is evaluated to an engine with the property `p`. -/
theorem exists_reach (cfg : EngineConfig) (starts : List (P.Os × Instant)) (l : List Action)
    (p : Engine P → Bool) (h : ((new cfg starts).follow l).any p) :
    ∃ s : Engine P, s.Reach cfg ∧ p s := by
  have key : ∀ l (s : Engine P) s', s.follow l = some s' → Relation.ReflTransGen Step s s' := by
    intro l
    induction l with
    | nil => intro s s' hs; exact Option.some.inj hs ▸ .refl
    | cons a rest ih =>
      intro s s' hs
      obtain ⟨s₁, hact, hrest⟩ := Option.bind_eq_some_iff.mp hs
      exact .head (step_of_act hact) (ih s₁ s' hrest)
  cases hl : (new cfg starts).follow l with
  | none => simp [hl] at h
  | some s => exact ⟨s, ⟨starts, key l _ s hl⟩, by simpa [hl] using h⟩

end Engine

/-- A turn keeps what every move keeps. -/
theorem turn_keeps {A J : Mach P → Prop} (hA : Kept (fun _ => True) A)
    (hq : ∀ {w st i c}, A ⟨w, st⟩ → w.conn i = some c → ∀ r ∈ c.queued, r.1 ≠ .rate)
    (hJ : ∀ {x ins outs x'}, Move x ins outs x' → A x → J x → J x')
    {pt pt' : Point} {w w' : Worker P} (h : turn pt w = .ok pt' w') (ha : A ⟨w, []⟩)
    (hj : J ⟨w, []⟩) : J ⟨w', []⟩ := by
  have hc : Closed true (fun x => A x ∧ J x) (fun _ _ => True) := {
    move := fun m h => ⟨hA.move m trivial trivial h.1, hJ m h.1 h.2⟩
    stuck := fun _ _ => trivial
    other := fun _ _ => trivial
    queued := fun h hc => hq h.1 hc }
  exact ((hc.ends_turn pt (fun _ => rfl) ⟨ha, hj⟩).ok h).1.2

/-- Regular states of a worker in a dialog with the engine. -/
def Talking (x : Mach P) : Prop := Regular x ∧ Dialog x.w.front (prepOf x.todo)

theorem kept_talking : Kept (fun _ => True) (Talking (P := P)) := kept_regular.and kept_dialog

theorem Talking.queued {w : Worker P} {st : List Task} {i : ℕ} {c : Conn P} (h : Talking ⟨w, st⟩)
    (hc : w.conn i = some c) : ∀ r ∈ c.queued, r.1 ≠ .rate :=
  h.1.queued hc

theorem Thread.Reach.talking {cfg : EngineConfig} {t : Thread P} (h : t.Reach cfg) :
    Talking ⟨t.w, []⟩ :=
  (kept_talking.reach (fun h hc => h.queued hc) h).1

/-- No command is lost or made up, and no outcome taken back. -/
theorem FrontStep.told {full : Bool} {f f' : Front} {p p' : Option (RateJob × ℕ × ℕ)}
    (h : FrontStep full f p f' p') :
    f'.given = f.given ∧ f.sent <+: f'.sent := by
  cases h with
  | finish => exact ⟨rfl, List.prefix_append _ _⟩
  | _ => exact ⟨rfl, List.prefix_refl _⟩

namespace Dialog

variable {f : Front} {p : Option (RateJob × ℕ × ℕ)}

theorem sent_le (h : Dialog f p) : f.sent.length ≤ f.given.length := by
  obtain ⟨done, ha, hall⟩ := h.dialog
  have hlen := hall.length_eq
  cases ha with
  | quiet hg => rw [hg, hlen]
  | asked hg => rw [hg, ← hlen, List.length_append]; exact Nat.le_add_right _ _
  | serving hg => rw [hg, ← hlen, List.length_append]; exact Nat.le_add_right _ _
  | prep hg => rw [hg, ← hlen, List.length_append]; exact Nat.le_add_right _ _
  | stopped hg => rw [hg, ← hlen, List.length_append]; exact Nat.le_add_right _ _

theorem given_le (h : Dialog f p) : f.given.length ≤ f.sent.length + 1 := by
  obtain ⟨done, ha, hall⟩ := h.dialog
  have hlen := hall.length_eq
  cases ha with
  | quiet hg => rw [hg, hlen]; exact Nat.le_succ _
  | asked hg => rw [hg, ← hlen, List.length_append]; rfl
  | serving hg => rw [hg, ← hlen, List.length_append]; rfl
  | prep hg => rw [hg, ← hlen, List.length_append]; rfl
  | stopped hg => rw [hg, ← hlen, List.length_append]; rfl

theorem answers (h : Dialog f p) {k : ℕ} {o : Outcome} (ho : f.sent[k]? = some o) :
    ∃ cmd, f.given[k]? = some cmd ∧ Answers cmd o := by
  obtain ⟨done, ha, hall⟩ := h.dialog
  have hk := (List.getElem?_eq_some_iff.mp ho).1
  have hlt : k < done.length := hall.length_eq ▸ hk
  have hpre : done <+: f.given := by
    cases ha with
    | quiet hg => rw [hg]
    | asked hg => rw [hg]; exact List.prefix_append _ _
    | serving hg => rw [hg]; exact List.prefix_append _ _
    | prep hg => rw [hg]; exact List.prefix_append _ _
    | stopped hg => rw [hg]; exact List.prefix_append _ _
  refine ⟨done[k], ?_, ?_⟩
  · obtain ⟨rest, hrest⟩ := hpre
    rw [← hrest, List.getElem?_append_left hlt]
    exact List.getElem?_eq_getElem hlt
  · obtain rfl := Option.some.inj (ho.symm.trans (List.getElem?_eq_getElem hk))
    exact (List.forall₂_iff_get.mp hall).2 k hlt hk

/-- A worker with a command to take is idle. -/
theorem asked (h : Dialog f p) (hrx : f.rx ≠ []) : f.phase = .idle ∧ f.rx.length = 1 := by
  obtain ⟨done, ha, -⟩ := h.dialog
  cases ha with
  | asked _ hrx' hp => exact ⟨hp, by rw [hrx']; rfl⟩
  | quiet _ hrx' => exact absurd hrx' hrx
  | serving _ hrx' => exact absurd hrx' hrx
  | prep _ hrx' => exact absurd hrx' hrx
  | stopped _ hrx' => exact absurd hrx' hrx

/-- A worker that has answered every command is idle. -/
theorem quiet (h : Dialog f p) (hlen : f.given.length ≤ f.sent.length) :
    f.rx = [] ∧ f.phase = .idle ∧ List.Forall₂ Answers f.given f.sent := by
  obtain ⟨done, ha, hall⟩ := h.dialog
  have hlen' := hall.length_eq
  have key : ∀ cmd, f.given ≠ done ++ [cmd] := by
    intro cmd hg
    rw [hg, List.length_append, List.length_singleton] at hlen
    omega
  cases ha with
  | quiet hg hrx hp => exact ⟨hrx, hp, hg ▸ hall⟩
  | asked hg => exact absurd hg (key _)
  | serving hg => exact absurd hg (key _)
  | prep hg => exact absurd hg (key _)
  | stopped hg => exact absurd hg (key _)

/-- A worker in a phase has answered every command but the last. -/
theorem busy (h : Dialog f p) (hp : f.phase ≠ .idle) :
    ∃ cmd, f.given.length = f.sent.length + 1 ∧ f.given.getLast? = some cmd ∧
      Serves cmd f.phase := by
  obtain ⟨done, ha, hall⟩ := h.dialog
  obtain ⟨cmd, hg, _, hc, _⟩ := ha.calm hp
  refine ⟨cmd, ?_, ?_, hc⟩
  · rw [hg, List.length_append, hall.length_eq]
    rfl
  · rw [hg]
    simp

end Dialog

theorem not_stop_of_answers {cmds : List Command} {outs : List Outcome}
    (h : List.Forall₂ Answers cmds outs) : .stop ∉ cmds := by
  induction h with
  | nil => simp
  | cons ha _ ih =>
    rw [List.mem_cons, not_or]
    refine ⟨?_, ih⟩
    rintro rfl
    cases ha

namespace Engine

/-- How far the round has got with each worker. -/
structure Ok (cfg : EngineConfig) (s : Engine P) : Prop where
  reach : ∀ {i : ℕ} {t : Thread P}, s.threads[i]? = some t → t.Reach cfg
  nodup : (s.outbox.map Prod.fst).Nodup
  waiting : ∀ {i : ℕ} {cmd : Command} {t : Thread P}, (i, cmd) ∈ s.outbox → s.threads[i]? = some t →
    t.w.given.length + 1 = s.rounds.length ∧ t.w.given.length ≤ t.w.sent.length ∧
      ∀ cmds, s.rounds.getLast? = some cmds → cmds[i]? = some cmd
  told : ∀ {i : ℕ} {t : Thread P}, i ∉ s.outbox.map Prod.fst → s.threads[i]? = some t →
    t.w.given.length = s.rounds.length ∧
      ∀ cmds, s.rounds.getLast? = some cmds → t.w.given.getLast? = cmds[i]?

variable {cfg : EngineConfig} {s s' : Engine P}

theorem getElem?_set_cases {threads : List (Thread P)} {i k : ℕ} {a t : Thread P}
    (h : (threads.set i a)[k]? = some t) : (k = i ∧ t = a) ∨ (k ≠ i ∧ threads[k]? = some t) := by
  rw [List.getElem?_set] at h
  split at h
  · rename_i hik
    split at h
    · exact .inl ⟨hik.symm, (Option.some.inj h).symm⟩
    · cases h
  · exact .inr ⟨fun hk => ‹¬ i = k› hk.symm, h⟩

/-- What a turn leaves as it was. -/
theorem turn_told {t : Thread P} {pt : Point} {w : Worker P} (ht : t.Reach cfg)
    (h : turn t.pt { t.w with shared := s.shared } = .ok pt w) :
    (⟨w, pt⟩ : Thread P).Reach cfg ∧ w.given = t.w.given ∧ t.w.sent <+: w.sent := by
  obtain ⟨os, now, hrun⟩ := ht
  have hi : (⟨{ t.w with shared := s.shared }, t.pt⟩ : Thread P).Reach cfg :=
    ⟨os, now, hrun.tail (.interfere s.shared)⟩
  refine ⟨⟨os, now, (hrun.tail (.interfere s.shared)).tail (.turn h)⟩, ?_⟩
  refine turn_keeps (J := fun x => x.w.given = t.w.given ∧ t.w.sent <+: x.w.sent)
    kept_talking (fun h hc => h.queued hc) ?_ h hi.talking ⟨rfl, List.prefix_refl _⟩
  intro x ins outs x' m _ hj
  exact ⟨m.front.told.1.trans hj.1, hj.2.trans m.front.told.2⟩

theorem mem_numbered {cmds : List Command} {i : ℕ} {cmd : Command} :
    (i, cmd) ∈ numbered cmds ↔ cmds[i]? = some cmd := by
  rw [numbered, List.mem_map, ← List.mk_mem_zipIdx_iff_getElem?]
  exact ⟨fun ⟨a, ha, he⟩ => by rwa [← Prod.swap_swap a, he] at ha, fun h => ⟨_, h, rfl⟩⟩

theorem fst_numbered (cmds : List Command) :
    (numbered cmds).map Prod.fst = List.range cmds.length := by
  rw [numbered, List.map_map, List.range_eq_range', ← List.zipIdx_map_snd]
  rfl

theorem Step.ok (h : Step s s') (hs : s.Ok cfg) : s'.Ok cfg := by
  cases h with
  | @turn i t pt w ht hw =>
    obtain ⟨hr, hg, hle⟩ := turn_told (hs.reach ht) hw
    refine ⟨fun hk => ?_, hs.nodup, fun hm hk => ?_, fun hm hk => ?_⟩
    · rcases getElem?_set_cases hk with ⟨rfl, rfl⟩ | ⟨_, hk⟩
      · exact hr
      · exact hs.reach hk
    · rcases getElem?_set_cases hk with ⟨rfl, rfl⟩ | ⟨_, hk⟩
      · have := hs.waiting hm ht
        exact ⟨by rw [hg]; exact this.1, by rw [hg]; exact this.2.1.trans hle.length_le, this.2.2⟩
      · exact hs.waiting hm hk
    · rcases getElem?_set_cases hk with ⟨rfl, rfl⟩ | ⟨_, hk⟩
      · have := hs.told hm ht
        exact ⟨by rw [hg]; exact this.1, by rw [hg]; exact this.2⟩
      · exact hs.told hm hk
  | run cmds ho hall hlen =>
    refine ⟨hs.reach, by rw [fst_numbered]; exact List.nodup_range, fun {i cmd t} hm hk => ?_,
      fun {i t} hm hk => ?_⟩
    · have htold := hs.told (by simp [ho]) hk
      have hsent := hall t (List.mem_of_getElem? hk)
      refine ⟨by simp [htold.1], by rw [htold.1, hsent], ?_⟩
      intro cmds' hc
      obtain rfl : cmds = cmds' := by simpa using hc
      exact mem_numbered.mp hm
    · have hlt := (List.getElem?_eq_some_iff.mp hk).1
      rw [fst_numbered, List.mem_range] at hm
      exact absurd (hlen ▸ hlt) hm
  | @send i cmd rest t ho ht =>
    have hnd := hs.nodup
    rw [ho, List.map_cons, List.nodup_cons] at hnd
    have hw := hs.waiting (by rw [ho]; exact List.mem_cons_self) ht
    have hq := (hs.reach ht).talking.2.quiet hw.2.1
    refine ⟨fun hk => ?_, hnd.2, fun {k cmd' t'} hm hk => ?_, fun {k t'} hm hk => ?_⟩
    · rcases getElem?_set_cases hk with ⟨rfl, rfl⟩ | ⟨_, hk⟩
      · obtain ⟨os, now, hrun⟩ := hs.reach ht
        exact ⟨os, now, hrun.tail (.command cmd hq.2.1 hq.1 (not_stop_of_answers hq.2.2))⟩
      · exact hs.reach hk
    · rcases getElem?_set_cases hk with ⟨rfl, rfl⟩ | ⟨_, hk⟩
      · exact absurd (List.mem_map_of_mem (f := Prod.fst) hm) hnd.1
      · exact hs.waiting (by rw [ho]; exact List.mem_cons_of_mem _ hm) hk
    · rcases getElem?_set_cases hk with ⟨rfl, rfl⟩ | ⟨hne, hk⟩
      · refine ⟨by simpa [Worker.give] using hw.1, fun cmds hc => ?_⟩
        simpa [Worker.give] using (hw.2.2 cmds hc).symm
      · refine hs.told ?_ hk
        rw [ho, List.map_cons, List.mem_cons, not_or]
        exact ⟨hne, hm⟩

theorem Reach.ok (h : s.Reach cfg) : s.Ok cfg := by
  obtain ⟨starts, hrun⟩ := h
  induction hrun with
  | refl =>
    refine ⟨fun {i t} hk => ?_, List.nodup_nil, by simp [new], fun {i t} _ hk => ?_⟩
    · obtain ⟨a, _, rfl⟩ := List.mem_map.mp (List.mem_of_getElem? hk)
      exact ⟨a.1, a.2, .refl⟩
    · obtain ⟨a, _, rfl⟩ := List.mem_map.mp (List.mem_of_getElem? hk)
      exact ⟨rfl, by simp [new]⟩
  | tail _ hstep ih => exact hstep.ok ih

theorem Ok.sent_le (hs : s.Ok cfg) {i : ℕ} {t : Thread P} (hi : s.threads[i]? = some t) :
    t.w.sent.length ≤ s.rounds.length := by
  have hle : t.w.sent.length ≤ t.w.given.length := (hs.reach hi).talking.2.sent_le
  by_cases hm : i ∈ s.outbox.map Prod.fst
  · obtain ⟨a, ha, rfl⟩ := List.mem_map.mp hm
    have hw := (hs.waiting ha hi).1
    omega
  · exact hle.trans (hs.told hm hi).1.le

/-- A worker in a phase serves its command of the last round. -/
theorem Ok.serving (hs : s.Ok cfg) {i : ℕ} {t : Thread P} {cmds : List Command}
    (hi : s.threads[i]? = some t) (hround : s.rounds.getLast? = some cmds)
    (hp : t.w.phase ≠ .idle) : ∃ cmd, cmds[i]? = some cmd ∧ Serves cmd t.w.phase := by
  have htalk := (hs.reach hi).talking.2
  obtain ⟨cmd, hlen, hlast, hserves⟩ := htalk.busy (f := t.w.front) hp
  have hout : i ∉ s.outbox.map Prod.fst := by
    intro hm
    obtain ⟨a, ha, rfl⟩ := List.mem_map.mp hm
    have hw := (hs.waiting ha hi).2.1
    have hlen' : t.w.given.length = t.w.sent.length + 1 := hlen
    omega
  exact ⟨cmd, ((hs.told hout hi).2 cmds hround).symm.trans hlast, hserves⟩

end Engine

end Http3Bench
