import Http3Bench.Engine
import Http3Bench.Gather

/-!
# `Engine::run`, message by message

The main thread sends the commands of a call one by one and then counts outcomes as they arrive on
the channel all workers share; the workers take their turns meanwhile, and some may have answered
before others were sent their command. The engine with its rounds is what this looks like when the
channel is left out: a call begins only when every worker has answered the one before.

`calls`, `returned` and `got` are history: the commands of every call, what the calls that are over
returned, and the outcomes that have arrived in the one that is not.
-/

namespace Http3Bench

variable {P : Platform}

/-- Where the main thread is in `Engine::run`. -/
inductive Main
  | ready
  | sending (rest : List (ℕ × Command))
  | gathering (g : Gather Outcome)

def Main.outbox : Main → List (ℕ × Command)
  | .sending rest => rest
  | _ => []

/-- The calls that are not over. -/
def Main.calls : Main → ℕ
  | .ready => 0
  | _ => 1

/-- A command is put on the channel of a worker. -/
def Worker.push (w : Worker P) (cmd : Command) : Worker P :=
  { w with rx := w.rx ++ [cmd], given := w.given ++ [cmd] }

structure Bench (P : Platform) where
  threads : List (Thread P)
  shared : Shared := {}
  results : List (ℕ × Outcome) := []
  main : Main := .ready
  calls : List (List Command) := []
  returned : List (List Outcome) := []
  got : List (ℕ × Outcome) := []

namespace Bench

def new (cfg : EngineConfig) (starts : List (P.Os × Instant)) : Bench P where
  threads := starts.map (fun s => Thread.new cfg s.1 s.2)

inductive Step : Bench P → Bench P → Prop
  | turn {s : Bench P} {i : ℕ} {t : Thread P} {pt : Point} {w : Worker P} :
      s.threads[i]? = some t → turn t.pt { t.w with shared := s.shared } = .ok pt w →
      Step s { s with
        threads := s.threads.set i ⟨w, pt⟩
        shared := w.shared
        results := s.results ++ (w.sent.drop t.w.sent.length).map (fun o => (i, o)) }
  | call {s : Bench P} (cmds : List Command) :
      s.main = .ready → cmds.length = s.threads.length → .stop ∉ cmds →
      Step s { s with
        main := .sending (Engine.numbered cmds)
        shared := { s.shared with issued := 0 }
        calls := s.calls ++ [cmds] }
  | send {s : Bench P} {i : ℕ} {cmd : Command} {rest : List (ℕ × Command)} {t : Thread P} :
      s.main = .sending ((i, cmd) :: rest) → s.threads[i]? = some t →
      Step s { s with threads := s.threads.set i ⟨t.w.push cmd, t.pt⟩, main := .sending rest }
  | wait {s : Bench P} :
      s.main = .sending [] → Step s { s with main := .gathering (.new s.threads.length) }
  | recv {s : Bench P} {g : Gather Outcome} {r : ℕ × Outcome} {rest : List (ℕ × Outcome)} :
      s.main = .gathering g → g.pending ≠ 0 → s.results = r :: rest →
      Step s { s with main := .gathering (g.take r), results := rest, got := s.got ++ [r] }
  | ret {s : Bench P} {g : Gather Outcome} {os : List Outcome} :
      s.main = .gathering g → g.pending = 0 → g.unwrapped = some os →
      Step s { s with main := .ready, returned := s.returned ++ [os], got := [] }

def Reach (cfg : EngineConfig) (s : Bench P) : Prop :=
  ∃ starts, Relation.ReflTransGen Step (new cfg starts) s

/-- What is done next. -/
inductive Action
  | turn (i : ℕ)
  | call (cmds : List Command)
  | send
  | wait
  | recv
  | ret

def act (s : Bench P) : Action → Option (Bench P)
  | .turn i => match s.threads[i]? with
    | none => none
    | some t => match Http3Bench.turn t.pt { t.w with shared := s.shared } with
      | .ok pt w => some { s with
          threads := s.threads.set i ⟨w, pt⟩
          shared := w.shared
          results := s.results ++ (w.sent.drop t.w.sent.length).map (fun o => (i, o)) }
      | .error _ _ => none
  | .call cmds => match s.main with
    | .ready => if cmds.length = s.threads.length ∧ .stop ∉ cmds then some { s with
          main := .sending (Engine.numbered cmds)
          shared := { s.shared with issued := 0 }
          calls := s.calls ++ [cmds] }
        else none
    | _ => none
  | .send => match s.main with
    | .sending ((i, cmd) :: rest) => s.threads[i]?.map (fun t =>
        { s with threads := s.threads.set i ⟨t.w.push cmd, t.pt⟩, main := .sending rest })
    | _ => none
  | .wait => match s.main with
    | .sending [] => some { s with main := .gathering (.new s.threads.length) }
    | _ => none
  | .recv => match s.main, s.results with
    | .gathering g, r :: rest => if g.pending ≠ 0 then
          some { s with main := .gathering (g.take r), results := rest, got := s.got ++ [r] }
        else none
    | _, _ => none
  | .ret => match s.main with
    | .gathering g => if g.pending = 0 then g.unwrapped.map (fun os =>
          { s with main := .ready, returned := s.returned ++ [os], got := [] })
        else none
    | _ => none

theorem step_of_act {s s' : Bench P} {a : Action} (h : s.act a = some s') : Step s s' := by
  cases a with
  | turn i =>
    simp only [act] at h
    split at h
    · cases h
    · split at h
      · exact Option.some.inj h ▸ .turn ‹_› ‹_›
      · cases h
  | call cmds =>
    simp only [act] at h
    split at h
    · split at h
      · rename_i hmain hif
        exact Option.some.inj h ▸ .call cmds hmain hif.1 hif.2
      · cases h
    · cases h
  | send =>
    simp only [act] at h
    split at h
    · obtain ⟨t, ht, rfl⟩ := Option.map_eq_some_iff.mp h
      exact .send ‹_› ht
    · cases h
  | wait =>
    simp only [act] at h
    split at h
    · exact Option.some.inj h ▸ .wait ‹_›
    · cases h
  | recv =>
    simp only [act] at h
    split at h
    · split at h
      · rename_i hmain hres h0
        exact Option.some.inj h ▸ .recv hmain h0 hres
      · cases h
    · cases h
  | ret =>
    simp only [act] at h
    split at h
    · split at h
      · rename_i hmain h0
        obtain ⟨os, hos, rfl⟩ := Option.map_eq_some_iff.mp h
        exact .ret hmain h0 hos
      · cases h
    · cases h

/-- A run that is evaluated to a state with the property `p`. -/
theorem exists_reach (cfg : EngineConfig) (starts : List (P.Os × Instant)) (l : List Action)
    (p : Bench P → Bool) (h : (l.foldlM act (new cfg starts)).any p) :
    ∃ s : Bench P, s.Reach cfg ∧ p s := by
  have key : ∀ (l : List Action) (s : Bench P) s', l.foldlM act s = some s' → Relation.ReflTransGen Step s s' := by
    intro l
    induction l with
    | nil => intro s s' hs; exact Option.some.inj hs ▸ .refl
    | cons a rest ih =>
      intro s s' hs
      rw [List.foldlM_cons] at hs
      obtain ⟨s₁, hact, hrest⟩ := Option.bind_eq_some_iff.mp hs
      exact .head (step_of_act hact) (ih s₁ s' hrest)
  obtain ⟨s, hs, hp⟩ := (Option.any_eq_true ..).mp h
  exact ⟨s, ⟨starts, key l _ s hs⟩, hp⟩

/-! ### The channel left out -/

def engine (s : Bench P) : Engine P where
  threads := s.threads
  shared := s.shared
  outbox := s.main.outbox
  rounds := s.calls

/-- The commands of worker `i` in every call, and the outcomes of its that were returned. -/
def column (s : Bench P) (i : ℕ) : List Command := s.calls.filterMap (fun cmds => cmds[i]?)

def returnedOf (s : Bench P) (i : ℕ) : List Outcome := s.returned.filterMap (fun os => os[i]?)

/-- The outcomes of worker `i` in the call that is not over, arrived or on their way. -/
def heldOf (l : List (ℕ × Outcome)) (i : ℕ) : List Outcome :=
  (l.filter (fun r => r.1 = i)).map Prod.snd

/-- What the main thread holds of the call it is in. -/
def Holds (n : ℕ) (got results : List (ℕ × Outcome)) : Main → Prop
  | .ready => got = [] ∧ results = []
  | .sending _ => got = []
  | .gathering g => g.Holds n got

/-- Every outcome a worker sent was returned by the call of its number, or belongs to the call that is
not over. -/
structure Linked (s : Bench P) : Prop where
  calls : s.calls.length = s.returned.length + s.main.calls
  sizes : ∀ os ∈ s.returned, os.length = s.threads.length
  widths : ∀ cmds ∈ s.calls, cmds.length = s.threads.length
  ids : ∀ r ∈ s.got ++ s.results, r.1 < s.threads.length
  given : ∀ {i : ℕ} {t : Thread P}, s.threads[i]? = some t →
    (i ∉ s.main.outbox.map Prod.fst → t.w.given = s.column i) ∧
    ∀ cmd, (i, cmd) ∈ s.main.outbox → t.w.given ++ [cmd] = s.column i
  sent : ∀ {i : ℕ} {t : Thread P}, s.threads[i]? = some t →
    t.w.sent = s.returnedOf i ++ heldOf (s.got ++ s.results) i
  main : Holds s.threads.length s.got s.results s.main

theorem heldOf_append (l l' : List (ℕ × Outcome)) (i : ℕ) :
    heldOf (l ++ l') i = heldOf l i ++ heldOf l' i := by
  simp [heldOf]

theorem heldOf_tagged (k i : ℕ) (os : List Outcome) :
    heldOf (os.map (fun o => (k, o))) i = if k = i then os else [] := by
  by_cases h : k = i
  · simp [heldOf, List.filter_map, h]
  · simp [heldOf, List.filter_map, h]

theorem mem_heldOf {l : List (ℕ × Outcome)} {i : ℕ} {o : Outcome} :
    o ∈ heldOf l i ↔ (i, o) ∈ l := by
  simp [heldOf]

theorem count_ids (l : List (ℕ × Outcome)) (i : ℕ) :
    (l.map Prod.fst).count i = (heldOf l i).length := by
  rw [heldOf, List.length_map, List.count, List.countP_map, List.countP_eq_length_filter]
  congr 1

theorem length_filterMap_getElem? {α : Type} {l : List (List α)} {n i : ℕ}
    (h : ∀ a ∈ l, a.length = n) (hi : i < n) : (l.filterMap (fun a => a[i]?)).length = l.length := by
  induction l with
  | nil => rfl
  | cons a l ih =>
    have ha : i < a.length := by rw [h a (List.mem_cons_self ..)]; exact hi
    simp only [List.filterMap_cons, List.getElem?_eq_getElem ha, List.length_cons,
      ih (fun b hb => h b (List.mem_cons_of_mem _ hb))]

theorem getElem?_filterMap_getElem? {α : Type} {l : List (List α)} {n i : ℕ}
    (h : ∀ a ∈ l, a.length = n) (hi : i < n) (k : ℕ) :
    (l.filterMap (fun a => a[i]?))[k]? = l[k]?.bind (fun a => a[i]?) := by
  induction l generalizing k with
  | nil => simp
  | cons a l ih =>
    have ha : i < a.length := by rw [h a (List.mem_cons_self ..)]; exact hi
    simp only [List.filterMap_cons, List.getElem?_eq_getElem ha]
    cases k with
    | zero => simp [List.getElem?_eq_getElem ha]
    | succ k => simpa using ih (fun b hb => h b (List.mem_cons_of_mem _ hb)) k

theorem filterMap_concat {α : Type} (l : List (List α)) {a : List α} {i : ℕ} {x : α}
    (h : a[i]? = some x) :
    (l ++ [a]).filterMap (fun b => b[i]?) = l.filterMap (fun b => b[i]?) ++ [x] := by
  rw [List.filterMap_append]
  simp only [List.filterMap_cons, h, List.filterMap_nil]

section

variable {cfg : EngineConfig} {s s' : Bench P} {i : ℕ} {t : Thread P}

theorem Linked.length_returnedOf (h : s.Linked) (hi : i < s.threads.length) :
    (s.returnedOf i).length = s.returned.length :=
  length_filterMap_getElem? h.sizes hi

/-- A worker has sent at most one outcome in the call that is not over. -/
theorem Linked.length_held (h : s.Linked) (hok : s.engine.Ok cfg) (hi : s.threads[i]? = some t) :
    t.w.sent.length = s.returned.length + (heldOf (s.got ++ s.results) i).length ∧
      (heldOf (s.got ++ s.results) i).length ≤ s.main.calls := by
  have hlt := (List.getElem?_eq_some_iff.mp hi).1
  have hsent : t.w.sent.length =
      s.returned.length + (heldOf (s.got ++ s.results) i).length := by
    rw [h.sent hi, List.length_append, h.length_returnedOf hlt]
  have hle : t.w.sent.length ≤ s.calls.length := hok.sent_le hi
  have hcalls := h.calls
  omega

/-- With the channel left out, a step is one of the engine or none. -/
theorem Step.refines (h : Step s s') (hl : s.Linked) (hok : s.engine.Ok cfg) :
    s'.engine = s.engine ∨ Engine.Step s.engine s'.engine := by
  cases h with
  | turn ht hw => exact .inr (.turn ht hw)
  | call cmds hmain hlen _ =>
    have hout : s.engine.outbox = [] := by simp [engine, hmain, Main.outbox]
    refine .inr (.run cmds hout (fun t ht => ?_) hlen)
    obtain ⟨i, hi⟩ := List.mem_iff_getElem?.mp ht
    have hheld := hl.length_held hok hi
    have hcalls : s.calls.length = s.returned.length + s.main.calls := hl.calls
    rw [hmain] at hheld hcalls
    change t.w.sent.length = s.calls.length
    simp only [Main.calls] at hheld hcalls
    omega
  | @send i cmd rest t hmain ht =>
    have hout : s.engine.outbox = (i, cmd) :: rest := by simp [engine, hmain, Main.outbox]
    have hw := hok.waiting (by rw [hout]; exact List.mem_cons_self ..) ht
    have hrx : t.w.rx = [] := ((hok.reach ht).talking.2.quiet hw.2.1).1
    have hpush : t.w.push cmd = t.w.give cmd := by simp [Worker.push, Worker.give, hrx]
    have hstep := Engine.Step.send hout ht
    rw [← hpush] at hstep
    exact .inr hstep
  | wait hmain => exact .inl (by simp [engine, hmain, Main.outbox])
  | recv hmain => exact .inl (by simp [engine, hmain, Main.outbox])
  | ret hmain => exact .inl (by simp [engine, hmain, Main.outbox])

theorem Linked.turn {pt : Point} {w : Worker P} (h : s.Linked) (hok : s.engine.Ok cfg)
    (ht : s.threads[i]? = some t) (hw : turn t.pt { t.w with shared := s.shared } = .ok pt w)
    (hle : w.sent.length ≤ s.calls.length) :
    Linked { s with
      threads := s.threads.set i ⟨w, pt⟩
      shared := w.shared
      results := s.results ++ (w.sent.drop t.w.sent.length).map (fun o => (i, o)) } := by
  obtain ⟨-, hgiven, hpre⟩ := Engine.turn_told (s := s.engine) (hok.reach ht) hw
  have hlt := (List.getElem?_eq_some_iff.mp ht).1
  have hsent : w.sent = t.w.sent ++ w.sent.drop t.w.sent.length :=
    (List.prefix_iff_eq_append.mp hpre).symm
  refine ⟨h.calls, by simpa using h.sizes, by simpa using h.widths, fun r hr => ?_,
    fun {k t'} hk => ?_, fun {k t'} hk => ?_, ?_⟩
  · rw [← List.append_assoc, List.mem_append] at hr
    rw [List.length_set]
    rcases hr with hr | hr
    · exact h.ids r hr
    · obtain ⟨o, _, rfl⟩ := List.mem_map.mp hr
      exact hlt
  · rcases Engine.getElem?_set_cases hk with ⟨rfl, rfl⟩ | ⟨_, hk⟩
    · exact ⟨fun hm => hgiven.trans ((h.given ht).1 hm), fun cmd hm => by
        rw [hgiven]; exact (h.given ht).2 cmd hm⟩
    · exact h.given hk
  · rw [← List.append_assoc, heldOf_append, heldOf_tagged]
    rcases Engine.getElem?_set_cases hk with ⟨rfl, rfl⟩ | ⟨hne, hk⟩
    · rw [if_pos rfl, ← List.append_assoc]
      refine hsent.trans ?_
      congr 1
      exact h.sent ht
    · rw [if_neg (Ne.symm hne), List.append_nil]
      exact h.sent hk
  · have hmain := h.main
    rw [List.length_set]
    cases hm : s.main with
    | ready =>
      rw [hm] at hmain
      have hheld := h.length_held hok ht
      have hcalls := h.calls
      simp only [hm, Main.calls] at hheld hcalls
      have hnew : w.sent.drop t.w.sent.length = [] := List.drop_eq_nil_of_le (by omega)
      rw [hnew]
      exact ⟨hmain.1, by rw [hmain.2]; rfl⟩
    | sending rest => rw [hm] at hmain; exact hmain
    | gathering g => rw [hm] at hmain; exact hmain

theorem Linked.call {cmds : List Command} (h : s.Linked) (hmain : s.main = .ready)
    (hlen : cmds.length = s.threads.length) :
    Linked { s with
      main := .sending (Engine.numbered cmds)
      shared := { s.shared with issued := 0 }
      calls := s.calls ++ [cmds] } := by
  have hm := h.main
  have hcalls := h.calls
  rw [hmain] at hm hcalls
  refine ⟨by simp [hcalls, Main.calls], h.sizes, fun c hc => ?_, h.ids, fun {i t} hi => ?_,
    h.sent, hm.1⟩
  · rcases List.mem_append.mp hc with hc | hc
    · exact h.widths c hc
    · rw [List.mem_singleton.mp hc]
      exact hlen
  · have hlt := (List.getElem?_eq_some_iff.mp hi).1
    have hgiven := (h.given hi).1 (by simp [hmain, Main.outbox])
    refine ⟨fun hno => ?_, fun cmd hc => ?_⟩
    · simp only [Main.outbox, Engine.fst_numbered, List.mem_range, hlen] at hno
      exact absurd hlt hno
    · rw [column, filterMap_concat s.calls (Engine.mem_numbered.mp hc), hgiven]
      rfl

theorem Linked.send {cmd : Command} {rest : List (ℕ × Command)} (h : s.Linked)
    (hok : s.engine.Ok cfg) (hmain : s.main = .sending ((i, cmd) :: rest))
    (ht : s.threads[i]? = some t) :
    Linked { s with threads := s.threads.set i ⟨t.w.push cmd, t.pt⟩, main := .sending rest } := by
  have hnodup : (s.main.outbox.map Prod.fst).Nodup := hok.nodup
  have hmn := h.main
  have hcalls := h.calls
  rw [hmain] at hnodup hmn hcalls
  simp only [Main.outbox, List.map_cons, List.nodup_cons] at hnodup
  refine ⟨hcalls, by simpa using h.sizes, by simpa using h.widths, by simpa using h.ids,
    fun {k t'} hk => ?_, fun {k t'} hk => ?_, hmn⟩
  · rcases Engine.getElem?_set_cases hk with ⟨rfl, rfl⟩ | ⟨hne, hk⟩
    · refine ⟨fun _ => (h.given ht).2 cmd ?_, fun cmd' hm => ?_⟩
      · rw [hmain]
        exact List.mem_cons_self ..
      · exact absurd (List.mem_map.mpr ⟨_, hm, rfl⟩) hnodup.1
    · refine ⟨fun hm => (h.given hk).1 ?_, fun cmd' hm => (h.given hk).2 cmd' ?_⟩
      · rw [hmain]
        simp only [Main.outbox, List.map_cons, List.mem_cons, not_or]
        exact ⟨hne, hm⟩
      · rw [hmain]
        exact List.mem_cons_of_mem _ hm
  · rcases Engine.getElem?_set_cases hk with ⟨rfl, rfl⟩ | ⟨_, hk⟩
    · exact (h.sent ht : t.w.sent = _)
    · exact h.sent hk

theorem Linked.recv {g : Gather Outcome} {r : ℕ × Outcome} {rest : List (ℕ × Outcome)}
    (h : s.Linked) (hok : s.engine.Ok cfg) (hmain : s.main = .gathering g)
    (hres : s.results = r :: rest) :
    Linked { s with main := .gathering (g.take r), results := rest, got := s.got ++ [r] } := by
  have hall : s.got ++ [r] ++ rest = s.got ++ s.results := by
    rw [hres, List.append_assoc, List.singleton_append]
  have hmn := h.main
  have hcalls := h.calls
  have hlt : r.1 < s.threads.length := h.ids r (by simp [hres])
  -- a second outcome of the same worker would make two in one call
  have hnew : r.1 ∉ s.got.map Prod.fst := by
    intro hm
    have hheld := (h.length_held hok (List.getElem?_eq_getElem hlt)).2
    rw [← count_ids, hres, List.map_append, List.count_append, List.map_cons, List.count_cons_self]
      at hheld
    simp only [hmain, Main.calls] at hheld
    have hone := List.one_le_count_iff.mpr hm
    omega
  rw [hmain] at hmn hcalls
  refine ⟨hcalls, h.sizes, h.widths, by simpa only [hall] using h.ids, fun {k t'} hk => ?_,
    fun {k t'} hk => ?_, hmn.take hlt hnew⟩
  · have hgiven := h.given hk
    rw [hmain] at hgiven
    exact hgiven
  · have hsent := h.sent hk
    rw [← hall] at hsent
    exact hsent

theorem Linked.ret {g : Gather Outcome} {os : List Outcome} (h : s.Linked)
    (hok : s.engine.Ok cfg) (hmain : s.main = .gathering g) (h0 : g.pending = 0)
    (hos : g.unwrapped = some os) :
    Linked { s with main := .ready, returned := s.returned ++ [os], got := [] } := by
  have hmn := h.main
  have hcalls := h.calls
  rw [hmain] at hmn hcalls
  obtain ⟨hperm, os', hos', hlen, hget⟩ := hmn.complete h0
  obtain rfl : os = os' := Option.some.inj (hos.symm.trans hos')
  -- each worker's outcome has arrived, so there is none of its on the way
  have hheld : ∀ k, (hk : k < s.threads.length) →
      heldOf s.got k = [os[k]] ∧ heldOf s.results k = [] := by
    intro k hk
    have hle := (h.length_held hok (List.getElem?_eq_getElem hk)).2
    rw [heldOf_append, List.length_append] at hle
    simp only [hmain, Main.calls] at hle
    have hmem : os[k] ∈ heldOf s.got k :=
      mem_heldOf.mpr ((hget k _).mp (List.getElem?_eq_getElem (hlen ▸ hk)))
    have hpos := List.length_pos_of_mem hmem
    obtain ⟨o, ho⟩ := List.length_eq_one_iff.mp (by omega : (heldOf s.got k).length = 1)
    rw [ho, List.mem_singleton] at hmem
    exact ⟨by rw [ho, hmem], List.length_eq_zero_iff.mp (by omega)⟩
  have hres : s.results = [] := by
    apply List.eq_nil_iff_forall_not_mem.mpr
    intro r hr
    have hnone := (hheld r.1 (h.ids r (List.mem_append_right _ hr))).2
    have hmem : r.2 ∈ heldOf s.results r.1 := mem_heldOf.mpr hr
    rw [hnone] at hmem
    cases hmem
  refine ⟨by simp [hcalls, Main.calls], fun o ho => ?_, h.widths, by simp [hres], fun {k t'} hk => ?_,
    fun {k t'} hk => ?_, ⟨rfl, hres⟩⟩
  · rcases List.mem_append.mp ho with ho | ho
    · exact h.sizes o ho
    · rw [List.mem_singleton.mp ho]
      exact hlen
  · have hgiven := h.given hk
    rw [hmain] at hgiven
    exact hgiven
  · have hlt := (List.getElem?_eq_some_iff.mp hk).1
    rw [h.sent hk, heldOf_append, (hheld k hlt).1, (hheld k hlt).2, returnedOf, returnedOf,
      filterMap_concat s.returned (List.getElem?_eq_getElem (hlen ▸ hlt)), hres]
    exact (List.append_nil _).symm

theorem Step.linked (hs : Step s s') (hl : s.Linked) (hok : s.engine.Ok cfg)
    (hok' : s'.engine.Ok cfg) : s'.Linked := by
  cases hs with
  | @turn i t pt w ht hw =>
    have hlt := (List.getElem?_eq_some_iff.mp ht).1
    exact hl.turn hok ht hw (hok'.sent_le (List.getElem?_set_self hlt))
  | call cmds hmain hlen _ => exact hl.call hmain hlen
  | send hmain ht => exact hl.send hok hmain ht
  | wait hmain =>
    have hmn := hl.main
    have hcalls := hl.calls
    rw [hmain] at hmn hcalls
    refine ⟨hcalls, hl.sizes, hl.widths, hl.ids, fun hk => ?_, hl.sent, ?_⟩
    · have hgiven := hl.given hk
      rw [hmain] at hgiven
      exact hgiven
    · change Gather.Holds _ s.got _
      rw [show s.got = [] from hmn]
      exact Gather.holds_new _
  | recv hmain _ hres => exact hl.recv hok hmain hres
  | ret hmain h0 hos => exact hl.ret hok hmain h0 hos

/-- What the main thread sees of its workers is a run of the engine. -/
theorem Reach.linked (h : s.Reach cfg) : s.Linked ∧ s.engine.Reach cfg := by
  obtain ⟨starts, hrun⟩ := h
  induction hrun with
  | refl =>
    refine ⟨⟨rfl, by simp [new], by simp [new], by simp [new], fun {i t} hi => ?_,
      fun {i t} hi => ?_, ⟨rfl, rfl⟩⟩, starts, .refl⟩
    · obtain ⟨a, _, rfl⟩ := List.mem_map.mp (List.mem_of_getElem? hi)
      exact ⟨fun _ => rfl, fun cmd hm => (by cases hm)⟩
    · obtain ⟨a, _, rfl⟩ := List.mem_map.mp (List.mem_of_getElem? hi)
      rfl
  | tail _ hstep ih =>
    obtain ⟨hl, starts', hreach⟩ := ih
    have hok := Engine.Reach.ok ⟨starts', hreach⟩
    rcases hstep.refines hl hok with he | he
    · exact ⟨hstep.linked hl hok (he ▸ hok), starts', he ▸ hreach⟩
    · exact ⟨hstep.linked hl hok (he.ok hok), starts', hreach.tail he⟩

/-- The outcome a worker sent in call `k` answers the command it was given in that call. -/
theorem Linked.answers (h : s.Linked) (hok : s.engine.Ok cfg) (hi : s.threads[i]? = some t) {k : ℕ}
    {o : Outcome} (ho : t.w.sent[k]? = some o) :
    ∃ cmds cmd, s.calls[k]? = some cmds ∧ cmds[i]? = some cmd ∧ Answers cmd o := by
  have hlt := (List.getElem?_eq_some_iff.mp hi).1
  obtain ⟨cmd, hcmd, ha⟩ := (hok.reach hi).talking.2.answers ho
  have hcol : (s.column i)[k]? = some cmd := by
    by_cases hm : i ∈ s.main.outbox.map Prod.fst
    · obtain ⟨a, ha, rfl⟩ := List.mem_map.mp hm
      rw [← (h.given hi).2 a.2 ha]
      exact List.getElem?_append_left (List.getElem?_eq_some_iff.mp hcmd).1 |>.trans hcmd
    · rw [← (h.given hi).1 hm]
      exact hcmd
  rw [column, getElem?_filterMap_getElem? h.widths hlt] at hcol
  obtain ⟨cmds, hcmds, hget⟩ := Option.bind_eq_some_iff.mp hcol
  exact ⟨cmds, cmd, hcmds, hget, ha⟩

/-- What holds at every moment of a sequence of calls of `Engine::run`. -/
structure Protocol (s : Bench P) : Prop where
  /-- A worker that is sent a command, or has one to take, is idle. -/
  sends : ∀ {i : ℕ} {cmd : Command} {rest : List (ℕ × Command)} {t : Thread P},
    s.main = .sending ((i, cmd) :: rest) → s.threads[i]? = some t → t.w.phase = .idle ∧ t.w.rx = []
  takes : ∀ t ∈ s.threads, t.w.rx ≠ [] → t.w.phase = .idle ∧ t.w.rx.length = 1
  /-- Nothing is left over when a call begins. -/
  clear : s.main = .ready → s.results = [] ∧ s.calls.length = s.returned.length
  /-- An outcome that has arrived or is on its way answers the command its worker was given in the
  call that is not over, and a worker has at most one. -/
  current : ∀ r ∈ s.got ++ s.results, ∃ cmds cmd t, s.calls.getLast? = some cmds ∧
    cmds[r.1]? = some cmd ∧ Answers cmd r.2 ∧ s.threads[r.1]? = some t ∧
    t.w.sent[s.returned.length]? = some r.2
  once : ((s.got ++ s.results).map Prod.fst).Nodup
  /-- When nothing is pending one outcome from each worker has arrived and none is missing; as long as
  something is, the workers that have answered make up for the count. -/
  complete : ∀ {g : Gather Outcome}, s.main = .gathering g → g.outcomes.length = s.threads.length ∧
    (g.pending = 0 → (s.got.map Prod.fst).Perm (List.range s.threads.length) ∧
      ∃ os, g.unwrapped = some os ∧ ∀ i o, os[i]? = some o ↔ (i, o) ∈ s.got) ∧
    ((∀ t ∈ s.threads, t.w.sent.length = s.calls.length) → s.results.length = g.pending)
  /-- A call returned the outcomes of its own commands, in the order of the workers. -/
  returns : ∀ {k : ℕ} {cmds : List Command} {os : List Outcome}, s.calls[k]? = some cmds → s.returned[k]? = some os →
    List.Forall₂ Answers cmds os ∧
      ∀ {i : ℕ} {t : Thread P}, s.threads[i]? = some t → t.w.sent[k]? = os[i]?

theorem Linked.once (h : s.Linked) (hok : s.engine.Ok cfg) :
    ((s.got ++ s.results).map Prod.fst).Nodup := by
  rw [List.nodup_iff_count_le_one]
  intro i
  rw [count_ids]
  by_cases hi : i < s.threads.length
  · refine (h.length_held hok (List.getElem?_eq_getElem hi)).2.trans ?_
    cases s.main <;> simp [Main.calls]
  · have hnone : heldOf (s.got ++ s.results) i = [] := by
      apply List.eq_nil_iff_forall_not_mem.mpr
      intro o ho
      exact hi (h.ids _ (mem_heldOf.mp ho))
    rw [hnone]
    exact Nat.zero_le _

theorem Linked.current (h : s.Linked) (hok : s.engine.Ok cfg) {r : ℕ × Outcome}
    (hr : r ∈ s.got ++ s.results) :
    ∃ cmds cmd t, s.calls.getLast? = some cmds ∧ cmds[r.1]? = some cmd ∧ Answers cmd r.2 ∧
      s.threads[r.1]? = some t ∧ t.w.sent[s.returned.length]? = some r.2 := by
  have hlt := h.ids r hr
  have hi := List.getElem?_eq_getElem hlt
  have hmem : r.2 ∈ heldOf (s.got ++ s.results) r.1 := mem_heldOf.mpr hr
  have hpos := List.length_pos_of_mem hmem
  have hheld := (h.length_held hok hi).2
  have hmax : s.main.calls ≤ 1 := by cases s.main <;> simp [Main.calls]
  obtain ⟨o, ho⟩ := List.length_eq_one_iff.mp
    (by omega : (heldOf (s.got ++ s.results) r.1).length = 1)
  rw [ho, List.mem_singleton] at hmem
  have hsent : s.threads[r.1].w.sent[s.returned.length]? = some r.2 := by
    rw [h.sent hi, ho, List.getElem?_append_right (h.length_returnedOf hlt).le,
      h.length_returnedOf hlt, hmem]
    simp
  obtain ⟨cmds, cmd, hcmds, hcmd, ha⟩ := h.answers hok hi hsent
  refine ⟨cmds, cmd, _, ?_, hcmd, ha, hi, hsent⟩
  have hcalls := h.calls
  rw [List.getLast?_eq_getElem?, show s.calls.length - 1 = s.returned.length by omega]
  exact hcmds

theorem Linked.complete {g : Gather Outcome} (h : s.Linked) (hok : s.engine.Ok cfg)
    (hmain : s.main = .gathering g)
    (hall : ∀ t ∈ s.threads, t.w.sent.length = s.calls.length) : s.results.length = g.pending := by
  have hmn := h.main
  rw [hmain] at hmn
  have hids : ((s.got ++ s.results).map Prod.fst).Perm (List.range s.threads.length) := by
    rw [List.perm_ext_iff_of_nodup (h.once hok) List.nodup_range]
    intro i
    rw [List.mem_range]
    refine ⟨fun hi => ?_, fun hi => ?_⟩
    · obtain ⟨r, hr, rfl⟩ := List.mem_map.mp hi
      exact h.ids r hr
    · have hget := List.getElem?_eq_getElem hi
      have hheld := (h.length_held hok hget).1
      have hsent := hall _ (List.getElem_mem hi)
      have hcalls := h.calls
      simp only [hmain, Main.calls] at hcalls
      rw [← List.one_le_count_iff, count_ids]
      omega
  have hlen := hids.length_eq
  have hpending := hmn.pending
  simp only [List.length_map, List.length_append, List.length_range] at hlen
  omega

theorem Linked.returns {k : ℕ} {cmds : List Command} {os : List Outcome} (h : s.Linked)
    (hok : s.engine.Ok cfg) (hcmds : s.calls[k]? = some cmds) (hos : s.returned[k]? = some os) :
    List.Forall₂ Answers cmds os ∧
      ∀ {i : ℕ} {t : Thread P}, s.threads[i]? = some t → t.w.sent[k]? = os[i]? := by
  have hsent : ∀ {i : ℕ} {t : Thread P}, s.threads[i]? = some t → t.w.sent[k]? = os[i]? := by
    intro i t hi
    have hlt := (List.getElem?_eq_some_iff.mp hi).1
    have hk : k < (s.returnedOf i).length := by
      rw [h.length_returnedOf hlt]
      exact (List.getElem?_eq_some_iff.mp hos).1
    rw [h.sent hi, List.getElem?_append_left hk, returnedOf,
      getElem?_filterMap_getElem? h.sizes hlt, hos]
    rfl
  have hlen : cmds.length = os.length :=
    (h.widths _ (List.mem_of_getElem? hcmds)).trans (h.sizes _ (List.mem_of_getElem? hos)).symm
  refine ⟨List.forall₂_iff_get.mpr ⟨hlen, fun i h₁ h₂ => ?_⟩, hsent⟩
  have hi : i < s.threads.length := h.sizes _ (List.mem_of_getElem? hos) ▸ h₂
  obtain ⟨cmds', cmd, hcmds', hcmd, ha⟩ := h.answers hok (List.getElem?_eq_getElem hi)
    ((hsent (List.getElem?_eq_getElem hi)).trans (List.getElem?_eq_getElem h₂))
  obtain rfl := Option.some.inj (hcmds.symm.trans hcmds')
  obtain rfl := Option.some.inj (hcmd.symm.trans (List.getElem?_eq_getElem h₁))
  exact ha

/-- Every call of `Engine::run` gets one outcome from each worker, its own. -/
theorem engine_run (hs : s.Reach cfg) : s.Protocol := by
  obtain ⟨hl, hreach⟩ := hs.linked
  have hok := hreach.ok
  refine ⟨fun {i cmd rest t} hmain hi => ?_, fun t ht hrx => ?_, fun hmain => ?_,
    fun r hr => hl.current hok hr, hl.once hok, fun {g} hmain => ?_,
    fun hcmds hos => hl.returns hok hcmds hos⟩
  · have hm : (i, cmd) ∈ s.engine.outbox := by simp [engine, hmain, Main.outbox]
    have hw := hok.waiting hm hi
    have hq := (hok.reach hi).talking.2.quiet hw.2.1
    exact ⟨hq.2.1, hq.1⟩
  · obtain ⟨i, hi⟩ := List.mem_iff_getElem?.mp ht
    exact (hok.reach hi).talking.2.asked hrx
  · have hmn := hl.main
    have hcalls := hl.calls
    rw [hmain] at hmn hcalls
    exact ⟨hmn.2, hcalls⟩
  · have hmn := hl.main
    rw [hmain] at hmn
    refine ⟨hmn.length, fun h0 => ?_, hl.complete hok hmain⟩
    obtain ⟨hperm, os, hos, -, hget⟩ := hmn.complete h0
    exact ⟨hperm, os, hos, hget⟩

/-- The second worker answers before the first has dialed. -/
theorem engine_run_two : ∃ s : Bench loopback, s.Reach loopbackConfig ∧ s.Protocol ∧
    s.calls = [[.dial 1 1, .dial 0 0]] ∧ s.returned.length = 1 := by
  obtain ⟨s, hs, hp⟩ := exists_reach (P := loopback) loopbackConfig
    [({ polls := [[.waker], [.slot 0], [.slot 0]], inbox := [([[1]], none), ([[2]], none)] }, 0),
      ({ polls := [[.waker]] }, 0)]
    ([.call [.dial 1 1, .dial 0 0], .send, .send] ++ List.replicate 5 (.turn 1) ++ [.wait, .recv] ++
      List.replicate 15 (.turn 0) ++ [.recv, .ret])
    (fun s => s.calls = [[.dial 1 1, .dial 0 0]] ∧ s.returned.length = 1) (by decide +kernel)
  exact ⟨s, hs, engine_run hs, of_decide_eq_true hp⟩

end

end Bench
end Http3Bench
