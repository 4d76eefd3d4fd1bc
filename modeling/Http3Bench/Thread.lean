import Http3Bench.SimulationTurn

/-!
# Runs of a worker

A thread is a worker with its point of control. Between two turns another thread may change the
cells they share, and the engine may hand over the next command: `Engine::run` sends one to each
worker and waits for every outcome, so a worker is idle and has no command left when one comes.
After `Stop` none comes.
-/

namespace Http3Bench

variable {P : Platform}

structure Thread (P : Platform) where
  w : Worker P
  pt : Point

/-- The engine sends a worker the command `cmd`. -/
def Worker.give (w : Worker P) (cmd : Command) : Worker P :=
  { w with rx := [cmd], given := w.given ++ [cmd] }

namespace Thread

/-- The thread `Engine::new` starts. -/
def new (cfg : EngineConfig) (os : P.Os) (now : Instant) : Thread P :=
  ⟨Worker.new cfg os now, .poll⟩

inductive Step : Thread P → Thread P → Prop
  | turn {w w' : Worker P} {pt pt' : Point} : turn pt w = .ok pt' w' → Step ⟨w, pt⟩ ⟨w', pt'⟩
  | interfere {w : Worker P} {pt : Point} (s : Shared) : Step ⟨w, pt⟩ ⟨{ w with shared := s }, pt⟩
  | command {w : Worker P} {pt : Point} (cmd : Command) :
      w.phase = .idle → w.rx = [] → .stop ∉ w.given → Step ⟨w, pt⟩ ⟨w.give cmd, pt⟩

def Reach (cfg : EngineConfig) (t : Thread P) : Prop :=
  ∃ os now, Relation.ReflTransGen Step (new cfg os now) t

end Thread

/-- `I` is kept by everything a worker goes through, as long as `A` holds. -/
structure Kept (A I : Mach P → Prop) : Prop where
  new : ∀ cfg os now, I ⟨Worker.new cfg os now, []⟩
  move : ∀ {x ins outs x'}, Move x ins outs x' → A x → A x' → I x → I x'
  interfere : ∀ {w : Worker P} (s : Shared), A ⟨w, []⟩ → I ⟨w, []⟩ → I ⟨{ w with shared := s }, []⟩
  command : ∀ {w : Worker P} (cmd : Command), w.phase = .idle → w.rx = [] → .stop ∉ w.given →
    A ⟨w, []⟩ → I ⟨w, []⟩ → I ⟨w.give cmd, []⟩

namespace Kept

variable {A I : Mach P → Prop} {E : Panic → Worker P → Prop}

/-- An invariant proved with the help of another one. -/
theorem and (hA : Kept (fun _ => True) A) (hI : Kept A I) :
    Kept (fun _ => True) (fun x => A x ∧ I x) where
  new := fun cfg os now => ⟨hA.new cfg os now, hI.new cfg os now⟩
  move := fun m _ _ h =>
    have h' := hA.move m trivial trivial h.1
    ⟨h', hI.move m h.1 h' h.2⟩
  interfere := fun s _ h => ⟨hA.interfere s trivial h.1, hI.interfere s h.1 h.2⟩
  command := fun cmd hp hrx hg _ h =>
    ⟨hA.command cmd hp hrx hg trivial h.1, hI.command cmd hp hrx hg h.1 h.2⟩

theorem mono {B : Mach P → Prop} (h : Kept A I) (hBA : ∀ x, B x → A x) : Kept B I where
  new := h.new
  move := fun m hx hx' => h.move m (hBA _ hx) (hBA _ hx')
  interfere := fun s hx => h.interfere s (hBA _ hx)
  command := fun cmd hp hrx hg hx => h.command cmd hp hrx hg (hBA _ hx)

/-- Two invariants proved with the help of the same one. -/
theorem both {J : Mach P → Prop} (hI : Kept A I) (hJ : Kept A J) : Kept A (fun x => I x ∧ J x) where
  new := fun cfg os now => ⟨hI.new cfg os now, hJ.new cfg os now⟩
  move := fun m hx hx' h => ⟨hI.move m hx hx' h.1, hJ.move m hx hx' h.2⟩
  interfere := fun s hx h => ⟨hI.interfere s hx h.1, hJ.interfere s hx h.2⟩
  command := fun cmd hp hrx hg hx h =>
    ⟨hI.command cmd hp hrx hg hx h.1, hJ.command cmd hp hrx hg hx h.2⟩

variable {t : Thread P} {cfg : EngineConfig}

theorem closed (h : Kept (fun _ => True) I)
    (hq : ∀ {w st i c}, I ⟨w, st⟩ → w.conn i = some c → ∀ r ∈ c.queued, r.1 ≠ .rate)
    (hs : ∀ {x p}, Stuck x p → I x → E p x.w)
    (ho : ∀ {p w}, p ≠ .unwrap → p ≠ .underflow → E p w) : Closed true I E where
  move := fun m => h.move m trivial trivial
  stuck := hs
  other := ho
  queued := hq

/-- An invariant holds in every state a thread reaches, and its polls find no connection left to be
flushed. -/
theorem reach (h : Kept (fun _ => True) I)
    (hq : ∀ {w st i c}, I ⟨w, st⟩ → w.conn i = some c → ∀ r ∈ c.queued, r.1 ≠ .rate)
    (ht : t.Reach cfg) : I ⟨t.w, []⟩ ∧ (t.pt = .poll → t.w.dirty = []) := by
  have hc : Closed true I (fun _ _ => True) := h.closed hq (fun _ _ => trivial) (fun _ _ => trivial)
  obtain ⟨os, now, hrun⟩ := ht
  induction hrun with
  | refl => exact ⟨h.new _ _ _, fun _ => rfl⟩
  | tail _ hstep ih =>
    cases hstep with
    | turn hturn => exact (hc.ends_turn _ (fun _ => rfl) ih.1).ok hturn
    | interfere s => exact ⟨h.interfere s trivial ih.1, ih.2⟩
    | command cmd hp hrx hg => exact ⟨h.command cmd hp hrx hg trivial ih.1, ih.2⟩

/-- A turn that panics on an empty slot or on a counter at zero does so in a state in which the
invariant holds. -/
theorem stuck (h : Kept (fun _ => True) I)
    (hq : ∀ {w st i c}, I ⟨w, st⟩ → w.conn i = some c → ∀ r ∈ c.queued, r.1 ≠ .rate)
    {w w' : Worker P} {pt : Point} {p : Panic} (hI : I ⟨w, []⟩) (herr : turn pt w = .error p w')
    (hp : p = .unwrap ∨ p = .underflow) : ∃ todo, Stuck ⟨w', todo⟩ p ∧ I ⟨w', todo⟩ := by
  have hc : Closed true I (fun p w => p = .unwrap ∨ p = .underflow →
      ∃ todo, Stuck ⟨w, todo⟩ p ∧ I ⟨w, todo⟩) :=
    h.closed hq (fun {x _} hs hx _ => ⟨x.todo, hs, hx⟩)
      (fun h₁ h₂ hp => (hp.elim h₁ h₂).elim)
  exact (hc.ends_turn pt (fun _ => rfl) hI).error herr hp

end Kept
end Http3Bench
