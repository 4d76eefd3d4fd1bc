import Mathlib.Logic.Relation

/-!
# Programs that issue commands

A program goes on with the answers to its commands. Others change the world it runs in between any two
of them. `wp` is what has to hold of the world for a program to issue each command only where it is
safe, and to end in a state that is wanted.
-/

namespace Http3Bench.Lib

inductive Prog (C : Type) (R : C → Type) (α : Type)
  | done (a : α)
  | call (c : C) (next : R c → Prog C R α)

namespace Prog

variable {C : Type} {R : C → Type} {α β : Type}

def bind : Prog C R α → (α → Prog C R β) → Prog C R β
  | done a, f => f a
  | call c next, f => call c (fun r => (next r).bind f)

instance : Monad (Prog C R) where
  pure := done
  bind := bind

def cmd (c : C) : Prog C R (R c) := call c done

end Prog

/-- What the others may do, and what a command may answer and do. -/
structure System (C : Type) (R : C → Type) (W : Type) where
  env : W → W → Prop
  exec : W → (c : C) → R c → W → Prop

section

variable {C : Type} {R : C → Type} {W α β : Type}

inductive System.Step (M : System C R W) : W × Prog C R α → W × Prog C R α → Prop
  | env {w w' : W} {p : Prog C R α} : M.env w w' → Step M (w, p) (w', p)
  | call {w w' : W} {c : C} {r : R c} {next : R c → Prog C R α} : M.exec w c r w' →
      Step M (w, .call c next) (w', next r)

/-- Whatever the others do, each command is issued where it is safe, and the program ends in `Q`. -/
def System.wp (M : System C R W) (safe : C → W → Prop) : Prog C R α → (α → W → Prop) → W → Prop
  | .done a, Q, w => ∀ w', Relation.ReflTransGen M.env w w' → Q a w'
  | .call c next, Q, w => ∀ w', Relation.ReflTransGen M.env w w' →
      safe c w' ∧ ∀ r w'', M.exec w' c r w'' → M.wp safe (next r) Q w''

/-- The others keep `P`. -/
def System.Stable (M : System C R W) (P : W → Prop) : Prop := ∀ w w', M.env w w' → P w → P w'

variable {M : System C R W} {safe : C → W → Prop} {P : W → Prop} {Q Q' : α → W → Prop} {w w' : W}

theorem System.Stable.run (h : M.Stable P) (hrun : Relation.ReflTransGen M.env w w') (hw : P w) :
    P w' := by
  induction hrun with
  | refl => exact hw
  | tail _ hstep ih => exact h _ _ hstep ih

theorem System.Stable.and {P' : W → Prop} (h : M.Stable P) (h' : M.Stable P') :
    M.Stable (fun w => P w ∧ P' w) :=
  fun w w' henv hw => ⟨h w w' henv hw.1, h' w w' henv hw.2⟩

namespace System

theorem wp_pure {a : α} (hP : M.Stable P) (hw : P w) (h : ∀ w, P w → Q a w) :
    M.wp safe (pure a) Q w :=
  fun w' hrun => h w' (hP.run hrun hw)

theorem wp_cmd {c : C} {f : R c → Prog C R α} (hP : M.Stable P) (hw : P w)
    (hsafe : ∀ w, P w → safe c w) (h : ∀ w r w', P w → M.exec w c r w' → M.wp safe (f r) Q w') :
    M.wp safe (Prog.cmd c >>= f) Q w :=
  fun w' hrun => ⟨hsafe w' (hP.run hrun hw), fun r w'' hexec => h w' r w'' (hP.run hrun hw) hexec⟩

/-- The last command of a program. -/
theorem wp_last {c : C} {Q : R c → W → Prop} (hP : M.Stable P) (hw : P w)
    (hsafe : ∀ w, P w → safe c w) (h : ∀ w r w', P w → M.exec w c r w' → M.wp safe (pure r) Q w') :
    M.wp safe (Prog.cmd c) Q w :=
  wp_cmd hP hw hsafe h

theorem wp_mono {p : Prog C R α} (h : M.wp safe p Q w) (hQ : ∀ a w, Q a w → Q' a w) :
    M.wp safe p Q' w := by
  induction p generalizing w with
  | done a => exact fun w' hrun => hQ a w' (h w' hrun)
  | call c next ih =>
    intro w' hrun
    obtain ⟨hsafe, hnext⟩ := h w' hrun
    exact ⟨hsafe, fun r w'' hexec => ih r (hnext r w'' hexec)⟩

theorem wp_bind {p : Prog C R α} {f : α → Prog C R β} {Q : β → W → Prop}
    (h : M.wp safe p (fun a w => M.wp safe (f a) Q w) w) : M.wp safe (p >>= f) Q w := by
  induction p generalizing w with
  | done a => exact h w .refl
  | call c next ih =>
    intro w' hrun
    obtain ⟨hsafe, hnext⟩ := h w' hrun
    exact ⟨hsafe, fun r w'' hexec => ih r (hnext r w'' hexec)⟩

/-- A program whose result is not used further, and what comes after it. -/
theorem wp_then {p : Prog C R α} {f : α → Prog C R β} {Q : β → W → Prop} {J : α → W → Prop}
    (h : M.wp safe p J w) (hf : ∀ a w, J a w → M.wp safe (f a) Q w) : M.wp safe (p >>= f) Q w :=
  wp_bind (wp_mono h hf)

theorem wp_step {x y : W × Prog C R α} (hstep : M.Step x y) (h : M.wp safe x.2 Q x.1) :
    M.wp safe y.2 Q y.1 := by
  cases hstep with
  | @env w w' p henv =>
    cases p with
    | done a => exact fun w'' hrun => h w'' (hrun.head henv)
    | call c next => exact fun w'' hrun => h w'' (hrun.head henv)
  | call hexec => exact (h _ .refl).2 _ _ hexec

/-- What holds along every run of a program. -/
theorem wp_run {p p' : Prog C R α} (h : M.wp safe p Q w)
    (hrun : Relation.ReflTransGen M.Step (w, p) (w', p')) :
    (∀ c next, p' = .call c next → safe c w') ∧ ∀ a, p' = .done a → Q a w' := by
  have hwp : M.wp safe p' Q w' := by
    generalize hy : (w', p') = y at hrun
    have hy' : M.wp safe y.2 Q y.1 := by
      clear hy
      induction hrun with
      | refl => exact h
      | tail _ hstep ih => exact wp_step hstep ih
    rw [← hy] at hy'
    exact hy'
  refine ⟨fun c next hp => ?_, fun a hp => ?_⟩
  · subst hp
    exact (hwp w' .refl).1
  · subst hp
    exact hwp w' .refl

/-- A program whose commands are all answered can be run to its end. -/
theorem exists_done (hM : ∀ w c, ∃ r w', M.exec w c r w') (w : W) (p : Prog C R α) :
    ∃ w' a, Relation.ReflTransGen M.Step (w, p) (w', .done a) := by
  induction p generalizing w with
  | done a => exact ⟨w, a, .refl⟩
  | call c next ih =>
    obtain ⟨r, w', hexec⟩ := hM w c
    obtain ⟨w'', a, hrun⟩ := ih r w'
    exact ⟨w'', a, hrun.head (.call hexec)⟩

end System

end

end Http3Bench.Lib
