import Mathlib.Tactic

/-!
# How a stateful program with errors can end

`EStateM` keeps the state at the point where an error was raised, which is what a panic leaves
behind. `Ends m s Q E` says that from `s` the program `m` either returns a value and a state that
meet `Q`, or stops with an error and a state that meet `E`. The rules below take a program apart
one instruction at a time.
-/

namespace Http3Bench

variable {ε σ α β : Type}

def Ends (m : EStateM ε σ α) (s : σ) (Q : α → σ → Prop) (E : ε → σ → Prop) : Prop :=
  match m s with
  | .ok a s' => Q a s'
  | .error e s' => E e s'

variable {m : EStateM ε σ α} {s : σ} {Q : α → σ → Prop} {E : ε → σ → Prop}

theorem ends_iff : Ends m s Q E ↔
    (∀ a s', m s = .ok a s' → Q a s') ∧ ∀ e s', m s = .error e s' → E e s' := by
  unfold Ends
  cases m s <;> simp

theorem Ends.ok (h : Ends m s Q E) {a : α} {s' : σ} (hm : m s = .ok a s') : Q a s' :=
  (ends_iff.mp h).1 a s' hm

theorem Ends.error (h : Ends m s Q E) {e : ε} {s' : σ} (hm : m s = .error e s') : E e s' :=
  (ends_iff.mp h).2 e s' hm

theorem Ends.mono {Q' : α → σ → Prop} (h : Ends m s Q E) (hQ : ∀ a s', Q a s' → Q' a s') :
    Ends m s Q' E := by
  rw [ends_iff] at h ⊢
  exact ⟨fun a s' hm => hQ a s' (h.1 a s' hm), h.2⟩

@[simp] theorem ends_pure {a : α} : Ends (pure a : EStateM ε σ α) s Q E ↔ Q a s := Iff.rfl

@[simp] theorem ends_bind {f : α → EStateM ε σ β} {R : β → σ → Prop} :
    Ends (m >>= f) s R E ↔ Ends m s (fun a s' => Ends (f a) s' R E) E := by
  simp only [Ends, bind, EStateM.bind]
  cases m s <;> rfl

@[simp] theorem ends_get {Q : σ → σ → Prop} : Ends (get : EStateM ε σ σ) s Q E ↔ Q s s := Iff.rfl

@[simp] theorem ends_set {t : σ} {Q : PUnit → σ → Prop} :
    Ends (set t : EStateM ε σ PUnit) s Q E ↔ Q ⟨⟩ t := Iff.rfl

@[simp] theorem ends_modify {f : σ → σ} {Q : PUnit → σ → Prop} :
    Ends (modify f : EStateM ε σ PUnit) s Q E ↔ Q ⟨⟩ (f s) := Iff.rfl

@[simp] theorem ends_modifyGet {f : σ → α × σ} :
    Ends (modifyGet f : EStateM ε σ α) s Q E ↔ Q (f s).1 (f s).2 := Iff.rfl

@[simp] theorem ends_throw {e : ε} : Ends (throw e : EStateM ε σ α) s Q E ↔ E e s := Iff.rfl

/-- The program run again and again for as long as it returns `true`, at most `n` times; what is
returned is whether it is cut short. -/
def turns (m : EStateM ε σ Bool) : ℕ → EStateM ε σ Bool
  | 0 => pure true
  | n + 1 => do
    if ← m then turns m n else return false

/-- A loop with a measure that every turn brings down ends. -/
theorem ends_turns {m : EStateM ε σ Bool} {μ : σ → ℕ}
    (h : ∀ s, Ends m s (fun more s' => more = true → μ s' < μ s) E) {n : ℕ} (hn : μ s < n) :
    Ends (turns m n) s (fun more _ => more = false) E := by
  induction n generalizing s with
  | zero => exact absurd hn (Nat.not_lt_zero _)
  | succ n ih =>
    simp only [turns, ends_bind]
    refine (h s).mono (fun more s' hμ => ?_)
    cases more with
    | true => exact ih (by have := hμ rfl; omega)
    | false => exact rfl

end Http3Bench
