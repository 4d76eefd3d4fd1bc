import Mathlib.Tactic

/-!
# Programs on images of states

`Images f g m m'` says that `m'` does on the images under `f` of the states what `m` does on the states:
it returns the image under `g` of what `m` returns, or stops with the same error. The rules below go
through two programs of one shape side by side.
-/

namespace Http3Bench.Lib

variable {ε σ τ α α' β β' : Type}

def Images (f : σ → τ) (g : α → α') (m : EStateM ε σ α) (m' : EStateM ε τ α') : Prop :=
  ∀ s, m' (f s) = match m s with
    | .ok a s' => .ok (g a) (f s')
    | .error e s' => .error e (f s')

variable {f : σ → τ} {g : α → α'} {k : β → β'} {m : EStateM ε σ α} {m' : EStateM ε τ α'}

theorem Images.ok (h : Images f g m m') {s s' : σ} {a : α} (hm : m s = .ok a s') :
    m' (f s) = .ok (g a) (f s') := by
  rw [h s, hm]

/-- What the program on the images returns comes from what the other one returns. -/
theorem Images.exists_ok (h : Images f g m m') {s : σ} {t : τ} {b : α'} (hm : m' (f s) = .ok b t) :
    ∃ a s', m s = .ok a s' ∧ g a = b ∧ f s' = t := by
  rw [h s] at hm
  cases hs : m s with
  | ok a s' =>
    rw [hs] at hm
    cases hm
    exact ⟨a, s', rfl, rfl, rfl⟩
  | error e s' =>
    rw [hs] at hm
    cases hm

theorem images_pure {a : α} {b : α'} (h : g a = b) :
    Images f g (pure a : EStateM ε σ α) (pure b) :=
  fun s => by rw [← h]; rfl

theorem images_throw {e : ε} : Images f g (throw e : EStateM ε σ α) (throw e) :=
  fun _ => rfl

theorem Images.bind {n : α → EStateM ε σ β} {n' : α' → EStateM ε τ β'} (h : Images f g m m')
    (hn : ∀ a, Images f k (n a) (n' (g a))) : Images f k (m >>= n) (m' >>= n') := by
  intro s
  have hs := h s
  simp only [Bind.bind, EStateM.bind]
  cases hm : m s with
  | ok a s' =>
    rw [hm] at hs
    rw [hs]
    exact hn a s'
  | error e s' =>
    rw [hm] at hs
    rw [hs]

/-- A step that returns the same on both sides. -/
theorem Images.bind_same {m : EStateM ε σ α} {m' : EStateM ε τ α} {n : α → EStateM ε σ β}
    {n' : α → EStateM ε τ β'} (h : Images f id m m') (hn : ∀ a, Images f k (n a) (n' a)) :
    Images f k (m >>= n) (m' >>= n') :=
  Images.bind h hn

theorem images_get_bind {n : σ → EStateM ε σ β} {n' : τ → EStateM ε τ β'}
    (hn : ∀ s, Images f k (n s) (n' (f s))) :
    Images f k (get >>= n) (get >>= n') :=
  Images.bind (g := f) (fun _ => rfl) hn

theorem images_set {s : σ} {t : τ} (h : f s = t) :
    Images f id (set s : EStateM ε σ PUnit) (set t) :=
  fun _ => by rw [← h]; rfl

theorem images_modify {u : σ → σ} {u' : τ → τ} (h : ∀ s, f (u s) = u' (f s)) :
    Images f id (modify u : EStateM ε σ PUnit) (modify u') :=
  fun s => congrArg (EStateM.Result.ok PUnit.unit) (h s).symm

theorem images_modifyGet {u : σ → α × σ} {u' : τ → α' × τ} (h : ∀ s, (g (u s).1, f (u s).2) = u' (f s)) :
    Images f g (modifyGet u : EStateM ε σ α) (modifyGet u') :=
  fun s => congrArg (fun r : α' × τ => EStateM.Result.ok r.1 r.2) (h s).symm

end Http3Bench.Lib
