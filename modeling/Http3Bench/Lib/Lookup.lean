import Mathlib.Data.List.Basic

/-!
# Lists as tables

What is found in a table after an entry is replaced or added.
-/

namespace Http3Bench.Lib

variable {α : Type} {l : List α} {i k : ℕ} {a b : α}

theorem getElem?_set_cases (h : (l.set i a)[k]? = some b) :
    (k = i ∧ b = a) ∨ (k ≠ i ∧ l[k]? = some b) := by
  rw [List.getElem?_set] at h
  split at h
  · rename_i hik
    split at h
    · exact .inl ⟨hik.symm, (Option.some.inj h).symm⟩
    · cases h
  · exact .inr ⟨fun hk => ‹¬ i = k› hk.symm, h⟩

theorem getElem?_append_cases (h : (l ++ [a])[k]? = some b) :
    (k = l.length ∧ b = a) ∨ l[k]? = some b := by
  by_cases hk : k < l.length
  · rw [List.getElem?_append_left hk] at h
    exact .inr h
  · rw [List.getElem?_append_right (by omega), List.getElem?_singleton] at h
    split at h
    · exact .inl ⟨by omega, (Option.some.inj h).symm⟩
    · cases h

theorem getElem?_append_of_some (h : l[k]? = some b) : (l ++ [a])[k]? = some b :=
  (List.getElem?_append_left (List.getElem?_eq_some_iff.mp h).1).trans h

theorem getElem?_set_of_some (h : l[i]? = some b) : (l.set i a)[i]? = some a :=
  List.getElem?_set_self (List.getElem?_eq_some_iff.mp h).1

end Http3Bench.Lib
