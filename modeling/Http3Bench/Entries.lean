import Mathlib.Tactic
import Mathlib.Data.List.AList

/-!
# What an association list holds, as a multiset

Inserting and erasing a key, read as changes of the multiset of images of the entries: the entry
the key had goes, the new one comes.
-/

namespace Http3Bench

variable {α : Type} [DecidableEq α] {β : α → Type} {γ : Type}

theorem perm_kerase (a : α) (l : List (Sigma β)) :
    ((l.dlookup a).toList.map (Sigma.mk a) ++ l.kerase a).Perm l := by
  induction l with
  | nil => simp
  | cons s l ih =>
    by_cases h : a = s.1
    · obtain ⟨b, c⟩ := s
      subst h
      simp
    · rw [List.dlookup_cons_ne _ _ h, List.kerase_cons_ne h]
      exact List.perm_middle.trans (ih.cons s)

theorem map_entries_erase (g : Sigma β → γ) (a : α) (s : AList β) :
    ((s.erase a).entries.map g : Multiset γ) +
      ((s.lookup a).toList.map (fun b => g ⟨a, b⟩) : List γ) = (s.entries.map g : List γ) := by
  rw [Multiset.coe_add, Multiset.coe_eq_coe]
  have h := (perm_kerase a s.entries).map g
  rw [List.map_append, List.map_map] at h
  exact List.perm_append_comm.trans h

theorem map_entries_insert (g : Sigma β → γ) (a : α) (b : β a) (s : AList β) :
    ((s.insert a b).entries.map g : Multiset γ) +
      ((s.lookup a).toList.map (fun b' => g ⟨a, b'⟩) : List γ) =
      g ⟨a, b⟩ ::ₘ (s.entries.map g : Multiset γ) := by
  have h := map_entries_erase g a s
  rw [AList.entries_insert, List.map_cons, ← Multiset.cons_coe, Multiset.cons_add]
  exact congrArg (g ⟨a, b⟩ ::ₘ ·) h

end Http3Bench
