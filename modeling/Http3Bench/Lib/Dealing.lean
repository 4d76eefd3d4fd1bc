import Mathlib.Data.List.Perm.Basic
import Mathlib.Data.List.Flatten
import Mathlib.Data.List.Nodup

/-!
# Dealing groups to two hands

Groups are dealt whole, each to the hand that has fewer elements. The hands have every element of the
groups, no group is divided between them, and their sizes differ by no more than the largest group.
-/

namespace Dealing

variable {α κ : Type*}

/-- One group, to the hand that has no more than the other. -/
def deal (hands : List α × List α) (group : List α) : List α × List α :=
  if hands.1.length ≤ hands.2.length then (hands.1 ++ group, hands.2) else (hands.1, hands.2 ++ group)

variable {hands : List α × List α} {groups : List (List α)} {m : ℕ}

theorem deal_perm (hands : List α × List α) (group : List α) :
    ((deal hands group).1 ++ (deal hands group).2).Perm (hands.1 ++ hands.2 ++ group) := by
  unfold deal
  split
  · rw [List.append_assoc, List.append_assoc]
    exact List.perm_append_comm.append_left hands.1
  · rw [← List.append_assoc]

theorem foldl_deal_perm (groups : List (List α)) (hands : List α × List α) :
    ((groups.foldl deal hands).1 ++ (groups.foldl deal hands).2).Perm
      (hands.1 ++ hands.2 ++ groups.flatten) := by
  induction groups generalizing hands with
  | nil => rw [List.flatten_nil, List.append_nil]; exact .refl _
  | cons group groups ih =>
    rw [List.foldl_cons, List.flatten_cons, ← List.append_assoc]
    exact (ih (deal hands group)).trans ((deal_perm hands group).append_right _)

theorem subset_foldl_deal (groups : List (List α)) (hands : List α × List α) :
    hands.1 ⊆ (groups.foldl deal hands).1 ∧ hands.2 ⊆ (groups.foldl deal hands).2 := by
  induction groups generalizing hands with
  | nil => exact ⟨List.Subset.refl _, List.Subset.refl _⟩
  | cons group groups ih =>
    obtain ⟨h₁, h₂⟩ := ih (deal hands group)
    have hkeep : hands.1 ⊆ (deal hands group).1 ∧ hands.2 ⊆ (deal hands group).2 := by
      unfold deal
      split
      · exact ⟨List.subset_append_left _ _, List.Subset.refl _⟩
      · exact ⟨List.Subset.refl _, List.subset_append_left _ _⟩
    exact ⟨List.Subset.trans hkeep.1 h₁, List.Subset.trans hkeep.2 h₂⟩

/-- A group that is dealt is in one hand. -/
theorem foldl_deal_undivided (hands : List α × List α) :
    ∀ group ∈ groups, group ⊆ (groups.foldl deal hands).1 ∨ group ⊆ (groups.foldl deal hands).2 := by
  induction groups generalizing hands with
  | nil => exact fun group h => (by cases h)
  | cons first groups ih =>
    intro group hgroup
    rcases List.mem_cons.mp hgroup with rfl | hgroup
    · obtain ⟨h₁, h₂⟩ := subset_foldl_deal groups (deal hands group)
      have hdealt : group ⊆ (deal hands group).1 ∨ group ⊆ (deal hands group).2 := by
        unfold deal
        split
        · exact .inl (List.subset_append_right _ _)
        · exact .inr (List.subset_append_right _ _)
      exact hdealt.imp (fun h => List.Subset.trans h h₁) (fun h => List.Subset.trans h h₂)
    · exact ih _ group hgroup

/-- The sizes of the hands differ by at most `m`. -/
def Balanced (m : ℕ) (hands : List α × List α) : Prop :=
  hands.1.length ≤ hands.2.length + m ∧ hands.2.length ≤ hands.1.length + m

theorem Balanced.deal {group : List α} (h : Balanced m hands) (hgroup : group.length ≤ m) :
    Balanced m (deal hands group) := by
  obtain ⟨h₁, h₂⟩ := h
  unfold Balanced Dealing.deal
  split
  · simp only [List.length_append]
    omega
  · simp only [List.length_append]
    omega

theorem Balanced.foldl_deal (h : Balanced m hands) (hgroups : ∀ group ∈ groups, group.length ≤ m) :
    Balanced m (groups.foldl Dealing.deal hands) := by
  induction groups generalizing hands with
  | nil => exact h
  | cons group groups ih =>
    exact ih (h.deal (hgroups group List.mem_cons_self))
      (fun g hg => hgroups g (List.mem_cons_of_mem _ hg))

/-- The groups of a list by a key, one for each key, are the list. -/
theorem flatMap_filter_perm [DecidableEq κ] (key : α → κ) {keys : List κ} (hnodup : keys.Nodup)
    (l : List α) :
    (keys.flatMap (fun k => l.filter (key · = k))).Perm (l.filter (key · ∈ keys)) := by
  induction keys with
  | nil => simp
  | cons k keys ih =>
    obtain ⟨hnew, hnodup⟩ := List.nodup_cons.mp hnodup
    rw [List.flatMap_cons]
    refine ((ih hnodup).append_left _).trans ?_
    have hsplit := List.filter_append_perm (fun a => decide (key a = k))
      (l.filter (key · ∈ k :: keys))
    have hthis : (l.filter (key · ∈ k :: keys)).filter (fun a => decide (key a = k)) =
        l.filter (key · = k) := by
      rw [List.filter_filter]
      refine List.filter_congr (fun a _ => ?_)
      by_cases h : key a = k <;> simp [h]
    have hrest : (l.filter (key · ∈ k :: keys)).filter (fun a => !decide (key a = k)) =
        l.filter (key · ∈ keys) := by
      rw [List.filter_filter]
      refine List.filter_congr (fun a _ => ?_)
      by_cases h : key a = k <;> simp [h, hnew]
    rwa [hthis, hrest] at hsplit

end Dealing
