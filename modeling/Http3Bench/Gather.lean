import Mathlib.Tactic
import Mathlib.Data.List.Nodup

/-!
# One outcome from each of `n` workers

A caller waits for `n` outcomes on a channel and files each under the worker that sent it. It counts
them, it does not look at what is filed: that every worker has sent one when the count is down is a
property of the senders, and `Holds` is what is left of it at the receiver.
-/

namespace Http3Bench

structure Gather (O : Type) where
  outcomes : List (Option O)
  pending : ℕ

namespace Gather

variable {O : Type}

def new (n : ℕ) : Gather O := ⟨List.replicate n none, n⟩

def take (g : Gather O) (r : ℕ × O) : Gather O := ⟨g.outcomes.set r.1 (some r.2), g.pending - 1⟩

/-- The outcomes, in the order of the workers; `none` where one is missing. -/
def unwrapped (g : Gather O) : Option (List O) := g.outcomes.mapM id

/-- The outcomes `got` have arrived, at most one from each of the `n` workers. -/
structure Holds (n : ℕ) (got : List (ℕ × O)) (g : Gather O) : Prop where
  length : g.outcomes.length = n
  pending : g.pending + got.length = n
  nodup : (got.map Prod.fst).Nodup
  lt : ∀ i ∈ got.map Prod.fst, i < n
  filed : ∀ i o, g.outcomes[i]? = some (some o) ↔ (i, o) ∈ got

theorem holds_new (n : ℕ) : (new n : Gather O).Holds n [] where
  length := List.length_replicate
  pending := rfl
  nodup := List.nodup_nil
  lt := by simp
  filed := by simp [new, List.getElem?_replicate]

variable {n : ℕ} {got : List (ℕ × O)} {g : Gather O}

theorem length_le_of_nodup {ids : List ℕ} (hn : ids.Nodup) (hlt : ∀ i ∈ ids, i < n) :
    ids.length ≤ n := by
  have hsub : ids ⊆ List.range n := fun i hi => List.mem_range.mpr (hlt i hi)
  simpa using (hn.subperm hsub).length_le

theorem perm_range_of_nodup {ids : List ℕ} (hn : ids.Nodup) (hlt : ∀ i ∈ ids, i < n)
    (hlen : ids.length = n) : ids.Perm (List.range n) := by
  have hsub : ids ⊆ List.range n := fun i hi => List.mem_range.mpr (hlt i hi)
  exact (hn.subperm hsub).perm_of_length_le (by simp [hlen])

theorem Holds.take (h : g.Holds n got) {r : ℕ × O} (hr : r.1 < n) (hnew : r.1 ∉ got.map Prod.fst) :
    (g.take r).Holds n (got ++ [r]) := by
  have hids : ((got ++ [r]).map Prod.fst).Nodup := by
    rw [List.map_append, List.nodup_append]
    refine ⟨h.nodup, List.nodup_singleton _, fun a ha b hb => ?_⟩
    rintro rfl
    obtain rfl : a = r.1 := by simpa using hb
    exact hnew ha
  have hlt : ∀ i ∈ (got ++ [r]).map Prod.fst, i < n := by
    intro i hi
    rw [List.map_append, List.mem_append] at hi
    rcases hi with hi | hi
    · exact h.lt i hi
    · obtain rfl : i = r.1 := by simpa using hi
      exact hr
  have hle := length_le_of_nodup hids hlt
  refine ⟨by simp [Gather.take, h.length], ?_, hids, hlt, fun i o => ?_⟩
  · have hpending := h.pending
    simp only [List.length_map, List.length_append, List.length_singleton] at hle
    simp only [Gather.take, List.length_append, List.length_singleton]
    omega
  · have hfiled := h.filed i o
    simp only [Gather.take, List.getElem?_set, h.length, List.mem_append, List.mem_singleton]
    by_cases hi : r.1 = i
    · subst hi
      have hno : (r.1, o) ∉ got := fun hm => hnew (List.mem_map.mpr ⟨_, hm, rfl⟩)
      rw [if_pos rfl, if_pos hr]
      refine ⟨fun ho => .inr ?_, fun ho => ?_⟩
      · rw [← Option.some.inj (Option.some.inj ho)]
      · rcases ho with ho | ho
        · exact absurd ho hno
        · rw [← ho]
    · rw [if_neg hi, hfiled]
      refine ⟨.inl, fun ho => ho.elim id (fun he => absurd ?_ hi)⟩
      rw [← he]

theorem mapM_id_eq {l : List (Option O)} (h : ∀ i, i < l.length → ∃ o, l[i]? = some (some o)) :
    ∃ os, l.mapM id = some os ∧ l = os.map some := by
  induction l with
  | nil => exact ⟨[], rfl, rfl⟩
  | cons a l ih =>
    obtain ⟨o, ho⟩ := h 0 (by simp)
    obtain ⟨os, hos, hl⟩ := ih (fun i hi => by simpa using h (i + 1) (by simpa using hi))
    obtain rfl : a = some o := by simpa using ho
    exact ⟨o :: os, by rw [List.mapM_cons, hos]; rfl, by rw [hl, List.map_cons]⟩

/-- Once nothing is pending there is one outcome from each worker, and `unwrap` meets no `None`. -/
theorem Holds.complete (h : g.Holds n got) (h0 : g.pending = 0) :
    (got.map Prod.fst).Perm (List.range n) ∧
      ∃ os, g.unwrapped = some os ∧ os.length = n ∧ ∀ i o, os[i]? = some o ↔ (i, o) ∈ got := by
  have hlen : (got.map Prod.fst).length = n := by
    have hpending := h.pending
    rw [List.length_map]
    omega
  have hperm := perm_range_of_nodup h.nodup h.lt hlen
  obtain ⟨os, hos, hout⟩ := mapM_id_eq (l := g.outcomes) (fun i hi => by
    obtain ⟨r, hr, rfl⟩ := List.mem_map.mp (hperm.symm.subset (List.mem_range.mpr (h.length ▸ hi)))
    exact ⟨r.2, (h.filed r.1 r.2).mpr hr⟩)
  refine ⟨hperm, os, hos, ?_, fun i o => ?_⟩
  · rw [← h.length, hout, List.length_map]
  · rw [← h.filed i o, hout, List.getElem?_map]
    simp

end Gather
end Http3Bench
