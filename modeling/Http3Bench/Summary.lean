import Http3Bench.Latencies
import Mathlib.Data.List.Sort

/-!
# What a report says of the latencies

`summarize` of `benchcli-rust/src/stats.rs`, with its quotients in exact arithmetic, and what does
not matter to it: which worker recorded a latency, and in which order the workers' records are
merged.
-/

namespace Http3Bench

structure Summary where
  tps : ℤ
  min : ℤ
  avg : ℤ
  max : ℤ
  tp50 : ℤ
  tp75 : ℤ
  tp90 : ℤ
  tp95 : ℤ
  tp99 : ℤ
  deriving DecidableEq

/-- A number cut to an `i64`, as a cast from a float cuts it. -/
def satI64 (x : ℤ) : ℤ := Max.max (-2 ^ 63) (Min.min x (2 ^ 63 - 1))

namespace Latencies

/-- The latency at index `floor(p / 100 * n)` of the sorted ones; an index out of range panics. -/
def tpn (costs : List ℤ) (p : ℕ) : Option ℤ :=
  if costs = [] then some 0
  else costs[Min.min (p * costs.length / 100) (costs.length - 1)]?

/-- `used` is in nanoseconds. The rate is cut from the exact quotient; the code divides floats, and where
the quotient is close to a whole number its rate may be one off. -/
def summarize (l : Latencies) (used : ℕ) : Option Summary := do
  let costs := l.costs.insertionSort (· ≤ ·)
  let avg := if costs = [] then 0 else costs.sum.tdiv costs.length
  return {
    tps := if 0 < used then satI64 ((l.success * 10 ^ 9).tdiv used) else 0
    min := costs.head?.getD 0
    avg := avg
    max := costs.getLast?.getD 0
    tp50 := ← tpn costs 50
    tp75 := ← tpn costs 75
    tp90 := ← tpn costs 90
    tp95 := ← tpn costs 95
    tp99 := ← tpn costs 99 }

/-- One operation a worker records. -/
inductive Event
  | ok (cost : ℕ)
  | fail (err : String)
  deriving DecidableEq

def Event.record (l : Latencies) : Event → Latencies
  | .ok cost => l.ok cost
  | .fail err => l.fail err

/-- The records of workers, merged in some order. -/
inductive Merging
  | worker (events : List Event)
  | merge (a b : Merging)

def Merging.events : Merging → List Event
  | .worker events => events
  | .merge a b => a.events ++ b.events

def Merging.latencies : Merging → Latencies
  | .worker events => events.foldl Event.record {}
  | .merge a b => a.latencies.merge b.latencies

def Event.costs (events : List Event) : List ℤ :=
  events.filterMap (fun e => match e with
    | .ok cost => some (cost : ℤ)
    | .fail _ => none)

/-- How often `err` was recorded, for an error that was recorded at all. -/
def Event.errorCount (events : List Event) (err : String) : Option ℕ :=
  if events.count (.fail err) = 0 then none else some (events.count (.fail err))

/-- What a record holds of the events recorded in it, in whatever order. -/
structure Records (l : Latencies) (events : List Event) : Prop where
  costs : l.costs.Perm (Event.costs events)
  counted : l.Counted
  failed : l.failed + (Event.costs events).length = events.length
  keys : (l.errors.map Prod.fst).Nodup
  errors : ∀ err, l.errors.lookup err = Event.errorCount events err

section Errors

variable {es acc : List (String × ℕ)}

theorem lookup_cons_eq (k k₀ : String) (v₀ : ℕ) (rest : List (String × ℕ)) :
    ((k₀, v₀) :: rest).lookup k = if k = k₀ then some v₀ else rest.lookup k := by
  rw [List.lookup_cons]
  by_cases h : k = k₀
  · simp [h]
  · rw [if_neg h, beq_eq_false_iff_ne.mpr h]

theorem lookup_bump (k k' : String) (v : ℕ) (es : List (String × ℕ)) :
    (bump k v es).lookup k' = if k' = k then some ((es.lookup k).getD 0 + v) else es.lookup k' := by
  induction es with
  | nil => simp [bump, lookup_cons_eq]
  | cons kv rest ih =>
    obtain ⟨k₀, v₀⟩ := kv
    by_cases hk : k₀ = k
    · subst hk
      by_cases h : k' = k₀ <;> simp [bump, lookup_cons_eq, h]
    · have hne : k ≠ k₀ := fun h => hk h.symm
      simp only [bump, if_neg hk, lookup_cons_eq, ih, if_neg hne]
      by_cases h : k' = k₀
      · simp [h, hk]
      · rw [if_neg h, if_neg h]

theorem mem_keys_bump {k k' : String} {v : ℕ} :
    k' ∈ (bump k v es).map Prod.fst ↔ k' = k ∨ k' ∈ es.map Prod.fst := by
  induction es with
  | nil => simp [bump]
  | cons kv rest ih =>
    obtain ⟨k₀, v₀⟩ := kv
    by_cases hk : k₀ = k
    · subst hk
      simp [bump]
    · rw [bump, if_neg hk, List.map_cons, List.mem_cons, ih, List.map_cons, List.mem_cons]
      tauto

theorem nodup_keys_bump (h : (es.map Prod.fst).Nodup) (k : String) (v : ℕ) :
    ((bump k v es).map Prod.fst).Nodup := by
  induction es with
  | nil => simp [bump]
  | cons kv rest ih =>
    obtain ⟨k₀, v₀⟩ := kv
    rw [List.map_cons, List.nodup_cons] at h
    by_cases hk : k₀ = k
    · rw [bump, if_pos hk, List.map_cons, List.nodup_cons]
      exact h
    · rw [bump, if_neg hk, List.map_cons, List.nodup_cons, mem_keys_bump]
      refine ⟨?_, ih h.2⟩
      rintro (heq | hmem)
      · exact hk heq
      · exact h.1 hmem

/-- Merging adds the counts of the other record to those of this one, error by error. -/
theorem lookup_foldl_bump (h : (es.map Prod.fst).Nodup) (k : String) :
    (es.foldl (fun acc kv => bump kv.1 kv.2 acc) acc).lookup k = match es.lookup k with
      | some v => some ((acc.lookup k).getD 0 + v)
      | none => acc.lookup k := by
  induction es generalizing acc with
  | nil => rfl
  | cons kv rest ih =>
    obtain ⟨k₀, v₀⟩ := kv
    rw [List.map_cons, List.nodup_cons] at h
    rw [List.foldl_cons, ih h.2, lookup_cons_eq, lookup_bump]
    by_cases hk : k = k₀
    · subst hk
      have hnone : rest.lookup k = none := by
        rw [List.lookup_eq_none_iff]
        intro p hp
        rw [bne_iff_ne]
        rintro rfl
        exact h.1 (List.mem_map.mpr ⟨p, hp, rfl⟩)
      simp [hnone]
    · rw [if_neg hk, if_neg hk]

theorem nodup_keys_foldl_bump (hacc : (acc.map Prod.fst).Nodup) :
    ((es.foldl (fun acc kv => bump kv.1 kv.2 acc) acc).map Prod.fst).Nodup := by
  induction es generalizing acc with
  | nil => exact hacc
  | cons kv rest ih => exact ih (nodup_keys_bump hacc kv.1 kv.2)

end Errors

theorem Event.costs_append (a b : List Event) :
    Event.costs (a ++ b) = Event.costs a ++ Event.costs b := List.filterMap_append

theorem Event.errorCount_append (a b : List Event) (err : String) :
    Event.errorCount (a ++ b) err = match Event.errorCount b err with
      | some v => some ((Event.errorCount a err).getD 0 + v)
      | none => Event.errorCount a err := by
  unfold Event.errorCount
  rw [List.count_append]
  by_cases hb : b.count (.fail err) = 0
  · simp [hb]
  · by_cases ha : a.count (.fail err) = 0
    · simp [ha, hb]
    · simp [ha, hb]

theorem records_default : Records {} [] where
  costs := List.Perm.refl _
  counted := counted_default
  failed := rfl
  keys := List.nodup_nil
  errors := fun _ => rfl

namespace Records

variable {l l' : Latencies} {events events' : List Event}

theorem ok (h : Records l events) (cost : ℕ) : Records (l.ok cost) (events ++ [.ok cost]) where
  costs := by
    rw [Event.costs_append]
    exact h.costs.append (List.Perm.refl [(cost : ℤ)])
  counted := h.counted.ok cost
  failed := by
    have := h.failed
    rw [Event.costs_append]
    simp [Event.costs, Latencies.ok] at this ⊢
    omega
  keys := h.keys
  errors := by
    intro err
    rw [Event.errorCount_append]
    exact h.errors err

theorem fail (h : Records l events) (err : String) : Records (l.fail err) (events ++ [.fail err]) where
  costs := by
    rw [Event.costs_append]
    simpa [Event.costs, Latencies.fail] using h.costs
  counted := h.counted.fail err
  failed := by
    have := h.failed
    rw [Event.costs_append]
    simp [Event.costs, Latencies.fail] at this ⊢
    omega
  keys := nodup_keys_bump h.keys err 1
  errors := by
    intro err'
    rw [Event.errorCount_append, ← h.errors]
    simp only [Latencies.fail, lookup_bump]
    by_cases heq : err' = err
    · simp [heq, Event.errorCount]
    · have hnone : Event.errorCount [.fail err] err' = none := by
        have hcount : List.count (Event.fail err') [Event.fail err] = 0 := by
          rw [List.count_eq_zero]
          simp [heq]
        rw [Event.errorCount, if_pos hcount]
      rw [if_neg heq, hnone]

theorem merge (h : Records l events) (h' : Records l' events') :
    Records (l.merge l') (events ++ events') where
  costs := by
    rw [Event.costs_append]
    exact h.costs.append h'.costs
  counted := h.counted.merge h'.counted
  failed := by
    have h1 := h.failed
    have h2 := h'.failed
    rw [Event.costs_append, List.length_append, List.length_append]
    simp only [Latencies.merge]
    push_cast
    omega
  keys := nodup_keys_foldl_bump h.keys
  errors := by
    intro err
    rw [Event.errorCount_append, ← h.errors, ← h'.errors]
    exact lookup_foldl_bump h'.keys err

end Records

theorem records_foldl {l : Latencies} {events : List Event} (h : Records l events)
    (more : List Event) : Records (more.foldl Event.record l) (events ++ more) := by
  induction more generalizing l events with
  | nil => simpa using h
  | cons e more ih =>
    rw [List.foldl_cons, List.append_cons]
    cases e with
    | ok cost => exact ih (h.ok cost)
    | fail err => exact ih (h.fail err)

/-- However the events are divided and merged, the record holds them all. -/
theorem Merging.records (m : Merging) : Records m.latencies m.events := by
  induction m with
  | worker events => exact records_foldl records_default events
  | merge a b iha ihb => exact iha.merge ihb

/-- Two records of the same events differ in the order of the costs only. -/
theorem Records.same {l l' : Latencies} {events events' : List Event} (h : Records l events)
    (h' : Records l' events') (hperm : events.Perm events') :
    l.costs.Perm l'.costs ∧ l.success = l'.success ∧ l.failed = l'.failed ∧
      ∀ err, l.errors.lookup err = l'.errors.lookup err := by
  have hcosts : (Event.costs events).Perm (Event.costs events') := hperm.filterMap _
  have hperm' : l.costs.Perm l'.costs := (h.costs.trans hcosts).trans h'.costs.symm
  refine ⟨hperm', ?_, ?_, ?_⟩
  · rw [← h.counted.costs, ← h'.counted.costs, hperm'.length_eq]
  · have h1 := h.failed
    have h2 := h'.failed
    rw [hperm.length_eq, hcosts.length_eq] at h1
    omega
  · intro err
    rw [h.errors, h'.errors, Event.errorCount, Event.errorCount, hperm.count_eq]

theorem summarize_congr {l l' : Latencies} (hcosts : l.costs.Perm l'.costs)
    (hsuccess : l.success = l'.success) (used : ℕ) : l.summarize used = l'.summarize used := by
  have hsort : l.costs.insertionSort (· ≤ ·) = l'.costs.insertionSort (· ≤ ·) :=
    List.Perm.eq_of_pairwise' (List.pairwise_insertionSort _ _) (List.pairwise_insertionSort _ _)
      (((List.perm_insertionSort _ _).trans hcosts).trans (List.perm_insertionSort _ _).symm)
  unfold summarize
  rw [hsort, hsuccess]

section Ranks

variable {costs : List ℤ} {p : ℕ}

/-- The index of TP`p` is in range, and is not cut. -/
theorem tpn_eq (hne : costs ≠ []) (hp : p < 100) :
    ∃ h : p * costs.length / 100 < costs.length,
      tpn costs p = some (costs.get ⟨p * costs.length / 100, h⟩) := by
  have hpos : 0 < costs.length := List.length_pos_iff.mpr hne
  have hlt : p * costs.length / 100 < costs.length := by
    rw [Nat.div_lt_iff_lt_mul (by decide), Nat.mul_comm costs.length]
    exact Nat.mul_lt_mul_of_pos_right hp hpos
  refine ⟨hlt, ?_⟩
  rw [tpn, if_neg hne, Nat.min_eq_left (by omega), List.getElem?_eq_getElem hlt]
  rfl

/-- More than `p` percent of the costs are at most TP`p`. -/
theorem lt_countP_le_get (hsorted : costs.SortedLE) (h : p * costs.length / 100 < costs.length) :
    p * costs.length < 100 * costs.countP (· ≤ costs.get ⟨p * costs.length / 100, h⟩) := by
  have hall : (costs.take (p * costs.length / 100 + 1)).countP
      (· ≤ costs.get ⟨p * costs.length / 100, h⟩) = p * costs.length / 100 + 1 := by
    have hlen : (costs.take (p * costs.length / 100 + 1)).length = p * costs.length / 100 + 1 := by
      rw [List.length_take]
      omega
    conv_rhs => rw [← hlen]
    rw [List.countP_eq_length]
    intro c hc
    obtain ⟨j, hj, rfl⟩ := List.getElem_of_mem hc
    rw [List.getElem_take, decide_eq_true_eq]
    rw [hlen] at hj
    have hle : (⟨j, by omega⟩ : Fin costs.length) ≤ ⟨p * costs.length / 100, h⟩ := by
      rw [Fin.mk_le_mk]
      omega
    exact hsorted.monotone_get hle
  have hle := (List.take_sublist (p * costs.length / 100 + 1) costs).countP_le
    (p := (· ≤ costs.get ⟨p * costs.length / 100, h⟩))
  rw [hall] at hle
  omega

theorem head_eq_get (h : 0 < costs.length) : costs.head?.getD 0 = costs.get ⟨0, h⟩ := by
  rw [List.head?_eq_getElem?, List.getElem?_eq_getElem h]
  rfl

theorem last_eq_get (h : 0 < costs.length) :
    costs.getLast?.getD 0 = costs.get ⟨costs.length - 1, by omega⟩ := by
  rw [List.getLast?_eq_getElem?, List.getElem?_eq_getElem (by omega)]
  rfl

theorem min_le_avg_le_max (hsorted : costs.SortedLE) (hne : costs ≠ [])
    (hpos : ∀ c ∈ costs, 0 ≤ c) :
    costs.head?.getD 0 ≤ costs.sum.tdiv costs.length ∧
      costs.sum.tdiv costs.length ≤ costs.getLast?.getD 0 := by
  have hlen : 0 < costs.length := List.length_pos_iff.mpr hne
  have hlen' : (0 : ℤ) < costs.length := by exact_mod_cast hlen
  have hmin : ∀ c ∈ costs, costs.get ⟨0, hlen⟩ ≤ c := by
    intro c hc
    obtain ⟨i, rfl⟩ := List.get_of_mem hc
    exact hsorted.monotone_get (Fin.mk_le_of_le_val (Nat.zero_le _))
  have hmax : ∀ c ∈ costs, c ≤ costs.get ⟨costs.length - 1, by omega⟩ := by
    intro c hc
    obtain ⟨i, rfl⟩ := List.get_of_mem hc
    refine hsorted.monotone_get (Fin.le_def.mpr ?_)
    have := i.isLt
    simp only
    omega
  have hlow := List.card_nsmul_le_sum costs _ hmin
  have hhigh := List.sum_le_card_nsmul costs _ hmax
  rw [nsmul_eq_mul] at hlow hhigh
  rw [Int.tdiv_eq_ediv_of_nonneg (List.sum_nonneg hpos)]
  constructor
  · rw [head_eq_get hlen]
    exact Int.le_ediv_of_mul_le hlen' (by linarith)
  · rw [last_eq_get hlen]
    exact Int.ediv_le_of_le_mul hlen' (by linarith)

end Ranks

end Latencies

/-- The figures of a summary are there and in order, and TP`p` is above more than `p` percent. -/
structure Summary.Ordered (s : Summary) (costs : List ℤ) : Prop where
  min_le_tp50 : s.min ≤ s.tp50
  tp50_le_tp75 : s.tp50 ≤ s.tp75
  tp75_le_tp90 : s.tp75 ≤ s.tp90
  tp90_le_tp95 : s.tp90 ≤ s.tp95
  tp95_le_tp99 : s.tp95 ≤ s.tp99
  tp99_le_max : s.tp99 ≤ s.max
  min_le_avg : s.min ≤ s.avg
  avg_le_max : s.avg ≤ s.max
  ranks : ∀ q ∈ [(50, s.tp50), (75, s.tp75), (90, s.tp90), (95, s.tp95), (99, s.tp99)],
    q.1 * costs.length < 100 * costs.countP (· ≤ q.2)

namespace Latencies

theorem summarize_ordered {l : Latencies} (used : ℕ) (hne : l.costs ≠ [])
    (hpos : ∀ c ∈ l.costs, 0 ≤ c) :
    ∃ s, l.summarize used = some s ∧ s.Ordered l.costs := by
  have hperm : (l.costs.insertionSort (· ≤ ·)).Perm l.costs := List.perm_insertionSort _ _
  have hsorted : (l.costs.insertionSort (· ≤ ·)).SortedLE := List.sortedLE_insertionSort
  unfold summarize
  generalize l.costs.insertionSort (· ≤ ·) = costs at hperm hsorted ⊢
  have hne' : costs ≠ [] := fun h => hne (by rw [h] at hperm; exact hperm.nil_eq.symm)
  have hlen : 0 < costs.length := List.length_pos_iff.mpr hne'
  obtain ⟨h50, e50⟩ := tpn_eq hne' (by decide : 50 < 100)
  obtain ⟨h75, e75⟩ := tpn_eq hne' (by decide : 75 < 100)
  obtain ⟨h90, e90⟩ := tpn_eq hne' (by decide : 90 < 100)
  obtain ⟨h95, e95⟩ := tpn_eq hne' (by decide : 95 < 100)
  obtain ⟨h99, e99⟩ := tpn_eq hne' (by decide : 99 < 100)
  have havg := min_le_avg_le_max hsorted hne' (fun c hc => hpos c (hperm.mem_iff.mp hc))
  simp only [e50, e75, e90, e95, e99, if_neg hne']
  refine ⟨_, rfl, ?_⟩
  have hget : ∀ (i j : ℕ) (hi : i < costs.length) (hj : j < costs.length), i ≤ j →
      costs.get ⟨i, hi⟩ ≤ costs.get ⟨j, hj⟩ := fun i j hi hj hij => hsorted.monotone_get hij
  constructor
  · simp only [head_eq_get hlen]
    exact hget _ _ _ _ (Nat.zero_le _)
  · exact hget _ _ _ _ (by omega)
  · exact hget _ _ _ _ (by omega)
  · exact hget _ _ _ _ (by omega)
  · exact hget _ _ _ _ (by omega)
  · simp only [last_eq_get hlen]
    exact hget _ _ _ _ (by omega)
  · exact havg.1
  · exact havg.2
  · intro q hq
    rw [← hperm.length_eq, ← hperm.countP_eq]
    simp only [List.mem_cons, List.not_mem_nil, or_false] at hq
    rcases hq with rfl | rfl | rfl | rfl | rfl <;> exact lt_countP_le_get hsorted _

end Latencies

end Http3Bench
