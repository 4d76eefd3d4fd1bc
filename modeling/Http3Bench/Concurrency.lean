import Http3Bench.Connections

/-!
# Dials in progress

`-dc` bounds the dials in progress over all workers. It is split over them like the connections are,
and a worker that has connections to dial gets at least one dial at a time, so with fewer dials than
workers the parts add up to more than was asked for.
-/

namespace Http3Bench

variable {P : Platform}

/-- `dial_conc` of `main`, which the report records. -/
def dialConc (dc : ℤ) (numConns : ℕ) : ℕ := min (max dc 1).toNat numConns

/-- The dials in progress on a worker. -/
def Phase.active : Phase → ℕ
  | .dial d => d.active
  | _ => 0

namespace Engine

/-- The dials in progress over all workers. -/
def active (s : Engine P) : ℕ := (s.threads.map (fun t => t.w.phase.active)).sum

end Engine

/-- The most dials a command lets a worker have in progress. -/
def Command.limit : Command → ℕ
  | .dial count conc => min count conc
  | _ => 0

theorem Serves.active_le {cmd : Command} {p : Phase} (h : Serves cmd p) : p.active ≤ cmd.limit := by
  cases h with
  | dial h₁ h₂ h₃ h₄ =>
    have hc := h₄.costs
    have he := h₄.errors
    refine le_min ?_ h₃
    simp only [Phase.active]
    omega
  | _ => exact Nat.zero_le _

theorem dialLimits_le_concs (counts : List ℕ) {concs : List ℕ} (h : ∀ conc ∈ concs, 1 ≤ conc) :
    ((List.zipWith (fun count conc => Command.dial count (if 0 < count then max conc 1 else 0))
      counts concs).map Command.limit).sum ≤ concs.sum := by
  induction counts generalizing concs with
  | nil => simp
  | cons count counts ih =>
    cases concs with
    | nil => simp
    | cons conc concs =>
      have hc := h conc (List.mem_cons_self ..)
      have hrest := ih (fun c hc => h c (List.mem_cons_of_mem _ hc))
      simp only [List.zipWith_cons_cons, List.map_cons, List.sum_cons, Command.limit]
      split <;> omega

theorem dialLimits_le_counts (counts : List ℕ) {concs : List ℕ} (h : ∀ conc ∈ concs, conc ≤ 1) :
    ((List.zipWith (fun count conc => Command.dial count (if 0 < count then max conc 1 else 0))
      counts concs).map Command.limit).sum ≤ min concs.length counts.sum := by
  induction counts generalizing concs with
  | nil => simp
  | cons count counts ih =>
    cases concs with
    | nil => simp
    | cons conc concs =>
      have hc := h conc (List.mem_cons_self ..)
      have hrest := ih (fun c hc => h c (List.mem_cons_of_mem _ hc))
      simp only [List.zipWith_cons_cons, List.map_cons, List.sum_cons, List.length_cons, Command.limit]
      split <;> omega

/-- What the commands of the Connections benchmark allow: `-dc` dials, or one for each worker that
has a connection to dial. -/
theorem sum_limit_dialCommands_le {numConns conc threads : ℕ} (hpos : 0 < threads)
    (hfit : numConns * threads < 2 ^ 64) (hle : conc ≤ numConns) :
    ((dialCommands numConns conc threads).map Command.limit).sum ≤
      max conc (min threads numConns) := by
  have hfit' : conc * threads < 2 ^ 64 := (Nat.mul_le_mul_right threads hle).trans_lt hfit
  rcases le_total threads conc with h | h
  · have hsum := dialLimits_le_concs (split numConns threads)
      (fun c hc => one_le_of_mem_split hfit' h hc)
    rw [sum_split hpos hfit'] at hsum
    exact hsum.trans (le_max_left _ _)
  · have hsum := dialLimits_le_counts (split numConns threads)
      (fun c hc => le_one_of_mem_split hfit' h hc)
    rw [length_split, sum_split hpos hfit] at hsum
    exact hsum.trans (le_max_right _ _)

namespace Engine

variable {cfg : EngineConfig} {s s' : Engine P}

theorem Step.length_round (h : Step s s') (hs : ∀ cmds ∈ s.rounds, cmds.length = s.threads.length) :
    ∀ cmds ∈ s'.rounds, cmds.length = s'.threads.length := by
  intro cmds hm
  cases h with
  | turn hi ht => exact (hs cmds hm).trans List.length_set.symm
  | run new ho hsent hlen =>
    rcases List.mem_append.mp hm with hm | hm
    · exact hs cmds hm
    · rw [List.mem_singleton.mp hm]
      exact hlen
  | send ho hi => exact (hs cmds hm).trans List.length_set.symm

/-- A round has a command for each worker. -/
theorem Reach.length_round (h : s.Reach cfg) : ∀ cmds ∈ s.rounds, cmds.length = s.threads.length := by
  obtain ⟨starts, hrun⟩ := h
  induction hrun with
  | refl => exact fun cmds hm => (by cases hm)
  | tail _ hstep ih => exact hstep.length_round ih

/-- What the phases of the workers count is bounded by what their commands allow. -/
theorem Reach.sum_le (h : s.Reach cfg) {cmds : List Command} (hround : s.rounds.getLast? = some cmds)
    {count : Phase → ℕ} {limit : Command → ℕ} (hidle : count .idle = 0)
    (hserves : ∀ t ∈ s.threads, ∀ cmd, Serves cmd t.w.phase → count t.w.phase ≤ limit cmd) :
    (s.threads.map (fun t => count t.w.phase)).sum ≤ (cmds.map limit).sum := by
  have hlen := h.length_round cmds (List.mem_of_getLast? hround)
  apply List.Forall₂.sum_le_sum
  rw [List.forall₂_map_left_iff, List.forall₂_map_right_iff]
  refine List.forall₂_iff_get.mpr ⟨hlen.symm, fun i h₁ h₂ => ?_⟩
  have hi : s.threads[i]? = some (s.threads.get ⟨i, h₁⟩) := List.getElem?_eq_getElem h₁
  by_cases hp : (s.threads.get ⟨i, h₁⟩).w.phase = .idle
  · rw [hp, hidle]
    exact Nat.zero_le _
  · obtain ⟨cmd, hcmd, hserving⟩ := h.ok.serving hi hround hp
    obtain rfl := Option.some.inj (hcmd.symm.trans (List.getElem?_eq_getElem h₂))
    exact hserves _ (List.get_mem ..) _ hserving

end Engine

/-- At every moment of the Connections benchmark at most `-dc` dials are in progress, or one on each
worker that has a connection to dial. -/
theorem dial_concurrency {cfg : EngineConfig} (s : Engine P) (hs : s.Reach cfg) (dc : ℤ)
    (numConns : ℕ) (hpos : 0 < s.threads.length) (hfit : numConns * s.threads.length < 2 ^ 64)
    (hround : s.rounds = [dialCommands numConns (dialConc dc numConns) s.threads.length]) :
    s.active ≤ max (dialConc dc numConns) (min s.threads.length numConns) ∧
      (min s.threads.length numConns ≤ dialConc dc numConns → s.active ≤ dialConc dc numConns) := by
  have hactive : s.active ≤ _ := hs.sum_le (by rw [hround]; rfl) rfl (fun _ _ _ h => h.active_le)
  have hlimit := sum_limit_dialCommands_le hpos hfit (min_le_right _ _ : dialConc dc numConns ≤ numConns)
  exact ⟨hactive.trans hlimit, fun hle => (hactive.trans hlimit).trans (max_le (le_refl _) hle)⟩

/-- Two workers, two connections, one dial at a time: both workers dial. -/
theorem exists_two_active : ∃ s : Engine loopback, s.Reach loopbackConfig ∧
    s.threads.length = 2 ∧ s.rounds = [dialCommands 2 (dialConc 1 2) 2] ∧ s.active = 2 := by
  obtain ⟨s, hs, hp⟩ := Engine.exists_reach (P := loopback) loopbackConfig
    [({ polls := [[.waker]] }, 0), ({ polls := [[.waker]] }, 0)]
    ([.run (dialCommands 2 (dialConc 1 2) 2), .send, .send] ++ List.replicate 4 (.turn 0) ++
      List.replicate 4 (.turn 1))
    (fun s => s.threads.length = 2 ∧ s.rounds = [dialCommands 2 (dialConc 1 2) 2] ∧ s.active = 2)
    (by decide +kernel)
  exact ⟨s, hs, of_decide_eq_true hp⟩

theorem dial_concurrency_two_workers : ∃ s : Engine loopback, s.Reach loopbackConfig ∧
    s.active = 2 ∧ s.active ≤ max (dialConc 1 2) (min s.threads.length 2) := by
  obtain ⟨s, hs, hlen, hround, hactive⟩ := exists_two_active
  exact ⟨s, hs, hactive, (dial_concurrency s hs 1 2 (by simp [hlen]) (by simp [hlen])
    (by rw [hround, hlen])).1⟩

theorem dial_concurrency_exceeded : ¬ ∀ (dc : ℤ) (numConns : ℕ) (s : Engine loopback),
    s.Reach loopbackConfig →
    s.rounds = [dialCommands numConns (dialConc dc numConns) s.threads.length] →
    s.active ≤ dialConc dc numConns := by
  intro h
  obtain ⟨s, hs, hlen, hround, hactive⟩ := exists_two_active
  have hle := h 1 2 s hs (by rw [hround, hlen])
  rw [hactive] at hle
  exact absurd hle (by decide)

end Http3Bench
