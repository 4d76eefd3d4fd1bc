import Http3Bench.Worker

/-!
# Sharing work out over the workers

`split` and `split_by` of `benchcli-rust/src/main.rs`, with the arithmetic of `usize` as it wraps
around, and the commands `main` makes of the parts.
-/

namespace Http3Bench

/-- `a * b` on `usize`. -/
def mulUsize (a b : ℕ) : ℕ := a * b % 2 ^ 64

/-- `a - b` on `usize`. -/
def subUsize (a b : ℕ) : ℕ := (a + 2 ^ 64 - b) % 2 ^ 64

/-- The sum of a list of `usize`. -/
def sumUsize (l : List ℕ) : ℕ := l.sum % 2 ^ 64

/-- Splits `total` into `n` parts that differ by at most one. -/
def split (total n : ℕ) : List ℕ :=
  (List.range n).map (fun i => subUsize (mulUsize total (i + 1) / n) (mulUsize total i / n))

/-- The loop of `split_by`: one more for each part that is below what its worker holds, as long as
something is left. -/
def topUp : ℕ → List ℕ → List ℕ → List ℕ
  | left + 1, p :: parts, h :: holds =>
    if p < h then (p + 1) :: topUp left parts holds else p :: topUp (left + 1) parts holds
  | _, parts, _ => parts

/-- Splits `total` over the workers in proportion to what each holds, and no more than it holds. -/
def splitBy (total : ℕ) (holds : List ℕ) : List ℕ :=
  let sum := sumUsize holds
  if sum = 0 then List.replicate holds.length 0
  else
    let total := min total sum
    let parts := holds.map (fun h => mulUsize total h / sum)
    topUp (subUsize total (sumUsize parts)) parts holds

/-- The commands of the Connections benchmark. -/
def dialCommands (numConns dialConc threads : ℕ) : List Command :=
  List.zipWith (fun count conc => Command.dial count (if 0 < count then max conc 1 else 0))
    (split numConns threads) (split dialConc threads)

/-- The commands of a BenchEcho for `job` on workers that hold `ready` connections. -/
def echoCommands (job : EchoJob) (echoConc : ℕ) (ready : List ℕ) : List Command :=
  (splitBy echoConc ready).map (Command.echo job)

theorem mulUsize_of_le {total n i : ℕ} (h : total * n < 2 ^ 64) (hi : i ≤ n) :
    mulUsize total i = total * i :=
  Nat.mod_eq_of_lt ((Nat.mul_le_mul_left total hi).trans_lt h)

theorem subUsize_of_le {a b : ℕ} (ha : a < 2 ^ 64) (hb : b ≤ a) : subUsize a b = a - b := by
  have hab : a + 2 ^ 64 - b = (a - b) + 2 ^ 64 := by omega
  rw [subUsize, hab, Nat.add_mod_right, Nat.mod_eq_of_lt (by omega)]

theorem sumUsize_of_lt {l : List ℕ} (h : l.sum < 2 ^ 64) : sumUsize l = l.sum := Nat.mod_eq_of_lt h

theorem sum_range_sub {g : ℕ → ℕ} (hg : Monotone g) (n : ℕ) :
    ((List.range n).map (fun i => g (i + 1) - g i)).sum + g 0 = g n := by
  induction n with
  | zero => simp
  | succ n ih =>
    have hle : g n ≤ g (n + 1) := hg (Nat.le_succ n)
    rw [List.range_succ, List.map_append, List.sum_append]
    simp only [List.map_cons, List.map_nil, List.sum_cons, List.sum_nil]
    omega

theorem split_eq {total n : ℕ} (h : total * n < 2 ^ 64) :
    split total n = (List.range n).map (fun i => total * (i + 1) / n - total * i / n) := by
  apply List.map_congr_left
  intro i hi
  rw [List.mem_range] at hi
  have hbound : total * (i + 1) < 2 ^ 64 := (Nat.mul_le_mul_left total hi).trans_lt h
  rw [mulUsize_of_le h hi, mulUsize_of_le h hi.le]
  apply subUsize_of_le
  · exact (Nat.div_le_self _ _).trans_lt hbound
  · exact Nat.div_le_div_right (Nat.mul_le_mul_left total (Nat.le_succ i))

theorem sum_split {total n : ℕ} (hn : 0 < n) (h : total * n < 2 ^ 64) :
    (split total n).sum = total := by
  have hmono : Monotone (fun i => total * i / n) := fun a b hab =>
    Nat.div_le_div_right (Nat.mul_le_mul_left total hab)
  have hsum := sum_range_sub hmono n
  rw [split_eq h]
  simpa [Nat.mul_div_cancel _ hn] using hsum

theorem length_split (total n : ℕ) : (split total n).length = n := by simp [split]

theorem exists_of_mem_split {total n p : ℕ} (h : total * n < 2 ^ 64) (hp : p ∈ split total n) :
    0 < n ∧ ∃ i, p = (total * i + total) / n - total * i / n := by
  rw [split_eq h] at hp
  obtain ⟨i, hi, rfl⟩ := List.mem_map.mp hp
  rw [List.mem_range] at hi
  exact ⟨by omega, i, by rw [Nat.mul_succ]⟩

theorem le_one_of_mem_split {total n p : ℕ} (h : total * n < 2 ^ 64) (hle : total ≤ n)
    (hp : p ∈ split total n) : p ≤ 1 := by
  obtain ⟨hn, i, rfl⟩ := exists_of_mem_split h hp
  have hdiv : (total * i + total) / n ≤ (total * i + n) / n := Nat.div_le_div_right (by omega)
  rw [Nat.add_div_right _ hn] at hdiv
  omega

theorem one_le_of_mem_split {total n p : ℕ} (h : total * n < 2 ^ 64) (hle : n ≤ total)
    (hp : p ∈ split total n) : 1 ≤ p := by
  obtain ⟨hn, i, rfl⟩ := exists_of_mem_split h hp
  have hdiv : (total * i + n) / n ≤ (total * i + total) / n := Nat.div_le_div_right (by omega)
  rw [Nat.add_div_right _ hn] at hdiv
  omega

theorem mem_split_cases {total n p : ℕ} (h : total * n < 2 ^ 64) (hp : p ∈ split total n) :
    p = total / n ∨ p = total / n + 1 := by
  obtain ⟨hn, i, rfl⟩ := exists_of_mem_split h hp
  rw [Nat.add_div hn]
  generalize total * i / n = a, total / n = b
  split <;> omega

section TopUp

variable {f : ℕ → ℕ}

/-- One pass raises each part by at most one, and none above what its worker holds. -/
theorem forall₂_topUp {holds : List ℕ} (hf : ∀ h ∈ holds, f h ≤ h) (left : ℕ) :
    List.Forall₂ (fun p h => p ≤ h ∧ (p = f h ∨ p = f h + 1))
      (topUp left (holds.map f) holds) holds := by
  induction holds generalizing left with
  | nil => cases left <;> exact .nil
  | cons h holds ih =>
    have hh : f h ≤ h := hf h (List.mem_cons_self ..)
    have hrest : ∀ k ∈ holds, f k ≤ k := fun k hk => hf k (List.mem_cons_of_mem _ hk)
    cases left with
    | zero =>
      have hzero : topUp 0 (holds.map f) holds = holds.map f := by cases holds <;> rfl
      have htail := ih hrest 0
      rw [hzero] at htail
      exact .cons ⟨hh, .inl rfl⟩ htail
    | succ left =>
      rw [List.map_cons, topUp]
      split
      · exact .cons ⟨by omega, .inr rfl⟩ (ih hrest left)
      · exact .cons ⟨hh, .inl rfl⟩ (ih hrest (left + 1))

/-- The pass hands out what is left, or one to every worker that has room. -/
theorem sum_topUp (holds : List ℕ) (left : ℕ) :
    (topUp left (holds.map f) holds).sum =
      (holds.map f).sum + min left (holds.countP (fun h => f h < h)) := by
  induction holds generalizing left with
  | nil => cases left <;> simp [topUp]
  | cons h holds ih =>
    cases left with
    | zero => simp [topUp]
    | succ left =>
      rw [List.map_cons, topUp]
      by_cases hroom : f h < h
      · rw [if_pos hroom, List.sum_cons, ih left, List.sum_cons,
          List.countP_cons_of_pos (by simpa using hroom)]
        omega
      · rw [if_neg hroom, List.sum_cons, ih (left + 1), List.sum_cons,
          List.countP_cons_of_neg (by simpa using hroom)]
        omega

end TopUp

/-- Division with remainder, summed over the workers. -/
theorem sum_div_add_mod (t s : ℕ) (holds : List ℕ) :
    s * (holds.map (fun h => t * h / s)).sum + (holds.map (fun h => t * h % s)).sum =
      t * holds.sum := by
  induction holds with
  | nil => simp
  | cons h rest ih =>
    have hdiv := Nat.div_add_mod (t * h) s
    simp only [List.map_cons, List.sum_cons, Nat.mul_add]
    omega

/-- A worker leaves a remainder only if its floor is below what it holds. -/
theorem sum_mod_le {t s : ℕ} (hts : t < s) (holds : List ℕ) :
    (holds.map (fun h => t * h % s)).sum ≤ s * holds.countP (fun h => t * h / s < h) := by
  induction holds with
  | nil => simp
  | cons h rest ih =>
    rw [List.map_cons, List.sum_cons]
    rcases Nat.eq_zero_or_pos h with rfl | hpos
    · rw [List.countP_cons_of_neg (by simp)]
      simpa using ih
    · have hfloor : t * h / s < h := by
        rw [Nat.div_lt_iff_lt_mul (by omega), Nat.mul_comm h s]
        exact Nat.mul_lt_mul_of_pos_right hts hpos
      have hmod : t * h % s < s := Nat.mod_lt _ (by omega)
      rw [List.countP_cons_of_pos (by simpa using hfloor), Nat.mul_succ]
      omega

/-- The floors leave no more than there are workers with room. -/
theorem left_le_countP {t : ℕ} {holds : List ℕ} (hpos : 0 < holds.sum) (ht : t ≤ holds.sum) :
    t - (holds.map (fun h => t * h / holds.sum)).sum ≤
      holds.countP (fun h => t * h / holds.sum < h) := by
  have hsum := sum_div_add_mod t holds.sum holds
  rcases Nat.lt_or_eq_of_le ht with hlt | heq
  · have hmod := sum_mod_le hlt holds
    apply Nat.le_of_mul_le_mul_left _ hpos
    rw [Nat.mul_sub, Nat.mul_comm _ t]
    omega
  · have hfloor : (holds.map (fun h => t * h / holds.sum)) = holds := by
      rw [heq]
      conv_rhs => rw [← List.map_id holds]
      exact List.map_congr_left (fun h _ => Nat.mul_div_cancel_left h hpos)
    rw [hfloor]
    omega

theorem sum_floors_le {t : ℕ} {holds : List ℕ} (hpos : 0 < holds.sum) :
    (holds.map (fun h => t * h / holds.sum)).sum ≤ t := by
  have hsum := sum_div_add_mod t holds.sum holds
  apply Nat.le_of_mul_le_mul_left _ hpos
  rw [Nat.mul_comm _ t]
  omega

/-- `split_by` where nothing wraps around. -/
theorem splitBy_eq {total : ℕ} {holds : List ℕ} (hpos : 0 < holds.sum)
    (hsum : holds.sum < 2 ^ 64) (hmul : ∀ h ∈ holds, total * h < 2 ^ 64) :
    splitBy total holds =
      topUp (min total holds.sum - (holds.map (fun h => min total holds.sum * h / holds.sum)).sum)
        (holds.map (fun h => min total holds.sum * h / holds.sum)) holds := by
  have hparts : holds.map (fun h => mulUsize (min total holds.sum) h / holds.sum) =
      holds.map (fun h => min total holds.sum * h / holds.sum) := by
    apply List.map_congr_left
    intro h hh
    have hle : min total holds.sum * h ≤ total * h := Nat.mul_le_mul_right h (Nat.min_le_left _ _)
    rw [mulUsize, Nat.mod_eq_of_lt (hle.trans_lt (hmul h hh))]
  have hfloors := sum_floors_le (t := min total holds.sum) hpos
  have hmin : min total holds.sum ≤ holds.sum := Nat.min_le_right _ _
  unfold splitBy
  simp only [sumUsize_of_lt hsum]
  rw [if_neg (by omega), hparts, sumUsize_of_lt (by omega), subUsize_of_le (by omega) hfloors]

/-- The single pass over the left-over hands out everything that is left. -/
theorem sum_splitBy {total : ℕ} {holds : List ℕ} (hsum : holds.sum < 2 ^ 64)
    (hmul : ∀ h ∈ holds, total * h < 2 ^ 64) : (splitBy total holds).sum = min total holds.sum := by
  rcases Nat.eq_zero_or_pos holds.sum with hzero | hpos
  · simp [splitBy, sumUsize_of_lt hsum, hzero]
  · rw [splitBy_eq hpos hsum hmul, sum_topUp]
    have hleft := left_le_countP hpos (Nat.min_le_right total holds.sum)
    have hfloors := sum_floors_le (t := min total holds.sum) hpos
    omega

/-- No more is handed out than there is, even where the products wrap around. -/
theorem sum_splitBy_le (total : ℕ) {holds : List ℕ} (hsum : holds.sum < 2 ^ 64) :
    (splitBy total holds).sum ≤ min total holds.sum := by
  rcases Nat.eq_zero_or_pos holds.sum with hzero | hpos
  · simp [splitBy, sumUsize_of_lt hsum, hzero]
  · have hparts : (holds.map (fun h => mulUsize (min total holds.sum) h / holds.sum)).sum ≤
        min total holds.sum := by
      refine le_trans (List.sum_le_sum (fun h _ => ?_)) (sum_floors_le hpos)
      exact Nat.div_le_div_right (Nat.mod_le _ _)
    have hmin : min total holds.sum ≤ holds.sum := Nat.min_le_right _ _
    unfold splitBy
    simp only [sumUsize_of_lt hsum]
    rw [if_neg (by omega), sumUsize_of_lt (by omega), subUsize_of_le (by omega) hparts, sum_topUp]
    omega

theorem forall₂_splitBy {total : ℕ} {holds : List ℕ} (hsum : holds.sum < 2 ^ 64)
    (hmul : ∀ h ∈ holds, total * h < 2 ^ 64) :
    List.Forall₂ (fun p h => p ≤ h ∧ (p = min total holds.sum * h / holds.sum ∨
      p = min total holds.sum * h / holds.sum + 1)) (splitBy total holds) holds := by
  rcases Nat.eq_zero_or_pos holds.sum with hzero | hpos
  · have hparts : splitBy total holds = holds.map (fun _ => 0) := by
      simp [splitBy, sumUsize_of_lt hsum, hzero]
    rw [hparts, List.forall₂_map_left_iff, List.forall₂_same]
    intro h _
    simp [hzero]
  · rw [splitBy_eq hpos hsum hmul]
    apply forall₂_topUp
    intro h _
    exact Nat.div_le_of_le_mul (Nat.mul_le_mul_right h (Nat.min_le_right total holds.sum))

/-- Both splits hand out exactly what there is, where the arithmetic of `usize` does not wrap. -/
theorem splits_exact :
    (∀ total n, 1 ≤ n → total * n < 2 ^ 64 →
      (split total n).length = n ∧ (split total n).sum = total ∧
        ∀ p ∈ split total n, ∀ q ∈ split total n, p ≤ q + 1) ∧
    ∀ total holds, (∀ h ∈ holds, total * h < 2 ^ 64) → holds.sum < 2 ^ 64 →
      (splitBy total holds).length = holds.length ∧
      List.Forall₂ (fun p h => p ≤ h ∧ (p = min total holds.sum * h / holds.sum ∨
        p = min total holds.sum * h / holds.sum + 1)) (splitBy total holds) holds ∧
      (splitBy total holds).sum = min total holds.sum := by
  constructor
  · intro total n hn h
    refine ⟨length_split total n, sum_split hn h, ?_⟩
    intro p hp q hq
    rcases mem_split_cases h hp with hp | hp <;> rcases mem_split_cases h hq with hq | hq <;> omega
  · intro total holds hmul hsum
    have hall := forall₂_splitBy hsum hmul
    exact ⟨hall.length_eq, hall, sum_splitBy hsum hmul⟩

theorem splits_exact_three :
    (split 10 3).sum = 10 ∧ (splitBy 4 [1, 2, 4]).sum = min 4 ([1, 2, 4] : List ℕ).sum :=
  ⟨(splits_exact.1 10 3 (by decide) (by decide)).2.1,
    (splits_exact.2 4 [1, 2, 4] (by decide) (by decide)).2.2⟩

/-- Where the sum of what the workers hold wraps around, `split_by` hands out nothing. -/
theorem splitBy_sum_wraps :
    (∀ h ∈ [2 ^ 63, 2 ^ 63], 1 * h < 2 ^ 64) ∧
      (splitBy 1 [2 ^ 63, 2 ^ 63]).sum ≠ min 1 ([2 ^ 63, 2 ^ 63] : List ℕ).sum := by
  decide

end Http3Bench
