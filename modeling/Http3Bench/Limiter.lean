import Mathlib.Algebra.Order.Field.Rat
import Mathlib.Tactic.Linarith
import Mathlib.Tactic.Ring
import Mathlib.Tactic.FieldSimp

/-!
# The token bucket of `-el` and `-rl`

`Limiter` of `benchcli-rust/src/engine.rs` in exact arithmetic, with times in seconds. The workers
share one limiter behind a mutex and read the clock under it, so that a run of it is a list of
calls at times that never go back, whoever makes them.
-/

namespace Http3Bench

structure Limiter where
  rate : ℚ
  level : ℚ
  since : ℚ
  deriving Repr, DecidableEq

namespace Limiter

def new (perSecond : ℕ) (now : ℚ) : Limiter where
  rate := perSecond
  level := perSecond
  since := now

/-- What the time since the last call brings in, up to the larger of a second's tokens and what is
asked for. A clock that went back counts as one that stood still. -/
def refill (l : Limiter) (n : ℕ) (now : ℚ) : Limiter :=
  { l with level := min (l.level + max (now - l.since) 0 * l.rate) (max l.rate n), since := now }

/-- Takes `n` tokens, or says how long until there will be enough. -/
def take (l : Limiter) (n : ℕ) (now : ℚ) : Option ℚ × Limiter :=
  let l := l.refill n now
  if (n : ℚ) ≤ l.level then (none, { l with level := l.level - n })
  else (some ((n - l.level) / l.rate), l)

/-- One call of `take` in a run of the limiter. -/
structure Call where
  now : ℚ
  before : Limiter
  answer : Option ℚ
  after : Limiter

/-- The calls `take(n)` at the times `ts`, in the order the mutex lets them through. -/
def calls (n : ℕ) : Limiter → List ℚ → List Call
  | _, [] => []
  | l, t :: ts => ⟨t, l, (l.take n t).1, (l.take n t).2⟩ :: calls n (l.take n t).2 ts

/-- The tokens granted to the calls from `a` to `b`. -/
def granted (n : ℕ) (a b : ℚ) (cs : List Call) : ℕ :=
  n * cs.countP (fun c => c.answer = none ∧ a ≤ c.now ∧ c.now ≤ b)

/-- The level between its bounds, for calls of size `n`. -/
structure Bounded (n : ℕ) (l : Limiter) : Prop where
  rate_pos : 0 < l.rate
  level_nonneg : 0 ≤ l.level
  level_le : l.level ≤ max l.rate n

variable {l : Limiter} {n : ℕ} {t : ℚ}

@[simp] theorem rate_refill : (l.refill n t).rate = l.rate := rfl

@[simp] theorem since_refill : (l.refill n t).since = t := rfl

theorem level_refill (h : l.since ≤ t) :
    (l.refill n t).level = min (l.level + (t - l.since) * l.rate) (max l.rate n) := by
  rw [refill, max_eq_left (by linarith)]

/-- Two refills in a row are one: the cap is the same for both. -/
theorem refill_refill {u : ℚ} (hr : 0 < l.rate) (ht : l.since ≤ t) (hu : t ≤ u) :
    (l.refill n t).refill n u = l.refill n u := by
  have hgain : 0 ≤ (u - t) * l.rate := mul_nonneg (by linarith) hr.le
  have hlevel : ((l.refill n t).refill n u).level = (l.refill n u).level := by
    rw [level_refill (by simpa using hu), level_refill ht, level_refill (ht.trans hu)]
    simp only [since_refill, rate_refill]
    rw [← min_add_add_right, min_assoc, min_eq_right (a := max l.rate n + _) (by linarith)]
    congr 1
    ring
  simp only [refill, Limiter.mk.injEq] at hlevel ⊢
  exact ⟨trivial, hlevel, trivial⟩

theorem Bounded.refill (h : Bounded n l) (t : ℚ) : Bounded n (l.refill n t) where
  rate_pos := h.rate_pos
  level_nonneg := by
    have hgain : 0 ≤ max (t - l.since) 0 * l.rate := mul_nonneg (le_max_right _ _) h.rate_pos.le
    have hcap : l.rate ≤ max l.rate n := le_max_left _ _
    exact le_min (by linarith [h.level_nonneg]) (by linarith [h.rate_pos])
  level_le := min_le_right _ _

/-- What one call does: it takes all of `n` from the refilled bucket, or nothing. -/
theorem take_cases (l : Limiter) (n : ℕ) (t : ℚ) :
    ((n : ℚ) ≤ (l.refill n t).level ∧
      l.take n t = (none, { l.refill n t with level := (l.refill n t).level - n })) ∨
    ((l.refill n t).level < n ∧
      l.take n t = (some ((n - (l.refill n t).level) / l.rate), l.refill n t)) := by
  unfold take
  by_cases h : (n : ℚ) ≤ (l.refill n t).level
  · exact .inl ⟨h, if_pos h⟩
  · exact .inr ⟨not_le.mp h, if_neg h⟩

@[simp] theorem since_take (l : Limiter) (n : ℕ) (t : ℚ) : (l.take n t).2.since = t := by
  rcases take_cases l n t with ⟨_, h⟩ | ⟨_, h⟩ <;> rw [h] <;> rfl

@[simp] theorem rate_take (l : Limiter) (n : ℕ) (t : ℚ) : (l.take n t).2.rate = l.rate := by
  rcases take_cases l n t with ⟨_, h⟩ | ⟨_, h⟩ <;> rw [h] <;> rfl

theorem Bounded.take (h : Bounded n l) (t : ℚ) : Bounded n (l.take n t).2 := by
  have hfill := h.refill t
  rcases take_cases l n t with ⟨hle, heq⟩ | ⟨_, heq⟩
  · rw [heq]
    have hcap := hfill.level_le
    have hn : (0 : ℚ) ≤ n := Nat.cast_nonneg n
    exact ⟨hfill.rate_pos, by simpa using hle, by simp only [rate_refill] at hcap ⊢; linarith⟩
  · rwa [heq]

/-- What is granted comes out of the bucket. -/
theorem level_take (h : l.since ≤ t) :
    (l.take n t).2.level + (if (l.take n t).1 = none then n else 0) ≤
      l.level + (t - l.since) * l.rate := by
  have hfill : (l.refill n t).level ≤ l.level + (t - l.since) * l.rate := by
    rw [level_refill h]
    exact min_le_left _ _
  rcases take_cases l n t with ⟨_, heq⟩ | ⟨_, heq⟩ <;> rw [heq] <;> simpa using hfill

/-- A refused call leaves no trace: later calls are answered as if it had not been made. -/
theorem take_of_refused {u d : ℚ} (hr : 0 < l.rate) (ht : l.since ≤ t) (hu : t ≤ u)
    (hd : (l.take n t).1 = some d) : (l.take n t).2.take n u = l.take n u := by
  rcases take_cases l n t with ⟨_, heq⟩ | ⟨_, heq⟩
  · rw [heq] at hd
    cases hd
  · rw [heq]
    unfold take
    rw [refill_refill hr ht hu]

/-- The wait a refusal answers is long enough. -/
theorem take_of_waited {u d : ℚ} (h : Bounded n l) (ht : l.since ≤ t)
    (hd : (l.take n t).1 = some d) (hu : t + d ≤ u) : (l.take n u).1 = none := by
  rcases take_cases l n t with ⟨_, heq⟩ | ⟨hlt, heq⟩
  · rw [heq] at hd
    cases hd
  · rw [heq, Option.some.injEq] at hd
    have hpos : 0 < d := by
      rw [← hd]
      exact div_pos (by linarith) h.rate_pos
    have hneed : n - (l.refill n t).level = d * l.rate := by
      rw [← hd, div_mul_cancel₀ _ h.rate_pos.ne']
    have hgain : d * l.rate ≤ (u - t) * l.rate :=
      mul_le_mul_of_nonneg_right (by linarith) h.rate_pos.le
    have hfull : (n : ℚ) ≤ (l.refill n u).level := by
      rw [← refill_refill h.rate_pos ht (by linarith : t ≤ u), level_refill (by simp; linarith)]
      apply le_min
      · simp only [since_refill, rate_refill]
        linarith
      · exact le_max_right _ _
    rcases take_cases l n u with ⟨_, heq'⟩ | ⟨hlt', _⟩
    · rw [heq']
    · linarith

section Runs

variable {ts : List ℚ}

/-- Every call of a run finds the level within its bounds and the clock not behind. -/
theorem mem_calls {c : Call} (h : Bounded n l) (hts : (l.since :: ts).Pairwise (· ≤ ·))
    (hc : c ∈ calls n l ts) :
    Bounded n c.before ∧ c.before.since ≤ c.now ∧ c.before.rate = l.rate ∧ c.now ∈ ts ∧
      (c.answer, c.after) = c.before.take n c.now := by
  induction ts generalizing l with
  | nil => cases hc
  | cons t ts ih =>
    rw [List.pairwise_cons] at hts
    rcases List.mem_cons.mp hc with rfl | hc
    · exact ⟨h, hts.1 t (List.mem_cons_self ..), rfl, List.mem_cons_self .., rfl⟩
    · obtain ⟨hb, hle, hrate, hmem, htake⟩ := ih (h.take t) (by simpa using hts.2) hc
      exact ⟨hb, hle, by simpa using hrate, List.mem_cons_of_mem _ hmem, htake⟩

theorem granted_cons (n : ℕ) (a b : ℚ) (c : Call) (cs : List Call) :
    granted n a b (c :: cs) =
      granted n a b cs + if c.answer = none ∧ a ≤ c.now ∧ c.now ≤ b then n else 0 := by
  unfold granted
  rw [List.countP_cons, Nat.mul_add]
  by_cases h : c.answer = none ∧ a ≤ c.now ∧ c.now ≤ b <;> simp [h]

theorem granted_of_late (h : Bounded n l) {a b : ℚ} (hts : (l.since :: ts).Pairwise (· ≤ ·))
    (hb : ∀ t ∈ ts, b < t) : granted n a b (calls n l ts) = 0 := by
  rw [granted, List.countP_eq_zero.mpr, Nat.mul_zero]
  intro c hc
  have hlate : b < c.now := hb c.now (mem_calls h hts hc).2.2.2.1
  simp [hlate]

/-- Up to `b`, no more is granted than the bucket holds and the time until then brings in. -/
theorem granted_le_level (h : Bounded n l) {a b : ℚ} (hts : (l.since :: ts).Pairwise (· ≤ ·))
    (hb : l.since ≤ b) :
    (granted n a b (calls n l ts) : ℚ) ≤ l.level + (b - l.since) * l.rate := by
  have hgain : 0 ≤ (b - l.since) * l.rate := mul_nonneg (by linarith) h.rate_pos.le
  induction ts generalizing l with
  | nil => simpa [calls, granted] using add_nonneg h.level_nonneg hgain
  | cons t ts ih =>
    have htimes := List.pairwise_cons.mp hts
    have hsince : l.since ≤ t := htimes.1 t (List.mem_cons_self ..)
    have htail : ((l.take n t).2.since :: ts).Pairwise (· ≤ ·) := by simpa using htimes.2
    by_cases htb : t ≤ b
    · have hrest := ih (h.take t) htail (by simpa using htb)
        (mul_nonneg (by simpa using htb) (by simpa using h.rate_pos.le))
      have hlevel := level_take (n := n) hsince
      simp only [since_take, rate_take] at hrest
      have hsplit : (b - l.since) * l.rate = (t - l.since) * l.rate + (b - t) * l.rate := by ring
      rw [calls, granted_cons]
      push_cast
      by_cases hnone : (l.take n t).1 = none
      · rw [if_pos hnone] at hlevel
        split <;> linarith [(Nat.cast_nonneg n : (0 : ℚ) ≤ n)]
      · rw [if_neg hnone, Nat.cast_zero] at hlevel
        rw [if_neg (fun hin => hnone hin.1)]
        linarith
    · have hlate : ∀ u ∈ t :: ts, b < u := by
        intro u hu
        rcases List.mem_cons.mp hu with rfl | hu
        · exact not_le.mp htb
        · exact (not_le.mp htb).trans_le ((List.pairwise_cons.mp htimes.2).1 u hu)
      rw [granted_of_late h hts hlate, Nat.cast_zero]
      exact add_nonneg h.level_nonneg hgain

/-- The calls of a window take at most a full bucket and what the window brings in. -/
theorem granted_le (h : Bounded n l) {a b : ℚ} (hts : (l.since :: ts).Pairwise (· ≤ ·))
    (hab : a ≤ b) :
    (granted n a b (calls n l ts) : ℚ) ≤ max l.rate n + (b - a) * l.rate := by
  have hgain : 0 ≤ (b - a) * l.rate := mul_nonneg (by linarith) h.rate_pos.le
  have hfull : 0 ≤ max l.rate (n : ℚ) := h.level_nonneg.trans h.level_le
  induction ts generalizing l with
  | nil => simpa [calls, granted] using add_nonneg hfull hgain
  | cons t ts ih =>
    have htimes := List.pairwise_cons.mp hts
    have hsince : l.since ≤ t := htimes.1 t (List.mem_cons_self ..)
    by_cases hat : a ≤ t
    · -- the first call of the window finds at most a full bucket
      have htake : (l.refill n t).take n t = l.take n t := by
        unfold take
        rw [refill_refill h.rate_pos hsince le_rfl]
      have hsame : granted n a b (calls n l (t :: ts)) =
          granted n a b (calls n (l.refill n t) (t :: ts)) := by
        rw [calls, calls, granted_cons, granted_cons, htake]
      have hfill : ((l.refill n t).since :: t :: ts).Pairwise (· ≤ ·) := by
        rw [since_refill, List.pairwise_cons]
        refine ⟨?_, htimes.2⟩
        intro u hu
        rcases List.mem_cons.mp hu with rfl | hu
        · exact le_rfl
        · exact (List.pairwise_cons.mp htimes.2).1 u hu
      rw [hsame]
      by_cases htb : t ≤ b
      · have hlevel := granted_le_level (h.refill t) (a := a) hfill (by simpa using htb)
        have hcap := (h.refill t).level_le
        have hless : (b - t) * l.rate ≤ (b - a) * l.rate :=
          mul_le_mul_of_nonneg_right (by linarith) h.rate_pos.le
        simp only [since_refill, rate_refill] at hlevel hcap
        linarith
      · have hlate : ∀ u ∈ t :: ts, b < u := fun u hu =>
          (not_le.mp htb).trans_le ((List.pairwise_cons.mp hfill).1 u hu)
        rw [granted_of_late (h.refill t) hfill hlate, Nat.cast_zero]
        exact add_nonneg hfull hgain
    · have htail : ((l.take n t).2.since :: ts).Pairwise (· ≤ ·) := by simpa using htimes.2
      have hrest := ih (h.take t) htail (by simpa using hgain) (by simp [hfull])
      rw [calls, granted_cons, if_neg (fun hin => hat hin.2.1), Nat.add_zero]
      simpa using hrest

/-- Refused calls in a row leave the bucket to answer the next one as if they had not been made. -/
theorem take_of_allRefused (mid : List Call) {post : List Call} {c : Call} (h : Bounded n l)
    (hts : (l.since :: ts).Pairwise (· ≤ ·)) (heq : calls n l ts = mid ++ c :: post)
    (hmid : ∀ m ∈ mid, m.answer ≠ none) : c.answer = (l.take n c.now).1 := by
  induction mid generalizing l ts with
  | nil =>
    cases ts with
    | nil => cases heq
    | cons t ts =>
      injection heq with hc _
      rw [← hc]
  | cons m mid ih =>
    cases ts with
    | nil => cases heq
    | cons t ts =>
      have htimes := List.pairwise_cons.mp hts
      have htail : ((l.take n t).2.since :: ts).Pairwise (· ≤ ·) := by simpa using htimes.2
      rw [List.cons_append] at heq
      injection heq with hm hrest
      have hrefused : (l.take n t).1 ≠ none := by
        have hne := hmid m (List.mem_cons_self ..)
        rwa [← hm] at hne
      obtain ⟨d, hd⟩ := Option.ne_none_iff_exists'.mp hrefused
      have hlater : t ≤ c.now := by
        have hmem : c ∈ calls n (l.take n t).2 ts := by rw [hrest]; simp
        exact (List.pairwise_cons.mp htimes.2).1 c.now (mem_calls (h.take t) htail hmem).2.2.2.1
      rw [ih (h.take t) htail hrest (fun m' hm' => hmid m' (List.mem_cons_of_mem _ hm')),
        take_of_refused h.rate_pos (htimes.1 t (List.mem_cons_self ..)) hlater hd]

/-- A call that comes `d` or more after one that was told to wait `d` gets its tokens, if none were
granted in between. -/
theorem answer_of_waited {pre mid post : List Call} {c c' : Call} {d : ℚ} (h : Bounded n l)
    (hts : (l.since :: ts).Pairwise (· ≤ ·))
    (heq : calls n l ts = pre ++ c :: (mid ++ c' :: post)) (hc : c.answer = some d)
    (hmid : ∀ m ∈ mid, m.answer ≠ none) (hd : c.now + d ≤ c'.now) : c'.answer = none := by
  induction pre generalizing l ts with
  | nil =>
    have hmem : c ∈ calls n l ts := by rw [heq]; simp
    have hfirst : c.answer = (l.take n c.now).1 :=
      take_of_allRefused [] h hts heq (fun m hm => (by cases hm))
    have hsecond : c'.answer = (l.take n c'.now).1 := by
      refine take_of_allRefused (c :: mid) h hts heq ?_
      intro m hm
      rcases List.mem_cons.mp hm with rfl | hm
      · simp [hc]
      · exact hmid m hm
    have hsince := (List.pairwise_cons.mp hts).1 c.now (mem_calls h hts hmem).2.2.2.1
    rw [hsecond]
    exact take_of_waited h hsince (hfirst.symm.trans hc) hd
  | cons p pre ih =>
    cases ts with
    | nil => cases heq
    | cons t ts =>
      have htimes := List.pairwise_cons.mp hts
      rw [List.cons_append] at heq
      injection heq with _ hrest
      exact ih (h.take t) (by simpa using htimes.2) hrest

end Runs

theorem bounded_new {perSecond : ℕ} (h : 1 ≤ perSecond) (n : ℕ) (now : ℚ) :
    Bounded n (new perSecond now) where
  rate_pos := Nat.cast_pos.mpr h
  level_nonneg := Nat.cast_nonneg perSecond
  level_le := le_max_left _ _

/-- What holds of every run of a limiter whose calls all ask for `n` tokens. -/
theorem run_spec {r n : ℕ} {t₀ : ℚ} {ts : List ℚ} (hr : 1 ≤ r)
    (hts : (t₀ :: ts).Pairwise (· ≤ ·)) :
    -- the level stays between its bounds
    (∀ c ∈ calls n (new r t₀) ts, 0 ≤ c.before.level ∧ c.before.level ≤ max (r : ℚ) n ∧
      0 ≤ c.after.level ∧ c.after.level ≤ max (r : ℚ) n) ∧
    -- a window of length `T`
    (∀ a T : ℚ, 0 ≤ T → (granted n a (a + T) (calls n (new r t₀) ts) : ℚ) ≤
      max (r : ℚ) n + r * T) ∧
    -- a refused call takes nothing: the next calls find what they would find without it
    (∀ c ∈ calls n (new r t₀) ts, ∀ d, c.answer = some d → c.before.level ≤ c.after.level ∧
      ∀ u, c.now ≤ u → c.after.take n u = c.before.take n u) ∧
    -- a call `d` after a refusal that answered `d`
    ∀ pre c mid c' post d, calls n (new r t₀) ts = pre ++ c :: (mid ++ c' :: post) →
      c.answer = some d → (∀ m ∈ mid, m.answer ≠ none) → c'.now = c.now + d → c'.answer = none := by
  have hnew := bounded_new hr n t₀
  refine ⟨?_, ?_, ?_, ?_⟩
  · intro c hc
    obtain ⟨hbefore, _, hrate, _, htake⟩ := mem_calls hnew hts hc
    have hafter := hbefore.take c.now
    rw [← htake] at hafter
    have hrate' : c.after.rate = r := by
      rw [show c.after = (c.before.take n c.now).2 from congrArg Prod.snd htake, rate_take, hrate]
      rfl
    have hle := hbefore.level_le
    have hle' := hafter.level_le
    rw [hrate] at hle
    rw [hrate'] at hle'
    exact ⟨hbefore.level_nonneg, hle, hafter.level_nonneg, hle'⟩
  · intro a T hT
    have hwindow := granted_le hnew hts (by linarith : a ≤ a + T)
    rw [add_sub_cancel_left, mul_comm] at hwindow
    exact hwindow
  · intro c hc d hd
    obtain ⟨hbefore, hsince, _, _, htake⟩ := mem_calls hnew hts hc
    have hanswer : (c.before.take n c.now).1 = some d := by rw [← htake]; exact hd
    have hafter : c.after = (c.before.take n c.now).2 := congrArg Prod.snd htake
    rw [hafter]
    refine ⟨?_, fun u hu => take_of_refused hbefore.rate_pos hsince hu hanswer⟩
    rcases take_cases c.before n c.now with ⟨_, heq⟩ | ⟨_, heq⟩
    · rw [heq] at hanswer
      cases hanswer
    · have hgain : 0 ≤ (c.now - c.before.since) * c.before.rate :=
        mul_nonneg (by linarith) hbefore.rate_pos.le
      rw [heq, level_refill hsince]
      exact le_min (by linarith) hbefore.level_le
  · intro pre c mid c' post d heq hc hmid hd
    exact answer_of_waited hnew hts heq hc hmid hd.ge

/-- Two tokens a second and calls of size two at the start, half a second and a second later: the
second call is refused for half a second, and the third gets its tokens. -/
theorem run_spec_two :
    (calls 2 (new 2 0) [0, 1 / 2, 1]).map Call.answer = [none, some (1 / 2), none] ∧
      (granted 2 0 (0 + 1) (calls 2 (new 2 0) [0, 1 / 2, 1]) : ℚ) ≤
        max ((2 : ℕ) : ℚ) (2 : ℕ) + (2 : ℕ) * 1 :=
  ⟨by decide +kernel,
    (run_spec (by decide : 1 ≤ 2) (by decide +kernel)).2.1 0 1 (by decide +kernel)⟩

end Limiter

end Http3Bench
