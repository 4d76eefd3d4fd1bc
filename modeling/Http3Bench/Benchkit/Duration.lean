import Http3Bench.Text
import Http3Bench.Lib.Binary64

/-!
# Durations on a command line

`parse_duration` of `benchkit/src/flags.rs`, with its `f64` numbers. Text is a list of characters, a
duration a number of nanoseconds.
-/

namespace Http3Bench.Benchkit

open Lib

abbrev Str := List Char

inductive Panic
  /-- `Duration::from_secs_f64` of more than a `Duration` holds. -/
  | overflow
  /-- A getter for a flag that is not defined. -/
  | undefined (name : Str)
  deriving DecidableEq

/-- What a number is made of. -/
def isNumeric (c : Char) : Bool := c.isDigit || c == '.'

/-- What `str::parse` to a float rounds, for text of digits and points. -/
def parseNumber (s : Str) : Option ℚ :=
  let whole := s.takeWhile Char.isDigit
  match s.dropWhile Char.isDigit with
  | [] => if whole = [] then none else some (Nat.ofDigitChars 10 whole 0)
  | _ :: frac =>
    if frac.all Char.isDigit ∧ (whole ≠ [] ∨ frac ≠ []) then
      some (Nat.ofDigitChars 10 (whole ++ frac) 0 / 10 ^ frac.length)
    else none

/-- The seconds in a unit, as the literals have them before they are rounded. -/
def scale : Str → Option ℚ
  | ['n', 's'] => some (1 / 10 ^ 9)
  | ['u', 's'] => some (1 / 10 ^ 6)
  | ['µ', 's'] => some (1 / 10 ^ 6)
  | ['m', 's'] => some (1 / 10 ^ 3)
  | ['s'] => some 1
  | ['m'] => some 60
  | ['h'] => some 3600
  | _ => none

/-- `total += number * scale`, in `f64`. -/
def addPair (total : WithTop ℚ) (pair : ℚ × ℚ) : WithTop ℚ :=
  Binary64.add total (Binary64.mul (Binary64.round pair.1) (Binary64.round pair.2))

/-- The loop of `parse_duration`. Each round takes at least one character, so `fuel` that is larger
than the text is enough. -/
def scan : ℕ → Str → WithTop ℚ → Option (WithTop ℚ)
  | 0, _, _ => none
  | fuel + 1, rest, total =>
    if rest = [] then some total
    else
      let text := rest.takeWhile isNumeric
      if text = [] then none
      else match parseNumber text with
        | none => none
        | some number =>
          let rest := rest.dropWhile isNumeric
          match scale (rest.takeWhile (!isNumeric ·)) with
          | none => none
          | some k => scan fuel (rest.dropWhile (!isNumeric ·)) (addPair total (number, k))

/-- Seconds to the nearest nanosecond, a tie to the even one. -/
def toNanos (secs : ℚ) : ℕ := Binary64.nearestEven (secs * 10 ^ 9)

/-- `Duration::from_secs_f64`, whose seconds are a `u64`. -/
def fromSecs : WithTop ℚ → Except Panic ℕ
  | some secs => if toNanos secs < 2 ^ 64 * 10 ^ 9 then .ok (toNanos secs) else .error .overflow
  | none => .error .overflow

def parseDuration (s : Str) : Except Panic (Option ℕ) :=
  if s = ['0'] then .ok (some 0)
  else if s = [] then .ok none
  else match scan (s.length + 1) s 0 with
    | none => .ok none
    | some total => (fromSecs total).map some

/-- ASCII digits and at most one point, with at least one digit. -/
inductive Number : Str → ℚ → Prop
  | whole {a : Str} : (∀ c ∈ a, c.isDigit) → a ≠ [] → Number a (Nat.ofDigitChars 10 a 0)
  | point {a b : Str} : (∀ c ∈ a, c.isDigit) → (∀ c ∈ b, c.isDigit) → a ≠ [] ∨ b ≠ [] →
      Number (a ++ '.' :: b) (Nat.ofDigitChars 10 (a ++ b) 0 / 10 ^ b.length)

/-- Numbers with their units one after the other, each with the seconds in its unit. -/
inductive Pairs : Str → List (ℚ × ℚ) → Prop
  | nil : Pairs [] []
  | cons {num unit rest : Str} {n k : ℚ} {pairs : List (ℚ × ℚ)} : Number num n →
      scale unit = some k → Pairs rest pairs → Pairs (num ++ (unit ++ rest)) ((n, k) :: pairs)

/-- The seconds the numbers come to. -/
def total (pairs : List (ℚ × ℚ)) : ℚ := (pairs.map (fun pair => pair.1 * pair.2)).sum

/-- What they come to in `f64`: every number, product and sum rounded. -/
def f64Total (pairs : List (ℚ × ℚ)) : WithTop ℚ := pairs.foldl addPair 0

theorem Number.ne_nil {s : Str} {n : ℚ} (h : Number s n) : s ≠ [] := by
  cases h with
  | whole _ hne => exact hne
  | point _ _ _ => simp

theorem Number.numeric {s : Str} {n : ℚ} (h : Number s n) : ∀ c ∈ s, isNumeric c = true := by
  intro c hc
  cases h with
  | whole hd _ => simp [isNumeric, hd c hc]
  | point ha hb _ =>
    rcases List.mem_append.mp hc with hc | hc
    · simp [isNumeric, ha c hc]
    · rcases List.mem_cons.mp hc with rfl | hc
      · simp [isNumeric]
      · simp [isNumeric, hb c hc]

theorem Number.nonneg {s : Str} {n : ℚ} (h : Number s n) : 0 ≤ n := by
  cases h with
  | whole _ _ => positivity
  | point _ _ _ => positivity

theorem takeWhile_of_forall {p : Char → Bool} {a b : Str} (ha : ∀ c ∈ a, p c = true)
    (hb : ∀ c ∈ b.head?, p c = false) :
    (a ++ b).takeWhile p = a ∧ (a ++ b).dropWhile p = b := by
  rw [List.takeWhile_append_of_pos ha, List.dropWhile_append_of_pos ha]
  cases b with
  | nil => simp
  | cons c b =>
    have hc : p c = false := hb c rfl
    simp [hc]

theorem parseNumber_of_number {s : Str} {n : ℚ} (h : Number s n) : parseNumber s = some n := by
  cases h with
  | whole hd hne =>
    obtain ⟨htake, hdrop⟩ := takeWhile_of_forall (b := []) hd (by simp)
    rw [List.append_nil] at htake hdrop
    simp [parseNumber, htake, hdrop, hne]
  | point ha hb hne =>
    rename_i a b
    obtain ⟨htake, hdrop⟩ := takeWhile_of_forall (b := '.' :: b) ha (by simp)
    have hall : b.all Char.isDigit = true := List.all_eq_true.mpr hb
    simp only [parseNumber, htake, hdrop]
    rw [if_pos ⟨hall, hne⟩]

theorem head_dropWhile_false {p : Char → Bool} {s t : Str} {c : Char} (h : s.dropWhile p = c :: t) :
    p c = false := by
  have hhead := List.head?_dropWhile_not p s
  rw [h] at hhead
  simpa using hhead

theorem number_of_parseNumber {s : Str} {n : ℚ} (hs : ∀ c ∈ s, isNumeric c = true)
    (h : parseNumber s = some n) : Number s n := by
  have hsplit : s.takeWhile Char.isDigit ++ s.dropWhile Char.isDigit = s :=
    List.takeWhile_append_dropWhile
  have hdigits : ∀ c ∈ s.takeWhile Char.isDigit, c.isDigit = true :=
    fun c hc => List.mem_takeWhile_imp hc
  simp only [parseNumber] at h
  cases hdrop : s.dropWhile Char.isDigit with
  | nil =>
    rw [hdrop] at h hsplit
    rw [List.append_nil] at hsplit
    by_cases hne : s.takeWhile Char.isDigit = []
    · simp [hne] at h
    · simp only [hne, if_false, Option.some.injEq] at h
      rw [hsplit] at h hne hdigits
      exact h ▸ .whole hdigits hne
  | cons c frac =>
    rw [hdrop] at h hsplit
    have hpoint : c = '.' := by
      have hnum := hs c (hsplit ▸ by simp)
      have hnot := head_dropWhile_false hdrop
      simpa [isNumeric, hnot] using hnum
    by_cases hcond : frac.all Char.isDigit ∧ (s.takeWhile Char.isDigit ≠ [] ∨ frac ≠ [])
    · simp only [if_pos hcond, Option.some.injEq] at h
      rw [← hsplit, hpoint, ← h]
      exact .point hdigits (List.all_eq_true.mp hcond.1) hcond.2
    · simp only [if_neg hcond, reduceCtorEq] at h

theorem scale_cases {u : Str} {k : ℚ} (h : scale u = some k) :
    0 < k ∧ u ≠ [] ∧ ∀ c ∈ u, isNumeric c = false := by
  unfold scale at h
  split at h <;> first
    | (cases h
       exact ⟨by norm_num, by simp, by simp [isNumeric]⟩)
    | cases h

/-- What follows a unit is the end, or a number again. -/
theorem Pairs.head {s : Str} {pairs : List (ℚ × ℚ)} (h : Pairs s pairs) : ∀ c ∈ s.head?, isNumeric c = true := by
  cases h with
  | nil => simp
  | cons hn _ _ =>
    intro c hc
    apply hn.numeric
    obtain ⟨d, num, rfl⟩ := List.exists_cons_of_ne_nil hn.ne_nil
    simp at hc
    simp [hc]

/-- Where the scanner cuts a number, its unit and the rest apart. -/
theorem cut_pair {num unit rest : Str} {n k : ℚ} (hn : Number num n) (hk : scale unit = some k)
    (hrest : ∀ c ∈ rest.head?, isNumeric c = true) :
    ((num ++ (unit ++ rest)).takeWhile isNumeric = num ∧
      (num ++ (unit ++ rest)).dropWhile isNumeric = unit ++ rest) ∧
    (unit ++ rest).takeWhile (!isNumeric ·) = unit ∧
      (unit ++ rest).dropWhile (!isNumeric ·) = rest := by
  obtain ⟨_, hune, hunit⟩ := scale_cases hk
  have hunithead : ∀ c ∈ (unit ++ rest).head?, isNumeric c = false := by
    intro c hc
    obtain ⟨d, u, rfl⟩ := List.exists_cons_of_ne_nil hune
    exact hunit c (by simpa using Or.inl (Eq.symm (by simpa using hc)))
  exact ⟨takeWhile_of_forall hn.numeric hunithead,
    takeWhile_of_forall (p := (!isNumeric ·)) (by simpa using hunit) (by simpa using hrest)⟩

/-- The scanner takes a sequence of numbers with units apart. -/
theorem scan_of_pairs {s : Str} {pairs : List (ℚ × ℚ)} (h : Pairs s pairs) {fuel : ℕ}
    (hfuel : s.length < fuel) (total : WithTop ℚ) :
    scan fuel s total = some (pairs.foldl addPair total) := by
  induction h generalizing fuel total with
  | nil =>
    obtain ⟨fuel, rfl⟩ := Nat.exists_eq_succ_of_ne_zero (by omega : fuel ≠ 0)
    rfl
  | cons hn hk hrest ih =>
    rename_i num unit rest n k pairs
    obtain ⟨fuel, rfl⟩ := Nat.exists_eq_succ_of_ne_zero (by omega : fuel ≠ 0)
    obtain ⟨⟨htake, hdrop⟩, htake', hdrop'⟩ := cut_pair hn hk hrest.head
    have hne : num ++ (unit ++ rest) ≠ [] := by simp [hn.ne_nil]
    rw [scan, if_neg hne]
    simp only [htake, hdrop, htake', hdrop', hn.ne_nil, if_false, parseNumber_of_number hn, hk]
    have hpos := List.length_pos_iff.mpr hn.ne_nil
    rw [List.length_append, List.length_append] at hfuel
    rw [ih (by omega), List.foldl_cons]

theorem pairs_of_scan {fuel : ℕ} {s : Str} {total total' : WithTop ℚ}
    (h : scan fuel s total = some total') :
    ∃ pairs, Pairs s pairs ∧ total' = pairs.foldl addPair total := by
  induction fuel generalizing s total with
  | zero => cases h
  | succ fuel ih =>
    rw [scan] at h
    by_cases hs : s = []
    · rw [if_pos hs, Option.some.injEq] at h
      exact ⟨[], hs ▸ .nil, h.symm⟩
    · rw [if_neg hs] at h
      by_cases hnum : s.takeWhile isNumeric = []
      · simp [hnum] at h
      · simp only [if_neg hnum] at h
        split at h
        · cases h
        · rename_i n hn
          split at h
          · cases h
          · rename_i k hk
            obtain ⟨pairs, hrest, rfl⟩ := ih h
            have hnumber := number_of_parseNumber (fun c hc => List.mem_takeWhile_imp hc) hn
            have hpairs := Pairs.cons hnumber hk hrest
            rw [List.takeWhile_append_dropWhile, List.takeWhile_append_dropWhile] at hpairs
            exact ⟨_, hpairs, rfl⟩

/-- A text is a sequence of numbers with units in one way only. -/
theorem Pairs.unique {s : Str} {pairs pairs' : List (ℚ × ℚ)} (h : Pairs s pairs)
    (h' : Pairs s pairs') : pairs = pairs' := by
  induction h generalizing pairs' with
  | nil =>
    generalize hs : ([] : Str) = s at h'
    cases h' with
    | nil => rfl
    | cons hn _ _ =>
      rw [eq_comm, List.append_eq_nil_iff] at hs
      exact absurd hs.1 hn.ne_nil
  | cons hn hk hrest ih =>
    rename_i num unit rest n k pairs
    obtain ⟨⟨htake, hdrop⟩, htake', hdrop'⟩ := cut_pair hn hk hrest.head
    generalize hs : num ++ (unit ++ rest) = s at h'
    cases h' with
    | nil =>
      rw [List.append_eq_nil_iff] at hs
      exact absurd hs.1 hn.ne_nil
    | cons gn gk grest =>
      obtain ⟨⟨gtake, gdrop⟩, gtake', gdrop'⟩ := cut_pair gn gk grest.head
      rw [hs] at htake hdrop
      obtain rfl := htake.symm.trans gtake
      have htail := hdrop.symm.trans gdrop
      rw [htail] at htake' hdrop'
      obtain rfl := htake'.symm.trans gtake'
      obtain rfl := hdrop'.symm.trans gdrop'
      have hnumber := (parseNumber_of_number hn).symm.trans (parseNumber_of_number gn)
      rw [Option.some.inj hnumber, Option.some.inj (hk.symm.trans gk), ih grest]

theorem Pairs.nonneg {s : Str} {pairs : List (ℚ × ℚ)} (h : Pairs s pairs) :
    ∀ pair ∈ pairs, 0 ≤ pair.1 ∧ 0 < pair.2 := by
  induction h with
  | nil => exact List.forall_mem_nil _
  | cons hn hk _ ih => exact List.forall_mem_cons.mpr ⟨⟨hn.nonneg, (scale_cases hk).1⟩, ih⟩

/-- A total in `f64` is a double. -/
theorem double_f64Total {pairs : List (ℚ × ℚ)} (hpos : ∀ pair ∈ pairs, 0 ≤ pair.1 ∧ 0 < pair.2) :
    Binary64.Double (f64Total pairs) := by
  induction pairs using List.reverseRecOn with
  | nil => exact Binary64.double_zero
  | append_singleton pairs pair ih =>
    obtain ⟨hpairs, hpair⟩ := List.forall_mem_append.mp hpos
    obtain ⟨hn, hk⟩ := hpair pair (List.mem_singleton_self pair)
    rw [f64Total, List.foldl_append]
    exact (ih hpairs).add ((Binary64.Double.round hn).mul (Binary64.Double.round hk.le))

/-- A double below `2 ^ 64` leaves room for its rounding to nanoseconds. -/
theorem fromSecs_double {t : WithTop ℚ} (ht : Binary64.Double t) :
    (∃ d, fromSecs t = .ok d) ↔ t < ((2 ^ 64 : ℚ) : WithTop ℚ) := by
  cases t with
  | top =>
    constructor
    · rintro ⟨d, hd⟩
      cases hd
    · intro h
      exact absurd h (not_lt.mpr le_top)
  | coe y =>
    have hfrom : fromSecs (y : WithTop ℚ) =
        if toNanos y < 2 ^ 64 * 10 ^ 9 then .ok (toNanos y) else .error .overflow := rfl
    rw [hfrom, WithTop.coe_lt_coe]
    constructor
    · rintro ⟨d, hd⟩
      by_contra hge
      have hcast : ((2 ^ 64 * 10 ^ 9 : ℕ) : ℚ) ≤ y * 10 ^ 9 := by
        push_cast
        linarith
      have hlarge : ¬ toNanos y < 2 ^ 64 * 10 ^ 9 := not_lt.mpr (Binary64.le_nearestEven hcast)
      rw [if_neg hlarge] at hd
      cases hd
    · intro hlt
      have hroom : y ≤ 2 ^ 64 - 2 ^ 11 := (ht.le_of_lt_two_pow hlt).trans (by norm_num)
      have hnear : |((toNanos y : ℕ) : ℚ) - y * 10 ^ 9| ≤ 1 / 2 :=
        Binary64.nearestEven_error (mul_nonneg ht.nonneg (by norm_num))
      have hless : ((toNanos y : ℕ) : ℚ) < (2 ^ 64 * 10 ^ 9 : ℕ) := by
        have hbound := (abs_le.mp hnear).2
        push_cast
        linarith
      exact ⟨_, if_pos (by exact_mod_cast hless)⟩

/-- What `parse_duration` makes of a text. -/
theorem parseDuration_cases (s : Str) :
    (s = ['0'] ∧ parseDuration s = .ok (some 0)) ∨
    (s ≠ ['0'] ∧ (s = [] ∨ ∀ pairs, ¬ Pairs s pairs) ∧ parseDuration s = .ok none) ∨
    ∃ pairs, s ≠ ['0'] ∧ s ≠ [] ∧ Pairs s pairs ∧
      parseDuration s = (fromSecs (f64Total pairs)).map some := by
  unfold parseDuration
  by_cases hzero : s = ['0']
  · exact .inl ⟨hzero, if_pos hzero⟩
  · by_cases hnil : s = []
    · exact .inr (.inl ⟨hzero, .inl hnil, by rw [if_neg hzero, if_pos hnil]⟩)
    · rw [if_neg hzero, if_neg hnil]
      cases hscan : scan (s.length + 1) s 0 with
      | none =>
        refine .inr (.inl ⟨hzero, .inr ?_, rfl⟩)
        intro pairs hpairs
        rw [scan_of_pairs hpairs (Nat.lt_succ_self _)] at hscan
        cases hscan
      | some total =>
        obtain ⟨pairs, hpairs, rfl⟩ := pairs_of_scan hscan
        exact .inr (.inr ⟨pairs, hzero, hnil, hpairs, rfl⟩)

/-- `"0"` is not a number with a unit. -/
theorem not_pairs_zero (pairs : List (ℚ × ℚ)) : ¬ Pairs ['0'] pairs := by
  intro h
  have hscan := scan_of_pairs h (Nat.lt_succ_self _) 0
  rw [show scan (List.length ['0'] + 1) ['0'] 0 = none from by decide +kernel] at hscan
  cases hscan

/-- `parse_duration` returns where the numbers of the text come to less than `2 ^ 64` seconds in
`f64`, and panics otherwise. So it accepts the durations below `2 ^ 64` seconds only, and returns,
exactly for the texts that are no durations or come to less than that in `f64` and exactly. -/
theorem parseDuration_total_iff (s : Str) :
    ((∃ r, parseDuration s = .ok r) ↔
      ∀ pairs, Pairs s pairs → f64Total pairs < ((2 ^ 64 : ℚ) : WithTop ℚ)) ∧
    ((∃ r, parseDuration s = .ok r ∧
        (r.isSome ↔ s = ['0'] ∨ s ≠ [] ∧ ∃ pairs, Pairs s pairs ∧ total pairs < 2 ^ 64)) ↔
      ∀ pairs, Pairs s pairs →
        f64Total pairs < ((2 ^ 64 : ℚ) : WithTop ℚ) ∧ total pairs < 2 ^ 64) := by
  rcases parseDuration_cases s with ⟨rfl, heq⟩ | ⟨hzero, hnone, heq⟩ | ⟨pairs, hzero, hnil, hs, heq⟩
  · refine ⟨?_, ?_⟩
    · exact iff_of_true ⟨_, heq⟩ (fun pairs h => absurd h (not_pairs_zero pairs))
    · exact iff_of_true ⟨some 0, heq, by simp⟩ (fun pairs h => absurd h (not_pairs_zero pairs))
  · have hempty : ∀ pairs, Pairs s pairs → pairs = [] := by
      intro pairs h
      rcases hnone with rfl | hnone
      · exact h.unique .nil
      · exact absurd h (hnone pairs)
    have hsmall : f64Total [] < ((2 ^ 64 : ℚ) : WithTop ℚ) ∧ total [] < 2 ^ 64 := by
      decide +kernel
    refine ⟨?_, ?_⟩
    · exact iff_of_true ⟨_, heq⟩ (fun pairs h => hempty pairs h ▸ hsmall.1)
    · refine iff_of_true ⟨none, heq, ?_⟩ (fun pairs h => hempty pairs h ▸ hsmall)
      simp only [Option.isSome_none, Bool.false_eq_true, false_iff, not_or, not_and, not_exists]
      exact ⟨hzero, fun hnil pairs h => absurd h (hnone.resolve_left hnil pairs)⟩
  · have hfrom := fromSecs_double (double_f64Total hs.nonneg)
    have hok : (∃ r, parseDuration s = .ok r) ↔
        f64Total pairs < ((2 ^ 64 : ℚ) : WithTop ℚ) := by
      rw [← hfrom, heq]
      cases fromSecs (f64Total pairs) with
      | error p => simp [Except.map]
      | ok d => simp [Except.map]
    have hsome : ∀ r, parseDuration s = .ok r → r.isSome := by
      intro r hr
      rw [heq] at hr
      cases hd : fromSecs (f64Total pairs) with
      | error p =>
        rw [hd] at hr
        cases hr
      | ok d =>
        rw [hd] at hr
        exact Except.ok.inj hr ▸ rfl
    refine ⟨⟨fun h pairs' h' => h'.unique hs ▸ hok.mp h, fun h => hok.mpr (h pairs hs)⟩, ?_⟩
    constructor
    · rintro ⟨r, hr, hiff⟩ pairs' hs'
      obtain hzero' | ⟨-, pairs'', hs'', hless⟩ := hiff.mp (hsome r hr)
      · exact absurd hzero' hzero
      · exact ⟨hs'.unique hs ▸ hok.mp ⟨r, hr⟩, hs'.unique hs'' ▸ hless⟩
    · intro h
      obtain ⟨r, hr⟩ := hok.mpr (h pairs hs).1
      exact ⟨r, hr, iff_of_true (hsome r hr) (.inr ⟨hnil, pairs, hs, (h pairs hs).2⟩)⟩

/-! ### Durations a double holds to the nanosecond -/

/-- A whole number with a unit. -/
def WholePair (pair : ℚ × ℚ) : Prop :=
  (pair.1 = 0 ∨ 1 ≤ pair.1) ∧ 1 / 10 ^ 9 ≤ pair.2 ∧ pair.2 ≤ 3600

theorem scale_range {u : Str} {k : ℚ} (h : scale u = some k) : 1 / 10 ^ 9 ≤ k ∧ k ≤ 3600 := by
  unfold scale at h
  split at h <;> first
    | (cases h
       norm_num)
    | cases h

theorem WholePair.prod_nonneg {pair : ℚ × ℚ} (h : WholePair pair) : 0 ≤ pair.1 * pair.2 := by
  obtain ⟨hwhole, hlow, -⟩ := h
  have hk : 0 ≤ pair.2 := le_trans (by norm_num) hlow
  rcases hwhole with hzero | hone
  · rw [hzero, zero_mul]
  · exact mul_nonneg (zero_le_one.trans hone) hk

theorem WholePair.mul_cases {pair : ℚ × ℚ} (h : WholePair pair) :
    pair.1 * pair.2 = 0 ∨ 1 / 10 ^ 9 ≤ pair.1 * pair.2 := by
  obtain ⟨hwhole, hlow, -⟩ := h
  rcases hwhole with hzero | hone
  · exact .inl (by rw [hzero, zero_mul])
  · right
    have hmul := mul_le_mul hone hlow (by norm_num) (zero_le_one.trans hone)
    rwa [one_mul] at hmul

/-- A number times its unit, three roundings off. -/
theorem WholePair.within {pair : ℚ × ℚ} (h : WholePair pair) (hsum : pair.1 * pair.2 < 2 ^ 18) :
    ∃ p : ℚ, Binary64.mul (Binary64.round pair.1) (Binary64.round pair.2) = (p : ℚ) ∧
      Binary64.Within 3 (pair.1 * pair.2) p := by
  have hprod := h.mul_cases
  have hnonneg := h.prod_nonneg
  obtain ⟨hwhole, hlow, hhigh⟩ := h
  have hfits : pair.1 ≤ 2 ^ 100 := by
    by_contra hlarge
    have hbig : (2 : ℚ) ^ 100 * (1 / 10 ^ 9) ≤ pair.1 * pair.2 :=
      mul_le_mul (not_le.mp hlarge).le hlow (by norm_num) (by linarith)
    norm_num at hbig hsum
    linarith
  obtain ⟨n, hn, hwn⟩ := (Binary64.Within.refl pair.1).round
    (hwhole.imp_right (fun hone => le_trans (by norm_num) hone)) hfits (by norm_num)
  obtain ⟨k, hk, hwk⟩ := (Binary64.Within.refl pair.2).round
    (.inr (le_trans (by norm_num) hlow)) (hhigh.trans (by norm_num)) (by norm_num)
  have hpos : 0 ≤ pair.1 := by
    rcases hwhole with hzero | hone
    · exact hzero.ge
    · exact zero_le_one.trans hone
  obtain ⟨p, hp, hwp⟩ := (hwn.mul hpos (le_trans (by norm_num) hlow) hwk).round
    (hprod.imp_right (fun hone => le_trans (by norm_num) hone))
    (hsum.le.trans (by norm_num)) (by norm_num)
  rw [hn, hk]
  exact ⟨p, hp, hwp⟩

/-- What rounding makes of the sum of whole numbers with their units. -/
theorem f64Total_within {pairs : List (ℚ × ℚ)} (hwhole : ∀ pair ∈ pairs, WholePair pair)
    (hlength : pairs.length ≤ 8) (hsum : total pairs < 2 ^ 18) :
    (total pairs = 0 ∨ 1 / 10 ^ 9 ≤ total pairs) ∧
      ∃ y : ℚ, f64Total pairs = (y : ℚ) ∧ Binary64.Within (pairs.length + 3) (total pairs) y := by
  induction pairs using List.reverseRecOn with
  | nil => exact ⟨.inl rfl, 0, rfl, by simp [total], by simp [total]⟩
  | append_singleton pairs pair ih =>
    obtain ⟨hpairs, hpair⟩ := List.forall_mem_append.mp hwhole
    have hlast := hpair pair (List.mem_singleton_self pair)
    have htotal : total (pairs ++ [pair]) = total pairs + pair.1 * pair.2 := by
      simp [total]
    rw [List.length_append, List.length_singleton] at hlength
    rw [htotal] at hsum ⊢
    obtain ⟨hcases, y, hy, hwithin⟩ := ih hpairs (by omega) (by linarith [hlast.prod_nonneg])
    have hnonneg : 0 ≤ total pairs := by
      rcases hcases with hzero | hone
      · exact hzero.ge
      · exact le_trans (by norm_num) hone
    have hboth : total pairs + pair.1 * pair.2 = 0 ∨
        1 / 10 ^ 9 ≤ total pairs + pair.1 * pair.2 := by
      rcases hlast.mul_cases with hzero | hone
      · rwa [hzero, add_zero]
      · exact .inr (by linarith)
    obtain ⟨p, hp, hwp⟩ := hlast.within (by linarith)
    obtain ⟨z, hz, hwz⟩ := (hwithin.add (hwp.mono hlast.prod_nonneg (by omega))).round
      (hboth.imp_right (fun hone => le_trans (by norm_num) hone))
      (hsum.le.trans (by norm_num)) (by omega)
    refine ⟨hboth, z, ?_, ?_⟩
    · rw [f64Total, List.foldl_append]
      change addPair (f64Total pairs) pair = _
      rw [addPair, hy, hp]
      exact hz
    · rw [List.length_append, List.length_singleton]
      exact hwz.mono (by linarith [hlast.prod_nonneg]) (by omega)

/-- At most 8 whole numbers that come to less than `2 ^ 18` seconds: rounding moves the sum by less
than half a nanosecond. -/
theorem f64Total_near {pairs : List (ℚ × ℚ)} (hwhole : ∀ pair ∈ pairs, WholePair pair)
    (hlength : pairs.length ≤ 8) (hsum : total pairs < 2 ^ 18) :
    ∃ y : ℚ, f64Total pairs = (y : ℚ) ∧ |y - total pairs| < 1 / (2 * 10 ^ 9) := by
  obtain ⟨hcases, y, hy, hwithin⟩ := f64Total_within hwhole hlength hsum
  have hnonneg : 0 ≤ total pairs := by
    rcases hcases with hzero | hone
    · exact hzero.ge
    · exact le_trans (by norm_num) hone
  obtain ⟨hlow, hhigh⟩ := hwithin.mono hnonneg (by omega : pairs.length + 3 ≤ 11)
  have hsmall : (2 : ℚ) ^ 18 * (1 - (1 - 2 ^ (-53 : ℤ)) ^ 11) < 1 / (2 * 10 ^ 9) := by norm_num
  have hsmall' : (2 : ℚ) ^ 18 * ((1 + 2 ^ (-53 : ℤ)) ^ 11 - 1) < 1 / (2 * 10 ^ 9) := by norm_num
  have hbound := mul_le_mul_of_nonneg_right hsum.le
    (by norm_num : (0 : ℚ) ≤ 1 - (1 - 2 ^ (-53 : ℤ)) ^ 11)
  have hbound' := mul_le_mul_of_nonneg_right hsum.le
    (by norm_num : (0 : ℚ) ≤ (1 + 2 ^ (-53 : ℤ)) ^ 11 - 1)
  generalize (1 - 2 ^ (-53 : ℤ) : ℚ) ^ 11 = low at hlow hsmall hbound
  generalize (1 + 2 ^ (-53 : ℤ) : ℚ) ^ 11 = high at hhigh hsmall' hbound'
  refine ⟨y, hy, abs_lt.mpr ⟨?_, ?_⟩⟩
  · rw [mul_sub, mul_one] at hbound
    linarith
  · rw [mul_sub, mul_one] at hbound'
    linarith

/-- `2 ^ 64` seconds, exactly or only in `f64`: a text that should be refused, or accepted, stops the
program. The other way round, a text of more than `2 ^ 64` seconds is accepted. -/
theorem parseDuration_overflows :
    parseDuration "18446744073709551616s".toList = .error .overflow ∧
      (¬ ∃ r, parseDuration "18446744073709551616s".toList = .ok r) ∧
      parseDuration "18446744073709551615s".toList = .error .overflow ∧
      parseDuration "18446744073709549568s1000s1000s1000s".toList =
        .ok (some (18446744073709549568 * 10 ^ 9)) := by
  have h : parseDuration "18446744073709551616s".toList = .error .overflow := by decide +kernel
  refine ⟨h, ?_, by decide +kernel, by decide +kernel⟩
  rintro ⟨r, hr⟩
  rw [h] at hr
  cases hr

end Http3Bench.Benchkit
