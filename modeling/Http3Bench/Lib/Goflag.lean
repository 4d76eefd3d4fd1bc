import Mathlib.Tactic
import Mathlib.Data.List.TakeWhile
import Mathlib.Logic.Function.Basic

/-!
# Go's flag package

`FlagSet.Parse` for flags of the types `bool`, `int`, `string` and `time.Duration`, with what reads
their values: `strconv.ParseBool`, `strconv.ParseInt` with base 0, and `time.ParseDuration`, whose
product of floats is exact here.
-/

namespace Http3Bench.Lib.Goflag

abbrev Str := List Char

def parseBool (s : Str) : Option Bool :=
  if [['1'], ['t'], ['T'], "true".toList, "TRUE".toList, "True".toList].contains s then some true
  else if [['0'], ['f'], ['F'], "false".toList, "FALSE".toList, "False".toList].contains s then some false
  else none

/-! ### Integers -/

/-- The base of a number by how it starts, and its digits. -/
def digitsOf : Str → ℕ × Str
  | '0' :: c :: d :: rest =>
    if c.toLower = 'b' then (2, d :: rest)
    else if c.toLower = 'o' then (8, d :: rest)
    else if c.toLower = 'x' then (16, d :: rest)
    else (8, c :: d :: rest)
  | '0' :: rest => (8, rest)
  | s => (10, s)

def digit (base : ℕ) (c : Char) : Option ℕ :=
  let d := if c.isDigit then some (c.toNat - '0'.toNat)
    else if c.toLower.isLower then some (c.toLower.toNat - 'a'.toNat + 10)
    else none
  d.filter (· < base)

/-- The value of the digits; `_` stands between them. -/
def accumulate (base : ℕ) (n : ℕ) : Str → Option ℕ
  | [] => some n
  | c :: rest =>
    if c = '_' then accumulate base n rest
    else (digit base c).bind (fun d => accumulate base (base * n + d) rest)

/-- What was seen last: nothing, a digit, `_` or another character. -/
inductive Saw
  | start
  | digit
  | underscore
  | other
  deriving DecidableEq

def underscores (hex : Bool) : Saw → Str → Bool
  | saw, [] => saw ≠ .underscore
  | saw, c :: rest =>
    if c.isDigit || hex && (c.toLower.isLower && c.toLower ≤ 'f') then underscores hex .digit rest
    else if c = '_' then saw = .digit && underscores hex .underscore rest
    else saw ≠ .underscore && underscores hex .other rest

def underscoreOK : Str → Bool
  | '0' :: c :: rest =>
    if c.toLower ∈ ['b', 'o', 'x'] then underscores (c.toLower = 'x') .digit rest
    else underscores false .start ('0' :: c :: rest)
  | s => underscores false .start s

def parseUint (s : Str) : Option ℕ :=
  if s = [] then none
  else
    let (base, digits) := digitsOf s
    (accumulate base 0 digits).filter (fun n => n < 2 ^ 64 && ('_' ∉ digits || underscoreOK s))

def parseInt : Str → Option ℤ
  | '-' :: s => ((parseUint s).filter (· ≤ 2 ^ 63)).map (fun n : ℕ => -(n : ℤ))
  | '+' :: s => ((parseUint s).filter (· < 2 ^ 63)).map (fun n : ℕ => (n : ℤ))
  | s => ((parseUint s).filter (· < 2 ^ 63)).map (fun n : ℕ => (n : ℤ))

/-! ### Durations -/

/-- The nanoseconds in a unit. -/
def unitOf : Str → Option ℕ
  | ['n', 's'] => some 1
  | ['u', 's'] => some (10 ^ 3)
  | ['µ', 's'] => some (10 ^ 3)
  | ['μ', 's'] => some (10 ^ 3)
  | ['m', 's'] => some (10 ^ 6)
  | ['s'] => some (10 ^ 9)
  | ['m'] => some (60 * 10 ^ 9)
  | ['h'] => some (3600 * 10 ^ 9)
  | _ => none

/-- `leadingFraction`: the digits as an integer and the power of ten below it. Digits that no longer
fit are left out. -/
def leadingFraction (s : Str) : ℕ × ℕ :=
  let (x, scale, _) := s.foldl (fun (x, scale, overflow) c =>
    let y := 10 * x + (c.toNat - '0'.toNat)
    if overflow || (2 ^ 63 - 1) / 10 < x || 2 ^ 63 < y then (x, scale, true)
    else (y, 10 * scale, false)) (0, 1, false)
  (x, scale)

/-- The nanoseconds of one number with its unit. -/
def amount (whole : Str) (frac : Option Str) (unit : ℕ) : Option ℕ := do
  let v := Nat.ofDigitChars 10 whole 0
  if 2 ^ 63 < v ∨ 2 ^ 63 / unit < v then none
  else
    let (f, scale) := leadingFraction (frac.getD [])
    let v := v * unit + (if 0 < f then f * unit / scale else 0)
    if 2 ^ 63 < v then none else some v

/-- The loop of `time.ParseDuration`. Each round takes at least one character. -/
def durationFrom : ℕ → Str → ℕ → Option ℕ
  | 0, _, _ => none
  | _ + 1, [], d => some d
  | fuel + 1, s, d =>
    let whole := s.takeWhile Char.isDigit
    let rest := s.dropWhile Char.isDigit
    let frac := if rest.head? = some '.' then some ((rest.drop 1).takeWhile Char.isDigit) else none
    let rest := if rest.head? = some '.' then (rest.drop 1).dropWhile Char.isDigit else rest
    if whole = [] ∧ frac.getD [] = [] then none
    else do
      let unit ← unitOf (rest.takeWhile (fun c => !(c.isDigit || c = '.')))
      let v ← amount whole frac unit
      if 2 ^ 63 < d + v then none
      else durationFrom fuel (rest.dropWhile (fun c => !(c.isDigit || c = '.'))) (d + v)

def parseDuration (s : Str) : Option ℤ :=
  let neg := s.head? = some '-'
  let s := if s.head? = some '-' ∨ s.head? = some '+' then s.drop 1 else s
  if s = ['0'] then some 0
  else if s = [] then none
  else (durationFrom (s.length + 1) s 0).bind (fun d =>
    if neg then some (-d) else if d < 2 ^ 63 then some d else none)

/-! ### Flags -/

inductive Value
  | bool (b : Bool)
  | int (i : ℤ)
  | string (s : Str)
  | duration (ns : ℤ)
  deriving DecidableEq

/-- `Value.Set`, `none` for an error. -/
def Value.set (s : Str) : Value → Option Value
  | bool _ => (parseBool s).map bool
  | int _ => (parseInt s).map int
  | string _ => some (string s)
  | duration _ => (parseDuration s).map duration

def Value.isBool : Value → Bool
  | bool _ => true
  | _ => false

inductive Error
  | help
  | malformed (arg : Str)
  | undefined (name : Str)
  | needsArgument (name : Str)
  | invalid (name value : Str)
  deriving DecidableEq

/-- The flags with their values. -/
abbrev FlagSet := Str → Option Value

/-- `Parse`. It stops at an argument that is no flag. -/
def parse : List Str → FlagSet → Except Error FlagSet
  | [], f => .ok f
  | s :: args, f =>
    if s.length < 2 ∨ s.head? ≠ some '-' ∨ s = ['-', '-'] then .ok f
    else
      let body := if (s.drop 1).head? = some '-' then s.drop 2 else s.drop 1
      if body = [] ∨ body.head? = some '-' ∨ body.head? = some '=' then .error (.malformed s)
      else
        let name := body.takeWhile (· ≠ '=')
        let inline := if '=' ∈ body then some ((body.dropWhile (· ≠ '=')).drop 1) else none
        match f name with
        | none =>
          if name = "help".toList ∨ name = ['h'] then .error .help else .error (.undefined name)
        | some old =>
          -- a bool takes no argument of its own
          match if old.isBool then some (inline.getD "true".toList) else inline, args with
          | some value, args => match old.set value with
            | some v => parse args (Function.update f name (some v))
            | none => .error (.invalid name value)
          | none, value :: args => match old.set value with
            | some v => parse args (Function.update f name (some v))
            | none => .error (.invalid name value)
          | none, [] => .error (.needsArgument name)

/-! ### Arguments of the form `-name=value` -/

/-- A name that can stand before `=`. -/
structure Name (name : Str) : Prop where
  ne_nil : name ≠ []
  dash : name.head? ≠ some '-'
  assign : '=' ∉ name

instance (name : Str) : Decidable (Name name) :=
  decidable_of_iff (name ≠ [] ∧ name.head? ≠ some '-' ∧ '=' ∉ name)
    ⟨fun h => ⟨h.1, h.2.1, h.2.2⟩, fun h => ⟨h.1, h.2, h.3⟩⟩

/-- `-name=value`, or `-name` alone. -/
def word (item : Str × Option Str) : Str :=
  '-' :: item.1 ++ (item.2.elim [] ('=' :: ·))

/-- The value an item gives its flag. -/
def valueOf (item : Str × Option Str) : Str := item.2.getD "true".toList

/-- A flag keeps its type. -/
theorem Value.type_of_set {v v' : Value} {s : Str} (h : v.set s = some v') :
    (∀ t, v'.set t = v.set t) ∧ v'.isBool = v.isBool := by
  cases v with
  | string =>
    cases h
    exact ⟨fun _ => rfl, rfl⟩
  | bool =>
    obtain ⟨b, -, rfl⟩ := Option.map_eq_some_iff.mp h
    exact ⟨fun _ => rfl, rfl⟩
  | int =>
    obtain ⟨i, -, rfl⟩ := Option.map_eq_some_iff.mp h
    exact ⟨fun _ => rfl, rfl⟩
  | duration =>
    obtain ⟨ns, -, rfl⟩ := Option.map_eq_some_iff.mp h
    exact ⟨fun _ => rfl, rfl⟩

theorem takeWhile_name {name : Str} (h : Name name) (value : Option Str) :
    (name ++ value.elim [] ('=' :: ·)).takeWhile (· ≠ '=') = name ∧
      (name ++ value.elim [] ('=' :: ·)).dropWhile (· ≠ '=') = value.elim [] ('=' :: ·) := by
  have hname : ∀ c ∈ name, decide (c ≠ '=') = true := by
    intro c hc
    apply decide_eq_true
    rintro rfl
    exact h.assign hc
  rw [List.takeWhile_append_of_pos hname, List.dropWhile_append_of_pos hname]
  cases value with
  | none => exact ⟨List.append_nil _, rfl⟩
  | some value => simp

/-- An item is stored, and `parse` goes on behind it. -/
theorem parse_word {f : FlagSet} {name : Str} {value : Option Str} {old new : Value}
    (hname : Name name) (hold : f name = some old) (hbare : value = none → old.isBool)
    (hset : old.set (valueOf (name, value)) = some new) (args : List Str) :
    parse (word (name, value) :: args) f = parse args (Function.update f name (some new)) := by
  obtain ⟨htake, hdrop⟩ := takeWhile_name hname value
  have hmem : '=' ∈ name ++ value.elim [] ('=' :: ·) ↔ value.isSome := by
    cases value with
    | none => simpa using hname.assign
    | some value => simp
  obtain ⟨c, rest, hcons⟩ := List.exists_cons_of_ne_nil hname.ne_nil
  have hc : c ≠ '-' := fun hc => hname.dash (by rw [hcons, hc]; rfl)
  have heq : c ≠ '=' := fun hc => hname.assign (by rw [hcons, hc]; exact List.mem_cons_self)
  have hbody : name ++ value.elim [] ('=' :: ·) = c :: (rest ++ value.elim [] ('=' :: ·)) := by
    rw [hcons]
    rfl
  have hword : word (name, value) = '-' :: c :: (rest ++ value.elim [] ('=' :: ·)) := by
    rw [word, List.cons_append, hbody]
  rw [parse.eq_def]
  simp only [hword, List.drop_succ_cons, List.drop_zero, List.head?_cons, Option.some.injEq, hc, if_false]
  rw [if_neg (by simp [hc]), if_neg (by simp [heq])]
  simp only [← hbody, htake, hdrop, hmem, hold]
  cases value with
  | none =>
    have htrue : old.set ['t', 'r', 'u', 'e'] = some new := hset
    simp [hbare rfl, htrue]
  | some value =>
    have hvalue : old.set value = some new := hset
    simp [hvalue]

/-- The items for a flag that is defined, with values it can be set to. -/
def Fits (f : FlagSet) (item : Str × Option Str) : Prop :=
  Name item.1 ∧ ∃ old, f item.1 = some old ∧ (item.2 = none → old.isBool) ∧
    (old.set (valueOf item)).isSome

/-- Items that fit are all stored, and the last one for a flag wins. -/
theorem parse_words {f : FlagSet} (items : List (Str × Option Str)) (h : ∀ item ∈ items, Fits f item) :
    ∃ g, parse (items.map word) f = .ok g ∧ ∀ name, g name =
      match (items.filter (·.1 = name)).getLast? with
      | none => f name
      | some item => (f name).bind (Value.set (valueOf item)) := by
  induction items generalizing f with
  | nil => exact ⟨f, rfl, fun name => rfl⟩
  | cons item rest ih =>
    obtain ⟨name, value⟩ := item
    obtain ⟨hname, old, hold, hbare, hset⟩ := h _ List.mem_cons_self
    obtain ⟨new, hnew⟩ := Option.isSome_iff_exists.mp hset
    obtain ⟨hsame, hbool⟩ := Value.type_of_set hnew
    have hrest : ∀ item ∈ rest, Fits (Function.update f name (some new)) item := by
      intro item hitem
      obtain ⟨hname', old', hold', hbare', hset'⟩ := h item (List.mem_cons_of_mem _ hitem)
      refine ⟨hname', ?_⟩
      by_cases heq : item.1 = name
      · obtain rfl : old = old' := Option.some.inj (hold.symm.trans (heq ▸ hold'))
        refine ⟨new, by rw [heq, Function.update_self], ?_, ?_⟩
        · rwa [hbool]
        · rwa [hsame]
      · exact ⟨old', by rwa [Function.update_of_ne heq], hbare', hset'⟩
    obtain ⟨g, hg, hvalues⟩ := ih hrest
    refine ⟨g, ?_, fun n => ?_⟩
    · rw [List.map_cons, parse_word hname hold hbare hnew]
      exact hg
    · rw [hvalues n]
      by_cases heq : name = n
      · subst heq
        rw [List.filter_cons_of_pos (by simp), Function.update_self]
        cases hlast : (rest.filter (·.1 = name)).getLast? with
        | none =>
          rw [List.getLast?_eq_none_iff.mp hlast]
          simp [hold, hnew]
        | some item =>
          rw [List.getLast?_cons, hlast]
          simp [hold, hsame]
      · rw [List.filter_cons_of_neg (by simpa using heq), Function.update_of_ne (Ne.symm heq)]

/-! ### Plain numbers -/

/-- Decimal digits that do not look like those of another base. -/
structure Plain (digits : Str) : Prop where
  ne_nil : digits ≠ []
  isDigit : ∀ c ∈ digits, c.isDigit
  zero : digits = ['0'] ∨ digits.head? ≠ some '0'

theorem digit_of_isDigit {c : Char} (h : c.isDigit) : digit 10 c = some (c.toNat - '0'.toNat) := by
  have hle : c.toNat ≤ '9'.toNat := by
    have := h
    simp only [Char.isDigit, Bool.and_eq_true, decide_eq_true_eq] at this
    exact this.2
  unfold digit
  rw [if_pos h]
  apply Option.filter_eq_some_iff.mpr
  refine ⟨rfl, decide_eq_true ?_⟩
  have hnine : '9'.toNat = 57 := rfl
  have hzero : '0'.toNat = 48 := rfl
  omega

theorem accumulate_digits (n : ℕ) {digits : Str} (h : ∀ c ∈ digits, c.isDigit) :
    accumulate 10 n digits = some (Nat.ofDigitChars 10 digits n) := by
  induction digits generalizing n with
  | nil => rfl
  | cons c rest ih =>
    have hc := h c List.mem_cons_self
    have hne : c ≠ '_' := by
      rintro rfl
      exact absurd hc (by decide)
    rw [accumulate, if_neg hne, digit_of_isDigit hc, Option.bind_some,
      ih _ (fun c hc => h c (List.mem_cons_of_mem _ hc))]
    rfl

theorem digitsOf_plain {digits : Str} (h : Plain digits) (hzero : digits ≠ ['0']) :
    digitsOf digits = (10, digits) := by
  have hhead := h.zero.resolve_left hzero
  unfold digitsOf
  split
  · exact absurd rfl hhead
  · exact absurd rfl hhead
  · rfl

theorem parseUint_plain {digits : Str} (h : Plain digits) (hn : Nat.ofDigitChars 10 digits 0 < 2 ^ 64) :
    parseUint digits = some (Nat.ofDigitChars 10 digits 0) := by
  by_cases hzero : digits = ['0']
  · rw [hzero]
    rfl
  · have hnot : '_' ∉ digits := fun hmem => absurd (h.isDigit _ hmem) (by decide)
    rw [parseUint, if_neg h.ne_nil, digitsOf_plain h hzero]
    simp only [accumulate_digits 0 h.isDigit]
    rw [Option.filter_some, if_pos]
    rw [decide_eq_true hn, decide_eq_true hnot]
    rfl

theorem parseInt_plain {digits : Str} (h : Plain digits) (hn : Nat.ofDigitChars 10 digits 0 < 2 ^ 63) :
    parseInt digits = some ((Nat.ofDigitChars 10 digits 0 : ℕ) : ℤ) ∧
      parseInt ('+' :: digits) = some ((Nat.ofDigitChars 10 digits 0 : ℕ) : ℤ) := by
  have huint := parseUint_plain h (by omega)
  constructor
  · unfold parseInt
    split
    · exact absurd (h.isDigit _ List.mem_cons_self) (by decide)
    · exact absurd (h.isDigit _ List.mem_cons_self) (by decide)
    · rw [huint, Option.filter_some, if_pos (decide_eq_true hn)]
      rfl
  · rw [parseInt, huint, Option.filter_some, if_pos (decide_eq_true hn)]
    rfl

theorem parseInt_plain_neg {digits : Str} (h : Plain digits)
    (hn : Nat.ofDigitChars 10 digits 0 ≤ 2 ^ 63) :
    parseInt ('-' :: digits) = some (-((Nat.ofDigitChars 10 digits 0 : ℕ) : ℤ)) := by
  have huint := parseUint_plain h (by omega)
  rw [parseInt, huint, Option.filter_some, if_pos (decide_eq_true hn)]
  rfl

/-! ### Durations without a fraction -/

/-- Whole numbers with their units, and the nanoseconds they come to. -/
inductive Whole : Str → ℕ → Prop
  | nil : Whole [] 0
  | cons {digits unit rest : Str} {k n : ℕ} : digits ≠ [] → (∀ c ∈ digits, c.isDigit) →
      unitOf unit = some k → Whole rest n →
      Whole (digits ++ (unit ++ rest)) (Nat.ofDigitChars 10 digits 0 * k + n)

theorem unitOf_cases {unit : Str} {k : ℕ} (h : unitOf unit = some k) :
    0 < k ∧ unit ≠ [] ∧ unit.all (fun c => !(c.isDigit || c = '.')) := by
  unfold unitOf at h
  split at h <;> first
    | (cases h
       exact ⟨by decide, by decide, rfl⟩)
    | cases h

theorem Whole.head {s : Str} {n : ℕ} (h : Whole s n) : ∀ c ∈ s.head?, c.isDigit := by
  cases h with
  | nil => exact fun c hc => by cases hc
  | @cons digits unit rest k n hne hd _ _ =>
    intro c hc
    obtain ⟨d, digits, rfl⟩ := List.exists_cons_of_ne_nil hne
    obtain rfl : d = c := Option.some.inj hc
    exact hd d List.mem_cons_self

theorem Whole.length_le {s : Str} {n : ℕ} (h : Whole s n) (hne : s ≠ []) : 2 ≤ s.length := by
  cases h with
  | nil => exact absurd rfl hne
  | @cons digits unit rest k n hdigits _ hunit _ =>
    have hpos := List.length_pos_iff.mpr hdigits
    have hpos' := List.length_pos_iff.mpr (unitOf_cases hunit).2.1
    simp only [List.length_append]
    omega

theorem takeWhile_append_of_head {p : Char → Bool} {a b : Str} (ha : ∀ c ∈ a, p c)
    (hb : ∀ c ∈ b.head?, p c = false) : (a ++ b).takeWhile p = a ∧ (a ++ b).dropWhile p = b := by
  rw [List.takeWhile_append_of_pos ha, List.dropWhile_append_of_pos ha]
  cases b with
  | nil => exact ⟨List.append_nil _, rfl⟩
  | cons c b =>
    have hc : p c = false := hb c rfl
    simp [hc]

theorem amount_whole {digits : Str} {k : ℕ} (hk : 0 < k)
    (h : Nat.ofDigitChars 10 digits 0 * k ≤ 2 ^ 63) :
    amount digits none k = some (Nat.ofDigitChars 10 digits 0 * k) := by
  have hdiv : Nat.ofDigitChars 10 digits 0 ≤ 2 ^ 63 / k := (Nat.le_div_iff_mul_le hk).mpr h
  have hle : Nat.ofDigitChars 10 digits 0 ≤ 2 ^ 63 := Nat.le_trans hdiv (Nat.div_le_self _ _)
  unfold amount
  simp only [Option.getD_none]
  rw [if_neg (by omega)]
  simp only [leadingFraction, List.foldl_nil, Nat.lt_irrefl, if_false, Nat.add_zero]
  rw [if_neg (by omega)]

theorem durationFrom_whole {s : Str} {n : ℕ} (h : Whole s n) {fuel : ℕ} (hfuel : s.length < fuel)
    {d : ℕ} (hd : d + n ≤ 2 ^ 63) : durationFrom fuel s d = some (d + n) := by
  induction h generalizing fuel d with
  | nil =>
    obtain ⟨fuel, rfl⟩ := Nat.exists_eq_succ_of_ne_zero (Nat.ne_zero_of_lt hfuel)
    rfl
  | @cons digits unit rest k n hne hdigits hunit hrest ih =>
    obtain ⟨fuel, rfl⟩ := Nat.exists_eq_succ_of_ne_zero (Nat.ne_zero_of_lt hfuel)
    obtain ⟨hk, hunitne, hnot⟩ := unitOf_cases hunit
    obtain ⟨u, us, rfl⟩ := List.exists_cons_of_ne_nil hunitne
    rw [List.all_eq_true] at hnot
    obtain ⟨hu, hpoint⟩ : u.isDigit = false ∧ u ≠ '.' := by
      simpa using hnot u List.mem_cons_self
    obtain ⟨htake, hdrop⟩ := takeWhile_append_of_head (b := u :: us ++ rest) hdigits (by simpa using hu)
    obtain ⟨htake', hdrop'⟩ := takeWhile_append_of_head (b := rest) hnot (by
      intro c hc
      simp [hrest.head c hc])
    have hlen : rest.length < fuel := by
      simp only [List.length_append, List.length_cons] at hfuel
      omega
    have hcons : ∃ c t, digits ++ (u :: us ++ rest) = c :: t :=
      List.exists_cons_of_ne_nil (by simp [hne])
    obtain ⟨c, t, hct⟩ := hcons
    rw [hct]
    rw [durationFrom]
    · rw [← hct]
      have hhead : (u :: us ++ rest).head? ≠ some '.' := fun h => hpoint (Option.some.inj h)
      simp only [htake, hdrop, hne, false_and, if_false, if_neg hhead, htake', hdrop', hunit]
      rw [Option.bind_eq_bind, Option.bind_some, amount_whole hk (by omega),
        Option.bind_some, if_neg (by omega), ih hlen (by omega), Nat.add_assoc]
    · exact fun h => by cases h

theorem parseDuration_whole {s : Str} {n : ℕ} (h : Whole s n) (hne : s ≠ []) (hn : n < 2 ^ 63) :
    parseDuration s = some (n : ℤ) := by
  obtain ⟨c, rest, rfl⟩ := List.exists_cons_of_ne_nil hne
  have hc : c.isDigit := h.head c rfl
  have hminus : c ≠ '-' := by
    rintro rfl
    exact absurd hc (by decide)
  have hplus : c ≠ '+' := by
    rintro rfl
    exact absurd hc (by decide)
  have hzero : c :: rest ≠ ['0'] := by
    intro heq
    rw [heq] at h
    exact absurd (h.length_le (by simp)) (by decide)
  have hloop := durationFrom_whole h (Nat.lt_succ_self _) (d := 0) (by omega)
  simp only [parseDuration, List.head?_cons, Option.some.injEq, hminus, hplus, or_self, if_false, hzero, hloop]
  rw [if_neg hne, Option.bind_some, Nat.zero_add, if_pos hn]

end Http3Bench.Lib.Goflag
