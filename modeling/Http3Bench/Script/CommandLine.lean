import Http3Bench.Benchkit.Flags
import Http3Bench.Lib.Goflag

/-!
# One command line for all programs

`script/benchmark.sh` takes the client's flags. It hands all of them to the client and to the report
step, which picks its own out of them with `ownFlags`, and to the servers what a server defines. The
client and the quiche server read them with `benchkit/src/flags.rs`, the other programs with Go's flag
package. A command line that the client accepts stops none of the others, and each reads the same
values out of it.
-/

namespace Http3Bench.Script

open Benchkit (Kind FlagSet parseBool parseInt parseDuration)
open Benchkit.FlagSet
open Lib.Goflag (Value Name word valueOf)

abbrev Text := List Char

/-! ### The flags of the programs -/

def define (flags : List (Text × Kind × Text)) : FlagSet :=
  flags.foldl (fun f flag => f.add flag.1 flag.2.1 flag.2.2) .new

/-- `define_flags` of the client. -/
def clientFlags : List (Text × Kind × Text) := [
  ("m".toList, .int, "4294967296".toList), ("streams".toList, .int, "100".toList),
  ("idle".toList, .duration, "120s".toList), ("f".toList, .str, "quicgo".toList),
  ("ip".toList, .str, "127.0.0.1".toList), ("t".toList, .int, "0".toList),
  ("c".toList, .int, "10000".toList), ("dc".toList, .int, "2000".toList),
  ("dt".toList, .duration, "5s".toList), ("dr".toList, .int, "5".toList),
  ("dri".toList, .duration, "100ms".toList), ("b".toList, .int, "1024".toList),
  ("check".toList, .bool, "false".toList), ("pi".toList, .int, "1000".toList),
  ("ps".toList, .str, "auto".toList), ("tpn".toList, .bool, "true".toList),
  ("ec".toList, .int, "10000".toList), ("en".toList, .int, "2000000".toList),
  ("el".toList, .int, "0".toList), ("ep".toList, .bool, "false".toList),
  ("epd".toList, .int, "5".toList), ("rate".toList, .bool, "false".toList),
  ("rd".toList, .int, "10".toList), ("rr".toList, .int, "200".toList),
  ("rbs".toList, .int, "16384".toList), ("rb".toList, .int, "0".toList),
  ("rl".toList, .int, "0".toList), ("rp".toList, .bool, "false".toList),
  ("rpd".toList, .int, "5".toList), ("r".toList, .bool, "false".toList),
  ("preffix".toList, .str, []), ("suffix".toList, .str, []), ("sort".toList, .str, "result".toList)]

/-- The flags of the quiche server. -/
def quicheFlags : List (Text × Kind × Text) := [
  ("b".toList, .int, "1024".toList), ("m".toList, .int, "2147483648".toList),
  ("streams".toList, .int, "100".toList), ("idle".toList, .duration, "120s".toList),
  ("t".toList, .int, "0".toList)]

/-- The flags of the report step. -/
def reportTable : List (Text × Value) := [
  ("r".toList, .bool true), ("tpn".toList, .bool true), ("preffix".toList, .string []),
  ("suffix".toList, .string []), ("sort".toList, .string "result".toList)]

def reportFlags : Lib.Goflag.FlagSet := fun name => reportTable.lookup name

/-- The flags of a Go server, of which fib has one more. -/
def goServerTable (fib : Bool) : List (Text × Value) := [
  ("b".toList, .int 1024), ("m".toList, .int (1024 * 1024 * 1024 * 2)), ("streams".toList, .int 100),
  ("idle".toList, .duration (120 * 10 ^ 9))] ++
    if fib then [("socketsyscalls".toList, .bool true)] else []

def goServerFlags (fib : Bool) : Lib.Goflag.FlagSet := fun name => (goServerTable fib).lookup name

/-! ### The scripts -/

/-- `-socketsyscalls`, which the drivers take out of their arguments. -/
def isSocketSyscalls (arg : Text) : Bool :=
  ["-socketsyscalls".toList, "--socketsyscalls".toList].contains arg ||
    "-socketsyscalls=".toList.isPrefixOf arg || "--socketsyscalls=".toList.isPrefixOf arg

def driverArgs (given : List Text) : List Text := given.filter (!isSocketSyscalls ·)

/-- `BENCH_FIB_SOCKET_SYSCALLS` after the drivers' loop. -/
def socketSyscalls (env : Text) (given : List Text) : Text :=
  (given.filter isSocketSyscalls).foldl (fun _ arg =>
    if '=' ∈ arg then (arg.dropWhile (· ≠ '=')).drop 1 else "true".toList) env

/-- What `script/clients.sh` runs the client with. -/
def clientArgs (framework host : Text) (args : List Text) : List Text :=
  ("-f=".toList ++ framework) :: ("-ip=".toList ++ host) :: "-rate=true".toList :: args

/-- What `script/report.sh` runs the report step with. -/
def reportArgs (sort : Text) (args : List Text) : List Text :=
  if sort = [] then args else ("-sort=".toList ++ sort) :: args

/-- `-b=*|-m=*|-streams=*|-idle=*`. -/
def forwarded (arg : Text) : Bool :=
  ["-b=".toList, "-m=".toList, "-streams=".toList, "-idle=".toList].any (·.isPrefixOf arg)

def serverFlagsText (args : List Text) : Text :=
  (args.filter forwarded).foldl (fun text arg => text ++ ' ' :: arg) []

/-- The words of an expansion that is not quoted; `expand` is pathname expansion. -/
def shellWords (expand : Text → List Text) (text : Text) : List Text :=
  ((text.splitOnP (· ∈ [' ', '\t', '\n'])).filter (· ≠ [])).flatMap expand

/-- What `script/server.sh` runs a server with. -/
def serverArgs (expand : Text → List Text) (args : List Text) : List Text :=
  shellWords expand (serverFlagsText args)

def fibArgs (value : Text) (fib : Bool) (args : List Text) : List Text :=
  if fib then ("-socketsyscalls=".toList ++ value) :: args else args

/-- `ownFlags` of the report step. -/
def ownFlags (args : List Text) : List Text := args.filter (fun arg =>
  let name := arg.dropWhile (· = '-')
  let name' := name.takeWhile (· ≠ '=')
  name ≠ arg && ((reportFlags name').isSome || name' = ['h'] || name' = "help".toList))

/-! ### Words of the shell -/

/-- What the shell leaves alone where it is not quoted. -/
def tame (c : Char) : Bool := c ∉ [' ', '\t', '\n', '*', '?', '[', '\\']

theorem shellWords_append (expand : Text → List Text) (a b : Text) :
    shellWords expand (a ++ ' ' :: b) = shellWords expand a ++ shellWords expand b := by
  unfold shellWords
  rw [List.splitOnP_append_cons a b (by decide), List.filter_append, List.flatMap_append]

section Words

variable {expand : Text → List Text} (hexpand : ∀ w, (∀ c ∈ w, tame c) → expand w = [w])

include hexpand

theorem shellWords_tame {arg : Text} (hne : arg ≠ []) (h : ∀ c ∈ arg, tame c) :
    shellWords expand arg = [arg] := by
  have hblank : ∀ c ∈ arg, decide (c ∈ [' ', '\t', '\n']) = false := by
    intro c hc
    have htame := of_decide_eq_true (h c hc)
    apply decide_eq_false
    intro hmem
    apply htame
    simp only [List.mem_cons, List.not_mem_nil, or_false] at hmem ⊢
    tauto
  rw [shellWords, List.splitOnP_eq_singleton hblank]
  simp [hne, hexpand arg h]

theorem shellWords_foldl (args : List Text) (text : Text)
    (h : ∀ arg ∈ args, arg ≠ [] ∧ ∀ c ∈ arg, tame c) :
    shellWords expand (args.foldl (fun text arg => text ++ ' ' :: arg) text) =
      shellWords expand text ++ args := by
  induction args generalizing text with
  | nil => exact (List.append_nil _).symm
  | cons arg rest ih =>
    obtain ⟨hne, htame⟩ := h arg List.mem_cons_self
    rw [List.foldl_cons, ih _ (fun a ha => h a (List.mem_cons_of_mem _ ha)), shellWords_append,
      shellWords_tame hexpand hne htame, List.append_assoc]
    rfl

/-- What the driver forwards reaches the servers, one word an argument. -/
theorem serverArgs_eq (args : List Text) (h : ∀ arg ∈ args, forwarded arg → ∀ c ∈ arg, tame c) :
    serverArgs expand args = args.filter forwarded := by
  unfold serverArgs serverFlagsText
  rw [shellWords_foldl hexpand]
  · rfl
  · intro arg harg
    obtain ⟨hmem, hforwarded⟩ := List.mem_filter.mp harg
    refine ⟨?_, h arg hmem hforwarded⟩
    rintro rfl
    exact absurd hforwarded (by decide)

end Words

/-! ### Values the client accepts -/

theorem tame_of_isDigit {c : Char} (h : c.isDigit) : tame c := by
  apply decide_eq_true
  intro hmem
  simp only [List.mem_cons, List.not_mem_nil, or_false] at hmem
  rcases hmem with rfl | rfl | rfl | rfl | rfl | rfl | rfl <;> exact absurd h (by decide)

/-- A sign or none, and decimal digits. -/
theorem parseInt_cases {s : Text} {n : Int64} (h : parseInt s = some n) :
    ∃ digits : Text, digits ≠ [] ∧ (∀ c ∈ digits, c.isDigit) ∧
      (s = '-' :: digits ∧ Nat.ofDigitChars 10 digits 0 ≤ 2 ^ 63 ∧
          n = Int64.ofInt (-(Nat.ofDigitChars 10 digits 0 : ℤ)) ∨
        (s = digits ∨ s = '+' :: digits) ∧ Nat.ofDigitChars 10 digits 0 < 2 ^ 63 ∧
          n = Int64.ofInt (Nat.ofDigitChars 10 digits 0)) := by
  unfold parseInt at h
  split at h
  · rename_i digits
    split at h
    · rename_i hdigits
      obtain ⟨hne, hall, hle⟩ := hdigits
      exact ⟨digits, hne, List.all_eq_true.mp hall, .inl ⟨rfl, hle, (Option.some.inj h).symm⟩⟩
    · cases h
  · obtain ⟨m, hm, rfl⟩ := Option.map_eq_some_iff.mp h
    unfold Text.parseUnsigned at hm
    split at hm
    · rename_i hdigits
      split at hm
      · rename_i hle
        obtain rfl := Option.some.inj hm
        refine ⟨Text.dropSign s, hdigits.1, List.all_eq_true.mp hdigits.2, .inr ⟨?_, by omega, rfl⟩⟩
        unfold Text.dropSign
        split
        · exact .inr rfl
        · exact .inl rfl
      · cases hm
    · cases hm

theorem tame_of_parseInt {s : Text} {n : Int64} (h : parseInt s = some n) : ∀ c ∈ s, tame c := by
  obtain ⟨digits, -, hdigits, hcases⟩ := parseInt_cases h
  have htame : ∀ c ∈ digits, tame c := fun c hc => tame_of_isDigit (hdigits c hc)
  rcases hcases with ⟨rfl, -⟩ | ⟨rfl | rfl, -⟩
  · exact List.forall_mem_cons.mpr ⟨by decide, htame⟩
  · exact htame
  · exact List.forall_mem_cons.mpr ⟨by decide, htame⟩

theorem tame_of_scale {unit : Text} {k : ℚ} (h : Benchkit.scale unit = some k) : unit.all tame := by
  unfold Benchkit.scale at h
  split at h <;> first
    | rfl
    | cases h

theorem tame_of_pairs {s : Text} {pairs : List (ℚ × ℚ)} (h : Benchkit.Pairs s pairs) : ∀ c ∈ s, tame c := by
  induction h with
  | nil => exact fun c hc => by cases hc
  | cons hnumber hscale _ ih =>
    intro c hc
    rcases List.mem_append.mp hc with hc | hc
    · have hnumeric := hnumber.numeric c hc
      rcases Bool.or_eq_true_iff.mp hnumeric with hdigit | hpoint
      · exact tame_of_isDigit hdigit
      · obtain rfl := eq_of_beq hpoint
        decide
    · rcases List.mem_append.mp hc with hc | hc
      · exact List.all_eq_true.mp (tame_of_scale hscale) c hc
      · exact ih c hc

/-- A duration is `0`, or numbers with their units. -/
theorem pairs_of_parseDuration {s : Text} {d : ℕ} (h : parseDuration s = .ok (some d)) :
    s = ['0'] ∧ d = 0 ∨ ∃ pairs, s ≠ ['0'] ∧ s ≠ [] ∧ Benchkit.Pairs s pairs ∧
      Benchkit.fromSecs (Benchkit.f64Total pairs) = .ok d := by
  rcases Benchkit.parseDuration_cases s with ⟨rfl, heq⟩ | ⟨-, -, heq⟩ | ⟨pairs, hzero, hne, hpairs, heq⟩
  · rw [heq] at h
    exact .inl ⟨rfl, (Option.some.inj (Except.ok.inj h)).symm⟩
  · rw [heq] at h
    cases h
  · rw [heq] at h
    refine .inr ⟨pairs, hzero, hne, hpairs, ?_⟩
    cases hsecs : Benchkit.fromSecs (Benchkit.f64Total pairs) with
    | error p =>
      rw [hsecs] at h
      cases h
    | ok d' =>
      rw [hsecs] at h
      exact congrArg Except.ok (Option.some.inj (Except.ok.inj h))

theorem exists_parseDuration {text : Text} (h : Valid .duration text) :
    ∃ d, parseDuration text = .ok (some d) := by
  cases hd : parseDuration text with
  | error p =>
    rw [Valid, Benchkit.validFor, hd] at h
    cases h
  | ok r =>
    rw [Valid, Benchkit.validFor, hd] at h
    obtain ⟨d, rfl⟩ := Option.isSome_iff_exists.mp (Except.ok.inj h)
    exact ⟨d, rfl⟩

/-- The shell leaves a number or a duration alone. -/
theorem tame_of_valid {kind : Kind} {s : Text} (h : Valid kind s) (hkind : kind = .int ∨ kind = .duration) :
    ∀ c ∈ s, tame c := by
  rcases hkind with rfl | rfl
  · obtain ⟨n, hn⟩ := Option.isSome_iff_exists.mp (Except.ok.inj h)
    exact tame_of_parseInt hn
  · obtain ⟨d, hd⟩ := exists_parseDuration h
    rcases pairs_of_parseDuration hd with ⟨rfl, -⟩ | ⟨pairs, -, -, hpairs, -⟩
    · exact List.forall_mem_singleton.mpr (by decide)
    · exact tame_of_pairs hpairs

/-! ### Arguments that are written `-name=value` -/

/-- The flag an item is for, and its value. -/
def pairOf (item : Text × Option Text) : Text × Text := (item.1, valueOf item)

/-- An item for a flag that is defined, with a value of its kind. -/
def Takes (f : FlagSet) (item : Text × Option Text) : Prop :=
  ∃ kind, f.kinds item.1 = some kind ∧ (item.2 = none → kind = .bool) ∧ Valid kind (valueOf item)

section Rust

variable {debug : Text → String} {f f' : FlagSet}

theorem parse_assign_ok {name value : Text} {rest : List Text} (hname : Name name)
    (h : parse debug (word (name, some value) :: rest) f = .ok (.ok (), f')) :
    Takes f (name, some value) ∧ parse debug rest (f.set name value) = .ok (.ok (), f') := by
  have hbody : (name ++ '=' :: value).head? ≠ some '-' := by
    rw [List.head?_append_of_ne_nil _ hname.ne_nil]
    exact hname.dash
  have hnil : name ++ '=' :: value ≠ [] := by simp
  have hword : word (name, some value) = List.replicate 1 '-' ++ (name ++ '=' :: value) := rfl
  rw [hword, parse.eq_def] at h
  simp only [if_neg (dashes_not_rejected 0 hnil), dropWhile_dashes 1 hbody, if_neg hnil,
    Text.splitOnce_append hname.assign, Option.map_some, Option.getD_some] at h
  split at h
  · cases h
  · cases hflag : f name with
    | none =>
      rw [hflag] at h
      cases h
    | some flag =>
      rw [hflag] at h
      obtain ⟨hvalid, hrest⟩ := parse_check_ok h
      refine ⟨⟨flag.kind, ?_, (fun hnone => by cases hnone), hvalid⟩, hrest⟩
      rw [kinds, hflag]
      rfl

/-- A bool that stands alone. -/
theorem item_bare {name : Text} (hkind : f.kinds name = some .bool) (rest : List Text) :
    Item f.kinds (word (name, none) :: rest) name "true".toList rest := by
  have hword : word (name, none) = List.replicate 1 '-' ++ name := by simp [word]
  rw [hword]
  exact .bare 0 hkind

/-- What `parse` accepts of such arguments, it stores. -/
theorem parse_words_ok (items : List (Text × Option Text)) (hf : Named f)
    (hname : ∀ item ∈ items, Name item.1 ∧ (item.2 = none → f.kinds item.1 = some .bool))
    (h : parse debug (items.map word) f = .ok (.ok (), f')) :
    (∀ item ∈ items, Takes f item) ∧ f' = f.setAll (items.map pairOf) := by
  induction items generalizing f with
  | nil =>
    cases h
    exact ⟨(fun item hitem => by cases hitem), rfl⟩
  | cons item rest ih =>
    obtain ⟨name, value⟩ := item
    obtain ⟨hname₀, hbare⟩ := hname _ List.mem_cons_self
    have hrest : ∀ item ∈ rest, Name item.1 ∧
        (item.2 = none → (f.set name (valueOf (name, value))).kinds item.1 = some .bool) := by
      intro item hitem
      rw [kinds_set]
      exact hname item (List.mem_cons_of_mem _ hitem)
    have hstep : Takes f (name, value) ∧
        parse debug (rest.map word) (f.set name (valueOf (name, value))) = .ok (.ok (), f') := by
      cases value with
      | some value => exact parse_assign_ok hname₀ h
      | none =>
        rw [List.map_cons, parse_of_item hf (item_bare (hbare rfl) _)] at h
        exact ⟨⟨.bool, hbare rfl, fun _ => rfl, rfl⟩, h⟩
    obtain ⟨htakes, rfl⟩ := ih (hf.set _ _) hrest hstep.2
    refine ⟨?_, rfl⟩
    intro item hitem
    rcases List.mem_cons.mp hitem with rfl | hitem
    · exact hstep.1
    · obtain ⟨kind, hkind, hvalid⟩ := htakes item hitem
      rw [kinds_set] at hkind
      exact ⟨kind, hkind, hvalid⟩

/-- Arguments with values of the kinds of their flags are accepted. -/
theorem parse_words (items : List (Text × Option Text)) (hf : Named f)
    (h : ∀ item ∈ items, Takes f item) :
    parse debug (items.map word) f = .ok (.ok (), f.setAll (items.map pairOf)) := by
  refine (parse_ok_iff hf _).mpr ⟨items.map pairOf, ?_, rfl⟩
  induction items with
  | nil => exact .nil
  | cons item rest ih =>
    obtain ⟨kind, hkind, hbare, hvalid⟩ := h item List.mem_cons_self
    refine .cons ?_ (ih (fun item hitem => h item (List.mem_cons_of_mem _ hitem)))
    obtain ⟨name, value⟩ := item
    cases value with
    | some value => exact .assign 0 hkind hvalid
    | none => exact item_bare (hbare rfl ▸ hkind) _

end Rust

/-! ### Values that two programs read alike -/

/-- What Go's flag package makes of a text is what `flags.rs` makes of it. -/
def Same (text : Text) : Value → Prop
  | .bool b => parseBool text = some b
  | .int i => ∃ n, parseInt text = some n ∧ i = n.toInt
  | .string s => s = text
  | .duration ns => ∃ d : ℕ, parseDuration text = .ok (some d) ∧ ns = d

/-- A flag has the same value in both programs. -/
def Agrees (f : FlagSet) (g : Lib.Goflag.FlagSet) (name : Text) : Prop :=
  ∃ v, g name = some v ∧ match v with
    | .bool b => f.getBool name = .ok b
    | .int i => ∃ n, f.getInt name = .ok n ∧ i = n.toInt
    | .string s => f.getStr name = .ok s
    | .duration ns => ∃ d : ℕ, f.getDuration name = .ok d ∧ ns = d

theorem agrees_of_same {f : FlagSet} {g : Lib.Goflag.FlagSet} {name text : Text} {v : Value}
    (hraw : f.raw name = .ok text) (hg : g name = some v) (h : Same text v) : Agrees f g name := by
  refine ⟨v, hg, ?_⟩
  cases v with
  | bool b =>
    rw [Same] at h
    simp only [getBool, hraw, Except.map, h, Option.getD_some]
  | int i =>
    obtain ⟨n, hn, hi⟩ := h
    refine ⟨n, ?_, hi⟩
    rw [getInt, hraw, Except.map, hn, Option.getD_some]
  | string s =>
    rw [Same] at h
    simp only [getStr, hraw, h]
  | duration ns =>
    obtain ⟨d, hd, hns⟩ := h
    refine ⟨d, ?_, hns⟩
    rw [getDuration, hraw]
    simp only [bind, Except.bind, hd]
    rfl

def kindOf : Value → Kind
  | .bool _ => .bool
  | .int _ => .int
  | .string _ => .str
  | .duration _ => .duration

/-- Numbers without a zero in front, which Go takes for another base, and durations of at most 8 whole
numbers that come to less than 2^18 seconds, which the sum of `f64` numbers holds to the nanosecond. -/
def Plain (kind : Kind) (text : Text) : Prop :=
  match kind with
  | .int =>
    let digits := text.dropWhile (· ∈ ['+', '-'])
    digits = ['0'] ∨ digits.head? ≠ some '0'
  | .duration => '.' ∉ text ∧
      ∀ pairs, Benchkit.Pairs text pairs → pairs.length ≤ 8 ∧ Benchkit.total pairs < 2 ^ 18
  | _ => True

theorem same_of_parseInt {text : Text} {n : Int64} (hn : parseInt text = some n)
    (hplain : Plain .int text) : Lib.Goflag.parseInt text = some n.toInt := by
  obtain ⟨digits, hne, hdigits, hcases⟩ := parseInt_cases hn
  have hdrop : ∀ signs : Text, (∀ c ∈ signs, decide (c ∈ ['+', '-'])) →
      (signs ++ digits).dropWhile (· ∈ ['+', '-']) = digits := by
    intro signs hsigns
    refine (Lib.Goflag.takeWhile_append_of_head hsigns ?_).2
    intro c hc
    apply decide_eq_false
    intro hmem
    simp only [List.mem_cons, List.not_mem_nil, or_false] at hmem
    have hdigit := hdigits c (List.mem_of_head? hc)
    rcases hmem with rfl | rfl <;> exact absurd hdigit (by decide)
  have hgo : ∀ signs : Text, (∀ c ∈ signs, decide (c ∈ ['+', '-'])) → Plain .int (signs ++ digits) →
      Lib.Goflag.Plain digits := by
    intro signs hsigns hplain
    simp only [Plain, hdrop signs hsigns] at hplain
    exact ⟨hne, hdigits, hplain⟩
  rcases hcases with ⟨rfl, hle, rfl⟩ | ⟨rfl | rfl, hlt, rfl⟩
  · rw [Lib.Goflag.parseInt_plain_neg (hgo ['-'] (List.forall_mem_singleton.mpr rfl) hplain) hle,
      Int64.toInt_ofInt_of_le (by omega) (by omega)]
  · rw [(Lib.Goflag.parseInt_plain (hgo [] (List.forall_mem_nil _) hplain) hlt).1,
      Int64.toInt_ofInt_of_le (by omega) (by omega)]
  · rw [(Lib.Goflag.parseInt_plain (hgo ['+'] (List.forall_mem_singleton.mpr rfl) hplain) hlt).2,
      Int64.toInt_ofInt_of_le (by omega) (by omega)]

/-- Go takes a zero in front for base 8. -/
example : parseInt "010".toList = some 10 ∧ Lib.Goflag.parseInt "010".toList = some 8 :=
  ⟨rfl, rfl⟩

theorem unitOf_of_scale {unit : Text} {k : ℚ} (h : Benchkit.scale unit = some k) :
    ∃ n : ℕ, Lib.Goflag.unitOf unit = some n ∧ k * 10 ^ 9 = n := by
  unfold Benchkit.scale at h
  split at h <;> first
    | (cases h
       exact ⟨_, rfl, by norm_num⟩)
    | cases h

theorem whole_of_pairs {s : Text} {pairs : List (ℚ × ℚ)} (h : Benchkit.Pairs s pairs)
    (hpoint : '.' ∉ s) :
    ∃ n : ℕ, Lib.Goflag.Whole s n ∧ Benchkit.total pairs * 10 ^ 9 = n ∧
      ∀ pair ∈ pairs, Benchkit.WholePair pair := by
  induction h with
  | nil => exact ⟨0, .nil, by simp [Benchkit.total], List.forall_mem_nil _⟩
  | @cons num unit rest n k pairs hnumber hscale _ ih =>
    simp only [List.mem_append, not_or] at hpoint
    obtain ⟨m, hrest, hm, hwhole⟩ := ih hpoint.2.2
    obtain ⟨u, hunit, hu⟩ := unitOf_of_scale hscale
    cases hnumber with
    | whole hdigits hne =>
      refine ⟨_, .cons hne hdigits hunit hrest, ?_, List.forall_mem_cons.mpr ⟨?_, hwhole⟩⟩
      · rw [Benchkit.total, List.map_cons, List.sum_cons, ← Benchkit.total]
        push_cast
        rw [← hu, ← hm]
        ring
      · refine ⟨?_, Benchkit.scale_range hscale⟩
        rcases Nat.eq_zero_or_pos (Nat.ofDigitChars 10 num 0) with hzero | hpos
        · exact .inl (Nat.cast_eq_zero.mpr hzero)
        · exact .inr (Nat.one_le_cast.mpr hpos)
    | point => exact absurd (by simp) hpoint.1

/-- The nanoseconds of a total that rounding has moved a little. -/
theorem toNanos_of_near {y t : ℚ} {n : ℕ} (ht : t * 10 ^ 9 = n) (hy : 0 ≤ y)
    (hnear : |y - t| < 1 / (2 * 10 ^ 9)) : Benchkit.toNanos y = n := by
  apply Lib.Binary64.nearestEven_eq (by positivity)
  rw [← ht, ← sub_mul, abs_mul, abs_of_pos (by norm_num : (0 : ℚ) < 10 ^ 9)]
  calc |y - t| * 10 ^ 9 < 1 / (2 * 10 ^ 9) * 10 ^ 9 :=
        mul_lt_mul_of_pos_right hnear (by norm_num)
    _ = 1 / 2 := by norm_num

theorem same_of_parseDuration {text : Text} {d : ℕ} (hd : parseDuration text = .ok (some d))
    (hplain : Plain .duration text) : Lib.Goflag.parseDuration text = some (d : ℤ) := by
  obtain ⟨hpoint, hsmall⟩ := hplain
  rcases pairs_of_parseDuration hd with ⟨rfl, rfl⟩ | ⟨pairs, hzero, hne, hpairs, hsecs⟩
  · rfl
  · obtain ⟨n, hwhole, hn, hall⟩ := whole_of_pairs hpairs hpoint
    obtain ⟨hlength, hsum⟩ := hsmall pairs hpairs
    obtain ⟨y, hy, hnear⟩ := Benchkit.f64Total_near hall hlength hsum
    have hdouble := Benchkit.double_f64Total hpairs.nonneg
    rw [hy] at hsecs hdouble
    have hnanos := toNanos_of_near hn hdouble.nonneg hnear
    have hd : d = n := by
      have hfrom : Benchkit.fromSecs (y : WithTop ℚ) = if Benchkit.toNanos y < 2 ^ 64 * 10 ^ 9
          then .ok (Benchkit.toNanos y) else .error .overflow := rfl
      rw [hfrom, hnanos] at hsecs
      split at hsecs
      · exact (Except.ok.inj hsecs).symm
      · cases hsecs
    have hless : n < 2 ^ 63 := by
      have hcast : (n : ℚ) < 2 ^ 63 := by
        rw [← hn]
        linarith
      exact_mod_cast hcast
    rw [hd]
    exact Lib.Goflag.parseDuration_whole hwhole hne hless

theorem goflag_parseBool (text : Text) : Lib.Goflag.parseBool text = parseBool text := by
  simp only [Lib.Goflag.parseBool, parseBool, List.contains_iff_mem]

/-- A value the client accepts is accepted, and read alike. -/
theorem same_of_valid {old : Value} {text : Text} (hvalid : Valid (kindOf old) text)
    (hplain : Plain (kindOf old) text) : ∃ v, old.set text = some v ∧ Same text v := by
  cases old with
  | bool b =>
    obtain ⟨b, hb⟩ := Option.isSome_iff_exists.mp (Except.ok.inj hvalid)
    exact ⟨.bool b, congrArg (Option.map Value.bool) ((goflag_parseBool text).trans hb), hb⟩
  | string s => exact ⟨.string text, rfl, rfl⟩
  | int i =>
    obtain ⟨n, hn⟩ := Option.isSome_iff_exists.mp (Except.ok.inj hvalid)
    exact ⟨.int n.toInt, congrArg (Option.map Value.int) (same_of_parseInt hn hplain), n, hn, rfl⟩
  | duration ns =>
    obtain ⟨d, hd⟩ := exists_parseDuration hvalid
    exact ⟨.duration d, congrArg (Option.map Value.duration) (same_of_parseDuration hd hplain), d, hd, rfl⟩

/-! ### What each program is given -/

theorem word_inj {name name' : Text} {value value' : Option Text} (hname : Name name)
    (hname' : Name name') (h : name ++ value.elim [] ('=' :: ·) = name' ++ value'.elim [] ('=' :: ·)) :
    name = name' := by
  rw [← (Lib.Goflag.takeWhile_name hname value).1, h, (Lib.Goflag.takeWhile_name hname' value').1]

def serverNames : List Text := ["b".toList, "m".toList, "streams".toList, "idle".toList]

theorem name_of_mem_serverNames : ∀ name ∈ serverNames, Name name := by decide

/-- The pattern of the driver is that of an item with a value for a server's flag. -/
theorem forwarded_word {item : Text × Option Text} (hname : Name item.1) :
    forwarded (word item) = (serverNames.contains item.1 && item.2.isSome) := by
  obtain ⟨name, value⟩ := item
  have hpattern : forwarded (word (name, value)) =
      serverNames.any (fun n => (word (n, some [])).isPrefixOf (word (name, value))) := rfl
  have hiff : ∀ n ∈ serverNames, (word (n, some [])).isPrefixOf (word (name, value)) ↔
      n = name ∧ value.isSome := by
    intro n hn
    have hn' := name_of_mem_serverNames n hn
    rw [List.isPrefixOf_iff_prefix]
    constructor
    · rintro ⟨rest, hrest⟩
      have heq : n ++ (some rest).elim [] ('=' :: ·) = name ++ value.elim [] ('=' :: ·) := by
        simpa [word] using hrest
      obtain rfl := word_inj hn' hname heq
      refine ⟨rfl, ?_⟩
      cases value with
      | none => simp at heq
      | some value => rfl
    · rintro ⟨rfl, hsome⟩
      obtain ⟨value, rfl⟩ := Option.isSome_iff_exists.mp hsome
      exact ⟨value, by simp [word]⟩
  rw [hpattern, Bool.eq_iff_iff, List.any_eq_true, Bool.and_eq_true, List.contains_iff_mem]
  constructor
  · rintro ⟨n, hn, hprefix⟩
    obtain ⟨rfl, hsome⟩ := (hiff n hn).mp hprefix
    exact ⟨hn, hsome⟩
  · rintro ⟨hn, hsome⟩
    exact ⟨name, hn, (hiff name hn).mpr ⟨rfl, hsome⟩⟩

/-- `ownFlags` goes by the names of the items. -/
def own (item : Text × Option Text) : Bool :=
  (reportFlags item.1).isSome || item.1 = ['h'] || item.1 = "help".toList

theorem ownFlags_words (items : List (Text × Option Text)) (hname : ∀ item ∈ items, Name item.1) :
    ownFlags (items.map word) = (items.filter own).map word := by
  unfold ownFlags
  rw [List.filter_map]
  congr 1
  apply List.filter_congr
  intro item hitem
  obtain ⟨name, value⟩ := item
  have hname := hname _ hitem
  have hbody : (name ++ value.elim [] ('=' :: ·)).head? ≠ some '-' := by
    rw [List.head?_append_of_ne_nil _ hname.ne_nil]
    exact hname.dash
  have hdrop : (word (name, value)).dropWhile (· = '-') = name ++ value.elim [] ('=' :: ·) :=
    dropWhile_dashes 1 hbody
  have hne : name ++ value.elim [] ('=' :: ·) ≠ word (name, value) := by
    intro heq
    exact absurd (congrArg List.length heq) (by simp [word])
  simp only [Function.comp_apply, hdrop, (Lib.Goflag.takeWhile_name hname value).1, own]
  simp [hne]

/-! ### The last value wins -/

theorem fresh_define (flags : List (Text × Kind × Text))
    (h : ∀ flag ∈ flags, (flag.1 ≠ [] ∧ flag.1.head? ≠ some '-' ∧ '=' ∉ flag.1 ∧ flag.1 ≠ ['h'] ∧
      flag.1 ≠ "help".toList) ∧ Valid flag.2.1 flag.2.2) : Fresh (define flags) := by
  suffices hfold : ∀ f : FlagSet, Fresh f →
      Fresh (flags.foldl (fun f flag => f.add flag.1 flag.2.1 flag.2.2) f) from hfold _ fresh_new
  induction flags with
  | nil => exact fun f hf => hf
  | cons flag rest ih =>
    intro f hf
    obtain ⟨hname, hvalid⟩ := h flag List.mem_cons_self
    exact ih (fun flag hflag => h flag (List.mem_cons_of_mem _ hflag)) _ (hf.add hname hvalid)

theorem fresh_client : Fresh (define clientFlags) := fresh_define _ (by decide +kernel)

theorem fresh_quiche : Fresh (define quicheFlags) := fresh_define _ (by decide +kernel)

/-- The last item for a flag. -/
def lastOf (items : List (Text × Option Text)) (name : Text) : Option (Text × Option Text) :=
  (items.filter (·.1 = name)).getLast?

theorem lastOf_eq_none_iff {items : List (Text × Option Text)} {name : Text} :
    lastOf items name = none ↔ name ∉ items.map Prod.fst := by
  rw [lastOf, List.getLast?_eq_none_iff, List.filter_eq_nil_iff, List.mem_map]
  constructor
  · rintro h ⟨item, hitem, heq⟩
    exact h item hitem (decide_eq_true heq)
  · intro h item hitem heq
    exact h ⟨item, hitem, of_decide_eq_true heq⟩

/-- Items in front do not matter to a flag that has one behind them, or none of them. -/
theorem lastOf_append {front items : List (Text × Option Text)} {name : Text}
    (h : name ∉ front.map Prod.fst ∨ name ∈ items.map Prod.fst) :
    lastOf (front ++ items) name = lastOf items name := by
  unfold lastOf
  rw [List.filter_append]
  rcases h with h | h
  · rw [List.getLast?_eq_none_iff.mp (lastOf_eq_none_iff.mpr h)]
    rfl
  · obtain ⟨item, hitem, rfl⟩ := List.mem_map.mp h
    have hne : items.filter (·.1 = item.1) ≠ [] :=
      List.ne_nil_of_mem (List.mem_filter.mpr ⟨hitem, decide_eq_true rfl⟩)
    rw [List.getLast?_append_of_ne_nil _ hne]

theorem lastOf_append_left {items : List (Text × Option Text)} {name : Text}
    (h : name ∉ items.map Prod.fst) (front : List (Text × Option Text)) :
    lastOf (front ++ items) name = lastOf front name := by
  unfold lastOf
  rw [List.filter_append, List.getLast?_eq_none_iff.mp (lastOf_eq_none_iff.mpr h), List.append_nil]

theorem lastOf_filter {p : Text × Option Text → Bool} {items : List (Text × Option Text)} {name : Text}
    (h : ∀ item ∈ items, item.1 = name → p item) : lastOf (items.filter p) name = lastOf items name := by
  unfold lastOf
  rw [List.filter_filter]
  congr 1
  apply List.filter_congr
  intro item hitem
  by_cases heq : item.1 = name
  · simp [heq, h item hitem heq]
  · simp [heq]

theorem mem_of_lastOf {items : List (Text × Option Text)} {name : Text} {item : Text × Option Text}
    (h : lastOf items name = some item) : item ∈ items ∧ item.1 = name := by
  obtain ⟨hmem, hname⟩ := List.mem_filter.mp (List.mem_of_getLast? h)
  exact ⟨hmem, of_decide_eq_true hname⟩

/-- The text of a flag after its items were stored. -/
theorem raw_setAll {f : FlagSet} (hf : Fresh f) {name : Text} {flag : Benchkit.Flag}
    (hflag : f name = some flag) (items : List (Text × Option Text)) :
    (f.setAll (items.map pairOf)).raw name =
      .ok (((lastOf items name).map valueOf).getD flag.default) := by
  have hlast : lastValue (items.map pairOf) name = (lastOf items name).map valueOf := by
    unfold lastValue lastOf
    rw [List.filter_map, List.getLast?_map, Option.map_map]
    rfl
  simp only [raw, setAll_apply, hflag, Option.map_some, hf.unset name flag hflag, Option.or_none, hlast]

/-- A Go program that is given items the client accepts, too, takes them, and agrees with the client on
a flag that has the same last item for both, or the same default. -/
theorem goflag_agrees {f : FlagSet} (hf : Fresh f) (all : List (Text × Option Text))
    {mine : List (Text × Option Text)} {g : Lib.Goflag.FlagSet}
    (hmine : ∀ item ∈ mine, Name item.1 ∧ ∃ old, g item.1 = some old ∧
      (item.2 = none → old.isBool) ∧ Valid (kindOf old) (valueOf item) ∧ Plain (kindOf old) (valueOf item)) :
    ∃ g', Lib.Goflag.parse (mine.map word) g = .ok g' ∧ (∀ name, g' name =
        match lastOf mine name with
        | none => g name
        | some item => (g name).bind (Value.set (valueOf item))) ∧
      ∀ name flag old, f name = some flag → g name = some old → lastOf mine name = lastOf all name →
        (lastOf all name = none → Same flag.default old) →
        Agrees (f.setAll (all.map pairOf)) g' name := by
  obtain ⟨g', hparse, hvalues⟩ := Lib.Goflag.parse_words mine (f := g) (by
    intro item hitem
    obtain ⟨hname, old, hold, hbare, hvalid, hplain⟩ := hmine item hitem
    obtain ⟨v, hv, -⟩ := same_of_valid hvalid hplain
    exact ⟨hname, old, hold, hbare, by rw [hv]; rfl⟩)
  refine ⟨g', hparse, hvalues, ?_⟩
  intro name flag old hflag hold hlast hdefault
  have hraw := raw_setAll hf hflag all
  have hvalue := hvalues name
  change g' name = (match lastOf mine name with
    | none => g name
    | some item => (g name).bind (Value.set (valueOf item))) at hvalue
  rw [hlast] at hvalue
  cases hitem : lastOf all name with
  | none =>
    rw [hitem] at hraw hvalue
    exact agrees_of_same hraw (hvalue.trans hold) (hdefault hitem)
  | some item =>
    rw [hitem] at hraw hvalue
    obtain ⟨hmem, hname⟩ := mem_of_lastOf (hlast.trans hitem)
    obtain ⟨-, old', hold', -, hvalid, hplain⟩ := hmine item hmem
    obtain rfl : old = old' := Option.some.inj (hold.symm.trans (hname ▸ hold'))
    obtain ⟨v, hv, hsame⟩ := same_of_valid hvalid hplain
    refine agrees_of_same hraw (v := v) ?_ hsame
    simp only [hvalue, hold, Option.bind_some, hv]

/-! ### The programs of a run -/

/-- How the scripts write a flag: `-name=value`, or `-name` for a bool of the client. -/
def Written (item : Text × Option Text) : Prop :=
  Name item.1 ∧ (item.2 = none → (define clientFlags).kinds item.1 = some .bool)

/-- What `script/clients.sh` puts in front. -/
def frontItems (framework host : Text) : List (Text × Option Text) :=
  [("f".toList, some framework), ("ip".toList, some host), ("rate".toList, some "true".toList)]

def frontNames : List Text := ["f".toList, "ip".toList, "rate".toList]

def sortItems (sort : Text) : List (Text × Option Text) :=
  if sort = [] then [] else [("sort".toList, some sort)]

section Run

variable {debug : Text → String} {items : List (Text × Option Text)} {framework host : Text} {f : FlagSet}

theorem client_takes (hwritten : ∀ item ∈ items, Written item)
    (h : parse debug (clientArgs framework host (items.map word)) (define clientFlags) = .ok (.ok (), f)) :
    (∀ item ∈ items, Takes (define clientFlags) item) ∧
      f = (define clientFlags).setAll ((frontItems framework host ++ items).map pairOf) := by
  have hargs : clientArgs framework host (items.map word) =
      (frontItems framework host ++ items).map word := rfl
  rw [hargs] at h
  have hname : ∀ item ∈ frontItems framework host ++ items, Written item := by
    intro item hitem
    rcases List.mem_append.mp hitem with hitem | hitem
    · simp only [frontItems, List.mem_cons, List.not_mem_nil, or_false] at hitem
      rcases hitem with rfl | rfl | rfl
      · exact ⟨(by decide : Name "f".toList), fun hnone => by cases hnone⟩
      · exact ⟨(by decide : Name "ip".toList), fun hnone => by cases hnone⟩
      · exact ⟨(by decide : Name "rate".toList), fun hnone => by cases hnone⟩
    · exact hwritten item hitem
  obtain ⟨htakes, hf⟩ := parse_words_ok _ fresh_client.named hname h
  exact ⟨fun item hitem => htakes item (List.mem_append_right _ hitem), hf⟩

theorem mem_of_lookup {α β : Type} [BEq α] [LawfulBEq α] {l : List (α × β)} {a : α} {b : β}
    (h : l.lookup a = some b) : (a, b) ∈ l := by
  obtain ⟨l₁, l₂, rfl, -⟩ := List.lookup_eq_some_iff.mp h
  simp

/-- A flag the report step shares with the client has the same kind for both, and for all but `-r` and
`-sort` the same default. -/
theorem kinds_report : ∀ flag ∈ reportTable, (define clientFlags).kinds flag.1 = some (kindOf flag.2) := by
  intro flag hflag
  simp only [reportTable, List.mem_cons, List.not_mem_nil, or_false] at hflag
  rcases hflag with rfl | rfl | rfl | rfl | rfl <;> rfl

theorem kinds_goServer : ∀ fib, ∀ flag ∈ goServerTable fib, flag.1 ∈ serverNames →
    (define clientFlags).kinds flag.1 = some (kindOf flag.2) := by
  intro fib flag hflag hserver
  simp only [goServerTable, List.cons_append, List.nil_append, List.mem_cons] at hflag
  rcases hflag with rfl | rfl | rfl | rfl | hfib
  iterate 4 rfl
  cases fib with
  | false => cases hfib
  | true =>
    obtain rfl := List.mem_singleton.mp hfib
    exact absurd hserver (by decide)

theorem kindOf_report : ∀ flag ∈ reportTable, kindOf flag.2 = .bool ∨ kindOf flag.2 = .str := by
  decide

theorem isBool_of_kindOf {v : Value} (h : kindOf v = .bool) : v.isBool := by
  cases v <;> first | rfl | cases h

/-- What a Go program needs to know of an item, when it has a flag of the client. -/
theorem fits_of_takes {item : Text × Option Text} {old : Value} (htakes : Takes (define clientFlags) item)
    (hkind : (define clientFlags).kinds item.1 = some (kindOf old)) :
    (item.2 = none → old.isBool) ∧ Valid (kindOf old) (valueOf item) := by
  obtain ⟨kind, hkind', hbare, hvalid⟩ := htakes
  obtain rfl : kindOf old = kind := Option.some.inj (hkind.symm.trans hkind')
  exact ⟨fun hnone => isBool_of_kindOf (hbare hnone), hvalid⟩

theorem report_agrees (hwritten : ∀ item ∈ items, Written item)
    (htakes : ∀ item ∈ items, Takes (define clientFlags) item)
    (hf : f = (define clientFlags).setAll ((frontItems framework host ++ items).map pairOf)) (sort : Text) :
    ∃ g, Lib.Goflag.parse (ownFlags (reportArgs sort (items.map word))) reportFlags = .ok g ∧
      (∀ name ∈ ["preffix".toList, "suffix".toList, "tpn".toList], Agrees f g name) ∧
      ("sort".toList ∈ items.map Prod.fst → Agrees f g "sort".toList) ∧
      ("sort".toList ∉ items.map Prod.fst → g "sort".toList =
        some (.string (if sort = [] then "result".toList else sort))) := by
  have hargs : reportArgs sort (items.map word) = (sortItems sort ++ items).map word := by
    unfold reportArgs sortItems
    split <;> rfl
  have hsort : ∀ item ∈ sortItems sort, item = ("sort".toList, some sort) := by
    intro item hitem
    unfold sortItems at hitem
    split at hitem
    · cases hitem
    · exact List.mem_singleton.mp hitem
  have hname : ∀ item ∈ sortItems sort ++ items, Name item.1 := by
    intro item hitem
    rcases List.mem_append.mp hitem with hitem | hitem
    · rw [hsort item hitem]
      exact (by decide : Name "sort".toList)
    · exact (hwritten item hitem).1
  have hmine : ∀ item ∈ (sortItems sort ++ items).filter own, Name item.1 ∧ ∃ old,
      reportFlags item.1 = some old ∧ (item.2 = none → old.isBool) ∧
        Valid (kindOf old) (valueOf item) ∧ Plain (kindOf old) (valueOf item) := by
    intro item hitem
    obtain ⟨hitem, hown⟩ := List.mem_filter.mp hitem
    refine ⟨hname item hitem, ?_⟩
    rcases List.mem_append.mp hitem with hitem | hitem
    · rw [hsort item hitem]
      have hold : reportFlags "sort".toList = some (.string "result".toList) := by decide
      exact ⟨_, hold, (fun hnone => by cases hnone), rfl, trivial⟩
    · obtain ⟨kind, hkind, -⟩ := htakes item hitem
      obtain ⟨-, -, -, hh, hhelp⟩ := fresh_client.named item.1 (by rw [← isSome_kinds, hkind]; rfl)
      have hsome : (reportFlags item.1).isSome := by
        simp only [own, Bool.or_eq_true, decide_eq_true_eq] at hown
        exact (hown.resolve_right hhelp).resolve_right hh
      obtain ⟨old, hold⟩ := Option.isSome_iff_exists.mp hsome
      have hmem := mem_of_lookup hold
      obtain ⟨hbare, hvalid⟩ := fits_of_takes (htakes item hitem) (kinds_report _ hmem)
      refine ⟨old, hold, hbare, hvalid, ?_⟩
      rcases kindOf_report _ hmem with hkind | hkind
      · rw [hkind]
        trivial
      · rw [hkind]
        trivial
  obtain ⟨g, hg, hvalues, hagrees⟩ := goflag_agrees fresh_client (frontItems framework host ++ items) hmine
  have hlast : ∀ name, (reportFlags name).isSome →
      lastOf ((sortItems sort ++ items).filter own) name = lastOf (sortItems sort ++ items) name := by
    intro name hsome
    apply lastOf_filter
    rintro item - rfl
    simp [own, hsome]
  have hnames : ∀ name ∈ (sortItems sort).map Prod.fst, name = "sort".toList := by
    intro name hmem
    obtain ⟨item, hitem, rfl⟩ := List.mem_map.mp hmem
    rw [hsort item hitem]
  have hboth : ∀ name old, reportFlags name = some old →
      name ∉ frontNames → name ≠ "sort".toList ∨ name ∈ items.map Prod.fst →
      lastOf ((sortItems sort ++ items).filter own) name = lastOf (frontItems framework host ++ items) name := by
    intro name old hold hfront hitems
    have hall : lastOf (frontItems framework host ++ items) name = lastOf items name :=
      lastOf_append (.inl hfront)
    rw [hlast name (by rw [hold]; rfl), hall]
    exact lastOf_append (hitems.imp (fun hne hmem => hne (hnames name hmem)) id)
  refine ⟨g, ?_, ?_, ?_, ?_⟩
  · rw [hargs, ownFlags_words _ hname]
    exact hg
  · intro name hmem
    subst hf
    simp only [List.mem_cons, List.not_mem_nil, or_false] at hmem
    rcases hmem with rfl | rfl | rfl
    · exact hagrees _ ⟨.str, [], none⟩ (.string []) rfl rfl (hboth _ _ rfl (by decide) (.inl (by decide)))
        (fun _ => rfl)
    · exact hagrees _ ⟨.str, [], none⟩ (.string []) rfl rfl (hboth _ _ rfl (by decide) (.inl (by decide)))
        (fun _ => rfl)
    · exact hagrees _ ⟨.bool, "true".toList, none⟩ (.bool true) rfl rfl
        (hboth _ _ rfl (by decide) (.inl (by decide))) (fun _ => rfl)
  · intro hmem
    subst hf
    refine hagrees _ ⟨.str, "result".toList, none⟩ (.string "result".toList) rfl rfl
      (hboth _ _ rfl (by decide) (.inr hmem)) (fun _ => rfl)
  · intro hnot
    rw [hvalues, hlast _ (by decide), lastOf_append_left hnot]
    by_cases hempty : sort = []
    · rw [sortItems, if_pos hempty, if_pos hempty]
      rfl
    · rw [sortItems, if_neg hempty, if_neg hempty]
      rfl

/-- What the driver forwards. -/
def isServer (item : Text × Option Text) : Bool := serverNames.contains item.1 && item.2.isSome

theorem kinds_server : ∀ name ∈ serverNames, (define clientFlags).kinds name = some .int ∨
    (define clientFlags).kinds name = some .duration := by
  intro name hname
  simp only [serverNames, List.mem_cons, List.not_mem_nil, or_false] at hname
  rcases hname with rfl | rfl | rfl | rfl
  iterate 3 exact .inl rfl
  exact .inr rfl

theorem kinds_quiche : ∀ name ∈ serverNames,
    (define quicheFlags).kinds name = (define clientFlags).kinds name := by
  intro name hname
  simp only [serverNames, List.mem_cons, List.not_mem_nil, or_false] at hname
  rcases hname with rfl | rfl | rfl | rfl
  iterate 3 exact Eq.trans (b := some .int) rfl rfl
  exact Eq.trans (b := some .duration) rfl rfl

/-- The flags of the servers take a value, so the driver forwards every item for one. -/
theorem isServer_of_takes {item : Text × Option Text} (htakes : Takes (define clientFlags) item)
    (hmem : item.1 ∈ serverNames) : isServer item := by
  obtain ⟨kind, hkind, hbare, -⟩ := htakes
  rw [isServer, List.contains_iff_mem.mpr hmem, Bool.true_and]
  cases hvalue : item.2 with
  | some value => rfl
  | none =>
    rw [hbare hvalue] at hkind
    rcases kinds_server _ hmem with h | h <;> rw [hkind] at h <;> cases h

theorem tame_word {item : Text × Option Text} (htakes : Takes (define clientFlags) item)
    (hserver : isServer item) : ∀ c ∈ word item, tame c := by
  obtain ⟨name, value⟩ := item
  obtain ⟨hmem, hsome⟩ := Bool.and_eq_true_iff.mp hserver
  obtain ⟨value, rfl⟩ := Option.isSome_iff_exists.mp hsome
  have hnames : ∀ n ∈ serverNames, ('-' :: n ++ ['=']).all tame := by decide
  obtain ⟨kind, hkind, -, hvalid⟩ := htakes
  have hvalue : ∀ c ∈ value, tame c := by
    apply tame_of_valid hvalid
    rcases kinds_server name (List.contains_iff_mem.mp hmem) with h | h
    · exact .inl (Option.some.inj (hkind.symm.trans h))
    · exact .inr (Option.some.inj (hkind.symm.trans h))
  intro c hc
  have hsplit : word (name, some value) = ('-' :: name ++ ['=']) ++ value := by simp [word]
  rw [hsplit] at hc
  rcases List.mem_append.mp hc with hc | hc
  · exact List.all_eq_true.mp (hnames name (List.contains_iff_mem.mp hmem)) c hc
  · exact hvalue c hc

theorem serverArgs_words {expand : Text → List Text} (hexpand : ∀ w, (∀ c ∈ w, tame c) → expand w = [w])
    (hwritten : ∀ item ∈ items, Written item) (htakes : ∀ item ∈ items, Takes (define clientFlags) item) :
    serverArgs expand (items.map word) = (items.filter isServer).map word := by
  have hfilter : (items.map word).filter forwarded = (items.filter isServer).map word := by
    rw [List.filter_map]
    congr 1
    apply List.filter_congr
    intro item hitem
    exact forwarded_word (hwritten item hitem).1
  rw [serverArgs_eq hexpand, hfilter]
  intro arg harg hforwarded
  obtain ⟨item, hitem, rfl⟩ := List.mem_map.mp harg
  rw [forwarded_word (hwritten item hitem).1] at hforwarded
  exact tame_word (htakes item hitem) hforwarded

/-- The items for a flag of the servers are the same for the client and for a server. -/
theorem lastOf_server (framework host : Text)
    (htakes : ∀ item ∈ items, Takes (define clientFlags) item) {name : Text} (hname : name ∈ serverNames) :
    lastOf (items.filter isServer) name = lastOf (frontItems framework host ++ items) name := by
  have hfront : ∀ n ∈ serverNames, n ∉ frontNames := by decide
  have hall : lastOf (frontItems framework host ++ items) name = lastOf items name :=
    lastOf_append (.inl (hfront name hname))
  rw [hall]
  apply lastOf_filter
  rintro item hitem rfl
  exact isServer_of_takes (htakes item hitem) hname

theorem quiche_agrees (htakes : ∀ item ∈ items, Takes (define clientFlags) item)
    (hf : f = (define clientFlags).setAll ((frontItems framework host ++ items).map pairOf)) :
    ∃ q, parse debug ((items.filter isServer).map word) (define quicheFlags) = .ok (.ok (), q) ∧
      ∀ name ∈ serverNames, (name = "m".toList → name ∈ items.map Prod.fst) → q.raw name = f.raw name := by
  have hserver : ∀ item ∈ items.filter isServer, Takes (define quicheFlags) item := by
    intro item hitem
    obtain ⟨hitem, hserver⟩ := List.mem_filter.mp hitem
    obtain ⟨kind, hkind, hrest⟩ := htakes item hitem
    refine ⟨kind, ?_, hrest⟩
    rw [kinds_quiche _ (List.contains_iff_mem.mp (Bool.and_eq_true_iff.mp hserver).1)]
    exact hkind
  refine ⟨_, parse_words _ fresh_quiche.named hserver, ?_⟩
  intro name hname hm
  subst hf
  have hlast := lastOf_server framework host htakes hname
  -- the two defaults of a flag are the same, or it is given
  have key : ∀ flag flag' : Benchkit.Flag, define quicheFlags name = some flag →
      define clientFlags name = some flag' → (flag.default = flag'.default ∨ name ∈ items.map Prod.fst) →
      ((define quicheFlags).setAll ((items.filter isServer).map pairOf)).raw name =
        ((define clientFlags).setAll ((frontItems framework host ++ items).map pairOf)).raw name := by
    intro flag flag' hflag hflag' hdefault
    rw [raw_setAll fresh_quiche hflag, raw_setAll fresh_client hflag', hlast]
    rcases hdefault with heq | hmem
    · rw [heq]
    · cases hitem : lastOf (frontItems framework host ++ items) name with
      | some item => rfl
      | none =>
        rw [lastOf_eq_none_iff, List.map_append] at hitem
        exact absurd (List.mem_append_right _ hmem) hitem
  simp only [serverNames, List.mem_cons, List.not_mem_nil, or_false] at hname
  rcases hname with rfl | rfl | rfl | rfl
  · exact key ⟨.int, "1024".toList, none⟩ ⟨.int, "1024".toList, none⟩ rfl rfl (.inl rfl)
  · exact key ⟨.int, "2147483648".toList, none⟩ ⟨.int, "4294967296".toList, none⟩ rfl rfl (.inr (hm rfl))
  · exact key ⟨.int, "100".toList, none⟩ ⟨.int, "100".toList, none⟩ rfl rfl (.inl rfl)
  · exact key ⟨.duration, "120s".toList, none⟩ ⟨.duration, "120s".toList, none⟩ rfl rfl (.inl rfl)

/-- What `script/server.sh` puts in front for fib. -/
def fibItems (value : Text) (fib : Bool) : List (Text × Option Text) :=
  if fib then [("socketsyscalls".toList, some value)] else []

theorem goServer_agrees (hwritten : ∀ item ∈ items, Written item)
    (htakes : ∀ item ∈ items, Takes (define clientFlags) item)
    (hplain : ∀ item ∈ items, item.1 ∈ serverNames → ∀ kind,
      (define clientFlags).kinds item.1 = some kind → Plain kind (valueOf item))
    (hf : f = (define clientFlags).setAll ((frontItems framework host ++ items).map pairOf))
    {value : Text} (hvalue : value ∈ ["true".toList, "false".toList]) (fib : Bool) :
    ∃ g, Lib.Goflag.parse (fibArgs value fib ((items.filter isServer).map word)) (goServerFlags fib) = .ok g ∧
      (∀ name ∈ serverNames, (name = "m".toList → name ∈ items.map Prod.fst) → Agrees f g name) ∧
      (fib → g "socketsyscalls".toList = some (.bool (value = "true".toList))) := by
  have hargs : fibArgs value fib ((items.filter isServer).map word) =
      (fibItems value fib ++ items.filter isServer).map word := by
    cases fib <;> rfl
  have hfib : ∀ item ∈ fibItems value fib, item = ("socketsyscalls".toList, some value) ∧ fib := by
    intro item hitem
    cases fib with
    | false => cases hitem
    | true => exact ⟨List.mem_singleton.mp hitem, rfl⟩
  have htable : ∀ name ∈ serverNames, ∃ old, goServerFlags fib name = some old := by
    intro name hname
    simp only [serverNames, List.mem_cons, List.not_mem_nil, or_false] at hname
    rcases hname with rfl | rfl | rfl | rfl <;> exact ⟨_, rfl⟩
  have hmine : ∀ item ∈ fibItems value fib ++ items.filter isServer, Name item.1 ∧ ∃ old,
      goServerFlags fib item.1 = some old ∧ (item.2 = none → old.isBool) ∧
        Valid (kindOf old) (valueOf item) ∧ Plain (kindOf old) (valueOf item) := by
    intro item hitem
    rcases List.mem_append.mp hitem with hitem | hitem
    · obtain ⟨rfl, rfl⟩ := hfib item hitem
      have hvalid : ∀ v ∈ ["true".toList, "false".toList], Valid .bool v := by decide
      exact ⟨(by decide : Name "socketsyscalls".toList), .bool true, rfl, (fun hnone => by cases hnone),
        hvalid value hvalue, trivial⟩
    · obtain ⟨hitem, hserver⟩ := List.mem_filter.mp hitem
      have hname := List.contains_iff_mem.mp (Bool.and_eq_true_iff.mp hserver).1
      obtain ⟨old, hold⟩ := htable _ hname
      have hkind := kinds_goServer fib _ (mem_of_lookup hold) hname
      obtain ⟨hbare, hvalid⟩ := fits_of_takes (htakes item hitem) hkind
      exact ⟨(hwritten item hitem).1, old, hold, hbare, hvalid, hplain item hitem hname _ hkind⟩
  obtain ⟨g, hg, hvalues, hagrees⟩ := goflag_agrees fresh_client (frontItems framework host ++ items) hmine
  refine ⟨g, hargs ▸ hg, ?_, ?_⟩
  · intro name hname hm
    subst hf
    have hfibNames : name ∉ (fibItems value fib).map Prod.fst := by
      intro hmem
      obtain ⟨item, hitem, rfl⟩ := List.mem_map.mp hmem
      rw [(hfib item hitem).1] at hname
      exact absurd hname (by decide : "socketsyscalls".toList ∉ serverNames)
    have hlast : lastOf (fibItems value fib ++ items.filter isServer) name =
        lastOf (frontItems framework host ++ items) name :=
      (lastOf_append (.inl hfibNames)).trans (lastOf_server framework host htakes hname)
    have hgiven : name ∈ items.map Prod.fst → lastOf (frontItems framework host ++ items) name ≠ none := by
      intro hmem hnone
      rw [lastOf_eq_none_iff, List.map_append] at hnone
      exact hnone (List.mem_append_right _ hmem)
    simp only [serverNames, List.mem_cons, List.not_mem_nil, or_false] at hname
    rcases hname with rfl | rfl | rfl | rfl
    · refine hagrees _ ⟨.int, "1024".toList, none⟩ (.int 1024) rfl rfl hlast (fun _ => ?_)
      exact ⟨1024, rfl, by decide⟩
    · exact hagrees _ ⟨.int, "4294967296".toList, none⟩ (.int (1024 * 1024 * 1024 * 2)) rfl rfl hlast
        (fun hnone => absurd hnone (hgiven (hm rfl)))
    · refine hagrees _ ⟨.int, "100".toList, none⟩ (.int 100) rfl rfl hlast (fun _ => ?_)
      exact ⟨100, rfl, by decide⟩
    · refine hagrees _ ⟨.duration, "120s".toList, none⟩ (.duration (120 * 10 ^ 9)) rfl rfl hlast (fun _ => ?_)
      exact ⟨120 * 10 ^ 9, by decide +kernel, by decide⟩
  · rintro rfl
    have hnone : "socketsyscalls".toList ∉ (items.filter isServer).map Prod.fst := by
      intro hmem
      obtain ⟨item, hitem, heq⟩ := List.mem_map.mp hmem
      have hname := List.contains_iff_mem.mp (Bool.and_eq_true_iff.mp (List.mem_filter.mp hitem).2).1
      rw [heq] at hname
      exact absurd hname (by decide)
    rw [hvalues, lastOf_append_left hnone]
    simp only [List.mem_cons, List.not_mem_nil, or_false] at hvalue
    rcases hvalue with rfl | rfl <;> rfl

end Run

def smallGiven : List Text := ["-b=512".toList, "-socketsyscalls=false".toList, "-check".toList,
  "-idle=30s".toList, "-preffix=x_".toList]

def smallItems : List (Text × Option Text) := [
  ("b".toList, some "512".toList), ("check".toList, none), ("idle".toList, some "30s".toList),
  ("preffix".toList, some "x_".toList)]

theorem takes_small : ∀ item ∈ frontItems "quiche".toList "::1".toList ++ smallItems,
    Takes (define clientFlags) item := by
  intro item hitem
  simp only [frontItems, smallItems, List.cons_append, List.nil_append, List.mem_cons, List.not_mem_nil,
    or_false] at hitem
  rcases hitem with rfl | rfl | rfl | rfl | rfl | rfl | rfl
  · exact ⟨.str, rfl, by decide, rfl⟩
  · exact ⟨.str, rfl, by decide, rfl⟩
  · exact ⟨.bool, rfl, by decide, rfl⟩
  · exact ⟨.int, rfl, by decide, rfl⟩
  · exact ⟨.bool, rfl, by decide, rfl⟩
  · exact ⟨.duration, rfl, by decide, by decide +kernel⟩
  · exact ⟨.str, rfl, by decide, rfl⟩

theorem plain_small : ∀ item ∈ smallItems, item.1 ∈ serverNames → ∀ kind,
    (define clientFlags).kinds item.1 = some kind → Plain kind (valueOf item) := by
  have hseconds : Benchkit.scale "s".toList = some 1 := rfl
  have hdigits : ∀ c ∈ "30".toList, c.isDigit := List.all_eq_true.mp rfl
  have hidle : Benchkit.Pairs "30s".toList [(30, 1)] :=
    .cons (.whole hdigits (by decide)) hseconds .nil
  intro item hitem hname kind hkind
  simp only [smallItems, List.mem_cons, List.not_mem_nil, or_false] at hitem
  rcases hitem with rfl | rfl | rfl | rfl
  · obtain rfl : Kind.int = kind := Option.some.inj hkind
    exact .inr (by decide)
  · exact absurd hname (by decide)
  · obtain rfl : Kind.duration = kind := Option.some.inj hkind
    refine ⟨by decide, fun pairs hpairs => ?_⟩
    rw [← hidle.unique hpairs]
    exact ⟨by decide, by norm_num [Benchkit.total]⟩
  · exact absurd hname (by decide)

end Http3Bench.Script
