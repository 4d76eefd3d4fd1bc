import Http3Bench.Benchkit.Duration

/-!
# A command line read the way Go's flag package reads one

`FlagSet` of `benchkit/src/flags.rs`. The map of flags is the function it looks names up with, and
`debug` stands for how `{:?}` shows a text in an error.
-/

namespace Http3Bench.Benchkit

open Http3Bench.Text

inductive Kind
  | bool
  | int
  | str
  | duration
  deriving DecidableEq

structure Flag where
  kind : Kind
  default : Str
  value : Option Str
  deriving DecidableEq

def parseBool (v : Str) : Option Bool :=
  if v ∈ [['1'], ['t'], ['T'], "true".toList, "TRUE".toList, "True".toList] then some true
  else if v ∈ [['0'], ['f'], ['F'], "false".toList, "FALSE".toList, "False".toList] then some false
  else none

/-- `str::parse` to an `i64`. -/
def parseInt : Str → Option Int64
  | '-' :: digits =>
    if digits ≠ [] ∧ digits.all Char.isDigit ∧ Nat.ofDigitChars 10 digits 0 ≤ 2 ^ 63 then
      some (Int64.ofInt (-(Nat.ofDigitChars 10 digits 0 : ℤ)))
    else none
  | s => (parseUnsigned (2 ^ 63 - 1) s).map (fun n => Int64.ofInt n)

/-- Whether `check` finds a value to be one of its kind. -/
def validFor (kind : Kind) (value : Str) : Except Panic Bool :=
  match kind with
  | .bool => .ok (parseBool value).isSome
  | .int => .ok (parseInt value).isSome
  | .str => .ok true
  | .duration => (parseDuration value).map Option.isSome

def FlagSet := Str → Option Flag

namespace FlagSet

def new : FlagSet := fun _ => none

def add (f : FlagSet) (name : Str) (kind : Kind) (default : Str) : FlagSet :=
  fun n => if n = name then some ⟨kind, default, none⟩ else f n

/-- `flag.value = Some(value)` for the flag `name`. -/
def set (f : FlagSet) (name value : Str) : FlagSet :=
  fun n => if n = name then (f n).map (fun flag => { flag with value := some value }) else f n

def kinds (f : FlagSet) (name : Str) : Option Kind := (f name).map Flag.kind

section Parse

variable (debug : Str → String)

def check (name : Str) (kind : Kind) (value : Str) : Except Panic (Except String Unit) :=
  (validFor kind value).map (fun ok =>
    if ok then .ok ()
    else .error ("invalid value " ++ debug value ++ " for flag -" ++ String.ofList name))

/-- `parse`, with the flags as they are when it returns; an error is the message to print before
the usage. -/
def parse : List Str → FlagSet → Except Panic (Except String Unit × FlagSet)
  | [], f => .ok (.ok (), f)
  | arg :: rest, f =>
    if arg.head? ≠ some '-' ∨ arg = ['-'] then
      .ok (.error ("unexpected argument " ++ debug arg), f)
    else
      let body := arg.dropWhile (· == '-')
      if body = [] then
        -- two or more dashes end the flags
        match rest with
        | [] => .ok (.ok (), f)
        | next :: _ => .ok (.error ("unexpected argument " ++ debug next), f)
      else
        let name := ((splitOnce '=' body).map Prod.fst).getD body
        if name = ['h'] ∨ name = "help".toList then .ok (.error "", f)
        else match f name with
          | none => .ok (.error ("flag provided but not defined: -" ++ String.ofList name), f)
          | some flag => match (splitOnce '=' body).map Prod.snd, flag.kind, rest with
            | some value, kind, rest => do
              match ← check debug name kind value with
              | .ok () => parse rest (f.set name value)
              | .error e => .ok (.error e, f)
            | none, .bool, rest => do
              match ← check debug name .bool "true".toList with
              | .ok () => parse rest (f.set name "true".toList)
              | .error e => .ok (.error e, f)
            | none, _, [] =>
              .ok (.error ("flag needs an argument: -" ++ String.ofList name), f)
            | none, kind, value :: rest => do
              match ← check debug name kind value with
              | .ok () => parse rest (f.set name value)
              | .error e => .ok (.error e, f)

end Parse

def raw (f : FlagSet) (name : Str) : Except Panic Str :=
  match f name with
  | none => .error (.undefined name)
  | some flag => .ok (flag.value.getD flag.default)

def getBool (f : FlagSet) (name : Str) : Except Panic Bool :=
  (f.raw name).map (fun v => (parseBool v).getD false)

def getInt (f : FlagSet) (name : Str) : Except Panic Int64 :=
  (f.raw name).map (fun v => (parseInt v).getD 0)

def getStr (f : FlagSet) (name : Str) : Except Panic Str := f.raw name

def getDuration (f : FlagSet) (name : Str) : Except Panic ℕ := do
  let v ← f.raw name
  return (← parseDuration v).getD 0

/-- A value that `check` lets pass. -/
def Valid (kind : Kind) (value : Str) : Prop := validFor kind value = .ok true

instance (kind : Kind) (value : Str) : Decidable (Valid kind value) :=
  inferInstanceAs (Decidable (_ = _))

/-- One item at the front of the arguments: the flag it is for, its value, and what is left. -/
inductive Item (kinds : Str → Option Kind) : List Str → Str → Str → List Str → Prop
  | assign {name value : Str} {kind : Kind} {rest : List Str} (k : ℕ) : kinds name = some kind →
      Valid kind value →
      Item kinds ((List.replicate (k + 1) '-' ++ (name ++ '=' :: value)) :: rest) name value rest
  | bare {name : Str} {rest : List Str} (k : ℕ) : kinds name = some .bool →
      Item kinds ((List.replicate (k + 1) '-' ++ name) :: rest) name "true".toList rest
  | next {name value : Str} {kind : Kind} {rest : List Str} (k : ℕ) : kinds name = some kind →
      kind ≠ .bool → Valid kind value →
      Item kinds ((List.replicate (k + 1) '-' ++ name) :: value :: rest) name value rest

/-- A sequence of items, with a final argument of two or more dashes or without. -/
inductive Items (kinds : Str → Option Kind) : List Str → List (Str × Str) → Prop
  | nil : Items kinds [] []
  | dashes (k : ℕ) : Items kinds [List.replicate (k + 2) '-'] []
  | cons {args rest : List Str} {name value : Str} {items : List (Str × Str)} :
      Item kinds args name value rest → Items kinds rest items →
      Items kinds args ((name, value) :: items)

/-- The names flags are defined with. -/
def Named (f : FlagSet) : Prop :=
  ∀ name, (f name).isSome → name ≠ [] ∧ name.head? ≠ some '-' ∧ '=' ∉ name ∧ name ≠ ['h'] ∧
    name ≠ "help".toList

section Steps

variable {debug : Str → String} {f : FlagSet} {name value : Str} {rest : List Str}

@[simp] theorem kinds_set (f : FlagSet) (name value : Str) : (f.set name value).kinds = f.kinds := by
  funext n
  by_cases h : n = name
  · simp [kinds, set, h, Function.comp_def]
  · simp [kinds, set, h]

theorem isSome_kinds (f : FlagSet) (name : Str) : (f.kinds name).isSome = (f name).isSome := by
  simp [kinds]

theorem Named.set (h : Named f) (name value : Str) : Named (f.set name value) := by
  intro n hn
  rw [← isSome_kinds, kinds_set, isSome_kinds] at hn
  exact h n hn

theorem check_of_valid {kind : Kind} (h : Valid kind value) (debug : Str → String) (name : Str) :
    check debug name kind value = .ok (.ok ()) := by
  rw [check, h]
  rfl

theorem valid_of_check {kind : Kind} (h : check debug name kind value = .ok (.ok ())) :
    Valid kind value := by
  unfold check at h
  cases hv : validFor kind value with
  | error p =>
    rw [hv] at h
    cases h
  | ok ok =>
    cases ok with
    | true => exact hv
    | false =>
      rw [hv] at h
      cases h

theorem dropWhile_dashes (k : ℕ) {body : Str} (h : body.head? ≠ some '-') :
    (List.replicate k '-' ++ body).dropWhile (· == '-') = body := by
  refine (takeWhile_of_forall (p := (· == '-')) (a := List.replicate k '-') ?_ ?_).2
  · intro c hc
    simpa using List.eq_of_mem_replicate hc
  · intro c hc
    simp only [beq_eq_false_iff_ne, ne_eq]
    rintro rfl
    exact h hc

theorem splitOnce_of_not_mem {c : Char} {s : Str} (h : c ∉ s) : splitOnce c s = none := by
  have hall : s.dropWhile (· != c) = [] := by
    rw [List.dropWhile_eq_nil_iff]
    intro x hx
    simpa using fun hxc : x = c => h (hxc ▸ hx)
  rw [splitOnce, List.span_eq_takeWhile_dropWhile, hall]

theorem dashes_not_rejected (k : ℕ) {body : Str} (hne : body ≠ []) :
    ¬ ((List.replicate (k + 1) '-' ++ body).head? ≠ some '-' ∨
      List.replicate (k + 1) '-' ++ body = ['-']) := by
  cases body <;> simp_all [List.replicate_succ]

/-- An item at the front is stored, and `parse` goes on behind it. -/
theorem parse_of_item {args : List Str} (hf : Named f) (h : Item f.kinds args name value rest) :
    parse debug args f = parse debug rest (f.set name value) := by
  have hname : ∀ {kind : Kind}, f.kinds name = some kind → ∃ flag, f name = some flag ∧
      flag.kind = kind := fun hk => Option.map_eq_some_iff.mp hk
  cases h with
  | assign k hkind hvalid =>
    obtain ⟨flag, hflag, rfl⟩ := hname hkind
    obtain ⟨hne, hhead, heq, hh, hhelp⟩ := hf name (by simp [hflag])
    have hbody : (name ++ '=' :: value).head? ≠ some '-' := by
      rwa [List.head?_append_of_ne_nil _ hne]
    have hnil : name ++ '=' :: value ≠ [] := by simp
    rw [parse.eq_def]
    simp only [if_neg (dashes_not_rejected k hnil), dropWhile_dashes (k + 1) hbody, if_neg hnil,
      splitOnce_append heq, Option.map_some, Option.getD_some, hh, hhelp, or_self, if_false, hflag,
      check_of_valid hvalid]
    rfl
  | bare k hkind =>
    obtain ⟨flag, hflag, hbool⟩ := hname hkind
    obtain ⟨hne, hhead, heq, hh, hhelp⟩ := hf name (by simp [hflag])
    have hvalid : Valid .bool "true".toList := rfl
    rw [parse.eq_def]
    simp only [if_neg (dashes_not_rejected k hne), dropWhile_dashes (k + 1) hhead, if_neg hne,
      splitOnce_of_not_mem heq, Option.map_none, Option.getD_none, hh, hhelp, or_self, if_false,
      hflag, hbool, check_of_valid hvalid]
    rfl
  | next k hkind hnot hvalid =>
    obtain ⟨flag, hflag, rfl⟩ := hname hkind
    obtain ⟨hne, hhead, heq, hh, hhelp⟩ := hf name (by simp [hflag])
    rw [parse.eq_def]
    simp only [if_neg (dashes_not_rejected k hne), dropWhile_dashes (k + 1) hhead, if_neg hne,
      splitOnce_of_not_mem heq, Option.map_none, Option.getD_none, hh, hhelp, or_self, if_false,
      hflag]
    cases hkind : flag.kind with
    | bool => exact absurd hkind hnot
    | int => rw [hkind] at hvalid; simp only [check_of_valid hvalid]; rfl
    | str => rw [hkind] at hvalid; simp only [check_of_valid hvalid]; rfl
    | duration => rw [hkind] at hvalid; simp only [check_of_valid hvalid]; rfl

theorem eq_dashes_append {arg : Str} (h : arg.head? = some '-') :
    ∃ k, arg = List.replicate (k + 1) '-' ++ arg.dropWhile (· == '-') := by
  have hdashes : arg.takeWhile (· == '-') =
      List.replicate (arg.takeWhile (· == '-')).length '-' := by
    rw [List.eq_replicate_iff]
    exact ⟨rfl, fun c hc => by simpa using List.mem_takeWhile_imp hc⟩
  have hpos : (arg.takeWhile (· == '-')).length ≠ 0 := by
    cases arg with
    | nil => cases h
    | cons c arg =>
      obtain rfl : c = '-' := by simpa using h
      simp
  obtain ⟨k, hk⟩ := Nat.exists_eq_succ_of_ne_zero hpos
  refine ⟨k, ?_⟩
  conv_lhs => rw [← List.takeWhile_append_dropWhile (p := (· == '-')) (l := arg), hdashes, hk]

theorem eq_of_splitOnce {c : Char} {s a b : Str} (h : splitOnce c s = some (a, b)) :
    s = a ++ c :: b := by
  have hsplit := List.takeWhile_append_dropWhile (p := (· != c)) (l := s)
  rw [splitOnce, List.span_eq_takeWhile_dropWhile] at h
  cases hdrop : s.dropWhile (· != c) with
  | nil => simp [hdrop] at h
  | cons d t =>
    have hd : d = c := by simpa using head_dropWhile_false hdrop
    rw [hdrop] at h hsplit
    cases h
    rw [hd] at hsplit
    exact hsplit.symm

theorem parse_check_ok {kind : Kind} {f' : FlagSet}
    (h : (do
      match ← check debug name kind value with
      | .ok () => parse debug rest (f.set name value)
      | .error e => .ok (.error e, f) : Except Panic (Except String Unit × FlagSet)) =
        .ok (.ok (), f')) :
    Valid kind value ∧ parse debug rest (f.set name value) = .ok (.ok (), f') := by
  cases hcheck : check debug name kind value with
  | error p =>
    rw [hcheck] at h
    cases h
  | ok result =>
    rw [hcheck] at h
    cases result with
    | ok u => exact ⟨valid_of_check hcheck, h⟩
    | error e => cases h

/-- `parse` succeeds only if its arguments begin with an item, or are the dashes that end them. -/
theorem item_of_parse {arg : Str} {f' : FlagSet}
    (h : parse debug (arg :: rest) f = .ok (.ok (), f')) :
    (∃ k, arg = List.replicate (k + 2) '-' ∧ rest = [] ∧ f' = f) ∨
    ∃ name value rest', Item f.kinds (arg :: rest) name value rest' ∧
      parse debug rest' (f.set name value) = .ok (.ok (), f') := by
  rw [parse.eq_def] at h
  simp only at h
  by_cases hdash : arg.head? ≠ some '-' ∨ arg = ['-']
  · simp [if_pos hdash] at h
  · rw [if_neg hdash] at h
    rw [not_or, not_not] at hdash
    obtain ⟨k, hk⟩ := eq_dashes_append hdash.1
    generalize arg.dropWhile (· == '-') = body at hk h
    subst hk
    by_cases hbody : body = []
    · rw [if_pos hbody] at h
      rw [hbody, List.append_nil] at hdash ⊢
      obtain ⟨k, rfl⟩ : ∃ j, k = j + 1 :=
        Nat.exists_eq_succ_of_ne_zero (fun hk => hdash.2 (by rw [hk]; rfl))
      cases rest with
      | nil =>
        cases h
        exact .inl ⟨k, rfl, rfl, rfl⟩
      | cons next rest => cases h
    · right
      rw [if_neg hbody] at h
      have hflag : ∀ {name : Str} {flag : Flag}, f name = some flag →
          f.kinds name = some flag.kind := fun hf => by rw [kinds, hf]; rfl
      cases hsplit : splitOnce '=' body with
      | some parts =>
        obtain ⟨name, value⟩ := parts
        obtain rfl := eq_of_splitOnce hsplit
        simp only [hsplit, Option.map_some, Option.getD_some] at h
        split at h
        · cases h
        · split at h
          · cases h
          · rename_i flag hf
            obtain ⟨hvalid, hrest⟩ := parse_check_ok h
            exact ⟨name, value, rest, .assign k (hflag hf) hvalid, hrest⟩
      | none =>
        simp only [hsplit, Option.map_none, Option.getD_none] at h
        split at h
        · cases h
        · split at h
          · cases h
          · rename_i flag hf
            split at h
            · rename_i hnone
              cases hnone
            · rename_i hbool
              obtain ⟨_, hrest⟩ := parse_check_ok h
              exact ⟨body, _, _, .bare k (hbool ▸ hflag hf), hrest⟩
            · cases h
            · rename_i hbool
              obtain ⟨hvalid, hrest⟩ := parse_check_ok h
              exact ⟨body, _, _, .next k (hflag hf) hbool hvalid, hrest⟩

end Steps

/-- All items stored, in their order. -/
def setAll (f : FlagSet) (items : List (Str × Str)) : FlagSet :=
  items.foldl (fun f item => f.set item.1 item.2) f

/-- `parse` accepts the sequences of items, and stores them one by one. -/
theorem parse_ok_iff {debug : Str → String} {f f' : FlagSet} (hf : Named f) (args : List Str) :
    parse debug args f = .ok (.ok (), f') ↔ ∃ items, Items f.kinds args items ∧ f' = f.setAll items := by
  constructor
  · intro h
    induction hlen : args.length using Nat.strong_induction_on generalizing args f with
    | _ len ih =>
      cases args with
      | nil =>
        cases h
        exact ⟨[], .nil, rfl⟩
      | cons arg rest =>
        rcases item_of_parse h with ⟨k, rfl, rfl, rfl⟩ | ⟨name, value, rest', hitem, hrest⟩
        · exact ⟨[], .dashes k, rfl⟩
        · have hshort : rest'.length < len := by
            cases hitem <;> simp at hlen <;> omega
          obtain ⟨items, hitems, rfl⟩ := ih _ hshort (hf.set name value) rest' hrest rfl
          rw [kinds_set] at hitems
          exact ⟨(name, value) :: items, .cons hitem hitems, rfl⟩
  · rintro ⟨items, hitems, rfl⟩
    generalize hkinds : f.kinds = kinds at hitems
    induction hitems generalizing f with
    | nil => rfl
    | dashes k =>
      rw [parse.eq_def]
      simp [List.replicate_succ, setAll]
    | @cons args rest name value items hitem _ ih =>
      subst hkinds
      rw [parse_of_item hf hitem, ih (hf.set name value) (kinds_set f name value)]
      rfl

/-- The value of the last item for a flag. -/
def lastValue (items : List (Str × Str)) (name : Str) : Option Str :=
  (items.filter (·.1 = name)).getLast?.map Prod.snd

theorem setAll_apply (f : FlagSet) (items : List (Str × Str)) (name : Str) :
    f.setAll items name = (f name).map (fun flag =>
      { flag with value := (lastValue items name).or flag.value }) := by
  induction items using List.reverseRecOn with
  | nil => cases h : f name <;> simp [setAll, lastValue, h]
  | append_singleton items item ih =>
    rw [setAll, List.foldl_append]
    change (f.setAll items).set item.1 item.2 name = _
    by_cases h : name = item.1
    · subst h
      cases hf : f item.1 <;> simp [set, ih, lastValue, hf]
    · have hne : item.1 ≠ name := fun heq => h heq.symm
      simp [set, ih, lastValue, h, hne]

theorem Items.valid {kinds : Str → Option Kind} {args : List Str} {items : List (Str × Str)}
    (h : Items kinds args items) : ∀ item ∈ items, ∃ kind, kinds item.1 = some kind ∧
      Valid kind item.2 := by
  induction h with
  | nil => simp
  | dashes k => simp
  | cons hitem _ ih =>
    intro item hmem
    rcases List.mem_cons.mp hmem with rfl | hmem
    · cases hitem with
      | assign k hkind hvalid => exact ⟨_, hkind, hvalid⟩
      | bare k hkind => exact ⟨_, hkind, rfl⟩
      | next k hkind _ hvalid => exact ⟨_, hkind, hvalid⟩
    · exact ih item hmem

/-- A set of flags as it is defined: nothing set yet, and every default one of its kind. -/
structure Fresh (f : FlagSet) : Prop where
  named : Named f
  unset : ∀ name flag, f name = some flag → flag.value = none
  defaults : ∀ name flag, f name = some flag → Valid flag.kind flag.default

/-- What the getter for the kind of the flag `name` returns is what `text` reads as, and never what
a getter falls back to. -/
def Gets (f : FlagSet) (name : Str) (kind : Kind) (text : Str) : Prop :=
  match kind with
  | .bool => ∃ b, parseBool text = some b ∧ f.getBool name = .ok b
  | .int => ∃ n, parseInt text = some n ∧ f.getInt name = .ok n
  | .str => f.getStr name = .ok text
  | .duration => ∃ d, parseDuration text = .ok (some d) ∧ f.getDuration name = .ok d

theorem gets_of_raw {f : FlagSet} {name text : Str} {kind : Kind} (hraw : f.raw name = .ok text)
    (hvalid : Valid kind text) : f.Gets name kind text := by
  cases kind with
  | bool =>
    obtain ⟨b, hb⟩ := Option.isSome_iff_exists.mp (Except.ok.inj hvalid)
    refine ⟨b, hb, ?_⟩
    rw [getBool, hraw, Except.map, hb]
    rfl
  | int =>
    obtain ⟨n, hn⟩ := Option.isSome_iff_exists.mp (Except.ok.inj hvalid)
    refine ⟨n, hn, ?_⟩
    rw [getInt, hraw, Except.map, hn]
    rfl
  | str => exact hraw
  | duration =>
    cases hd : parseDuration text with
    | error p =>
      rw [Valid, validFor, hd] at hvalid
      cases hvalid
    | ok r =>
      rw [Valid, validFor, hd] at hvalid
      obtain ⟨d, rfl⟩ := Option.isSome_iff_exists.mp (Except.ok.inj hvalid)
      refine ⟨d, hd, ?_⟩
      rw [getDuration, hraw]
      simp only [bind, Except.bind, hd]
      rfl

theorem gets_setAll {f : FlagSet} (hf : Fresh f) {args : List Str} {items : List (Str × Str)}
    (hitems : Items f.kinds args items) {name : Str} {flag : Flag} (hflag : f name = some flag) :
    (f.setAll items).Gets name flag.kind ((lastValue items name).getD flag.default) := by
  apply gets_of_raw
  · simp only [raw, setAll_apply, hflag, Option.map_some, hf.unset name flag hflag, Option.or_none]
  · cases hlast : lastValue items name with
    | none => exact hf.defaults name flag hflag
    | some value =>
      obtain ⟨item, hitem, rfl⟩ := Option.map_eq_some_iff.mp hlast
      have hmem := List.mem_filter.mp (List.mem_of_getLast? hitem)
      obtain ⟨kind, hkind, hvalid⟩ := hitems.valid item hmem.1
      have hname : item.1 = name := by simpa using hmem.2
      rw [hname, kinds, hflag, Option.map_some, Option.some.injEq] at hkind
      rw [Option.getD_some, hkind]
      exact hvalid

/-- `parse` accepts its grammar and nothing else, and afterwards each getter returns the value of the
last item for its flag, or the default where there is none. -/
theorem parse_spec {f : FlagSet} (hf : Fresh f) (debug : Str → String) (args : List Str) :
    ((∃ f', parse debug args f = .ok (.ok (), f')) ↔ ∃ items, Items f.kinds args items) ∧
    ∀ f' items, parse debug args f = .ok (.ok (), f') → Items f.kinds args items →
      ∀ name flag, f name = some flag →
        f'.Gets name flag.kind ((lastValue items name).getD flag.default) := by
  have hok : ∀ {items}, Items f.kinds args items →
      parse debug args f = .ok (.ok (), f.setAll items) := fun hitems =>
    (parse_ok_iff hf.named args).mpr ⟨_, hitems, rfl⟩
  refine ⟨⟨?_, ?_⟩, ?_⟩
  · rintro ⟨f', h⟩
    obtain ⟨items, hitems, -⟩ := (parse_ok_iff hf.named args).mp h
    exact ⟨items, hitems⟩
  · rintro ⟨items, hitems⟩
    exact ⟨_, hok hitems⟩
  · intro f' items h hitems name flag hflag
    rw [hok hitems] at h
    cases h
    exact gets_setAll hf hitems hflag

theorem fresh_new : Fresh new := ⟨by simp [Named, new], by simp [new], by simp [new]⟩

theorem Fresh.add {f : FlagSet} (h : Fresh f) {name default : Str} {kind : Kind}
    (hname : name ≠ [] ∧ name.head? ≠ some '-' ∧ '=' ∉ name ∧ name ≠ ['h'] ∧ name ≠ "help".toList)
    (hvalid : Valid kind default) : Fresh (f.add name kind default) where
  named := by
    intro n hn
    by_cases heq : n = name
    · exact heq ▸ hname
    · exact h.named n (by simpa [FlagSet.add, heq] using hn)
  unset := by
    intro n flag hn
    by_cases heq : n = name
    · simp only [FlagSet.add, if_pos heq, Option.some.injEq] at hn
      rw [← hn]
    · exact h.unset n flag (by simpa [FlagSet.add, heq] using hn)
  defaults := by
    intro n flag hn
    by_cases heq : n = name
    · simp only [FlagSet.add, if_pos heq, Option.some.injEq] at hn
      rw [← hn]
      exact hvalid
    · exact h.defaults n flag (by simpa [FlagSet.add, heq] using hn)

/-- The flags of the unit tests. -/
def testSet : FlagSet :=
  (((new.add ['c'] .int "10".toList).add "check".toList .bool "false".toList).add ['f'] .str
    "quicgo".toList).add "dt".toList .duration "5s".toList

theorem fresh_testSet : Fresh testSet :=
  (((fresh_new.add (by decide) (by rfl)).add (by decide) (by rfl)).add (by decide) (by rfl)).add
    (by decide) (by decide +kernel)

/-- `-c=3 --f fib -check -c=4`: the second `-c` wins. -/
theorem parse_spec_goStyle :
    ∃ f', parse String.ofList ["-c=3".toList, "--f".toList, "fib".toList, "-check".toList,
        "-c=4".toList] testSet = .ok (.ok (), f') ∧ f'.getInt ['c'] = .ok 4 := by
  have hitems : Items testSet.kinds ["-c=3".toList, "--f".toList, "fib".toList, "-check".toList,
      "-c=4".toList] [(['c'], ['3']), (['f'], "fib".toList), ("check".toList, "true".toList),
      (['c'], ['4'])] :=
    .cons (@Item.assign testSet.kinds ['c'] ['3'] .int _ 0 rfl rfl)
      (.cons (@Item.next testSet.kinds ['f'] "fib".toList .str _ 1 rfl (by decide) rfl)
        (.cons (@Item.bare testSet.kinds "check".toList _ 0 rfl)
          (.cons (@Item.assign testSet.kinds ['c'] ['4'] .int _ 0 rfl rfl) .nil)))
  obtain ⟨f', hf'⟩ := (parse_spec fresh_testSet String.ofList _).1.mpr ⟨_, hitems⟩
  obtain ⟨n, hn, hget⟩ :=
    (parse_spec fresh_testSet String.ofList _).2 f' _ hf' hitems ['c'] ⟨.int, ['1', '0'], none⟩ rfl
  refine ⟨f', hf', ?_⟩
  have hfour : parseInt ['4'] = some 4 := by decide +kernel
  rw [hget]
  exact congrArg Except.ok (Option.some.inj (hn.symm.trans hfour))

end FlagSet

end Http3Bench.Benchkit
