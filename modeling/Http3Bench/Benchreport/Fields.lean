import Http3Bench.Benchreport.Table

/-!
# Reports and their columns

The three report types of `benchreport/report`, with the tags of their fields, and `parsing.go`: a
report's columns are its fields, in the order they are declared, less those its tags keep out of the
tables. The two `[]byte` fields that hold profiles, tagged `md:"-"`, are left out.
-/

namespace Http3Bench.Benchreport

/-- `float64`, as far as a report uses it. `max` is `math.Max`, for which the order of the values
does not matter, NaN and the infinities included. -/
structure Floats where
  F : Type
  ofInt : ℤ → F
  lt : F → F → Bool
  le : F → F → Bool
  eq : F → F → Bool
  add : F → F → F
  mul : F → F → F
  div : F → F → F
  max : F → F → F
  /-- `int64(math.Floor(x))`. -/
  floor : F → ℤ
  /-- The constant `1e-9`. -/
  percentSlack : F
  /-- `fmt.Sprintf("%.2f", x)`. -/
  fixed : F → Str
  max_right_comm : ∀ a b c, max (max a b) c = max (max a c) b

/-- What the tables take from `github.com/lesismal/perf`. -/
structure Perf where
  i2MemString : ℕ → Str
  i2TimeString : ℤ → Str

/-- `x` with two decimals, ties to even. -/
def twoDecimals (x : ℚ) : Str :=
  let y := |x| * 100
  let n := y.floor.toNat
  let m := if 1 / 2 < y - n ∨ y - n = 1 / 2 ∧ n % 2 = 1 then n + 1 else n
  (if x < 0 then ['-'] else []) ++ Nat.toDigits 10 (m / 100) ++
    '.' :: Nat.toDigits 10 (m / 10 % 10) ++ Nat.toDigits 10 (m % 10)

/-- `float64` without its rounding. -/
def exact : Floats where
  F := ℚ
  ofInt i := i
  lt a b := a < b
  le a b := a ≤ b
  eq a b := a = b
  add := (· + ·)
  mul := (· * ·)
  div := (· / ·)
  max := max
  floor := Rat.floor
  percentSlack := 1 / 10 ^ 9
  fixed := twoDecimals
  max_right_comm := max_right_comm

theorem exact_eq (x y : ℚ) : exact.eq x y = true ↔ x = y := decide_eq_true_iff

theorem exact_lt (x y : ℚ) : exact.lt x y = true ↔ x < y := decide_eq_true_iff

theorem exact_le (x y : ℚ) : exact.le x y = true ↔ x ≤ y := decide_eq_true_iff

/-- The client's own `time_string` and `mem_string`, which print what `perf` does. -/
def statsPerf : Perf where
  i2MemString bytes :=
    let b : ℚ := bytes
    if 1 ≤ b / 1024 ^ 3 then twoDecimals (b / 1024 ^ 3) ++ ['G']
    else if 1 ≤ b / 1024 ^ 2 then twoDecimals (b / 1024 ^ 2) ++ ['M']
    else twoDecimals (b / 1024) ++ ['K']
  i2TimeString ns :=
    if 1 ≤ ns.tdiv 1000000000 then twoDecimals (ns / 1000000000) ++ ['s']
    else if 1 ≤ ns.tdiv 1000000 then twoDecimals (ns / 1000000) ++ "ms".toList
    else if 1 ≤ ns.tdiv 1000 then twoDecimals (ns / 1000) ++ "us".toList
    else (toString ns).toList ++ "ns".toList

/-- The value of a field, as `reflect` tells it. -/
inductive Value (F : Type)
  | string (s : Str)
  | int (i : ℤ)
  | uint (n : ℕ)
  | float (x : F)
  | boolPtr (b : Option Bool)

inductive Fmt
  | plain
  | client
  | cpu
  | mem
  | duration
  | onoff
  deriving DecidableEq

/-- The tags of a field that its table reads. An absent `summary` is empty, as `Tag.Get` has it. -/
structure Field where
  md : Str
  fmt : Fmt := .plain
  summary : Str := []
  tpn : Bool := false
  rank : Option ℕ := none

structure ConnectionsReport where
  Framework : Str
  Lang : Str
  BenchClient : Str
  Threads : ℤ
  TPS : ℤ
  Min : ℤ
  Avg : ℤ
  Max : ℤ
  TP50 : ℤ
  TP75 : ℤ
  TP90 : ℤ
  TP95 : ℤ
  TP99 : ℤ
  Used : ℤ
  Total : ℤ
  Success : ℤ
  Failed : ℤ
  Concurrency : ℤ

structure BenchEchoReport (F : Type) where
  Framework : Str
  Lang : Str
  BenchClient : Str
  Threads : ℤ
  TPS : ℤ
  CPUEER : F
  MEMEER : F
  Min : ℤ
  Avg : ℤ
  Max : ℤ
  TP50 : ℤ
  TP75 : ℤ
  TP90 : ℤ
  TP95 : ℤ
  TP99 : ℤ
  Used : ℤ
  Total : ℤ
  Success : ℤ
  Failed : ℤ
  Connections : ℤ
  Concurrency : ℤ
  Payload : ℤ
  CPUMin : F
  CPUAvg : F
  CPUMax : F
  MEMRSSMin : ℕ
  MEMRSSAvg : ℕ
  MEMRSSMax : ℕ
  Pprof : Option Bool

structure BenchRateReport (F : Type) where
  Framework : Str
  Lang : Str
  BenchClient : Str
  Threads : ℤ
  Duration : ℤ
  TPS : ℤ
  CPUEER : F
  MEMEER : F
  SendTimes : ℤ
  SendBytes : ℤ
  RecvTimes : ℤ
  RecvBytes : ℤ
  Connections : ℤ
  SendRate : ℤ
  Batch : ℤ
  Payload : ℤ
  CPUMin : F
  CPUAvg : F
  CPUMax : F
  MEMRSSMin : ℕ
  MEMRSSAvg : ℕ
  MEMRSSMax : ℕ
  Pprof : Option Bool

inductive ReportType
  | connections
  | benchEcho
  | benchRate
  deriving DecidableEq

inductive Report (F : Type)
  | connections (r : ConnectionsReport)
  | benchEcho (r : BenchEchoReport F)
  | benchRate (r : BenchRateReport F)

def Report.type {F : Type} : Report F → ReportType
  | .connections _ => .connections
  | .benchEcho _ => .benchEcho
  | .benchRate _ => .benchRate

/-- The tags of a type's fields, in the order the fields are declared. -/
def ReportType.fields : ReportType → List Field
  | .connections => [
      { md := "Framework".toList },
      { md := "Lang".toList },
      { md := "Client".toList, fmt := .client, summary := "Client".toList },
      { md := "Threads".toList, summary := "Client Threads".toList },
      { md := "TPS".toList, rank := some 1 },
      { md := "Min".toList, fmt := .duration, tpn := true },
      { md := "Avg".toList, fmt := .duration, tpn := true },
      { md := "Max".toList, fmt := .duration, tpn := true },
      { md := "-".toList, fmt := .duration, tpn := true },
      { md := "-".toList, fmt := .duration, tpn := true },
      { md := "-".toList, fmt := .duration, tpn := true },
      { md := "TP95".toList, fmt := .duration, tpn := true },
      { md := "TP99".toList, fmt := .duration, tpn := true },
      { md := "Used".toList, fmt := .duration },
      { md := "Total".toList },
      { md := "Success".toList },
      { md := "Failed".toList },
      { md := "Concurrency".toList, summary := "Dial Concurrency".toList }]
  | .benchEcho => [
      { md := "Framework".toList },
      { md := "Lang".toList },
      { md := "Client".toList, fmt := .client, summary := "Client".toList },
      { md := "Threads".toList, summary := "Client Threads".toList },
      { md := "TPS".toList, rank := some 1 },
      { md := "CPU EER".toList, rank := some 2 },
      { md := "MEM EER".toList, rank := some 3 },
      { md := "Min".toList, fmt := .duration, tpn := true },
      { md := "Avg".toList, fmt := .duration, tpn := true },
      { md := "Max".toList, fmt := .duration, tpn := true },
      { md := "-".toList, fmt := .duration, tpn := true },
      { md := "-".toList, fmt := .duration, tpn := true },
      { md := "-".toList, fmt := .duration, tpn := true },
      { md := "TP95".toList, fmt := .duration, tpn := true },
      { md := "TP99".toList, fmt := .duration, tpn := true },
      { md := "Used".toList, fmt := .duration },
      { md := "Total".toList, summary := "Echo Total".toList },
      { md := "Success".toList },
      { md := "Failed".toList },
      { md := "Conns".toList, summary := "Conns".toList },
      { md := "Concurrency".toList, summary := "Echo Concurrency".toList },
      { md := "Payload".toList, summary := "Payload".toList },
      { md := "-".toList, fmt := .cpu },
      { md := "CPU Avg".toList, fmt := .cpu },
      { md := "CPU Max".toList, fmt := .cpu },
      { md := "-".toList, fmt := .mem },
      { md := "MEM Avg".toList, fmt := .mem },
      { md := "MEM Max".toList, fmt := .mem },
      { md := [], fmt := .onoff, summary := "Echo Pprof".toList }]
  | .benchRate => [
      { md := "Framework".toList },
      { md := "Lang".toList },
      { md := "Client".toList, fmt := .client, summary := "Client".toList },
      { md := "Threads".toList, summary := "Client Threads".toList },
      { md := "Duration".toList, fmt := .duration, summary := "Rate Duration".toList },
      { md := "TPS".toList, rank := some 1 },
      { md := "CPU EER".toList, rank := some 2 },
      { md := "MEM EER".toList, rank := some 3 },
      { md := "Req Sent".toList },
      { md := "Bytes Sent".toList, fmt := .mem },
      { md := "Resp Recv".toList },
      { md := "Bytes Recv".toList, fmt := .mem },
      { md := "Conns".toList, summary := "Conns".toList },
      { md := "SendRate".toList, summary := "Rate SendRate".toList },
      { md := "Batch".toList, summary := "Rate Batch".toList },
      { md := "Payload".toList, summary := "Payload".toList },
      { md := "-".toList, fmt := .cpu },
      { md := "CPU Avg".toList, fmt := .cpu },
      { md := "CPU Max".toList, fmt := .cpu },
      { md := "-".toList, fmt := .mem },
      { md := "MEM Avg".toList, fmt := .mem },
      { md := "MEM Max".toList, fmt := .mem },
      { md := [], fmt := .onoff, summary := "Rate Pprof".toList }]

/-- The values of a report's fields, in the order the fields are declared. -/
def Report.values {F : Type} : Report F → List (Value F)
  | .connections r => [
      .string r.Framework, .string r.Lang, .string r.BenchClient, .int r.Threads, .int r.TPS,
      .int r.Min, .int r.Avg, .int r.Max, .int r.TP50, .int r.TP75, .int r.TP90, .int r.TP95,
      .int r.TP99, .int r.Used, .int r.Total, .int r.Success, .int r.Failed, .int r.Concurrency]
  | .benchEcho r => [
      .string r.Framework, .string r.Lang, .string r.BenchClient, .int r.Threads, .int r.TPS,
      .float r.CPUEER, .float r.MEMEER, .int r.Min, .int r.Avg, .int r.Max, .int r.TP50,
      .int r.TP75, .int r.TP90, .int r.TP95, .int r.TP99, .int r.Used, .int r.Total,
      .int r.Success, .int r.Failed, .int r.Connections, .int r.Concurrency, .int r.Payload,
      .float r.CPUMin, .float r.CPUAvg, .float r.CPUMax, .uint r.MEMRSSMin, .uint r.MEMRSSAvg,
      .uint r.MEMRSSMax, .boolPtr r.Pprof]
  | .benchRate r => [
      .string r.Framework, .string r.Lang, .string r.BenchClient, .int r.Threads, .int r.Duration,
      .int r.TPS, .float r.CPUEER, .float r.MEMEER, .int r.SendTimes, .int r.SendBytes,
      .int r.RecvTimes, .int r.RecvBytes, .int r.Connections, .int r.SendRate, .int r.Batch,
      .int r.Payload, .float r.CPUMin, .float r.CPUAvg, .float r.CPUMax, .uint r.MEMRSSMin,
      .uint r.MEMRSSAvg, .uint r.MEMRSSMax, .boolPtr r.Pprof]

/-! ### Columns and cells -/

def tableColumn (field : Field) (enableTPN : Bool) : Bool :=
  if field.md = "-".toList ∨ field.summary ≠ [] then false else enableTPN || !field.tpn

/-- `ConnectionsReportMarkdownHeaders` and its two siblings. -/
abbrev MarkdownHeaders := ReportType → List Str

/-- What `Init` leaves in the three header variables. -/
def init (enableTPN : Bool) : MarkdownHeaders :=
  fun typ => (typ.fields.filter (tableColumn · enableTPN)).map Field.md

def clientName (name : Str) : Str :=
  if "benchcli-".toList.isPrefixOf name then name.drop "benchcli-".toList.length else name

def clientLabel (name : Str) : Str :=
  if name = "benchcli-rust".toList then "rust-quiche".toList else clientName name

/-- `strconv.Itoa`, and `%v` of an integer. -/
def itoa : ℤ → Str
  | .ofNat n => Nat.toDigits 10 n
  | .negSucc n => '-' :: Nat.toDigits 10 (n + 1)

/-- How a table shows the value of a field. `none` stands for a tag on a field of a kind that no
report has it on. -/
def cellString (A : Floats) (perf : Perf) (field : Field) (value : Value A.F) : Option Str :=
  match field.fmt, value with
  | .client, .string s => some (clientLabel s)
  | .mem, .int i => some (perf.i2MemString (i % 2 ^ 64).toNat)
  | .mem, .uint n => some (perf.i2MemString n)
  | .mem, _ => some []
  | .duration, .int i => some (perf.i2TimeString i)
  | .onoff, .boolPtr none => some "unknown".toList
  | .onoff, .boolPtr (some true) => some "on".toList
  | .onoff, .boolPtr (some false) => some "off".toList
  | .client, _ | .duration, _ | .onoff, _ => none
  | _, .string s => some s
  | _, .float x => some (A.fixed x)
  | _, .int i => some (itoa i)
  | _, .uint n => some (itoa n)
  | _, .boolPtr _ => none

/-- The row a report adds to its table, one cell per header. -/
def objFieldValues (A : Floats) (perf : Perf) (obj : Report A.F) (enableTPN : Bool) :
    Option (List Str) :=
  ((obj.type.fields.zip obj.values).filter (fun f => tableColumn f.1 enableTPN)).mapM
    (fun f => cellString A perf f.1 f.2)

theorem exists_objFieldValues (A : Floats) (perf : Perf) (obj : Report A.F) (enableTPN : Bool) :
    ∃ row, objFieldValues A perf obj enableTPN = some row ∧
      row.length = (init enableTPN obj.type).length := by
  cases obj <;> cases enableTPN <;> exact ⟨_, rfl, rfl⟩

end Http3Bench.Benchreport
