import Http3Bench.Benchreport.Fields

/-!
# Reports that are read

`ReadReports` of `benchreport/report/reporter.go`: each framework's file is unmarshalled into a report
that knows only its framework, and a file that is not there or does not fit is skipped. The JSON text
itself is that of a `Codec`; what a member is to a field of a struct is `encoding/json`'s.
-/

namespace Http3Bench.Benchreport

abbrev Bytes := List UInt8

/-- A JSON value of a report. A number is written as an integer, or with a fraction or an exponent. -/
inductive Json (F : Type)
  | null
  | bool (b : Bool)
  | int (i : ℤ)
  | float (x : F)
  | string (s : Str)

/-- The text of an object, as its members. -/
structure Codec (F : Type) where
  write : List (Str × Json F) → Bytes
  read : Bytes → Option (List (Str × Json F))

/-- The type of a field of a report. -/
inductive Kind
  | string
  | int
  | uint
  | float
  | boolPtr
  deriving DecidableEq

structure JsonField where
  name : Str
  kind : Kind
  deriving DecidableEq

/-- The `json` tags of a type's fields, in the order the fields are declared. -/
def ReportType.jsonFields : ReportType → List JsonField
  | .connections => [
      ⟨"Framework".toList, .string⟩, ⟨"Lang".toList, .string⟩, ⟨"BenchClient".toList, .string⟩,
      ⟨"Threads".toList, .int⟩, ⟨"TPS".toList, .int⟩, ⟨"Min".toList, .int⟩, ⟨"Avg".toList, .int⟩,
      ⟨"Max".toList, .int⟩, ⟨"TP50".toList, .int⟩, ⟨"TP75".toList, .int⟩, ⟨"TP90".toList, .int⟩,
      ⟨"TP95".toList, .int⟩, ⟨"TP99".toList, .int⟩, ⟨"Used".toList, .int⟩, ⟨"Total".toList, .int⟩,
      ⟨"Success".toList, .int⟩, ⟨"Failed".toList, .int⟩, ⟨"Concurrency".toList, .int⟩]
  | .benchEcho => [
      ⟨"Framework".toList, .string⟩, ⟨"Lang".toList, .string⟩, ⟨"BenchClient".toList, .string⟩,
      ⟨"Threads".toList, .int⟩, ⟨"TPS".toList, .int⟩, ⟨"CPUEER".toList, .float⟩,
      ⟨"MEMEER".toList, .float⟩, ⟨"Min".toList, .int⟩, ⟨"Avg".toList, .int⟩, ⟨"Max".toList, .int⟩,
      ⟨"TP50".toList, .int⟩, ⟨"TP75".toList, .int⟩, ⟨"TP90".toList, .int⟩, ⟨"TP95".toList, .int⟩,
      ⟨"TP99".toList, .int⟩, ⟨"Used".toList, .int⟩, ⟨"Total".toList, .int⟩, ⟨"Success".toList, .int⟩,
      ⟨"Failed".toList, .int⟩, ⟨"Conns".toList, .int⟩, ⟨"Concurrency".toList, .int⟩,
      ⟨"Payload".toList, .int⟩, ⟨"CPUMin".toList, .float⟩, ⟨"CPUAvg".toList, .float⟩,
      ⟨"CPUMax".toList, .float⟩, ⟨"MEMMin".toList, .uint⟩, ⟨"MEMAvg".toList, .uint⟩,
      ⟨"MEMMax".toList, .uint⟩, ⟨"Pprof".toList, .boolPtr⟩]
  | .benchRate => [
      ⟨"Framework".toList, .string⟩, ⟨"Lang".toList, .string⟩, ⟨"BenchClient".toList, .string⟩,
      ⟨"Threads".toList, .int⟩, ⟨"Duration".toList, .int⟩, ⟨"TPS".toList, .int⟩,
      ⟨"CPUEER".toList, .float⟩, ⟨"MEMEER".toList, .float⟩, ⟨"SendTimes".toList, .int⟩,
      ⟨"SendBytes".toList, .int⟩, ⟨"RecvTimes".toList, .int⟩, ⟨"RecvBytes".toList, .int⟩,
      ⟨"Conns".toList, .int⟩, ⟨"SendRate".toList, .int⟩, ⟨"Batch".toList, .int⟩,
      ⟨"Payload".toList, .int⟩, ⟨"CPUMin".toList, .float⟩, ⟨"CPUAvg".toList, .float⟩,
      ⟨"CPUMax".toList, .float⟩, ⟨"MEMMin".toList, .uint⟩, ⟨"MEMAvg".toList, .uint⟩,
      ⟨"MEMMax".toList, .uint⟩, ⟨"Pprof".toList, .boolPtr⟩]

variable {A : Floats}

/-- What a field becomes; `null` leaves it as it is, but for a pointer. -/
def Kind.read (A : Floats) (old : Value A.F) : Kind → Json A.F → Option (Value A.F)
  | .boolPtr, .null => some (.boolPtr none)
  | _, .null => some old
  | .string, .string s => some (.string s)
  | .int, .int i => if -2 ^ 63 ≤ i ∧ i < 2 ^ 63 then some (.int i) else none
  | .uint, .int i => if 0 ≤ i ∧ i < 2 ^ 64 then some (.uint i.toNat) else none
  | .float, .int i => some (.float (A.ofInt i))
  | .float, .float x => some (.float x)
  | .boolPtr, .bool b => some (.boolPtr (some b))
  | _, _ => none

/-- The field of a member: that of its name, or else one of the same name but for its case. -/
def fieldIdx (fields : List JsonField) (name : Str) : Option ℕ :=
  (fields.findIdx? (·.name = name)).or
    (fields.findIdx? (fun f => f.name.map Char.toLower = name.map Char.toLower))

/-- One member; one of no field is ignored. -/
def unmarshalMember (A : Floats) (fields : List JsonField) (values : List (Value A.F))
    (m : Str × Json A.F) : Option (List (Value A.F)) :=
  match fieldIdx fields m.1 with
  | none => some values
  | some i => do
    let field ← fields[i]?
    let old ← values[i]?
    let v ← field.kind.read A old m.2
    return values.set i v

/-- `json.Unmarshal`, `none` for its error. -/
def unmarshal (A : Floats) (fields : List JsonField) (values : List (Value A.F))
    (members : List (Str × Json A.F)) : Option (List (Value A.F)) :=
  members.foldlM (unmarshalMember A fields) values

/-! ### The values of a report, and back -/

/-- The values of a report's fields, which have the types of the fields. -/
structure Values (F : Type) where
  values : List (Value F)

namespace Values

variable {F : Type} (vs : Values F) (i : ℕ)

def string : Option Str := vs.values[i]?.bind fun
  | .string s => some s
  | _ => none

def int : Option ℤ := vs.values[i]?.bind fun
  | .int i => some i
  | _ => none

def uint : Option ℕ := vs.values[i]?.bind fun
  | .uint n => some n
  | _ => none

def float : Option F := vs.values[i]?.bind fun
  | .float x => some x
  | _ => none

def boolPtr : Option (Option Bool) := vs.values[i]?.bind fun
  | .boolPtr b => some b
  | _ => none

end Values

/-- The report of a type with these values. -/
def Values.report {F : Type} (vs : Values F) : ReportType → Option (Report F)
  | .connections => do
    return .connections ⟨
      ← vs.string 0, ← vs.string 1, ← vs.string 2, ← vs.int 3, ← vs.int 4, ← vs.int 5, ← vs.int 6,
      ← vs.int 7, ← vs.int 8, ← vs.int 9, ← vs.int 10, ← vs.int 11, ← vs.int 12, ← vs.int 13,
      ← vs.int 14, ← vs.int 15, ← vs.int 16, ← vs.int 17⟩
  | .benchEcho => do
    return .benchEcho ⟨
      ← vs.string 0, ← vs.string 1, ← vs.string 2, ← vs.int 3, ← vs.int 4, ← vs.float 5,
      ← vs.float 6, ← vs.int 7, ← vs.int 8, ← vs.int 9, ← vs.int 10, ← vs.int 11, ← vs.int 12,
      ← vs.int 13, ← vs.int 14, ← vs.int 15, ← vs.int 16, ← vs.int 17, ← vs.int 18, ← vs.int 19,
      ← vs.int 20, ← vs.int 21, ← vs.float 22, ← vs.float 23, ← vs.float 24, ← vs.uint 25,
      ← vs.uint 26, ← vs.uint 27, ← vs.boolPtr 28⟩
  | .benchRate => do
    return .benchRate ⟨
      ← vs.string 0, ← vs.string 1, ← vs.string 2, ← vs.int 3, ← vs.int 4, ← vs.int 5,
      ← vs.float 6, ← vs.float 7, ← vs.int 8, ← vs.int 9, ← vs.int 10, ← vs.int 11, ← vs.int 12,
      ← vs.int 13, ← vs.int 14, ← vs.int 15, ← vs.float 16, ← vs.float 17, ← vs.float 18,
      ← vs.uint 19, ← vs.uint 20, ← vs.uint 21, ← vs.boolPtr 22⟩

theorem report_values {F : Type} (r : Report F) : Values.report ⟨r.values⟩ r.type = some r := by
  cases r with
  | connections r => rfl
  | benchEcho r => rfl
  | benchRate r => rfl

/-- `create(framework)`: a report of which only the framework is known. -/
def ReportType.create (A : Floats) (framework : Str) : ReportType → Report A.F
  | .connections => .connections {
      Framework := framework, Lang := [], BenchClient := [], Threads := 0, TPS := 0, Min := 0,
      Avg := 0, Max := 0, TP50 := 0, TP75 := 0, TP90 := 0, TP95 := 0, TP99 := 0, Used := 0,
      Total := 0, Success := 0, Failed := 0, Concurrency := 0 }
  | .benchEcho => .benchEcho {
      Framework := framework, Lang := [], BenchClient := [], Threads := 0, TPS := 0,
      CPUEER := A.ofInt 0, MEMEER := A.ofInt 0, Min := 0, Avg := 0, Max := 0, TP50 := 0, TP75 := 0,
      TP90 := 0, TP95 := 0, TP99 := 0, Used := 0, Total := 0, Success := 0, Failed := 0,
      Connections := 0, Concurrency := 0, Payload := 0, CPUMin := A.ofInt 0, CPUAvg := A.ofInt 0,
      CPUMax := A.ofInt 0, MEMRSSMin := 0, MEMRSSAvg := 0, MEMRSSMax := 0, Pprof := none }
  | .benchRate => .benchRate {
      Framework := framework, Lang := [], BenchClient := [], Threads := 0, Duration := 0, TPS := 0,
      CPUEER := A.ofInt 0, MEMEER := A.ofInt 0, SendTimes := 0, SendBytes := 0, RecvTimes := 0,
      RecvBytes := 0, Connections := 0, SendRate := 0, Batch := 0, Payload := 0,
      CPUMin := A.ofInt 0, CPUAvg := A.ofInt 0, CPUMax := A.ofInt 0, MEMRSSMin := 0, MEMRSSAvg := 0,
      MEMRSSMax := 0, Pprof := none }

def Report.setLang {F : Type} (lang : Str) : Report F → Report F
  | .connections r => .connections { r with Lang := lang }
  | .benchEcho r => .benchEcho { r with Lang := lang }
  | .benchRate r => .benchRate { r with Lang := lang }

/-! ### The files -/

def FrameworkList : List Str := ["fib".toList, "gin".toList, "quicgo".toList, "quiche".toList]

def FrameworkLangs : List (Str × Str) :=
  [("fib".toList, "go".toList), ("gin".toList, "go".toList), ("quicgo".toList, "go".toList),
    ("quiche".toList, "rust".toList)]

/-- `config.FrameworkLangs[framework]`. -/
def frameworkLang (framework : Str) : Str := (FrameworkLangs.lookup framework).getD []

def ReportType.text : ReportType → Str
  | .connections => "Connections".toList
  | .benchEcho => "BenchEcho".toList
  | .benchRate => "BenchMultiplex".toList

/-- `Name()` of a report of this type. -/
def ReportType.name (framework : Str) (typ : ReportType) : Str := framework ++ '-' :: typ.text

def filename (base preffix suffix : Str) : Str := "./output/report/".toList ++ preffix ++ base ++ suffix

/-- What is under a path; two paths are two files. -/
abbrev Files := Str → Option Bytes

/-- What `ReadReports` makes of one framework. -/
def readReport (A : Floats) (codec : Codec A.F) (files : Files) (preffix suffix : Str) (typ : ReportType)
    (v : Str) : Option (Report A.F) := do
  let b ← files (filename (typ.name v) preffix (suffix ++ ".json".toList))
  let members ← codec.read b
  let values ← unmarshal A typ.jsonFields (typ.create A v).values members
  let r ← Values.report ⟨values⟩ typ
  return r.setLang (frameworkLang v)

def readReports (A : Floats) (codec : Codec A.F) (files : Files) (preffix suffix : Str)
    (typ : ReportType) : List (Report A.F) :=
  FrameworkList.filterMap (readReport A codec files preffix suffix typ)

/-! ### Reports without an EER

The quotients are exact, so there is no NaN and no infinity for `eer` to leave out. -/

def eer (throughput cost : ℚ) : ℚ := if cost ≤ 0 then 0 else throughput / cost

def CPUEER (throughput cpuAvg : ℚ) : ℚ := eer throughput cpuAvg

def MEMEER (throughput : ℚ) (memAvg : ℕ) : ℚ := eer throughput (memAvg / (1024 * 1024))

def BenchEchoReport.fillEER (r : BenchEchoReport ℚ) : BenchEchoReport ℚ := { r with
  CPUEER := if r.CPUEER = 0 then Benchreport.CPUEER r.TPS r.CPUAvg else r.CPUEER
  MEMEER := if r.MEMEER = 0 then Benchreport.MEMEER r.TPS r.MEMRSSAvg else r.MEMEER }

def RateTPS (recvTimes duration : ℤ) : ℚ :=
  if duration ≤ 0 then 0 else recvTimes / (duration / 10 ^ 9)

def BenchRateReport.fillTPS (r : BenchRateReport ℚ) : BenchRateReport ℚ := { r with
  TPS := if r.TPS = 0 ∧ 0 < r.RecvTimes then (RateTPS r.RecvTimes r.Duration).floor else r.TPS }

def BenchRateReport.fillEER (r : BenchRateReport ℚ) : BenchRateReport ℚ :=
  let rate := RateTPS r.RecvTimes r.Duration
  let tps : ℚ := if rate = 0 then r.TPS else rate
  { r with
    CPUEER := if r.CPUEER = 0 then Benchreport.CPUEER tps r.CPUAvg else r.CPUEER
    MEMEER := if r.MEMEER = 0 then Benchreport.MEMEER tps r.MEMRSSAvg else r.MEMEER }

/-- What is done to a report of each type after it was read. -/
def Report.fill : Report ℚ → Report ℚ
  | .connections r => .connections r
  | .benchEcho r => .benchEcho r.fillEER
  | .benchRate r => .benchRate r.fillTPS.fillEER

/-- `ReadConnectionsReports`, `ReadBenchEchoReports` and `ReadBenchRateReports`. -/
def readFilled (codec : Codec ℚ) (files : Files) (preffix suffix : Str) (typ : ReportType) :
    List (Report ℚ) :=
  (readReports exact codec files preffix suffix typ).map Report.fill

theorem fill_eq {x y : ℚ} (h : x = y) : (if x = 0 then y else x) = x := by
  rw [h]
  exact ite_self y

/-- An EER that is the quotient it should be is left as it is, also when it is 0. -/
theorem BenchEchoReport.fillEER_eq {r : BenchEchoReport ℚ} (hcpu : r.CPUEER = Benchreport.CPUEER r.TPS r.CPUAvg)
    (hmem : r.MEMEER = Benchreport.MEMEER r.TPS r.MEMRSSAvg) : r.fillEER = r := by
  unfold fillEER
  rw [fill_eq hcpu, fill_eq hmem]

theorem BenchRateReport.fillTPS_eq {r : BenchRateReport ℚ}
    (h : r.TPS = 0 → (RateTPS r.RecvTimes r.Duration).floor = 0) : r.fillTPS = r := by
  have htps : (if r.TPS = 0 ∧ 0 < r.RecvTimes then (RateTPS r.RecvTimes r.Duration).floor else r.TPS) =
      r.TPS := by
    split
    · rename_i hzero
      rw [h hzero.1, hzero.1]
    · rfl
  unfold fillTPS
  rw [htps]

theorem BenchRateReport.fillEER_eq {r : BenchRateReport ℚ}
    (h : RateTPS r.RecvTimes r.Duration = 0 → r.TPS = 0)
    (hcpu : r.CPUEER = Benchreport.CPUEER (RateTPS r.RecvTimes r.Duration) r.CPUAvg)
    (hmem : r.MEMEER = Benchreport.MEMEER (RateTPS r.RecvTimes r.Duration) r.MEMRSSAvg) :
    r.fillEER = r := by
  have htps : (if RateTPS r.RecvTimes r.Duration = 0 then (r.TPS : ℚ)
      else RateTPS r.RecvTimes r.Duration) = RateTPS r.RecvTimes r.Duration := by
    split
    · rename_i hzero
      rw [h hzero, hzero]
      rfl
    · rfl
  simp only [fillEER, htps]
  rw [fill_eq hcpu, fill_eq hmem]

/-! ### Members that are the fields of a report -/

namespace Value

variable {F : Type}

def kind : Value F → Kind
  | string _ => .string
  | int _ => .int
  | uint _ => .uint
  | float _ => .float
  | boolPtr _ => .boolPtr

/-- How a value is written. -/
def json : Value F → Json F
  | string s => .string s
  | int i => .int i
  | uint n => .int n
  | float x => .float x
  | boolPtr none => .null
  | boolPtr (some b) => .bool b

/-- A number its field can hold. -/
def fits : Value F → Bool
  | int i => -2 ^ 63 ≤ i ∧ i < 2 ^ 63
  | uint n => n < 2 ^ 64
  | _ => true

end Value

def JsonField.isLang (f : JsonField) : Bool := f.name = "Lang".toList

/-- What a client writes of these fields: all but the language. -/
def written {F : Type} (fields : List (JsonField × Value F)) : List (Str × Json F) :=
  (fields.filter (fun f => !f.1.isLang)).map (fun f => (f.1.name, f.2.json))

theorem read_json (old v : Value A.F) : v.kind.read A old v.json = if v.fits then some v else none := by
  cases v with
  | string s => rfl
  | int i => simp [Value.kind, Value.json, Value.fits, Kind.read]
  | uint n => simp [Value.kind, Value.json, Value.fits, Kind.read]
  | float x => rfl
  | boolPtr b =>
    cases b with
    | none => rfl
    | some b => rfl

theorem fieldIdx_append {before after : List JsonField} {f : JsonField}
    (h : f.name ∉ before.map JsonField.name) :
    fieldIdx (before ++ f :: after) f.name = some before.length := by
  have hnone : before.findIdx? (·.name = f.name) = none := by
    refine List.findIdx?_eq_none_iff.mpr (fun g hg => ?_)
    exact decide_eq_false (fun heq => h (heq ▸ List.mem_map_of_mem hg))
  unfold fieldIdx
  rw [List.findIdx?_append, hnone]
  simp [List.findIdx?_cons]

theorem unmarshalMember_append {before after : List JsonField} {values olds : List (Value A.F)}
    {f : JsonField} {v : Value A.F} (hlen : before.length = values.length) (hkind : f.kind = v.kind)
    (h : f.name ∉ before.map JsonField.name) (old : Value A.F) :
    unmarshalMember A (before ++ f :: after) (values ++ old :: olds) (f.name, v.json) =
      if v.fits then some (values ++ v :: olds) else none := by
  have hfield : (before ++ f :: after)[before.length]? = some f := by simp
  have hold : (values ++ old :: olds)[before.length]? = some old := by simp [hlen]
  have hset : (values ++ old :: olds).set before.length v = values ++ v :: olds := by simp [hlen]
  unfold unmarshalMember
  rw [fieldIdx_append h]
  simp only [hfield, hold, hkind, read_json, Option.bind_eq_bind, Option.bind_some]
  split
  · rw [Option.bind_some, hset]
    rfl
  · rfl

/-- The fields that are written fit, or the object is not read. The fields before them have their
values. -/
theorem unmarshal_written {before : List JsonField} {values : List (Value A.F)}
    (hlen : before.length = values.length) (fields : List (JsonField × Value A.F))
    (hkind : ∀ f ∈ fields, f.1.kind = f.2.kind) {olds : List (Value A.F)}
    (holds : olds.length = fields.length)
    (hnodup : ((before ++ fields.map Prod.fst).map JsonField.name).Nodup) :
    unmarshal A (before ++ fields.map Prod.fst) (values ++ olds) (written fields) =
      if fields.all (fun f => f.1.isLang || f.2.fits) then
        some (values ++ List.zipWith (fun f old => if f.1.isLang then old else f.2) fields olds)
      else none := by
  induction fields generalizing before values olds with
  | nil =>
    cases olds with
    | nil => rfl
    | cons _ _ => cases holds
  | cons f fields ih =>
    cases olds with
    | nil => cases holds
    | cons old olds =>
      have hnot : f.1.name ∉ before.map JsonField.name := by
        intro hmem
        rw [List.map_append] at hnodup
        exact (List.disjoint_of_nodup_append hnodup) hmem List.mem_cons_self
      -- the rest, when this field has the value `v`
      have hrest : ∀ v, unmarshal A (before ++ (f :: fields).map Prod.fst) (values ++ v :: olds)
          (written fields) = if fields.all (fun f => f.1.isLang || f.2.fits) then
            some (values ++ v :: List.zipWith (fun f old => if f.1.isLang then old else f.2) fields olds)
          else none := by
        intro v
        have hstep := @ih (before ++ [f.1]) (values ++ [v]) (by simp [hlen])
          (fun g hg => hkind g (List.mem_cons_of_mem _ hg)) olds (Nat.succ.inj holds) (by simpa using hnodup)
        simpa using hstep
      by_cases hlang : f.1.isLang
      · have hwritten : written (f :: fields) = written fields := by simp [written, hlang]
        rw [hwritten, hrest old]
        simp only [List.all_cons, hlang, Bool.true_or, Bool.true_and, List.zipWith_cons_cons, if_true]
      · have hwritten : written (f :: fields) = (f.1.name, f.2.json) :: written fields := by
          simp [written, hlang]
        rw [hwritten]
        unfold unmarshal
        rw [List.foldlM_cons, List.map_cons,
          unmarshalMember_append hlen (hkind f List.mem_cons_self) hnot old]
        by_cases hfits : f.2.fits
        · rw [if_pos hfits, Option.bind_eq_bind, Option.bind_some]
          have hlast := hrest f.2
          unfold unmarshal at hlast
          rw [List.map_cons] at hlast
          rw [hlast]
          simp only [List.all_cons, hfits, Bool.or_true, Bool.true_and, List.zipWith_cons_cons, if_neg hlang]
        · rw [if_neg hfits, List.all_cons, if_neg (by simp [hlang, hfits])]
          rfl

/-! ### Reports that a client writes -/

/-- The fields of a report with their values. -/
def Report.fields {F : Type} (r : Report F) : List (JsonField × Value F) := r.type.jsonFields.zip r.values

def Report.fits {F : Type} (r : Report F) : Bool := r.values.all Value.fits

theorem nodup_jsonFields (typ : ReportType) : (typ.jsonFields.map JsonField.name).Nodup := by
  cases typ <;> decide

theorem map_eq_of_mem_zip {α β γ : Type} {g : α → γ} {h : β → γ} {l : List α} {l' : List β}
    (heq : l.map g = l'.map h) : ∀ p ∈ l.zip l', g p.1 = h p.2 := by
  induction l generalizing l' with
  | nil => exact fun p hp => by cases hp
  | cons a l ih =>
    cases l' with
    | nil => cases heq
    | cons b l' =>
      obtain ⟨hhead, htail⟩ := List.cons.inj heq
      exact List.forall_mem_cons.mpr ⟨hhead, ih htail⟩

theorem kind_fields {F : Type} (r : Report F) : ∀ f ∈ r.fields, f.1.kind = f.2.kind :=
  map_eq_of_mem_zip (by cases r <;> rfl)

/-- A report that is written under its fields' names is read back, but for its language. -/
theorem unmarshal_report (r : Report A.F) (v : Str) :
    (unmarshal A r.type.jsonFields (r.type.create A v).values (written r.fields)).bind
      (fun values => Values.report ⟨values⟩ r.type) = if r.fits then some (r.setLang []) else none := by
  have hfst : r.fields.map Prod.fst = r.type.jsonFields := by
    cases r <;> rfl
  have hlast : List.zipWith (fun f old => if f.1.isLang then old else f.2) r.fields
      (r.type.create A v).values = (r.setLang []).values := by
    cases r <;> rfl
  have hall : r.fields.all (fun f => f.1.isLang || f.2.fits) = r.fits := by
    cases r <;> rfl
  have hread := @unmarshal_written A [] [] rfl r.fields (kind_fields r) (r.type.create A v).values
    (by cases r <;> rfl) (by rw [List.nil_append, hfst]; exact nodup_jsonFields _)
  rw [List.nil_append, List.nil_append, hfst, List.nil_append, hlast, hall] at hread
  rw [hread]
  split
  · have htype : (r.setLang []).type = r.type := by cases r <;> rfl
    rw [Option.bind_some, ← htype]
    exact report_values _
  · rfl

end Http3Bench.Benchreport
