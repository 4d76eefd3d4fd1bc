import Http3Bench.Benchreport.Reading
import Http3Bench.Session

/-!
# From the client's reports to the tables' rows

`to_file` of `benchcli-rust/src/report.rs` writes each report under the names of its fields, and the Go
program reads those files back by the names of its own. Clients run one after another, perhaps twice
for a framework, and their writes may fail. What `ReadReports` returns is what was written last for each
framework, in the order of `FrameworkList`, and filling in an EER changes nothing of it.
-/

namespace Http3Bench

open Benchreport (Json Codec Files Bytes FrameworkList ReportType Report Value)

/-! ### What is written -/

def PsStats.json (ps : PsStats) : List (Str × Json ℚ) := [
  ("CPUMin".toList, .float ps.cpuMin), ("CPUAvg".toList, .float ps.cpuAvg),
  ("CPUMax".toList, .float ps.cpuMax), ("MEMMin".toList, .int ps.memMin),
  ("MEMAvg".toList, .int ps.memAvg), ("MEMMax".toList, .int ps.memMax)]

def ConnectionsReport.json (r : ConnectionsReport) : List (Str × Json ℚ) := [
  ("Framework".toList, .string r.framework), ("BenchClient".toList, .string r.benchClient),
  ("Threads".toList, .int r.threads), ("TPS".toList, .int r.tps), ("Min".toList, .int r.min),
  ("Avg".toList, .int r.avg), ("Max".toList, .int r.max), ("TP50".toList, .int r.tp50),
  ("TP75".toList, .int r.tp75), ("TP90".toList, .int r.tp90), ("TP95".toList, .int r.tp95),
  ("TP99".toList, .int r.tp99), ("Used".toList, .int r.used), ("Total".toList, .int r.total),
  ("Success".toList, .int r.success), ("Failed".toList, .int r.failed),
  ("Concurrency".toList, .int r.concurrency)]

def BenchEchoReport.json (r : BenchEchoReport) : List (Str × Json ℚ) := [
  ("Framework".toList, .string r.framework), ("BenchClient".toList, .string r.benchClient),
  ("Threads".toList, .int r.threads), ("TPS".toList, .int r.tps), ("CPUEER".toList, .float r.cpuEer),
  ("MEMEER".toList, .float r.memEer), ("Min".toList, .int r.min), ("Avg".toList, .int r.avg),
  ("Max".toList, .int r.max), ("TP50".toList, .int r.tp50), ("TP75".toList, .int r.tp75),
  ("TP90".toList, .int r.tp90), ("TP95".toList, .int r.tp95), ("TP99".toList, .int r.tp99),
  ("Used".toList, .int r.used), ("Total".toList, .int r.total), ("Success".toList, .int r.success),
  ("Failed".toList, .int r.failed), ("Conns".toList, .int r.connections),
  ("Concurrency".toList, .int r.concurrency), ("Payload".toList, .int r.payload)] ++ r.ps.json ++
  [("Pprof".toList, .bool r.pprofOn)]

def BenchRateReport.json (r : BenchRateReport) : List (Str × Json ℚ) := [
  ("Framework".toList, .string r.framework), ("BenchClient".toList, .string r.benchClient),
  ("Threads".toList, .int r.threads), ("Duration".toList, .int r.duration), ("TPS".toList, .int r.tps),
  ("CPUEER".toList, .float r.cpuEer), ("MEMEER".toList, .float r.memEer),
  ("SendTimes".toList, .int r.sendTimes), ("SendBytes".toList, .int r.sendBytes),
  ("RecvTimes".toList, .int r.recvTimes), ("RecvBytes".toList, .int r.recvBytes),
  ("Conns".toList, .int r.connections), ("SendRate".toList, .int r.sendRate),
  ("Batch".toList, .int r.batch), ("Payload".toList, .int r.payload)] ++ r.ps.json ++
  [("Pprof".toList, .bool r.pprofOn)]

/-- A report of the client. -/
inductive ClientReport
  | connections (r : ConnectionsReport)
  | echo (r : BenchEchoReport)
  | rate (r : BenchRateReport)

namespace ClientReport

def type : ClientReport → ReportType
  | connections _ => .connections
  | echo _ => .benchEcho
  | rate _ => .benchRate

def framework : ClientReport → Str
  | connections r => r.framework
  | echo r => r.framework
  | rate r => r.framework

def json : ClientReport → List (Str × Json ℚ)
  | connections r => r.json
  | echo r => r.json
  | rate r => r.json

/-- The name `main` saves a report under. -/
def name : ClientReport → Str
  | connections r => r.framework ++ "-Connections".toList
  | echo r => r.framework ++ "-BenchEcho".toList
  | rate r => r.framework ++ '-' :: "BenchMultiplex".toList

/-- The row of a report, without its language. -/
def row : ClientReport → Report ℚ
  | connections r => .connections {
      Framework := r.framework, Lang := [], BenchClient := r.benchClient, Threads := r.threads,
      TPS := r.tps, Min := r.min, Avg := r.avg, Max := r.max, TP50 := r.tp50, TP75 := r.tp75,
      TP90 := r.tp90, TP95 := r.tp95, TP99 := r.tp99, Used := r.used, Total := r.total,
      Success := r.success, Failed := r.failed, Concurrency := r.concurrency }
  | echo r => .benchEcho {
      Framework := r.framework, Lang := [], BenchClient := r.benchClient, Threads := r.threads,
      TPS := r.tps, CPUEER := r.cpuEer, MEMEER := r.memEer, Min := r.min, Avg := r.avg, Max := r.max,
      TP50 := r.tp50, TP75 := r.tp75, TP90 := r.tp90, TP95 := r.tp95, TP99 := r.tp99, Used := r.used,
      Total := r.total, Success := r.success, Failed := r.failed, Connections := r.connections,
      Concurrency := r.concurrency, Payload := r.payload, CPUMin := r.ps.cpuMin,
      CPUAvg := r.ps.cpuAvg, CPUMax := r.ps.cpuMax, MEMRSSMin := r.ps.memMin,
      MEMRSSAvg := r.ps.memAvg, MEMRSSMax := r.ps.memMax, Pprof := some r.pprofOn }
  | rate r => .benchRate {
      Framework := r.framework, Lang := [], BenchClient := r.benchClient, Threads := r.threads,
      Duration := r.duration, TPS := r.tps, CPUEER := r.cpuEer, MEMEER := r.memEer,
      SendTimes := r.sendTimes, SendBytes := r.sendBytes, RecvTimes := r.recvTimes,
      RecvBytes := r.recvBytes, Connections := r.connections, SendRate := r.sendRate,
      Batch := r.batch, Payload := r.payload, CPUMin := r.ps.cpuMin, CPUAvg := r.ps.cpuAvg,
      CPUMax := r.ps.cpuMax, MEMRSSMin := r.ps.memMin, MEMRSSAvg := r.ps.memAvg,
      MEMRSSMax := r.ps.memMax, Pprof := some r.pprofOn }

/-- The two programs agree on the names. -/
theorem json_eq_written (r : ClientReport) : r.json = Benchreport.written r.row.fields := by
  cases r <;> rfl

theorem name_eq (r : ClientReport) : r.name = r.type.name r.framework := by
  cases r <;> rfl

end ClientReport

/-! ### The files -/

/-- What became of a write. One that failed left the file as it was, or without anything, or with the
first bytes of what it wrote. -/
inductive Wrote
  | ok
  | kept
  | gone
  | cut (k : ℕ)
  deriving DecidableEq

def Wrote.put (files : Files) (path : Str) (data : Bytes) : Wrote → Files
  | .ok => Function.update files path (some data)
  | .kept => files
  | .gone => Function.update files path none
  | .cut k => Function.update files path (some (data.take k))

/-- One call of `to_file`: the report, the profiles and what became of each step. -/
structure Save where
  report : ClientReport
  pprof : Option (Bytes × Bytes)
  dir : Bool
  cpu : Wrote
  mem : Wrote
  json : Wrote

namespace Save

variable (codec : Codec ℚ) (preffix suffix : Str)

/-- A step of `to_file`, which the error of an earlier one leaves out. -/
def step (s : Files × Bool) (cond : Bool) (path : Str) (data : Bytes) (w : Wrote) : Files × Bool :=
  if s.2 && cond then (w.put s.1 path data, w = .ok) else s

/-- `to_file` up to the JSON. -/
def profiles (files : Files) (a : Save) : Files × Bool :=
  match a.pprof with
  | none => (files, a.dir)
  | some (cpu, mem) =>
    let base := a.report.name
    let s := step (files, a.dir) (cpu ≠ [])
      (Benchreport.filename base preffix (suffix ++ ".pprof.cpu".toList)) cpu a.cpu
    step s (mem ≠ []) (Benchreport.filename base preffix (suffix ++ ".pprof.mem".toList)) mem a.mem

/-- `to_file`, whose error `save` only logs. -/
def toFile (files : Files) (a : Save) : Files × Bool :=
  step (a.profiles preffix suffix files) true
    (Benchreport.filename a.report.name preffix (suffix ++ ".json".toList)) (codec.write a.report.json) a.json

def run (files : Files) (a : Save) : Files := (a.toFile codec preffix suffix files).1

/-- Whether the write of the JSON is reached. -/
def reached (a : Save) : Bool :=
  a.dir && match a.pprof with
    | none => true
    | some (cpu, mem) => (cpu = [] || a.cpu = .ok) && (mem = [] || a.mem = .ok)

end Save

/-! ### What is on the shelf

The last report that was written whole, for each framework and type. -/

abbrev Shelf := Str → ReportType → Option ClientReport

def Shelf.set (shelf : Shelf) (f : Str) (typ : ReportType) (r : Option ClientReport) : Shelf :=
  fun f' typ' => if f' = f ∧ typ' = typ then r else shelf f' typ'

def Save.shelve (shelf : Shelf) (a : Save) : Shelf :=
  if a.reached then
    match a.json with
    | .ok => shelf.set a.report.framework a.report.type (some a.report)
    | .kept => shelf
    | .gone | .cut _ => shelf.set a.report.framework a.report.type none
  else shelf

variable {codec : Codec ℚ} {preffix suffix : Str} {files : Files} {shelf : Shelf}

/-- The file of a report. -/
def jsonPath (preffix suffix f : Str) (typ : ReportType) : Str :=
  Benchreport.filename (typ.name f) preffix (suffix ++ ".json".toList)

theorem text_inj {typ typ' : ReportType} (h : typ.text.getLast? = typ'.text.getLast?) : typ = typ' := by
  cases typ <;> cases typ' <;> first | rfl | exact absurd h (by decide)

/-- No two reports share a file: the last character tells the types apart. -/
theorem jsonPath_inj {f f' : Str} {typ typ' : ReportType}
    (h : jsonPath preffix suffix f typ = jsonPath preffix suffix f' typ') : f = f' ∧ typ = typ' := by
  have hname : f ++ '-' :: typ.text = f' ++ '-' :: typ'.text :=
    List.append_cancel_left (List.append_cancel_right h)
  have hlast : ∀ (f : Str) (typ : ReportType), (f ++ '-' :: typ.text).getLast? = typ.text.getLast? := by
    intro f typ
    rw [List.getLast?_append_cons]
    cases typ <;> rfl
  have htyp : typ = typ' := by
    apply text_inj
    rw [← hlast f, hname, hlast f']
  subst htyp
  exact ⟨List.append_cancel_right hname, rfl⟩

/-- Nor does a report share a file with a profile. -/
theorem jsonPath_ne (base : Str) {ext : Str} (hne : ext ≠ [])
    (h : ext.getLast? ≠ ".json".toList.getLast?) (f : Str) (typ : ReportType) :
    jsonPath preffix suffix f typ ≠ Benchreport.filename base preffix (suffix ++ ext) := by
  intro heq
  apply h
  have hlast := congrArg List.getLast? heq
  unfold jsonPath Benchreport.filename at hlast
  rw [← List.append_assoc, ← List.append_assoc, List.getLast?_append_of_ne_nil _ (by decide),
    List.getLast?_append_of_ne_nil _ hne] at hlast
  exact hlast.symm

/-- The files show what is on the shelf. -/
def Shows (codec : Codec ℚ) (preffix suffix : Str) (files : Files) (shelf : Shelf) : Prop :=
  ∀ f typ, (files (jsonPath preffix suffix f typ)).bind codec.read = (shelf f typ).map ClientReport.json ∧
    ∀ r, shelf f typ = some r → r.framework = f ∧ r.type = typ

theorem Shows.put_other (h : Shows codec preffix suffix files shelf) {path : Str} {data : Bytes}
    (w : Wrote) (hpath : ∀ f typ, jsonPath preffix suffix f typ ≠ path) :
    Shows codec preffix suffix (w.put files path data) shelf := by
  intro f typ
  have hsame : w.put files path data (jsonPath preffix suffix f typ) =
      files (jsonPath preffix suffix f typ) := by
    cases w with
    | kept => rfl
    | ok => exact Function.update_of_ne (hpath f typ) _ _
    | gone => exact Function.update_of_ne (hpath f typ) _ _
    | cut k => exact Function.update_of_ne (hpath f typ) _ _
  rw [hsame]
  exact h f typ

theorem Shows.step_other (h : Shows codec preffix suffix files shelf) {ok cond : Bool} {path : Str}
    {data : Bytes} (w : Wrote) (hpath : ∀ f typ, jsonPath preffix suffix f typ ≠ path) :
    Shows codec preffix suffix (Save.step (files, ok) cond path data w).1 shelf := by
  unfold Save.step
  split
  · exact h.put_other w hpath
  · exact h

/-- A report's own file gets a new content. -/
theorem Shows.set (h : Shows codec preffix suffix files shelf) {g : Str} {typ : ReportType}
    {r : Option ClientReport} {data : Option Bytes}
    (hdata : data.bind codec.read = r.map ClientReport.json)
    (hr : ∀ r', r = some r' → r'.framework = g ∧ r'.type = typ) :
    Shows codec preffix suffix (Function.update files (jsonPath preffix suffix g typ) data)
      (shelf.set g typ r) := by
  intro f typ'
  unfold Shelf.set
  by_cases hsame : f = g ∧ typ' = typ
  · obtain ⟨rfl, rfl⟩ := hsame
    rw [if_pos ⟨rfl, rfl⟩, Function.update_self]
    exact ⟨hdata, hr⟩
  · rw [if_neg hsame, Function.update_of_ne (fun hpath => hsame (jsonPath_inj hpath))]
    exact h f typ'

/-- The text of a report is read back, and one that is cut short is not read. -/
structure Save.Readable (codec : Codec ℚ) (a : Save) : Prop where
  read_write : codec.read (codec.write a.report.json) = some a.report.json
  read_cut : ∀ k, k < (codec.write a.report.json).length →
    codec.read ((codec.write a.report.json).take k) = none
  cut : ∀ k, a.json = .cut k → k < (codec.write a.report.json).length

theorem Shows.put_json {a : Save} (h : Shows codec preffix suffix files shelf) (ha : a.Readable codec) :
    Shows codec preffix suffix (a.json.put files (jsonPath preffix suffix a.report.framework a.report.type)
      (codec.write a.report.json)) (match a.json with
        | .ok => shelf.set a.report.framework a.report.type (some a.report)
        | .kept => shelf
        | .gone | .cut _ => shelf.set a.report.framework a.report.type none) := by
  cases hw : a.json with
  | ok =>
    have hread : (some (codec.write a.report.json)).bind codec.read =
        (some a.report).map ClientReport.json := ha.read_write
    apply h.set hread
    rintro r ⟨⟩
    exact ⟨rfl, rfl⟩
  | kept => exact h
  | gone => exact h.set rfl (fun r hr => by cases hr)
  | cut k => exact h.set (ha.read_cut k (ha.cut k hw)) (fun r hr => by cases hr)

theorem Save.snd_step (s : Files × Bool) (cond : Bool) (path : Str) (data : Bytes) (w : Wrote) :
    (Save.step s cond path data w).2 = (s.2 && (!cond || w = .ok)) := by
  obtain ⟨files, ok⟩ := s
  unfold Save.step
  cases ok <;> cases cond <;> rfl

theorem Shows.profiles (h : Shows codec preffix suffix files shelf) (a : Save) :
    Shows codec preffix suffix (a.profiles preffix suffix files).1 shelf ∧
      (a.profiles preffix suffix files).2 = a.reached := by
  unfold Save.profiles Save.reached
  cases a.pprof with
  | none => exact ⟨h, (Bool.and_true _).symm⟩
  | some p =>
    obtain ⟨cpu, mem⟩ := p
    refine ⟨?_, ?_⟩
    · have hcpu : Shows codec preffix suffix (Save.step (files, a.dir) (cpu ≠ [])
          (Benchreport.filename a.report.name preffix (suffix ++ ".pprof.cpu".toList)) cpu a.cpu).1 shelf :=
        h.step_other a.cpu (jsonPath_ne _ (by decide) (by decide))
      exact hcpu.step_other a.mem (jsonPath_ne _ (by decide) (by decide))
    · rw [Save.snd_step, Save.snd_step, Bool.and_assoc]
      simp

theorem Save.shows {a : Save} (h : Shows codec preffix suffix files shelf) (ha : a.Readable codec) :
    Shows codec preffix suffix (a.run codec preffix suffix files) (a.shelve shelf) := by
  obtain ⟨hfiles, hreached⟩ := h.profiles a
  unfold Save.run Save.toFile Save.step Save.shelve
  rw [hreached, a.report.name_eq]
  cases a.reached with
  | true => exact hfiles.put_json ha
  | false => exact hfiles

theorem Save.shows_foldl (saves : List Save) (hs : ∀ a ∈ saves, a.Readable codec)
    (h : Shows codec preffix suffix files shelf) :
    Shows codec preffix suffix (saves.foldl (Save.run codec preffix suffix) files)
      (saves.foldl Save.shelve shelf) := by
  induction saves generalizing files shelf with
  | nil => exact h
  | cons a rest ih =>
    rw [List.foldl_cons, List.foldl_cons]
    apply ih (fun b hb => hs b (List.mem_cons_of_mem _ hb))
    exact Save.shows h (hs a List.mem_cons_self)

/-- A save puts its own report on the shelf, or none. -/
theorem Save.shelve_eq (a : Save) (shelf : Shelf) : a.shelve shelf = shelf ∨ ∃ r : Option ClientReport,
    a.shelve shelf = shelf.set a.report.framework a.report.type r ∧ ∀ r' ∈ r, r' = a.report := by
  unfold Save.shelve
  split
  · cases a.json with
    | ok => exact .inr ⟨_, rfl, fun r hr => (Option.some.inj hr).symm⟩
    | kept => exact .inl rfl
    | gone => exact .inr ⟨none, rfl, fun r hr => by cases hr⟩
    | cut k => exact .inr ⟨none, rfl, fun r hr => by cases hr⟩
  · exact .inl rfl

/-- What is on the shelf was saved. -/
theorem Save.mem_of_shelf (saves : List Save) {f : Str} {typ : ReportType} {r : ClientReport}
    (h : saves.foldl Save.shelve shelf f typ = some r) :
    (∃ a ∈ saves, a.report = r) ∨ shelf f typ = some r := by
  induction saves generalizing shelf with
  | nil => exact .inr h
  | cons a rest ih =>
    rcases ih h with ⟨b, hb, hr⟩ | hshelf
    · exact .inl ⟨b, List.mem_cons_of_mem _ hb, hr⟩
    · rcases a.shelve_eq shelf with heq | ⟨new, heq, hnew⟩
      · exact .inr (heq ▸ hshelf)
      · rw [heq, Shelf.set] at hshelf
        split at hshelf
        · exact .inl ⟨a, List.mem_cons_self, (hnew r hshelf).symm⟩
        · exact .inr hshelf

/-! ### What is read -/

/-- The row a table has of a report, unless a number is too large for the Go program. -/
def ClientReport.shown (r : ClientReport) : Option (Report ℚ) :=
  if r.row.fits then some (r.row.setLang (Benchreport.frameworkLang r.framework)) else none

/-- The object of a report is read as its row. -/
theorem ClientReport.unmarshal_json (r : ClientReport) (v : Str) :
    (Benchreport.unmarshal Benchreport.exact r.type.jsonFields (r.type.create Benchreport.exact v).values
      r.json).bind (fun values => Benchreport.Values.report ⟨values⟩ r.type) =
        if r.row.fits then some r.row else none := by
  have hrow := Benchreport.unmarshal_report (A := Benchreport.exact) r.row v
  cases r <;> exact hrow

theorem Shows.readReport (h : Shows codec preffix suffix files shelf) (typ : ReportType) (f : Str) :
    Benchreport.readReport Benchreport.exact codec files preffix suffix typ f =
      (shelf f typ).bind ClientReport.shown := by
  obtain ⟨hfile, hshelf⟩ := h f typ
  have hread : Benchreport.readReport Benchreport.exact codec files preffix suffix typ f =
      (((files (jsonPath preffix suffix f typ)).bind codec.read).bind (fun members =>
        (Benchreport.unmarshal Benchreport.exact typ.jsonFields
          (typ.create Benchreport.exact f).values members).bind
          (fun values => Benchreport.Values.report ⟨values⟩ typ))).map
            (Report.setLang (Benchreport.frameworkLang f)) := by
    unfold Benchreport.readReport jsonPath
    simp only [Option.bind_eq_bind, Option.bind_assoc, Option.map_eq_bind]
    rfl
  rw [hread, hfile]
  cases hr : shelf f typ with
  | none => rfl
  | some r =>
    obtain ⟨rfl, rfl⟩ := hshelf r hr
    rw [Option.map_some, Option.bind_some, r.unmarshal_json, Option.bind_some, ClientReport.shown]
    split
    · rfl
    · rfl

/-! ### Nothing to fill in -/

variable {P : Platform} {c : Settings}

/-- The reports a client has made so far. -/
def Session.reports (s : Session P) : List ClientReport :=
  (s.connections.map .connections).toList ++ (s.echo.map .echo).toList ++ (s.rate.map .rate).toList

/-- How `main` makes a report. -/
def ClientReport.Made (c : Settings) : ClientReport → Prop
  | connections r => ∃ os used, connectionsReport c os used = some r
  | echo r => ∃ ready os used ps, benchEchoReport c ready os used ps = some r
  | rate r => ∃ batch conns os ps, benchRateReport c batch conns os ps = r

theorem Session.Step.made {s s' : Session P} (hstep : Step c s s') (h : ∀ r ∈ s.reports, r.Made c) :
    ∀ r ∈ s'.reports, r.Made c := by
  have hall : ∀ t : Session P, (∀ r ∈ t.reports, r.Made c) ↔
      (∀ r, t.connections = some r → (ClientReport.connections r).Made c) ∧
        (∀ r, t.echo = some r → (ClientReport.echo r).Made c) ∧
          ∀ r, t.rate = some r → (ClientReport.rate r).Made c := by
    intro t
    simp [Session.reports, or_imp, forall_and]
  rw [hall] at h ⊢
  obtain ⟨hconn, hecho, hrate⟩ := h
  cases hstep with
  | dialed _ _ hr =>
    refine ⟨?_, hecho, hrate⟩
    rintro r ⟨⟩
    exact ⟨_, _, hr⟩
  | echoed _ _ hr =>
    refine ⟨hconn, ?_, hrate⟩
    rintro r ⟨⟩
    exact ⟨_, _, _, _, hr⟩
  | rated =>
    refine ⟨hconn, hecho, ?_⟩
    rintro r ⟨⟩
    exact ⟨_, _, _, _, rfl⟩
  | _ => exact ⟨hconn, hecho, hrate⟩

theorem Session.Reach.made {cfg : EngineConfig} {s : Session P} (h : s.Reach cfg c) :
    ∀ r ∈ s.reports, r.Made c := by
  obtain ⟨starts, -, hrun⟩ := h
  induction hrun with
  | refl => exact fun r hr => by cases hr
  | tail _ hstep ih => exact hstep.made ih

theorem satI64_eq_zero {x : ℤ} (h : satI64 x = 0) : x = 0 := by
  unfold satI64 at h
  omega

theorem asI64_of_lt {n : ℕ} (h : n < 2 ^ 63) : asI64 n = n := by
  unfold asI64
  rw [Int.bmod_eq_of_le] <;> omega

/-- The rate the Go program computes is the client's, as long as the nanoseconds fit. -/
theorem rateTPS_eq (c : Settings) (hd : c.duration < 2 ^ 63) (recv : ℕ) :
    Benchreport.RateTPS recv (asI64 c.duration) = (recv : ℚ) / (max c.rd 1).toNat := by
  have hsecs : 0 < (max c.rd 1).toNat := by omega
  have hpos : 0 < c.duration := Nat.mul_pos hsecs (by decide)
  rw [asI64_of_lt hd, Benchreport.RateTPS, if_neg (by exact_mod_cast Nat.not_le.mpr hpos)]
  have hquot : ((c.duration : ℤ) : ℚ) / 10 ^ 9 = (max c.rd 1).toNat := by
    unfold Settings.duration second
    push_cast
    rw [mul_div_assoc]
    norm_num
  rw [hquot]
  rfl

/-- An EER that is 0 is filled in as 0. -/
theorem ClientReport.Made.fill {r : ClientReport} (h : r.Made c) (hd : c.duration < 2 ^ 63) (lang : Str) :
    (r.row.setLang lang).fill = r.row.setLang lang := by
  cases r with
  | connections r => rfl
  | echo r =>
    obtain ⟨ready, os, used, ps, hr⟩ := h
    obtain ⟨sum, -, hrep⟩ := Option.bind_eq_some_iff.mp hr
    obtain rfl := Option.some.inj hrep
    exact congrArg Report.benchEcho (Benchreport.BenchEchoReport.fillEER_eq rfl rfl)
  | rate r =>
    obtain ⟨batch, conns, os, ps, rfl⟩ := h
    have hrate := rateTPS_eq c hd (sumRates os).recvTimes
    have htps : ∀ {x : ℚ}, x = 0 → satI64 ⌊x⌋ = 0 := by
      rintro x rfl
      rw [Int.floor_zero]
      rfl
    simp only [ClientReport.row, Report.setLang, Report.fill, Report.benchRate.injEq, benchRateReport]
    rw [Benchreport.BenchRateReport.fillTPS_eq]
    · apply Benchreport.BenchRateReport.fillEER_eq
      · simp only [hrate]
        exact htps
      · simp only [hrate]
        rfl
      · simp only [hrate]
        rfl
    · simp only [hrate]
      exact satI64_eq_zero

/-! ### The tables -/

/-- A report of some run of some client. -/
def ClientReport.OfRun (r : ClientReport) : Prop :=
  ∃ (P : Platform) (cfg : EngineConfig) (c : Settings) (s : Session P),
    s.Reach cfg c ∧ c.duration < 2 ^ 63 ∧ r ∈ s.reports

theorem ClientReport.OfRun.fill {r : ClientReport} (h : r.OfRun) (lang : Str) :
    (r.row.setLang lang).fill = r.row.setLang lang := by
  obtain ⟨P, cfg, c, s, hs, hd, hr⟩ := h
  exact (hs.made r hr).fill hd lang

/-- Whatever clients ran, in any order and as often as it was, and whatever became of their writes: the
tables have one row for each framework whose last report was written whole, in the order of
`FrameworkList`, and it is that report. -/
theorem tables_show_runs (saves : List Save) (hruns : ∀ a ∈ saves, a.report.OfRun)
    (hs : ∀ a ∈ saves, a.Readable codec) (hnew : ∀ f typ, files (jsonPath preffix suffix f typ) = none)
    (typ : ReportType) :
    Benchreport.readFilled codec (saves.foldl (Save.run codec preffix suffix) files) preffix suffix typ =
      FrameworkList.filterMap (fun f =>
        (saves.foldl Save.shelve (fun _ _ => none) f typ).bind ClientReport.shown) := by
  have hshows : Shows codec preffix suffix files (fun _ _ => none) := by
    intro f typ
    rw [hnew f typ]
    exact ⟨rfl, fun r hr => by cases hr⟩
  have hread := funext ((Save.shows_foldl saves hs hshows).readReport typ)
  have hfill : (FrameworkList.filterMap (fun f =>
      (saves.foldl Save.shelve (fun _ _ => none) f typ).bind ClientReport.shown)).map Report.fill =
        FrameworkList.filterMap (fun f =>
          (saves.foldl Save.shelve (fun _ _ => none) f typ).bind ClientReport.shown) := by
    rw [List.map_filterMap]
    apply List.filterMap_congr
    intro f _
    cases hr : saves.foldl Save.shelve (fun _ _ => none) f typ with
    | none => rfl
    | some r =>
      obtain ⟨a, ha, rfl⟩ := (Save.mem_of_shelf saves hr).resolve_right (by simp)
      rw [Option.bind_some, ClientReport.shown]
      split
      · exact congrArg some ((hruns a ha).fill _)
      · rfl
  exact (congrArg (fun read => (FrameworkList.filterMap read).map Report.fill) hread).trans hfill

/-! ### A run that is shown -/

/-- The text of a number with a fraction, to the sixth place. -/
def floatText (x : ℚ) : Str :=
  let micros := (x * 10 ^ 6).floor.natAbs
  (if x < 0 then ['-'] else []) ++ Nat.toDigits 10 (micros / 10 ^ 6) ++ '.' ::
    (if micros % 10 ^ 6 = 0 then ['0'] else
      let digits := Nat.toDigits 10 (micros % 10 ^ 6)
      List.replicate (6 - digits.length) '0' ++ digits)

def jsonText : Json ℚ → Str
  | .null => "null".toList
  | .bool b => (toString b).toList
  | .int i => (toString i).toList
  | .float x => floatText x
  | .string s => '"' :: s ++ ['"']

/-- An object without blanks, as `serde_json` writes it. -/
def objectText (members : List (Str × Json ℚ)) : Bytes :=
  ('\x7b' :: (List.intercalate [','] (members.map (fun m => '"' :: m.1 ++ '"' :: ':' :: jsonText m.2))) ++
    ['\x7d']).map (fun c => UInt8.ofNat c.toNat)

/-- It reads the texts of the objects `known`, and nothing else. -/
def codecOf (known : List (List (Str × Json ℚ))) : Codec ℚ where
  write := objectText
  read b := known.find? (fun members => objectText members = b)

/-- Neither of two texts begins with the other. -/
def Apart (a b : List (Str × Json ℚ)) : Prop :=
  ¬ objectText a <+: objectText b ∧ ¬ objectText b <+: objectText a

instance (a b : List (Str × Json ℚ)) : Decidable (Apart a b) :=
  inferInstanceAs (Decidable (_ ∧ _))

instance : Std.Symm Apart := ⟨fun _ _ h => ⟨h.2, h.1⟩⟩

theorem readable_codecOf {known : List (List (Str × Json ℚ))} (hknown : known.Pairwise Apart) {a : Save}
    (hmem : a.report.json ∈ known)
    (hcut : ∀ k, a.json = .cut k → k < (objectText a.report.json).length) :
    a.Readable (codecOf known) where
  read_write := by
    change known.find? (fun members => objectText members = objectText a.report.json) = _
    cases hfound : known.find? (fun members => objectText members = objectText a.report.json) with
    | none => exact absurd (decide_eq_true rfl) (List.find?_eq_none.mp hfound _ hmem)
    | some members =>
      have htext : objectText members = objectText a.report.json := by simpa using List.find?_some hfound
      by_contra hne
      have hother : a.report.json ≠ members := fun heq => hne (heq ▸ rfl)
      have hapart := hknown.forall hmem (List.mem_of_find?_eq_some hfound) hother
      exact hapart.1 (htext ▸ List.prefix_refl _)
  read_cut k hk := by
    refine List.find?_eq_none.mpr (fun members hread htext => ?_)
    have hk : k < (objectText a.report.json).length := hk
    have htext : objectText members = (objectText a.report.json).take k := of_decide_eq_true htext
    have hprefix : objectText members <+: objectText a.report.json := htext ▸ List.take_prefix _ _
    by_cases hother : members = a.report.json
    · have hlen := congrArg List.length htext
      rw [hother, List.length_take_of_le (Nat.le_of_lt hk)] at hlen
      exact Nat.ne_of_gt hk hlen
    · exact (hknown.forall hread hmem hother).1 hprefix
  cut := hcut

/-- The reports of a client with one connection and two requests. -/
def smallConnections : ConnectionsReport where
  framework := "quiche".toList
  benchClient := clientName
  threads := 1
  tps := 0
  min := 7
  avg := 7
  max := 7
  tp50 := 7
  tp75 := 7
  tp90 := 7
  tp95 := 7
  tp99 := 7
  used := 0
  total := 1
  success := 1
  failed := 0
  concurrency := 1

def smallEcho (success failed : ℤ) : BenchEchoReport where
  framework := "quiche".toList
  benchClient := clientName
  threads := 1
  tps := 0
  cpuEer := 0
  memEer := 0
  min := 3
  avg := 3
  max := 3
  tp50 := 3
  tp75 := 3
  tp90 := 3
  tp95 := 3
  tp99 := 3
  used := 0
  total := 2
  success := success
  failed := failed
  connections := 1
  concurrency := 1
  payload := 1
  ps := {}
  pprofOn := false

/-- The client runs twice. The second time one of its requests is answered with another byte, its first
report is cut short and its second one not written at all. -/
def smallSaves : List Save := [
  ⟨.connections smallConnections, none, true, .ok, .ok, .ok⟩, ⟨.echo (smallEcho 2 0), none, true, .ok, .ok, .ok⟩,
  ⟨.connections smallConnections, none, true, .ok, .ok, .cut 20⟩,
  ⟨.echo (smallEcho 1 1), none, true, .ok, .ok, .kept⟩]

def smallKnown : List (List (Str × Json ℚ)) :=
  [smallConnections.json, (smallEcho 2 0).json, (smallEcho 1 1).json]

open Session in
theorem smallSaves_ofRun : ∀ a ∈ smallSaves, a.report.OfRun := by
  let again : List (loopback.Os × Instant) := [({
    polls := [[.waker], [.slot 0], [.slot 0], [.waker]] ++ List.replicate 5 [.slot 0] ++
      [[.waker], [.slot 0], [.slot 0]]
    inbox := [([[1]], none), ([[2]], none)] ++ List.replicate 6 ([[2, 7]], none) ++ [([[2, 8]], none)] }, 0)]
  obtain ⟨s₁, hs₁, hp₁⟩ := exists_reach loopbackConfig smallSettings smallStarts rfl smallRun
    (fun s => s.connections = some smallConnections ∧ s.echo = some (smallEcho 2 0)) (by decide +kernel)
  obtain ⟨s₂, hs₂, hp₂⟩ := exists_reach loopbackConfig smallSettings again rfl smallRun
    (fun s => s.connections = some smallConnections ∧ s.echo = some (smallEcho 1 1)) (by decide +kernel)
  obtain ⟨hconn₁, hecho₁⟩ := of_decide_eq_true hp₁
  obtain ⟨hconn₂, hecho₂⟩ := of_decide_eq_true hp₂
  have hrun : ∀ {s : Session loopback} {r : ClientReport}, s.Reach loopbackConfig smallSettings →
      r ∈ s.reports → r.OfRun := fun hs hr => ⟨loopback, loopbackConfig, smallSettings, _, hs, by decide, hr⟩
  unfold smallSaves
  simp only [List.forall_mem_cons, List.not_mem_nil, IsEmpty.forall_iff, implies_true, and_true]
  refine ⟨hrun hs₁ ?_, hrun hs₁ ?_, hrun hs₂ ?_, hrun hs₂ ?_⟩
  · simp [Session.reports, hconn₁]
  · simp [Session.reports, hecho₁]
  · simp [Session.reports, hconn₂]
  · simp [Session.reports, hecho₂]

/-- The report that was not written leaves the earlier one, and the one that was cut short nothing. -/
theorem tables_show_runs_small :
    Benchreport.readFilled (codecOf smallKnown)
        (smallSaves.foldl (Save.run (codecOf smallKnown) [] []) (fun _ => none)) [] [] .benchEcho =
      [(ClientReport.echo (smallEcho 2 0)).row.setLang "rust".toList] ∧
    Benchreport.readFilled (codecOf smallKnown)
        (smallSaves.foldl (Save.run (codecOf smallKnown) [] []) (fun _ => none)) [] [] .connections = [] := by
  have hknown : smallKnown.Pairwise Apart := by decide +kernel
  have hreadable : ∀ a ∈ smallSaves, a.Readable (codecOf smallKnown) := by
    unfold smallSaves
    simp only [List.forall_mem_cons, List.not_mem_nil, IsEmpty.forall_iff, implies_true, and_true]
    refine ⟨readable_codecOf hknown (by simp [smallKnown, ClientReport.json]) ?_,
      readable_codecOf hknown (by simp [smallKnown, ClientReport.json]) ?_,
      readable_codecOf hknown (by simp [smallKnown, ClientReport.json]) ?_,
      readable_codecOf hknown (by simp [smallKnown, ClientReport.json]) ?_⟩
    · rintro k ⟨⟩
    · rintro k ⟨⟩
    · rintro k ⟨⟩
      decide +kernel
    · rintro k ⟨⟩
  constructor
  · rw [tables_show_runs smallSaves smallSaves_ofRun hreadable (fun _ _ => rfl)]
    rfl
  · rw [tables_show_runs smallSaves smallSaves_ofRun hreadable (fun _ _ => rfl)]
    rfl

end Http3Bench
