import Http3Bench.ControlCalls

/-!
# The process that is sampled

How `setup` of `benchcli-rust/src/ps.rs` chooses the process whose CPU and memory a run reports, and
what `benchkit/src/procstat.rs` reads of it in `/proc`. A name is that of an `argv[0]`, which a process
writes itself, as it does the command name in its `stat`. Each access to `/proc` may find other
processes there.
-/

namespace Http3Bench.Procstat

open Text (splitWhitespace parseUnsigned lossy isWhitespace encode decode)
open Control (parseI32)

abbrev Str := List Char

/-- `/proc`, as far as it can be read, and what `ps -o comm= -p` prints. -/
structure ProcFs where
  entries : Except String (List Str)
  cmdline : ℤ → Option (List UInt8)
  stat : ℤ → Except String (List UInt8)
  statm : ℤ → Except String (List UInt8)
  ps : ℤ → Option (List UInt8)

/-- The accesses of one search for a process and one start of a sampler. Those for the name of a
process are numbered. -/
inductive Access
  | entries
  | cmdline (i : ℕ)
  | ps (i : ℕ)
  | stat
  | statm
  deriving DecidableEq

/-! ### The program -/

/-- `rsplit('/').next()`. -/
def basename (path : Str) : Str := (path.splitOn '/').getLast?.getD path

def processName (fs : Access → ProcFs) (i : ℕ) (pid : ℤ) : Option Str :=
  match (fs (.cmdline i)).cmdline pid with
  | some cmdline =>
    let argv0 := cmdline.takeWhile (· ≠ 0)
    if argv0.isEmpty then none else some (basename (lossy argv0))
  | none => ((fs (.ps i)).ps pid).bind (fun out =>
      let comm := Text.trim (lossy out)
      if comm.isEmpty then none else some (basename comm))

/-- With a `/proc`. -/
def processesNamed (fs : Access → ProcFs) (name : Str) : Except String (List ℤ) :=
  (fs .entries).entries.map (fun entries =>
    ((entries.filterMap parseI32).zipIdx.filter
      (fun e => processName fs e.2 e.1 == some name)).map Prod.fst)

inductive Found
  | error (e : String)
  | missing (name : Str)
  | several (pids : List ℤ) (name : Str)
  deriving DecidableEq

def serverName (framework : Str) : Str := framework ++ ".server".toList

def findServerProcess (fs : Access → ProcFs) (framework : Str) : Except Found ℤ :=
  let name := serverName framework
  match processesNamed fs name with
  | .error e => .error (.error e)
  | .ok [] => .error (.missing name)
  | .ok [pid] => .ok pid
  | .ok pids => .error (.several pids name)

/-- `fs::read_to_string` of a file with these bytes. -/
def readToString (bytes : List UInt8) : Except String Str :=
  match decode bytes with
  | some s => .ok s
  | none => .error "stream did not contain valid UTF-8"

def u64 : ℕ := 18446744073709551616

/-- `&stat[stat.rfind(')')? + 1..]`. -/
def afterLast (c : Char) (s : Str) : Option Str :=
  if s.elem c then some (s.rtakeWhile (· ≠ c)) else none

def parseU64 (s : Str) : Option ℕ := parseUnsigned (u64 - 1) s

/-- On Linux, with `_SC_CLK_TCK` and `_SC_PAGESIZE`. Sums and products of `u64` wrap around. -/
def cpuAndRss (fs : Access → ProcFs) (hz page : ℕ) (pid : ℤ) : Except String (Duration × ℕ) := do
  let stat ← (fs .stat).stat pid >>= readToString
  let some rest := afterLast ')' stat | .error "malformed stat"
  let fields := splitWhitespace rest
  let some user := (fields[11]?).bind parseU64 | .error "malformed stat"
  let some system := (fields[12]?).bind parseU64 | .error "malformed stat"
  let cpuTicks := (user + system) % u64
  let statm ← (fs .statm).statm pid >>= readToString
  let some pages := ((splitWhitespace statm)[1]?).bind parseU64 | .error "malformed statm"
  return (cpuTicks * 1000000000 % u64 / max hz 1, pages * max page 1 % u64)

/-- What a search and the start of a sampler meet: what there is at each access, and whether a thread
can be spawned. -/
structure Machine where
  fs : Access → ProcFs
  spawn : Except String Unit

/-- `Sampler::start`, which reads the process once; when its thread starts does not matter here. -/
def startSampler (m : Machine) (hz page : ℕ) (pid : ℤ) : Except String Sampler :=
  (Sampler.start pid (cpuAndRss m.fs hz page pid) 0 m.spawn).map (fun th => ⟨th.pid, th.samples⟩)

inductive Mode
  | auto
  | here
  | remote
  deriving DecidableEq

/-- `setup`. It meets `m` when it looks for the server, and `m'` after `init` was answered with a pid
or an error. -/
def setup (m m' : Machine) (hz page : ℕ) (framework : Str) (mode : Mode) (isLocal : Bool)
    (addr : Except String SocketAddr) (noAddr : SocketAddr) (init : Except String ℤ) :
    PsSource × Option String :=
  match addr with
  | .error e => (.remote ⟨noAddr⟩, some e)
  | .ok addr =>
    let wantLocal := mode = .here ∨ (mode = .auto ∧ isLocal)
    let started : Option Sampler :=
      match findServerProcess m.fs framework with
      | .ok pid => (startSampler m hz page pid).toOption
      | .error _ => none
    match (if wantLocal then started else none) with
    | some sampler => (.here sampler none, none)
    | none =>
      match init with
      | .error e => (.remote ⟨addr⟩, some e)
      | .ok pid =>
        if wantLocal ∧ processName m'.fs 0 pid = some (serverName framework) then
          match startSampler m' hz page pid with
          | .ok sampler => (.here sampler (some ⟨addr⟩), none)
          | .error _ => (.remote ⟨addr⟩, none)
        else (.remote ⟨addr⟩, none)

/-! ### What the kernel writes -/

/-- A process. Its command name and its arguments are its own to choose; `before` are the fields of
`stat` from the state to `cmajflt`. -/
structure Process where
  pid : ℕ
  argv : List (List UInt8)
  comm : List UInt8
  before : List Str
  utime : ℕ
  stime : ℕ
  after : List Str
  size : ℕ
  resident : ℕ
  rest : List Str

/-- A field of `stat`. -/
def IsField (s : Str) : Prop := s ≠ [] ∧ ∀ c ∈ s, isWhitespace c = false ∧ c ≠ ')'

instance (s : Str) : Decidable (IsField s) :=
  decidable_of_iff (s ≠ [] ∧ s.all fun c => !isWhitespace c && c != ')') (by simp [IsField])

structure Process.Ok (p : Process) : Prop where
  argv : ∀ arg ∈ p.argv, 0 ∉ arg
  before : p.before.length = 11 ∧ ∀ s ∈ p.before, IsField s
  after : ∀ s ∈ p.after, IsField s
  rest : ∀ s ∈ p.rest, IsField s
  utime : p.utime < u64
  stime : p.stime < u64
  resident : p.resident < u64

def digits (n : ℕ) : Str := Nat.toDigits 10 n

def line (fields : List Str) : Str := [' '].intercalate fields ++ ['\n']

namespace Process

/-- The bytes of `stat`; those of the command name are what the process has set. -/
def stat (p : Process) : List UInt8 :=
  encode (digits p.pid ++ [' ', '(']) ++ p.comm ++ encode ([')', ' '] ++
    line (p.before ++ digits p.utime :: digits p.stime :: p.after))

def statm (p : Process) : List UInt8 :=
  encode (line (digits p.size :: digits p.resident :: p.rest))

def cmdline (p : Process) : List UInt8 := p.argv.flatMap (fun arg => arg ++ [0])

/-- The name of a process is that of its `argv[0]`. -/
def name (p : Process) : Option Str :=
  p.argv.head?.bind (fun argv0 => if argv0.isEmpty then none else some (basename (lossy argv0)))

end Process

/-- What there is at one access: the entries of `/proc`, the processes whose files can be read, and
what `ps` would print. -/
structure Sight where
  entries : Except String (List Str)
  procs : List Process
  gone : String
  ps : ℤ → Option (List UInt8)
  pids : (procs.map Process.pid).Nodup
  ok : ∀ p ∈ procs, p.Ok

namespace Sight

def file {α : Type} (s : Sight) (pid : ℤ) (f : Process → α) : Option α :=
  (s.procs.find? (fun p => (p.pid : ℤ) = pid)).map f

def files (s : Sight) : ProcFs where
  entries := s.entries
  cmdline := fun pid => s.file pid Process.cmdline
  stat := fun pid => (s.file pid Process.stat).elim (.error s.gone) .ok
  statm := fun pid => (s.file pid Process.statm).elim (.error s.gone) .ok
  ps := s.ps

/-- The process `pid` is there. -/
def Has (s : Sight) (pid : ℤ) (p : Process) : Prop := p ∈ s.procs ∧ (p.pid : ℤ) = pid

end Sight

/-! ### What is read of it -/

theorem isField_digits (n : ℕ) : IsField (digits n) := by
  refine ⟨Nat.toDigits_ne_nil, fun c hc => ?_⟩
  have hdigit : c.isDigit := Nat.isDigit_of_mem_toDigits (by decide) (by decide) hc
  refine ⟨Text.isWhitespace_of_isDigit hdigit, ?_⟩
  rintro rfl
  exact absurd hdigit (by decide)

theorem splitWhitespace_line (fields : List Str) (h : ∀ s ∈ fields, IsField s) :
    splitWhitespace (line fields) = fields := by
  induction fields with
  | nil => rfl
  | cons s rest ih =>
    have hs := h s List.mem_cons_self
    cases rest with
    | nil =>
      have hline : line [s] = s ++ '\n' :: [] := by simp [line]
      rw [hline, Text.splitWhitespace_word (fun c hc => (hs.2 c hc).1) hs.1 (by decide)]
      rfl
    | cons s' rest =>
      have hline : line (s :: s' :: rest) = s ++ ' ' :: line (s' :: rest) := by
        simp [line, List.intercalate_cons_cons]
      rw [hline, Text.splitWhitespace_word (fun c hc => (hs.2 c hc).1) hs.1 (by decide),
        ih (fun s hs => h s (List.mem_cons_of_mem _ hs))]

theorem splitWhitespace_space (s : Str) : splitWhitespace (' ' :: s) = splitWhitespace s := by
  have hsplit : (([] : Str) ++ ' ' :: s).splitOnP isWhitespace = [] :: s.splitOnP isWhitespace :=
    List.splitOnP_append_cons_of_forall_mem (by simp) ' ' (by decide) s
  rw [splitWhitespace, ← List.nil_append (' ' :: s), hsplit]
  rfl

theorem not_mem_line {fields : List Str} (h : ∀ s ∈ fields, IsField s) : ')' ∉ line fields := by
  induction fields with
  | nil => decide
  | cons s rest ih =>
    have hs : ')' ∉ s := fun hc => ((h s List.mem_cons_self).2 _ hc).2 rfl
    have hrest := ih (fun s hs => h s (List.mem_cons_of_mem _ hs))
    cases rest with
    | nil => simpa [line] using hs
    | cons s' rest =>
      have hline : line (s :: s' :: rest) = s ++ ' ' :: line (s' :: rest) := by
        simp [line, List.intercalate_cons_cons]
      rw [hline, List.mem_append, List.mem_cons]
      rintro (hc | hc | hc)
      · exact hs hc
      · cases hc
      · exact hrest hc

theorem afterLast_append {c : Char} {rest : Str} (h : c ∉ rest) (front : Str) :
    afterLast c (front ++ c :: rest) = some rest := by
  have hmem : (front ++ c :: rest).elem c = true := List.elem_iff.mpr (by simp)
  have hrest : ∀ x ∈ rest.reverse, (fun x => decide (x ≠ c)) x = true := by
    intro x hx
    exact decide_eq_true (fun heq => h (heq ▸ List.mem_reverse.mp hx))
  rw [afterLast, if_pos hmem, List.rtakeWhile, List.reverse_append, List.reverse_cons, List.append_assoc,
    List.takeWhile_append_of_pos hrest, List.singleton_append, List.takeWhile_cons_of_neg (by simp),
    List.append_nil, List.reverse_reverse]

example : afterLast ')' "7 (a) b) R 1".toList = some " R 1".toList := by decide

theorem parseU64_digits {n : ℕ} (h : n < u64) : parseU64 (digits n) = some n :=
  Text.parseUnsigned_toDigits (by unfold u64 at *; omega)

theorem find_pid {procs : List Process} (hpids : (procs.map Process.pid).Nodup) {p : Process}
    (hp : p ∈ procs) : procs.find? (fun q => (q.pid : ℤ) = p.pid) = some p := by
  induction procs with
  | nil => cases hp
  | cons q procs ih =>
    rw [List.map_cons, List.nodup_cons] at hpids
    rcases List.mem_cons.mp hp with rfl | hp
    · exact List.find?_cons_of_pos (by simp)
    · have hne : (q.pid : ℤ) ≠ p.pid := by
        intro heq
        exact hpids.1 (Nat.cast_injective heq ▸ List.mem_map_of_mem hp)
      rw [List.find?_cons_of_neg (by simpa using hne), ih hpids.2 hp]

section File

variable {α : Type} {s : Sight} {pid : ℤ} {p : Process} {f : Process → α}

theorem Sight.file_of_has (h : s.Has pid p) : s.file pid f = some (f p) := by
  obtain ⟨hp, rfl⟩ := h
  rw [Sight.file, find_pid s.pids hp]
  rfl

theorem Sight.file_of_not_has (h : ∀ p, ¬s.Has pid p) : s.file pid f = none := by
  have hnone : s.procs.find? (fun q => (q.pid : ℤ) = pid) = none := by
    rw [List.find?_eq_none]
    intro q hq
    simpa using fun heq => h q ⟨hq, heq⟩
  rw [Sight.file, hnone]
  rfl

theorem Sight.file_eq_some {b : α} : s.file pid f = some b ↔ ∃ p, s.Has pid p ∧ b = f p := by
  constructor
  · intro h
    by_cases hmem : ∃ p, s.Has pid p
    · obtain ⟨p, hp⟩ := hmem
      rw [Sight.file_of_has hp] at h
      exact ⟨p, hp, (Option.some.inj h).symm⟩
    · rw [Sight.file_of_not_has (fun p hp => hmem ⟨p, hp⟩)] at h
      cases h
  · rintro ⟨p, hp, rfl⟩
    exact Sight.file_of_has hp

end File

/-- What `read_to_string` makes of a file of a process. -/
theorem bind_readToString {s : Sight} {pid : ℤ} {f : Process → List UInt8} {t : Str} :
    (s.file pid f).elim (.error s.gone) .ok >>= readToString = .ok t ↔
      ∃ p, s.Has pid p ∧ readToString (f p) = .ok t := by
  cases hfile : s.file pid f with
  | none =>
    refine ⟨fun h => (by cases h), ?_⟩
    rintro ⟨p, hp, -⟩
    rw [Sight.file_of_has hp] at hfile
    cases hfile
  | some b =>
    obtain ⟨p, hp, rfl⟩ := Sight.file_eq_some.mp hfile
    refine ⟨fun h => ⟨p, hp, h⟩, ?_⟩
    rintro ⟨q, hq, h⟩
    rw [Sight.file_of_has hq] at hfile
    rw [← Option.some.inj hfile]
    exact h

/-- A command name that can be read. -/
def IsText (comm : List UInt8) : Prop := ∃ s, comm = encode s

/-- What is read of a `stat` is text exactly if the command name is. -/
theorem readToString_stat {p : Process} (s : Str) : readToString p.stat = .ok s ↔
    ∃ comm, p.comm = encode comm ∧ s = (digits p.pid ++ [' ', '('] ++ comm) ++
      ')' :: (' ' :: line (p.before ++ digits p.utime :: digits p.stime :: p.after)) := by
  have hopen : encode ['('] = [40] := by decide +kernel
  have hclose : encode [')'] = [41] := by decide +kernel
  have hshape : p.stat = (encode (digits p.pid ++ [' ']) ++ 40 :: p.comm) ++ 41 ::
      encode (' ' :: line (p.before ++ digits p.utime :: digits p.stime :: p.after)) := by
    have hfront : digits p.pid ++ [' ', '('] = digits p.pid ++ [' '] ++ ['('] := by simp
    have hback : [')', ' '] ++ line (p.before ++ digits p.utime :: digits p.stime :: p.after) =
        [')'] ++ (' ' :: line (p.before ++ digits p.utime :: digits p.stime :: p.after)) := rfl
    rw [Process.stat, hfront, hback, Text.encode_append, Text.encode_append [')'], hopen, hclose]
    simp
  have hread : readToString p.stat = .ok s ↔ p.stat = encode s := by
    unfold readToString
    rw [← Text.decode_eq_some]
    cases decode p.stat with
    | none => simp
    | some t => simp
  rw [hread]
  constructor
  · intro h
    rw [hshape] at h
    obtain ⟨s₁, s₂, rfl, h₁, h₂⟩ :=
      Text.encode_eq_append_cons (a := ')') (by decide +kernel) (by decide +kernel) h.symm
    obtain ⟨s₃, comm, rfl, h₃, hcomm⟩ :=
      Text.encode_eq_append_cons (a := '(') (by decide +kernel) (by decide +kernel) h₁
    refine ⟨comm, hcomm.symm, ?_⟩
    have hs₂ := Text.decode_encode s₂
    have hs₃ := Text.decode_encode s₃
    rw [h₂, Text.decode_encode] at hs₂
    rw [h₃, Text.decode_encode] at hs₃
    rw [← Option.some.inj hs₂, ← Option.some.inj hs₃]
    simp
  · rintro ⟨comm, hcomm, rfl⟩
    rw [Process.stat, hcomm, ← Text.encode_append, ← Text.encode_append]
    simp

variable {fs : Access → Sight} {hz page : ℕ} {pid : ℤ}

/-- Whatever a process calls itself, as long as it can be read, what is read of it is its CPU time and
its resident memory. -/
theorem cpuAndRss_eq {p q : Process} (hp : (fs .stat).Has pid p) (htext : IsText p.comm)
    (hq : (fs .statm).Has pid q) : cpuAndRss (fun a => (fs a).files) hz page pid =
      .ok ((p.utime + p.stime) % u64 * 1000000000 % u64 / max hz 1, q.resident * max page 1 % u64) := by
  have hok := (fs .stat).ok p hp.1
  have hfields : ∀ s ∈ p.before ++ digits p.utime :: digits p.stime :: p.after, IsField s := by
    intro s hs
    simp only [List.mem_append, List.mem_cons] at hs
    rcases hs with hs | rfl | rfl | hs
    · exact hok.before.2 s hs
    · exact isField_digits _
    · exact isField_digits _
    · exact hok.after s hs
  obtain ⟨comm, hcomm⟩ := htext
  have hstat : (fs .stat).files.stat pid >>= readToString =
      .ok ((digits p.pid ++ [' ', '('] ++ comm) ++
        ')' :: (' ' :: line (p.before ++ digits p.utime :: digits p.stime :: p.after))) :=
    bind_readToString.mpr ⟨p, hp, (readToString_stat _).mpr ⟨comm, hcomm, rfl⟩⟩
  have hstatm : (fs .statm).files.statm pid >>= readToString =
      .ok (line (digits q.size :: digits q.resident :: q.rest)) := by
    refine bind_readToString.mpr ⟨q, hq, ?_⟩
    rw [readToString, Process.statm, Text.decode_encode]
  have hrest : afterLast ')' ((digits p.pid ++ [' ', '('] ++ comm) ++
        ')' :: (' ' :: line (p.before ++ digits p.utime :: digits p.stime :: p.after))) =
      some (' ' :: line (p.before ++ digits p.utime :: digits p.stime :: p.after)) := by
    rw [afterLast_append]
    intro hmem
    rcases List.mem_cons.mp hmem with hc | hc
    · cases hc
    · exact not_mem_line hfields hc
  have hsplit : splitWhitespace (' ' :: line (p.before ++ digits p.utime :: digits p.stime :: p.after)) =
      p.before ++ digits p.utime :: digits p.stime :: p.after := by
    rw [splitWhitespace_space, splitWhitespace_line _ hfields]
  have huser : (p.before ++ digits p.utime :: digits p.stime :: p.after)[11]? = some (digits p.utime) := by
    rw [List.getElem?_append_right hok.before.1.le, hok.before.1]
    rfl
  have hsystem : (p.before ++ digits p.utime :: digits p.stime :: p.after)[12]? = some (digits p.stime) := by
    rw [List.getElem?_append_right (by rw [hok.before.1]; decide), hok.before.1]
    rfl
  have hpages : splitWhitespace (line (digits q.size :: digits q.resident :: q.rest)) =
      digits q.size :: digits q.resident :: q.rest := by
    refine splitWhitespace_line _ (fun s hs => ?_)
    simp only [List.mem_cons] at hs
    rcases hs with rfl | rfl | hs
    · exact isField_digits _
    · exact isField_digits _
    · exact ((fs .statm).ok q hq.1).rest s hs
  unfold cpuAndRss
  rw [hstat, hstatm]
  simp only [bind, Except.bind, hrest, hsplit, huser, hsystem, hpages, Option.bind, parseU64_digits hok.utime,
    parseU64_digits hok.stime, List.getElem?_cons_succ, List.getElem?_cons_zero,
    parseU64_digits ((fs .statm).ok q hq.1).resident]
  rfl

/-- Both files are needed, and the first has to be text. -/
theorem cpuAndRss_ok {a : Duration × ℕ} (h : cpuAndRss (fun a => (fs a).files) hz page pid = .ok a) :
    (∃ p, (fs .stat).Has pid p ∧ IsText p.comm) ∧ ∃ q, (fs .statm).Has pid q := by
  unfold cpuAndRss at h
  cases hstat : (fs .stat).files.stat pid >>= readToString with
  | error e =>
    rw [hstat] at h
    cases h
  | ok t =>
    obtain ⟨p, hp, ht⟩ := bind_readToString.mp hstat
    obtain ⟨comm, hcomm, -⟩ := (readToString_stat t).mp ht
    refine ⟨⟨p, hp, comm, hcomm⟩, ?_⟩
    cases hstatm : (fs .statm).files.statm pid >>= readToString with
    | ok u =>
      obtain ⟨q, hq, -⟩ := bind_readToString.mp hstatm
      exact ⟨q, hq⟩
    | error e =>
      rw [hstat, hstatm] at h
      simp only [bind, Except.bind] at h
      split at h
      · split at h
        · split at h
          · cases h
          · cases h
        · cases h
      · cases h

/-! ### Which process it is -/

/-- What a run meets, as processes. -/
structure Scene where
  sight : Access → Sight
  spawn : Except String Unit

def Scene.machine (c : Scene) : Machine := ⟨fun a => (c.sight a).files, c.spawn⟩

/-- The process `pid` is called `name` when it is looked at as number `i`: by its `argv[0]`, or by what
`ps` prints where there is no such process any more. -/
def Scene.Called (c : Scene) (i : ℕ) (pid : ℤ) (name : Str) : Prop :=
  (∃ p, (c.sight (.cmdline i)).Has pid p ∧ p.name = some name) ∨
  (∀ p, ¬(c.sight (.cmdline i)).Has pid p) ∧ ∃ out, (c.sight (.ps i)).ps pid = some out ∧
    Text.trim (lossy out) ≠ [] ∧ basename (Text.trim (lossy out)) = name

/-- A sampler can be started: the process is there at both accesses, its command name is text, and there
is a thread for it. -/
def Scene.Starts (c : Scene) (pid : ℤ) : Prop :=
  (∃ p, (c.sight .stat).Has pid p ∧ IsText p.comm) ∧ (∃ q, (c.sight .statm).Has pid q) ∧
    c.spawn = .ok ()

/-- Of the processes that are listed, only `pid` is called `name` at its turn. -/
def Scene.One (c : Scene) (name : Str) (pid : ℤ) : Prop :=
  ∃ entries, (c.sight .entries).entries = .ok entries ∧
    ∃ i, (entries.filterMap parseI32)[i]? = some pid ∧ c.Called i pid name ∧
      ∀ j q, (entries.filterMap parseI32)[j]? = some q → c.Called j q name → j = i

theorem takeWhile_cmdline {argv0 : List UInt8} {rest : List (List UInt8)} (h : 0 ∉ argv0) :
    ((argv0 :: rest).flatMap (fun arg => arg ++ [0])).takeWhile (· ≠ 0) = argv0 := by
  have hne : ∀ b ∈ argv0, (fun b : UInt8 => decide (b ≠ 0)) b = true := by
    intro b hb
    exact decide_eq_true (fun heq => h (heq ▸ hb))
  rw [List.flatMap_cons, List.append_assoc, List.takeWhile_append_of_pos hne, List.singleton_append,
    List.takeWhile_cons_of_neg (by decide), List.append_nil]

variable {c : Scene}

theorem processName_iff {i : ℕ} {name : Str} :
    processName c.machine.fs i pid = some name ↔ c.Called i pid name := by
  have hfile : (c.machine.fs (.cmdline i)).cmdline pid =
      (c.sight (.cmdline i)).file pid Process.cmdline := rfl
  unfold processName Scene.Called
  by_cases hmem : ∃ p, (c.sight (.cmdline i)).Has pid p
  · obtain ⟨p, hp⟩ := hmem
    rw [hfile, Sight.file_of_has hp, Process.cmdline]
    have hname : (if ((p.argv.flatMap (fun arg => arg ++ [0])).takeWhile (· ≠ 0)).isEmpty then none
        else some (basename (lossy ((p.argv.flatMap (fun arg => arg ++ [0])).takeWhile (· ≠ 0))))) =
        p.name := by
      rw [Process.name]
      cases hargv : p.argv with
      | nil => rfl
      | cons argv0 rest =>
        have hzero := ((c.sight (.cmdline i)).ok p hp.1).argv argv0 (hargv ▸ List.mem_cons_self)
        rw [takeWhile_cmdline hzero]
        rfl
    dsimp only
    rw [hname]
    constructor
    · exact fun h => .inl ⟨p, hp, h⟩
    · rintro (⟨q, hq, h⟩ | ⟨hnone, -⟩)
      · have hsame : some p.name = some q.name :=
          (Sight.file_of_has hp).symm.trans (Sight.file_of_has hq)
        rw [Option.some.inj hsame]
        exact h
      · exact absurd hp (hnone p)
  · have hnone : ∀ p, ¬(c.sight (.cmdline i)).Has pid p := fun p hp => hmem ⟨p, hp⟩
    have hps : (c.machine.fs (.ps i)).ps pid = (c.sight (.ps i)).ps pid := rfl
    rw [hfile, Sight.file_of_not_has hnone]
    dsimp only
    rw [hps]
    constructor
    · intro h
      obtain ⟨out, hout, h⟩ := Option.bind_eq_some_iff.mp h
      split at h
      · cases h
      · rename_i hne
        exact .inr ⟨hnone, out, hout, by simpa using hne, Option.some.inj h⟩
    · rintro (⟨p, hp, -⟩ | ⟨-, out, hout, hne, rfl⟩)
      · exact absurd hp (hnone p)
      · rw [hout, Option.bind_some, if_neg (by simpa using hne)]

/-- The server is found exactly if it is the only one of its name. -/
theorem findServerProcess_iff {framework : Str} :
    findServerProcess c.machine.fs framework = .ok pid ↔ c.One (serverName framework) pid := by
  have hentries : (c.machine.fs .entries).entries = (c.sight .entries).entries := rfl
  unfold findServerProcess processesNamed Scene.One
  rw [hentries]
  cases (c.sight .entries).entries with
  | error e => exact ⟨fun h => (by cases h), fun ⟨_, h, _⟩ => (by cases h)⟩
  | ok entries =>
    simp only [Except.map, Except.ok.injEq, exists_eq_left']
    generalize hlisted : entries.filterMap parseI32 = listed
    have hmem : ∀ e, e ∈ listed.zipIdx.filter
        (fun e => processName c.machine.fs e.2 e.1 == some (serverName framework)) ↔
        listed[e.2]? = some e.1 ∧ c.Called e.2 e.1 (serverName framework) := by
      intro e
      rw [List.mem_filter, beq_iff_eq, processName_iff, List.mem_zipIdx_iff_getElem?]
    have hnodup : (listed.zipIdx.filter
        (fun e => processName c.machine.fs e.2 e.1 == some (serverName framework))).Nodup :=
      (List.nodup_zipIdx_map_snd listed).of_map _ |>.filter _
    generalize listed.zipIdx.filter
      (fun e => processName c.machine.fs e.2 e.1 == some (serverName framework)) = named at hmem hnodup
    rcases named with _ | ⟨e, _ | ⟨e', rest⟩⟩
    · refine ⟨fun h => (by cases h), ?_⟩
      rintro ⟨i, hi, hcalled, -⟩
      exact absurd ((hmem (pid, i)).mpr ⟨hi, hcalled⟩) List.not_mem_nil
    · constructor
      · intro h
        obtain rfl := Except.ok.inj h
        obtain ⟨hi, hcalled⟩ := (hmem e).mp List.mem_cons_self
        refine ⟨e.2, hi, hcalled, fun j q hj hq => ?_⟩
        rw [← List.mem_singleton.mp ((hmem (q, j)).mpr ⟨hj, hq⟩)]
      · rintro ⟨i, hi, hcalled, -⟩
        rw [← List.mem_singleton.mp ((hmem (pid, i)).mpr ⟨hi, hcalled⟩)]
        rfl
    · refine ⟨fun h => (by cases h), ?_⟩
      rintro ⟨i, -, -, hone⟩
      obtain ⟨h, hcalled⟩ := (hmem e).mp List.mem_cons_self
      obtain ⟨h', hcalled'⟩ := (hmem e').mp (List.mem_cons_of_mem _ List.mem_cons_self)
      have hindex : e.2 = e'.2 := (hone _ _ h hcalled).trans (hone _ _ h' hcalled').symm
      rw [hindex, h'] at h
      have heq : e = e' := Prod.ext (Option.some.inj h).symm hindex
      exact absurd hnodup (by rw [heq]; simp)

/-- Where the sampler starts, and what it has by then. -/
theorem startSampler_iff {sampler : Sampler} : startSampler c.machine hz page pid = .ok sampler ↔
    c.Starts pid ∧ sampler = ⟨pid, {}⟩ := by
  have hspawn : c.machine.spawn = c.spawn := rfl
  unfold startSampler Scene.Starts
  rw [hspawn]
  constructor
  · intro h
    cases hread : cpuAndRss c.machine.fs hz page pid with
    | error e =>
      rw [hread] at h
      cases h
    | ok a =>
      obtain ⟨hstat, hstatm⟩ := cpuAndRss_ok hread
      rw [hread] at h
      cases hs : c.spawn with
      | error e =>
        rw [hs] at h
        cases h
      | ok u =>
        rw [hs] at h
        exact ⟨⟨hstat, hstatm, rfl⟩, (Except.ok.inj h).symm⟩
  · rintro ⟨⟨⟨p, hp, htext⟩, ⟨q, hq⟩, hs⟩, rfl⟩
    have hread := @cpuAndRss_eq c.sight hz page pid p q hp htext hq
    have hfs : c.machine.fs = fun a => (c.sight a).files := rfl
    rw [hfs, hread, hs]
    rfl

/-- The server was found and can be sampled. -/
def FoundHere (c : Scene) (framework : Str) (pid : ℤ) : Prop :=
  c.One (serverName framework) pid ∧ c.Starts pid

/-- What is tried first. -/
theorem started_iff {framework : Str} {sampler : Sampler} :
    (match findServerProcess c.machine.fs framework with
      | .ok pid => (startSampler c.machine hz page pid).toOption
      | .error _ => none) = some sampler ↔
        FoundHere c framework sampler.pid ∧ sampler.samples = {} := by
  cases hserver : findServerProcess c.machine.fs framework with
  | error e =>
    refine ⟨fun h => (by cases h), ?_⟩
    rintro ⟨⟨hfound, -⟩, -⟩
    rw [findServerProcess_iff.mpr hfound] at hserver
    cases hserver
  | ok pid =>
    have hsome : (startSampler c.machine hz page pid).toOption = some sampler ↔
        startSampler c.machine hz page pid = .ok sampler := by
      cases startSampler c.machine hz page pid with
      | error e => exact ⟨fun h => (by cases h), fun h => (by cases h)⟩
      | ok s => exact ⟨fun h => congrArg _ (Option.some.inj h), fun h => congrArg _ (Except.ok.inj h)⟩
    refine hsome.trans (startSampler_iff.trans ?_)
    constructor
    · rintro ⟨hstarts, rfl⟩
      exact ⟨⟨findServerProcess_iff.mp hserver, hstarts⟩, rfl⟩
    · rintro ⟨⟨hfound, hstarts⟩, hsamples⟩
      rw [findServerProcess_iff.mpr hfound] at hserver
      obtain rfl := Except.ok.inj hserver
      refine ⟨hstarts, ?_⟩
      rw [← hsamples]

section Setup

variable {c' : Scene} {framework : Str} {mode : Mode} {isLocal : Bool} {addr noAddr : SocketAddr}
  {init : Except String ℤ}

/-- Where it should not look here, it asks the server. -/
theorem setup_remote (hwant : ¬(mode = .here ∨ (mode = .auto ∧ isLocal))) :
    ∃ r, (setup c.machine c'.machine hz page framework mode isLocal (.ok addr) noAddr init).1 =
      .remote r := by
  simp only [setup]
  rw [if_neg hwant]
  cases init with
  | error e => exact ⟨_, rfl⟩
  | ok pid =>
    dsimp only
    rw [if_neg (fun h => hwant h.1)]
    exact ⟨_, rfl⟩

theorem setup_found (hwant : mode = .here ∨ (mode = .auto ∧ isLocal)) {pid : ℤ}
    (hfound : FoundHere c framework pid) :
    (setup c.machine c'.machine hz page framework mode isLocal (.ok addr) noAddr init).1 =
      .here ⟨pid, {}⟩ none := by
  have hstarted := (@started_iff hz page c framework ⟨pid, {}⟩).mpr ⟨hfound, rfl⟩
  simp only [setup]
  rw [if_pos hwant, hstarted]

/-- Where the server was not found, what it answered is tried. -/
theorem setup_not_found (hwant : mode = .here ∨ (mode = .auto ∧ isLocal))
    (hnone : ∀ pid, ¬FoundHere c framework pid) {sampler : Sampler} {fallback : Option Remote} :
    (setup c.machine c'.machine hz page framework mode isLocal (.ok addr) noAddr init).1 =
        .here sampler fallback ↔
      fallback = some ⟨addr⟩ ∧ ∃ pid, init = .ok pid ∧ c'.Called 0 pid (serverName framework) ∧
        startSampler c'.machine hz page pid = .ok sampler := by
  have hstarted := Option.eq_none_iff_forall_ne_some.mpr
    (fun s hs => hnone _ ((@started_iff hz page c framework s).mp hs).1)
  simp only [setup]
  rw [if_pos hwant, hstarted]
  cases init with
  | error e => exact ⟨fun h => (by cases h), fun h => (by obtain ⟨-, pid, hpid, -⟩ := h; cases hpid)⟩
  | ok pid =>
    dsimp only
    by_cases hserver : c'.Called 0 pid (serverName framework)
    · rw [if_pos ⟨hwant, processName_iff.mpr hserver⟩]
      constructor
      · intro h
        cases hstart : startSampler c'.machine hz page pid with
        | error e =>
          rw [hstart] at h
          cases h
        | ok s =>
          rw [hstart] at h
          cases h
          exact ⟨rfl, pid, rfl, hserver, hstart⟩
      · rintro ⟨rfl, pid', hpid, -, hstart⟩
        obtain rfl := Except.ok.inj hpid
        rw [hstart]
    · rw [if_neg (fun h => hserver (processName_iff.mp h.2))]
      refine ⟨fun h => (by cases h), ?_⟩
      rintro ⟨-, pid', hpid, hserver', -⟩
      obtain rfl := Except.ok.inj hpid
      exact absurd hserver' hserver

end Setup

/-- A run samples from here the one process with the server's name, and only where it should look here;
failing that, the process of that name whose pid the server has given. A leftover of the same name is
enough for it not to guess. What it reads of the process is its CPU time and its memory, whatever the
process calls itself, as long as that is text. -/
theorem sampled_process (c c' : Scene) (hz page : ℕ) (framework : Str) (mode : Mode) (isLocal : Bool)
    (addr noAddr : SocketAddr) (init : Except String ℤ) :
    let source := (setup c.machine c'.machine hz page framework mode isLocal (.ok addr) noAddr init).1
    let wantLocal := mode = .here ∨ (mode = .auto ∧ isLocal)
    (∀ sampler, source = .here sampler none ↔
      wantLocal ∧ FoundHere c framework sampler.pid ∧ sampler.samples = {}) ∧
    (∀ sampler r, source = .here sampler (some r) ↔
      wantLocal ∧ (∀ pid, ¬FoundHere c framework pid) ∧ r = ⟨addr⟩ ∧ init = .ok sampler.pid ∧
        c'.Called 0 sampler.pid (serverName framework) ∧ c'.Starts sampler.pid ∧
        sampler.samples = {}) ∧
    ∀ pid p q, (c.sight .stat).Has pid p → (c.sight .statm).Has pid q →
      (p.utime + p.stime) * 1000000000 < u64 → q.resident * max page 1 < u64 →
      ∀ a, cpuAndRss c.machine.fs hz page pid = .ok a ↔ IsText p.comm ∧
        a = ((p.utime + p.stime) * 1000000000 / max hz 1, q.resident * max page 1) := by
  intro source wantLocal
  have hwanted : ∀ {sampler fallback}, source = .here sampler fallback → wantLocal := by
    intro sampler fallback h
    by_contra hwant
    obtain ⟨r, hr⟩ := @setup_remote hz page c c' framework mode isLocal addr noAddr init hwant
    cases hr.symm.trans h
  refine ⟨fun sampler => ⟨fun h => ?_, ?_⟩, fun sampler r => ⟨fun h => ?_, ?_⟩,
    fun pid p q hp hq hticks hbytes a => ?_⟩
  · by_cases hfound : ∃ pid, FoundHere c framework pid
    · obtain ⟨pid, hfound⟩ := hfound
      cases (setup_found (hwanted h) hfound).symm.trans h
      exact ⟨hwanted h, hfound, rfl⟩
    · have hnone : ∀ pid, ¬FoundHere c framework pid := fun pid h => hfound ⟨pid, h⟩
      cases ((setup_not_found (hwanted h) hnone).mp h).1
  · rintro ⟨hwant, hfound, hsamples⟩
    refine (setup_found hwant hfound).trans ?_
    rw [← hsamples]
  · have hnone : ∀ pid, ¬FoundHere c framework pid := by
      intro pid hfound
      cases (setup_found (hwanted h) hfound).symm.trans h
    obtain ⟨hr, pid, hinit, hserver, hsampler⟩ := (setup_not_found (hwanted h) hnone).mp h
    obtain ⟨hstarts, rfl⟩ := startSampler_iff.mp hsampler
    exact ⟨hwanted h, hnone, Option.some.inj hr, hinit, hserver, hstarts, rfl⟩
  · rintro ⟨hwant, hnone, hr, hinit, hserver, hstarts, hsamples⟩
    refine (setup_not_found hwant hnone).mpr ⟨congrArg some hr, sampler.pid, hinit, hserver, ?_⟩
    refine startSampler_iff.mpr ⟨hstarts, ?_⟩
    rw [← hsamples]
  · have hread : IsText p.comm → cpuAndRss c.machine.fs hz page pid =
        .ok ((p.utime + p.stime) * 1000000000 / max hz 1, q.resident * max page 1) := by
      intro htext
      have hsum : (p.utime + p.stime) % u64 = p.utime + p.stime := Nat.mod_eq_of_lt (by omega)
      refine (cpuAndRss_eq hp htext hq).trans ?_
      rw [hsum, Nat.mod_eq_of_lt hticks, Nat.mod_eq_of_lt hbytes]
    constructor
    · intro h
      obtain ⟨⟨p', hp', htext⟩, -⟩ := cpuAndRss_ok h
      have hsame : some p.comm = some p'.comm :=
        (Sight.file_of_has hp).symm.trans (Sight.file_of_has hp')
      rw [← Option.some.inj hsame] at htext
      rw [hread htext] at h
      exact ⟨htext, (Except.ok.inj h).symm⟩
    · rintro ⟨htext, rfl⟩
      exact hread htext

/-- A server that calls itself something else, and a shell whose command name was cut within a
character. -/
def quicheServer : Process where
  pid := 7
  argv := [encode "/root/quiche.server".toList]
  comm := encode "io) R (1".toList
  before := ["S", "1", "7", "7", "0", "-1", "4194560", "90", "0", "0", "0"].map String.toList
  utime := 250
  stime := 50
  after := ["0", "0", "20"].map String.toList
  size := 9000
  resident := 1200
  rest := ["300", "1", "0"].map String.toList

def shell : Process := { quicheServer with
  pid := 9
  argv := [encode "sh".toList]
  comm := [195] }

theorem quicheServer_ok : quicheServer.Ok where
  argv := by decide +kernel
  before := by decide
  after := by decide
  rest := by decide
  utime := by decide
  stime := by decide
  resident := by decide

theorem shell_ok : shell.Ok := { quicheServer_ok with argv := by decide +kernel }

def desk : Sight where
  entries := .ok (["self", "7", "9"].map String.toList)
  procs := [quicheServer, shell]
  gone := "no such process"
  ps := fun _ => none
  pids := by decide
  ok := by
    intro p hp
    simp only [List.mem_cons, List.not_mem_nil, or_false] at hp
    rcases hp with rfl | rfl
    · exact quicheServer_ok
    · exact shell_ok

def room : Scene := ⟨fun _ => desk, .ok ()⟩

theorem desk_has_seven : desk.Has 7 quicheServer := ⟨by simp [desk], rfl⟩

theorem desk_has_nine {p : Process} : desk.Has 9 p ↔ p = shell := by
  constructor
  · rintro ⟨hp, hpid⟩
    simp only [desk, List.mem_cons, List.not_mem_nil, or_false] at hp
    rcases hp with rfl | rfl
    · exact absurd hpid (by decide)
    · rfl
  · rintro rfl
    exact ⟨by simp [desk], rfl⟩

theorem foundHere_room : FoundHere room "quiche".toList 7 := by
  refine ⟨⟨_, rfl, 0, by decide +kernel, .inl ⟨quicheServer, desk_has_seven, by decide +kernel⟩, ?_⟩,
    ⟨_, desk_has_seven, _, rfl⟩, ⟨_, desk_has_seven⟩, rfl⟩
  intro j q hq hcalled
  have hlisted : (["self", "7", "9"].map String.toList).filterMap parseI32 = [7, 9] := by
    decide +kernel
  rw [hlisted] at hq
  rcases j with _ | _ | j
  · rfl
  · obtain rfl : q = 9 := (Option.some.inj hq).symm
    rcases hcalled with ⟨p, hp, hname⟩ | ⟨hnone, -⟩
    · obtain rfl := desk_has_nine.mp hp
      exact absurd hname (by decide +kernel)
    · exact absurd (desk_has_nine.mpr rfl) (hnone shell)
  · cases hq

/-- The server is found among other processes and its numbers are read, those of the shell cannot be. -/
theorem sampled_process_quiche :
    (setup room.machine room.machine 100 4096 "quiche".toList .auto true (.ok ⟨true, "127.0.0.1:3001"⟩)
      ⟨true, "127.0.0.1:0"⟩ (.error "timed out")).1 = .here ⟨7, {}⟩ none ∧
    cpuAndRss room.machine.fs 100 4096 7 = .ok (3000000000, 4915200) ∧
    ∀ a, cpuAndRss room.machine.fs 100 4096 9 ≠ .ok a := by
  have h := sampled_process room room 100 4096 "quiche".toList .auto true ⟨true, "127.0.0.1:3001"⟩
    ⟨true, "127.0.0.1:0"⟩ (.error "timed out")
  refine ⟨(h.1 ⟨7, {}⟩).mpr ⟨.inr ⟨rfl, rfl⟩, foundHere_room, rfl⟩, ?_, fun a ha => ?_⟩
  · exact (h.2.2 7 quicheServer quicheServer desk_has_seven desk_has_seven (by decide) (by decide) _).mpr
      ⟨⟨_, rfl⟩, rfl⟩
  · have hnine := desk_has_nine.mpr rfl
    obtain ⟨⟨s, hs⟩, -⟩ :=
      (h.2.2 9 shell shell hnine hnine (by decide) (by decide) a).mp ha
    have hnone : decode shell.comm = none := by decide +kernel
    rw [Text.decode_eq_some.mpr hs] at hnone
    cases hnone

end Http3Bench.Procstat
