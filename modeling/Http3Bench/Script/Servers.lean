import Http3Bench.Lib.Commands
import Http3Bench.Lib.Lookup
import Mathlib

/-!
# Servers that are started and stopped

`start_server` and `stop_server` of `script/env.sh`, and the drivers `script/clients.sh` and
`script/benchmarkN.sh` that run a client against each framework's server. The servers run beside the
script, and may exit or write to their logs between any two of its commands; a `kill -0` that fails is all
the script learns of an exit. A pid is the place of a process in `World.procs`, and is not given to
another process.

`Proc.ours` and `World.lost` are history: the processes `script/server.sh` started, and those of them
whose pid could not be written to its file, or read from it.
-/

namespace Http3Bench.Script

open Lib

structure Proc where
  name : String
  ours : Bool
  alive : Bool := true
  killed : Bool := false
  ready : Bool := false
  deriving DecidableEq

/-- Whether the log of a server has the lines `start_server` looks for. -/
structure Log where
  listening : Bool := false
  inUse : Bool := false
  deriving DecidableEq

structure World where
  procs : List Proc := []
  pidFile : String → Option ℕ := fun _ => none
  log : String → Log := fun _ => {}
  lost : List ℕ := []
  results : List (String × ℕ) := []

inductive Sig
  | int
  | kill
  deriving DecidableEq

inductive Cmd
  /-- `nohup ./output/bin/<f>.server "$@" &`, which answers `$!`. -/
  | spawn (f : String) (args : List String)
  | writePid (f : String) (pid : ℕ)
  | readPid (f : String)
  /-- `grep -q "server: listening on"`, of the log. -/
  | listening (f : String)
  | inUse (f : String)
  /-- `kill -0`. -/
  | alive (pid : ℕ)
  | kill (sig : Sig) (pid : ℕ)
  | killone (f : String)
  | rmPid (f : String)
  | sleep (tenths : ℕ)
  | client (f : String) (args : List String)

def Cmd.Answer : Cmd → Type
  | .spawn _ _ | .client _ _ => ℕ
  | .readPid _ => Option ℕ
  | .writePid _ _ | .listening _ | .inUse _ | .alive _ => Bool
  | .kill _ _ | .killone _ | .rmPid _ | .sleep _ => Unit

abbrev Shell := Prog Cmd Cmd.Answer

namespace Shell

abbrev spawn (f : String) (args : List String) : Shell ℕ := .cmd (Cmd.spawn f args)
abbrev writePid (f : String) (pid : ℕ) : Shell Bool := .cmd (Cmd.writePid f pid)
abbrev readPid (f : String) : Shell (Option ℕ) := .cmd (Cmd.readPid f)
abbrev listening (f : String) : Shell Bool := .cmd (Cmd.listening f)
abbrev inUse (f : String) : Shell Bool := .cmd (Cmd.inUse f)
abbrev alive (pid : ℕ) : Shell Bool := .cmd (Cmd.alive pid)
abbrev kill (sig : Sig) (pid : ℕ) : Shell Unit := .cmd (Cmd.kill sig pid)
abbrev killone (f : String) : Shell Unit := .cmd (Cmd.killone f)
abbrev rmPid (f : String) : Shell Unit := .cmd (Cmd.rmPid f)
abbrev sleep (tenths : ℕ) : Shell Unit := .cmd (Cmd.sleep tenths)
abbrev client (f : String) (args : List String) : Shell ℕ := .cmd (Cmd.client f args)

end Shell

open Shell

/-- `BENCH_ROLE`, on a machine that runs the clients; one that does not has no use for the drivers here. -/
inductive Role
  | both
  | client
  deriving DecidableEq

/-- The variables of `script/config.sh`. -/
structure Config where
  BENCH_ROLE : Role := .both
  ServerStartTimeout : ℕ := 30
  ServerStartRetries : ℕ := 3
  ServerStartRetryDelay : ℕ := 3
  ServerReadyDelay : ℕ := 1
  ServerStopTimeout : ℕ := 10
  SleepTime : ℕ := 5
  BENCH_FIB_SOCKET_SYSCALLS : String := "true"
  BENCH_SERVER_HOST : String := "127.0.0.1"

/-- `bench_owns_servers`. -/
def Config.ownsServers (c : Config) : Bool := c.BENCH_ROLE = .both

/-! ### The scripts -/

/-- `script/server.sh`. -/
def serverSh (c : Config) (f : String) (args : List String) : Shell Bool := do
  let args := if f = "fib" then ("-socketsyscalls=" ++ c.BENCH_FIB_SOCKET_SYSCALLS) :: args else args
  let pid ← spawn f args
  writePid f pid

/-- The loops that wait for a process to exit. -/
def awaitExit (pid : ℕ) : ℕ → Shell Unit
  | 0 => pure ()
  | ticks + 1 => do
    if ← alive pid then
      sleep 1
      awaitExit pid ticks

def stopServer (c : Config) (f : String) : Shell Unit := do
  match ← readPid f with
  | none => killone f
  | some pid =>
    kill .int pid
    awaitExit pid (c.ServerStopTimeout * 10)
    if ← alive pid then
      kill .kill pid
      awaitExit pid 50
    rmPid f

inductive Waited
  | up
  | exited
  | late
  deriving DecidableEq

/-- The loop that waits for a server to listen. -/
def awaitListening (f : String) (pid : Option ℕ) : ℕ → Shell Waited
  | 0 => pure .late
  | ticks + 1 => do
    if ← listening f then return .up
    match pid with
    | none => return .exited
    | some p =>
      if ← alive p then
        sleep 1
        awaitListening f pid ticks
      else return .exited

/-- One attempt of `start_server`, with what follows a server that found a port in use if the script may
try again. -/
def startAttempt (c : Config) (f : String) (args : List String) (again : Option (Shell Bool)) :
    Shell Bool := do
  if ← serverSh c f args then
    let pid ← readPid f
    match ← awaitListening f pid (c.ServerStartTimeout * 10), again with
    | .up, _ => return true
    | .late, _ =>
      stopServer c f
      return false
    | .exited, none =>
      rmPid f
      return false
    | .exited, some again =>
      if ← inUse f then
        sleep (c.ServerStartRetryDelay * 10)
        again
      else
        rmPid f
        return false
  else return false

/-- The attempts of `start_server`, `left` of them after the first. -/
def startAttempts (c : Config) (f : String) (args : List String) : ℕ → Shell Bool
  | 0 => startAttempt c f args none
  | left + 1 => startAttempt c f args (some (startAttempts c f args left))

def startServer (c : Config) (f : String) (args : List String) : Shell Bool :=
  startAttempts c f args c.ServerStartRetries

def benchSleep : ℕ → Shell Unit
  | 0 => pure ()
  | seconds + 1 => do
    sleep 10
    benchSleep seconds

/-- The frameworks `script/clients.sh` has left, when `$clients_status` is `status`. -/
def clientsFrom (c : Config) (owns : Bool) (flags args : List String) :
    Bool → List String → ℕ → Shell ℕ
  | _, [], status => pure status
  | first, f :: rest, status => do
    if !first then benchSleep c.SleepTime
    let args' := ("-f=" ++ f) :: ("-ip=" ++ c.BENCH_SERVER_HOST) :: args
    if owns then
      if ← startServer c f flags then
        sleep (c.ServerReadyDelay * 10)
        let code ← client f args'
        stopServer c f
        clientsFrom c owns flags args false rest (if code = 0 then status else code)
      else clientsFrom c owns flags args false rest 1
    else
      let code ← client f args'
      clientsFrom c owns flags args false rest (if code = 0 then status else code)

/-- `script/clients.sh`. -/
def clients (c : Config) (flags args frameworks : List String) : Shell ℕ :=
  clientsFrom c c.ownsServers flags args true frameworks 0

/-- One run of the client in the matrix of `script/benchmarkN.sh`. -/
structure Combo where
  conns : ℕ
  bodySize : ℕ
  times : ℕ

def Combo.args (b : Combo) (c : Config) (f : String) (args : List String) : List String :=
  ["-f=" ++ f, "-ip=" ++ c.BENCH_SERVER_HOST, "-c=" ++ toString b.conns, "-b=" ++ toString b.bodySize,
    "-en=" ++ toString b.times, "-suffix=" ++ "_" ++ toString b.conns ++ "_" ++ toString b.bodySize ++ "_" ++
      toString b.times, "-rate=true"] ++ args

/-- The combinations one framework has left; `false` when a client failed, and its server is stopped. -/
def matrixRuns (c : Config) (owns : Bool) (args : List String) (f : String) :
    Bool → List Combo → Shell Bool
  | _, [] => pure true
  | first, b :: rest => do
    if !first then benchSleep c.SleepTime
    let code ← client f (b.args c f args)
    if code = 0 then matrixRuns c owns args f false rest
    else
      if owns then stopServer c f
      return false

/-- The frameworks `script/benchmarkN.sh` has left, and its status. -/
def matrixFrom (c : Config) (owns : Bool) (flags args : List String) (combos : List Combo) :
    Bool → List String → Shell ℕ
  | _, [] => pure 0
  | first, f :: rest => do
    if !first then benchSleep c.SleepTime
    if owns then
      if ← startServer c f flags then
        sleep (c.ServerReadyDelay * 10)
        if ← matrixRuns c owns args f true combos then
          stopServer c f
          matrixFrom c owns flags args combos false rest
        else return 1
      else return 1
    else if ← matrixRuns c owns args f true combos then
      matrixFrom c owns flags args combos false rest
    else return 1

/-- The matrix of `script/benchmarkN.sh`: `Connections`, `BodySize` and `BenchTime`. -/
def combos (conns bodySizes times : List ℕ) : List Combo :=
  conns.flatMap (fun c => bodySizes.flatMap (fun b => times.map (fun n => ⟨c, b, n⟩)))

def matrix (c : Config) (flags args : List String) (conns bodySizes times : List ℕ)
    (frameworks : List String) : Shell ℕ :=
  matrixFrom c c.ownsServers flags args (combos conns bodySizes times) true frameworks

/-! ### What the servers do, and what the commands do -/

namespace World

def setProc (w : World) (p : ℕ) (P : Proc) : World := { w with procs := w.procs.set p P }

def setLog (w : World) (f : String) (l : Log) : World := { w with log := Function.update w.log f l }

def setPid (w : World) (f : String) (pid : Option ℕ) : World :=
  { w with pidFile := Function.update w.pidFile f pid }

end World

inductive Env : World → World → Prop
  | exit {w : World} {p : ℕ} {P : Proc} : w.procs[p]? = some P →
      Env w (w.setProc p { P with alive := false })
  /-- The log is opened, and emptied, after the shell has gone on. -/
  | openLog {w : World} {p : ℕ} {P : Proc} : w.procs[p]? = some P → P.ours = true → P.alive = true →
      Env w (w.setLog P.name {})
  | listening {w : World} {p : ℕ} {P : Proc} : w.procs[p]? = some P → P.ours = true → P.alive = true →
      Env w ((w.setProc p { P with ready := true }).setLog P.name
        { w.log P.name with listening := true })
  | inUse {w : World} {p : ℕ} {P : Proc} : w.procs[p]? = some P → P.ours = true → P.alive = true →
      Env w (w.setLog P.name { w.log P.name with inUse := true })
  /-- A process of another run starts. -/
  | other {w : World} (name : String) : Env w { w with procs := w.procs ++ [{ name, ours := false }] }

inductive Exec : World → (c : Cmd) → c.Answer → World → Prop
  | spawn {w : World} {f : String} {args : List String} : Exec w (.spawn f args) w.procs.length
      { w with procs := w.procs ++ [{ name := f, ours := true }] }
  | writePid {w : World} {f : String} {pid : ℕ} : Exec w (.writePid f pid) true (w.setPid f (some pid))
  | writeFails {w : World} {f : String} {pid : ℕ} {left : Option ℕ} : left = none ∨ left = w.pidFile f →
      Exec w (.writePid f pid) false { w.setPid f left with lost := pid :: w.lost }
  | readPid {w : World} {f : String} : Exec w (.readPid f) (w.pidFile f) w
  | readFails {w : World} {f : String} {pid : ℕ} : w.pidFile f = some pid →
      Exec w (.readPid f) none { w with lost := pid :: w.lost }
  | listening {w : World} {f : String} {b : Bool} : (b = true → (w.log f).listening = true) →
      Exec w (.listening f) b w
  | inUse {w : World} {f : String} {b : Bool} : (b = true → (w.log f).inUse = true) →
      Exec w (.inUse f) b w
  /-- It fails for a process that is gone, and may still find one that has exited. -/
  | alive {w : World} {pid : ℕ} {b : Bool} :
      (b = false → ∀ P, w.procs[pid]? = some P → P.alive = false) → Exec w (.alive pid) b w
  | int {w : World} {pid : ℕ} : Exec w (.kill .int pid) () w
  | kill {w : World} {pid : ℕ} {P : Proc} : w.procs[pid]? = some P →
      Exec w (.kill .kill pid) () (w.setProc pid { P with killed := true })
  | killNone {w : World} {pid : ℕ} : w.procs[pid]? = none → Exec w (.kill .kill pid) () w
  | killone {w : World} {f : String} : Exec w (.killone f) () w
  | rmPid {w : World} {f : String} {left : Option ℕ} : left = none ∨ left = w.pidFile f →
      Exec w (.rmPid f) () (w.setPid f left)
  | sleep {w : World} {tenths : ℕ} : Exec w (.sleep tenths) () w
  | client {w : World} {f : String} {args : List String} {code : ℕ} :
      Exec w (.client f args) code { w with results := w.results ++ [(f, code)] }

def machine : System Cmd Cmd.Answer World := ⟨Env, Exec⟩

/-! ### Who runs -/

namespace World

/-- A server of this run that nobody has seen dead or tried to kill, and whose pid is known. -/
def Loose (w : World) (p : ℕ) : Prop :=
  ∃ P : Proc, w.procs[p]? = some P ∧ P.ours = true ∧ P.alive = true ∧ P.killed = false ∧ p ∉ w.lost

def Mine (w : World) (f : String) (p : ℕ) : Prop :=
  ∃ P : Proc, w.procs[p]? = some P ∧ P.ours = true ∧ P.name = f

/-- A server of `f` has logged that it listens. -/
def Ready (w : World) (f : String) : Prop :=
  ∃ (p : ℕ) (P : Proc), w.procs[p]? = some P ∧ P.ours = true ∧ P.name = f ∧ P.ready = true

/-- How many servers of `f` the run has started. -/
def started (w : World) (f : String) : ℕ := w.procs.countP (fun P => P.ours && P.name == f)

structure Good (w : World) : Prop where
  files : ∀ {f : String} {p : ℕ}, w.pidFile f = some p → w.Mine f p
  logs : ∀ {f : String}, (w.log f).listening = true → w.Ready f

end World

/-- A process some time later. -/
structure Proc.Ages (P P' : Proc) : Prop where
  name : P'.name = P.name
  ours : P'.ours = P.ours
  alive : P'.alive = true → P.alive = true
  killed : P.killed = true → P'.killed = true
  ready : P.ready = true → P'.ready = true

/-- What does not change while the script waits. -/
structure World.Drift (w w' : World) : Prop where
  kept : ∀ {p : ℕ} {P : Proc}, w.procs[p]? = some P → ∃ P', w'.procs[p]? = some P' ∧ P.Ages P'
  new : ∀ {p : ℕ} {P' : Proc}, w'.procs[p]? = some P' → P'.ours = true →
    ∃ P, w.procs[p]? = some P ∧ P.Ages P'
  started : w'.started = w.started
  pidFile : w'.pidFile = w.pidFile
  lost : w'.lost = w.lost
  results : w'.results = w.results
  logs : ∀ {f : String}, (w'.log f).listening = true → (w.log f).listening = true ∨ w'.Ready f

variable {w w' : World} {f : String} {p pid : ℕ} {n : String → ℕ} {rs : List (String × ℕ)}

theorem Proc.ages_refl (P : Proc) : P.Ages P := ⟨rfl, rfl, id, id, id⟩

theorem World.setProc_cases {P P' : Proc} {k : ℕ} (hp : w.procs[p]? = some P) (hages : P.Ages P') :
    (∀ {Q : Proc}, w.procs[k]? = some Q → ∃ Q', (w.setProc p P').procs[k]? = some Q' ∧ Q.Ages Q') ∧
      ∀ {Q' : Proc}, (w.setProc p P').procs[k]? = some Q' → ∃ Q, w.procs[k]? = some Q ∧ Q.Ages Q' := by
  by_cases hk : k = p
  · subst hk
    refine ⟨fun hQ => ?_, fun hQ' => ?_⟩
    · obtain rfl := Option.some.inj (hp.symm.trans hQ)
      exact ⟨P', getElem?_set_of_some hp, hages⟩
    · obtain rfl := Option.some.inj ((getElem?_set_of_some hp).symm.trans hQ')
      exact ⟨P, hp, hages⟩
  · have hset : (w.procs.set p P')[k]? = w.procs[k]? := List.getElem?_set_ne (Ne.symm hk)
    exact ⟨fun {Q} hQ => ⟨Q, hset.trans hQ, Q.ages_refl⟩,
      fun {Q'} hQ' => ⟨Q', hset.symm.trans hQ', Q'.ages_refl⟩⟩

theorem World.started_setProc {P P' : Proc} (hp : w.procs[p]? = some P) (hours : P'.ours = P.ours)
    (hname : P'.name = P.name) : (w.setProc p P').started = w.started := by
  obtain ⟨hlt, hget⟩ := List.getElem?_eq_some_iff.mp hp
  funext f
  unfold World.started World.setProc
  rw [List.countP_set (h := hlt), hget, hours, hname]
  split
  · have hpos : 0 < w.procs.countP (fun P => P.ours && P.name == f) :=
      List.countP_pos_iff.mpr ⟨P, List.mem_of_getElem? hp, ‹_›⟩
    omega
  · omega

/-- Only the process at `p` changes, and a log. -/
theorem World.Drift.of_setProc {P P' : Proc} (hp : w.procs[p]? = some P) (hages : P.Ages P')
    {log : String → Log} (hlogs : ∀ f, (log f).listening = true →
      (w.log f).listening = true ∨ World.Ready { w.setProc p P' with log := log } f) :
    w.Drift { w.setProc p P' with log := log } where
  kept hQ := (World.setProc_cases hp hages).1 hQ
  new hQ _ := (World.setProc_cases hp hages).2 hQ
  started := World.started_setProc hp hages.ours hages.name
  pidFile := rfl
  lost := rfl
  results := rfl
  logs hl := hlogs _ hl

theorem World.Drift.of_setLog {g : String} {l : Log}
    (hl : l.listening = true → (w.log g).listening = true) : w.Drift (w.setLog g l) where
  kept {p P} hP := ⟨P, hP, P.ages_refl⟩
  new {p P} hP _ := ⟨P, hP, P.ages_refl⟩
  started := rfl
  pidFile := rfl
  lost := rfl
  results := rfl
  logs {f} hf := by
    by_cases hg : f = g
    · subst hg
      refine .inl (hl ?_)
      simpa [World.setLog] using hf
    · refine .inl ?_
      simpa [World.setLog, Function.update_of_ne hg] using hf

theorem Env.drift (h : Env w w') : w.Drift w' := by
  cases h with
  | @exit p P hp =>
    have hages : P.Ages { P with alive := false } := ⟨rfl, rfl, (by simp), id, id⟩
    exact .of_setProc hp hages (fun _ hl => .inl hl)
  | openLog hp _ _ => exact .of_setLog (by simp)
  | @listening p P hp hours halive =>
    have hages : P.Ages { P with ready := true } := ⟨rfl, rfl, id, id, fun _ => rfl⟩
    refine .of_setProc hp hages (fun f hl => ?_)
    by_cases hf : f = P.name
    · subst hf
      exact .inr ⟨p, _, getElem?_set_of_some hp, hours, rfl, rfl⟩
    · rw [Function.update_of_ne hf] at hl
      exact .inl hl
  | inUse hp _ _ => exact .of_setLog id
  | other name =>
    refine ⟨fun {p P} hP => ⟨P, getElem?_append_of_some hP, P.ages_refl⟩, fun {p P'} hP' hours => ?_,
      ?_, rfl, rfl, rfl, .inl⟩
    · rcases getElem?_append_cases hP' with ⟨_, rfl⟩ | hP'
      · cases hours
      · exact ⟨P', hP', P'.ages_refl⟩
    · funext f
      simp [World.started]

theorem World.Drift.mine (h : w.Drift w') (hm : w.Mine f p) : w'.Mine f p := by
  obtain ⟨P, hP, hours, hname⟩ := hm
  obtain ⟨P', hP', hages⟩ := h.kept hP
  exact ⟨P', hP', hages.ours.trans hours, hages.name.trans hname⟩

theorem World.Drift.ready (h : w.Drift w') (hr : w.Ready f) : w'.Ready f := by
  obtain ⟨p, P, hP, hours, hname, hready⟩ := hr
  obtain ⟨P', hP', hages⟩ := h.kept hP
  exact ⟨p, P', hP', hages.ours.trans hours, hages.name.trans hname, hages.ready hready⟩

theorem World.Drift.loose (h : w.Drift w') (hl : w'.Loose p) : w.Loose p := by
  obtain ⟨P', hP', hours, halive, hkilled, hlost⟩ := hl
  obtain ⟨P, hP, hages⟩ := h.new hP' hours
  refine ⟨P, hP, hages.ours.symm.trans hours, hages.alive halive, ?_, h.lost ▸ hlost⟩
  cases hk : P.killed with
  | false => rfl
  | true => exact absurd (hages.killed hk) (by simp [hkilled])

theorem World.Drift.good (h : w.Drift w') (hg : w.Good) : w'.Good where
  files hf := h.mine (hg.files (h.pidFile ▸ hf))
  logs hl := by
    rcases h.logs hl with hl | hr
    · exact h.ready (hg.logs hl)
    · exact hr

/-! ### What holds between two commands -/

/-- No server is loose, at most `n` of each framework have been started, and the clients returned `rs`. -/
structure Quiet (n : String → ℕ) (rs : List (String × ℕ)) (w : World) : Prop where
  good : w.Good
  idle : ∀ p, ¬w.Loose p
  started : w.started ≤ n
  results : w.results = rs

/-- No server but `pid` is loose, which is that of the framework `f`. -/
structure Has (f : String) (pid : ℕ) (n : String → ℕ) (rs : List (String × ℕ)) (w : World) : Prop where
  good : w.Good
  mine : w.Mine f pid
  only : ∀ p, w.Loose p → p = pid
  started : w.started ≤ n
  results : w.results = rs

/-- Its pid is in its file. -/
structure Filed (f : String) (pid : ℕ) (n : String → ℕ) (rs : List (String × ℕ)) (w : World) : Prop
    extends Has f pid n rs w where
  file : w.pidFile f = some pid

theorem stable_quiet : machine.Stable (Quiet n rs) := by
  intro w w' henv h
  have hd := Env.drift henv
  exact ⟨hd.good h.good, fun p hp => h.idle p (hd.loose hp), hd.started ▸ h.started,
    hd.results.trans h.results⟩

theorem stable_has : machine.Stable (Has f pid n rs) := by
  intro w w' henv h
  have hd := Env.drift henv
  exact ⟨hd.good h.good, hd.mine h.mine, fun p hp => h.only p (hd.loose hp), hd.started ▸ h.started,
    hd.results.trans h.results⟩

theorem stable_filed : machine.Stable (Filed f pid n rs) := by
  intro w w' henv h
  have hd := Env.drift henv
  exact ⟨stable_has w w' henv h.toHas, (congrFun hd.pidFile f).trans h.file⟩

theorem stable_ready : machine.Stable (fun w => w.Ready f) :=
  fun _ _ henv h => (Env.drift henv).ready h

/-- Where a command is safe: on a machine that starts its own servers, and on one that leaves them
alone. -/
def safe : Role → Cmd → World → Prop
  | .both, .spawn _ _, w => ∀ p, ¬w.Loose p
  | .both, .client f _, w => w.Ready f ∧ ∃ pid, w.Mine f pid ∧ ∀ p, w.Loose p → p = pid
  | .both, .kill _ pid, w => ∃ f, w.Mine f pid
  | .both, .killone f, w => ∃ pid ∈ w.lost, w.Mine f pid
  | .both, _, _ => True
  | .client, .sleep _, _ | .client, .client _ _, _ => True
  | .client, _, _ => False

/-! ### Each command -/

section

variable {α : Type} {P : World → Prop} {Q : α → World → Prop}

theorem wp_sleep {role : Role} {tenths : ℕ} {g : Unit → Shell α} (hP : machine.Stable P) (hw : P w)
    (h : ∀ w, P w → machine.wp (safe role) (g ()) Q w) :
    machine.wp (safe role) (sleep tenths >>= g) Q w := by
  refine System.wp_cmd hP hw (fun _ _ => by cases role <;> trivial) (fun w r w' hw hexec => ?_)
  cases hexec
  exact h w hw

theorem wp_alive {g : Bool → Shell α} (hP : machine.Stable P) (hw : P w)
    (hdead : ∀ w, P w → (∀ P, w.procs[pid]? = some P → P.alive = false) →
      machine.wp (safe .both) (g false) Q w)
    (halive : ∀ w, P w → machine.wp (safe .both) (g true) Q w) :
    machine.wp (safe .both) (alive pid >>= g) Q w := by
  refine System.wp_cmd hP hw (fun _ _ => trivial) (fun w r w' hw hexec => ?_)
  cases hexec with
  | alive hb =>
    cases r with
    | false => exact hdead w hw (hb rfl)
    | true => exact halive w hw

theorem wp_awaitExit (hP : machine.Stable P) (hw : P w) (ticks : ℕ) :
    machine.wp (safe .both) (awaitExit pid ticks) (fun _ => P) w := by
  induction ticks generalizing w with
  | zero => exact System.wp_pure hP hw (fun _ hw => hw)
  | succ ticks ih =>
    unfold awaitExit
    refine wp_alive hP hw (fun w hw _ => ?_) (fun w hw => ?_)
    · exact System.wp_pure hP hw (fun _ hw => hw)
    · exact wp_sleep hP hw (fun w hw => ih hw)

end

theorem Has.quiet_of_dead (h : Has f pid n rs w)
    (hdead : ∀ P, w.procs[pid]? = some P → P.alive = false) : Quiet n rs w := by
  refine ⟨h.good, fun p hp => ?_, h.started, h.results⟩
  obtain rfl := h.only p hp
  obtain ⟨P, hP, _, halive, _⟩ := hp
  rw [hdead P hP] at halive
  cases halive

theorem Good.setPid {left : Option ℕ} (hg : w.Good) (hleft : ∀ p, left = some p → w.Mine f p) :
    (w.setPid f left).Good where
  files {g p} hp := by
    by_cases hgf : g = f
    · subst hgf
      exact hleft p (by simpa [World.setPid] using hp)
    · refine hg.files (f := g) ?_
      simpa [World.setPid, Function.update_of_ne hgf] using hp
  logs hl := hg.logs hl

theorem Quiet.rmPid {left : Option ℕ} (h : Quiet n rs w) (hleft : left = none ∨ left = w.pidFile f) :
    Quiet n rs (w.setPid f left) := by
  refine ⟨Good.setPid h.good (fun p hp => ?_), h.idle, h.started, h.results⟩
  rcases hleft with rfl | rfl
  · cases hp
  · exact h.good.files hp

/-- The end of `start_server` after a failure. -/
theorem wp_rmPid {b : Bool} (hw : Quiet n rs w) :
    machine.wp (safe .both) (rmPid f >>= fun _ => pure b) (fun r w => r = b ∧ Quiet n rs w) w := by
  refine System.wp_cmd stable_quiet hw (fun _ _ => trivial) (fun w r w' hw hexec => ?_)
  cases hexec with
  | rmPid hleft => exact System.wp_pure stable_quiet (hw.rmPid hleft) (fun _ hw => ⟨rfl, hw⟩)

/-! ### Stopping a server -/

theorem Has.lost (h : Has f pid n rs w) : Quiet n rs { w with lost := pid :: w.lost } := by
  refine ⟨⟨h.good.files, h.good.logs⟩, fun p hp => ?_, h.started, h.results⟩
  obtain ⟨P, hP, hours, halive, hkilled, hlost⟩ := hp
  exact List.ne_of_not_mem_cons hlost
    (h.only p ⟨P, hP, hours, halive, hkilled, List.not_mem_of_not_mem_cons hlost⟩)

theorem Has.killed (h : Has f pid n rs w) {P : Proc} (hP : w.procs[pid]? = some P) :
    Quiet n rs (w.setProc pid { P with killed := true }) := by
  have hages : P.Ages { P with killed := true } := ⟨rfl, rfl, id, fun _ => rfl, id⟩
  have hd : w.Drift (w.setProc pid { P with killed := true }) :=
    .of_setProc hP hages (fun _ hl => .inl hl)
  refine ⟨hd.good h.good, fun p hp => ?_, hd.started ▸ h.started, h.results⟩
  obtain rfl := h.only p (hd.loose hp)
  obtain ⟨P', hP', _, _, hkilled, _⟩ := hp
  obtain rfl := Option.some.inj ((getElem?_set_of_some hP).symm.trans hP')
  cases hkilled

theorem stable_lost : machine.Stable (fun w => pid ∈ w.lost ∧ w.Mine f pid) := by
  intro w w' henv h
  have hd := Env.drift henv
  exact ⟨hd.lost ▸ h.1, hd.mine h.2⟩

theorem wp_stopServer (c : Config) (hw : Filed f pid n rs w) :
    machine.wp (safe .both) (stopServer c f) (fun _ => Quiet n rs) w := by
  have hend : ∀ {w : World}, Quiet n rs w → machine.wp (safe .both) (rmPid f) (fun _ => Quiet n rs) w := by
    intro w hw
    refine System.wp_last stable_quiet hw (fun _ _ => trivial) (fun w r w' hw hexec => ?_)
    cases hexec with
    | rmPid hleft => exact System.wp_pure stable_quiet (hw.rmPid hleft) (fun _ hw => hw)
  unfold stopServer
  refine System.wp_cmd stable_filed hw (fun _ _ => trivial) (fun w r w' hw hexec => ?_)
  cases hexec with
  | readPid =>
    rw [hw.file]
    refine System.wp_cmd stable_has hw.toHas (fun w hw => ⟨f, hw.mine⟩) (fun w r w' hw hexec => ?_)
    cases hexec
    refine System.wp_then (wp_awaitExit stable_has hw _) (fun _ w hw => ?_)
    refine wp_alive stable_has hw (fun w hw hdead => hend (hw.quiet_of_dead hdead)) (fun w hw => ?_)
    refine System.wp_cmd stable_has hw (fun w hw => ⟨f, hw.mine⟩) (fun w r w' hw hexec => ?_)
    have hquiet : Quiet n rs w' := by
      cases hexec with
      | kill hP => exact hw.killed hP
      | killNone hnone =>
        obtain ⟨P, hP, _⟩ := hw.mine
        cases hnone.symm.trans hP
    exact System.wp_then (wp_awaitExit stable_quiet hquiet 50) (fun _ w hw => hend hw)
  | readFails hpid' =>
    obtain rfl := Option.some.inj (hpid'.symm.trans hw.file)
    refine System.wp_last (stable_quiet.and stable_lost)
      ⟨hw.toHas.lost, List.mem_cons_self, hw.mine⟩ (fun w hw => ⟨_, hw.2⟩) (fun w r w' hw hexec => ?_)
    cases hexec
    exact System.wp_pure stable_quiet hw.1 (fun _ hw => hw)

/-! ### Starting a server -/

theorem Quiet.spawned (h : Quiet n rs w) (f : String) :
    Has f w.procs.length (n + Pi.single f 1) rs
      { w with procs := w.procs ++ [{ name := f, ours := true }] } := by
  refine ⟨⟨fun hp => ?_, fun hl => ?_⟩, ?_, fun p hp => ?_, ?_, h.results⟩
  · obtain ⟨P, hP, hP'⟩ := h.good.files hp
    exact ⟨P, getElem?_append_of_some hP, hP'⟩
  · obtain ⟨p, P, hP, hP'⟩ := h.good.logs hl
    exact ⟨p, P, getElem?_append_of_some hP, hP'⟩
  · exact ⟨_, List.getElem?_concat_length, rfl, rfl⟩
  · obtain ⟨P, hP, hP'⟩ := hp
    rcases getElem?_append_cases hP with ⟨hp, _⟩ | hP
    · exact hp
    · exact absurd ⟨P, hP, hP'⟩ (h.idle p)
  · intro g
    have hstarted := h.started g
    unfold World.started at hstarted ⊢
    rw [List.countP_append, List.countP_singleton, Pi.add_apply, Pi.single_apply]
    by_cases hg : g = f
    · subst hg
      simpa using hstarted
    · simpa [hg, Ne.symm hg] using hstarted

theorem Has.filed (h : Has f pid n rs w) : Filed f pid n rs (w.setPid f (some pid)) := by
  refine ⟨⟨Good.setPid h.good (fun p hp => ?_), h.mine, h.only, h.started, h.results⟩, ?_⟩
  · exact Option.some.inj hp ▸ h.mine
  · simp [World.setPid]

/-- A server is started, and its pid is in its file, or lost. -/
theorem wp_serverSh (c : Config) (args : List String) (hw : Quiet n rs w) :
    machine.wp (safe .both) (serverSh c f args)
      (fun ok w => if ok then ∃ pid, Filed f pid (n + Pi.single f 1) rs w
        else Quiet (n + Pi.single f 1) rs w) w := by
  unfold serverSh
  refine System.wp_cmd stable_quiet hw (fun w hw => hw.idle) (fun w r w' hw hexec => ?_)
  cases hexec
  refine System.wp_last stable_has (hw.spawned f) (fun _ _ => trivial) (fun w r w' hw hexec => ?_)
  cases hexec with
  | writePid => exact System.wp_pure stable_filed hw.filed (fun w hw => ⟨_, hw⟩)
  | @writeFails _ _ left hleft =>
    have hgood : (w.setPid f left).Good := by
      refine Good.setPid hw.good (fun p hp => ?_)
      rcases hleft with rfl | rfl
      · cases hp
      · exact hw.good.files hp
    have hquiet := Has.lost ⟨hgood, hw.mine, hw.only, hw.started, hw.results⟩
    exact System.wp_pure stable_quiet hquiet (fun w hw => hw)

/-- What `start_server` knows when its wait is over. -/
def Waited.Knows (f : String) (pid : ℕ) (n : String → ℕ) (rs : List (String × ℕ)) (w : World) :
    Waited → Prop
  | .up => Filed f pid n rs w ∧ w.Ready f
  | .exited => Quiet n rs w
  | .late => Filed f pid n rs w

theorem wp_listening {α : Type} {P : World → Prop} {Q : α → World → Prop} {g : Bool → Shell α}
    (hP : machine.Stable P) (hgood : ∀ w, P w → w.Good) (hw : P w)
    (hup : ∀ w, P w → w.Ready f → machine.wp (safe .both) (g true) Q w)
    (hnot : ∀ w, P w → machine.wp (safe .both) (g false) Q w) :
    machine.wp (safe .both) (listening f >>= g) Q w := by
  refine System.wp_cmd hP hw (fun _ _ => trivial) (fun w r w' hw hexec => ?_)
  cases hexec with
  | listening hb =>
    cases r with
    | false => exact hnot w hw
    | true => exact hup w hw ((hgood w hw).logs (hb rfl))

theorem wp_awaitListening (hw : Filed f pid n rs w) (ticks : ℕ) :
    machine.wp (safe .both) (awaitListening f (some pid) ticks) (fun r w => r.Knows f pid n rs w) w := by
  induction ticks generalizing w with
  | zero => exact System.wp_pure stable_filed hw (fun _ hw => hw)
  | succ ticks ih =>
    unfold awaitListening
    refine wp_listening stable_filed (fun w hw => hw.good) hw (fun w hw hready => ?_) (fun w hw => ?_)
    · exact System.wp_pure (stable_filed.and stable_ready) ⟨hw, hready⟩ (fun _ hw => hw)
    · refine wp_alive stable_filed hw (fun w hw hdead => ?_) (fun w hw => ?_)
      · exact System.wp_pure stable_quiet (hw.quiet_of_dead hdead) (fun _ hw => hw)
      · exact wp_sleep stable_filed hw (fun w hw => ih hw)

/-- Without a pid, a server that is not listening yet is taken for one that has exited. -/
theorem wp_awaitListening_none (hw : Filed f pid n rs w ∧ Quiet n rs w) (ticks : ℕ) :
    machine.wp (safe .both) (awaitListening f none ticks) (fun r w => r.Knows f pid n rs w) w := by
  cases ticks with
  | zero => exact System.wp_pure stable_filed hw.1 (fun _ hw => hw)
  | succ ticks =>
    unfold awaitListening
    refine wp_listening (stable_filed.and stable_quiet) (fun w hw => hw.1.good) hw
      (fun w hw hready => ?_) (fun w hw => ?_)
    · exact System.wp_pure (stable_filed.and stable_ready) ⟨hw.1, hready⟩ (fun _ hw => hw)
    · exact System.wp_pure stable_quiet hw.2 (fun _ hw => hw)

/-- One attempt, up to the end of its wait. -/
theorem wp_attempt (c : Config) (args : List String) {g : Waited → Shell Bool} {Q : Bool → World → Prop}
    (hw : Quiet n rs w) (ticks : ℕ) (hfail : ∀ w, Quiet (n + Pi.single f 1) rs w → Q false w)
    (hg : ∀ r pid w, r.Knows f pid (n + Pi.single f 1) rs w → machine.wp (safe .both) (g r) Q w) :
    machine.wp (safe .both) (serverSh c f args >>= fun ok => if ok = true then
      readPid f >>= fun pid => awaitListening f pid ticks >>= g else pure false) Q w := by
  refine System.wp_then (wp_serverSh c args hw) (fun ok w hw => ?_)
  cases ok with
  | false => exact System.wp_pure stable_quiet hw hfail
  | true =>
    obtain ⟨pid, hw⟩ := hw
    refine System.wp_cmd stable_filed hw (fun _ _ => trivial) (fun w r w' hw hexec => ?_)
    refine System.wp_then (J := fun r w => r.Knows f pid (n + Pi.single f 1) rs w) ?_
      (fun r w hw => hg r pid w hw)
    cases hexec with
    | readPid =>
      rw [hw.file]
      exact wp_awaitListening hw ticks
    | readFails hpid' =>
      obtain rfl := Option.some.inj (hpid'.symm.trans hw.file)
      have hquiet := hw.toHas.lost
      have hhas : Has f _ (n + Pi.single f 1) rs { w with lost := _ :: w.lost } :=
        ⟨hquiet.good, hw.mine, fun p hp => absurd hp (hquiet.idle p), hquiet.started, hquiet.results⟩
      exact wp_awaitListening_none ⟨⟨hhas, hw.file⟩, hquiet⟩ ticks

theorem Quiet.mono {m : String → ℕ} (h : Quiet n rs w) (hm : n ≤ m) : Quiet m rs w :=
  ⟨h.good, h.idle, h.started.trans hm, h.results⟩

theorem Filed.mono {m : String → ℕ} (h : Filed f pid n rs w) (hm : n ≤ m) : Filed f pid m rs w :=
  ⟨⟨h.good, h.mine, h.only, h.started.trans hm, h.results⟩, h.file⟩

/-- What `start_server` returns: one server that has logged that it listens, or none. -/
def Started (f : String) (n : String → ℕ) (rs : List (String × ℕ)) (ok : Bool) (w : World) : Prop :=
  if ok then ∃ pid, Filed f pid n rs w ∧ w.Ready f else Quiet n rs w

theorem wp_startAttempt (c : Config) (args : List String) {again : Option (Shell Bool)}
    {m : String → ℕ} (hw : Quiet n rs w) (hm : n + Pi.single f 1 ≤ m)
    (hagain : ∀ p w, again = some p → Quiet (n + Pi.single f 1) rs w →
      machine.wp (safe .both) p (Started f m rs) w) :
    machine.wp (safe .both) (startAttempt c f args again) (Started f m rs) w := by
  unfold startAttempt
  refine wp_attempt c args hw _ (fun w hw => hw.mono hm) (fun r pid w hw => ?_)
  have hexit : ∀ {w : World}, Quiet (n + Pi.single f 1) rs w →
      machine.wp (safe .both) (rmPid f >>= fun _ => pure false) (Started f m rs) w := by
    intro w hw
    refine System.wp_mono (wp_rmPid hw) ?_
    rintro ok w ⟨rfl, hw⟩
    exact hw.mono hm
  cases r with
  | up =>
    exact System.wp_pure (stable_filed.and stable_ready) hw (fun w hw => ⟨pid, hw.1.mono hm, hw.2⟩)
  | late =>
    refine System.wp_then (wp_stopServer c hw) (fun _ w hw => ?_)
    exact System.wp_pure stable_quiet hw (fun _ hw => hw.mono hm)
  | exited =>
    cases again with
    | none => exact hexit hw
    | some again =>
      refine System.wp_cmd stable_quiet hw (fun _ _ => trivial) (fun w r w' hw hexec => ?_)
      cases hexec with
      | inUse _ =>
        cases r with
        | false => exact hexit hw
        | true => exact wp_sleep stable_quiet hw (fun w hw => hagain again w rfl hw)

theorem wp_startAttempts (c : Config) (args : List String) (left : ℕ) (hw : Quiet n rs w) :
    machine.wp (safe .both) (startAttempts c f args left)
      (Started f (n + Pi.single f (1 + left)) rs) w := by
  induction left generalizing n w with
  | zero => exact wp_startAttempt c args hw le_rfl (fun p w hp => by cases hp)
  | succ left ih =>
    have hcount : n + Pi.single f 1 + Pi.single f (1 + left) = n + Pi.single f (1 + (left + 1)) := by
      rw [add_assoc, ← Pi.single_add, Nat.add_comm left 1]
    rw [← hcount]
    refine wp_startAttempt c args hw le_self_add ?_
    rintro p w ⟨⟩ hw
    exact ih hw

/-! ### A client for each framework -/

theorem wp_benchSleep {role : Role} {P : World → Prop} (hP : machine.Stable P) (hw : P w)
    (seconds : ℕ) : machine.wp (safe role) (benchSleep seconds) (fun _ => P) w := by
  induction seconds generalizing w with
  | zero => exact System.wp_pure hP hw (fun _ hw => hw)
  | succ seconds ih =>
    unfold benchSleep
    exact wp_sleep hP hw (fun w hw => ih hw)

/-- What `script/clients.sh` returns, from a status and after the results `rs`. -/
structure Measured (frameworks : List String) (n : String → ℕ) (status : ℕ) (rs : List (String × ℕ)) (r : ℕ)
    (w : World) : Prop where
  exists_results : ∃ more : List (String × ℕ), Quiet n (rs ++ more) w ∧
    (more.map Prod.fst).Sublist frameworks ∧
    (r = 0 ↔ status = 0 ∧ more = frameworks.map (fun f => (f, 0)))

theorem Filed.client (h : Filed f pid n rs w) (g : String) (code : ℕ) :
    Filed f pid n (rs ++ [(g, code)]) { w with results := w.results ++ [(g, code)] } :=
  ⟨⟨⟨h.good.files, h.good.logs⟩, h.mine, h.only, h.started, congrArg (· ++ _) h.results⟩, h.file⟩

/-- A client runs while its server is the only one. -/
theorem wp_client {α : Type} {args : List String} {g : ℕ → Shell α} {Q : α → World → Prop}
    (hw : Filed f pid n rs w ∧ w.Ready f) (h : ∀ code w, Filed f pid n (rs ++ [(f, code)]) w ∧ w.Ready f →
      machine.wp (safe .both) (g code) Q w) : machine.wp (safe .both) (client f args >>= g) Q w := by
  refine System.wp_cmd (stable_filed.and stable_ready) hw
    (fun w hw => ⟨hw.2, pid, hw.1.mine, hw.1.only⟩) (fun w code w' hw hexec => ?_)
  cases hexec
  exact h code _ ⟨hw.1.client f code, hw.2⟩

section

variable {rest : List String} {status r : ℕ}

/-- A framework whose server did not start. -/
theorem Measured.skip (h : Measured rest n 1 rs r w) : Measured (f :: rest) n status rs r w := by
  obtain ⟨more, hquiet, hsub, hr⟩ := h.exists_results
  refine ⟨more, hquiet, hsub.cons f, ⟨fun h0 => absurd (hr.mp h0).1 (by decide), fun hall => ?_⟩⟩
  have hlen := hsub.length_le
  rw [hall.2] at hlen
  simp only [List.map_cons, List.length_cons, List.length_map] at hlen
  omega

theorem Measured.cons {code : ℕ}
    (h : Measured rest n (if code = 0 then status else code) (rs ++ [(f, code)]) r w) :
    Measured (f :: rest) n status rs r w := by
  obtain ⟨more, hquiet, hsub, hr⟩ := h.exists_results
  rw [List.append_assoc] at hquiet
  refine ⟨(f, code) :: more, hquiet, hsub.cons_cons f, hr.trans ?_⟩
  by_cases hcode : code = 0
  · simp [hcode]
  · simp [hcode]

end

/-- What `start_server` may start for the frameworks of a list. -/
def Config.budget (c : Config) (frameworks : List String) (f : String) : ℕ :=
  frameworks.count f * (1 + c.ServerStartRetries)

theorem Config.budget_nil (c : Config) : c.budget [] = 0 := by
  funext f
  simp [budget]

theorem Config.budget_cons (c : Config) (f : String) (rest : List String) :
    c.budget (f :: rest) = Pi.single f (1 + c.ServerStartRetries) + c.budget rest := by
  funext g
  unfold budget
  rw [Pi.add_apply, Pi.single_apply, List.count_cons]
  by_cases hg : g = f
  · simp [hg, Nat.succ_mul, Nat.add_comm]
  · simp [hg, Ne.symm hg]

theorem wp_clientsFrom (c : Config) (flags args frameworks : List String) (first : Bool) (status : ℕ)
    (hw : Quiet n rs w) :
    machine.wp (safe .both) (clientsFrom c true flags args first frameworks status)
      (Measured frameworks (n + c.budget frameworks) status rs) w := by
  induction frameworks generalizing n rs w first status with
  | nil =>
    rw [c.budget_nil, add_zero]
    exact System.wp_pure stable_quiet hw (fun w hw => ⟨[], by simpa using hw, by simp, by simp⟩)
  | cons f rest ih =>
    rw [c.budget_cons, ← add_assoc]
    have hbody : ∀ w, Quiet n rs w → machine.wp (safe .both) (startServer c f flags >>= fun up =>
        if up = true then sleep (c.ServerReadyDelay * 10) >>= fun _ =>
          client f (("-f=" ++ f) :: ("-ip=" ++ c.BENCH_SERVER_HOST) :: args) >>= fun code =>
            stopServer c f >>= fun _ =>
              clientsFrom c true flags args false rest (if code = 0 then status else code)
        else clientsFrom c true flags args false rest 1) (Measured (f :: rest)
          (n + Pi.single f (1 + c.ServerStartRetries) + c.budget rest) status rs) w := by
      intro w hw
      refine System.wp_then (wp_startAttempts c flags _ hw) (fun up w hw => ?_)
      cases up with
      | false => exact System.wp_mono (ih false 1 hw) (fun _ _ h => h.skip)
      | true =>
        obtain ⟨pid, hw⟩ := hw
        refine wp_sleep (stable_filed.and stable_ready) hw (fun w hw => ?_)
        refine wp_client hw (fun code w hw => ?_)
        refine System.wp_then (wp_stopServer c hw.1) (fun _ w hw => ?_)
        exact System.wp_mono (ih false _ hw) (fun _ _ h => h.cons)
    unfold clientsFrom
    cases first with
    | true => exact hbody w hw
    | false => exact System.wp_then (wp_benchSleep stable_quiet hw _) (fun _ w hw => hbody w hw)

/-- What the clients of one framework return: all of them, or those up to the one that failed. -/
def Ran (f : String) (pid : ℕ) (n : String → ℕ) (combos : List Combo) (rs : List (String × ℕ)) (ok : Bool)
    (w : World) : Prop :=
  if ok then Filed f pid n (rs ++ combos.map (fun _ => (f, 0))) w ∧ w.Ready f
  else ∃ more, Quiet n (rs ++ more) w ∧ more.map Prod.fst <+: combos.map (fun _ => f) ∧
    ∃ code, (f, code) ∈ more ∧ code ≠ 0

theorem Ran.cons {b : Combo} {rest : List Combo} {ok : Bool} (h : Ran f pid n rest (rs ++ [(f, 0)]) ok w) :
    Ran f pid n (b :: rest) rs ok w := by
  cases ok with
  | true =>
    obtain ⟨hfiled, hready⟩ := h
    rw [List.append_assoc] at hfiled
    exact ⟨hfiled, hready⟩
  | false =>
    obtain ⟨more, hquiet, hmore, code, hmem, hcode⟩ := h
    rw [List.append_assoc] at hquiet
    refine ⟨(f, 0) :: more, hquiet, ?_, code, List.mem_cons_of_mem _ hmem, hcode⟩
    exact (List.prefix_cons_inj f).mpr hmore

theorem wp_matrixRuns (c : Config) (args : List String) (combos : List Combo) (first : Bool)
    (hw : Filed f pid n rs w ∧ w.Ready f) :
    machine.wp (safe .both) (matrixRuns c true args f first combos) (Ran f pid n combos rs) w := by
  induction combos generalizing rs w first with
  | nil =>
    refine System.wp_pure (stable_filed.and stable_ready) hw (fun w hw => ⟨?_, hw.2⟩)
    rw [List.map_nil, List.append_nil]
    exact hw.1
  | cons b rest ih =>
    have hbody : ∀ w, Filed f pid n rs w ∧ w.Ready f → machine.wp (safe .both) (client f (b.args c f args) >>=
        fun code => if code = 0 then matrixRuns c true args f false rest
          else stopServer c f >>= fun _ => pure false) (Ran f pid n (b :: rest) rs) w := by
      intro w hw
      refine wp_client hw (fun code w hw => ?_)
      by_cases hcode : code = 0
      · rw [if_pos hcode]
        subst hcode
        exact System.wp_mono (ih false hw) (fun _ _ h => h.cons)
      · rw [if_neg hcode]
        refine System.wp_then (wp_stopServer c hw.1) (fun _ w hw => ?_)
        exact System.wp_pure stable_quiet hw (fun w hw => ⟨_, hw, ⟨_, rfl⟩, code,
          List.mem_singleton_self _, hcode⟩)
    unfold matrixRuns
    cases first with
    | true => exact hbody w hw
    | false =>
      exact System.wp_then (wp_benchSleep (stable_filed.and stable_ready) hw _) (fun _ w hw => hbody w hw)

/-- What the matrix has for each framework if no client fails. -/
def planned (frameworks : List String) (combos : List Combo) : List (String × ℕ) :=
  frameworks.flatMap (fun f => combos.map (fun _ => (f, 0)))

/-- The results `more` are those of a matrix that has ended with `r`. -/
structure Sweep (frameworks : List String) (combos : List Combo) (r : ℕ) (more : List (String × ℕ)) :
    Prop where
  names : more.map Prod.fst <+: (planned frameworks combos).map Prod.fst
  whole : r = 0 → more = planned frameworks combos
  cut : r ≠ 0 → more = planned frameworks combos → combos = []

section

variable {rest : List String} {all : List Combo} {r : ℕ} {more : List (String × ℕ)}

theorem planned_cons (f : String) (rest : List String) (all : List Combo) :
    planned (f :: rest) all = all.map (fun _ => (f, 0)) ++ planned rest all :=
  List.flatMap_cons ..

/-- A server that did not start ends the matrix. -/
theorem Sweep.refused : Sweep (f :: rest) all 1 [] := by
  refine ⟨by simp, by simp, fun _ hall => ?_⟩
  rw [planned_cons] at hall
  simpa using (List.append_eq_nil_iff.mp hall.symm).1

theorem Sweep.cons (h : Sweep rest all r more) :
    Sweep (f :: rest) all r (all.map (fun _ => (f, 0)) ++ more) := by
  refine ⟨?_, fun hr => ?_, fun hr hall => ?_⟩
  · rw [planned_cons, List.map_append, List.map_append]
    exact (List.prefix_append_right_inj _).mpr h.names
  · rw [planned_cons, h.whole hr]
  · rw [planned_cons] at hall
    exact h.cut hr (List.append_cancel_left hall)

/-- A client that failed does, too. -/
theorem Sweep.failed (hmore : more.map Prod.fst <+: all.map (fun _ => f)) {code : ℕ}
    (hmem : (f, code) ∈ more) (hcode : code ≠ 0) : Sweep (f :: rest) all 1 more := by
  refine ⟨?_, fun h1 => absurd h1 (by decide), fun _ hall => ?_⟩
  · rw [planned_cons, List.map_append, List.map_map]
    exact hmore.trans (List.prefix_append _ _)
  · rw [hall] at hmem
    obtain ⟨g, _, hg⟩ := List.mem_flatMap.mp hmem
    obtain ⟨_, _, hb⟩ := List.mem_map.mp hg
    exact absurd (Prod.mk.inj hb).2.symm hcode

theorem Sweep.nil : Sweep [] all 0 [] := ⟨by simp, fun _ => rfl, by simp⟩

end

theorem wp_matrixFrom (c : Config) (flags args frameworks : List String) (all : List Combo) (first : Bool)
    (hw : Quiet n rs w) :
    machine.wp (safe .both) (matrixFrom c true flags args all first frameworks)
      (fun r w => ∃ more, Quiet (n + c.budget frameworks) (rs ++ more) w ∧ Sweep frameworks all r more)
      w := by
  induction frameworks generalizing n rs w first with
  | nil =>
    rw [c.budget_nil, add_zero]
    exact System.wp_pure stable_quiet hw (fun w hw => ⟨[], by simpa using hw, .nil⟩)
  | cons f rest ih =>
    rw [c.budget_cons, ← add_assoc]
    have hbody : ∀ w, Quiet n rs w → machine.wp (safe .both) (startServer c f flags >>= fun up =>
        if up = true then sleep (c.ServerReadyDelay * 10) >>= fun _ =>
          matrixRuns c true args f true all >>= fun ok => if ok = true then
            stopServer c f >>= fun _ => matrixFrom c true flags args all false rest else pure 1
        else pure 1) (fun r w => ∃ more,
          Quiet (n + Pi.single f (1 + c.ServerStartRetries) + c.budget rest) (rs ++ more) w ∧
            Sweep (f :: rest) all r more) w := by
      intro w hw
      refine System.wp_then (wp_startAttempts c flags _ hw) (fun up w hw => ?_)
      cases up with
      | false =>
        refine System.wp_pure stable_quiet hw (fun w hw => ⟨[], ?_, .refused⟩)
        rw [List.append_nil]
        exact hw.mono le_self_add
      | true =>
        obtain ⟨pid, hw⟩ := hw
        refine wp_sleep (stable_filed.and stable_ready) hw (fun w hw => ?_)
        refine System.wp_then (wp_matrixRuns c args all true hw) (fun ok w hw => ?_)
        cases ok with
        | false =>
          obtain ⟨more, hquiet, hmore, code, hmem, hcode⟩ := hw
          exact System.wp_pure stable_quiet hquiet
            (fun w hw => ⟨more, hw.mono le_self_add, .failed hmore hmem hcode⟩)
        | true =>
          refine System.wp_then (wp_stopServer c hw.1) (fun _ w hw => ?_)
          refine System.wp_mono (ih false hw) ?_
          rintro r w ⟨more, hquiet, hsweep⟩
          rw [List.append_assoc] at hquiet
          exact ⟨_, hquiet, hsweep.cons⟩
    unfold matrixFrom
    cases first with
    | true => exact hbody w hw
    | false => exact System.wp_then (wp_benchSleep stable_quiet hw _) (fun _ w hw => hbody w hw)

/-! ### Every run -/

/-- A run starts with no server of its own, and after `script/clean.sh`. -/
structure World.Clean (w : World) : Prop where
  procs : ∀ P ∈ w.procs, P.ours = false
  pidFile : ∀ f, w.pidFile f = none
  log : ∀ f, (w.log f).listening = false
  results : w.results = []

theorem World.Clean.quiet (h : w.Clean) : Quiet 0 [] w where
  good := by
    refine ⟨fun {f p} hp => ?_, fun {f} hl => ?_⟩
    · rw [h.pidFile] at hp
      cases hp
    · rw [h.log] at hl
      cases hl
  idle p hp := by
    obtain ⟨P, hP, hours, _⟩ := hp
    rw [h.procs P (List.mem_of_getElem? hP)] at hours
    cases hours
  started := by
    intro f
    refine Nat.le_of_eq (List.countP_eq_zero.mpr (fun P hP => ?_))
    rw [h.procs P hP]
    exact Bool.false_ne_true
  results := h.results

theorem exec_total (w : World) (c : Cmd) : ∃ r w', machine.exec w c r w' := by
  cases c with
  | spawn f args => exact ⟨_, _, .spawn⟩
  | writePid f pid => exact ⟨_, _, .writePid⟩
  | readPid f => exact ⟨_, _, .readPid⟩
  | listening f => exact ⟨_, _, .listening id⟩
  | inUse f => exact ⟨_, _, .inUse id⟩
  | alive pid => exact ⟨true, _, .alive (fun h => by cases h)⟩
  | kill sig pid =>
    cases sig with
    | int => exact ⟨_, _, .int⟩
    | kill =>
      cases hP : w.procs[pid]? with
      | none => exact ⟨_, _, .killNone hP⟩
      | some P => exact ⟨_, _, .kill hP⟩
  | killone f => exact ⟨_, _, .killone⟩
  | rmPid f => exact ⟨_, _, .rmPid (.inl rfl)⟩
  | sleep tenths => exact ⟨_, _, .sleep⟩
  | client f args => exact ⟨(0 : ℕ), _, .client⟩

theorem Exec.started_le {c : Cmd} {r : c.Answer} (h : Exec w c r w') : w.started ≤ w'.started := by
  cases h with
  | spawn =>
    intro g
    simp only [World.started, List.countP_append]
    omega
  | @kill pid P hP =>
    have hsame : (w.setProc pid { P with killed := true }).started = w.started :=
      World.started_setProc hP rfl rfl
    exact hsame.ge
  | _ => exact le_refl _

theorem started_le_of_run {x y : World × Shell ℕ} (h : Relation.ReflTransGen machine.Step x y) :
    x.1.started ≤ y.1.started := by
  induction h with
  | refl => exact le_refl _
  | tail _ hstep ih =>
    refine ih.trans ?_
    cases hstep with
    | env henv => exact (Env.drift henv).started.ge
    | call hexec => exact hexec.started_le

/-- What is so at any time of a run: at most `bound` servers of each framework have been started, and the
run goes on to an end, where none is loose. -/
structure Orderly (bound : String → ℕ) (w : World) (p : Shell ℕ) : Prop where
  started : ∀ f, w.started f ≤ bound f
  idle : ∀ status, p = .done status → ∀ pid, ¬w.Loose pid
  ends : ∃ w' status, Relation.ReflTransGen machine.Step (w, p) (w', .done status)

theorem orderly_of_wp {s p : Shell ℕ} {Q : ℕ → World → Prop} {bound : String → ℕ}
    (h : machine.wp (safe .both) s Q w) (hQ : ∀ r w, Q r w → ∃ rs, Quiet bound rs w)
    (hrun : Relation.ReflTransGen machine.Step (w, s) (w', p)) : Orderly bound w' p := by
  obtain ⟨w'', status, hend⟩ := System.exists_done exec_total w' p
  refine ⟨?_, fun r hr => ?_, w'', status, hend⟩
  · obtain ⟨rs, hquiet⟩ := hQ _ _ ((System.wp_run h (hrun.trans hend)).2 _ rfl)
    exact (started_le_of_run hend).trans hquiet.started
  · obtain ⟨rs, hquiet⟩ := hQ _ _ ((System.wp_run h hrun).2 _ hr)
    exact hquiet.idle

/-! ### Servers on another machine -/

theorem stable_results : machine.Stable (fun w => w.results = rs) :=
  fun _ _ henv h => (Env.drift henv).results.trans h

/-- A client of a machine that leaves the servers alone. -/
theorem wp_client_alone {α : Type} {args : List String} {g : ℕ → Shell α} {Q : α → World → Prop}
    (hw : w.results = rs) (h : ∀ code w, w.results = rs ++ [(f, code)] →
      machine.wp (safe .client) (g code) Q w) :
    machine.wp (safe .client) (client f args >>= g) Q w := by
  refine System.wp_cmd stable_results hw (fun _ _ => trivial) (fun w code w' hw hexec => ?_)
  cases hexec
  exact h code _ (congrArg (· ++ _) hw)

theorem wp_clientsFrom_alone (c : Config) (flags args frameworks : List String) (first : Bool)
    (status : ℕ) (hw : w.results = rs) :
    machine.wp (safe .client) (clientsFrom c false flags args first frameworks status)
      (fun r w => ∃ more, w.results = rs ++ more ∧ more.map Prod.fst = frameworks ∧
        (r = 0 ↔ status = 0 ∧ more = frameworks.map (fun f => (f, 0)))) w := by
  induction frameworks generalizing rs w first status with
  | nil => exact System.wp_pure stable_results hw (fun w hw => ⟨[], by simpa using hw, rfl, by simp⟩)
  | cons f rest ih =>
    have hbody : ∀ w, w.results = rs → machine.wp (safe .client)
        (client f (("-f=" ++ f) :: ("-ip=" ++ c.BENCH_SERVER_HOST) :: args) >>= fun code =>
          clientsFrom c false flags args false rest (if code = 0 then status else code))
        (fun r w => ∃ more, w.results = rs ++ more ∧ more.map Prod.fst = f :: rest ∧
          (r = 0 ↔ status = 0 ∧ more = (f :: rest).map (fun f => (f, 0)))) w := by
      intro w hw
      refine wp_client_alone hw (fun code w hw => ?_)
      refine System.wp_mono (ih false _ hw) ?_
      rintro r w ⟨more, hmore, hnames, hr⟩
      rw [List.append_assoc] at hmore
      refine ⟨(f, code) :: more, hmore, congrArg (f :: ·) hnames, hr.trans ?_⟩
      by_cases hcode : code = 0
      · simp [hcode]
      · simp [hcode]
    unfold clientsFrom
    cases first with
    | true => exact hbody w hw
    | false => exact System.wp_then (wp_benchSleep stable_results hw _) (fun w hw => hbody _)

theorem wp_matrixRuns_alone (c : Config) (args : List String) (combos : List Combo) (first : Bool)
    (hw : w.results = rs) :
    machine.wp (safe .client) (matrixRuns c false args f first combos)
      (fun ok w => ∃ more, w.results = rs ++ more ∧ more.map Prod.fst <+: combos.map (fun _ => f) ∧
        if ok then more = combos.map (fun _ => (f, 0)) else ∃ code, (f, code) ∈ more ∧ code ≠ 0) w := by
  induction combos generalizing rs w first with
  | nil =>
    exact System.wp_pure stable_results hw (fun w hw => ⟨[], by simpa using hw, by simp, by simp⟩)
  | cons b rest ih =>
    have hbody : ∀ w, w.results = rs → machine.wp (safe .client) (client f (b.args c f args) >>=
        fun code => if code = 0 then matrixRuns c false args f false rest else pure false)
        (fun ok w => ∃ more, w.results = rs ++ more ∧
          more.map Prod.fst <+: (b :: rest).map (fun _ => f) ∧
          if ok then more = (b :: rest).map (fun _ => (f, 0))
            else ∃ code, (f, code) ∈ more ∧ code ≠ 0) w := by
      intro w hw
      refine wp_client_alone hw (fun code w hw => ?_)
      by_cases hcode : code = 0
      · rw [if_pos hcode]
        subst hcode
        refine System.wp_mono (ih false hw) ?_
        rintro ok w ⟨more, hmore, hnames, hok⟩
        rw [List.append_assoc] at hmore
        refine ⟨(f, 0) :: more, hmore, (List.prefix_cons_inj f).mpr hnames, ?_⟩
        cases ok with
        | true => exact congrArg ((f, 0) :: ·) hok
        | false =>
          obtain ⟨code, hmem, hcode⟩ := hok
          exact ⟨code, List.mem_cons_of_mem _ hmem, hcode⟩
      · rw [if_neg hcode]
        exact System.wp_pure stable_results hw
          (fun w hw => ⟨_, hw, ⟨_, rfl⟩, code, List.mem_singleton_self _, hcode⟩)
    unfold matrixRuns
    cases first with
    | true => exact hbody w hw
    | false => exact System.wp_then (wp_benchSleep stable_results hw _) (fun w hw => hbody _)

theorem wp_matrixFrom_alone (c : Config) (flags args frameworks : List String) (all : List Combo)
    (first : Bool) (hw : w.results = rs) :
    machine.wp (safe .client) (matrixFrom c false flags args all first frameworks)
      (fun r w => ∃ more, w.results = rs ++ more ∧ Sweep frameworks all r more) w := by
  induction frameworks generalizing rs w first with
  | nil => exact System.wp_pure stable_results hw (fun w hw => ⟨[], by simpa using hw, .nil⟩)
  | cons f rest ih =>
    have hbody : ∀ w, w.results = rs → machine.wp (safe .client)
        (matrixRuns c false args f true all >>= fun ok => if ok = true then
          matrixFrom c false flags args all false rest else pure 1)
        (fun r w => ∃ more, w.results = rs ++ more ∧ Sweep (f :: rest) all r more) w := by
      intro w hw
      refine System.wp_then (wp_matrixRuns_alone c args all true hw) (fun ok w hw => ?_)
      obtain ⟨more, hmore, hnames, hok⟩ := hw
      cases ok with
      | false =>
        obtain ⟨code, hmem, hcode⟩ := hok
        exact System.wp_pure stable_results hmore
          (fun w hw => ⟨more, hw, .failed hnames hmem hcode⟩)
      | true =>
        obtain rfl : more = all.map (fun _ => (f, 0)) := hok
        refine System.wp_mono (ih false hmore) ?_
        rintro r w ⟨more, hmore, hsweep⟩
        rw [List.append_assoc] at hmore
        exact ⟨_, hmore, hsweep.cons⟩
    unfold matrixFrom
    cases first with
    | true => exact hbody w hw
    | false => exact System.wp_then (wp_benchSleep stable_results hw _) (fun w hw => hbody _)

/-! ### The drivers -/

/-- The drivers measure one server at a time. Whenever a server exits, logs or hangs, and whichever pid
file cannot be written or read: a server is started only when none is loose, a client runs only when one
of its framework's servers has logged that it listens and no other server is loose, and signals go to
servers of this run. The status is 0 exactly if each framework's clients ran and returned 0. On a machine
whose servers are elsewhere, nothing is started or stopped. -/
theorem one_server_at_a_time (c : Config) (flags args : List String) (conns bodySizes times : List ℕ)
    (frameworks : List String) (hclean : w.Clean) :
    (∀ w' p, Relation.ReflTransGen machine.Step (w, clients c flags args frameworks) (w', p) →
      (∀ cmd next, p = .call cmd next → safe c.BENCH_ROLE cmd w') ∧
      (c.BENCH_ROLE = .both → Orderly (c.budget frameworks) w' p) ∧
      ∀ status, p = .done status → (w'.results.map Prod.fst).Sublist frameworks ∧
        (status = 0 ↔ w'.results = frameworks.map (fun f => (f, 0)))) ∧
    ∀ w' p, Relation.ReflTransGen machine.Step
        (w, matrix c flags args conns bodySizes times frameworks) (w', p) →
      (∀ cmd next, p = .call cmd next → safe c.BENCH_ROLE cmd w') ∧
      (c.BENCH_ROLE = .both → Orderly (c.budget frameworks) w' p) ∧
      ∀ status, p = .done status → ∃ plan, plan = planned frameworks (combos conns bodySizes times) ∧
        w'.results.map Prod.fst <+: plan.map Prod.fst ∧ (status = 0 → w'.results = plan) ∧
        (status ≠ 0 → w'.results = plan → combos conns bodySizes times = []) := by
  unfold clients matrix Config.ownsServers
  cases c.BENCH_ROLE with
  | both =>
    have hclients := wp_clientsFrom c flags args frameworks true 0 hclean.quiet
    have hmatrix :=
      wp_matrixFrom c flags args frameworks (combos conns bodySizes times) true hclean.quiet
    rw [zero_add] at hclients hmatrix
    refine ⟨fun w' p hrun => ⟨(System.wp_run hclients hrun).1, fun _ => ?_, fun status hp => ?_⟩,
      fun w' p hrun => ⟨(System.wp_run hmatrix hrun).1, fun _ => ?_, fun status hp => ?_⟩⟩
    · refine orderly_of_wp hclients (fun r w hw => ?_) hrun
      obtain ⟨more, hquiet, _⟩ := hw.exists_results
      exact ⟨_, hquiet⟩
    · obtain ⟨more, hquiet, hsub, hstatus⟩ :=
        ((System.wp_run hclients hrun).2 status hp).exists_results
      rw [hquiet.results, List.nil_append]
      exact ⟨hsub, hstatus.trans (and_iff_right rfl)⟩
    · refine orderly_of_wp hmatrix (fun r w hw => ?_) hrun
      obtain ⟨more, hquiet, _⟩ := hw
      exact ⟨_, hquiet⟩
    · obtain ⟨more, hquiet, hsweep⟩ := (System.wp_run hmatrix hrun).2 status hp
      rw [hquiet.results, List.nil_append]
      exact ⟨_, rfl, hsweep.names, hsweep.whole, hsweep.cut⟩
  | client =>
    have hclients := wp_clientsFrom_alone c flags args frameworks true 0 hclean.results
    have hmatrix :=
      wp_matrixFrom_alone c flags args frameworks (combos conns bodySizes times) true hclean.results
    refine ⟨fun w' p hrun => ⟨(System.wp_run hclients hrun).1, (by simp), fun status hp => ?_⟩,
      fun w' p hrun => ⟨(System.wp_run hmatrix hrun).1, (by simp), fun status hp => ?_⟩⟩
    · obtain ⟨more, hmore, hnames, hstatus⟩ := (System.wp_run hclients hrun).2 status hp
      rw [hmore, List.nil_append, hnames]
      exact ⟨.refl _, hstatus.trans (and_iff_right rfl)⟩
    · obtain ⟨more, hmore, hsweep⟩ := (System.wp_run hmatrix hrun).2 status hp
      rw [hmore, List.nil_append]
      exact ⟨_, rfl, hsweep.names, hsweep.whole, hsweep.cut⟩

theorem Exec.run {c : Cmd} {r : c.Answer} {next : c.Answer → Shell ℕ} {y : World × Shell ℕ}
    (h : Exec w c r w') (hrest : Relation.ReflTransGen machine.Step (w', next r) y) :
    Relation.ReflTransGen machine.Step (w, .call c next) y :=
  .head (.call h) hrest

theorem Env.run {p : Shell ℕ} {y : World × Shell ℕ} (h : Env w w')
    (hrest : Relation.ReflTransGen machine.Step (w', p) y) :
    Relation.ReflTransGen machine.Step (w, p) y :=
  .head (.env h) hrest

/-- The first client of a run, while its server is up. -/
theorem one_server_at_a_time_first : ∃ w args next, Relation.ReflTransGen machine.Step
      ({}, clients {} [] ["-rate=true"] ["quiche", "fib"])
      (w, .call (.client "quiche" args) next) ∧
    w.Loose 0 ∧ ∀ p, w.Loose p → p = 0 := by
  have hclean : World.Clean {} := ⟨by simp, fun _ => rfl, fun _ => rfl, rfl⟩
  have hrun : ∃ w args next, Relation.ReflTransGen machine.Step
      ({}, clients {} [] ["-rate=true"] ["quiche", "fib"])
      (w, .call (.client "quiche" args) next) ∧
      w.Loose 0 := by
    exact ⟨_, _, _, Exec.run (c := Cmd.spawn "quiche" []) Exec.spawn
      (Exec.run (c := Cmd.writePid "quiche" 0) Exec.writePid
      (Env.run (Env.listening (p := 0) (P := { name := "quiche", ours := true }) rfl rfl rfl)
      (Exec.run (c := Cmd.readPid "quiche") Exec.readPid
      (Exec.run (c := Cmd.listening "quiche") (Exec.listening (b := true) (fun _ => rfl))
      (Exec.run (c := Cmd.sleep 10) Exec.sleep .refl))))), _, rfl, rfl, rfl, rfl, List.not_mem_nil⟩
  obtain ⟨w, args, next, hrun, hloose⟩ := hrun
  obtain ⟨hsafe, -, -⟩ :=
    (one_server_at_a_time {} [] ["-rate=true"] [] [] [] ["quiche", "fib"] hclean).1 _ _ hrun
  obtain ⟨_, pid, _, honly⟩ := hsafe _ _ rfl
  obtain rfl := honly 0 hloose
  exact ⟨w, args, next, hrun, hloose, honly⟩

end Http3Bench.Script
