import Http3Bench.Script.Cpus
import Mathlib.Tactic

/-!
# The CPUs of a container

`script/docker_benchmark.sh` runs the benchmark in a container, up to which it has many reasons to stop.
It takes the CPUs of the container from the list of those the daemon has, which another container has
printed, and divides them between the servers and the client; how many there are of each is up to three
counts, of which any may be left out. `script/env.sh` in the container takes the two lists as they are.
-/

namespace Http3Bench.Script

/-! ### The counts -/

/-- `-cput`, `-cpus` and `-cpuc`; an empty text for one that is not given. -/
structure CpuCounts where
  total : Str
  server : Str
  client : Str

/-- The patterns `-name=*` and `--name=*`. -/
def isFlag (name arg : Str) : Bool :=
  ('-' :: name ++ ['=']).isPrefixOf arg || ('-' :: '-' :: name ++ ['=']).isPrefixOf arg

/-- `${arg#*=}`, where there is a `=`. -/
def afterEquals (arg : Str) : Str := (arg.dropWhile (· ≠ '=')).drop 1

/-- What the script takes out of the arguments, and the others in their order. -/
structure DockerArgs where
  counts : CpuCounts
  socketSyscalls : Str
  others : List Str := []

/-- The `case` over the arguments. -/
def takeFlag (a : DockerArgs) (arg : Str) : DockerArgs :=
  if isFlag "cput".toList arg then { a with counts := { a.counts with total := afterEquals arg } }
  else if isFlag "cpus".toList arg then { a with counts := { a.counts with server := afterEquals arg } }
  else if isFlag "cpuc".toList arg then { a with counts := { a.counts with client := afterEquals arg } }
  else if arg = "-socketsyscalls".toList ∨ arg = "--socketsyscalls".toList then
    { a with socketSyscalls := "true".toList }
  else if isFlag "socketsyscalls".toList arg then { a with socketSyscalls := afterEquals arg }
  else { a with others := a.others ++ [arg] }

/-- The loop over the options that come first. -/
def asksHelp : List Str → Bool
  | [] => false
  | arg :: rest =>
    if arg = "--smoke".toList ∨ arg = "--rebuild".toList then asksHelp rest
    else arg = "-h".toList ∨ arg = "--help".toList

/-- `^[1-9][0-9]*$`. -/
def isPositive : Str → Bool
  | [] => false
  | c :: rest => c.isDigit && c != '0' && rest.all Char.isDigit

def CpuCounts.valid (c : CpuCounts) : Bool :=
  [c.total, c.server, c.client].all (fun value => value.isEmpty || isPositive value)

/-! ### The configuration -/

/-- What is read of the environment; an empty text for what is not set. -/
structure DockerEnv where
  counts : CpuCounts := ⟨[], [], []⟩
  BENCH_ROLE : Str := []
  BENCH_REPORT_SORT : Str := []
  BENCH_FIB_SOCKET_SYSCALLS : Str := []
  BENCH_FRAMEWORKS : Str := []
  DOCKER_BENCH_MEMORY : Str := []

def dockerArgs (env : DockerEnv) (args : List Str) : DockerArgs :=
  args.foldl takeFlag { counts := env.counts, socketSyscalls := env.BENCH_FIB_SOCKET_SYSCALLS }

/-- `${value:-default}`. -/
def orDefault (value default : Str) : Str := if value = [] then default else value

/-- `IFS=',' read -a`, of the first line; a comma at its end starts no other part. -/
def readParts (text : Str) : List Str :=
  let parts := (text.takeWhile (· ≠ '\n')).splitOn ','
  if parts.getLast? = some [] then parts.dropLast else parts

def allFrameworks : List Str := ["fib".toList, "gin".toList, "quicgo".toList, "quiche".toList]

/-- Whether `script/config.sh` is content; `client` is whether the directory of the client is there. -/
def configAccepts (env : DockerEnv) (socketSyscalls : Str) (client : Bool) : Bool :=
  ["both".toList, "server".toList, "client".toList].contains (orDefault env.BENCH_ROLE "both".toList) &&
  client &&
  ["result".toList, "framework".toList].contains (orDefault env.BENCH_REPORT_SORT "result".toList) &&
  ["true".toList, "false".toList].contains (orDefault socketSyscalls "true".toList) &&
  (env.BENCH_FRAMEWORKS.isEmpty ||
    (!(readParts env.BENCH_FRAMEWORKS).isEmpty &&
      (readParts env.BENCH_FRAMEWORKS).all allFrameworks.contains))

/-! ### The list of the daemon -/

/-- `^[0-9]+$`. -/
def isNumber (s : Str) : Bool := !s.isEmpty && s.all Char.isDigit

/-- The ids in a part. The kernel writes no leading zeros, which would make a number octal. -/
def expandPart (part : Str) : Option (List Str) :=
  match part.splitOn '-' with
  | [first, last] =>
    if isNumber first && isNumber last then
      some ((List.range' (number first) (number last + 1 - number first)).map (Nat.toDigits 10))
    else none
  | [id] => if isNumber id then some [id] else none
  | _ => none

def expandedCpus (spec : Str) : Option (List Str) :=
  ((readParts spec).mapM expandPart).map List.flatten

/-! ### The allocation -/

/-- Arithmetic of the shell, on 64 bits. -/
def wrap (x : ℤ) : ℤ := Int.bmod x 18446744073709551616

/-- What the script stops with. -/
inductive Refusal
  | count
  | help
  | config
  | role
  | noDocker
  | noDaemon
  | hardware (cpus memory : Str)
  | image
  | probe
  | memory (bytes : ℕ)
  | results
  | cpuList (spec : Str)
  | tooFew
  | exposed (requested : ℤ) (available : ℕ)
  | cannotPin (server client allocated : ℤ)
  deriving DecidableEq

/-- The CPUs of the container when `-cput` is given, when both others are, and by default. -/
def allocatedCpus (c : CpuCounts) (available : ℕ) : ℤ :=
  if c.total ≠ [] then number c.total
  else if c.server ≠ [] ∧ c.client ≠ [] then wrap (number c.server + number c.client)
  else
    let allocated := available * 3 / 4
    let allocated := if allocated < 2 then 2 else allocated
    if available > 2 ∧ allocated ≥ available then (available : ℤ) - 1 else allocated

/-- The number of CPUs of the servers and of the client. -/
def pinnedCpus (c : CpuCounts) (allocated : ℤ) : ℤ × ℤ :=
  if c.server ≠ [] ∧ c.client ≠ [] then (number c.server, number c.client)
  else if c.server ≠ [] then (number c.server, wrap (allocated - number c.server))
  else if c.client ≠ [] then (wrap (allocated - number c.client), number c.client)
  else (allocated / 2, allocated - allocated / 2)

def joinCpus (cpus : List Str) : Str := cpus.foldl join []

/-- What the container is given of CPUs: `--cpus`, `--cpuset-cpus`, and the two lists for
`script/env.sh`. -/
structure Container where
  cpus : ℤ
  cpuset : Str
  serverList : Str
  clientList : Str
  deriving DecidableEq

/-- The allocation, with the number of CPUs and the list of them that the daemon answers with. -/
def dockerCpus (c : CpuCounts) (daemon : ℕ) (spec : Str) : Except Refusal Container :=
  match expandedCpus spec with
  | none => .error (.cpuList spec)
  | some expanded =>
    let available := min expanded.length daemon
    let allocated := allocatedCpus c available
    let (server, client) := pinnedCpus c allocated
    let selected := expanded.take allocated.toNat
    if available < 2 then .error .tooFew
    else if allocated < 2 ∨ allocated > available then .error (.exposed allocated available)
    else if server < 1 ∨ client < 1 ∨ wrap (server + client) > allocated then
      .error (.cannotPin server client allocated)
    else .ok {
      cpus := allocated
      cpuset := joinCpus selected
      serverList := joinCpus (selected.take server.toNat)
      clientList := joinCpus ((selected.drop server.toNat).take client.toNat) }

/-- What the machine answers: whether the client's directory and a `docker` are there, `docker info`'s
number of CPUs and memory, which has no leading zeros either, whether the image could be built or is
there, what the container that is run for the list of CPUs has printed, and whether the results have a place
with the description of the host in it. -/
structure Host where
  client : Bool
  docker : Bool
  info : Option (Str × Str)
  image : Bool
  probe : Option Str
  results : Bool

/-- `$((daemon_memory_bytes * 80 / 100))`. -/
def memoryLimit (bytes : ℕ) : ℤ := (wrap (bytes * 80)).tdiv 100

/-- The script, up to the container it runs the benchmark in. -/
def dockerBenchmark (env : DockerEnv) (args : List Str) (h : Host) : Except Refusal Container :=
  let a := dockerArgs env args
  if !a.counts.valid then .error .count
  else if asksHelp a.others then .error .help
  else if !configAccepts env a.socketSyscalls h.client then .error .config
  else if orDefault env.BENCH_ROLE "both".toList ≠ "both".toList then .error .role
  else if !h.docker then .error .noDocker
  else match h.info with
    | none => .error .noDaemon
    | some (cpus, memory) =>
      if !(isNumber cpus && isNumber memory) then .error (.hardware cpus memory)
      else if !h.image then .error .image
      else match h.probe with
        | none => .error .probe
        | some spec => match dockerCpus a.counts (number cpus) spec with
          | .error e => .error e
          | .ok container =>
            if env.DOCKER_BENCH_MEMORY = [] ∧ memoryLimit (number memory) < 805306368 then
              .error (.memory (number memory))
            else if !h.results then .error .results
            else .ok container

/-- The lists `script/env.sh` pins by: those it is given if both are, else those from `lscpu`, else the
halves of the CPUs there are. -/
def cpuLists (server client : Str) (online : ℕ) (topology : Option (List Cpu)) : Str × Str :=
  if server ≠ [] ∧ client ≠ [] then (server, client)
  else (topology.bind topologyLists).getD
    ("0-".toList ++ (toString ((online : ℤ) / 2 - 1)).toList,
      (toString ((online : ℤ) / 2)).toList ++ '-' :: (toString ((online : ℤ) - 1)).toList)

/-! ### Texts -/

/-- The CPUs of an element of the kernel's list. -/
def Element.ids (e : Element) : List ℕ := List.range' e.first (e.last + 1 - e.first)

theorem isNumber_toDigits (n : ℕ) : isNumber (Nat.toDigits 10 n) = true := by
  have hdigits : (Nat.toDigits 10 n).all Char.isDigit = true :=
    List.all_eq_true.mpr (fun c hc => Nat.isDigit_of_mem_toDigits (by decide) (by decide) hc)
  rw [isNumber, hdigits, List.isEmpty_eq_false_iff.mpr Nat.toDigits_ne_nil]
  rfl

theorem expandPart_render (e : Element) : expandPart e.render = some (e.ids.map (Nat.toDigits 10)) := by
  cases e with
  | port p =>
    rw [expandPart, Element.render, List.splitOn_eq_singleton (not_mem_toDigits (by decide) p)]
    dsimp only
    rw [if_pos (isNumber_toDigits p)]
    simp [Element.ids, Element.first, Element.last]
  | range first last le =>
    rw [expandPart, Element.render, List.splitOn_append_cons_self,
      List.splitOn_eq_singleton (not_mem_toDigits (by decide) first),
      List.splitOn_eq_singleton (not_mem_toDigits (by decide) last)]
    dsimp only [List.cons_append, List.nil_append]
    rw [if_pos (by rw [isNumber_toDigits, isNumber_toDigits]; rfl), number_toDigits, number_toDigits]
    rfl

theorem Element.render_ne_nil (e : Element) : e.render ≠ [] := by
  cases e with
  | port p => exact Nat.toDigits_ne_nil
  | range first last le => simp [Element.render]

theorem not_mem_renderList {c : Char} (hdigit : c.isDigit = false) (hminus : c ≠ '-') (hcomma : c ≠ ',')
    (list : List Element) : c ∉ renderList list := by
  unfold renderList
  induction list with
  | nil => simp
  | cons e list ih =>
    cases list with
    | nil => simpa using e.not_mem_render hdigit hminus
    | cons e' list =>
      rw [List.map_cons, List.map_cons, List.intercalate_cons_cons, List.mem_append, List.mem_append,
        List.mem_singleton]
      rintro ((hmem | heq) | hmem)
      · exact e.not_mem_render hdigit hminus hmem
      · exact hcomma heq
      · exact ih hmem

theorem readParts_renderList (list : List Element) (hne : list ≠ []) :
    readParts (renderList list) = list.map Element.render := by
  have hline : (renderList list).takeWhile (· ≠ '\n') = renderList list := by
    rw [List.takeWhile_eq_self_iff]
    intro c hc
    refine decide_eq_true (fun heq => ?_)
    exact not_mem_renderList (by decide) (by decide) (by decide) list (heq ▸ hc)
  have hsplit : (renderList list).splitOn ',' = list.map Element.render := by
    refine List.splitOn_intercalate ',' ?_ (by simpa using hne)
    intro text htext
    obtain ⟨e, -, rfl⟩ := List.mem_map.mp htext
    exact e.not_mem_render (by decide) (by decide)
  have hlast : (list.map Element.render).getLast? ≠ some [] := by
    intro h
    obtain ⟨e, -, he⟩ := List.mem_map.mp (List.mem_of_getLast? h)
    exact e.render_ne_nil he
  rw [readParts, hline, hsplit]
  exact if_neg hlast

/-- The script reads the kernel's list. -/
theorem expandedCpus_renderList (list : List Element) (hne : list ≠ []) :
    expandedCpus (renderList list) = some ((list.flatMap Element.ids).map (Nat.toDigits 10)) := by
  have hparts : ∀ list : List Element, (list.map Element.render).mapM expandPart =
      some (list.map (fun e => e.ids.map (Nat.toDigits 10))) := by
    intro list
    induction list with
    | nil => rfl
    | cons e list ih =>
      rw [List.map_cons, List.mapM_cons, expandPart_render, ih]
      rfl
  rw [expandedCpus, readParts_renderList list hne, hparts, Option.map_some, List.flatMap_def,
    List.map_flatten, List.map_map]
  rfl

theorem foldl_join (cpus : List ℕ) (text : Str) (htext : text ≠ []) :
    (cpus.map (Nat.toDigits 10)).foldl join text =
      text ++ cpus.flatMap (fun cpu => ',' :: Nat.toDigits 10 cpu) := by
  induction cpus generalizing text with
  | nil => simp
  | cons cpu cpus ih =>
    rw [List.map_cons, List.foldl_cons, ih _ (by simp [join, Nat.toDigits_ne_nil]), join, if_neg htext]
    simp

/-- `join_cpus` writes what `paste` does. -/
theorem joinCpus_toDigits (cpus : List ℕ) : joinCpus (cpus.map (Nat.toDigits 10)) = paste cpus := by
  have hpaste : ∀ (cpu : ℕ) (rest : List ℕ), paste (cpu :: rest) =
      Nat.toDigits 10 cpu ++ rest.flatMap (fun cpu => ',' :: Nat.toDigits 10 cpu) := by
    intro cpu rest
    induction rest generalizing cpu with
    | nil => simp [paste]
    | cons next rest ih =>
      rw [paste_cons_cons, ih, List.flatMap_cons, List.cons_append]
  cases cpus with
  | nil => rfl
  | cons cpu rest =>
    have hfirst : join [] (Nat.toDigits 10 cpu) = Nat.toDigits 10 cpu := by simp [join]
    rw [joinCpus, List.map_cons, List.foldl_cons, hfirst, foldl_join _ _ Nat.toDigits_ne_nil, hpaste]

/-! ### What the counts allow -/

theorem wrap_eq {x : ℤ} (hlow : -9223372036854775808 ≤ x) (hhigh : x < 9223372036854775808) :
    wrap x = x :=
  Int.bmod_eq_of_le (by omega) (by omega)

/-- No sum of two counts leaves 64 bits. -/
structure CpuCounts.Small (c : CpuCounts) : Prop where
  total : number c.total < 4611686018427387904
  server : number c.server < 4611686018427387904
  client : number c.client < 4611686018427387904

/-- Of `n` CPUs the counts give `t` to the container, and of these `s` to the servers and `k` to the
client. -/
structure CpuCounts.Fits (c : CpuCounts) (n t s k : ℕ) : Prop where
  two : 2 ≤ t
  le : t ≤ n
  server_pos : 1 ≤ s
  client_pos : 1 ≤ k
  within : s + k ≤ t
  total : t = if c.total ≠ [] then number c.total
    else if c.server ≠ [] ∧ c.client ≠ [] then s + k else max 2 (n * 3 / 4)
  server : c.server ≠ [] → s = number c.server
  client : c.client ≠ [] → k = number c.client
  whole : c.server = [] ∨ c.client = [] → s + k = t
  half : c.server = [] → c.client = [] → s = t / 2

/-- What `allocatedCpus` is without its last branch, which is never taken. -/
def CpuCounts.allocated (c : CpuCounts) (n : ℕ) : ℕ :=
  if c.total ≠ [] then number c.total
  else if c.server ≠ [] ∧ c.client ≠ [] then number c.server + number c.client else max 2 (n * 3 / 4)

theorem allocatedCpus_eq {c : CpuCounts} (hsmall : c.Small) (n : ℕ) :
    allocatedCpus c n = c.allocated n := by
  obtain ⟨htotal, hserver, hclient⟩ := hsmall
  unfold allocatedCpus CpuCounts.allocated
  by_cases ht : c.total ≠ []
  · rw [if_pos ht, if_pos ht]
  · rw [if_neg ht, if_neg ht]
    by_cases hboth : c.server ≠ [] ∧ c.client ≠ []
    · rw [if_pos hboth, if_pos hboth, wrap_eq (by omega) (by omega), Nat.cast_add]
    · rw [if_neg hboth, if_neg hboth]
      dsimp only
      split_ifs <;> omega

/-- The numbers of CPUs that are asked for, and the container's. -/
def CpuCounts.pinned (c : CpuCounts) (t : ℤ) : ℤ × ℤ :=
  if c.server ≠ [] ∧ c.client ≠ [] then (number c.server, number c.client)
  else if c.server ≠ [] then (number c.server, t - number c.server)
  else if c.client ≠ [] then (t - number c.client, number c.client)
  else (t / 2, t - t / 2)

theorem pinnedCpus_eq {c : CpuCounts} (hsmall : c.Small) {t : ℕ} (ht : t < 9223372036854775808) :
    pinnedCpus c t = c.pinned t := by
  obtain ⟨htotal, hserver, hclient⟩ := hsmall
  unfold pinnedCpus CpuCounts.pinned
  rw [wrap_eq (by omega) (by omega), wrap_eq (by omega) (by omega)]

theorem allocated_lt {c : CpuCounts} (hsmall : c.Small) {n : ℕ} (hn : n < 9223372036854775808) :
    c.allocated n < 9223372036854775808 := by
  obtain ⟨htotal, hserver, hclient⟩ := hsmall
  unfold CpuCounts.allocated
  split_ifs <;> omega

/-- What passes the checks of the script. -/
def CpuCounts.Passes (c : CpuCounts) (n : ℕ) (t s k : ℤ) : Prop :=
  t = c.allocated n ∧ (s, k) = c.pinned t ∧ ¬(t < 2 ∨ t > n) ∧ ¬(s < 1 ∨ k < 1 ∨ wrap (s + k) > t)

theorem passes_iff {c : CpuCounts} (hsmall : c.Small) {n : ℕ} (hn : n < 9223372036854775808) {t s k : ℤ} :
    c.Passes n t s k ↔ ∃ t' s' k' : ℕ, c.Fits n t' s' k' ∧ t = t' ∧ s = s' ∧ k = k' := by
  obtain ⟨htotal, hserver, hclient⟩ := hsmall
  constructor
  · rintro ⟨rfl, hpinned, hexposed, hpin⟩
    have hle : 2 ≤ c.allocated n ∧ c.allocated n ≤ n := by omega
    have htotal' : ∀ {s k : ℕ},
        (c.server ≠ [] ∧ c.client ≠ [] → s = number c.server ∧ k = number c.client) → c.allocated n =
          if c.total ≠ [] then number c.total
          else if c.server ≠ [] ∧ c.client ≠ [] then s + k else max 2 (n * 3 / 4) := by
      intro s k hgiven
      rw [CpuCounts.allocated]
      by_cases hboth : c.server ≠ [] ∧ c.client ≠ []
      · rw [(hgiven hboth).1, (hgiven hboth).2]
      · rw [if_neg hboth, if_neg hboth]
    rw [CpuCounts.pinned] at hpinned
    split_ifs at hpinned with hboth hserver' hclient'
    all_goals
      obtain ⟨rfl, rfl⟩ := Prod.mk.inj hpinned
      rw [wrap_eq (by omega) (by omega)] at hpin
    · refine ⟨_, number c.server, number c.client, ⟨hle.1, hle.2, by omega, by omega, by omega,
        htotal' (fun _ => ⟨rfl, rfl⟩), fun _ => rfl, fun _ => rfl, ?_, fun h => absurd h hboth.1⟩,
        rfl, rfl, rfl⟩
      rintro (h | h)
      · exact absurd h hboth.1
      · exact absurd h hboth.2
    · refine ⟨_, number c.server, c.allocated n - number c.server, ⟨hle.1, hle.2, by omega, by omega,
        by omega, htotal' (fun h => absurd h hboth), fun _ => rfl,
        fun h => absurd ⟨hserver', h⟩ hboth, fun _ => by omega, fun h => absurd h hserver'⟩,
        rfl, rfl, by omega⟩
    · refine ⟨_, c.allocated n - number c.client, number c.client, ⟨hle.1, hle.2, by omega, by omega,
        by omega, htotal' (fun h => absurd h hboth), fun h => absurd h hserver', fun _ => rfl,
        fun _ => by omega, fun _ h => absurd h hclient'⟩, rfl, by omega, rfl⟩
    · refine ⟨_, c.allocated n / 2, c.allocated n - c.allocated n / 2, ⟨hle.1, hle.2, by omega, by omega,
        by omega, htotal' (fun h => absurd h hboth), fun h => absurd h hserver', fun h => absurd h hclient',
        fun _ => by omega, fun _ _ => rfl⟩, rfl, by omega, by omega⟩
  · rintro ⟨t, s, k, hfits, rfl, rfl, rfl⟩
    obtain ⟨htwo, hle, hs, hk, hwithin, ht, hS, hK, hwhole, hhalf⟩ := hfits
    refine ⟨?_, ?_, by omega, by rw [wrap_eq (by omega) (by omega)]; omega⟩
    · rw [ht, CpuCounts.allocated]
      by_cases hboth : c.server ≠ [] ∧ c.client ≠ []
      · rw [hS hboth.1, hK hboth.2]
      · rw [if_neg hboth, if_neg hboth]
    · rw [CpuCounts.pinned]
      split_ifs with hboth hserver' hclient'
      · rw [hS hboth.1, hK hboth.2]
      · have hsum := hwhole (.inr (not_not.mp (fun h => hboth ⟨hserver', h⟩)))
        rw [← hS hserver', Prod.mk.injEq]
        omega
      · have hsum := hwhole (.inl (not_not.mp hserver'))
        rw [← hK hclient', Prod.mk.injEq]
        omega
      · have hsum := hwhole (.inl (not_not.mp hserver'))
        have hhalf := hhalf (not_not.mp hserver') (not_not.mp hclient')
        rw [Prod.mk.injEq]
        omega

variable {c : CpuCounts} {daemon : ℕ} {ids : List ℕ} {spec : Str}

/-- The container of the first `t` CPUs. -/
def containerOf (ids : List ℕ) (t s k : ℕ) : Container where
  cpus := t
  cpuset := paste (ids.take t)
  serverList := paste ((ids.take t).take s)
  clientList := paste (((ids.take t).drop s).take k)

theorem dockerCpus_eq_ok_iff (hsmall : c.Small) (hdaemon : daemon < 9223372036854775808)
    (hspec : expandedCpus spec = some (ids.map (Nat.toDigits 10))) {a : Container} :
    dockerCpus c daemon spec = .ok a ↔ 2 ≤ min ids.length daemon ∧
      ∃ t s k : ℕ, c.Fits (min ids.length daemon) t s k ∧ a = containerOf ids t s k := by
  have hrun : dockerCpus c daemon spec = .ok a ↔ 2 ≤ min ids.length daemon ∧
      ∃ t s k : ℤ, c.Passes (min ids.length daemon) t s k ∧
        a = containerOf ids t.toNat s.toNat k.toNat := by
    have hcontainer : ∀ t s k : ℤ, 0 ≤ t → (⟨t, joinCpus ((ids.map (Nat.toDigits 10)).take t.toNat),
        joinCpus (((ids.map (Nat.toDigits 10)).take t.toNat).take s.toNat),
        joinCpus ((((ids.map (Nat.toDigits 10)).take t.toNat).drop s.toNat).take k.toNat)⟩ : Container) =
          containerOf ids t.toNat s.toNat k.toNat := by
      intro t s k ht
      simp only [← List.map_take, ← List.map_drop, joinCpus_toDigits, containerOf, Int.toNat_of_nonneg ht]
    rw [dockerCpus, hspec]
    dsimp only
    rw [List.length_map, allocatedCpus_eq hsmall, pinnedCpus_eq hsmall (allocated_lt hsmall (by omega))]
    constructor
    · intro h
      split_ifs at h with htwo hexposed hpin
      refine ⟨by omega, _, _, _, ⟨rfl, rfl, hexposed, hpin⟩, ?_⟩
      rw [← hcontainer _ _ _ (by omega)]
      exact (Except.ok.inj h).symm
    · rintro ⟨htwo, t, s, k, ⟨rfl, hpinned, hexposed, hpin⟩, rfl⟩
      rw [← hpinned, if_neg (by omega), if_neg hexposed, if_neg hpin, hcontainer _ _ _ (by omega)]
  rw [hrun]
  refine and_congr_right (fun _ => ?_)
  constructor
  · rintro ⟨t, s, k, hpasses, rfl⟩
    obtain ⟨t, s, k, hfits, rfl, rfl, rfl⟩ := (passes_iff hsmall (by omega)).mp hpasses
    exact ⟨t, s, k, hfits, rfl⟩
  · rintro ⟨t, s, k, hfits, rfl⟩
    exact ⟨t, s, k, (passes_iff hsmall (by omega)).mpr ⟨t, s, k, hfits, rfl, rfl, rfl⟩, rfl⟩

theorem pairwise_ids {list : List Element} (horder : list.Pairwise (fun e e' => e.last < e'.first)) :
    (list.flatMap Element.ids).Pairwise (· < ·) := by
  rw [List.flatMap_def, List.pairwise_flatten]
  constructor
  · intro ids hids
    obtain ⟨e, -, rfl⟩ := List.mem_map.mp hids
    exact List.pairwise_lt_range'
  · rw [List.pairwise_map]
    refine horder.imp (fun hlt p hp q hq => ?_)
    rw [Element.ids, List.mem_range'_1] at hp hq
    omega

/-- What else the script asks for. -/
structure Ready (env : DockerEnv) (a : DockerArgs) (h : Host) (cpus memory : ℕ) (list : List Element) :
    Prop where
  help : asksHelp a.others = false
  config : configAccepts env a.socketSyscalls h.client = true
  role : orDefault env.BENCH_ROLE "both".toList = "both".toList
  docker : h.docker = true
  info : h.info = some (Nat.toDigits 10 cpus, Nat.toDigits 10 memory)
  image : h.image = true
  probe : h.probe = some (renderList list)
  memory : env.DOCKER_BENCH_MEMORY = [] → 805306368 ≤ memory * 80 / 100
  results : h.results = true

variable {env : DockerEnv} {args : List Str} {h : Host} {cpus memory : ℕ} {list : List Element}

theorem memoryLimit_eq (hmemory : memory < 72057594037927936) :
    memoryLimit memory = ((memory * 80 / 100 : ℕ) : ℤ) := by
  rw [memoryLimit, wrap_eq (by omega) (by omega), Int.tdiv_eq_ediv_of_nonneg (by omega)]
  omega

/-- The script stops before its allocation, with the allocation's refusal, or after it. -/
theorem dockerBenchmark_eq_ok_iff (hmemory : memory < 72057594037927936)
    (hinfo : ∀ c m, h.info = some (c, m) → isNumber c → isNumber m →
      c = Nat.toDigits 10 cpus ∧ m = Nat.toDigits 10 memory)
    (hprobe : ∀ spec, h.probe = some spec → spec = renderList list) {k : Container} :
    dockerBenchmark env args h = .ok k ↔ (dockerArgs env args).counts.valid ∧
      Ready env (dockerArgs env args) h cpus memory list ∧
      dockerCpus (dockerArgs env args).counts cpus (renderList list) = .ok k := by
  have hlimit := memoryLimit_eq hmemory
  constructor
  · intro hrun
    unfold dockerBenchmark at hrun
    rcases hanswer : h.info with _ | ⟨c, m⟩
    · simp only [hanswer] at hrun
      split_ifs at hrun
    rcases hprinted : h.probe with _ | spec
    · simp only [hanswer, hprinted] at hrun
      split_ifs at hrun
    rcases hcpus : dockerCpus (dockerArgs env args).counts (number c) spec with e | container
    · simp only [hanswer, hprinted, hcpus] at hrun
      split_ifs at hrun
    simp only [hanswer, hprinted, hcpus] at hrun
    split_ifs at hrun with hvalid hhelp hconfig hrole hdocker hnumbers himage hlow hresults
    have hdigits : isNumber c = true ∧ isNumber m = true := by simpa using hnumbers
    obtain ⟨rfl, rfl⟩ := hinfo c m hanswer hdigits.1 hdigits.2
    obtain rfl := hprobe spec hprinted
    rw [number_toDigits] at hcpus hlow
    refine ⟨by simpa using hvalid, ⟨by simpa using hhelp, by simpa using hconfig, not_not.mp hrole,
      by simpa using hdocker, hanswer, by simpa using himage, hprinted, fun hgiven => ?_,
      by simpa using hresults⟩, hcpus.trans hrun⟩
    have hle := not_lt.mp (fun hlt => hlow ⟨hgiven, hlt⟩)
    omega
  · rintro ⟨hvalid, hready, hcpus⟩
    have hlow : ¬(env.DOCKER_BENCH_MEMORY = [] ∧ memoryLimit memory < 805306368) := by
      rintro ⟨hgiven, hlt⟩
      have := hready.memory hgiven
      omega
    simp only [dockerBenchmark, hvalid, hready.help, hready.config, hready.role, hready.docker,
      hready.info, hready.image, hready.probe, hready.results, isNumber_toDigits, number_toDigits, hcpus,
      hlow]
    rfl

/-- The script gets to the container of the benchmark exactly where it has what it asks for and the
counts can be met. Then the CPUs that the servers and the client are pinned to are different ones, in
the numbers that were asked for, and the container's; and these are the first of the daemon's. -/
theorem docker_cpus (list : List Element) (hne : list ≠ [])
    (horder : list.Pairwise (fun e e' => e.last < e'.first)) (env : DockerEnv) (args : List Str)
    (hsmall : (dockerArgs env args).counts.Small) (h : Host) (cpus memory : ℕ)
    (hcpus : cpus < 9223372036854775808) (hmemory : memory < 72057594037927936)
    (hinfo : ∀ c m, h.info = some (c, m) → isNumber c → isNumber m →
      c = Nat.toDigits 10 cpus ∧ m = Nat.toDigits 10 memory)
    (hprobe : ∀ spec, h.probe = some spec → spec = renderList list) :
    let c := (dockerArgs env args).counts
    let ids := list.flatMap Element.ids
    let n := min ids.length cpus
    ((∃ a, dockerBenchmark env args h = .ok a) ↔
      c.valid ∧ Ready env (dockerArgs env args) h cpus memory list ∧ 2 ≤ n ∧
        ∃ t s k : ℕ, c.Fits n t s k) ∧
    ∀ a, dockerBenchmark env args h = .ok a →
      ∃ selected servers clients : List ℕ, c.Fits n selected.length servers.length clients.length ∧
        a.cpus = selected.length ∧ a.cpuset = paste selected ∧
        (∀ online topology, cpuLists a.serverList a.clientList online topology =
          (paste servers, paste clients)) ∧
        selected <+: ids ∧ servers ++ clients <+: selected ∧ (servers ++ clients).Nodup := by
  intro c ids n
  have hok : ∀ a, dockerBenchmark env args h = .ok a ↔ c.valid ∧
      Ready env (dockerArgs env args) h cpus memory list ∧ 2 ≤ n ∧
        ∃ t s k : ℕ, c.Fits n t s k ∧ a = containerOf ids t s k := by
    intro a
    rw [dockerBenchmark_eq_ok_iff hmemory hinfo hprobe,
      dockerCpus_eq_ok_iff hsmall hcpus (expandedCpus_renderList list hne)]
  constructor
  · constructor
    · rintro ⟨a, ha⟩
      obtain ⟨hvalid, hready, htwo, t, s, k, hfits, -⟩ := (hok a).mp ha
      exact ⟨hvalid, hready, htwo, t, s, k, hfits⟩
    · rintro ⟨hvalid, hready, htwo, t, s, k, hfits⟩
      exact ⟨_, (hok _).mpr ⟨hvalid, hready, htwo, t, s, k, hfits, rfl⟩⟩
  · intro a ha
    obtain ⟨-, -, -, t, s, k, hfits, rfl⟩ := (hok a).mp ha
    have hle : t ≤ ids.length := hfits.le.trans (min_le_left _ _)
    have hwithin := hfits.within
    have hselected : (ids.take t).length = t := List.length_take_of_le hle
    have hservers : ((ids.take t).take s).length = s := List.length_take_of_le (by omega)
    have hclients : (((ids.take t).drop s).take k).length = k :=
      List.length_take_of_le (by rw [List.length_drop]; omega)
    have hpinned : (ids.take t).take s ++ ((ids.take t).drop s).take k <+: ids.take t := by
      rw [← List.take_add]
      exact List.take_prefix _ _
    refine ⟨ids.take t, (ids.take t).take s, ((ids.take t).drop s).take k, ?_, ?_, rfl, ?_,
      List.take_prefix _ _, hpinned, ?_⟩
    · rw [hselected, hservers, hclients]
      exact hfits
    · rw [hselected]
      rfl
    · intro online topology
      have hserver := hfits.server_pos
      have hclient := hfits.client_pos
      refine if_pos ⟨fun hnil => ?_, fun hnil => ?_⟩
      · rw [containerOf, paste_eq_nil] at hnil
        rw [hnil, List.length_nil] at hservers
        omega
      · rw [containerOf, paste_eq_nil] at hnil
        rw [hnil, List.length_nil] at hclients
        omega
    · have hnodup : ids.Nodup := (pairwise_ids horder).imp Nat.ne_of_lt
      exact hnodup.sublist (hpinned.sublist.trans (List.take_sublist _ _))

/-- Five of eight CPUs can be had; the servers' count is in the environment, the container's a flag. -/
theorem docker_cpus_four : ∃ a, dockerBenchmark { counts := ⟨"2".toList, "1".toList, []⟩ }
      ["--rebuild".toList, "-cput=4".toList, "-socketsyscalls=false".toList, "-en=5000".toList]
      ⟨true, true, some ("8".toList, "2147483648".toList), true, some "0-3,6".toList, true⟩ = .ok a ∧
    a.cpus = 4 ∧ ∃ servers clients : List ℕ, servers.length = 1 ∧ clients.length = 3 ∧
      cpuLists a.serverList a.clientList 5 none = (paste servers, paste clients) ∧
      (servers ++ clients).Nodup := by
  obtain ⟨hstarts, hpinned⟩ := docker_cpus [.range 0 3 (by decide), .port 6] (by simp)
    (by simp [Element.first, Element.last]) { counts := ⟨"2".toList, "1".toList, []⟩ }
    ["--rebuild".toList, "-cput=4".toList, "-socketsyscalls=false".toList, "-en=5000".toList]
    ⟨by decide, by decide, by decide⟩
    ⟨true, true, some ("8".toList, "2147483648".toList), true, some "0-3,6".toList, true⟩
    8 2147483648 (by decide) (by decide)
    (fun c m hanswer _ _ => by cases hanswer; exact ⟨by decide, by decide⟩)
    (fun spec hprinted => by cases hprinted; decide)
  obtain ⟨a, ha⟩ := hstarts.mpr ⟨by decide, ⟨by decide, by decide, by decide, by decide, by decide, by decide,
    by decide, by decide, by decide⟩, by decide, 4, 1, 3, by decide, by decide, by decide,
    by decide, by decide, by decide, fun _ => by decide, fun h => absurd rfl h, fun _ => rfl,
    fun h => absurd h (by decide)⟩
  obtain ⟨selected, servers, clients, hfits, hcpus, -, hlists, -, -, hnodup⟩ := hpinned a ha
  have htotal := hfits.total
  have hserver := hfits.server (by decide)
  have hwhole := hfits.whole (.inr rfl)
  rw [if_pos (by decide)] at htotal
  have hfour : selected.length = 4 := htotal.trans (by decide)
  have hone : servers.length = 1 := hserver.trans (by decide)
  refine ⟨a, ha, by rw [hcpus, hfour]; rfl, servers, clients, hone, by omega, hlists 5 none, hnodup⟩

/-- Two counts whose sum is not a number of the shell's leave the client no CPU. -/
example : dockerCpus ⟨"4".toList, "4611686018427387904".toList, "4611686018427387904".toList⟩ 4
    "0-3".toList = .ok ⟨4, "0,1,2,3".toList, "0,1,2,3".toList, []⟩ := by
  decide

end Http3Bench.Script
