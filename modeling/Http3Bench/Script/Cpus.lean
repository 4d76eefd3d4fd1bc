import Http3Bench.Lib.Dealing
import Http3Bench.Script.Ports
import Mathlib.Data.List.Dedup

/-!
# The CPUs of the servers and of the client

The lists `script/env.sh` takes from `lscpu`: the CPUs are grouped by socket, by NUMA node or by physical
core, and each group is appended to the list that has fewer CPUs. The lists are texts; what is in them
is what the groups dealt to two hands are (`Dealt.Holds`).
-/

namespace Http3Bench.Script

/-! ### The program -/

/-- A row of `lscpu -p=CPU,CORE,SOCKET,NODE`. -/
structure Cpu where
  cpu : ℕ
  core : ℤ
  socket : ℤ
  node : ℤ

/-- `$column >= 0 {seen[$column] = 1} END {print length(seen)}`. -/
def countSeen (column : List ℤ) : ℕ := (column.filter (0 ≤ ·)).dedup.length

/-- `sort -n -u`. -/
def sortNU (column : List ℤ) : List ℤ := column.dedup.insertionSort (· ≤ ·)

/-- `sort -t: -k1,1n -k2,2n -u`. -/
def sortPairs (column : List (ℤ × ℤ)) : List (ℤ × ℤ) :=
  column.dedup.insertionSort (fun a b => toLex a ≤ toLex b)

inductive GroupColumn
  | socket
  | node
  | core

inductive Group
  | socket (id : ℤ)
  | node (id : ℤ)
  | core (socket core : ℤ)
  deriving DecidableEq

def groupColumn (topology : List Cpu) : GroupColumn :=
  if countSeen (topology.map (·.socket)) ≥ 2 then .socket
  else if countSeen (topology.map (·.node)) ≥ 2 then .node
  else .core

def groups (topology : List Cpu) : List Group :=
  match groupColumn topology with
  | .socket => (sortNU ((topology.map (·.socket)).filter (0 ≤ ·))).map .socket
  | .node => (sortNU ((topology.map (·.node)).filter (0 ≤ ·))).map .node
  | .core => (sortPairs (topology.map (fun c => (c.socket, c.core)))).map (fun p => .core p.1 p.2)

def Group.has : Group → Cpu → Bool
  | .socket id, c => c.socket = id
  | .node id, c => c.node = id
  | .core s k, c => c.socket = s ∧ c.core = k

/-- `paste -sd, -`. -/
def paste (cpus : List ℕ) : Str := [','].intercalate (cpus.map (Nat.toDigits 10))

def groupCpus (topology : List Cpu) (group : Group) : Str :=
  paste ((topology.filter group.has).map (·.cpu))

/-- `awk -F, '{print NF}'`. -/
def countFields (cpus : Str) : ℕ := if cpus = [] then 0 else (cpus.splitOn ',').length

inductive Target
  | server
  | client

structure Dealt where
  serverCpus : Str := []
  clientCpus : Str := []
  serverCount : ℕ := 0
  clientCount : ℕ := 0

/-- `${list}${list:+,}${cpus}`. -/
def join (list cpus : Str) : Str := list ++ (if list = [] then [] else [',']) ++ cpus

def appendCpuGroup (s : Dealt) (target : Target) (cpus : Str) : Dealt :=
  match target with
  | .server => { s with
      serverCpus := join s.serverCpus cpus
      serverCount := s.serverCount + countFields cpus }
  | .client => { s with
      clientCpus := join s.clientCpus cpus
      clientCount := s.clientCount + countFields cpus }

/-- One turn of the loop over the groups. -/
def dealGroup (topology : List Cpu) (s : Dealt) (group : Group) : Dealt :=
  appendCpuGroup s (if s.serverCount ≤ s.clientCount then .server else .client)
    (groupCpus topology group)

/-- The lists of the servers and of the client, where both have a CPU. -/
def topologyLists (topology : List Cpu) : Option (Str × Str) :=
  let s := (groups topology).foldl (dealGroup topology) {}
  if s.serverCpus ≠ [] ∧ s.clientCpus ≠ [] then some (s.serverCpus, s.clientCpus) else none

/-! ### Texts -/

theorem paste_cons_cons (a b : ℕ) (cpus : List ℕ) :
    paste (a :: b :: cpus) = Nat.toDigits 10 a ++ ',' :: paste (b :: cpus) := by
  unfold paste
  rw [List.map_cons, List.map_cons, List.intercalate_cons_cons, List.append_assoc]
  rfl

theorem paste_eq_nil {cpus : List ℕ} : paste cpus = [] ↔ cpus = [] := by
  constructor
  · intro h
    cases cpus with
    | nil => rfl
    | cons a cpus =>
      cases cpus with
      | nil => exact absurd h (by simp [paste, Nat.toDigits_ne_nil])
      | cons b cpus =>
        rw [paste_cons_cons] at h
        exact absurd h (List.append_ne_nil_of_right_ne_nil _ (List.cons_ne_nil _ _))
  · rintro rfl
    rfl

theorem join_of_ne {list : List ℕ} (hne : list ≠ []) (cpus : Str) :
    join (paste list) cpus = paste list ++ ',' :: cpus := by
  rw [join, if_neg (fun h => hne (paste_eq_nil.mp h)), List.append_assoc]
  rfl

theorem join_paste (list : List ℕ) {cpus : List ℕ} (hne : cpus ≠ []) :
    join (paste list) (paste cpus) = paste (list ++ cpus) := by
  induction list with
  | nil => rfl
  | cons a list ih =>
    rw [join_of_ne (List.cons_ne_nil a list)]
    cases list with
    | nil =>
      obtain ⟨b, cpus, rfl⟩ := List.exists_cons_of_ne_nil hne
      rw [List.singleton_append, paste_cons_cons]
      simp [paste]
    | cons b list =>
      rw [join_of_ne (List.cons_ne_nil b list)] at ih
      rw [List.cons_append, List.cons_append, paste_cons_cons, paste_cons_cons, List.append_assoc,
        List.cons_append, ih]
      rfl

theorem countFields_paste {cpus : List ℕ} (hne : cpus ≠ []) : countFields (paste cpus) = cpus.length := by
  have hclean : ∀ text ∈ cpus.map (Nat.toDigits 10), ',' ∉ text := by
    intro text htext
    obtain ⟨n, -, rfl⟩ := List.mem_map.mp htext
    exact not_mem_toDigits (by decide) n
  rw [countFields, if_neg (fun h => hne (paste_eq_nil.mp h)), paste,
    List.splitOn_intercalate ',' hclean (by simpa using hne), List.length_map]

/-! ### The loop -/

/-- The lists hold the CPUs of two hands. -/
structure Dealt.Holds (s : Dealt) (hands : List ℕ × List ℕ) : Prop where
  serverCpus_eq : s.serverCpus = paste hands.1
  clientCpus_eq : s.clientCpus = paste hands.2
  serverCount_eq : s.serverCount = hands.1.length
  clientCount_eq : s.clientCount = hands.2.length

variable {topology : List Cpu} {s : Dealt} {hands : List ℕ × List ℕ}

/-- The CPUs of a group. -/
def members (topology : List Cpu) (group : Group) : List ℕ :=
  (topology.filter group.has).map (·.cpu)

theorem Dealt.Holds.dealGroup (h : s.Holds hands) {group : Group} (hne : members topology group ≠ []) :
    (dealGroup topology s group).Holds (Dealing.deal hands (members topology group)) := by
  have hcount : countFields (groupCpus topology group) = (members topology group).length :=
    countFields_paste hne
  unfold Script.dealGroup Dealing.deal
  rw [h.serverCount_eq, h.clientCount_eq]
  split
  · refine ⟨?_, h.clientCpus_eq, ?_, h.clientCount_eq⟩
    · exact (congrArg (join · _) h.serverCpus_eq).trans (join_paste _ hne)
    · rw [List.length_append, ← hcount, ← h.serverCount_eq]
      rfl
  · refine ⟨h.serverCpus_eq, ?_, h.serverCount_eq, ?_⟩
    · exact (congrArg (join · _) h.clientCpus_eq).trans (join_paste _ hne)
    · rw [List.length_append, ← hcount, ← h.clientCount_eq]
      rfl

theorem Dealt.Holds.foldl_dealGroup {gs : List Group} (h : s.Holds hands)
    (hne : ∀ g ∈ gs, members topology g ≠ []) :
    (gs.foldl (Script.dealGroup topology) s).Holds ((gs.map (members topology)).foldl Dealing.deal hands) := by
  induction gs generalizing s hands with
  | nil => exact h
  | cons g gs ih =>
    exact ih (h.dealGroup (hne g List.mem_cons_self)) (fun g' hg' => hne g' (List.mem_cons_of_mem _ hg'))

/-! ### The groups -/

/-- The group a CPU is in. -/
def GroupColumn.groupOf : GroupColumn → Cpu → Group
  | .socket, c => .socket c.socket
  | .node, c => .node c.node
  | .core, c => .core c.socket c.core

theorem nodup_sortNU (column : List ℤ) : (sortNU column).Nodup :=
  (List.perm_insertionSort _ _).nodup_iff.mpr (List.nodup_dedup _)

theorem mem_sortNU {column : Cpu → ℤ} (hnonneg : ∀ c ∈ topology, 0 ≤ column c) {x : ℤ} :
    x ∈ sortNU ((topology.map column).filter (0 ≤ ·)) ↔ ∃ c ∈ topology, column c = x := by
  rw [sortNU, List.mem_insertionSort, List.mem_dedup, List.mem_filter, List.mem_map]
  refine and_iff_left_of_imp ?_
  rintro ⟨c, hc, rfl⟩
  exact decide_eq_true (hnonneg c hc)

theorem nodup_groups (topology : List Cpu) : (groups topology).Nodup := by
  unfold groups
  split
  · exact (nodup_sortNU _).map (fun _ _ h => Group.socket.inj h)
  · exact (nodup_sortNU _).map (fun _ _ h => Group.node.inj h)
  · refine List.Nodup.map (fun p q h => ?_)
      ((List.perm_insertionSort _ _).nodup_iff.mpr (List.nodup_dedup _))
    obtain ⟨h₁, h₂⟩ := Group.core.inj h
    exact Prod.ext h₁ h₂

theorem mem_groups (hnonneg : ∀ c ∈ topology, 0 ≤ c.socket ∧ 0 ≤ c.node) {g : Group} :
    g ∈ groups topology ↔ ∃ c ∈ topology, (groupColumn topology).groupOf c = g := by
  unfold groups
  cases groupColumn topology with
  | socket =>
    rw [List.mem_map]
    simp only [mem_sortNU (fun c hc => (hnonneg c hc).1), exists_exists_and_eq_and]
    rfl
  | node =>
    rw [List.mem_map]
    simp only [mem_sortNU (fun c hc => (hnonneg c hc).2), exists_exists_and_eq_and]
    rfl
  | core =>
    rw [List.mem_map]
    simp only [sortPairs, List.mem_insertionSort, List.mem_dedup, List.mem_map, exists_exists_and_eq_and]
    rfl

theorem has_eq {g : Group} (hg : g ∈ groups topology) (c : Cpu) :
    g.has c = decide ((groupColumn topology).groupOf c = g) := by
  unfold groups at hg
  cases hcol : groupColumn topology with
  | socket =>
    rw [hcol] at hg
    obtain ⟨id, -, rfl⟩ := List.mem_map.mp hg
    simp [Group.has, GroupColumn.groupOf]
  | node =>
    rw [hcol] at hg
    obtain ⟨id, -, rfl⟩ := List.mem_map.mp hg
    simp [Group.has, GroupColumn.groupOf]
  | core =>
    rw [hcol] at hg
    obtain ⟨p, -, rfl⟩ := List.mem_map.mp hg
    simp [Group.has, GroupColumn.groupOf]

/-- The CPUs in the group of one of them. -/
def sameGroup (topology : List Cpu) (c : Cpu) : List Cpu :=
  topology.filter (fun d => (groupColumn topology).groupOf d = (groupColumn topology).groupOf c)

theorem members_eq (hnonneg : ∀ c ∈ topology, 0 ≤ c.socket ∧ 0 ≤ c.node) {c : Cpu} (hc : c ∈ topology) :
    members topology ((groupColumn topology).groupOf c) = (sameGroup topology c).map (·.cpu) := by
  unfold members sameGroup
  rw [List.filter_congr (fun d _ => has_eq ((mem_groups hnonneg).mpr ⟨c, hc, rfl⟩) d)]

/-- The groups have every CPU once. -/
theorem flatten_members_perm (hnonneg : ∀ c ∈ topology, 0 ≤ c.socket ∧ 0 ≤ c.node) :
    ((groups topology).map (members topology)).flatten.Perm (topology.map (·.cpu)) := by
  have hgroups : ((groups topology).map (members topology)).flatten =
      ((groups topology).flatMap (fun g =>
        topology.filter (fun c => (groupColumn topology).groupOf c = g))).map (·.cpu) := by
    rw [List.map_flatMap, List.flatMap_def]
    congr 1
    apply List.map_congr_left
    intro g hg
    rw [members, List.filter_congr (fun c _ => has_eq hg c)]
  have hall : topology.filter (fun c => (groupColumn topology).groupOf c ∈ groups topology) = topology :=
    List.filter_eq_self.mpr (fun c hc => decide_eq_true ((mem_groups hnonneg).mpr ⟨c, hc, rfl⟩))
  have hperm := Dealing.flatMap_filter_perm (groupColumn topology).groupOf (nodup_groups topology) topology
  rw [hall] at hperm
  rw [hgroups]
  exact hperm.map _

/-- The CPUs of the servers and of the client: every CPU is in one of the lists and once, no group is
divided between them, and their sizes differ by no more than the largest group. -/
theorem topologyLists_split (topology : List Cpu) (hnodup : (topology.map (·.cpu)).Nodup)
    (hnonneg : ∀ c ∈ topology, 0 ≤ c.core ∧ 0 ≤ c.socket ∧ 0 ≤ c.node) (server client : Str)
    (h : topologyLists topology = some (server, client)) :
    ∃ servers clients : List ℕ, server = paste servers ∧ client = paste clients ∧
      servers ≠ [] ∧ clients ≠ [] ∧ servers.Disjoint clients ∧
      (servers ++ clients).Nodup ∧ (servers ++ clients).Perm (topology.map (·.cpu)) ∧
      (∀ a ∈ topology, ∀ b ∈ sameGroup topology a, a.cpu ∈ servers ↔ b.cpu ∈ servers) ∧
      ∀ m, (∀ c ∈ topology, (sameGroup topology c).length ≤ m) →
        servers.length ≤ clients.length + m ∧ clients.length ≤ servers.length + m := by
  have hnonneg' : ∀ c ∈ topology, 0 ≤ c.socket ∧ 0 ≤ c.node := fun c hc => (hnonneg c hc).2
  have hgroup : ∀ g ∈ groups topology, ∃ c ∈ topology, members topology g =
      (sameGroup topology c).map (·.cpu) := by
    intro g hg
    obtain ⟨c, hc, rfl⟩ := (mem_groups hnonneg').mp hg
    exact ⟨c, hc, members_eq hnonneg' hc⟩
  have hne : ∀ g ∈ groups topology, members topology g ≠ [] := by
    intro g hg
    obtain ⟨c, hc, heq⟩ := hgroup g hg
    rw [heq]
    exact List.ne_nil_of_mem (List.mem_map_of_mem (List.mem_filter.mpr ⟨hc, decide_eq_true rfl⟩))
  have hstart : Dealt.Holds {} ([], []) := ⟨rfl, rfl, rfl, rfl⟩
  have hholds := hstart.foldl_dealGroup hne
  have hperm := (Dealing.foldl_deal_perm ((groups topology).map (members topology)) ([], [])).trans
    (flatten_members_perm hnonneg')
  have hundivided := @Dealing.foldl_deal_undivided _ ((groups topology).map (members topology)) ([], [])
  have hbalanced := fun m => @Dealing.Balanced.foldl_deal _ ([], []) ((groups topology).map (members topology)) m
    ⟨Nat.zero_le _, Nat.zero_le _⟩
  generalize ((groups topology).map (members topology)).foldl Dealing.deal ([], []) = hands at *
  unfold topologyLists at h
  dsimp only at h
  split at h
  · rename_i hboth
    rw [hholds.serverCpus_eq, hholds.clientCpus_eq] at h hboth
    obtain ⟨rfl, rfl⟩ := Prod.mk.inj (Option.some.inj h)
    have hnodup' := hperm.nodup_iff.mpr hnodup
    have hdisjoint := List.disjoint_of_nodup_append hnodup'
    refine ⟨hands.1, hands.2, rfl, rfl, fun h => hboth.1 (paste_eq_nil.mpr h),
      fun h => hboth.2 (paste_eq_nil.mpr h), hdisjoint, hnodup', hperm, fun a ha b hb => ?_, fun m hm => ?_⟩
    · have hmem : (groupColumn topology).groupOf a ∈ groups topology :=
        (mem_groups hnonneg').mpr ⟨a, ha, rfl⟩
      have hin : ∀ c ∈ sameGroup topology a, c.cpu ∈ members topology ((groupColumn topology).groupOf a) :=
        fun c hc => members_eq hnonneg' ha ▸ List.mem_map_of_mem hc
      have ha := hin a (List.mem_filter.mpr ⟨ha, decide_eq_true rfl⟩)
      have hb := hin b hb
      rcases hundivided _ (List.mem_map_of_mem hmem) with hs | hs
      · exact iff_of_true (hs ha) (hs hb)
      · exact iff_of_false (fun h => hdisjoint h (hs ha)) (fun h => hdisjoint h (hs hb))
    · refine hbalanced m (fun group hgroups => ?_)
      obtain ⟨g, hg, rfl⟩ := List.mem_map.mp hgroups
      obtain ⟨c, hc, heq⟩ := hgroup g hg
      rw [heq, List.length_map]
      exact hm c hc
  · cases h

/-- Two sockets with two CPUs each. -/
theorem topologyLists_split_sockets :
    ∃ servers clients : List ℕ, "0,1".toList = paste servers ∧ "2,3".toList = paste clients ∧
      servers.Disjoint clients := by
  obtain ⟨servers, clients, hserver, hclient, -, -, hdisjoint, -⟩ := topologyLists_split
    [⟨0, 0, 0, 0⟩, ⟨1, 1, 0, 0⟩, ⟨2, 2, 1, 0⟩, ⟨3, 3, 1, 0⟩] (by decide) (by decide)
    "0,1".toList "2,3".toList (by decide +kernel)
  exact ⟨servers, clients, hserver, hclient, hdisjoint⟩

end Http3Bench.Script
