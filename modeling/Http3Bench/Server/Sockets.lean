import Http3Bench.Server.Run

/-!
# The sockets of a server worker

`poll` reports a socket when something arrives on it, and not for as long as something waits there.
What the budget of `read_socket` leaves on a socket is therefore never reported, and the socket is
kept on the list `unread`. `Machine` is the loop of `run` with the queues of the kernel: datagrams
arrive between any two calls, and a call of `recv_from` is one step.

`Sock.taken` and `Machine.polls` are history: how many answers a socket has given, and how many polls
were not interrupted.
-/

namespace Http3Bench.Server

variable {P : ServerPlatform}

structure Sock where
  /-- What `recv_from` will answer, before it would block. -/
  queue : List Recv := []
  /-- Whether the next poll reports the socket. -/
  edge : Bool := false
  taken : ℕ := 0

/-- A datagram arrives, or an error: the kernel answers an error before the datagrams that wait. -/
def Sock.arrive (k : ℕ) (r : Recv) (x : Sock) : Sock :=
  { x with queue := x.queue.insertIdx (min k x.queue.length) r, edge := true }

def Sock.next (x : Sock) : Sock := { x with queue := x.queue.tail, taken := x.taken + 1 }

/-- Everything that has ever arrived. -/
def Sock.arrived (x : Sock) : ℕ := x.taken + x.queue.length

inductive Point
  | top
  /-- Reading the first of the sockets, with so many calls left of its budget. -/
  | reading (budget : ℕ) (todo : List ℕ)

def Point.todo : Point → List ℕ
  | .top => []
  | .reading _ todo => todo

structure Machine (P : ServerPlatform) where
  loop : Loop P
  net : ℕ → Sock := fun _ => {}
  pt : Point := .top
  polls : ℕ := 0

namespace Machine

def setSock (m : Machine P) (s : ℕ) (x : Sock) : Machine P :=
  { m with net := Function.update m.net s x }

/-- The sockets that are read in a pass, after the kernel has done as it likes. -/
def polled (m : Machine P) (tokens : List ℕ) (os : P.Os) : Machine P :=
  { m with
    loop := ⟨{ m.loop.worker with os := os }, []⟩
    net := fun s => { m.net s with edge := (m.net s).edge && !decide (s ∈ tokens) }
    pt := .reading readBudget (Loop.addTokens m.loop.unread tokens) }

inductive Step : Machine P → Machine P → Prop
  | arrive {m : Machine P} (s k : ℕ) {r : Recv} :
      r ≠ .wouldBlock → Step m (m.setSock s ((m.net s).arrive k r))
  /-- A worker has at most fifty sockets, and room for 1024 events. -/
  | poll {m : Machine P} (tokens : List ℕ) (os : P.Os) :
      m.pt = .top → (∀ s, s ∈ tokens ↔ (m.net s).edge = true) →
      Step m { m.polled tokens os with polls := m.polls + 1 }
  | interrupted {m : Machine P} (os : P.Os) : m.pt = .top → Step m (m.polled [] os)
  /-- The source id that is drawn is not among those of the connections there are. -/
  | datagram {m : Machine P} {n s : ℕ} {rest : List ℕ} {sender : SocketAddr} {data : Body}
      {queue : List Recv} :
      m.pt = .reading (n + 1) (s :: rest) → (m.net s).queue = .datagram sender data :: queue →
      (P.fill m.loop.worker.os).1 ∉ m.loop.worker.ids →
      Step m { m.setSock s (m.net s).next with
        loop := { m.loop with worker := m.loop.worker.onDatagram s sender data }
        pt := .reading n (s :: rest) }
  | failed {m : Machine P} {n s : ℕ} {rest : List ℕ} {queue : List Recv} :
      m.pt = .reading (n + 1) (s :: rest) → (m.net s).queue = .failed :: queue →
      Step m { m.setSock s (m.net s).next with pt := .reading n (s :: rest) }
  | wouldBlock {m : Machine P} {n s : ℕ} {rest : List ℕ} :
      m.pt = .reading (n + 1) (s :: rest) → (m.net s).queue = [] →
      Step m { m with pt := .reading readBudget rest }
  | spent {m : Machine P} {s : ℕ} {rest : List ℕ} :
      m.pt = .reading 0 (s :: rest) →
      Step m { m with
        loop := { m.loop with unread := m.loop.unread ++ [s] }
        pt := .reading readBudget rest }
  /-- The timers that are due, and the connections that were touched. -/
  | finish {m : Machine P} {n : ℕ} (now : Instant) :
      m.pt = .reading n [] →
      Step m { m with
        loop := { m.loop with worker := (m.loop.worker.fireTimers now).flushDirty }
        pt := .top }

def new (sockets : List SocketAddr) (os : P.Os) : Machine P where
  loop := ⟨Worker.new sockets os, []⟩

def Reach (m : Machine P) : Prop :=
  ∃ sockets os, Relation.ReflTransGen Step (new sockets os) m

variable {m m' : Machine P} {s : ℕ}

/-! ### Nothing waits unseen -/

/-- A socket on which something waits will be reported, or is to be read anyway. -/
def Seen (m : Machine P) : Prop :=
  ∀ s, (m.net s).queue ≠ [] → (m.net s).edge = true ∨ s ∈ m.loop.unread ∨ s ∈ m.pt.todo

theorem mem_addTokens {unread tokens : List ℕ} :
    s ∈ Loop.addTokens unread tokens ↔ s ∈ unread ∨ s ∈ tokens := by
  unfold Loop.addTokens
  induction tokens generalizing unread with
  | nil => simp
  | cons t rest ih =>
    rw [List.foldl_cons, ih]
    split
    · rename_i ht
      constructor
      · rintro (h | h)
        · exact .inl h
        · exact .inr (List.mem_cons_of_mem _ h)
      · rintro (h | h)
        · exact .inl h
        · rcases List.mem_cons.mp h with rfl | h
          · exact .inl ht
          · exact .inr h
    · simp only [List.mem_append, List.mem_cons]
      tauto

theorem net_setSock (m : Machine P) (s k : ℕ) (x : Sock) :
    (m.setSock s x).net k = if k = s then x else m.net k := by
  simp only [setSock, Function.update_apply]

/-- Reading one answer of the socket that is being read. -/
theorem Seen.next {n : ℕ} {rest : List ℕ} {loop : Loop P} (h : m.Seen)
    (hpt : m.pt = .reading (n + 1) (s :: rest)) (hloop : loop.unread = m.loop.unread) :
    Seen { m.setSock s (m.net s).next with loop := loop, pt := .reading n (s :: rest) } := by
  intro k hk
  by_cases hks : k = s
  · exact .inr (.inr (by simp [Point.todo, hks]))
  · have hnet : (m.setSock s (m.net s).next).net k = m.net k := by rw [net_setSock, if_neg hks]
    change ((m.setSock s (m.net s).next).net k).queue ≠ [] at hk
    change ((m.setSock s (m.net s).next).net k).edge = true ∨ k ∈ loop.unread ∨ k ∈ s :: rest
    rw [hnet] at hk ⊢
    rw [hloop]
    have hseen := h k hk
    rwa [hpt] at hseen

theorem Seen.polled (h : m.Seen) (hpt : m.pt = .top) (tokens : List ℕ) (os : P.Os) :
    (m.polled tokens os).Seen := by
  intro s hs
  change (m.net s).queue ≠ [] at hs
  change ((m.net s).edge && !decide (s ∈ tokens)) = true ∨ s ∈ [] ∨
    s ∈ Loop.addTokens m.loop.unread tokens
  rw [mem_addTokens]
  by_cases ht : s ∈ tokens
  · exact .inr (.inr (.inr ht))
  · have hseen := h s hs
    rw [hpt] at hseen
    rcases hseen with he | hu | htodo
    · simp [he, ht]
    · exact .inr (.inr (.inl hu))
    · cases htodo

theorem Step.seen (hs : Step m m') (h : m.Seen) : m'.Seen := by
  cases hs with
  | @arrive s k r =>
    intro j hj
    rw [net_setSock] at hj ⊢
    by_cases hjs : j = s
    · rw [if_pos hjs]
      exact .inl rfl
    · rw [if_neg hjs] at hj ⊢
      exact h j hj
  | poll tokens os hpt htok => exact h.polled hpt tokens os
  | interrupted os hpt => exact h.polled hpt [] os
  | datagram hpt hq hid => exact h.next hpt rfl
  | failed hpt hq => exact h.next hpt rfl
  | @wouldBlock n s rest hpt hq =>
    intro k hk
    have hseen := h k hk
    rw [hpt] at hseen
    rcases hseen with he | hu | htodo
    · exact .inl he
    · exact .inr (.inl hu)
    · rcases List.mem_cons.mp htodo with rfl | hmem
      · exact absurd hq hk
      · exact .inr (.inr hmem)
  | @spent s rest hpt =>
    intro k hk
    have hseen := h k hk
    rw [hpt] at hseen
    rcases hseen with he | hu | htodo
    · exact .inl he
    · exact .inr (.inl (List.mem_append_left _ hu))
    · rcases List.mem_cons.mp htodo with rfl | hmem
      · exact .inr (.inl (by simp))
      · exact .inr (.inr hmem)
  | @finish n now hpt =>
    intro k hk
    have hseen := h k hk
    rwa [hpt] at hseen

theorem Reach.seen (h : m.Reach) : m.Seen := by
  obtain ⟨sockets, os, hrun⟩ := h
  induction hrun with
  | refl => exact fun s hs => absurd rfl hs
  | tail _ hstep ih => exact hstep.seen ih

/-! ### Every socket gets its share -/

/-- How many answers a socket has given at least after `k` polls. -/
def fed (m : Machine P) (s k : ℕ) : ℕ :=
  (m.net s).taken + min (readBudget * k) (m.net s).queue.length

theorem fed_succ_le (m : Machine P) (s k : ℕ) : m.fed s (k + 1) ≤ m.fed s k + readBudget := by
  unfold fed
  rw [Nat.mul_succ]
  omega

theorem fed_le_arrived (m : Machine P) (s k : ℕ) : m.fed s k ≤ (m.net s).arrived := by
  unfold fed Sock.arrived
  omega

/-- Since `m₀` a socket has got its share of every poll, or is to be read yet for the last one. -/
inductive Share (m₀ m : Machine P) (s : ℕ) : Prop
  | given {k : ℕ} : m.polls = m₀.polls + k → m₀.fed s k ≤ (m.net s).taken → Share m₀ m s
  | owed {k n : ℕ} {pre rest : List ℕ} : m.polls = m₀.polls + (k + 1) →
      m.pt = .reading n (pre ++ s :: rest) → m₀.fed s k ≤ (m.net s).taken →
      (pre = [] → m₀.fed s k + readBudget ≤ (m.net s).taken + n) → Share m₀ m s

theorem length_arrive (k : ℕ) (r : Recv) (x : Sock) :
    (x.arrive k r).queue.length = x.queue.length + 1 :=
  List.length_insertIdx_of_le_length (Nat.min_le_right _ _) r

theorem arrived_next {x : Sock} (h : x.queue ≠ []) : x.next.arrived = x.arrived := by
  unfold Sock.arrived Sock.next
  have := List.length_pos_of_ne_nil h
  simp only [List.length_tail]
  omega

theorem Step.arrived (hs : Step m m') (s : ℕ) : (m.net s).arrived ≤ (m'.net s).arrived := by
  have hnext : ∀ k, (m.net k).queue ≠ [] →
      (m.net s).arrived ≤ ((m.setSock k (m.net k).next).net s).arrived := by
    intro k hk
    rw [net_setSock]
    split
    · rename_i hsk
      rw [arrived_next hk, hsk]
    · exact le_rfl
  cases hs with
  | @arrive k j r =>
    rw [net_setSock]
    split
    · rename_i hsk
      rw [hsk]
      unfold Sock.arrived
      rw [length_arrive]
      change (m.net k).taken + _ ≤ (m.net k).taken + _
      omega
    · exact le_rfl
  | datagram hpt hq hid => exact hnext _ (by simp [hq])
  | failed hpt hq => exact hnext _ (by simp [hq])
  | poll tokens os hpt htok => exact le_rfl
  | interrupted os hpt => exact le_rfl
  | wouldBlock hpt hq => exact le_rfl
  | spent hpt => exact le_rfl
  | finish now hpt => exact le_rfl

variable {m₀ : Machine P}

/-- An answer is taken of the socket that is being read. -/
theorem Share.next {k n : ℕ} {rest : List ℕ} {loop : Loop P} (h : Share m₀ m s)
    (hpt : m.pt = .reading (n + 1) (k :: rest)) :
    Share m₀ { m.setSock k (m.net k).next with loop := loop, pt := .reading n (k :: rest) } s := by
  have hnet : (m.setSock k (m.net k).next).net s = if s = k then (m.net k).next else m.net s :=
    net_setSock m k s _
  have htaken : (m.net s).taken ≤ ((m.setSock k (m.net k).next).net s).taken := by
    rw [hnet]
    split
    · rename_i hsk
      rw [hsk]
      exact Nat.le_succ _
    · exact le_rfl
  cases h with
  | given hpolls hfed => exact .given hpolls (hfed.trans htaken)
  | @owed j n' pre rest' hpolls hpt' hfed hhead =>
    rw [hpt] at hpt'
    injection hpt' with hn htodo
    refine @Share.owed _ _ _ _ j n pre rest' hpolls (by rw [← htodo]) (hfed.trans htaken) ?_
    intro hpre
    have hle := hhead hpre
    rw [hpre, List.nil_append] at htodo
    injection htodo with hks
    change _ ≤ ((m.setSock k (m.net k).next).net s).taken + n
    rw [hnet, if_pos hks.symm]
    rw [hks] at *
    change _ ≤ (m.net s).taken + 1 + n
    omega

/-- The first of the sockets is left, having been given its share. -/
theorem Share.leave {k n : ℕ} {rest : List ℕ} {loop : Loop P} (h : Share m₀ m s)
    (hpt : m.pt = .reading n (k :: rest))
    (hdone : ∀ j, m₀.fed s j + readBudget ≤ (m.net k).taken + n → k = s →
      m₀.fed s (j + 1) ≤ (m.net s).taken) :
    Share m₀ { m with loop := loop, pt := .reading readBudget rest } s := by
  cases h with
  | given hpolls hfed => exact .given hpolls hfed
  | @owed j n' pre rest' hpolls hpt' hfed hhead =>
    rw [hpt] at hpt'
    injection hpt' with hn htodo
    cases pre with
    | nil =>
      injection htodo with hks
      exact .given hpolls (hdone j (by rw [hks, hn]; exact hhead rfl) hks)
    | cons p pre =>
      injection htodo with hkp htodo
      refine @Share.owed _ _ _ _ j readBudget pre rest' hpolls
        (congrArg (Point.reading readBudget) htodo) hfed ?_
      intro _
      exact Nat.add_le_add_right hfed _

theorem Share.poll {tokens : List ℕ} {os : P.Os} (h : Share m₀ m s) (hseen : m.Seen)
    (harr : (m₀.net s).arrived ≤ (m.net s).arrived) (hpt : m.pt = .top)
    (htok : ∀ s, s ∈ tokens ↔ (m.net s).edge = true) :
    Share m₀ { m.polled tokens os with polls := m.polls + 1 } s := by
  cases h with
  | @given k hpolls hfed =>
    have hpolls' : m.polls + 1 = m₀.polls + (k + 1) := by omega
    by_cases hq : (m.net s).queue = []
    · -- Everything that has arrived has been taken.
      refine .given hpolls' ?_
      have hle := fed_le_arrived m₀ s (k + 1)
      have hall : (m.net s).arrived = (m.net s).taken := by simp [Sock.arrived, hq]
      change m₀.fed s (k + 1) ≤ (m.net s).taken
      omega
    · have hmem : s ∈ Loop.addTokens m.loop.unread tokens := by
        rw [mem_addTokens, htok]
        have hs := hseen s hq
        rw [hpt] at hs
        rcases hs with he | hu | htodo
        · exact .inr he
        · exact .inl hu
        · cases htodo
      obtain ⟨pre, rest, hsplit⟩ := List.append_of_mem hmem
      refine @Share.owed _ _ _ _ k readBudget pre rest hpolls' ?_ hfed ?_
      · change Point.reading readBudget (Loop.addTokens m.loop.unread tokens) = _
        rw [hsplit]
      · intro _
        exact Nat.add_le_add_right hfed _
  | owed hpolls hpt' =>
    rw [hpt] at hpt'
    cases hpt'

theorem Step.share (hs : Step m m') (h : Share m₀ m s) (hseen : m.Seen)
    (harr : (m₀.net s).arrived ≤ (m.net s).arrived) : Share m₀ m' s := by
  cases hs with
  | @arrive k j r =>
    have htaken : ((m.setSock k ((m.net k).arrive j r)).net s).taken = (m.net s).taken := by
      rw [net_setSock]
      split
      · rename_i hsk
        rw [hsk]
        rfl
      · rfl
    cases h with
    | given hpolls hfed => exact .given hpolls (htaken ▸ hfed)
    | owed hpolls hpt hfed hhead => exact .owed hpolls hpt (htaken ▸ hfed) (htaken ▸ hhead)
  | poll tokens os hpt htok => exact h.poll hseen harr hpt htok
  | interrupted os hpt =>
    cases h with
    | given hpolls hfed => exact .given hpolls hfed
    | owed hpolls hpt' =>
      rw [hpt] at hpt'
      cases hpt'
  | datagram hpt hq hid => exact h.next hpt
  | failed hpt hq => exact h.next hpt
  | @wouldBlock n k rest hpt hq =>
    refine h.leave hpt (fun j _ hks => ?_)
    have hle := fed_le_arrived m₀ s (j + 1)
    have hall : (m.net s).arrived = (m.net s).taken := by simp [Sock.arrived, ← hks, hq]
    omega
  | @spent k rest hpt =>
    refine h.leave hpt (fun j hj hks => ?_)
    have hle := fed_succ_le m₀ s j
    rw [hks] at hj
    omega
  | finish now hpt =>
    cases h with
    | given hpolls hfed => exact .given hpolls hfed
    | @owed _ _ pre _ hpolls hpt' =>
      rw [hpt] at hpt'
      injection hpt' with _ htodo
      simp at htodo

theorem shares (h : m.Reach) (hrun : Relation.ReflTransGen Step m m') (s : ℕ) :
    (m.net s).arrived ≤ (m'.net s).arrived ∧ Share m m' s := by
  obtain ⟨sockets, os, hm⟩ := h
  induction hrun with
  | refl => exact ⟨le_rfl, @Share.given _ _ _ _ 0 rfl (by simp [fed])⟩
  | tail hrun hstep ih =>
    have hseen := Reach.seen ⟨sockets, os, hm.trans hrun⟩
    exact ⟨ih.1.trans (hstep.arrived s), hstep.share ih.2 hseen ih.1⟩

/-- A worker with a datagram on its first socket. -/
def waiting : Machine Loop.alarms :=
  (new [] (0 : ℕ)).setSock 0 (Sock.arrive 0 (.datagram ⟨true, ""⟩ [1, 7, 5]) {})

theorem reach_waiting : waiting.Reach := ⟨[], (0 : ℕ), .single (.arrive 0 0 (by simp))⟩

theorem reach_fireTimers {w : Worker P} (h : w.Reach) (now : Instant) : (w.fireTimers now).Reach := by
  unfold Worker.fireTimers
  generalize w.timers.length = n
  induction n generalizing w with
  | zero => exact h
  | succ n ih =>
    obtain ⟨sockets, os, hrun⟩ := h
    exact ih ⟨sockets, os, hrun.tail (.fire now)⟩

theorem reach_flushDirty {w : Worker P} (h : w.Reach) : w.flushDirty.Reach := by
  unfold Worker.flushDirty
  generalize w.dirty.length = n
  induction n generalizing w with
  | zero => exact h
  | succ n ih =>
    obtain ⟨sockets, os, hrun⟩ := h
    exact ih ⟨sockets, os, hrun.tail .flush⟩

/-- A machine does with its connections what a worker does step by step. -/
theorem Reach.worker (h : m.Reach) : m.loop.worker.Reach := by
  obtain ⟨sockets, os, hrun⟩ := h
  induction hrun with
  | refl => exact ⟨sockets, os, .refl⟩
  | tail _ hstep ih =>
    cases hstep with
    | arrive => exact ih
    | poll tokens o hpt htok =>
      obtain ⟨sockets', os', hw⟩ := ih
      exact ⟨sockets', os', hw.tail (.os o)⟩
    | interrupted o hpt =>
      obtain ⟨sockets', os', hw⟩ := ih
      exact ⟨sockets', os', hw.tail (.os o)⟩
    | datagram hpt hq hid =>
      obtain ⟨sockets', os', hw⟩ := ih
      exact ⟨sockets', os', hw.tail (.datagram _ _ _ hid)⟩
    | failed hpt hq => exact ih
    | wouldBlock hpt hq => exact ih
    | spent hpt => exact ih
    | finish now hpt => exact reach_flushDirty (reach_fireTimers ih now)

/-- What becomes of the loop `x` when the sockets are read, the first within the budget `n`, and
answer with `f`. -/
def readOut (f : ℕ → List Recv) (n : ℕ) (x : Loop P) : List ℕ → Loop P
  | [] => x
  | s :: rest =>
    let r := Worker.readSocketWithin s n (f s) x.worker
    Loop.readSockets f rest ⟨r.2, if r.1 then x.unread else x.unread ++ [s]⟩

theorem readOut_budget (f : ℕ → List Recv) (x : Loop P) (todo : List ℕ) :
    readOut f readBudget x todo = Loop.readSockets f todo x := by
  cases todo with
  | nil => rfl
  | cons s rest => rfl

theorem readSockets_congr {f g : ℕ → List Recv} {todo : List ℕ} (h : ∀ s ∈ todo, f s = g s)
    (x : Loop P) : Loop.readSockets f todo x = Loop.readSockets g todo x := by
  induction todo generalizing x with
  | nil => rfl
  | cons s rest ih =>
    simp only [Loop.readSockets, h s (by simp)]
    exact ih (fun k hk => h k (by simp [hk])) _

/-- The loop `y` is in a pass of a loop that polled: whatever the sockets still to be read answer, it
comes out as that pass does with some answers. -/
def InPass (y : Loop P) (n : ℕ) (todo : List ℕ) : Prop :=
  ∃ (x : Loop P) (tokens : List ℕ) (os : P.Os), x.Polls ∧ ∀ f, ∃ answers,
    Loop.readSockets answers (Loop.addTokens x.unread tokens) ⟨{ x.worker with os := os }, []⟩ =
      readOut f n y todo

inductive Passing (m : Machine P) : Prop
  | top : m.pt = .top → m.loop.Polls → m.loop.unread.Nodup → Passing m
  | reading {n : ℕ} {todo : List ℕ} : m.pt = .reading n todo → (m.loop.unread ++ todo).Nodup →
      InPass m.loop n todo → Passing m

theorem nodup_addTokens {unread : List ℕ} (h : unread.Nodup) (tokens : List ℕ) :
    (Loop.addTokens unread tokens).Nodup := by
  unfold Loop.addTokens
  induction tokens generalizing unread with
  | nil => exact h
  | cons t rest ih =>
    rw [List.foldl_cons]
    apply ih
    split
    · exact h
    · rename_i ht
      exact List.nodup_append.mpr ⟨h, List.nodup_singleton t, by
        intro a ha b hb hab
        rw [List.mem_singleton] at hb
        exact ht (hb ▸ hab ▸ ha)⟩

theorem Passing.polled (h : m.Passing) (hpt : m.pt = .top) (tokens : List ℕ) (os : P.Os) (n : ℕ) :
    Passing { m.polled tokens os with polls := n } := by
  cases h with
  | top _ hpolls hnodup =>
    refine .reading rfl (nodup_addTokens hnodup tokens) ⟨m.loop, tokens, os, hpolls, ?_⟩
    intro f
    exact ⟨f, (readOut_budget f _ _).symm⟩
  | reading hpt' =>
    rw [hpt] at hpt'
    cases hpt'

theorem Passing.inPass {n : ℕ} {todo : List ℕ} (h : m.Passing) (hpt : m.pt = .reading n todo) :
    (m.loop.unread ++ todo).Nodup ∧ InPass m.loop n todo := by
  cases h with
  | top hpt' =>
    rw [hpt] at hpt'
    cases hpt'
  | reading hpt' hnodup hpass =>
    rw [hpt] at hpt'
    injection hpt' with hn htodo
    subst hn htodo
    exact ⟨hnodup, hpass⟩

/-- The answers `l` of the socket that is being read, in front of those to come. -/
theorem InPass.answer {x y : Loop P} {n n' s : ℕ} {rest todo : List ℕ} (h : InPass x n (s :: rest))
    (hs : s ∉ rest) (l : List Recv → List Recv)
    (hread : ∀ f g, (∀ k ∈ rest, f k = g k) → f s = l (g s) →
      readOut f n x (s :: rest) = readOut g n' y todo) :
    InPass y n' todo := by
  obtain ⟨z, tokens, os, hpolls, hpass⟩ := h
  refine ⟨z, tokens, os, hpolls, ?_⟩
  intro g
  obtain ⟨answers, ha⟩ := hpass (Function.update g s (l (g s)))
  refine ⟨answers, ha.trans (hread _ g ?_ (Function.update_self ..))⟩
  intro k hk
  have hks : k ≠ s := fun hks => hs (hks ▸ hk)
  exact Function.update_of_ne hks _ _

theorem Passing.next {n s : ℕ} {rest : List ℕ} {r : Recv} {w : Worker P} {net : ℕ → Sock}
    (h : m.Passing) (hpt : m.pt = .reading (n + 1) (s :: rest))
    (hr : ∀ answers, Worker.readSocketWithin s (n + 1) (r :: answers) m.loop.worker =
      Worker.readSocketWithin s n answers w) :
    Passing { m with net := net, loop := { m.loop with worker := w }, pt := .reading n (s :: rest) } := by
  obtain ⟨hnodup, hpass⟩ := h.inPass hpt
  have hs : s ∉ rest := (List.nodup_cons.mp (List.Nodup.of_append_right hnodup)).1
  refine .reading rfl hnodup (hpass.answer hs (fun l => r :: l) ?_)
  intro f g hfg hfs
  simp only [readOut, hfs, hr]
  exact readSockets_congr hfg _

theorem Step.passing (hs : Step m m') (h : m.Passing) : m'.Passing := by
  cases hs with
  | @arrive s k r =>
    cases h with
    | top hpt hpolls hnodup => exact .top hpt hpolls hnodup
    | reading hpt hnodup hpass => exact .reading hpt hnodup hpass
  | poll tokens os hpt htok => exact h.polled hpt tokens os _
  | interrupted os hpt => exact h.polled hpt [] os _
  | @datagram n s rest sender data queue hpt hq hid =>
    exact @Passing.next _ _ _ _ _ (.datagram sender data) _ _ h hpt (fun _ => rfl)
  | @failed n s rest queue hpt hq =>
    exact @Passing.next _ _ _ _ _ .failed _ _ h hpt (fun _ => rfl)
  | @wouldBlock n s rest hpt hq =>
    obtain ⟨hnodup, hpass⟩ := h.inPass hpt
    have hs : s ∉ rest := (List.nodup_cons.mp (List.Nodup.of_append_right hnodup)).1
    refine .reading rfl (hnodup.sublist (by simp)) (hpass.answer hs (fun _ => []) ?_)
    intro f g hfg hfs
    rw [readOut_budget]
    simp only [readOut, hfs, Worker.readSocketWithin, if_true]
    exact readSockets_congr hfg _
  | @spent s rest hpt =>
    obtain ⟨hnodup, hpass⟩ := h.inPass hpt
    have hs : s ∉ rest := (List.nodup_cons.mp (List.Nodup.of_append_right hnodup)).1
    refine .reading rfl (by simpa using hnodup) (hpass.answer hs id ?_)
    intro f g hfg _
    rw [readOut_budget]
    simp only [readOut, Worker.readSocketWithin]
    exact readSockets_congr hfg _
  | finish now hpt =>
    obtain ⟨hnodup, x, tokens, os, hpolls, hpass⟩ := h.inPass hpt
    obtain ⟨answers, ha⟩ := hpass (fun _ => [])
    have hx : x.pass ⟨os, tokens, answers, now⟩ =
        ⟨(m.loop.worker.fireTimers now).flushDirty, m.loop.unread⟩ := by
      unfold Loop.pass
      rw [show Loop.readSockets answers (Loop.addTokens x.unread tokens)
        ⟨{ x.worker with os := os }, []⟩ = m.loop from ha]
    exact .top rfl (hx ▸ .pass _ hpolls) (by simpa using hnodup)

theorem Reach.passing (h : m.Reach) : m.Passing := by
  obtain ⟨sockets, os, hrun⟩ := h
  induction hrun with
  | refl => exact .top rfl (.new sockets os) .nil
  | tail _ hstep ih => exact hstep.passing ih

/-- A machine at the top of its loop has come there by passes of the loop. -/
theorem Reach.polls (h : m.Reach) (htop : m.pt = .top) : m.loop.Polls := by
  cases h.passing with
  | top _ hpolls _ => exact hpolls
  | reading hpt =>
    rw [htop] at hpt
    cases hpt

end Machine
end Http3Bench.Server
