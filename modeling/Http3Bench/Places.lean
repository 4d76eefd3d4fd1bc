import Http3Bench.Regular

/-!
# Where the operations are

With nothing on the agenda, the dials of one purpose are the connections being dialed for it and the
entries of the retry queue. The requests of a slot are on its connection or on the agenda.
-/

namespace Http3Bench

variable {P : Platform}

theorem Worker.map_total {M N : Type} [AddCommMonoid M] [AddCommMonoid N] (F : M →+ N)
    (f : ℕ → Conn P → M) (w : Worker P) : F (w.total f) = w.total (fun i c => F (f i c)) := by
  unfold Worker.total
  rw [map_sum]
  refine Finset.sum_congr rfl (fun i _ => ?_)
  cases w.conn i with
  | none => exact map_zero F
  | some c => rfl

theorem Worker.slotOps_le_total (w : Worker P) (i : ℕ) : w.slotOps i ≤ w.total (fun i c => c.ops i) := by
  by_cases hi : i < w.slots.length
  · exact Finset.single_le_sum (f := fun k => (w.conn k).elim 0 (fun c => c.ops k))
      (fun _ _ => Multiset.zero_le _) (Finset.mem_range.mpr hi)
  · have hc : w.conn i = none := by
      cases hc : w.conn i with
      | none => rfl
      | some c => exact absurd (Worker.lt_of_conn hc) hi
    rw [Worker.slotOps, hc]
    exact Multiset.zero_le _

/-- The operations are dials for which `p` holds of the purpose, or count nothing. -/
structure CountsDials (F : Multiset Op →+ ℕ) (p : Purpose → Bool) : Prop where
  request : ∀ (kind : ReqKind) (i : ℕ), F {kind.op i} = 0
  dial : ∀ j : DialJob, F {j.op} = if p j.purpose then 1 else 0

def newsCount : Multiset Op →+ ℕ where
  toFun := fun m => (news m).card
  map_zero' := rfl
  map_add' := fun a b => by rw [news_add, Multiset.card_add]

def redialsCount : Multiset Op →+ ℕ where
  toFun := fun m => (redials m).card
  map_zero' := rfl
  map_add' := fun a b => by rw [redials_add, Multiset.card_add]

theorem countsDials_news : CountsDials newsCount (fun p => p = .new) where
  request := fun kind i => by cases kind <;> rfl
  dial := fun j => by
    cases h : j.purpose with
    | new => rw [DialJob.op_new h]; rfl
    | redialEcho s n => rw [DialJob.op_echo h]; rfl
    | redialRate => rw [DialJob.op_rate h]; rfl

theorem countsDials_redials : CountsDials redialsCount (fun p => p = .redialRate) where
  request := fun kind i => by cases kind <;> rfl
  dial := fun j => by
    cases h : j.purpose with
    | new => rw [DialJob.op_new h]; rfl
    | redialEcho s n => rw [DialJob.op_echo h]; rfl
    | redialRate => rw [DialJob.op_rate h]; rfl

/-- Whether a connection is being dialed for a purpose for which `p` holds. -/
def Conn.dials (p : Purpose → Bool) (c : Conn P) : Bool :=
  c.state = .connecting && c.dial.any (fun j => p j.purpose)

namespace CountsDials

variable {F : Multiset Op →+ ℕ} {p : Purpose → Bool}

theorem map_requests (h : CountsDials F p) {α : Type} (l : List α) (f : α → ReqKind) (i : ℕ) :
    F (l.map (fun a => (f a).op i) : List Op) = 0 := by
  induction l with
  | nil => exact map_zero F
  | cons a rest ih =>
    rw [List.map_cons, ← Multiset.cons_coe, ← Multiset.singleton_add, map_add, ih, h.request]

theorem conn (h : CountsDials F p) {c : Conn P} {i serial : ℕ} (hc : c.Sound i serial) :
    F (c.ops i) = if c.dials p then 1 else 0 := by
  rw [Conn.ops_eq, map_add, map_add, streamOps, queueOps, h.map_requests, h.map_requests]
  unfold Conn.dials Conn.dialOps
  cases hd : c.dial with
  | none => simp
  | some j =>
    have hs : c.state = .connecting := hc.dial.mpr (by simp [hd])
    simp [hs, h.dial]

theorem retries (h : CountsDials F p) (w : Worker P) :
    F w.retryOps = w.retries.countP (fun r => p r.2.purpose) := by
  unfold Worker.retryOps
  induction w.retries with
  | nil => exact map_zero F
  | cons r rest ih =>
    rw [List.map_cons, ← Multiset.cons_coe, ← Multiset.singleton_add, map_add, ih, h.dial,
      List.countP_cons]
    exact Nat.add_comm _ _

theorem rest (h : CountsDials F p) {w : Worker P} (hw : w.Sound) :
    F (⟨w, []⟩ : Mach P).ops =
      (w.slotsWhere (Conn.dials p)).length + w.retries.countP (fun r => p r.2.purpose) := by
  rw [Mach.ops, map_add, map_add, agendaOps_nil, map_zero, add_zero, h.retries, Worker.map_total,
    length_slotsWhere]
  congr 1
  refine Finset.sum_congr rfl (fun i _ => ?_)
  cases hc : w.conn i with
  | none => rfl
  | some c => exact h.conn (hw.conns hc)

end CountsDials

/-- The requests that are told apart by their slot alone. -/
def Op.At (i : ℕ) (o : Op) : Prop := o = .get i ∨ o = .post i

section

variable {i k : ℕ} {o : Op}

theorem Op.At.not_dial (h : o.At i) (j : DialJob) : j.op ≠ o := by
  rcases h with rfl | rfl <;> cases hp : j.purpose <;> simp [DialJob.op, hp]

theorem Op.At.kind (h : o.At i) {kind : ReqKind} (hk : kind.op k = o) : k = i := by
  rcases h with rfl | rfl <;> cases kind <;> simp_all [ReqKind.op]

theorem count_map_requests (h : o.At i) {α : Type} (l : List α) (f : α → ReqKind) (hk : k ≠ i) :
    Multiset.count o (l.map (fun a => (f a).op k) : List Op) = 0 := by
  rw [Multiset.coe_count, List.count_eq_zero]
  intro hm
  obtain ⟨a, _, ha⟩ := List.mem_map.mp hm
  exact hk (h.kind ha)

theorem count_dialOps (h : o.At i) (c : Conn P) : c.dialOps.count o = 0 := by
  unfold Conn.dialOps
  rw [Multiset.coe_count, List.count_eq_zero]
  intro hm
  obtain ⟨j, _, hj⟩ := List.mem_map.mp hm
  exact h.not_dial j hj

theorem count_ops_conn (h : o.At i) (c : Conn P) : (c.ops i).count o = (c.entryOps i).count o := by
  rw [Conn.ops_eq, Conn.entryOps_eq, Multiset.count_add, count_dialOps h, zero_add]

/-- Where the requests of slot `i` are. -/
theorem count_ops (h : o.At i) (x : Mach P) :
    x.ops.count o = (x.w.conn i).elim 0 (fun c => (c.entryOps i).count o) +
      (agendaOps x.todo).count o := by
  have hretry : x.w.retryOps.count o = 0 := by
    unfold Worker.retryOps
    rw [Multiset.coe_count, List.count_eq_zero]
    intro hm
    obtain ⟨r, _, hr⟩ := List.mem_map.mp hm
    exact h.not_dial r.2 hr
  have hother : ∀ k ≠ i, (x.w.conn k).elim 0 (fun c => (c.ops k).count o) = 0 := by
    intro k hk
    cases x.w.conn k with
    | none => rfl
    | some c =>
      rw [Option.elim_some, Conn.ops_eq, Multiset.count_add, Multiset.count_add, count_dialOps h,
        streamOps, queueOps, count_map_requests h _ _ hk, count_map_requests h _ _ hk]
  have htotal : (x.w.total (fun k c => c.ops k)).count o =
      (x.w.conn i).elim 0 (fun c => (c.entryOps i).count o) := by
    refine (Worker.map_total (Multiset.countAddMonoidHom o) _ x.w).trans ?_
    refine (Finset.sum_eq_single i (fun k _ hk => hother k hk) (fun hi => ?_)).trans ?_
    · cases hc : x.w.conn i with
      | none => rfl
      | some c => exact absurd (Finset.mem_range.mpr (Worker.lt_of_conn hc)) hi
    · cases x.w.conn i with
      | none => rfl
      | some c => exact count_ops_conn h c
  rw [Mach.ops, Multiset.count_add, Multiset.count_add, hretry, htotal, add_zero]

end

/-! ### A slot with a round trip on the agenda -/

variable {x : Mach P}

theorem EchoPhase.Books.nodup_open {e : EchoPhase} {m : Multiset (ℕ × ℕ)} (h : e.Books m) :
    (m.map Prod.fst).Nodup :=
  Multiset.nodup_of_le ((Multiset.le_add_left _ _).trans h.slots) (Multiset.coe_nodup.mpr h.nodup)

theorem Worker.Sound.echoes_slotOps {w : Worker P} (h : w.Sound) {i : ℕ} {a : ℕ × ℕ}
    (ha : a ∈ echoes (w.slotOps i)) : a.1 = i := by
  unfold Worker.slotOps at ha
  cases hc : w.conn i with
  | none => simp [hc] at ha
  | some c =>
    obtain ⟨o, ho, hoa⟩ := (Multiset.mem_filterMap _ _).mp ha
    rw [hc, Option.elim_some, Conn.ops, Multiset.mem_add] at ho
    rcases ho with ho | ho
    · obtain ⟨j, hj, rfl⟩ := List.mem_map.mp (Multiset.mem_coe.mp ho)
      have hs := (h.conns hc).slot j (by simpa using hj)
      cases hp : j.purpose with
      | redialEcho s n =>
        rw [DialJob.op_echo hp, hs] at hoa
        exact (congrArg Prod.fst (Option.some.inj hoa)).symm
      | new => rw [DialJob.op_new hp] at hoa; cases hoa
      | redialRate => rw [DialJob.op_rate hp] at hoa; cases hoa
    · obtain ⟨kind, -, rfl⟩ := List.mem_map.mp (Multiset.mem_coe.mp ho)
      cases kind with
      | echo s n => exact (congrArg Prod.fst (Option.some.inj hoa)).symm
      | _ => cases hoa

theorem echo_mem {m : Multiset Op} {i n : ℕ} : (i, n) ∈ echoes m ↔ .echo i n ∈ m := by
  refine ⟨fun h => ?_, fun h => (Multiset.mem_filterMap _ _).mpr ⟨_, h, rfl⟩⟩
  obtain ⟨o, ho, he⟩ := (Multiset.mem_filterMap _ _).mp h
  cases o with
  | echo k l =>
    obtain ⟨rfl, rfl⟩ := Prod.mk.inj (Option.some.inj he)
    exact ho
  | _ => cases he

theorem Regular.echo_of_mem {i n : ℕ} (h : Regular x) (hm : .echo i n ∈ x.ops) :
    ∃ e, x.w.phase = .echo e := by
  have hn := echo_mem.mpr hm
  have hb := h.books.phase
  cases hp : x.w.phase with
  | echo e => exact ⟨e, rfl⟩
  | dial d =>
    rw [hp] at hb
    simp [hb.2.2.1] at hn
  | _ =>
    rw [hp] at hb
    simp [hb.2.1] at hn

/-- A slot has one round trip at a time. -/
theorem Regular.one_echo (h : Regular x) {a b : Multiset Op} (hle : a + b ≤ x.ops) {i n : ℕ}
    (ha : .echo i n ∈ a) (k : ℕ) : .echo i k ∉ b := by
  intro hb
  obtain ⟨e, hp⟩ := h.echo_of_mem (Multiset.mem_of_le hle (Multiset.mem_add.mpr (.inl ha)))
  have hbooks := h.books.phase
  rw [hp] at hbooks
  have hopen : (echoes (a + b)).map Prod.fst ≤ _ :=
    Multiset.map_le_map (Multiset.filterMap_le_filterMap Op.echoed hle)
  rw [echoes_add, Multiset.map_add] at hopen
  have hdis := (Multiset.nodup_add.mp (Multiset.nodup_of_le hopen hbooks.2.2.nodup_open)).2.2
  have hfst : ∀ {m : Multiset Op} {l : ℕ}, .echo i l ∈ m → i ∈ (echoes m).map Prod.fst :=
    fun hm => Multiset.mem_map.mpr ⟨_, echo_mem.mpr hm, rfl⟩
  exact Multiset.disjoint_left.mp hdis (hfst ha) (hfst hb)

theorem Mach.slotOps_add_le {w : Worker P} {t : Task} {st : List Task} {i : ℕ} :
    w.slotOps i + t.ops ≤ (⟨w, t :: st⟩ : Mach P).ops := by
  refine add_le_add ((w.slotOps_le_total i).trans (Multiset.le_add_right _ _)) ?_
  rw [agendaOps_cons]
  exact Multiset.le_add_right _ _

/-- While a round trip on a slot is on the agenda, the connection in the slot carries none and is not
being dialed. -/
theorem Regular.echoes_slotOps {w : Worker P} {t : Task} {st : List Task} {i n : ℕ}
    (h : Regular ⟨w, t :: st⟩) (ht : t.ops = {.echo i n}) :
    echoes (w.slotOps i) = 0 ∧ ∀ c, w.conn i = some c → c.state ≠ .connecting := by
  obtain ⟨e, hp⟩ := h.echo_of_mem (op_mem_ops ht)
  have hb := h.books.phase
  rw [hp] at hb
  have hle : w.slotOps i + t.ops ≤ (⟨w, t :: st⟩ : Mach P).ops := Mach.slotOps_add_le
  have hz : echoes (w.slotOps i) = 0 := by
    by_contra hne
    obtain ⟨⟨k, l⟩, ha⟩ := Multiset.exists_mem_of_ne_zero hne
    obtain rfl : k = i := h.sound.echoes_slotOps ha
    refine h.one_echo hle (echo_mem.mp ha) n ?_
    rw [ht]
    exact Multiset.mem_singleton_self _
  refine ⟨hz, fun c hc hs => ?_⟩
  obtain ⟨j, hj⟩ := Option.isSome_iff_exists.mp ((h.sound.conns hc).dial.mp hs)
  have hop : j.op ∈ w.slotOps i := by simp [Worker.slotOps, hc, Conn.ops, hj]
  have hmem := Multiset.mem_of_le ((Multiset.le_add_right _ _).trans hle) hop
  cases hpur : j.purpose with
  | new =>
    have := newId_mem hmem hpur
    simp [hb.1] at this
  | redialEcho s n =>
    rw [DialJob.op_echo hpur] at hop
    have := echo_mem.mpr hop
    simp [hz] at this
  | redialRate =>
    rw [DialJob.op_rate hpur] at hmem
    have : j.slot.getD 0 ∈ redials _ := (Multiset.mem_filterMap _ _).mpr ⟨_, hmem, rfl⟩
    simp [hb.2.1] at this

end Http3Bench
