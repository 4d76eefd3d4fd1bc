import Mathlib.Tactic
import Mathlib.Data.List.Nodup

/-!
# Messages sent in pieces

A sender keeps the messages its transport has not taken whole: each under a key of its own, with
whether its head is out and how much of its body is. `Run` is the list of them through everything
that can happen to it, beside the marks of what happened. `Run.stands` reads off the marks what is
in the list: what the transport has taken of a message is always the beginning of its body, the head
is taken once and first, and a message leaves the list exactly when it is out, refused or reset, or
when the list is cleared.
-/

namespace Http3Bench.Outbox

structure Entry where
  key : ℕ
  headed : Bool
  body : List UInt8
  off : ℕ
  deriving DecidableEq

inductive Mark
  | opened (key : ℕ) (body : List UInt8)
  | headed (key : ℕ)
  | took (key : ℕ) (bytes : List UInt8)
  | refused (key : ℕ)
  | reset (key : ℕ)
  | cleared
  deriving DecidableEq

/-- The message of `key` is given up at this mark. -/
def Mark.ends (key : ℕ) : Mark → Bool
  | .refused k | .reset k => k = key
  | .cleared => true
  | _ => false

def Mark.opens? : Mark → Option ℕ
  | .opened key _ => some key
  | _ => none

def Mark.message? : Mark → Option (ℕ × List UInt8)
  | .opened key body => some (key, body)
  | _ => none

def Mark.bytes (key : ℕ) : Mark → List UInt8
  | .took k b => if k = key then b else []
  | _ => []

/-- The keys of the messages that were opened. -/
def keys (tr : List Mark) : List ℕ := tr.filterMap Mark.opens?

/-- The messages that were opened. -/
def messages (tr : List Mark) : List (ℕ × List UInt8) := tr.filterMap Mark.message?

/-- The bytes the transport took of the message of `key`, in order. -/
def taken (key : ℕ) (tr : List Mark) : List UInt8 := tr.flatMap (Mark.bytes key)

/-- What a try to send an entry on leaves of it: its head went out, or more of its body, or the
transport would have none of it. -/
inductive Change (e : Entry) : Mark → Option Entry → Prop
  | headed : e.headed = false →
      Change e (.headed e.key) (if e.body = [] then none else some { e with headed := true })
  | took (n : ℕ) : e.headed = true →
      Change e (.took e.key ((e.body.drop e.off).take n))
        (if e.off + n < e.body.length then some { e with off := e.off + n } else none)
  | refused : Change e (.refused e.key) none

inductive Run : List Mark → List Entry → Prop
  | nil : Run [] []
  | opened {tr : List Mark} {ps : List Entry} (key : ℕ) (body : List UInt8) : Run tr ps →
      Run (tr ++ [.opened key body]) (ps ++ [⟨key, false, body, 0⟩])
  | changed {tr : List Mark} {l r : List Entry} {e : Entry} {m : Mark} {o : Option Entry} :
      Run tr (l ++ e :: r) → Change e m o → Run (tr ++ [m]) (l ++ (o.toList ++ r))
  | reset {tr : List Mark} {ps : List Entry} (key : ℕ) : Run tr ps →
      Run (tr ++ [.reset key]) (ps.filter (fun e => e.key ≠ key))
  | cleared {tr : List Mark} {ps : List Entry} : Run tr ps → Run (tr ++ [.cleared]) []

@[simp] theorem keys_append (s t : List Mark) : keys (s ++ t) = keys s ++ keys t :=
  List.filterMap_append

@[simp] theorem messages_append (s t : List Mark) : messages (s ++ t) = messages s ++ messages t :=
  List.filterMap_append

theorem map_messages (tr : List Mark) : (messages tr).map Prod.fst = keys tr := by
  unfold messages keys
  rw [List.map_filterMap]
  congr 1
  funext m
  cases m <;> rfl

@[simp] theorem taken_append (key : ℕ) (s t : List Mark) :
    taken key (s ++ t) = taken key s ++ taken key t := List.flatMap_append

@[simp] theorem taken_singleton (key : ℕ) (m : Mark) : taken key [m] = m.bytes key := by
  simp [taken]

section

variable {e e' : Entry} {m : Mark} {o : Option Entry}

theorem Change.opens (h : Change e m o) : keys [m] = [] := by
  cases h <;> rfl

theorem Change.key (h : Change e m (some e')) : e'.key = e.key := by
  generalize ho : some e' = o at h
  cases h with
  | headed =>
    split at ho
    · cases ho
    · cases ho
      rfl
  | took n =>
    split at ho
    · cases ho
      rfl
    · cases ho
  | refused => cases ho

end

section

variable {tr : List Mark} {ps : List Entry}

theorem Run.key_mem (h : Run tr ps) : ∀ e ∈ ps, e.key ∈ keys tr := by
  induction h with
  | nil => simp
  | opened key body _ ih =>
    intro e he
    rw [keys_append, List.mem_append]
    rcases List.mem_append.mp he with he | he
    · exact .inl (ih e he)
    · exact .inr (by simp [List.mem_singleton.mp he, keys, Mark.opens?])
  | @changed tr l r e m o _ hc ih =>
    intro x hx
    rw [keys_append]
    refine List.mem_append_left _ ?_
    rcases List.mem_append.mp hx with hx | hx
    · exact ih x (List.mem_append_left _ hx)
    · rcases List.mem_append.mp hx with hx | hx
      · rw [Option.mem_toList] at hx
        rw [Change.key (hx ▸ hc)]
        exact ih e (by simp)
      · exact ih x (by simp [hx])
  | reset key _ ih =>
    intro x hx
    rw [keys_append]
    exact List.mem_append_left _ (ih x (List.mem_of_mem_filter hx))
  | cleared => simp

/-- Nothing is taken of a message before it is opened. -/
theorem Run.taken_before (h : Run tr ps) {pre rest : List Mark} {key : ℕ} (htr : tr = pre ++ rest)
    (hk : key ∉ keys pre) : taken key pre = [] := by
  have hlast : ∀ {tr : List Mark} {m : Mark} {pre rest : List Mark},
      (∀ {pre rest : List Mark}, tr = pre ++ rest → key ∉ keys pre → taken key pre = []) →
      (key ∉ keys tr → m.bytes key = []) → tr ++ [m] = pre ++ rest → key ∉ keys pre →
      taken key pre = [] := by
    intro tr m pre rest ih hm htr hk
    rcases List.eq_nil_or_concat rest with rfl | ⟨rest, x, rfl⟩
    · rw [List.append_nil] at htr
      rw [← htr, keys_append, List.mem_append, not_or] at hk
      rw [← htr, taken_append, taken_singleton, hm hk.1, List.append_nil]
      exact ih (List.append_nil tr).symm hk.1
    · rw [List.concat_eq_append, ← List.append_assoc] at htr
      exact ih (List.append_inj' htr rfl).1 hk
  induction h generalizing pre rest with
  | nil =>
    rw [(List.append_eq_nil_iff.mp htr.symm).1]
    rfl
  | opened k body _ ih => exact hlast ih (fun _ => rfl) htr hk
  | @changed tr l r e m o hr hc ih =>
    refine hlast ih (fun hnot => ?_) htr hk
    have hne : e.key ≠ key := fun heq => hnot (heq ▸ hr.key_mem e (by simp))
    cases hc with
    | took n => simp [Mark.bytes, hne]
    | _ => rfl
  | reset k _ ih => exact hlast ih (fun _ => rfl) htr hk
  | cleared _ ih => exact hlast ih (fun _ => rfl) htr hk

/-- A message without a body is out with its head. -/
theorem Run.body_ne_nil (h : Run tr ps) : ∀ e ∈ ps, e.headed = true → e.body ≠ [] := by
  induction h with
  | nil => simp
  | opened key body _ ih =>
    intro e he hh
    rcases List.mem_append.mp he with he | he
    · exact ih e he hh
    · rw [List.mem_singleton.mp he] at hh
      cases hh
  | @changed tr l r e m o _ hc ih =>
    intro x hx hh
    rcases List.mem_append.mp hx with hx | hx
    · exact ih x (List.mem_append_left _ hx) hh
    · rcases List.mem_append.mp hx with hx | hx
      · rw [Option.mem_toList] at hx
        cases hc with
        | headed =>
          split at hx
          · cases hx
          · cases hx
            assumption
        | took n he =>
          split at hx
          · cases hx
            exact ih e (by simp) he
          · cases hx
        | refused => cases hx
      · exact ih x (by simp [hx]) hh
  | reset key _ ih => exact fun x hx => ih x (List.mem_of_mem_filter hx)
  | cleared => simp

theorem Run.nodup (h : Run tr ps) (hn : (keys tr).Nodup) : (ps.map Entry.key).Nodup := by
  induction h with
  | nil => simp
  | @opened tr ps key body hr ih =>
    rw [keys_append, List.nodup_append] at hn
    rw [List.map_append, List.nodup_append]
    refine ⟨ih hn.1, by simp, ?_⟩
    intro a ha b hb
    obtain ⟨e, he, rfl⟩ := List.mem_map.mp ha
    exact hn.2.2 _ (hr.key_mem e he) _ (by simpa [keys, Mark.opens?] using hb)
  | @changed tr l r e m o _ hc ih =>
    rw [keys_append, hc.opens, List.append_nil] at hn
    refine List.Nodup.sublist ?_ (ih hn)
    cases o with
    | none => exact List.Sublist.map _ (by simp)
    | some e' => simp [hc.key]
  | reset key _ ih =>
    rw [keys_append, show keys [.reset key] = [] from rfl, List.append_nil] at hn
    exact List.Nodup.sublist (List.filter_sublist.map _) (ih hn)
  | cleared => simp

end

/-- What the marks since the message of `key` was opened say of it. -/
structure Stands (key : ℕ) (body : List UInt8) (since : List Mark) (ps : List Entry) : Prop where
  entry : ∀ e ∈ ps, e.key = key → e.body = body ∧ (e.headed = true ↔ .headed key ∈ since) ∧
    e.off = (taken key since).length ∧ (body = [] ∨ e.off < body.length)
  beginning : taken key since <+: body
  present : (∃ e ∈ ps, e.key = key) ↔ (∀ m ∈ since, m.ends key = false) ∧
    ¬ (.headed key ∈ since ∧ taken key since = body)
  once : since.count (.headed key) ≤ 1
  first : ∀ before b after, since = before ++ .took key b :: after → .headed key ∈ before

namespace Stands

variable {key : ℕ} {body : List UInt8} {since : List Mark} {ps ps' : List Entry} {m : Mark}

theorem congr (h : Stands key body since ps) (hp : ∀ e, e.key = key → (e ∈ ps' ↔ e ∈ ps)) :
    Stands key body since ps' where
  entry := fun e he hk => h.entry e ((hp e hk).mp he) hk
  beginning := h.beginning
  present := by
    rw [← h.present]
    exact ⟨fun ⟨e, he, hk⟩ => ⟨e, (hp e hk).mp he, hk⟩, fun ⟨e, he, hk⟩ => ⟨e, (hp e hk).mpr he, hk⟩⟩
  once := h.once
  first := h.first

theorem opened (key : ℕ) (body : List UInt8) : Stands key body [] [⟨key, false, body, 0⟩] where
  entry := by
    simp only [List.mem_singleton, forall_eq, Outbox.taken]
    simp
    exact Or.imp_right List.length_pos_iff.mpr (em _)
  beginning := List.nil_prefix
  present := by simp
  once := by simp
  first := by simp

theorem forall_ends_append :
    (∀ x ∈ since ++ [m], x.ends key = false) ↔
      (∀ x ∈ since, x.ends key = false) ∧ m.ends key = false := by
  rw [List.forall_mem_append, List.forall_mem_singleton]

/-- Where the first mark of a body byte can stand after one more mark. -/
theorem first_append (h : Stands key body since ps) (ht : ∀ b, m = .took key b → .headed key ∈ since)
    (before : List Mark) (b : List UInt8) (after : List Mark)
    (hs : since ++ [m] = before ++ .took key b :: after) : .headed key ∈ before := by
  rcases List.eq_nil_or_concat after with rfl | ⟨after, x, rfl⟩
  · have hm : m = .took key b := by simpa using List.append_inj_right' hs rfl
    exact List.append_inj_left' hs rfl ▸ ht b hm
  · rw [List.concat_eq_append, ← List.cons_append, ← List.append_assoc] at hs
    exact h.first before b after (List.append_inj_left' hs rfl)

/-- A mark that is not about the message. -/
theorem skip (h : Stands key body since ps) (hb : m.bytes key = []) (he : m.ends key = false)
    (hh : m ≠ .headed key) (ht : ∀ b, m ≠ .took key b) : Stands key body (since ++ [m]) ps where
  entry := by
    intro e hm hk
    have := h.entry e hm hk
    simpa [hb, hh.symm] using this
  beginning := by simpa [hb] using h.beginning
  present := by
    rw [h.present, forall_ends_append]
    simp [hb, hh.symm, he]
  once := by simpa [List.count_singleton, hh] using h.once
  first := h.first_append (fun b hm => absurd hm (ht b))

/-- The message is given up. -/
theorem ended (h : Stands key body since ps) (he : m.ends key) (hp : ∀ e ∈ ps', e.key ≠ key) :
    Stands key body (since ++ [m]) ps' where
  entry := fun e hm hk => absurd hk (hp e hm)
  beginning := by
    have hb : m.bytes key = [] := by cases m <;> first | rfl | cases he
    simpa [hb] using h.beginning
  present := by
    refine iff_of_false (fun ⟨e, hm, hk⟩ => hp e hm hk) ?_
    rw [forall_ends_append, he]
    simp
  once := by
    have hh : m ≠ .headed key := by rintro rfl; cases he
    simpa [List.count_singleton, hh] using h.once
  first := h.first_append (by rintro b rfl; cases he)

variable {e : Entry}

theorem headed (h : Stands key body since [e]) (hk : e.key = key) (hh : e.headed = false) :
    Stands key body (since ++ [.headed key])
      (if e.body = [] then none else some { e with headed := true } : Option Entry).toList := by
  obtain ⟨hbody, hhead, hoff, hlt⟩ := h.entry e (by simp) hk
  have hnot : .headed key ∉ since := fun hm => by rw [hhead.mpr hm] at hh; cases hh
  have hp := (h.present.mp ⟨e, by simp, hk⟩).1
  have htaken : taken key (since ++ [.headed key]) = taken key since := by simp [Mark.bytes]
  constructor
  · intro x hx hxk
    split at hx
    · simp at hx
    · obtain rfl : x = { e with headed := true } := by simpa using hx
      exact ⟨hbody, by simp, by rw [htaken]; exact hoff, hlt⟩
  · rw [htaken]
    exact h.beginning
  · rw [htaken, forall_ends_append]
    split
    · rename_i hnil
      refine iff_of_false (by simp) ?_
      have hb : taken key since = body := by
        have := h.beginning
        rw [← hbody, hnil, List.prefix_nil] at this
        rw [this, ← hbody, hnil]
      simp [hb]
    · rename_i hne
      refine iff_of_true ⟨{ e with headed := true }, by simp, hk⟩ ⟨⟨hp, rfl⟩, fun hb => ?_⟩
      rw [hbody] at hne
      have := hlt.resolve_left hne
      rw [hoff, hb.2] at this
      exact Nat.lt_irrefl _ this
  · rw [List.count_append, List.count_eq_zero.mpr hnot]
    simp
  · exact h.first_append (by simp)

theorem took (h : Stands key body since [e]) (hk : e.key = key) (hh : e.headed = true) (n : ℕ) :
    Stands key body (since ++ [.took key ((e.body.drop e.off).take n)])
      (if e.off + n < e.body.length then some { e with off := e.off + n } else none :
        Option Entry).toList := by
  obtain ⟨hbody, hhead, hoff, hlt⟩ := h.entry e (by simp) hk
  have hmem : .headed key ∈ since := hhead.mp hh
  have hp := (h.present.mp ⟨e, by simp, hk⟩).1
  have htake : taken key since = body.take e.off := by
    rw [hoff]
    exact List.prefix_iff_eq_take.mp h.beginning
  have htaken : taken key (since ++ [.took key ((e.body.drop e.off).take n)]) =
      body.take (e.off + n) := by
    rw [taken_append, taken_singleton, htake, List.take_add, hbody]
    simp [Mark.bytes]
  constructor
  · intro x hx hxk
    split at hx
    · obtain rfl : x = { e with off := e.off + n } := by simpa using hx
      refine ⟨hbody, by simp [hh, hmem], ?_, .inr (hbody ▸ ‹_›)⟩
      rw [htaken, List.length_take, ← hbody]
      dsimp only
      omega
    · simp at hx
  · rw [htaken]
    exact List.take_prefix _ _
  · rw [htaken, forall_ends_append]
    split
    · rename_i hlt
      refine iff_of_true ⟨{ e with off := e.off + n }, by simp, hk⟩ ⟨⟨hp, rfl⟩, fun hb => ?_⟩
      have := congrArg List.length hb.2
      rw [List.length_take, ← hbody] at this
      omega
    · rename_i hle
      refine iff_of_false (by simp) fun hb => hb.2 ⟨by simp [hmem], ?_⟩
      exact List.take_of_length_le (by rw [← hbody]; omega)
  · simpa [List.count_singleton] using h.once
  · exact h.first_append (fun _ _ => hmem)

end Stands

/-- A try to send an entry of the list on, when it is the only one of its key. -/
theorem Stands.changed {key : ℕ} {body : List UInt8} {since : List Mark} {l r : List Entry}
    {e : Entry} {m : Mark} {o : Option Entry} (h : Stands key body since (l ++ e :: r))
    (hc : Change e m o) (hn : ((l ++ e :: r).map Entry.key).Nodup) :
    Stands key body (since ++ [m]) (l ++ (o.toList ++ r)) := by
  by_cases hk : e.key = key
  · have hothers : ∀ x ∈ l ++ r, x.key ≠ key := by
      have hn' := (List.perm_middle.map Entry.key).nodup_iff.mp hn
      intro x hx hxk
      exact (List.nodup_cons.mp hn').1 (List.mem_map.mpr ⟨x, hx, hxk.trans hk.symm⟩)
    have hone : Stands key body since [e] := h.congr fun x hx => by
      have := hothers x
      simp only [List.mem_append, List.mem_cons] at this ⊢
      tauto
    have hstep : Stands key body (since ++ [m]) o.toList := by
      subst hk
      cases hc with
      | headed hh => exact hone.headed rfl hh
      | took n hh => exact hone.took rfl hh n
      | refused => exact hone.ended (by simp [Mark.ends]) (by simp)
    refine hstep.congr fun x hx => ?_
    have := hothers x
    simp only [List.mem_append] at this ⊢
    tauto
  · have hskip : Stands key body (since ++ [m]) (l ++ e :: r) := by
      cases hc with
      | headed hh => exact h.skip rfl rfl (by simpa using hk) (by simp)
      | took n hh => exact h.skip (by simp [Mark.bytes, hk]) rfl (by simp) (by simp [hk])
      | refused => exact h.skip rfl (by simp [Mark.ends, hk]) (by simp) (by simp)
    refine hskip.congr fun x hx => ?_
    have hxe : x ≠ e := fun hxe => hk (hxe ▸ hx)
    have hxo : x ∉ o.toList := by
      intro ho
      rw [Option.mem_toList] at ho
      exact hk ((Change.key (ho ▸ hc)).symm.trans hx)
    simp only [List.mem_append, List.mem_cons]
    tauto

/-- The last mark is the opening of a message, or there was one mark less since. -/
theorem append_eq_opened {tr pre since : List Mark} {m : Mark} {key : ℕ} {body : List UInt8}
    (h : tr ++ [m] = pre ++ .opened key body :: since) :
    (m = .opened key body ∧ tr = pre ∧ since = []) ∨
      ∃ since', since = since' ++ [m] ∧ tr = pre ++ .opened key body :: since' := by
  rcases List.eq_nil_or_concat since with rfl | ⟨since, x, rfl⟩
  · obtain ⟨rfl, hm⟩ := List.append_inj' h rfl
    exact .inl ⟨by simpa using hm, rfl, rfl⟩
  · rw [List.concat_eq_append, ← List.cons_append, ← List.append_assoc] at h
    obtain ⟨rfl, hm⟩ := List.append_inj' h rfl
    obtain rfl : m = x := by simpa using hm
    exact .inr ⟨since, List.concat_eq_append, rfl⟩

/-- The marks since a message was opened say what has become of it. -/
theorem Run.stands {tr : List Mark} {ps : List Entry} (h : Run tr ps) (hn : (keys tr).Nodup)
    {pre since : List Mark} {key : ℕ} {body : List UInt8}
    (htr : tr = pre ++ .opened key body :: since) : Stands key body since ps := by
  induction h generalizing since with
  | nil => simp at htr
  | @opened tr ps k b hr ih =>
    rw [keys_append, List.nodup_append] at hn
    have hk : ∀ k' ∈ keys tr, k' ≠ k := fun k' hk' => hn.2.2 k' hk' k (by simp [keys, Mark.opens?])
    rcases append_eq_opened htr with ⟨hm, rfl, rfl⟩ | ⟨since, rfl, rfl⟩
    · obtain ⟨rfl, rfl⟩ : k = key ∧ b = body := by simpa using hm
      refine (Stands.opened k b).congr fun e he => ?_
      have hfresh : e ∉ ps := fun hm => hk e.key (hr.key_mem e hm) he
      simp [hfresh]
    · have hskip := (ih hn.1 rfl).skip (m := .opened k b) rfl rfl (by simp) (by simp)
      refine hskip.congr fun e he => ?_
      have hne : e ≠ ⟨k, false, b, 0⟩ := by
        rintro rfl
        exact hk key (by simp [keys, Mark.opens?]) he.symm
      simp [hne]
  | @changed tr l r e m o hr hc ih =>
    rw [keys_append, hc.opens, List.append_nil] at hn
    rcases append_eq_opened htr with ⟨rfl, -, -⟩ | ⟨since, rfl, rfl⟩
    · cases hc.opens
    · exact (ih hn rfl).changed hc (hr.nodup hn)
  | @reset tr ps k hr ih =>
    rw [keys_append, show keys [.reset k] = [] from rfl, List.append_nil] at hn
    rcases append_eq_opened htr with ⟨hm, -, -⟩ | ⟨since, rfl, rfl⟩
    · cases hm
    · by_cases hk : k = key
      · refine (ih hn rfl).ended (by simp [Mark.ends, hk]) fun e he => ?_
        simpa [hk] using List.of_mem_filter he
      · have hskip := (ih hn rfl).skip (m := .reset k) rfl (by simp [Mark.ends, hk]) (by simp)
          (by simp)
        refine hskip.congr fun e he => ?_
        simp [he, Ne.symm hk]
  | cleared hr ih =>
    rw [keys_append, show keys [.cleared] = [] from rfl, List.append_nil] at hn
    rcases append_eq_opened htr with ⟨hm, -, -⟩ | ⟨since, rfl, rfl⟩
    · cases hm
    · exact (ih hn rfl).ended rfl (by simp)

end Http3Bench.Outbox
