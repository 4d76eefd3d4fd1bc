import Http3Bench.Limiter
import Http3Bench.Pacing

/-!
# A worker and its limiter

The `limiterTake` of a platform stands for `Limiter::take` of the job's limiter, which the workers share.
On the platform `limited` it is: between two calls of this worker the others make theirs, and the clock
is read under the mutex. What a tick of BenchMultiplex sends is then paid for in tokens.
-/

namespace Http3Bench

namespace Limiter

variable {n : ℕ} {l l' l'' : Limiter} {k k' : ℕ} {t : ℚ}

/-- From `l` to `l'`, by calls of size `n`, at least `k` tokens were taken. -/
structure Pays (n : ℕ) (l l' : Limiter) (k : ℕ) : Prop where
  rate : l'.rate = l.rate
  since : l.since ≤ l'.since
  level : k + l'.level ≤ l.level + (l'.since - l.since) * l.rate
  bounded : l.Bounded n → l'.Bounded n

theorem Pays.refl (n : ℕ) (l : Limiter) : l.Pays n l 0 where
  rate := rfl
  since := le_rfl
  level := by simp
  bounded := id

theorem Pays.trans (h : l.Pays n l' k) (h' : l'.Pays n l'' k') : l.Pays n l'' (k + k') where
  rate := h'.rate.trans h.rate
  since := h.since.trans h'.since
  level := by
    have hfirst := h.level
    have hsecond := h'.level
    rw [h.rate] at hsecond
    push_cast
    linarith
  bounded := h'.bounded ∘ h.bounded

theorem Pays.mono (h : l.Pays n l' k) (hk : k' ≤ k) : l.Pays n l' k' where
  rate := h.rate
  since := h.since
  level := by
    have hcast : (k' : ℚ) ≤ k := Nat.cast_le.mpr hk
    linarith [h.level]
  bounded := h.bounded

theorem pays_take (h : l.since ≤ t) :
    l.Pays n (l.take n t).2 (if (l.take n t).1 = none then n else 0) where
  rate := rate_take l n t
  since := by rwa [since_take]
  level := by
    rw [since_take, add_comm]
    exact level_take h
  bounded := fun hb => hb.take t

/-- No more is taken than a full bucket and what the time brings in. -/
theorem Pays.le (h : l.Pays n l' k) (hb : l.Bounded n) :
    (k : ℚ) ≤ max l.rate n + (l'.since - l.since) * l.rate := by
  have hnonneg := (h.bounded hb).level_nonneg
  linarith [h.level, hb.level_le]

end Limiter

/-- The kernel of a worker with the limiter of its job, at `clock`, of which the worker has not been told
the last `unread`; both in nanoseconds. -/
structure Bucket (Os : Type) where
  os : Os
  clock : ℕ
  unread : Duration
  limiter : Limiter
  since_le : limiter.since ≤ (clock : ℚ) / 10 ^ 9

namespace Bucket

variable {Os β : Type} (o : Bucket Os)

/-- A call that has nothing to do with the limiter. -/
def call (f : Os → β × Os) (o : Bucket Os) : β × Bucket Os := ((f o.os).1, { o with os := (f o.os).2 })

def advance (d : Duration) : Bucket Os :=
  { o with
    clock := o.clock + d
    unread := o.unread + d
    since_le := by
      refine o.since_le.trans (div_le_div_of_nonneg_right ?_ (by norm_num))
      exact_mod_cast Nat.le_add_right _ _ }

/-- `Limiter::take`, after the clock was read. -/
def take (n : ℕ) : Option ℚ × Bucket Os :=
  ((o.limiter.take n (o.clock / 10 ^ 9)).1,
    { o with
      limiter := (o.limiter.take n (o.clock / 10 ^ 9)).2
      since_le := by simp })

/-- The calls of other workers, each so long after the one before. -/
def others (n : ℕ) (waits : List Duration) : Bucket Os :=
  waits.foldl (fun o d => ((o.advance d).take n).2) o

theorem pays_take (n : ℕ) :
    o.limiter.Pays n (o.take n).2.limiter (if (o.take n).1 = none then n else 0) :=
  Limiter.pays_take o.since_le

theorem pays_others (n : ℕ) (waits : List Duration) :
    o.limiter.Pays n (o.others n waits).limiter 0 := by
  induction waits generalizing o with
  | nil => exact .refl n o.limiter
  | cons d waits ih =>
    have hfirst : o.limiter.Pays n ((o.advance d).take n).2.limiter 0 :=
      ((o.advance d).pays_take n).mono (Nat.zero_le _)
    exact hfirst.trans (ih _)

end Bucket

/-- `Duration::from_secs_f64`. -/
def fromSecs (secs : ℚ) : Duration := (round (secs * 10 ^ 9)).toNat

/-- The platform with a limiter; `waits` are the times between the calls that other workers make before
the worker's own. -/
def Platform.limited (P : Platform) (waits : P.Os → List Duration) : Platform :=
  { P with
    Os := Bucket P.Os
    elapsed := fun o =>
      let e := P.elapsed o.os
      (o.unread + e.1, { o.advance e.1 with
        os := e.2
        unread := 0 })
    poll := fun wakeup => Bucket.call (P.poll wakeup)
    bind := fun addr => Bucket.call (P.bind addr)
    connect := fun sock peer => Bucket.call (P.connect sock peer)
    localAddr := fun sock => Bucket.call (P.localAddr sock)
    register := fun sock idx => Bucket.call (P.register sock idx)
    deregister := fun sock o => { o with os := P.deregister sock o.os }
    recvAll := fun sock => Bucket.call (P.recvAll sock)
    sendAnswers := fun sock => Bucket.call (P.sendAnswers sock)
    limiterTake := fun n o =>
      let e := P.elapsed o.os
      let a := (({ o with os := e.2 } : Bucket P.Os).others n (waits o.os)).advance e.1 |>.take n
      (a.1.map fromSecs, a.2)
    quicheConnect := fun name addr peer => Bucket.call (P.quicheConnect name addr peer) }

variable {P : Platform} {waits : P.Os → List Duration}

theorem pays_limiterTake (n : ℕ) (o : (P.limited waits).Os) :
    o.limiter.Pays n ((P.limited waits).limiterTake n o).2.limiter
      (if ((P.limited waits).limiterTake n o).1 = none then n else 0) := by
  have hothers := Bucket.pays_others { o with os := (P.elapsed o.os).2 } n (waits o.os)
  have hown := (Bucket.advance
    (Bucket.others { o with os := (P.elapsed o.os).2 } n (waits o.os)) (P.elapsed o.os).1).pays_take n
  have h := hothers.trans hown
  rw [Nat.zero_add] at h
  refine h.mono (le_of_eq ?_)
  simp only [Platform.limited, Option.map_eq_none_iff]

/-! ### A tick of BenchMultiplex -/

section

variable {P : Platform} {w : Worker P}

theorem ends_unwrapSlot_same (i : ℕ) :
    Ends (unwrapSlot i) w (fun _ w' => w' = w) (fun _ _ => True) := by
  simp only [unwrapSlot, slotAt, ends_bind, ends_get]
  cases w.slots[i]? with
  | none => trivial
  | some s =>
    cases s with
    | none => trivial
    | some c => rfl

theorem os_sendRequest (i : ℕ) (body : Body) :
    Ends (sendRequest i .rate body) w (fun _ w' => w'.os = w.os) (fun _ _ => True) := by
  simp only [sendRequest, trySend, ends_bind]
  refine (ends_unwrapSlot_same i).mono ?_
  rintro c _ rfl
  simp only [ne_eq, not_true_eq_false, false_and, if_false, ends_bind]
  refine (ends_unwrapSlot_same i).mono ?_
  rintro c _ rfl
  simp only [ends_get, ends_set, ends_pure]
  split <;> simp [Worker.afterSend_eq]

/-- A batch sends as many requests as it has at most, and does nothing else outside the worker. -/
theorem os_rateBatch (job : RateJob) (i k sent : ℕ) :
    Ends (rateBatch job i k sent) w (fun m w' => w'.os = w.os ∧ sent ≤ m ∧ m ≤ sent + k)
      (fun _ _ => True) := by
  induction k generalizing w sent with
  | zero => exact ⟨rfl, le_rfl, le_rfl⟩
  | succ k ih =>
    simp only [rateBatch, ends_bind]
    refine (os_sendRequest i job.payload).mono (fun res w₁ h₁ => ?_)
    cases res with
    | error e => exact ⟨h₁, le_rfl, Nat.le_add_right _ _⟩
    | ok u =>
      simp only [ends_bind]
      refine (ends_unwrapSlot_same i).mono ?_
      rintro c _ rfl
      simp only [ends_modify]
      refine (ih (sent + 1)).mono (fun m w₂ h₂ => ?_)
      exact ⟨h₂.1.trans h₁, by omega, by omega⟩

end

variable {w v : Worker (P.limited waits)} {job : RateJob} {r : RatePhase}

theorem pays_rateConns (hlimited : job.limited = true) (is : List ℕ) (sent : ℕ) :
    Ends (rateConns job is sent) w (fun m w' => ∃ k, m = sent + k ∧
      w.os.limiter.Pays job.batch w'.os.limiter k) (fun _ _ => True) := by
  induction is generalizing w sent with
  | nil => exact ⟨0, rfl, .refl _ _⟩
  | cons i rest ih =>
    simp only [rateConns, slotAt, ends_bind, ends_get]
    cases hs : w.slots[i]? with
    | none => trivial
    | some s =>
      cases s with
      | none => exact ih sent
      | some c =>
        simp only [ends_pure]
        split
        · exact ih sent
        · rw [ends_bind, limiterTake, if_pos hlimited, osCall, ends_modifyGet]
          have hpaid := pays_limiterTake job.batch w.os
          cases hres : ((P.limited waits).limiterTake job.batch w.os).1 with
          | some wait =>
            refine (ih sent).mono ?_
            rintro m w' ⟨k, rfl, hk⟩
            exact ⟨k, rfl, by simpa using (hpaid.mono (Nat.zero_le _)).trans hk⟩
          | none =>
            rw [hres, if_pos rfl] at hpaid
            simp only [ends_bind]
            refine (os_rateBatch job i job.batch sent).mono (fun m w₁ h₁ => ?_)
            refine (ih m).mono ?_
            rintro m' w₂ ⟨k, rfl, hk⟩
            rw [h₁.1] at hk
            exact ⟨m - sent + k, by omega, (hpaid.mono (by omega)).trans hk⟩

/-- What a tick sends is paid for: the limiter has lost as many tokens, those of other workers aside. They
are no more than a full bucket and what comes in until the tick is over. -/
theorem rateTick_paid (hp : w.phase = .rate r) (hlimited : r.job.limited = true)
    (hrun : rateTick w = .ok () v) :
    ∃ k, v.phase = .rate (r.addSent k) ∧ w.os.limiter.Pays r.job.batch v.os.limiter k ∧
      (w.os.limiter.Bounded r.job.batch → (k : ℚ) ≤ max w.os.limiter.rate r.job.batch +
        (v.os.limiter.since - w.os.limiter.since) * w.os.limiter.rate) := by
  have hends : Ends (rateTick : WorkerM (P.limited waits) Unit) w (fun _ v =>
      ∃ k, v.phase = .rate (r.addSent k) ∧ w.os.limiter.Pays r.job.batch v.os.limiter k)
      (fun _ _ => True) := by
    simp only [rateTick, ends_bind, ends_get, hp]
    rw [ends_iff]
    refine ⟨fun m w' hm => ?_, fun _ _ _ => trivial⟩
    obtain ⟨k, rfl, hk⟩ := (pays_rateConns hlimited r.conns 0).ok hm
    have hphase := ((tries_rateConns r.job r.conns 0).ok hm).phase
    refine ⟨k, ?_, hk⟩
    change w'.phase.addSent (0 + k) = _
    rw [hphase, hp, Nat.zero_add]
    rfl
  obtain ⟨k, hphase, hpaid⟩ := hends.ok hrun
  exact ⟨k, hphase, hpaid, hpaid.le⟩

end Http3Bench
