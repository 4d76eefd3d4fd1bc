import Http3Bench.Server.Worker

/-!
# A server on a script

A platform on which every call succeeds and a datagram brings the events a script names for it, with
the runs of a worker on it.
-/

namespace Http3Bench.Server

/-- The first byte of a datagram says whether it is an `Initial`, the second is its destination id;
the ids the server draws start at 200. -/
def scripted (events : Body → List (ℕ × H3Event)) : ServerPlatform where
  Os := ℕ
  Q := List (ℕ × H3Event)
  H3 := Unit
  sendAnswers := fun _ o => ([], o)
  sendTo := fun _ _ o => o
  fill := fun o => ([UInt8.ofNat (200 + o)], o + 1)
  header := fun
    | kind :: dcid :: _ => some ⟨kind = 1, 1, [dcid], []⟩
    | _ => none
  versionIsSupported := fun _ => true
  accept := fun _ _ _ o => (some [], o)
  recv := fun _ _ data q => q ++ events (data.drop 2)
  send := fun q => (.done, q)
  close := fun q => q
  onTimeout := fun q => q
  isClosed := fun _ => false
  isEstablished := fun _ => true
  isInEarlyData := fun _ => false
  timeoutInstant := fun _ => none
  withTransport := fun q => (some (), q)
  ready := fun _ q => q.length
  poll := fun _ q => (q.head?, (), q.tail)
  sendResponse := fun _ _ _ _ q => (.ok (), (), q)
  sendBody := fun _ body _ _ q => (.ok body.length, (), q)

variable {P : ServerPlatform}

namespace Worker

/-- The worker after one datagram on its first socket, if the id that is drawn is new. -/
def take (w : Worker P) (data : Body) : Option (Worker P) :=
  if (w.ids.lookup (P.fill w.os).1).isNone then some (w.onDatagram 0 ⟨true, ""⟩ data) else none

def takes : List Body → Worker P → Option (Worker P)
  | [], w => some w
  | data :: rest, w => (w.take data).bind (takes rest)

/-- A run that is evaluated to a worker with the property `p`. -/
theorem exists_reach (os : P.Os) (l : List Body) (p : Worker P → Bool)
    (h : ((new [] os).takes l).any p) : ∃ w : Worker P, w.Reach ∧ p w := by
  have key : ∀ l (w w' : Worker P), w.Reach → w.takes l = some w' → w'.Reach := by
    intro l
    induction l with
    | nil => intro w w' hw h; exact Option.some.inj h ▸ hw
    | cons data rest ih =>
      intro w w' hw h
      obtain ⟨w₁, h₁, hrest⟩ := Option.bind_eq_some_iff.mp h
      unfold take at h₁
      split at h₁
      · rename_i hfresh
        obtain ⟨sockets, os, hrun⟩ := hw
        refine ih w₁ w' ⟨sockets, os, Option.some.inj h₁ ▸ hrun.tail (.datagram _ _ _ ?_)⟩ hrest
        rw [← AList.lookup_eq_none]
        exact Option.isNone_iff_eq_none.mp hfresh
      · cases h₁
  cases hl : (new [] os).takes l with
  | none => simp [hl] at h
  | some w => exact ⟨w, key l _ w ⟨[], os, .refl⟩ hl, by simpa [hl] using h⟩

end Worker
end Http3Bench.Server
