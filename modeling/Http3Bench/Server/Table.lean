import Http3Bench.Server.Script

/-!
# The connection table of the server

The map of connection ids and the ids the clients carry say the same, and the free list is the set of
the empty slots. Nothing that is done to a client in its slot touches its ids; a client that is
admitted brings ids nobody has, and one that is removed takes along its own.
-/

namespace Http3Bench.Server

variable {P : ServerPlatform}

namespace Client

/-- What the HTTP/3 side of a client leaves alone. -/
def key (c : Client P) : ℕ × List ConnectionId × Option Instant × Option Instant × Bool :=
  (c.sock, c.ids, c.deadline, c.scheduled, c.dirty)

theorem key_onEvent (c : Client P) (h : P.H3) (ev : ℕ × H3Event) : (c.onEvent h ev).key = c.key := by
  obtain ⟨sid, ev⟩ := ev
  cases ev with
  | headers list => rfl
  | data reads =>
    simp only [onEvent]
    split <;> rfl
  | finished =>
    simp only [onEvent]
    split <;> rfl
  | reset code => rfl
  | goAway => rfl
  | priorityUpdate => rfl

theorem key_polled (n : ℕ) (c : Client P) : (c.polled n).key = c.key := by
  induction n generalizing c with
  | zero => rfl
  | succ n ih =>
    unfold polled
    split
    · rfl
    · dsimp only
      split
      · rfl
      · exact (ih _).trans (key_onEvent _ _ _)

theorem key_setup (c : Client P) : c.setup.key = c.key := by
  unfold setup
  split <;> rfl

theorem key_resumed (c : Client P) : c.resumed.key = c.key := by
  unfold resumed
  split <;> rfl

theorem key_process (c : Client P) : c.process.key = c.key := by
  unfold process
  split
  · exact key_setup c
  · exact (key_resumed _).trans ((key_polled _ _).trans (key_setup c))

theorem key_sendLoop (c : Client P) (answers : List Bool) : (c.sendLoop answers).key = c.key := by
  induction answers generalizing c with
  | nil =>
    unfold sendLoop
    split <;> rfl
  | cons a rest ih =>
    unfold sendLoop
    split
    · cases a with
      | true => exact ih _
      | false => rfl
    · rfl
    · rfl

theorem ids_of_key {c c' : Client P} (h : c'.key = c.key) : c'.ids = c.ids :=
  congrArg (fun k => k.2.1) h

end Client

namespace Worker

variable {w w' : Worker P} {i k : ℕ} {c c' : Client P}

theorem client_eq_some_iff : w.client i = some c ↔ w.clients[i]? = some (some c) := by
  unfold client
  cases w.clients[i]? <;> simp

theorem lt_of_client (h : w.client i = some c) : i < w.clients.length := by
  rw [client_eq_some_iff] at h
  exact (List.getElem?_eq_some_iff.mp h).1

theorem client_set {s : Option (Client P)} (h : w'.clients = w.clients.set i s)
    (hi : i < w.clients.length) (k : ℕ) : w'.client k = if k = i then s else w.client k := by
  unfold client
  rw [h, List.getElem?_set]
  by_cases hk : k = i
  · subst hk
    simp [hi]
  · simp [hk, Ne.symm hk]

theorem client_append (h : w'.clients = w.clients ++ [none]) (k : ℕ) : w'.client k = w.client k := by
  unfold client
  rw [h]
  rcases Nat.lt_trichotomy k w.clients.length with hk | hk | hk
  · rw [List.getElem?_append_left hk]
  · subst hk
    simp
  · rw [List.getElem?_eq_none (by simp; omega), List.getElem?_eq_none (by omega)]

theorem empty_iff : w.clients[i]? = some none ↔ i < w.clients.length ∧ w.client i = none := by
  unfold client
  by_cases hi : i < w.clients.length
  · rw [List.getElem?_eq_getElem hi]
    simp [hi]
  · rw [List.getElem?_eq_none (by omega)]
    simp [hi]

/-- The ids of the map are those of the clients, and the free list is the set of the empty slots. -/
structure Table (w : Worker P) : Prop where
  owned : ∀ {id i}, w.ids.lookup id = some i → ∃ c, w.client i = some c ∧ id ∈ c.ids
  known : ∀ {i c}, w.client i = some c → ∀ id ∈ c.ids, w.ids.lookup id = some i
  nodup : w.free.Nodup
  free : ∀ i, i ∈ w.free ↔ i < w.clients.length ∧ w.client i = none

namespace Table

/-- A client changes in its slot and keeps its ids. -/
theorem replace (h : w.Table) (hc : w.client i = some c)
    (hs : w'.clients = w.clients.set i (some c')) (hkey : c'.ids = c.ids)
    (hids : w'.ids = w.ids) (hfree : w'.free = w.free) : w'.Table := by
  have hget := fun k => client_set hs (lt_of_client hc) k
  refine ⟨fun {id k} hk => ?_, fun {k c₁} hk id hid => ?_, hfree ▸ h.nodup, fun k => ?_⟩
  · rw [hids] at hk
    obtain ⟨c₁, hc₁, hid⟩ := h.owned hk
    by_cases hki : k = i
    · subst hki
      obtain rfl := Option.some.inj (hc.symm.trans hc₁)
      exact ⟨c', (hget k).trans (if_pos rfl), hkey ▸ hid⟩
    · exact ⟨c₁, ((hget k).trans (if_neg hki)).trans hc₁, hid⟩
  · rw [hget] at hk
    rw [hids]
    split at hk
    · rename_i hki
      obtain rfl := Option.some.inj hk
      rw [hki]
      exact h.known hc id (hkey ▸ hid)
    · exact h.known hk id hid
  · rw [hfree, h.free, hs, List.length_set, hget]
    split
    · rename_i hki
      simp [hki, hc]
    · rfl

theorem of_eq (h : w.Table) (hs : w'.clients = w.clients) (hids : w'.ids = w.ids)
    (hfree : w'.free = w.free) : w'.Table := by
  have hget : ∀ k, w'.client k = w.client k := fun k => by
    unfold client
    rw [hs]
  refine ⟨fun {id k} hk => ?_, fun {k c₁} hk id hid => ?_, hfree ▸ h.nodup, fun k => ?_⟩
  · rw [hget]
    exact h.owned (hids ▸ hk)
  · rw [hget] at hk
    rw [hids]
    exact h.known hk id hid
  · rw [hfree, h.free, hs, hget]

theorem putDirty (h : w.Table) (hc : w.client i = some c) (hkey : c'.ids = c.ids) :
    (w.putDirty i c').Table :=
  h.replace hc rfl hkey rfl rfl

theorem deliver (h : w.Table) (i s : ℕ) (sender : SocketAddr) (data : Body) :
    (w.deliver i s sender data).Table := by
  unfold Worker.deliver
  cases hc : w.client i with
  | none => exact h
  | some c => exact h.putDirty hc (Client.ids_of_key (Client.key_process _))

end Table

/-- The slot a new connection gets is empty, is there, and is free no more. -/
theorem Table.allocSlot (h : w.Table) :
    (∀ k, w.allocSlot.2.client k = w.client k) ∧ w.allocSlot.2.ids = w.ids ∧
      w.allocSlot.1 < w.allocSlot.2.clients.length ∧ w.client w.allocSlot.1 = none ∧
      w.allocSlot.2.free.Nodup ∧
      ∀ k, k ∈ w.allocSlot.2.free ↔ k ≠ w.allocSlot.1 ∧ k < w.allocSlot.2.clients.length ∧
        w.client k = none := by
  cases hf : w.free with
  | nil =>
    have hclient : w.client w.clients.length = none := by simp [client]
    simp only [Worker.allocSlot, hf]
    refine ⟨fun k => client_append rfl k, trivial, by simp, hclient, by simp, fun k => ?_⟩
    have hk := h.free k
    rw [hf] at hk
    simp only [List.not_mem_nil, false_iff, not_and] at hk
    simp only [List.not_mem_nil, List.length_append, List.length_singleton, false_iff, not_and]
    intro hne hlt
    exact hk (by omega)
  | cons i rest =>
    have hi := (h.free i).mp (by simp [hf])
    have hnodup := h.nodup
    rw [hf, List.nodup_cons] at hnodup
    simp only [Worker.allocSlot, hf]
    refine ⟨fun _ => rfl, trivial, hi.1, hi.2, hnodup.2, fun k => ?_⟩
    have hk := h.free k
    rw [hf, List.mem_cons] at hk
    constructor
    · intro hr
      exact ⟨fun hki => hnodup.1 (hki ▸ hr), hk.mp (.inr hr)⟩
    · intro hr
      exact (hk.mpr hr.2).resolve_left hr.1

/-- A client is admitted under ids that no other client has. -/
theorem Table.enrol (h : w.Table) (s : ℕ) {scid odcid : ConnectionId} (q : P.Q) (hs : scid ∉ w.ids)
    (ho : w.ids.lookup odcid = none) : (w.enrol s scid odcid q).2.Table := by
  obtain ⟨hclient, hids, hlt, hnone, hnodup, hfree⟩ := h.allocSlot
  have hget : ∀ k, (w.enrol s scid odcid q).2.client k = if k = w.allocSlot.1 then
      some { conn := q, sock := s, ids := [scid, odcid] } else w.allocSlot.2.client k :=
    fun k => client_set rfl hlt k
  have hlook : ∀ id, (w.enrol s scid odcid q).2.ids.lookup id =
      if id = odcid ∨ id = scid then some w.allocSlot.1 else w.ids.lookup id := by
    intro id
    simp only [Worker.enrol, hids]
    by_cases h₁ : id = odcid
    · rw [h₁, AList.lookup_insert, if_pos (.inl rfl)]
    · rw [AList.lookup_insert_ne h₁]
      by_cases h₂ : id = scid
      · rw [h₂, AList.lookup_insert, if_pos (.inr rfl)]
      · rw [AList.lookup_insert_ne h₂, if_neg (by simp [h₁, h₂])]
  refine ⟨fun {id k} hk => ?_, fun {k c} hk id hid => ?_, hnodup, fun k => ?_⟩
  · rw [hlook] at hk
    rw [hget, hclient]
    split at hk
    · obtain rfl := Option.some.inj hk
      rw [if_pos rfl]
      refine ⟨_, rfl, ?_⟩
      simp only [List.mem_cons, List.not_mem_nil, or_false]
      exact Or.symm ‹_›
    · obtain ⟨c, hc, hid⟩ := h.owned hk
      rw [if_neg (by rintro rfl; simp [hnone] at hc)]
      exact ⟨c, hc, hid⟩
  · rw [hget, hclient] at hk
    rw [hlook]
    split at hk
    · rename_i hki
      obtain rfl := Option.some.inj hk
      rw [if_pos (by simpa [or_comm] using hid), hki]
    · have hid' := h.known hk id hid
      rw [if_neg, hid']
      rintro (rfl | rfl)
      · simp [ho] at hid'
      · exact hs (AList.lookup_isSome.mp (by simp [hid']))
  · rw [hget, hclient]
    have hf := hfree k
    simp only [Worker.enrol, List.length_set]
    rw [hf]
    constructor
    · rintro ⟨h₁, h₂, h₃⟩
      exact ⟨h₂, by rw [if_neg h₁]; exact h₃⟩
    · rintro ⟨h₁, h₂⟩
      split at h₂
      · cases h₂
      · exact ⟨‹_›, h₁, h₂⟩

theorem lookup_dropIds (i : ℕ) (l : List ConnectionId) (ids : AList (fun _ : ConnectionId => ℕ))
    (id : ConnectionId) : (dropIds i ids l).lookup id =
      if id ∈ l ∧ ids.lookup id = some i then none else ids.lookup id := by
  induction l generalizing ids with
  | nil => simp [dropIds]
  | cons a rest ih =>
    rw [dropIds, ih]
    by_cases ha : ids.lookup a = some i
    · rw [if_pos ha]
      by_cases hid : id = a
      · subst hid
        simp [ha]
      · simp [AList.lookup_erase_ne hid, hid]
    · rw [if_neg ha]
      by_cases hid : id = a
      · subst hid
        simp [ha]
      · simp [hid]

/-- A client that leaves takes along the ids that are its own, and no others. -/
theorem Table.remove (h : w.Table) (i : ℕ) : (w.remove i).Table := by
  unfold Worker.remove
  cases hc : w.client i with
  | none => exact h
  | some c =>
    have hget : ∀ k, ({ w with
        clients := w.clients.set i none
        ids := dropIds i w.ids c.ids
        free := i :: w.free } : Worker P).client k = if k = i then none else w.client k :=
      fun k => client_set rfl (lt_of_client hc) k
    have hlook := lookup_dropIds i c.ids w.ids
    have hi : i ∉ w.free := fun hm => by simp [((h.free i).mp hm).2] at hc
    refine ⟨fun {id k} hk => ?_, fun {k c₁} hk id hid => ?_, List.nodup_cons.mpr ⟨hi, h.nodup⟩,
      fun k => ?_⟩
    · rw [hlook] at hk
      split at hk
      · cases hk
      · rename_i hno
        obtain ⟨c₁, hc₁, hid⟩ := h.owned hk
        have hki : k ≠ i := by
          rintro rfl
          obtain rfl := Option.some.inj (hc.symm.trans hc₁)
          exact hno ⟨hid, hk⟩
        exact ⟨c₁, ((hget k).trans (if_neg hki)).trans hc₁, hid⟩
    · rw [hget] at hk
      split at hk
      · cases hk
      · rename_i hki
        have hid' := h.known hk id hid
        rw [hlook, if_neg, hid']
        rintro ⟨_, hi'⟩
        exact hki (Option.some.inj (hid'.symm.trans hi'))
    · rw [hget, List.mem_cons, List.length_set, h.free]
      by_cases hki : k = i
      · simp [hki, lt_of_client hc]
      · simp [hki]

theorem Table.schedule (h : w.Table) (hc : w.client i = some c) : (w.schedule i c).Table := by
  unfold Worker.schedule
  split
  · exact h.replace hc rfl rfl rfl rfl
  · split
    · exact h.replace hc rfl rfl rfl rfl
    · exact h.replace hc rfl rfl rfl rfl

theorem Table.flush (h : w.Table) (i : ℕ) : (w.flush i).Table := by
  unfold Worker.flush
  cases hc : w.client i with
  | none => exact h
  | some c =>
    dsimp only
    have hsent : ({ w with
        clients := w.clients.set i (some ({ c with dirty := false }.sendLoop
          (P.sendAnswers c.sock w.os).1))
        os := (P.sendAnswers c.sock w.os).2 } : Worker P).Table :=
      h.replace hc rfl ((Client.ids_of_key (Client.key_sendLoop _ _)).trans rfl) rfl rfl
    split
    · exact hsent.remove i
    · exact hsent.schedule ((client_set rfl (lt_of_client hc) i).trans (if_pos rfl))

theorem Table.onDatagram (h : w.Table) (s : ℕ) (sender : SocketAddr) (data : Body)
    (hfresh : (P.fill w.os).1 ∉ w.ids) : (w.onDatagram s sender data).Table := by
  unfold Worker.onDatagram
  split
  · exact h
  · split
    · exact h.deliver _ _ _ _
    · rename_i hlook
      split
      · exact h
      · split
        · exact h.of_eq rfl rfl rfl
        · dsimp only
          split
          · exact h.of_eq rfl rfl rfl
          · rename_i q _
            have htable : ({ w with os := (P.accept (P.fill w.os).1 (w.localAddr s) sender
                (P.fill w.os).2).2 } : Worker P).Table := h.of_eq rfl rfl rfl
            exact (htable.enrol s q hfresh hlook).deliver _ _ _ _

theorem Step.table (hs : Step w w') (h : w.Table) : w'.Table := by
  cases hs with
  | datagram s sender data hfresh => exact h.onDatagram s sender data hfresh
  | flush =>
    unfold flushNext
    split
    · exact h
    · rename_i i rest _
      have h' : ({ w with dirty := rest } : Worker P).Table := h.of_eq rfl rfl rfl
      exact h'.flush i
  | fire now =>
    unfold fireNext
    split
    · exact h
    · split
      · exact h
      · rename_i t i rest ht _
        have hrest : ({ w with timers := rest } : Worker P).Table := h.of_eq rfl rfl rfl
        dsimp only
        split
        · exact hrest
        · split
          · exact hrest
          · rename_i c hc _
            exact hrest.putDirty (c := c) hc rfl
  | os o => exact h.of_eq rfl rfl rfl

theorem Reach.table (h : w.Reach) : w.Table := by
  obtain ⟨sockets, os, hrun⟩ := h
  induction hrun with
  | refl => exact ⟨fun hk => by simp [new] at hk, fun hk => by simp [new, client] at hk,
      List.nodup_nil, by simp [new]⟩
  | tail _ hs ih => exact hs.table ih

/-- A datagram changes a slot only if its connection owns the id it is sent to. -/
theorem Table.client_deliver (h : w.Table) (s : ℕ) (sender : SocketAddr) (data : Body)
    {id : ConnectionId} (hi : w.ids.lookup id = some i) (k : ℕ) :
    (w.deliver i s sender data).client k = w.client k ∨
      ∃ c, (w.deliver i s sender data).client k = some c ∧ id ∈ c.ids := by
  obtain ⟨c, hc, hid⟩ := h.owned hi
  unfold Worker.deliver
  rw [hc]
  simp only
  by_cases hk : k = i
  · right
    refine ⟨_, (client_set rfl (lt_of_client hc) k).trans (if_pos hk), ?_⟩
    exact (Client.ids_of_key (Client.key_process _)).symm ▸ hid
  · left
    exact (client_set rfl (lt_of_client hc) k).trans (if_neg hk)

theorem Table.client_accept (h : w.Table) (s : ℕ) (sender : SocketAddr) (data : Body)
    {scid odcid : ConnectionId} (q : P.Q) (hs : scid ∉ w.ids) (ho : w.ids.lookup odcid = none)
    (k : ℕ) :
    ((w.enrol s scid odcid q).2.deliver (w.enrol s scid odcid q).1 s sender data).client k =
        w.client k ∨
      ∃ c, ((w.enrol s scid odcid q).2.deliver (w.enrol s scid odcid q).1 s sender data).client k =
        some c ∧ odcid ∈ c.ids := by
  obtain ⟨hclient, _, hlt, _⟩ := h.allocSlot
  have hid : (w.enrol s scid odcid q).2.ids.lookup odcid = some (w.enrol s scid odcid q).1 :=
    AList.lookup_insert _
  rcases (h.enrol s q hs ho).client_deliver s sender data hid k with hk | hk
  · by_cases hki : k = w.allocSlot.1
    · exact .inr ⟨_, (hk.trans (client_set rfl hlt k)).trans (if_pos hki), by simp⟩
    · exact .inl (((hk.trans (client_set rfl hlt k)).trans (if_neg hki)).trans (hclient k))
  · exact .inr hk

theorem Table.client_onDatagram (h : w.Table) (s : ℕ) (sender : SocketAddr) (data : Body)
    {hdr : PacketHeader} (hd : P.header data = some hdr) (hfresh : (P.fill w.os).1 ∉ w.ids) (k : ℕ) :
    (w.onDatagram s sender data).client k = w.client k ∨
      ∃ c, (w.onDatagram s sender data).client k = some c ∧ hdr.dcid ∈ c.ids := by
  unfold Worker.onDatagram
  simp only [hd]
  split
  · exact h.client_deliver s sender data ‹_› k
  · rename_i hlook
    split
    · exact .inl rfl
    · split
      · exact .inl rfl
      · split
        · exact .inl rfl
        · rename_i q _
          have h₀ : ({ w with os := (P.accept (P.fill w.os).1 (w.localAddr s) sender
              (P.fill w.os).2).2 } : Worker P).Table := h.of_eq rfl rfl rfl
          exact h₀.client_accept s sender data q hfresh hlook k

/-- The connection table of every reachable state: ids and clients name each other, the free list is
the set of the empty slots; so a datagram is only given to the connection its id belongs to, and
removing one connection leaves the ids of the others. -/
theorem connection_table (h : w.Reach) :
    (∀ id i, w.ids.lookup id = some i → ∃ c, w.clients[i]? = some (some c) ∧ id ∈ c.ids) ∧
    (∀ i c, w.clients[i]? = some (some c) → ∀ id ∈ c.ids, w.ids.lookup id = some i) ∧
    w.free.Nodup ∧ (∀ i, i ∈ w.free ↔ w.clients[i]? = some none) ∧
    (∀ s sender data hdr, P.header data = some hdr → (P.fill w.os).1 ∉ w.ids → ∀ k,
      (w.onDatagram s sender data).client k = w.client k ∨
        ∃ c, (w.onDatagram s sender data).client k = some c ∧ hdr.dcid ∈ c.ids) ∧
    ∀ i k c, k ≠ i → w.clients[k]? = some (some c) → ∀ id ∈ c.ids,
      (w.remove i).ids.lookup id = some k := by
  have ht := h.table
  refine ⟨fun id i hi => ?_, fun i c hc => ht.known (client_eq_some_iff.mpr hc), ht.nodup, fun i => ?_,
    fun s sender data hdr hd hfresh => ht.client_onDatagram s sender data hd hfresh,
    fun i k c hk hc id hid => ?_⟩
  · obtain ⟨c, hc, hid⟩ := ht.owned hi
    exact ⟨c, client_eq_some_iff.mp hc, hid⟩
  · rw [empty_iff]
    exact ht.free i
  · have hkept : (w.remove i).client k = some c := by
      unfold Worker.remove
      cases hi : w.client i with
      | none => exact client_eq_some_iff.mpr hc
      | some c' =>
        exact ((client_set rfl (lt_of_client hi) k).trans (if_neg hk)).trans
          (client_eq_some_iff.mpr hc)
    exact (ht.remove i).known hkept id hid

/-- Two connections arrive, one of them leaves. -/
theorem connection_table_two : ∃ w : Worker (scripted (fun _ => [])), w.Reach ∧
    w.ids.lookup [7] = some 0 ∧ w.ids.lookup [8] = some 1 ∧ (w.remove 0).ids.lookup [8] = some 1 := by
  obtain ⟨w, hw, hp⟩ := exists_reach (P := scripted (fun _ => [])) (0 : ℕ) [[1, 7], [1, 8], [0, 7]]
    (fun w => w.ids.lookup [7] = some 0 ∧ w.ids.lookup [8] = some 1) (by decide +kernel)
  obtain ⟨h₀, h₁⟩ := of_decide_eq_true hp
  obtain ⟨c, hc, hid⟩ := (connection_table hw).1 [8] 1 h₁
  exact ⟨w, hw, h₀, h₁, (connection_table hw).2.2.2.2.2 0 1 c (by decide) hc [8] hid⟩

end Worker
end Http3Bench.Server
