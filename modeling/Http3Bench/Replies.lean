import Http3Bench.Streams
import Http3Bench.Quiche

/-!
# Requests and the events that end them

Reading a connection leaves each of its streams with the request it had, however much of the response
has come in, or ends the request with an event. Quiche numbers the streams upwards, so a request that
is sent takes no other request's place; and a connection that has got as far as HTTP/3 is closed by
what it receives or by its timers, never by the calls that read it.
-/

namespace Http3Bench

/-- The request is the same, its response may have gone on. -/
def Req.Same (r₀ r : Req) : Prop := r.kind = r₀.kind ∧ r.expect = r₀.expect

theorem Req.Same.refl (r : Req) : Same r r := ⟨rfl, rfl⟩

theorem Req.Same.trans {r₀ r₁ r₂ : Req} (h : Same r₀ r₁) (h' : Same r₁ r₂) : Same r₀ r₂ :=
  ⟨h'.1.trans h.1, h'.2.trans h.2⟩

theorem Req.same_readHeaders (list : List Header) (r : Req) : Same r (r.readHeaders list) := by
  unfold Req.readHeaders
  induction list generalizing r with
  | nil => exact .refl r
  | cons h rest ih =>
    rw [List.foldl_cons]
    refine .trans ?_ (ih _)
    split <;> exact ⟨rfl, rfl⟩

theorem Req.same_readBodies (check : Bool) (reads : List Body) (r : Req) :
    Same r (reads.foldl (Req.readBody check) r) := by
  induction reads generalizing r with
  | nil => exact .refl r
  | cons b rest ih =>
    rw [List.foldl_cons]
    exact .trans ⟨rfl, rfl⟩ (ih _)

variable {P : Platform}

namespace Conn

/-- Every request of `c'` is one of `c`, on the stream it was on. -/
def Within (c c' : Conn P) : Prop :=
  ∀ sid r, c'.streams.lookup sid = some r → ∃ r₀, c.streams.lookup sid = some r₀ ∧ r₀.Same r

variable {c c' c'' : Conn P} {check : Bool}

theorem Within.refl (c : Conn P) : Within c c := fun _ r h => ⟨r, h, .refl r⟩

theorem Within.trans (h : Within c c') (h' : Within c' c'') : Within c c'' := by
  intro sid r hr
  obtain ⟨r₁, h₁, hs₁⟩ := h' sid r hr
  obtain ⟨r₀, h₀, hs₀⟩ := h sid r₁ h₁
  exact ⟨r₀, h₀, hs₀.trans hs₁⟩

theorem within_updateReq (c : Conn P) (sid : ℕ) {f : Req → Req} (hf : ∀ r : Req, r.Same (f r)) :
    Within c (c.updateReq sid f) := by
  intro s r hr
  rw [lookup_updateReq] at hr
  split at hr
  · obtain ⟨r₀, h₀, rfl⟩ := Option.map_eq_some_iff.mp hr
    exact ⟨r₀, h₀, hf r₀⟩
  · exact ⟨r, hr, .refl r⟩

theorem within_erase {streams : AList (fun _ : ℕ => Req)} {sid : ℕ} (hs : streams = c.streams.erase sid)
    (hc : c'.streams = streams) : Within c c' := by
  intro s r hr
  rw [hc, hs, lookup_erase] at hr
  split at hr
  · cases hr
  · exact ⟨r, hr, .refl r⟩

/-- What an event of a connection says of its requests. -/
inductive Reply (c : Conn P) : ConnEvent → Prop
  | finished {sid : ℕ} {r₀ r : Req} : c.streams.lookup sid = some r₀ → r₀.Same r →
      Reply c (.response r.kind r.result .finished)
  | reset (kind : ReqKind) (code : ℕ) :
      Reply c (.response kind (.error ("stream reset: " ++ hex code)) .reset)
  | failed (kind : ReqKind) (reason : String) :
      Reply c (.response kind (.error ("connection closed: " ++ reason)) .closed)
  | established : Reply c .established
  | closed (reason : String) : Reply c (.closed reason)

theorem Reply.within (h : Within c c') {ev : ConnEvent} (hr : Reply c' ev) : Reply c ev := by
  cases hr with
  | @finished sid r₀ r hl hs =>
    obtain ⟨r₁, h₁, hs₁⟩ := h sid r₀ hl
    exact .finished h₁ (hs₁.trans hs)
  | reset kind code => exact .reset kind code
  | failed kind reason => exact .failed kind reason
  | established => exact .established
  | closed reason => exact .closed reason

theorem within_onEvent (check : Bool) (c : Conn P) (ev : ℕ × H3Event) :
    Within c (c.onEvent check ev).1 ∧ ∀ e ∈ (c.onEvent check ev).2, Reply c e := by
  obtain ⟨sid, ev⟩ := ev
  cases ev with
  | headers list => exact ⟨within_updateReq c sid (Req.same_readHeaders list), by simp [onEvent]⟩
  | data reads => exact ⟨within_updateReq c sid (Req.same_readBodies check reads), by simp [onEvent]⟩
  | finished =>
    unfold onEvent
    dsimp only
    split
    · rename_i r hr
      refine ⟨within_erase rfl rfl, fun e he => ?_⟩
      rw [List.mem_singleton.mp he]
      exact .finished hr (.refl r)
    · exact ⟨.refl c, by simp⟩
  | reset code =>
    unfold onEvent
    dsimp only
    split
    · refine ⟨within_erase rfl rfl, fun e he => ?_⟩
      rw [List.mem_singleton.mp he]
      exact .reset _ code
    · exact ⟨fun s r hr => ⟨r, hr, .refl r⟩, by simp⟩
  | goAway => exact ⟨fun s r hr => ⟨r, hr, .refl r⟩, by simp [onEvent]⟩
  | priorityUpdate => exact ⟨.refl c, by simp [onEvent]⟩

theorem within_onEvents (check : Bool) (c : Conn P) (evs : List (ℕ × H3Event)) :
    Within c (c.onEvents check evs).1 ∧ ∀ e ∈ (c.onEvents check evs).2, Reply c e := by
  induction evs generalizing c with
  | nil => exact ⟨.refl c, by simp [onEvents]⟩
  | cons ev rest ih =>
    have hev := within_onEvent check c ev
    have hrest := ih (c.onEvent check ev).1
    refine ⟨hev.1.trans hrest.1, fun e he => ?_⟩
    rcases List.mem_append.mp he with he | he
    · exact hev.2 e he
    · exact (hrest.2 e he).within hev.1

theorem reply_failStreams (c c' : Conn P) (reason : String) :
    ∀ e ∈ (c'.failStreams reason).2, Reply c e := by
  intro e he
  rcases List.mem_append.mp he with he | he <;> obtain ⟨_, _, rfl⟩ := List.mem_map.mp he <;>
    exact .failed _ reason

theorem reply_shut (c c' : Conn P) (reason : String) : ∀ e ∈ (c'.shut reason).2, Reply c e := by
  intro e he
  rcases List.mem_append.mp he with he | he
  · exact reply_failStreams c c' reason e he
  · rw [List.mem_singleton.mp he]
    exact .closed reason

theorem within_polled (check : Bool) (h : P.H3) (c : Conn P) :
    Within c (c.resumed check h) ∧ ∀ e ∈ (c.polled check h).2, Reply c e := by
  have hp := within_onEvents check
    ({ c with h3 := some (P.pollAll h c.q).2.1, q := (P.pollAll h c.q).2.2 } : Conn P)
    (P.pollAll h c.q).1.1
  refine ⟨fun sid r hr => hp.1 sid r hr, fun e he => Reply.within (c := c) ?_ (hp.2 e he)⟩
  exact fun s r hr => ⟨r, hr, .refl r⟩

end Conn

section

variable {c c' c₁ : Conn P} {h : P.H3} {check : Bool} {evs : List ConnEvent}

theorem Setup.within (hs : Setup c c₁ h evs) : Conn.Within c c₁ ∧ ∀ e ∈ evs, c.Reply e := by
  cases hs with
  | old => exact ⟨.refl c, by simp⟩
  | new =>
    refine ⟨fun s r hr => ⟨r, hr, .refl r⟩, fun e he => ?_⟩
    split at he
    · rw [List.mem_singleton.mp he]
      exact .established
    · cases he

theorem Read.within (hr : Read check c c' evs) : Conn.Within c c' ∧ ∀ e ∈ evs, c.Reply e := by
  cases hr with
  | shut reason => exact ⟨fun _ _ hr => (by cases hr), Conn.reply_shut _ _ reason⟩
  | failed q reason =>
    refine ⟨fun s r hr => ⟨r, hr, .refl r⟩, fun e he => ?_⟩
    rw [List.mem_singleton.mp he]
    exact .closed reason
  | waiting => exact ⟨.refl c, by simp⟩
  | @polled c₁ h evs hs =>
    have hp := Conn.within_polled check h c₁
    exact ⟨hs.within.1.trans hp.1, List.forall_mem_append.mpr
      ⟨hs.within.2, fun e he => (hp.2 e he).within hs.within.1⟩⟩
  | @polledShut c₁ h evs reason hs =>
    have hp := Conn.within_polled check h c₁
    refine ⟨fun _ _ hr => (by cases hr), List.forall_mem_append.mpr ⟨hs.within.2,
      List.forall_mem_append.mpr ⟨fun e he => (hp.2 e he).within hs.within.1, ?_⟩⟩⟩
    exact Conn.reply_shut _ _ reason

end

/-! ### Streams are numbered upwards -/

/-- The streams of a connection have numbers below the next one. -/
def Conn.Numbered (next : P.H3 → ℕ) (c : Conn P) : Prop :=
  ∀ sid r, c.streams.lookup sid = some r → ∃ h, c.h3 = some h ∧ sid < next h

section

variable {next : P.H3 → ℕ} {c c' : Conn P}

/-- One body more: the others go on with what quiche is left with. -/
theorem Conn.resume_cons (h : P.H3) (q : P.Q) (p : PendingBody) (rest : List PendingBody) :
    let a := P.sendBody p.stream (p.body.drop p.off) true h q
    (resume h q (p :: rest)).1 = (resume a.2.1 a.2.2 rest).1 ∧
      (resume h q (p :: rest)).2.1 = (resume a.2.1 a.2.2 rest).2.1 := by
  intro a
  simp only [resume]
  split
  · split <;> exact ⟨rfl, rfl⟩
  · exact ⟨rfl, rfl⟩
  · exact ⟨rfl, rfl⟩

theorem NumbersStreams.resume (hn : NumbersStreams next) (h : P.H3) (q : P.Q) (ps : List PendingBody) :
    next h ≤ next (Conn.resume h q ps).1 := by
  induction ps generalizing h q with
  | nil => exact le_rfl
  | cons p rest ih =>
    rw [(Conn.resume_cons h q p rest).1]
    exact (hn.sendBody p.stream (p.body.drop p.off) true h q).trans (ih _ _)

theorem Conn.Numbered.within {h h' : P.H3} (hc : c.Numbered next) (hw : Within c c') (hh : c.h3 = some h)
    (hh' : c'.h3 = some h') (hle : next h ≤ next h') : c'.Numbered next := by
  intro sid r hr
  obtain ⟨r₀, h₀, -⟩ := hw sid r hr
  obtain ⟨h₁, hh₁, hlt⟩ := hc sid r₀ h₀
  obtain rfl := Option.some.inj (hh.symm.trans hh₁)
  exact ⟨h', hh', hlt.trans_le hle⟩

theorem Conn.Numbered.setup {c₁ : Conn P} {h : P.H3} {evs : List ConnEvent} (hc : c.Numbered next)
    (hs : Setup c c₁ h evs) : c₁.Numbered next ∧ c₁.h3 = some h := by
  cases hs with
  | old hh => exact ⟨hc, hh⟩
  | new hh =>
    refine ⟨fun sid r hr => ?_, rfl⟩
    obtain ⟨h₁, hh₁, _⟩ := hc sid r hr
    cases hh.symm.trans hh₁

theorem Conn.Numbered.send (hn : NumbersStreams next) (hc : c.Numbered next) (headers : List Header)
    (kind : ReqKind) (body : Body) : (c.trySend headers kind body).conn.Numbered next := by
  have hs := trySend_cases headers kind body c
  generalize c.trySend headers kind body = sent at hs ⊢
  cases hs with
  | noH3 => exact hc
  | @blocked h h' q' e hh ha =>
    have hle := hn.sendRequest headers body.isEmpty h c.q
    rw [ha] at hle
    exact hc.within (.refl c) hh rfl hle
  | @refused h h' q' e hh ha =>
    have hle := hn.sendRequest headers body.isEmpty h c.q
    rw [ha] at hle
    exact hc.within (.refl c) hh rfl hle
  | @bodyRefused h h' h'' q' q'' s e hh ha hb =>
    have hle := hn.sendRequest headers body.isEmpty h c.q
    have hle' := hn.sendBody s body true h' q'
    rw [ha] at hle
    rw [hb] at hle'
    exact hc.within (.refl c) hh rfl (hle.trans hle')
  | @sent h h' h'' q' q'' s off hh ha hb =>
    have hlt := hn.sent headers body.isEmpty h c.q s (by rw [ha])
    have hle : next h' ≤ next h'' := by
      rcases hb with ⟨rfl, _⟩ | ⟨r, hb⟩
      · exact le_rfl
      · have := hn.sendBody s body true h' q'
        rwa [hb] at this
    rw [ha] at hlt
    intro sid r hr
    have hh' : ((Conn.park { c with h3 := some h'', q := q'' } s body off).record s kind body).conn.h3 =
        some h'' := by
      simp only [Conn.record, Conn.park]
      split <;> rfl
    refine ⟨h'', hh', ?_⟩
    simp only [Conn.record, Conn.streams_park] at hr
    by_cases hsid : sid = s
    · subst hsid
      exact hlt.2.trans_le hle
    · rw [AList.lookup_insert_ne hsid] at hr
      obtain ⟨h₁, hh₁, hlt₁⟩ := hc sid r hr
      obtain rfl := Option.some.inj (hh.symm.trans hh₁)
      have : next h ≤ next h'' := hlt.1.trans (hlt.2.le.trans hle)
      omega

theorem Conn.Numbered.read (hn : NumbersStreams next) (hc : c.Numbered next) (check : Bool) :
    (c.processConn check).1.Numbered next := by
  have hr := read_processConn check c
  generalize c.processConn check = r at hr ⊢
  obtain ⟨c', evs⟩ := r
  cases hr with
  | shut reason => exact fun _ _ hr => (by cases hr)
  | failed q reason => exact hc
  | waiting => exact hc
  | @polled c₁ h evs hs =>
    obtain ⟨hc₁, hh₁⟩ := hc.setup hs
    exact hc₁.within (Conn.within_polled check h c₁).1 hh₁ rfl
      ((hn.pollAll h c₁.q).trans (hn.resume _ _ _))
  | polledShut reason hs => exact fun _ _ hr => (by cases hr)

theorem connInv_numbered (hn : NumbersStreams next) : ConnInv (Conn.Numbered (P := P) next) where
  new := fun hs _ sid r hr => by rw [hs] at hr; cases hr
  send := fun headers kind body hc => hc.send hn headers kind body
  read := fun check hc => hc.read hn check
  touch := fun hc hs hh _ sid r hr => by rw [hh]; exact hc sid r (hs ▸ hr)
  clear := fun _ hs _ _ sid r hr => by rw [hs] at hr; cases hr

/-- A request that is sent is put on a stream of its own. -/
theorem Conn.Numbered.overwrites (hn : NumbersStreams next) (hc : c.Numbered next)
    (headers : List Header) (body : Body) : c.overwrites headers body = none := by
  unfold Conn.overwrites
  cases hh : c.h3 with
  | none => rfl
  | some h =>
    dsimp only
    cases ha : (P.sendRequest headers body.isEmpty h c.q).1 with
    | error e => rfl
    | ok s =>
      dsimp only
      by_contra hne
      obtain ⟨r, hr⟩ := Option.ne_none_iff_exists'.mp hne
      obtain ⟨h₁, hh₁, hlt⟩ := hc s r hr
      obtain rfl := Option.some.inj (hh.symm.trans hh₁)
      have := (hn.sent headers body.isEmpty h c.q s ha).1
      omega

end

/-! ### A connection that has got as far as HTTP/3 -/

section

variable {c c₁ : Conn P} {h : P.H3} {evs : List ConnEvent}

theorem TrySend.calls {headers : List Header} {kind : ReqKind} {body : Body} {s : Sent P}
    (hs : TrySend headers kind body c s) : Calls c.q s.conn.q := by
  have request : ∀ {h h' q' r}, P.sendRequest headers body.isEmpty h c.q = (r, h', q') →
      Calls c.q q' := by
    intro h h' q' r ha
    have hcall := (Call.sendRequest (q := c.q) headers body.isEmpty h).calls
    rwa [ha] at hcall
  have sendBody : ∀ {s h' h'' q' q'' r}, P.sendBody s body true h' q' = (r, h'', q'') →
      Calls q' q'' := by
    intro s h' h'' q' q'' r hb
    have hcall := (Call.sendBody (q := q') s body true h').calls
    rwa [hb] at hcall
  cases hs with
  | noH3 => exact .refl _
  | blocked hh ha => exact request ha
  | refused hh ha => exact (request ha).trans (Call.close _ _ _).calls
  | bodyRefused hh ha hb => exact ((request ha).trans (sendBody hb)).trans (Call.close _ _ _).calls
  | sent off hh ha hb =>
    have hq : ∀ c : Conn P, ∀ s, (c.park s body off).q = c.q := by
      intro c s
      unfold Conn.park
      split <;> rfl
    refine (request ha).trans ?_
    simp only [Conn.record, hq]
    rcases hb with ⟨_, rfl⟩ | ⟨r, hb⟩
    · exact .refl _
    · exact sendBody hb

theorem Conn.calls_resume (h : P.H3) (q : P.Q) (ps : List PendingBody) :
    Calls q (resume h q ps).2.1 := by
  induction ps generalizing h q with
  | nil => exact .refl q
  | cons p rest ih =>
    rw [(resume_cons h q p rest).2]
    exact (Call.sendBody _ _ _ _).calls.trans (ih _ _)

theorem Conn.calls_resumed (check : Bool) (h : P.H3) (c : Conn P) :
    Calls c.q (c.resumed check h).q := by
  refine Calls.trans ?_ (calls_resume _ (c.polledQ h) _)
  have hcall := (Call.pollAll (q := c.q) h).calls
  unfold polledQ
  split
  · exact hcall.trans (Call.close _ _ _).calls
  · exact hcall

theorem Setup.calls (hs : Setup c c₁ h evs) : Calls c.q c₁.q := by
  cases hs with
  | old => exact .refl _
  | new _ _ ht =>
    have hcall := (Call.withTransport (q := c.q)).calls
    rwa [ht] at hcall

end

/-- A connection that has got as far as HTTP/3 has received packets. -/
def Conn.Heard (heard : P.Q → Prop) (c : Conn P) : Prop := c.h3.isSome → heard c.q

section

variable {heard : P.Q → Prop} {c c₁ : Conn P} {h : P.H3} {evs : List ConnEvent}

theorem ClosesOnInput.touches (hp : ClosesOnInput heard) {q q' : P.Q} (h : Touches q q')
    (hq : heard q) : heard q' := by
  induction h with
  | refl => exact hq
  | tail _ ht ih =>
    cases ht with
    | call hcall => exact hp.call hcall ih
    | recv src dst d => exact hp.recv src dst d _ ih
    | onTimeout now => exact hp.onTimeout now _ ih

theorem Conn.Heard.setup (hp : ClosesOnInput heard) (hc : c.Heard heard) (hs : Setup c c₁ h evs) :
    heard c.q := by
  cases hs with
  | old hh => exact hc (by simp [hh])
  | new _ he => exact hp.established _ he

/-- Reading a connection does not close it. -/
theorem Conn.Heard.not_closed (hp : ClosesOnInput heard) (hc : c.Heard heard)
    (hs : Setup c c₁ h evs) (hq : P.isClosed c.q = false) (check : Bool) :
    P.isClosed (c₁.resumed check h).q = false :=
  hp.isClosed (hs.calls.trans (Conn.calls_resumed check h c₁)) (hc.setup hp hs) hq

theorem Conn.Heard.read (hp : ClosesOnInput heard) (hc : c.Heard heard) (check : Bool) :
    (c.processConn check).1.Heard heard := by
  have hr := read_processConn check c
  generalize c.processConn check = r at hr ⊢
  obtain ⟨c', evs⟩ := r
  cases hr with
  | shut reason hcalls => exact fun hh => hp.calls hcalls (hc hh)
  | failed q reason hh => exact fun hh' => by simp [hh] at hh'
  | waiting => exact hc
  | @polled c₁ h evs hs =>
    exact fun _ => hp.calls (hs.calls.trans (Conn.calls_resumed check h c₁)) (hc.setup hp hs)
  | @polledShut c₁ h evs reason hs =>
    exact fun _ => hp.calls (hs.calls.trans (Conn.calls_resumed check h c₁)) (hc.setup hp hs)

theorem connInv_heard (hp : ClosesOnInput heard) : ConnInv (Conn.Heard (P := P) heard) where
  new := fun _ hh hs => by simp [hh] at hs
  send := fun {c} headers kind body hc hh => by
    have hs := trySend_cases headers kind body c
    refine hp.calls hs.calls (hc ?_)
    cases hs' : c.h3 with
    | none => simp [Conn.trySend, hs'] at hh
    | some h => rfl
  read := fun check hc => hc.read hp check
  touch := fun hc _ hh hq hs => hp.touches hq (hc (hh ▸ hs))
  clear := fun hc _ hh hq hs => hq ▸ hc (hh ▸ hs)

end

end Http3Bench
