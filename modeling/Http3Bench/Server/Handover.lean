import Http3Bench.Handover
import Http3Bench.Server.Sends

/-!
# What the server hands to quiche

As for the client, `ServerPlatform.recorded` keeps the calls in the HTTP/3 connection, and changes nothing
else (`Worker.reach_iff_recorded`). `Delivers` is what the calls on a stream and its entry in the list say
of one response: what was offered in each call, what of it quiche has accepted, and what is left.
-/

namespace Http3Bench.Server

variable {P : ServerPlatform}

def ServerPlatform.recorded (P : ServerPlatform) : ServerPlatform :=
  { P with
    H3 := P.H3 × List SendCall
    withTransport := fun q => ((P.withTransport q).1.map (fun h => (h, [])), (P.withTransport q).2)
    ready := fun h q => P.ready h.1 q
    poll := fun h q =>
      let a := P.poll h.1 q
      (a.1, (a.2.1, h.2), a.2.2)
    sendResponse := fun stream headers fin h q =>
      let a := P.sendResponse stream headers fin h.1 q
      (a.1, (a.2.1, h.2 ++ [.response stream headers fin a.1]), a.2.2)
    sendBody := fun stream bytes fin h q =>
      let a := P.sendBody stream bytes fin h.1 q
      (a.1, (a.2.1, h.2 ++ [.body stream bytes fin a.1]), a.2.2) }

/-- The calls made on the HTTP/3 connection of a client. -/
def Client.calls (c : Client P.recorded) : List SendCall := (c.h3.map Prod.snd).getD []

theorem Client.calls_of_some {c : Client P.recorded} {h : P.recorded.H3} (hh : c.h3 = some h) :
    c.calls = h.2 := by
  unfold calls
  rw [hh]
  rfl

open SendCall

variable {sid : ℕ} {r : Response} {calls : List SendCall}

/-- What was offered and accepted of the response `r`. -/
structure Offered (sid : ℕ) (r : Response) (calls : List SendCall) : Prop where
  /-- The headers until they are accepted, then the body from where it was accepted. -/
  offers : ∀ before call after, calls = before ++ call :: after →
    (headsOf before = [] ∧ ∃ res, call = .response sid r.headers r.body.isEmpty res) ∨
    (headsOf before = [r.headers] ∧
      ∃ res, call = .body sid (r.body.drop (bytesOf before).length) true res)
  heads : headsOf calls = [] ∧ bytesOf calls = [] ∨ headsOf calls = [r.headers]
  bytes : bytesOf calls <+: r.body

/-- All of the response is accepted. -/
def Whole (r : Response) (calls : List SendCall) : Prop :=
  headsOf calls = [r.headers] ∧ bytesOf calls = r.body

/-- What there is to be sent of the response: nothing, once it is out or quiche has refused it. -/
inductive Left (sid : ℕ) (r : Response) (calls : List SendCall) : List Pending → Prop
  | whole : Whole r calls → Left sid r calls []
  | refused : (∃ call ∈ calls, call.refused) → Left sid r calls []
  | headers : (∀ call ∈ calls, call.refused = false) → headsOf calls = [] →
      Left sid r calls [⟨sid, some r.headers, r.body, 0⟩]
  | body : (∀ call ∈ calls, call.refused = false) → headsOf calls = [r.headers] →
      (bytesOf calls).length < r.body.length →
      Left sid r calls [⟨sid, none, r.body, (bytesOf calls).length⟩]

/-- A response on its way, from the first call on. -/
structure Delivers (sid : ℕ) (r : Response) (calls : List SendCall) (pending : List Pending) :
    Prop where
  made : calls ≠ []
  offered : Offered sid r calls
  left : Left sid r calls pending

theorem Offered.nil : Offered sid r [] where
  offers := by simp
  heads := .inl ⟨rfl, rfl⟩
  bytes := List.nil_prefix

/-- Where a list with one more element can be split. -/
theorem split_concat {α : Type} {l before after : List α} {x y : α}
    (h : l ++ [x] = before ++ y :: after) :
    (l = before ∧ y = x) ∨ ∃ after', l = before ++ y :: after' := by
  rcases List.eq_nil_or_concat after with rfl | ⟨after, z, rfl⟩
  · obtain ⟨rfl, hx⟩ := List.append_inj' h rfl
    exact .inl ⟨rfl, (List.cons.inj hx).1.symm⟩
  · rw [List.concat_eq_append, ← List.cons_append, ← List.append_assoc] at h
    exact .inr ⟨after, (List.append_inj' h rfl).1⟩

/-- The headers are offered once more. -/
theorem Offered.response (h : Offered sid r calls) (hheads : headsOf calls = [])
    (res : Except H3Error Unit) :
    Offered sid r (calls ++ [.response sid r.headers r.body.isEmpty res]) where
  offers := by
    intro before call after hsplit
    rcases split_concat hsplit with ⟨rfl, rfl⟩ | ⟨after', hsplit⟩
    · exact .inl ⟨hheads, res, rfl⟩
    · exact h.offers before call after' hsplit
  heads := by
    have hbytes : bytesOf calls = [] := by
      rcases h.heads with ⟨-, hbytes⟩ | hone
      · exact hbytes
      · rw [hheads] at hone
        cases hone
    cases res with
    | ok u => exact .inr (by simp [hheads, SendCall.heads])
    | error e => exact .inl (by simp [hheads, hbytes, SendCall.heads, SendCall.bytes])
  bytes := by simpa [SendCall.bytes] using h.bytes

/-- What is accepted once `n` more bytes are. -/
theorem Offered.bytesOf_ok (h : Offered sid r calls) (n : ℕ) :
    bytesOf (calls ++ [.body sid (r.body.drop (bytesOf calls).length) true (.ok n)]) =
      r.body.take ((bytesOf calls).length + n) := by
  rw [bytesOf_append, bytesOf_singleton, List.take_add, ← List.prefix_iff_eq_take.mp h.bytes]
  rfl

/-- The rest of the body is offered once more. -/
theorem Offered.body (h : Offered sid r calls) (hheads : headsOf calls = [r.headers])
    (res : Except H3Error ℕ) :
    Offered sid r (calls ++ [.body sid (r.body.drop (bytesOf calls).length) true res]) where
  offers := by
    intro before call after hsplit
    rcases split_concat hsplit with ⟨rfl, rfl⟩ | ⟨after', hsplit⟩
    · exact .inr ⟨hheads, res, rfl⟩
    · exact h.offers before call after' hsplit
  heads := .inr (by simp [hheads, SendCall.heads])
  bytes := by
    cases res with
    | error e => simpa [SendCall.bytes] using h.bytes
    | ok n =>
      rw [h.bytesOf_ok]
      exact List.take_prefix _ _

/-- A response whose end is accepted is accepted whole. -/
theorem Offered.whole (h : Offered sid r calls) (hend : ∃ call ∈ calls, call.ends) :
    Whole r calls := by
  obtain ⟨call, hcall, hends⟩ := hend
  obtain ⟨before, after, rfl⟩ := List.append_of_mem hcall
  have hcons : ∀ l : List SendCall, bytesOf (call :: l) = call.bytes ++ bytesOf l :=
    fun l => List.flatMap_cons
  have hbytes := h.bytes
  rw [bytesOf_append, hcons, ← List.append_assoc] at hbytes
  have hsome : headsOf (before ++ call :: after) ≠ [] ∧ bytesOf before ++ call.bytes = r.body := by
    rcases h.offers before call after rfl with ⟨-, res, rfl⟩ | ⟨hheads, res, rfl⟩
    · cases res with
      | error e => cases hends
      | ok u =>
        have hnil : r.body = [] := List.isEmpty_iff.mp hends
        rw [hnil, List.prefix_nil, List.append_eq_nil_iff] at hbytes
        exact ⟨by simp [headsOf, SendCall.heads], hbytes.1.trans hnil.symm⟩
    · cases res with
      | error e => cases hends
      | ok n =>
        have hle : (r.body.drop (bytesOf before).length).length ≤ n := of_decide_eq_true hends
        have hpre : bytesOf before <+: r.body := by
          rw [List.append_assoc] at hbytes
          exact (List.prefix_append _ _).trans hbytes
        refine ⟨by simp [hheads], ?_⟩
        rw [SendCall.bytes, List.take_of_length_le hle]
        exact List.prefix_iff_eq_append.mp hpre
  refine ⟨?_, ?_⟩
  · rcases h.heads with ⟨hnil, -⟩ | hone
    · exact absurd hnil hsome.1
    · exact hone
  · rw [bytesOf_append, hcons, ← List.append_assoc, hsome.2]
    rw [hsome.2] at hbytes
    exact hbytes.eq_of_length_le (by simp)

/-! ### One call after another -/

theorem recorded_sendResponse (stream : ℕ) (headers : List Header) (fin : Bool) (h : P.recorded.H3)
    (q : P.recorded.Q) : P.recorded.sendResponse stream headers fin h q =
      ((P.sendResponse stream headers fin h.1 q).1,
        ((P.sendResponse stream headers fin h.1 q).2.1,
          h.2 ++ [.response stream headers fin (P.sendResponse stream headers fin h.1 q).1]),
        (P.sendResponse stream headers fin h.1 q).2.2) := rfl

theorem recorded_sendBody (stream : ℕ) (bytes : Body) (fin : Bool) (h : P.recorded.H3)
    (q : P.recorded.Q) : P.recorded.sendBody stream bytes fin h q =
      ((P.sendBody stream bytes fin h.1 q).1,
        ((P.sendBody stream bytes fin h.1 q).2.1,
          h.2 ++ [.body stream bytes fin (P.sendBody stream bytes fin h.1 q).1]),
        (P.sendBody stream bytes fin h.1 q).2.2) := rfl

/-- What the calls `cs` are that sending an entry on makes, with the marks `tr`. -/
structure Hands (p : Pending) (h : P.recorded.H3) (tr : List Outbox.Mark) (out : Resumed P.recorded)
    (cs : List SendCall) : Prop where
  calls : out.h3.2 = h.2 ++ cs
  marks : tr = cs.flatMap SendCall.marks
  stream : ∀ call ∈ cs, call.stream? = some p.stream

theorem forall_refused_concat {call : SendCall} (hn : ∀ c ∈ calls, c.refused = false)
    (hcall : call.refused = false) : ∀ c ∈ calls ++ [call], c.refused = false := by
  simpa [or_imp, forall_and] using ⟨hn, hcall⟩

/-- What is left of a response after one more call for its body. -/
theorem Offered.left_body (ho : Offered sid r calls) (hn : ∀ call ∈ calls, call.refused = false)
    (hheads : headsOf calls = [r.headers]) (hlt : (bytesOf calls).length < r.body.length)
    (res : Except H3Error ℕ) :
    Left sid r (calls ++ [.body sid (r.body.drop (bytesOf calls).length) true res])
      (match res with
        | .ok n => if (bytesOf calls).length + n < r.body.length
            then [⟨sid, none, r.body, (bytesOf calls).length + n⟩] else []
        | .error .done => [⟨sid, none, r.body, (bytesOf calls).length⟩]
        | .error _ => []) := by
  have hheads' : headsOf (calls ++ [.body sid (r.body.drop (bytesOf calls).length) true res]) =
      [r.headers] := by simp [hheads, SendCall.heads]
  cases res with
  | ok n =>
    have hbytes := ho.bytesOf_ok n
    dsimp only
    split
    · rename_i hmore
      have hlength : (bytesOf (calls ++
          [.body sid (r.body.drop (bytesOf calls).length) true (.ok n)])).length =
          (bytesOf calls).length + n := by
        rw [hbytes, List.length_take]
        omega
      rw [← hlength]
      exact .body (forall_refused_concat hn rfl) hheads' (by rw [hlength]; exact hmore)
    · rw [List.take_of_length_le (by omega)] at hbytes
      exact .whole ⟨hheads', hbytes⟩
  | error e =>
    cases e with
    | done =>
      have hbytes : bytesOf (calls ++
          [.body sid (r.body.drop (bytesOf calls).length) true (.error .done)]) =
          bytesOf calls := by simp [SendCall.bytes]
      have hleft := @Left.body sid r _ (forall_refused_concat hn rfl) hheads' (by rw [hbytes]; exact hlt)
      rwa [hbytes] at hleft
    | _ => exact .refused ⟨_, List.mem_append_right _ (List.mem_singleton_self _), rfl⟩

theorem hands_resumeBody (h : P.recorded.H3) (q : P.recorded.Q) (p : Pending) :
    ∃ cs, Hands p h (bodyMarks h q p) (resumeBody h q p) cs ∧
      ∀ r calls, Offered p.stream r calls → (∀ call ∈ calls, call.refused = false) →
        headsOf calls = [r.headers] →
        (r.body ≠ [] → (bytesOf calls).length < r.body.length) → p.body = r.body →
        p.headers = none → p.off = (bytesOf calls).length →
        Offered p.stream r (calls ++ cs) ∧
          Left p.stream r (calls ++ cs) (resumeBody h q p).left := by
  obtain ⟨stream, headers, body, off⟩ := p
  dsimp only
  unfold resumeBody bodyMarks
  dsimp only
  by_cases hnil : body = []
  · rw [if_pos hnil, if_pos hnil]
    refine ⟨[], ⟨(List.append_nil _).symm, rfl, by simp⟩, ?_⟩
    rintro r calls ho - hheads - rfl - -
    rw [List.append_nil]
    have hnone : bytesOf calls = r.body := by
      have hpre := ho.bytes
      rw [hnil, List.prefix_nil] at hpre
      rw [hnil, hpre]
    exact ⟨ho, .whole ⟨hheads, hnone⟩⟩
  · rw [if_neg hnil, if_neg hnil, recorded_sendBody]
    rcases P.sendBody stream (body.drop off) true h.1 q with ⟨res, h', q'⟩
    dsimp only
    refine ⟨[.body stream (body.drop off) true res], ⟨?_, ?_, by simp [SendCall.stream?]⟩, ?_⟩
    · cases res with
      | ok n => rfl
      | error e => cases e <;> rfl
    · cases res with
      | ok n => rfl
      | error e => cases e <;> rfl
    · rintro r calls ho hn hheads hrest rfl rfl rfl
      have hleft := ho.left_body hn hheads (hrest hnil) res
      refine ⟨ho.body hheads res, ?_⟩
      cases res with
      | ok n =>
        by_cases hlt : (bytesOf calls).length + n < r.body.length <;>
          simpa [Resumed.left, hlt] using hleft
      | error e => cases e <;> exact hleft

theorem hands_resume (h : P.recorded.H3) (q : P.recorded.Q) (p : Pending) :
    ∃ cs, Hands p h (resumeMarks h q p) (resume h q p) cs ∧
      ∀ r calls, Offered p.stream r calls → Left p.stream r calls [p] →
        Delivers p.stream r (calls ++ cs) (resume h q p).left := by
  obtain ⟨stream, headers, body, off⟩ := p
  unfold resume resumeMarks
  dsimp only
  cases headers with
  | none =>
    obtain ⟨cs, hcs, hleft⟩ := hands_resumeBody h q ⟨stream, none, body, off⟩
    refine ⟨cs, hcs, ?_⟩
    intro r calls ho hp
    generalize hps : [(⟨stream, none, body, off⟩ : Pending)] = ps at hp
    cases hp with
    | body hn hheads hlt =>
      cases hps
      obtain ⟨ho', hleft'⟩ := hleft r calls ho hn hheads (fun _ => hlt) rfl rfl rfl
      refine ⟨?_, ho', hleft'⟩
      intro hnil
      rw [(List.append_eq_nil_iff.mp hnil).1] at hheads
      cases hheads
    | _ => cases hps
  | some headers =>
    dsimp only
    rw [recorded_sendResponse]
    rcases P.sendResponse stream headers body.isEmpty h.1 q with ⟨res, h', q'⟩
    dsimp only
    have hstream : ∀ call ∈ [SendCall.response stream headers body.isEmpty res],
        call.stream? = some stream := by simp [SendCall.stream?]
    have hmade : ∀ calls cs : List SendCall,
        calls ++ (.response stream headers body.isEmpty res :: cs) ≠ [] := by simp
    cases res with
    | error e =>
      refine ⟨[.response stream headers body.isEmpty (.error e)], ⟨?_, ?_, hstream⟩, ?_⟩
      · cases e <;> rfl
      · cases e <;> rfl
      · intro r calls ho hp
        generalize hps : [(⟨stream, some headers, body, off⟩ : Pending)] = ps at hp
        cases hp with
        | headers hn hheads =>
          cases hps
          refine ⟨hmade _ _, ho.response hheads (.error e), ?_⟩
          cases e with
          | streamBlocked =>
            exact .headers (forall_refused_concat hn rfl) (by simp [hheads, SendCall.heads])
          | _ => exact .refused ⟨_, List.mem_append_right _ (List.mem_singleton_self _), rfl⟩
        | _ => cases hps
    | ok u =>
      obtain ⟨cs, hcs, hleft⟩ := hands_resumeBody
        (h', h.2 ++ [.response stream headers body.isEmpty (.ok u)]) q' ⟨stream, none, body, off⟩
      refine ⟨.response stream headers body.isEmpty (.ok u) :: cs, ⟨?_, ?_, ?_⟩, ?_⟩
      · have hcalls := hcs.calls
        rw [List.append_assoc] at hcalls
        exact hcalls
      · exact congrArg (Outbox.Mark.headed stream :: ·) hcs.marks
      · exact List.forall_mem_cons.mpr ⟨rfl, hcs.stream⟩
      · intro r calls ho hp
        generalize hps : [(⟨stream, some headers, body, off⟩ : Pending)] = ps at hp
        cases hp with
        | headers hn hheads =>
          cases hps
          have hbytes : bytesOf (calls ++ [.response stream r.headers r.body.isEmpty (.ok u)]) =
              [] := by
            rcases ho.heads with ⟨-, hbytes⟩ | hone
            · simp [hbytes, SendCall.bytes]
            · rw [hheads] at hone
              cases hone
          obtain ⟨ho', hleft'⟩ := hleft r _ (ho.response hheads (.ok u)) (forall_refused_concat hn rfl)
            (by simp [hheads, SendCall.heads])
            (fun hne => by rw [hbytes]; exact List.length_pos_iff.mpr hne) rfl rfl
            (by rw [hbytes]; rfl)
          rw [← List.append_cons] at ho' hleft'
          exact ⟨hmade _ _, ho', hleft'⟩
        | _ => cases hps

/-! ### All the responses of a connection -/

/-- The responses still to be sent on one stream. -/
def pendingOn (stream : ℕ) (pending : List Pending) : List Pending :=
  pending.filter (fun p => p.stream = stream)

/-- A stream that is reset loses its entries, the others keep theirs. -/
theorem pendingOn_filter_ne (sid stream : ℕ) (pending : List Pending) :
    pendingOn sid (pending.filter (fun p => p.stream ≠ stream)) =
      if stream = sid then [] else pendingOn sid pending := by
  unfold pendingOn
  rw [List.filter_filter]
  split
  · rename_i hstream
    rw [List.filter_eq_nil_iff]
    intro p _
    simp [hstream]
  · rename_i hstream
    apply List.filter_congr
    intro p _
    by_cases hp : p.stream = sid
    · simp [hp, Ne.symm hstream]
    · simp [hp]

theorem stream_resumeBody {P : ServerPlatform} (h : P.H3) (q : P.Q) (p : Pending) :
    (resumeBody h q p).pending.stream = p.stream := by
  unfold resumeBody
  split
  · rfl
  · dsimp only
    split <;> rfl

theorem stream_resume {P : ServerPlatform} (h : P.H3) (q : P.Q) (p : Pending) :
    ∀ p' ∈ (resume h q p).left, p'.stream = p.stream := by
  have hstream : (resume h q p).pending.stream = p.stream := by
    unfold resume
    split
    · exact stream_resumeBody h q p
    · dsimp only
      split
      · exact stream_resumeBody _ _ _
      · rfl
      · rfl
  unfold Resumed.left
  split
  · simpa using hstream
  · simp

theorem pendingOn_append (stream : ℕ) (ps ps' : List Pending) :
    pendingOn stream (ps ++ ps') = pendingOn stream ps ++ pendingOn stream ps' :=
  List.filter_append ..

theorem pendingOn_eq_nil {ps : List Pending} (h : ∀ p ∈ ps, p.stream ≠ sid) :
    pendingOn sid ps = [] := by
  unfold pendingOn
  rw [List.filter_eq_nil_iff]
  exact fun p hp => by simpa using h p hp

theorem pendingOn_eq_self {ps : List Pending} (h : ∀ p ∈ ps, p.stream = sid) :
    pendingOn sid ps = ps := by
  unfold pendingOn
  rw [List.filter_eq_self]
  exact fun p hp => by simpa using h p hp

theorem on_eq_nil {cs : List SendCall} {k : ℕ} (h : ∀ call ∈ cs, call.stream? = some k)
    (hk : k ≠ sid) : SendCall.on sid cs = [] := by
  unfold SendCall.on
  rw [List.filter_eq_nil_iff]
  exact fun call hcall => by simpa [h call hcall] using hk

theorem on_eq_self {cs : List SendCall} (h : ∀ call ∈ cs, call.stream? = some sid) :
    SendCall.on sid cs = cs := by
  unfold SendCall.on
  rw [List.filter_eq_self]
  exact fun call hcall => by simpa using h call hcall

/-- The list holds at most one entry of a stream. -/
theorem Left.tail {p : Pending} {ps : List Pending} (h : Left sid r calls (p :: ps)) : ps = [] := by
  generalize hps : p :: ps = l at h
  cases h with
  | whole => cases hps
  | refused => cases hps
  | headers => exact (List.cons.inj hps).2
  | body => exact (List.cons.inj hps).2

/-- One pass over the list: the calls of each stream are its own. -/
theorem hands_resumeAll (h : P.recorded.H3) (q : P.recorded.Q) (ps : List Pending) :
    ∃ cs, (resumeAll h q ps).1.2 = h.2 ++ cs ∧
      resumeAllMarks h q ps = cs.flatMap SendCall.marks ∧
      ∀ sid, (pendingOn sid ps = [] → SendCall.on sid cs = [] ∧
          pendingOn sid (resumeAll h q ps).2.2 = []) ∧
        ∀ r calls, Delivers sid r calls (pendingOn sid ps) →
          Delivers sid r (calls ++ SendCall.on sid cs)
            (pendingOn sid (resumeAll h q ps).2.2) := by
  induction ps generalizing h q with
  | nil =>
    refine ⟨[], (List.append_nil _).symm, rfl, fun sid => ⟨fun _ => ⟨rfl, rfl⟩, fun r calls hd => ?_⟩⟩
    simpa [SendCall.on, resumeAll] using hd
  | cons p ps ih =>
    obtain ⟨cs, hcs, hdeliver⟩ := hands_resume h q p
    obtain ⟨cs', hcs', hmarks, hrest⟩ := ih (resume h q p).h3 (resume h q p).conn
    refine ⟨cs ++ cs', ?_, ?_, fun sid => ?_⟩
    · rw [resumeAll, hcs', hcs.calls, List.append_assoc]
    · rw [resumeAllMarks, hcs.marks, hmarks, List.flatMap_append]
    · rw [SendCall.on_append, pending_resumeAll, pendingOn_append]
      by_cases hp : p.stream = sid
      · subst hp
        have hcons : pendingOn p.stream (p :: ps) = p :: pendingOn p.stream ps :=
          List.filter_cons_of_pos (by simp)
        rw [on_eq_self hcs.stream, pendingOn_eq_self (stream_resume h q p), hcons]
        refine ⟨fun hnil => (by cases hnil), fun r calls hd => ?_⟩
        have hnone := hd.left.tail
        have hleft := hd.left
        rw [hnone] at hleft
        obtain ⟨hcalls, hpending⟩ := (hrest p.stream).1 hnone
        rw [hcalls, hpending, List.append_nil, List.append_nil]
        exact hdeliver r calls hd.offered hleft
      · have hcons : pendingOn sid (p :: ps) = pendingOn sid ps :=
          List.filter_cons_of_neg (by simpa using hp)
        have hleft : pendingOn sid (resume h q p).left = [] :=
          pendingOn_eq_nil (fun p' hp' heq => hp ((stream_resume h q p p' hp').symm.trans heq))
        rw [on_eq_nil hcs.stream hp, List.nil_append, hcons, hleft, List.nil_append]
        exact hrest sid

namespace Client

variable {c : Client P.recorded}

/-- The setup of HTTP/3 finds no calls, and makes none. -/
theorem calls_setup (c : Client P.recorded) : c.setup.calls = c.calls := by
  unfold setup
  split
  · rename_i h
    unfold calls
    rw [Option.isNone_iff_eq_none.mp h.1]
    cases ht : (P.withTransport c.conn).1 <;> simp [ServerPlatform.recorded, ht]
  · rfl

/-- An event makes calls only when it completes a request. -/
theorem hands_onEvent (c : Client P.recorded) (h : P.recorded.H3) (ev : ℕ × H3Event) :
    ∃ cs, (c.onEvent h ev).calls = h.2 ++ cs ∧
      (c.eventMarks h ev).filter Outbox.Mark.answers = cs.flatMap SendCall.marks := by
  obtain ⟨sid, ev⟩ := ev
  cases ev with
  | data reads =>
    refine ⟨[], ?_, rfl⟩
    rw [List.append_nil]
    unfold onEvent
    dsimp only
    split <;> rfl
  | finished =>
    unfold onEvent eventMarks
    dsimp only
    cases c.reqs.lookup sid with
    | none => exact ⟨[], (List.append_nil _).symm, rfl⟩
    | some r =>
      obtain ⟨cs, hcs, -⟩ := hands_resume h c.conn ⟨sid, some r.response.headers, r.response.body, 0⟩
      refine ⟨cs, hcs.calls, ?_⟩
      dsimp only
      rw [hcs.marks]
      exact SendCall.filter_marks cs
  | _ => exact ⟨[], (List.append_nil _).symm, rfl⟩

/-- The marks of the client's life are those of the calls on its connection. -/
theorem lasts_told : Lasts (fun c : Client P.recorded =>
    ∃ tr, c.Life tr ∧ tr.filter Outbox.Mark.answers = c.calls.flatMap SendCall.marks) where
  new := fun q s ids => ⟨[], .new q s ids, rfl⟩
  frame := fun c q d t b ⟨tr, hl, htold⟩ => ⟨tr, hl.frame q c.h3 d t b, htold⟩
  setup := by
    rintro c ⟨tr, hl, htold⟩
    refine ⟨tr, ?_, ?_⟩
    · unfold setup
      split
      · exact hl.frame _ _ c.deadline c.scheduled c.dirty
      · exact hl
    · rw [calls_setup]
      exact htold
  idle := by
    rintro c h hh - ⟨tr, hl, htold⟩
    refine ⟨tr, hl.frame _ _ c.deadline c.scheduled c.dirty, ?_⟩
    rw [calls_of_some hh] at htold
    exact htold
  event := by
    rintro c h ev hh - ⟨tr, hl, htold⟩
    have hread := hl.frame (P.recorded.poll h c.conn).2.2 c.h3 c.deadline c.scheduled c.dirty
    obtain ⟨cs, hcs, hmarks⟩ := hands_onEvent { c with conn := (P.recorded.poll h c.conn).2.2 }
      (P.recorded.poll h c.conn).2.1 ev
    refine ⟨_, hread.event (P.recorded.poll h c.conn).2.1 ev, ?_⟩
    rw [calls_of_some hh] at htold
    rw [List.filter_append, htold, hcs, List.flatMap_append]
    exact congrArg _ hmarks
  resumed := by
    rintro c ⟨tr, hl, htold⟩
    refine ⟨_, hl.resumed, ?_⟩
    rw [List.filter_append, htold]
    unfold resumedMarks resumed
    rcases Option.eq_none_or_eq_some c.h3 with hh | ⟨h, hh⟩
    · simp [hh]
    · obtain ⟨cs, hcs, hmarks, -⟩ := hands_resumeAll h c.conn c.pending
      simp only [hh]
      rw [hmarks, SendCall.filter_marks, calls_of_some hh, ← List.flatMap_append, ← hcs]
      rfl

end Client

end Http3Bench.Server
