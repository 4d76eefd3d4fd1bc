import Http3Bench.Responses
import Http3Bench.Handover
import Http3Bench.Server.Echo

/-!
# Nothing is lost or sent twice

Request bodies on their way out of the client and responses on their way out of the server are both
an outbox, and the marks of its run are those of the calls that quiche has answered: so these say
what was taken of a body at any moment.
-/

namespace Http3Bench

open SendCall (on bytesOf headed)

/-- What the calls on a connection have sent of the messages opened on it, and what is still waiting
to be sent. -/
structure Passed (tr : List Outbox.Mark) (calls : List SendCall) (ps : List Outbox.Entry) : Prop where
  told : tr.filter Outbox.Mark.answers = calls.flatMap SendCall.marks
  beginning : ∀ sid body, (sid, body) ∈ Outbox.messages tr → bytesOf (on sid calls) <+: body
  waiting : ∀ e ∈ ps, (e.key, e.body) ∈ Outbox.messages tr ∧
    bytesOf (on e.key calls) = e.body.take e.off
  stands : ∀ pre since sid body, tr = pre ++ .opened sid body :: since →
    Outbox.Stands sid body since ps

namespace Outbox

variable {tr : List Mark}

theorem exists_opened {sid : ℕ} {body : Body} (h : (sid, body) ∈ messages tr) :
    ∃ pre since, tr = pre ++ .opened sid body :: since := by
  obtain ⟨m, hmem, hopened⟩ := List.mem_filterMap.mp h
  obtain rfl : m = .opened sid body := by
    cases m with
    | opened key b =>
      cases hopened
      rfl
    | _ => cases hopened
  exact List.append_of_mem hmem

variable {ps : List Entry} {calls : List SendCall}

/-- The calls on a stream have had quiche take what its message's marks tell. -/
theorem Run.bytesOf_eq (h : Run tr ps) (hn : (keys tr).Nodup)
    (htold : tr.filter Mark.answers = calls.flatMap SendCall.marks) {pre since : List Mark} {sid : ℕ}
    {body : Body} (htr : tr = pre ++ .opened sid body :: since) :
    bytesOf (on sid calls) = taken sid since := by
  have hbefore : taken sid pre = [] := by
    refine h.taken_before htr fun hk => ?_
    rw [htr, keys_append, List.nodup_append] at hn
    exact hn.2.2 sid hk sid (List.mem_cons_self ..) rfl
  rw [← SendCall.taken_marks, ← htold, taken_answers, htr, taken_append, hbefore, List.nil_append]
  rfl

theorem Run.passed (h : Run tr ps) (hn : (keys tr).Nodup)
    (htold : tr.filter Mark.answers = calls.flatMap SendCall.marks) : Passed tr calls ps where
  told := htold
  beginning := by
    intro sid body hm
    obtain ⟨pre, since, htr⟩ := exists_opened hm
    rw [h.bytesOf_eq hn htold htr]
    exact (h.stands hn htr).beginning
  waiting := by
    intro e he
    have hkey := h.key_mem e he
    rw [← map_messages] at hkey
    obtain ⟨⟨sid, body⟩, hm, rfl⟩ := List.mem_map.mp hkey
    obtain ⟨pre, since, htr⟩ := exists_opened hm
    have hstands := h.stands hn htr
    obtain ⟨rfl, -, hoff, -⟩ := hstands.entry e he rfl
    rw [h.bytesOf_eq hn htold htr, hoff]
    exact ⟨hm, List.prefix_iff_eq_take.mp hstands.beginning⟩
  stands := fun _ _ _ _ htr => h.stands hn htr

end Outbox

/-- On both sides, quiche has taken of a body the bytes up to the offset that is kept for it, in calls
on the connection that is gone on with, the head of a response once and before them, and a body is
waiting exactly as long as there is something left of it and it was not refused, reset or cleared
with its connection. The client is told no stream twice, and every stream ends once. -/
theorem partial_sends {P : Platform} {S : Server.ServerPlatform} :
    (∀ (cfg : EngineConfig) (t : Thread P.recorded) (i : ℕ) (c : Conn P.recorded), t.Reach cfg →
      t.w.conn i = some c → (headed c.calls).Nodup →
      ∃ tr, c.Life cfg.check tr ∧ Passed (outbox tr) c.calls (c.pending.map PendingBody.entry)) ∧
    ∀ (w : Server.Worker S.recorded) (i : ℕ) (c : Server.Client S.recorded), w.Reach →
      w.client i = some c → c.finished.Nodup →
      ∃ tr, c.Life tr ∧ Passed tr c.calls (c.pending.map Server.Pending.entry) ∧
        Outbox.messages tr = c.answered.map (fun a => (a.1, a.2.body)) := by
  refine ⟨fun cfg t i c ht hc hn => ?_, fun w i c hw hc hn => ?_⟩
  · obtain ⟨tr, hl, htells⟩ := ht.exists_calls hc
    rw [← htells.keys] at hn
    exact ⟨tr, hl, hl.owed.passed hn htells⟩
  · obtain ⟨tr, hl, htold⟩ := hw.forall_lasts Server.Client.lasts_told hc
    have hkeys : (Outbox.keys tr).Nodup := by
      rw [← Outbox.map_messages, hl.messages, List.map_map]
      exact hn.sublist (hw.forall_clients Server.Client.kept_answered hc)
    exact ⟨tr, hl, hl.run.passed hkeys htold, hl.messages⟩

/-- The loopback client on a platform that takes a body byte by byte. -/
def narrowLoopback : Platform :=
  { loopback with sendBody := fun _ _ _ h q => (.ok 1, h, q) }

/-- Two bytes of three are out on the client's second stream, and one of the answer on the server's
stream 4, which was blocked before. -/
theorem partial_sends_narrow :
    (∃ (t : Thread narrowLoopback.recorded) (c : Conn narrowLoopback.recorded)
      (tr : List StreamMark), t.Reach loopbackConfig ∧ t.w.conn 0 = some c ∧ c.Life true tr ∧
      Passed (outbox tr) c.calls [⟨1, true, [7, 8, 9], 2⟩] ∧
      (1, [7, 8, 9]) ∈ Outbox.messages (outbox tr) ∧ bytesOf (on 1 c.calls) = [7, 8] ∧
      c.calls = [.request (requestHeaders "GET" "10.0.0.2:3000" none) true (.ok 0),
        .request (requestHeaders "POST" "10.0.0.2:3000" (some 3)) false (.ok 1),
        .body 1 [7, 8, 9] true (.ok 1), .body 1 [8, 9] true (.ok 1)]) ∧
    ∃ (w : Server.Worker (Server.narrow Server.interleaved).recorded) (c : Server.Client _)
      (tr : List Outbox.Mark), w.Reach ∧ w.client 0 = some c ∧ c.Life tr ∧
      Passed tr c.calls [⟨4, true, Server.text "404 page not found\n", 1⟩] ∧
      bytesOf (on 0 c.calls) = [7, 8] ∧ bytesOf (on 4 c.calls) = [52] := by
  have h := @partial_sends narrowLoopback (Server.narrow Server.interleaved)
  constructor
  · obtain ⟨t, ht, hp⟩ := Thread.exists_reach (P := narrowLoopback.recorded) loopbackConfig {
        polls := [[.waker], [.slot 0], [.slot 0], [], [.waker], [.slot 0]]
        inbox := [([[1]], none), ([[2]], none), ([[1]], none)] } 0
      [(.dial 1 1, 21), (.echo ⟨2, [[7, 8, 9]], true, false⟩ 1, 10)]
      (fun t => (t.w.conn 0).any (fun c =>
        c.calls = [.request (requestHeaders "GET" "10.0.0.2:3000" none) true (.ok 0),
          .request (requestHeaders "POST" "10.0.0.2:3000" (some 3)) false (.ok 1),
          .body 1 [7, 8, 9] true (.ok 1), .body 1 [8, 9] true (.ok 1)] ∧
        c.pending.map PendingBody.entry = [⟨1, true, [7, 8, 9], 2⟩])) (by decide +kernel)
    obtain ⟨c, hc, hf⟩ := (Option.any_eq_true ..).mp hp
    obtain ⟨hcalls, hpending⟩ := of_decide_eq_true hf
    obtain ⟨tr, hl, hs⟩ := h.1 _ t 0 c ht hc (by rw [hcalls]; decide)
    rw [hpending] at hs
    obtain ⟨hm, hbytes⟩ := hs.waiting _ (List.mem_singleton_self _)
    exact ⟨t, c, tr, ht, hc, hl, hs, hm, hbytes, hcalls⟩
  · obtain ⟨w, hw, hp⟩ := Server.Worker.exists_reach
      (P := (Server.narrow Server.interleaved).recorded) (0 : ℕ) [[1, 7]]
      (fun w => (w.client 0).any (fun c => c.finished.Nodup ∧
        c.pending.map Server.Pending.entry = [⟨4, true, Server.text "404 page not found\n", 1⟩] ∧
        bytesOf (on 0 c.calls) = [7, 8])) (by decide +kernel)
    obtain ⟨c, hc, hf⟩ := (Option.any_eq_true ..).mp hp
    obtain ⟨hn, hpending, hzero⟩ := of_decide_eq_true hf
    obtain ⟨tr, hl, hs, -⟩ := h.2 w 0 c hw hc hn
    rw [hpending] at hs
    have hfour := (hs.waiting _ (List.mem_singleton_self _)).2
    exact ⟨w, c, tr, hw, hc, hl, hs, hzero, hfour.trans (by decide +kernel)⟩

end Http3Bench
