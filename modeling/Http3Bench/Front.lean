import Http3Bench.Regular

/-!
# What a worker shows to the engine and to the other workers

`Front` is the part of a worker the engine deals with: the commands it was given, its phase, the
outcomes it sent, and the ticket counter. `FrontStep` says how a move can change it.
-/

namespace Http3Bench

variable {P : Platform}

structure Front where
  rx : List Command
  given : List Command
  phase : Phase
  sent : List Outcome
  issued : ℕ

def Worker.front (w : Worker P) : Front := ⟨w.rx, w.given, w.phase, w.sent, w.shared.issued⟩

/-- A change of the front by the moves of `full`, with the redials `start` is occupied with before
and after it. -/
inductive FrontStep (full : Bool) (f : Front) :
    Option (RateJob × ℕ × ℕ) → Front → Option (RateJob × ℕ × ℕ) → Prop
  | same {p : Option (RateJob × ℕ × ℕ)} : FrontStep full f p f p
  | failed {p : Option (RateJob × ℕ × ℕ)} {d : DialPhase} (err : String) :
      f.phase = .dial d → d.active ≠ 0 →
      FrontStep full f p { f with phase := .dial (d.failed err) } p
  | connected {p : Option (RateJob × ℕ × ℕ)} {d : DialPhase} (cost : ℕ) :
      f.phase = .dial d → d.active ≠ 0 →
      FrontStep full f p { f with phase := .dial (d.connected cost) } p
  | settle {p : Option (RateJob × ℕ × ℕ)} {job : RateJob} {r g : ℕ} :
      f.phase = .ratePrep job r g → r ≠ 0 →
      FrontStep full f p { f with phase := .ratePrep job (r - 1) g } p
  | complete {p : Option (RateJob × ℕ × ℕ)} {e : EchoPhase} (i : ℕ) (r : Except String ℕ)
      (cost n : ℕ) :
      f.phase = .echo e → e.inFlight ≠ 0 →
      FrontStep full f p { f with phase := .echo (e.complete i r cost n) } p
  | answer {p : Option (RateJob × ℕ × ℕ)} (r : Except String ℕ) (cause : Cause) :
      FrontStep full f p { f with phase := f.phase.answer r cause } p
  | stop {p : Option (RateJob × ℕ × ℕ)} {rest : List Command} :
      f.rx = .stop :: rest → FrontStep full f p { f with rx := rest } p
  | dial {p : Option (RateJob × ℕ × ℕ)} {rest : List Command} {count conc : ℕ} :
      f.rx = .dial count conc :: rest →
      FrontStep full f p
        { f with rx := rest, phase := .dial { remaining := count, concurrency := conc } } p
  | echo {p : Option (RateJob × ℕ × ℕ)} {rest : List Command} {job : EchoJob} {conc : ℕ}
      (idle : List ℕ) :
      f.rx = .echo job conc :: rest →
      FrontStep full f p { f with rx := rest, phase := .echo (EchoPhase.start job conc idle) } p
  | rate {p : Option (RateJob × ℕ × ℕ)} {rest : List Command} {job : RateJob} (n before : ℕ) :
      f.rx = .rate job :: rest → FrontStep full f p { f with rx := rest } (some (job, n, before))
  | prepared {job : RateJob} {n before : ℕ} (g : ℕ) :
      FrontStep full f (some (job, n, before)) { f with phase := .ratePrep job n g } none
  | finish {p : Option (RateJob × ℕ × ℕ)} {o : Outcome} :
      Finishes f.phase o → full = true →
      FrontStep full f p { f with phase := .idle, sent := f.sent ++ [o] } p
  | begin {p : Option (RateJob × ℕ × ℕ)} {d : DialPhase} {starts : ℕ} :
      f.phase = .dial d → starts = min d.remaining (d.concurrency - d.active) →
      FrontStep full f p { f with phase := .dial (d.begin starts) } p
  | wait {p : Option (RateJob × ℕ × ℕ)} {e : EchoPhase} (t : Option Instant) :
      f.phase = .echo e → FrontStep full f p { f with phase := .echo { e with waitUntil := t } } p
  | overdraw {p : Option (RateJob × ℕ × ℕ)} {e : EchoPhase} :
      f.phase = .echo e → e.job.times ≤ f.issued →
      FrontStep full f p
        { f with phase := .echo (e.overdraw f.issued), issued := f.issued + 1 } p
  | draw {p : Option (RateJob × ℕ × ℕ)} {e : EchoPhase} {i : ℕ} {rest : List ℕ} :
      f.phase = .echo e → e.exhausted = false → e.inFlight < e.slots → e.idle = i :: rest →
      f.issued < e.job.times →
      FrontStep full f p
        { f with phase := .echo (e.draw rest f.issued), issued := f.issued + 1 } p
  | rateStart {p : Option (RateJob × ℕ × ℕ)} {job : RateJob} {g : ℕ} (conns : List ℕ)
      (now : Instant) :
      f.phase = .ratePrep job 0 g → full = true →
      FrontStep full f p { f with phase := .rate (RatePhase.start job conns now) } p
  | rateTimes {p : Option (RateJob × ℕ × ℕ)} {r : RatePhase} (next : Instant)
      (grace : Option Instant) :
      f.phase = .rate r → full = true →
      FrontStep full f p { f with phase := .rate { r with nextTick := next, graceUntil := grace } } p
  | addSent {p : Option (RateJob × ℕ × ℕ)} (n : ℕ) :
      FrontStep full f p { f with phase := f.phase.addSent n } p

theorem Moves.front {full : Bool} {x x' : Mach P} {ins outs : Multiset Op}
    (m : Moves full x ins outs x') :
    FrontStep full x.w.front (prepOf x.todo) x'.w.front (prepOf x'.todo) := by
  cases m with
  | send hc =>
    simp only [Worker.afterSend_eq, prepOf_sendTasks]
    exact .same
  | event =>
    simp only [prepOf_eventTasks]
    exact .same
  | closedOther =>
    simp only [prepOf_closedTasks]
    exact .same
  | rateEvent => exact .answer _ _
  | loseNew ha hj hp h0 => exact .failed _ hp h0
  | newUp cost hp h0 => exact .connected cost hp h0
  | settle hp h0 => exact .settle hp h0
  | done cost hp h0 => exact .complete _ _ cost _ hp h0
  | registerFailed =>
    simp only [Worker.front, Worker.wait, Worker.rx_takeSlot, Worker.given_takeSlot,
      Worker.phase_takeSlot, Worker.sent_takeSlot, Worker.shared_takeSlot]
    exact .same
  | seated =>
    simp only [Worker.front, Worker.install, Worker.put, Worker.wait, Worker.rx_takeSlot,
      Worker.given_takeSlot, Worker.phase_takeSlot, Worker.sent_takeSlot, Worker.shared_takeSlot]
    exact .same
  | flushed r as o t hc hr =>
    rw [Worker.flushed_eq (by exact Worker.lt_of_conn hc), prepOf_flush]
    exact .same
  | read hc =>
    simp only [prepOf_events]
    exact .same
  | timerRearmed ht hc hs =>
    rw [Worker.schedule_eq (Worker.conn_set rfl (Worker.lt_of_conn hc) _ |>.trans (if_pos rfl))]
    exact .same
  | startStop hrx => exact .stop hrx
  | startDial hrx => exact .dial hrx
  | startEcho hrx => exact .echo _ hrx
  | startRate o t hrx =>
    simp only [prepOf_jobs]
    exact .rate _ _ hrx
  | prepared => exact .prepared _
  | finish hf hd => exact .finish hf hd
  | @startDials w d now n hp hn =>
    have hj := prepOf_jobs (mkJobs now .new w.serial (List.replicate n none)) []
    rw [List.append_nil] at hj
    simp only [hj]
    exact .begin hp hn
  | echoWait t hp => exact .wait t hp
  | overdraw hp hn => exact .overdraw hp hn
  | draw hp hx hlt hi hn => exact .draw hp hx hlt hi hn
  | rateStart now hp hd => exact .rateStart _ now hp hd
  | rateTimes next grace hp hd => exact .rateTimes next grace hp hd
  | tickEnd => exact .addSent _
  | _ => exact .same

end Http3Bench
