import Http3Bench.Frameworks.Body
import Http3Bench.Lib.Lookup
import Mathlib.Logic.Relation

/-!
# Handlers that share a pool of buffers

`BodyPool`, and the handlers of the Go servers that read a body into a buffer from it and echo it. The
handlers run at the same time: between any two reads of one of them, and between its response and its
`Put`, the others take buffers, write into them and put them back. A `bufp` is a cell that points to
an array; `make` and `append` point it to a new one. `sync.Pool` hands out any buffer that was put,
or a new one, and may drop what it holds.

`Backing.cell` and `Cell.holder` are history: the cell an array was made for, and who has a cell.
-/

namespace Http3Bench.Frameworks

open Lib

variable {σ : Type}

inductive Holder
  | pool
  | handler (i : ℕ)
  | gone
  deriving DecidableEq

structure Backing where
  bytes : List UInt8
  cell : ℕ

/-- What a `bufp` points to: the first `len` bytes of an array. -/
structure Cell where
  arr : ℕ
  len : ℕ
  holder : Holder

/-- What a handler responds: the body, or the error of reading it. -/
abbrev Response := Except Err (List UInt8)

/-- Where a handler is: `full` in `io.ReadFull` with `n` bytes of `want`, `all` in the loop for a body
of unknown length with `n` bytes, `read` when `ReadBody` has returned the first `n` bytes of `a`. -/
inductive Phase (σ : Type)
  | start
  | got (c : ℕ)
  | full (c a want n : ℕ) (st : σ)
  | all (c a n : ℕ) (st : σ)
  | read (c a n : ℕ) (err : Option Err)
  | wrote (c : ℕ) (resp : Response)
  | done (resp : Response)

structure Handler (σ : Type) where
  request : Request σ
  phase : Phase σ := .start

structure Heap (σ : Type) where
  arrays : List Backing := []
  cells : List Cell := []
  pool : List ℕ := []
  handlers : List (Handler σ) := []

namespace Heap

/-- The error of `io.ReadFull` when `Read` ended with `e` after `n` bytes of `want`. -/
def fullErr (want n : ℕ) (e : Err) : Option Err :=
  if want ≤ n then none else if 0 < n ∧ e = .eof then some .unexpectedEOF else some e

/-- The bytes of an array after a `Read` into those from `n` to `stop`. -/
def store (bytes : List UInt8) (n stop : ℕ) (r : Read σ) : List UInt8 :=
  bytes.take n ++ r.into ((bytes.take stop).drop n) ++ bytes.drop stop

def phase (s : Heap σ) (i : ℕ) (h : Handler σ) (p : Phase σ) : Heap σ :=
  { s with handlers := s.handlers.set i { h with phase := p } }

/-- A new array for the cell `c`. -/
def make (s : Heap σ) (c : ℕ) (bytes : List UInt8) : Heap σ :=
  { s with arrays := s.arrays ++ [⟨bytes, c⟩] }

def setCell (s : Heap σ) (c : ℕ) (C : Cell) : Heap σ := { s with cells := s.cells.set c C }

def setArray (s : Heap σ) (a : ℕ) (A : Backing) : Heap σ := { s with arrays := s.arrays.set a A }

/-- `ReadBody` up to its first read: the buffer is replaced if the body does not fit. -/
def prepare (s : Heap σ) (i : ℕ) (h : Handler σ) (c : ℕ) : Option (Heap σ) := do
  let C ← s.cells[c]?
  let A ← s.arrays[C.arr]?
  let want := h.request.contentLength.toNat
  if 0 ≤ h.request.contentLength then
    if A.bytes.length < want then
      some (((s.make c (List.replicate want 0)).setCell c { C with
        arr := s.arrays.length, len := want }).phase i h (.full c s.arrays.length want 0 h.request.st))
    else some (s.phase i h (.full c C.arr want 0 h.request.st))
  else some (s.phase i h (.all c C.arr 0 h.request.st))

/-- One round of the loop of `io.ReadFull`. -/
def readFullStep (R : Reader σ) (s : Heap σ) (i : ℕ) (h : Handler σ) (c a want n : ℕ) (st : σ) :
    Option (Heap σ) := do
  let A ← s.arrays[a]?
  if n < want then
    let r := R.read st (want - n)
    let s := s.setArray a { A with bytes := store A.bytes n want r }
    let n := n + r.chunk.length
    match r.err with
    | none => some (s.phase i h (.full c a want n r.next))
    | some e => some (s.phase i h (.read c a want (fullErr want n e)))
  else some (s.phase i h (.read c a want none))

/-- One round of the loop for a body of unknown length, or the `append` before it. -/
def readAllStep (R : Reader σ) (G : Growth) (s : Heap σ) (i : ℕ) (h : Handler σ) (c a n : ℕ) (st : σ) :
    Option (Heap σ) := do
  let A ← s.arrays[a]?
  let C ← s.cells[c]?
  if n = A.bytes.length then
    let bytes := A.bytes ++ List.replicate (G.cap A.bytes.length - A.bytes.length) 0
    some ((s.make c bytes).phase i h (.all c s.arrays.length n st))
  else
    let r := R.read st (A.bytes.length - n)
    let s := s.setArray a { A with bytes := store A.bytes n A.bytes.length r }
    let n := n + r.chunk.length
    match r.err with
    | none => some (s.phase i h (.all c a n r.next))
    | some e =>
      some ((s.setCell c { C with arr := a, len := 0 }).phase i h
        (.read c a n (if e = .eof then none else some e)))

/-- What the handler writes. -/
def respond (err : Option Err) (data : List UInt8) : Response :=
  match err with
  | none => .ok data
  | some e => .error e

/-- The next thing handler `i` does, once it has its buffer. -/
def advance (R : Reader σ) (G : Growth) (s : Heap σ) (i : ℕ) : Option (Heap σ) := do
  let h ← s.handlers[i]?
  match h.phase with
  | .got c => s.prepare i h c
  | .full c a want n st => s.readFullStep R i h c a want n st
  | .all c a n st => s.readAllStep R G i h c a n st
  | .read c a n err => do
    let A ← s.arrays[a]?
    some (s.phase i h (.wrote c (respond err (A.bytes.take n))))
  | .wrote c resp => do
    let C ← s.cells[c]?
    some { (s.setCell c { C with holder := .pool }).phase i h (.done resp) with pool := c :: s.pool }
  | .start | .done _ => none

inductive Step (R : Reader σ) (G : Growth) (payload : ℕ) : Heap σ → Heap σ → Prop
  /-- A request arrives. Its reader may fail. -/
  | arrive {s : Heap σ} (q : Request σ) :
      Step R G payload s { s with handlers := s.handlers ++ [{ request := q }] }
  | get {s : Heap σ} {i c : ℕ} {h : Handler σ} {C : Cell} :
      s.handlers[i]? = some h → h.phase = .start → c ∈ s.pool → s.cells[c]? = some C →
      Step R G payload s { (s.setCell c { C with holder := .handler i }).phase i h (.got c) with
        pool := s.pool.erase c }
  /-- `New` of the pool. -/
  | new {s : Heap σ} {i : ℕ} {h : Handler σ} :
      s.handlers[i]? = some h → h.phase = .start →
      Step R G payload s { (s.make s.cells.length (List.replicate payload 0)).phase i h
          (.got s.cells.length) with
        cells := s.cells ++ [⟨s.arrays.length, payload, .handler i⟩] }
  | advance {s s' : Heap σ} {i : ℕ} : s.advance R G i = some s' → Step R G payload s s'
  | drop {s : Heap σ} {c : ℕ} {C : Cell} : c ∈ s.pool → s.cells[c]? = some C →
      Step R G payload s { s.setCell c { C with holder := .gone } with pool := s.pool.erase c }

def Reach (R : Reader σ) (G : Growth) (payload : ℕ) (s : Heap σ) : Prop :=
  Relation.ReflTransGen (Step R G payload) {} s

/-! ### Who has what -/

/-- Handler `i` has the cell `c`, whose array was made for it. -/
structure Held (s : Heap σ) (who : Holder) (c : ℕ) : Prop where
  exists_cell : ∃ C A, s.cells[c]? = some C ∧ C.holder = who ∧ s.arrays[C.arr]? = some A ∧ A.cell = c

/-- The array `a` was made for the cell `c` and starts with `data`, of at least `n` bytes. -/
structure Keeps (s : Heap σ) (c a n : ℕ) (data : List UInt8) : Prop where
  exists_array : ∃ A : Backing, s.arrays[a]? = some A ∧ A.cell = c ∧ n ≤ A.bytes.length ∧
    A.bytes.take data.length = data

/-- What a request is answered with. -/
structure Answers (q : Request σ) (resp : Response) : Prop where
  whole : 0 ≤ q.contentLength → q.contentLength ≤ q.body.length →
    resp = .ok (q.body.take q.contentLength.toNat)
  short : 0 ≤ q.contentLength → q.body.length < q.contentLength →
    resp = .error (if q.body = [] then .eof else .unexpectedEOF)
  unknown : q.contentLength < 0 → resp = .ok q.body

/-- What has been read of the body of a request whose reader delivers it. -/
def Behind (R : Reader σ) (q : Request σ) (data : List UInt8) (st : σ) : Prop :=
  R.Delivers q.st q.body → ∃ rest, R.Delivers st rest ∧ q.body = data ++ rest

/-- A handler has its cell to itself, and what it has read of its body is in its array. -/
def PhaseOk (R : Reader σ) (s : Heap σ) (i : ℕ) (q : Request σ) : Phase σ → Prop
  | .start => True
  | .got c => s.Held (.handler i) c
  | .full c a want n st => s.Held (.handler i) c ∧ 0 ≤ q.contentLength ∧
      want = q.contentLength.toNat ∧ n ≤ want ∧ ∃ data, data.length = n ∧ s.Keeps c a want data ∧
        Behind R q data st
  | .all c a n st => s.Held (.handler i) c ∧ q.contentLength < 0 ∧
      ∃ data, data.length = n ∧ s.Keeps c a n data ∧ Behind R q data st
  | .read c a n err => s.Held (.handler i) c ∧ ∃ A : Backing, s.arrays[a]? = some A ∧ A.cell = c ∧
      (R.Delivers q.st q.body → Answers q (respond err (A.bytes.take n)))
  | .wrote c resp => s.Held (.handler i) c ∧ (R.Delivers q.st q.body → Answers q resp)
  | .done resp => R.Delivers q.st q.body → Answers q resp

structure Inv (R : Reader σ) (s : Heap σ) : Prop where
  handlers : ∀ {i : ℕ} {h : Handler σ}, s.handlers[i]? = some h → PhaseOk R s i h.request h.phase
  pool : ∀ c ∈ s.pool, s.Held .pool c
  nodup : s.pool.Nodup

/-- What is done for the cell `c` leaves the other cells and their arrays as they are. -/
structure Frame (c : ℕ) (s s' : Heap σ) : Prop where
  cells : ∀ {c' : ℕ} {C : Cell}, c' ≠ c → s.cells[c']? = some C → s'.cells[c']? = some C
  arrays : ∀ {a : ℕ} {A : Backing}, A.cell ≠ c → s.arrays[a]? = some A → s'.arrays[a]? = some A

variable {R : Reader σ} {G : Growth} {payload : ℕ} {s s' : Heap σ} {i c a n : ℕ} {who : Holder}
  {q : Request σ}

theorem Held.frame (h : s.Held who c) {c₀ : ℕ} (hf : Frame c₀ s s') (hne : c ≠ c₀) :
    s'.Held who c := by
  obtain ⟨C, A, hC, hwho, hA, hcell⟩ := h.exists_cell
  exact ⟨C, A, hf.cells hne hC, hwho, hf.arrays (hcell ▸ hne) hA, hcell⟩

theorem Keeps.frame {data : List UInt8} (h : s.Keeps c a n data) {c₀ : ℕ} (hf : Frame c₀ s s')
    (hne : c ≠ c₀) : s'.Keeps c a n data := by
  obtain ⟨A, hA, hcell, hrest⟩ := h.exists_array
  exact ⟨A, hf.arrays (hcell ▸ hne) hA, hcell, hrest⟩

/-- A cell is had by one at a time. -/
theorem Held.unique {who' : Holder} (h : s.Held who c) (h' : s.Held who' c) : who = who' := by
  obtain ⟨C, _, hC, hwho, _⟩ := h.exists_cell
  obtain ⟨C', _, hC', hwho', _⟩ := h'.exists_cell
  obtain rfl := Option.some.inj (hC.symm.trans hC')
  exact hwho.symm.trans hwho'

/-- Another handler does not notice. -/
theorem PhaseOk.frame {p : Phase σ} (h : PhaseOk R s i q p) {c₀ : ℕ} (hf : Frame c₀ s s')
    (hne : ∀ c, s.Held (.handler i) c → c ≠ c₀) : PhaseOk R s' i q p := by
  cases p with
  | start => exact h
  | got c => exact Held.frame h hf (hne c h)
  | full c a want n st =>
    obtain ⟨hheld, h0, hwant, hle, data, hlen, hkeeps, hbehind⟩ := h
    exact ⟨hheld.frame hf (hne c hheld), h0, hwant, hle, data, hlen, hkeeps.frame hf (hne c hheld),
      hbehind⟩
  | all c a n st =>
    obtain ⟨hheld, h0, data, hlen, hkeeps, hbehind⟩ := h
    exact ⟨hheld.frame hf (hne c hheld), h0, data, hlen, hkeeps.frame hf (hne c hheld), hbehind⟩
  | read c a n err =>
    obtain ⟨hheld, A, hA, hcell, hans⟩ := h
    exact ⟨hheld.frame hf (hne c hheld), A, hf.arrays (hcell ▸ hne c hheld) hA, hcell, hans⟩
  | wrote c resp => exact ⟨h.1.frame hf (hne c h.1), h.2⟩
  | done resp => exact h

/-! ### One step -/

variable {h : Handler σ} {p : Phase σ}

/-- Something is done for the cell `c`, which those that are not looked at do not have. -/
theorem Inv.of_frame (hs : Inv R s) (hf : Frame c s s')
    (hhandlers : ∀ {k : ℕ} {h' : Handler σ}, s'.handlers[k]? = some h' →
      PhaseOk R s' k h'.request h'.phase ∨ s.handlers[k]? = some h' ∧ ¬s.Held (.handler k) c)
    (hpool : ∀ c' ∈ s'.pool, s'.Held .pool c' ∨ c' ≠ c ∧ c' ∈ s.pool) (hnodup : s'.pool.Nodup) :
    Inv R s' := by
  refine ⟨fun {k h'} hk => ?_, fun c' hc' => ?_, hnodup⟩
  · rcases hhandlers hk with hok | ⟨hk, hnot⟩
    · exact hok
    · exact (hs.handlers hk).frame hf (fun c' hc' heq => hnot (heq ▸ hc'))
  · rcases hpool c' hc' with hpooled | ⟨hne, hmem⟩
    · exact hpooled
    · exact (hs.pool c' hmem).frame hf hne

/-- Handler `i` does something with its own cell. -/
theorem Inv.own (hs : Inv R s) (hi : s.handlers[i]? = some h) (hheld : s.Held (.handler i) c)
    (hf : Frame c s s') (hhandlers : s'.handlers = s.handlers.set i { h with phase := p })
    (hpool : s'.pool = s.pool) (hp : PhaseOk R s' i h.request p) : Inv R s' := by
  refine hs.of_frame hf (fun {k h'} hk => ?_) (fun c' hc' => .inr ⟨fun heq => ?_, hpool ▸ hc'⟩)
    (hpool ▸ hs.nodup)
  · rw [hhandlers] at hk
    rcases getElem?_set_cases hk with ⟨rfl, rfl⟩ | ⟨hne, hk⟩
    · exact .inl hp
    · exact .inr ⟨hk, fun hc => hne (Holder.handler.inj (hc.unique hheld))⟩
  · have hpooled := hs.pool c' (hpool ▸ hc')
    cases (heq ▸ hpooled).unique hheld

theorem frame_phase (s : Heap σ) (c i : ℕ) (h : Handler σ) (p : Phase σ) : Frame c s (s.phase i h p) :=
  ⟨fun _ hC => hC, fun _ hA => hA⟩

theorem frame_setCell (s : Heap σ) (c : ℕ) (C : Cell) : Frame c s (s.setCell c C) :=
  ⟨fun hne hC => (List.getElem?_set_ne (Ne.symm hne)).trans hC, fun _ hA => hA⟩

theorem frame_make (s : Heap σ) (c : ℕ) (bytes : List UInt8) : Frame c s (s.make c bytes) :=
  ⟨fun _ hC => hC, fun _ hA => getElem?_append_of_some hA⟩

theorem frame_setArray {A : Backing} (hA : s.arrays[a]? = some A) (hcell : A.cell = c) (A' : Backing) :
    Frame c s (s.setArray a A') := by
  refine ⟨fun _ hC => hC, fun {a' A₁} hne hA₁ => ?_⟩
  have ha : a ≠ a' := by
    rintro rfl
    exact hne ((congrArg Backing.cell (Option.some.inj (hA₁.symm.trans hA))).trans hcell)
  exact (List.getElem?_set_ne ha).trans hA₁

theorem Frame.trans {s'' : Heap σ} (h : Frame c s s') (h' : Frame c s' s'') : Frame c s s'' :=
  ⟨fun hne hC => h'.cells hne (h.cells hne hC), fun hne hA => h'.arrays hne (h.arrays hne hA)⟩

/-- An array is written, or made. -/
theorem Held.setArray (hheld : s.Held who c) {A : Backing} (hA : s.arrays[a]? = some A)
    (bytes : List UInt8) : (s.setArray a { A with bytes }).Held who c := by
  obtain ⟨C, A₁, hC, hwho, hA₁, hcell⟩ := hheld.exists_cell
  by_cases ha : a = C.arr
  · subst ha
    obtain rfl := Option.some.inj (hA.symm.trans hA₁)
    exact ⟨C, _, hC, hwho, getElem?_set_of_some hA, hcell⟩
  · exact ⟨C, A₁, hC, hwho, (List.getElem?_set_ne ha).trans hA₁, hcell⟩

theorem Held.make (hheld : s.Held who c) (c' : ℕ) (bytes : List UInt8) :
    (s.make c' bytes).Held who c := by
  obtain ⟨C, A, hC, hwho, hA, hcell⟩ := hheld.exists_cell
  exact ⟨C, A, hC, hwho, getElem?_append_of_some hA, hcell⟩

theorem Held.setCell (hheld : s.Held who c) {A : Backing} (hA : s.arrays[a]? = some A)
    (hcell : A.cell = c) (len : ℕ) (who' : Holder) : (s.setCell c ⟨a, len, who'⟩).Held who' c := by
  obtain ⟨C, _, hC, _⟩ := hheld.exists_cell
  exact ⟨_, A, getElem?_set_of_some hC, rfl, hA, hcell⟩

/-- What is read comes after what was there. -/
theorem store_spec {bytes : List UInt8} {n stop : ℕ} {r : Read σ} (hn : n ≤ stop)
    (hstop : stop ≤ bytes.length) (hle : r.chunk.length + r.scratch.length ≤ stop - n) :
    (store bytes n stop r).length = bytes.length ∧
      (store bytes n stop r).take (n + r.chunk.length) = bytes.take n ++ r.chunk := by
  have hlen : (bytes.take stop).length = stop := by
    rw [List.length_take]
    omega
  obtain ⟨hl, ht⟩ := @length_read _ (bytes.take stop) n r (hlen.symm ▸ hn) (hlen.symm ▸ hle)
  have htake : (bytes.take stop).take n = bytes.take n := by
    rw [List.take_take, Nat.min_eq_left hn]
  rw [htake] at hl ht
  unfold store
  constructor
  · rw [List.length_append, hl, hlen, List.length_drop]
    omega
  · rw [List.take_append_of_le_length (by rw [hl, hlen]; omega), ht]

theorem Held.phase (hheld : s.Held who c) (i : ℕ) (h : Handler σ) (p : Phase σ) :
    (s.phase i h p).Held who c :=
  ⟨hheld.exists_cell⟩

theorem Inv.prepare (hs : Inv R s) (hi : s.handlers[i]? = some h) (hp : h.phase = .got c)
    (hstep : s.prepare i h c = some s') : Inv R s' := by
  have hheld := hs.handlers hi
  rw [hp] at hheld
  obtain ⟨C, A, hC, hwho, hA, hcell⟩ := Held.exists_cell hheld
  have hbehind : Behind R h.request [] h.request.st := fun hdel => ⟨h.request.body, hdel, rfl⟩
  unfold Heap.prepare at hstep
  simp only [hC, hA, Option.bind_eq_bind, Option.bind_some] at hstep
  split at hstep
  · rename_i h0
    split at hstep
    · obtain rfl := Option.some.inj hstep
      have hnew : (s.make c (List.replicate h.request.contentLength.toNat 0)).arrays[s.arrays.length]? =
          some ⟨List.replicate h.request.contentLength.toNat 0, c⟩ := List.getElem?_concat_length
      have hheld' := (Held.make hheld c _).setCell hnew rfl h.request.contentLength.toNat C.holder
      have hkeeps : Keeps _ c s.arrays.length h.request.contentLength.toNat [] :=
        ⟨_, hnew, rfl, Nat.le_of_eq (List.length_replicate ..).symm, rfl⟩
      rw [hwho] at hheld' ⊢
      exact hs.own hi hheld ((frame_make s c _).trans ((frame_setCell _ c _).trans
        (frame_phase _ c i h _))) rfl rfl ⟨hheld'.phase i h _, h0, rfl, Nat.zero_le _, [], rfl,
          ⟨hkeeps.exists_array⟩, hbehind⟩
    · rename_i hfits
      obtain rfl := Option.some.inj hstep
      exact hs.own hi hheld (frame_phase s c i h _) rfl rfl ⟨Held.phase hheld i h _, h0, rfl,
        Nat.zero_le _, [], rfl, ⟨A, hA, hcell, by omega, rfl⟩, hbehind⟩
  · rename_i h0
    obtain rfl := Option.some.inj hstep
    exact hs.own hi hheld (frame_phase s c i h _) rfl rfl ⟨Held.phase hheld i h _, by omega, [], rfl,
      ⟨A, hA, hcell, Nat.zero_le _, rfl⟩, hbehind⟩

theorem Behind.next {data : List UInt8} {st : σ} (h : Behind R q data st) {m : ℕ} (hm : 0 < m)
    (herr : (R.read st m).err = none) :
    Behind R q (data ++ (R.read st m).chunk) (R.read st m).next := by
  intro hdel
  obtain ⟨rest, hrest, hbody⟩ := h hdel
  cases hrest with
  | intro rest' more next last =>
    refine ⟨rest' m, next m hm herr, ?_⟩
    rw [hbody, more m hm herr, List.append_assoc]

theorem Behind.last {data : List UInt8} {st : σ} (h : Behind R q data st) {m : ℕ} (hm : 0 < m)
    {e : Err} (herr : (R.read st m).err = some e) (hdel : R.Delivers q.st q.body) :
    e = .eof ∧ q.body = data ++ (R.read st m).chunk := by
  obtain ⟨rest, hrest, hbody⟩ := h hdel
  cases hrest with
  | intro rest' more next last =>
    obtain ⟨he, hchunk⟩ := last m e hm herr
    exact ⟨he, hbody.trans (by rw [← hchunk])⟩

theorem answers_whole {data rest : List UInt8} (h0 : 0 ≤ q.contentLength)
    (hbody : q.body = data ++ rest) (hlen : data.length = q.contentLength.toNat) :
    Answers q (.ok data) where
  whole _ _ := by rw [hbody, ← hlen, List.take_left]
  short _ hshort := by
    rw [hbody, List.length_append] at hshort
    omega
  unknown hneg := by omega

theorem answers_short (h0 : 0 ≤ q.contentLength) (hlt : q.body.length < q.contentLength.toNat) :
    Answers q (respond (fullErr q.contentLength.toNat q.body.length .eof) []) where
  whole _ hwhole := by omega
  short _ _ := by
    rw [fullErr, if_neg (by omega)]
    by_cases hempty : q.body = []
    · rw [if_neg (by simp [hempty]), if_pos hempty]
      rfl
    · rw [if_pos ⟨List.length_pos_iff.mpr hempty, rfl⟩, if_neg hempty]
      rfl
  unknown hneg := by omega

/-- A `Read` into the array of a cell, after the bytes that are there. -/
theorem Keeps.store {data : List UInt8} {A : Backing} {stop : ℕ} {r : Read σ} (hA : s.arrays[a]? = some A)
    (hcell : A.cell = c) (htake : A.bytes.take data.length = data) (hn : data.length ≤ stop)
    (hstop : stop ≤ A.bytes.length) (hle : r.chunk.length + r.scratch.length ≤ stop - data.length) :
    (s.setArray a { A with bytes := Heap.store A.bytes data.length stop r }).Keeps c a stop
      (data ++ r.chunk) := by
  obtain ⟨hlen, hread⟩ := store_spec hn hstop hle
  refine ⟨_, getElem?_set_of_some hA, hcell, hlen ▸ hstop, ?_⟩
  rw [List.length_append]
  exact hread.trans (by rw [htake])

theorem Inv.readFullStep (hs : Inv R s) (hi : s.handlers[i]? = some h) {want : ℕ} {st : σ}
    (hp : h.phase = .full c a want n st) (hstep : s.readFullStep R i h c a want n st = some s') :
    Inv R s' := by
  have hok := hs.handlers hi
  rw [hp] at hok
  obtain ⟨hheld, h0, rfl, hle, data, rfl, hkeeps, hbehind⟩ := hok
  obtain ⟨A, hA, hcell, hstop, htake⟩ := hkeeps.exists_array
  unfold Heap.readFullStep at hstep
  simp only [hA, Option.bind_eq_bind, Option.bind_some] at hstep
  split at hstep
  · rename_i hlt
    have hpos : 0 < h.request.contentLength.toNat - data.length := by omega
    have hroom := R.le st (h.request.contentLength.toNat - data.length)
    have hnext := hbehind.next hpos
    have hlast := fun e => hbehind.last (e := e) hpos
    generalize R.read st (h.request.contentLength.toNat - data.length) = r at hstep hroom hnext hlast
    have hkeeps' := Keeps.store hA hcell htake hle hstop hroom
    have hheld' := hheld.setArray hA (Heap.store A.bytes data.length h.request.contentLength.toNat r)
    have hframe := frame_setArray hA hcell
      { A with bytes := Heap.store A.bytes data.length h.request.contentLength.toNat r }
    cases herr : r.err with
    | none =>
      simp only [herr, Option.some.injEq] at hstep
      subst hstep
      exact hs.own hi hheld (hframe.trans (frame_phase _ c i h _)) rfl rfl ⟨hheld'.phase i h _, h0, rfl,
        by omega, data ++ r.chunk, List.length_append, ⟨hkeeps'.exists_array⟩, hnext herr⟩
    | some e =>
      simp only [herr, Option.some.injEq] at hstep
      subst hstep
      obtain ⟨A', hA', hcell', hstop', htake'⟩ := hkeeps'.exists_array
      refine hs.own hi hheld (hframe.trans (frame_phase _ c i h _)) rfl rfl ⟨hheld'.phase i h _, A', hA',
        hcell', fun hdel => ?_⟩
      obtain ⟨rfl, hbody⟩ := hlast e herr hdel
      have hlen : data.length + r.chunk.length = h.request.body.length := by
        rw [hbody, List.length_append]
      by_cases hfull : h.request.contentLength.toNat ≤ data.length + r.chunk.length
      · have heq : (data ++ r.chunk).length = h.request.contentLength.toNat := by
          rw [List.length_append]
          omega
        rw [fullErr, if_pos hfull, ← heq, htake']
        exact answers_whole h0 (hbody.trans (List.append_nil _).symm) heq
      · have hshort := answers_short h0 (q := h.request) (by omega)
        rw [hlen]
        unfold fullErr at hshort ⊢
        rw [if_neg (by omega)] at hshort ⊢
        split at hshort
        · rw [if_pos ‹_›]
          exact hshort
        · rw [if_neg ‹_›]
          exact hshort
  · rename_i hlt
    obtain rfl := Option.some.inj hstep
    refine hs.own hi hheld (frame_phase s c i h _) rfl rfl ⟨hheld.phase i h _, A, hA, hcell,
      fun hdel => ?_⟩
    obtain ⟨rest, _, hbody⟩ := hbehind hdel
    have heq : data.length = h.request.contentLength.toNat := by omega
    rw [← heq, htake]
    exact answers_whole h0 hbody heq

theorem answers_unknown (hneg : q.contentLength < 0) : Answers q (.ok q.body) where
  whole h0 := by omega
  short h0 := by omega
  unknown _ := rfl

theorem Inv.readAllStep (hs : Inv R s) (hi : s.handlers[i]? = some h) {st : σ}
    (hp : h.phase = .all c a n st) (hstep : s.readAllStep R G i h c a n st = some s') : Inv R s' := by
  have hok := hs.handlers hi
  rw [hp] at hok
  obtain ⟨hheld, hneg, data, rfl, hkeeps, hbehind⟩ := hok
  obtain ⟨C, _, hC, hwho, _⟩ := hheld.exists_cell
  obtain ⟨A, hA, hcell, hstop, htake⟩ := hkeeps.exists_array
  unfold Heap.readAllStep at hstep
  simp only [hA, hC, Option.bind_eq_bind, Option.bind_some] at hstep
  split at hstep
  · rename_i hfull
    obtain rfl := Option.some.inj hstep
    refine hs.own hi hheld ((frame_make s c _).trans (frame_phase _ c i h _)) rfl rfl
      ⟨(hheld.make c _).phase i h _, hneg, data, rfl, ⟨_, List.getElem?_concat_length, rfl, ?_, ?_⟩, hbehind⟩
    · rw [List.length_append]
      omega
    · exact (List.take_append_of_le_length hstop).trans htake
  · rename_i hfull
    have hpos : 0 < A.bytes.length - data.length := by omega
    have hroom := R.le st (A.bytes.length - data.length)
    have hnext := hbehind.next hpos
    have hlast := fun e => hbehind.last (e := e) hpos
    generalize R.read st (A.bytes.length - data.length) = r at hstep hroom hnext hlast
    have hkeeps' := Keeps.store hA hcell htake hstop (Nat.le_refl _) hroom
    have hheld' := hheld.setArray hA (Heap.store A.bytes data.length A.bytes.length r)
    have hframe := frame_setArray hA hcell
      { A with bytes := Heap.store A.bytes data.length A.bytes.length r }
    obtain ⟨A', hA', hcell', hstop', htake'⟩ := hkeeps'.exists_array
    cases herr : r.err with
    | none =>
      simp only [herr, Option.some.injEq] at hstep
      subst hstep
      exact hs.own hi hheld (hframe.trans (frame_phase _ c i h _)) rfl rfl ⟨hheld'.phase i h _, hneg,
        data ++ r.chunk, List.length_append, ⟨A', hA', hcell', by omega, htake'⟩, hnext herr⟩
    | some e =>
      simp only [herr, Option.some.injEq] at hstep
      subst hstep
      have hheld'' := hheld'.setCell hA' hcell' 0 C.holder
      rw [hwho] at hheld'' ⊢
      refine hs.own hi hheld (hframe.trans ((frame_setCell _ c _).trans (frame_phase _ c i h _))) rfl rfl
        ⟨hheld''.phase i h _, A', hA', hcell', fun hdel => ?_⟩
      obtain ⟨rfl, hbody⟩ := hlast e herr hdel
      rw [if_pos rfl, ← List.length_append, htake', ← hbody]
      exact answers_unknown hneg

/-! ### The pool -/

theorem Held.pool {l : List ℕ} (hheld : s.Held who c) : Held { s with pool := l } who c :=
  ⟨hheld.exists_cell⟩

theorem Inv.put (hs : Inv R s) (hi : s.handlers[i]? = some h) {resp : Response}
    (hp : h.phase = .wrote c resp) {C : Cell} (hC : s.cells[c]? = some C) :
    Inv R { (s.setCell c { C with holder := .pool }).phase i h (.done resp) with pool := c :: s.pool } := by
  have hok := hs.handlers hi
  rw [hp] at hok
  obtain ⟨hheld, hans⟩ := hok
  obtain ⟨C', A, hC', _, hA, hcell⟩ := hheld.exists_cell
  obtain rfl := Option.some.inj (hC.symm.trans hC')
  refine hs.of_frame ((frame_setCell s c _).trans ⟨fun _ hC => hC, fun _ hA => hA⟩) (fun {k h'} hk => ?_)
    (fun c' hc' => ?_) (List.nodup_cons.mpr ⟨fun hmem => ?_, hs.nodup⟩)
  · rcases getElem?_set_cases hk with ⟨rfl, rfl⟩ | ⟨hne, hk⟩
    · exact .inl hans
    · exact .inr ⟨hk, fun hc => hne (Holder.handler.inj (hc.unique hheld))⟩
  · rcases List.mem_cons.mp hc' with rfl | hmem
    · exact .inl ((hheld.setCell hA hcell C.len .pool).phase i h _).pool
    · refine .inr ⟨fun heq => ?_, hmem⟩
      cases (heq ▸ hs.pool c' hmem).unique hheld
  · cases (hs.pool c hmem).unique hheld

/-- A buffer leaves the pool. -/
theorem Inv.take (hs : Inv R s) (hmem : c ∈ s.pool) : s.Held .pool c ∧
    (∀ c' ∈ s.pool.erase c, c' ≠ c ∧ c' ∈ s.pool) ∧ (s.pool.erase c).Nodup :=
  ⟨hs.pool c hmem, fun _ hc' => (hs.nodup.mem_erase_iff).mp hc', hs.nodup.erase c⟩

theorem Inv.get (hs : Inv R s) (hi : s.handlers[i]? = some h) (hmem : c ∈ s.pool) {C : Cell}
    (hC : s.cells[c]? = some C) :
    Inv R { (s.setCell c { C with holder := .handler i }).phase i h (.got c) with
      pool := s.pool.erase c } := by
  obtain ⟨hheld, herase, hnodup⟩ := hs.take hmem
  obtain ⟨C', A, hC', _, hA, hcell⟩ := hheld.exists_cell
  obtain rfl := Option.some.inj (hC.symm.trans hC')
  refine hs.of_frame ((frame_setCell s c _).trans ⟨fun _ hC => hC, fun _ hA => hA⟩) (fun {k h'} hk => ?_)
    (fun c' hc' => .inr (herase c' hc')) hnodup
  rcases getElem?_set_cases hk with ⟨rfl, rfl⟩ | ⟨_, hk⟩
  · exact .inl ((hheld.setCell hA hcell C.len _).phase k h _).pool
  · refine .inr ⟨hk, fun hc => ?_⟩
    cases hc.unique hheld

theorem Inv.drop (hs : Inv R s) (hmem : c ∈ s.pool) (C : Cell) :
    Inv R { s.setCell c C with pool := s.pool.erase c } := by
  obtain ⟨hheld, herase, hnodup⟩ := hs.take hmem
  refine hs.of_frame ((frame_setCell s c _).trans ⟨fun _ hC => hC, fun _ hA => hA⟩)
    (fun {k h'} hk => .inr ⟨hk, fun hc => ?_⟩) (fun c' hc' => .inr (herase c' hc')) hnodup
  cases hc.unique hheld

theorem Held.lt (hheld : s.Held who c) : c < s.cells.length := by
  obtain ⟨C, _, hC, _⟩ := hheld.exists_cell
  exact (List.getElem?_eq_some_iff.mp hC).1

theorem Inv.new (hs : Inv R s) (hi : s.handlers[i]? = some h) (payload : ℕ) :
    Inv R { (s.make s.cells.length (List.replicate payload 0)).phase i h (.got s.cells.length) with
      cells := s.cells ++ [⟨s.arrays.length, payload, .handler i⟩] } := by
  refine hs.of_frame (c := s.cells.length) ⟨fun _ hC => getElem?_append_of_some hC,
    fun _ hA => getElem?_append_of_some hA⟩ (fun {k h'} hk => ?_)
    (fun c' hc' => .inr ⟨Nat.ne_of_lt (hs.pool c' hc').lt, hc'⟩) hs.nodup
  rcases getElem?_set_cases hk with ⟨rfl, rfl⟩ | ⟨_, hk⟩
  · exact .inl ⟨_, _, List.getElem?_concat_length, rfl, List.getElem?_concat_length, rfl⟩
  · exact .inr ⟨hk, fun hc => Nat.lt_irrefl _ hc.lt⟩

theorem Inv.advance (hs : Inv R s) (hstep : s.advance R G i = some s') : Inv R s' := by
  obtain ⟨h, hi, hstep⟩ := Option.bind_eq_some_iff.mp hstep
  have hok := hs.handlers hi
  cases hp : h.phase with
  | start => simp only [hp, reduceCtorEq] at hstep
  | got c =>
    simp only [hp] at hstep
    exact hs.prepare hi hp hstep
  | full c a want n st =>
    simp only [hp] at hstep
    exact hs.readFullStep hi hp hstep
  | all c a n st =>
    simp only [hp] at hstep
    exact hs.readAllStep hi hp hstep
  | read c a n err =>
    rw [hp] at hok
    obtain ⟨hheld, A, hA, hcell, hans⟩ := hok
    simp only [hp, hA, Option.bind_eq_bind, Option.bind_some, Option.some.injEq] at hstep
    subst hstep
    exact hs.own hi hheld (frame_phase s c i h _) rfl rfl ⟨hheld.phase i h _, hans⟩
  | wrote c resp =>
    simp only [hp] at hstep
    obtain ⟨C, hC, hstep⟩ := Option.bind_eq_some_iff.mp hstep
    obtain rfl := Option.some.inj hstep
    exact hs.put hi hp hC
  | done resp => simp only [hp, reduceCtorEq] at hstep

theorem Step.inv (hstep : Step R G payload s s') (hs : Inv R s) : Inv R s' := by
  cases hstep with
  | arrive q =>
    refine ⟨fun {k h'} hk => ?_, fun c hc => ⟨(hs.pool c hc).exists_cell⟩, hs.nodup⟩
    rcases getElem?_append_cases hk with ⟨_, rfl⟩ | hk
    · exact trivial
    · have hf : Frame s.cells.length s { s with handlers := s.handlers ++ [{ request := q }] } :=
        ⟨fun _ hC => hC, fun _ hA => hA⟩
      exact (hs.handlers hk).frame hf (fun c hc => Nat.ne_of_lt hc.lt)
  | get hi _ hmem hC => exact hs.get hi hmem hC
  | new hi _ => exact hs.new hi payload
  | advance hstep => exact hs.advance hstep
  | drop hmem hC => exact hs.drop hmem _

theorem Reach.inv (h : Reach R G payload s) : Inv R s := by
  induction h with
  | refl => exact ⟨fun hk => by simp at hk, fun c hc => absurd hc List.not_mem_nil, List.nodup_nil⟩
  | tail _ hstep ih => exact hstep.inv ih

/-! ### A handler by itself -/

/-- The handler of `q` responds if it is left to run. -/
def Finishes (R : Reader σ) (G : Growth) (s : Heap σ) (i : ℕ) (q : Request σ) : Prop :=
  ∃ s' resp, Relation.ReflTransGen (fun s s' : Heap σ => s.advance R G i = some s') s s' ∧
    s'.handlers[i]? = some ⟨q, .done resp⟩

theorem Finishes.head (hstep : s.advance R G i = some s') (h : Finishes R G s' i q) :
    Finishes R G s i q := by
  obtain ⟨s'', resp, hrun, hdone⟩ := h
  exact ⟨s'', resp, hrun.head hstep, hdone⟩

theorem finishes_wrote (hs : Inv R s) {resp : Response} (hi : s.handlers[i]? = some ⟨q, .wrote c resp⟩) :
    Finishes R G s i q := by
  obtain ⟨C, _, hC, _⟩ := (hs.handlers hi).1.exists_cell
  refine Finishes.head (by simp only [Heap.advance, hi, hC, Option.bind_eq_bind, Option.bind_some]; rfl)
    ⟨_, resp, .refl, getElem?_set_of_some hi⟩

theorem finishes_read (hs : Inv R s) {err : Option Err} (hi : s.handlers[i]? = some ⟨q, .read c a n err⟩) :
    Finishes R G s i q := by
  obtain ⟨_, A, hA, _⟩ := hs.handlers hi
  have hstep : s.advance R G i = some (s.phase i ⟨q, .read c a n err⟩
      (.wrote c (respond err (A.bytes.take n)))) := by
    simp only [Heap.advance, hi, hA, Option.bind_eq_bind, Option.bind_some]
  exact .head hstep (finishes_wrote (hs.advance hstep) (getElem?_set_of_some hi))

theorem readFullStep_next {want : ℕ} {st : σ} (hi : s.handlers[i]? = some ⟨q, .full c a want n st⟩)
    {A : Backing} (hA : s.arrays[a]? = some A) : ∃ s' p, s.advance R G i = some s' ∧
      s'.handlers[i]? = some ⟨q, p⟩ ∧ ((∃ err, p = .read c a want err) ∨
        n < want ∧ (R.read st (want - n)).err = none ∧
          ∃ n', p = .full c a want n' (R.read st (want - n)).next) := by
  simp only [Heap.advance, hi, readFullStep, hA, Option.bind_eq_bind, Option.bind_some]
  by_cases hlt : n < want
  · rw [if_pos hlt]
    cases herr : (R.read st (want - n)).err with
    | none => exact ⟨_, _, rfl, getElem?_set_of_some hi, .inr ⟨hlt, rfl, _, rfl⟩⟩
    | some e => exact ⟨_, _, rfl, getElem?_set_of_some hi, .inl ⟨_, rfl⟩⟩
  · rw [if_neg hlt]
    exact ⟨_, _, rfl, getElem?_set_of_some hi, .inl ⟨_, rfl⟩⟩

/-- `io.ReadFull` ends: what the reader has left gets less, or it reports the end. -/
theorem finishes_full {st : σ} {rest : List UInt8} (hdel : R.Delivers st rest) {want : ℕ} (hs : Inv R s)
    (hi : s.handlers[i]? = some ⟨q, .full c a want n st⟩) : Finishes R G s i q := by
  induction hdel generalizing s n with
  | intro _ _ _ _ ih =>
    obtain ⟨_, _, _, _, _, _, hkeeps, _⟩ := hs.handlers hi
    obtain ⟨A, hA, _⟩ := hkeeps.exists_array
    obtain ⟨s', p, hstep, hi', ⟨err, rfl⟩ | ⟨hlt, herr, n', rfl⟩⟩ := readFullStep_next hi hA
    · exact .head hstep (finishes_read (hs.advance hstep) hi')
    · exact .head hstep (ih _ (by omega) herr (hs.advance hstep) hi')

theorem readAllStep_grow {st : σ} (hi : s.handlers[i]? = some ⟨q, .all c a n st⟩) {A : Backing} {C : Cell}
    (hA : s.arrays[a]? = some A) (hC : s.cells[c]? = some C) (hn : n = A.bytes.length) :
    ∃ s' a' A', s.advance R G i = some s' ∧ s'.handlers[i]? = some ⟨q, .all c a' n st⟩ ∧
      s'.arrays[a']? = some A' ∧ n < A'.bytes.length := by
  simp only [Heap.advance, hi, readAllStep, hA, hC, Option.bind_eq_bind, Option.bind_some]
  rw [if_pos hn]
  refine ⟨_, _, _, rfl, getElem?_set_of_some hi, List.getElem?_concat_length, ?_⟩
  have hcap := G.lt_cap A.bytes.length
  rw [List.length_append, List.length_replicate]
  omega

theorem readAllStep_next {st : σ} (hi : s.handlers[i]? = some ⟨q, .all c a n st⟩) {A : Backing} {C : Cell}
    (hA : s.arrays[a]? = some A) (hC : s.cells[c]? = some C) (hn : n < A.bytes.length) :
    ∃ s' p, s.advance R G i = some s' ∧ s'.handlers[i]? = some ⟨q, p⟩ ∧
      ((∃ n' err, p = .read c a n' err) ∨ (R.read st (A.bytes.length - n)).err = none ∧
        ∃ n', p = .all c a n' (R.read st (A.bytes.length - n)).next) := by
  simp only [Heap.advance, hi, readAllStep, hA, hC, Option.bind_eq_bind, Option.bind_some]
  rw [if_neg (by omega)]
  cases herr : (R.read st (A.bytes.length - n)).err with
  | none => exact ⟨_, _, rfl, getElem?_set_of_some hi, .inr ⟨rfl, _, rfl⟩⟩
  | some e => exact ⟨_, _, rfl, getElem?_set_of_some hi, .inl ⟨_, _, rfl⟩⟩

/-- The loop for a body of unknown length ends: each read has room, since the array grows before. -/
theorem finishes_all {st : σ} {rest : List UInt8} (hdel : R.Delivers st rest) (hs : Inv R s)
    (hi : s.handlers[i]? = some ⟨q, .all c a n st⟩) : Finishes R G s i q := by
  induction hdel generalizing s n a with
  | @intro st _ _ _ _ _ ih =>
    -- a read from an array that is not full
    have hread : ∀ {s : Heap σ} {a : ℕ} {A : Backing}, Inv R s →
        s.handlers[i]? = some ⟨q, .all c a n st⟩ → s.arrays[a]? = some A → n < A.bytes.length →
        Finishes R G s i q := by
      intro s a A hs hi hA hlt
      obtain ⟨C, _, hC, _⟩ := (hs.handlers hi).1.exists_cell
      obtain ⟨s', p, hstep, hi', ⟨n', err, rfl⟩ | ⟨herr, n', rfl⟩⟩ := readAllStep_next hi hA hC hlt
      · exact .head hstep (finishes_read (hs.advance hstep) hi')
      · exact .head hstep (ih _ (by omega) herr (hs.advance hstep) hi')
    obtain ⟨hheld, _, _, hlen, hkeeps, _⟩ := hs.handlers hi
    obtain ⟨C, _, hC, _⟩ := hheld.exists_cell
    obtain ⟨A, hA, _, hle, _⟩ := hkeeps.exists_array
    by_cases hn : n = A.bytes.length
    · obtain ⟨s', a', A', hstep, hi', hA', hlt⟩ := readAllStep_grow hi hA hC hn
      exact .head hstep (hread (hs.advance hstep) hi' hA' hlt)
    · exact hread hs hi hA (by omega)

theorem finishes_got (hdel : R.Delivers q.st q.body) (hs : Inv R s)
    (hi : s.handlers[i]? = some ⟨q, .got c⟩) : Finishes R G s i q := by
  obtain ⟨C, A, hC, _, hA, _⟩ := Held.exists_cell (hs.handlers hi)
  have hadvance : s.advance R G i = s.prepare i ⟨q, .got c⟩ c := by
    simp only [Heap.advance, hi, Option.bind_eq_bind, Option.bind_some]
  simp only [Heap.prepare, hC, hA, Option.bind_eq_bind, Option.bind_some] at hadvance
  split at hadvance
  · split at hadvance
    · exact .head hadvance (finishes_full hdel (hs.advance hadvance) (getElem?_set_of_some hi))
    · exact .head hadvance (finishes_full hdel (hs.advance hadvance) (getElem?_set_of_some hi))
  · exact .head hadvance (finishes_all hdel (hs.advance hadvance) (getElem?_set_of_some hi))

theorem finishes (hs : Inv R s) {p : Phase σ} (hi : s.handlers[i]? = some ⟨q, p⟩) (hp : p ≠ .start)
    (hdel : R.Delivers q.st q.body) : Finishes R G s i q := by
  have hok := hs.handlers hi
  cases p with
  | start => exact absurd rfl hp
  | got c => exact finishes_got hdel hs hi
  | full c a want n st =>
    obtain ⟨_, _, _, _, data, _, _, hbehind⟩ := hok
    obtain ⟨rest, hrest, _⟩ := hbehind hdel
    exact finishes_full hrest hs hi
  | all c a n st =>
    obtain ⟨_, _, data, _, _, hbehind⟩ := hok
    obtain ⟨rest, hrest, _⟩ := hbehind hdel
    exact finishes_all hrest hs hi
  | read c a n err => exact finishes_read hs hi
  | wrote c resp => exact finishes_wrote hs hi
  | done resp => exact ⟨s, resp, .refl, hi⟩

/-! ### Every run -/

end Heap

/-- The cell a handler has. -/
def Phase.cell? : Phase σ → Option ℕ
  | .got c | .full c _ _ _ _ | .all c _ _ _ | .read c _ _ _ | .wrote c _ => some c
  | .start | .done _ => none

/-- The array a handler reads into, or responds from. -/
def Phase.array? : Phase σ → Option ℕ
  | .full _ a _ _ _ | .all _ a _ _ | .read _ a _ _ => some a
  | .start | .got _ | .wrote _ _ | .done _ => none

namespace Heap

variable {R : Reader σ} {G : Growth} {payload : ℕ} {s s' : Heap σ} {i j c a : ℕ} {q : Request σ}
  {p : Phase σ}

theorem PhaseOk.held (hok : PhaseOk R s i q p) (hc : p.cell? = some c) : s.Held (.handler i) c := by
  cases p with
  | start => cases hc
  | got => exact Option.some.inj hc ▸ hok
  | full => exact Option.some.inj hc ▸ hok.1
  | all => exact Option.some.inj hc ▸ hok.1
  | read => exact Option.some.inj hc ▸ hok.1
  | wrote => exact Option.some.inj hc ▸ hok.1
  | done => cases hc

theorem PhaseOk.array (hok : PhaseOk R s i q p) (ha : p.array? = some a) :
    ∃ A : Backing, s.arrays[a]? = some A ∧ s.Held (.handler i) A.cell := by
  cases p with
  | start => cases ha
  | got => cases ha
  | full =>
    obtain ⟨hheld, _, _, _, _, _, hkeeps, _⟩ := hok
    obtain ⟨A, hA, rfl, _⟩ := hkeeps.exists_array
    exact ⟨A, Option.some.inj ha ▸ hA, hheld⟩
  | all =>
    obtain ⟨hheld, _, _, _, hkeeps, _⟩ := hok
    obtain ⟨A, hA, rfl, _⟩ := hkeeps.exists_array
    exact ⟨A, Option.some.inj ha ▸ hA, hheld⟩
  | read =>
    obtain ⟨hheld, A, hA, rfl, _⟩ := hok
    exact ⟨A, Option.some.inj ha ▸ hA, hheld⟩
  | wrote => cases ha
  | done => cases ha

/-- No buffer is with two handlers, or with a handler and in the pool. -/
structure Apart (s : Heap σ) : Prop where
  cells : ∀ {i j : ℕ} {h h' : Handler σ} {c : ℕ}, s.handlers[i]? = some h → s.handlers[j]? = some h' →
    h.phase.cell? = some c → h'.phase.cell? = some c → i = j
  arrays : ∀ {i j : ℕ} {h h' : Handler σ} {a : ℕ}, s.handlers[i]? = some h → s.handlers[j]? = some h' →
    h.phase.array? = some a → h'.phase.array? = some a → i = j
  pool : ∀ {i : ℕ} {h : Handler σ} {c : ℕ}, s.handlers[i]? = some h → h.phase.cell? = some c → c ∉ s.pool
  pooled : ∀ {i : ℕ} {h : Handler σ} {c : ℕ} {C : Cell}, s.handlers[i]? = some h → c ∈ s.pool →
    s.cells[c]? = some C → h.phase.array? ≠ some C.arr

theorem Inv.apart (hs : Inv R s) : s.Apart where
  cells hi hj hc hc' :=
    Holder.handler.inj (((hs.handlers hi).held hc).unique ((hs.handlers hj).held hc'))
  arrays hi hj ha ha' := by
    obtain ⟨A, hA, hheld⟩ := (hs.handlers hi).array ha
    obtain ⟨A', hA', hheld'⟩ := (hs.handlers hj).array ha'
    obtain rfl := Option.some.inj (hA.symm.trans hA')
    exact Holder.handler.inj (hheld.unique hheld')
  pool hi hc hmem := by
    cases ((hs.handlers hi).held hc).unique (hs.pool _ hmem)
  pooled hi hmem hC ha := by
    obtain ⟨A, hA, hheld⟩ := (hs.handlers hi).array ha
    obtain ⟨C', A', hC', hwho, hA', hcell⟩ := (hs.pool _ hmem).exists_cell
    obtain rfl := Option.some.inj (hC.symm.trans hC')
    obtain rfl := Option.some.inj (hA.symm.trans hA')
    cases (hcell ▸ hheld).unique (hs.pool _ hmem)

theorem Reach.run (h : Reach R G payload s)
    (hrun : Relation.ReflTransGen (fun s s' : Heap σ => s.advance R G i = some s') s s') :
    Reach R G payload s' := by
  induction hrun with
  | refl => exact h
  | tail _ hstep ih => exact ih.tail (.advance hstep)

/-- However the handlers interleave, and whatever the pool hands out: no buffer is with two of them, each
response is that to the handler's own request, and a handler that has its buffer responds if it is
left to run, even if the readers of other requests fail. -/
theorem responses_own (R : Reader σ) (G : Growth) (payload : ℕ) (s : Heap σ)
    (hs : Reach R G payload s) :
    s.Apart ∧ ∀ i q p, s.handlers[i]? = some ⟨q, p⟩ → R.Delivers q.st q.body →
      (∀ resp, p = .done resp → Answers q resp) ∧
      (p ≠ .start → ∃ s' resp,
        Relation.ReflTransGen (fun s s' : Heap σ => s.advance R G i = some s') s s' ∧
          s'.handlers[i]? = some ⟨q, .done resp⟩ ∧ Answers q resp) := by
  refine ⟨hs.inv.apart, fun i q p hi hdel => ⟨?_, fun hp => ?_⟩⟩
  · rintro resp rfl
    exact hs.inv.handlers hi hdel
  · obtain ⟨s', resp, hrun, hdone⟩ := finishes (G := G) hs.inv hi hp hdel
    exact ⟨s', resp, hrun, hdone, (hs.run hrun).inv.handlers hdone hdel⟩

/-- A handler makes its buffer longer and puts it back; the next one gets it, with the bytes of the
first in it. -/
theorem responses_own_reused : ∃ s s' : Heap (List UInt8), Reach bytesReader doubling 2 s ∧
    s.handlers = [⟨⟨[1, 2, 3], 3, [1, 2, 3]⟩, .done (.ok [1, 2, 3])⟩, ⟨⟨[4], -1, [4]⟩, .got 0⟩] ∧
    s.arrays.map Backing.bytes = [[0, 0], [1, 2, 3]] ∧
    s'.handlers[1]? = some ⟨⟨[4], -1, [4]⟩, .done (.ok [4])⟩ := by
  have harrive : Reach bytesReader doubling 2 { handlers := [⟨⟨[1, 2, 3], 3, [1, 2, 3]⟩, .start⟩,
      ⟨⟨[4], -1, [4]⟩, .start⟩] } :=
    (Relation.ReflTransGen.refl.tail (.arrive _)).tail (.arrive _)
  have hnew := harrive.tail (.new (i := 0) rfl rfl)
  have hfull := ((hnew.tail (.advance (i := 0) rfl)).tail (.advance (i := 0) rfl)).tail
    (.advance (i := 0) rfl)
  have hput : Reach bytesReader doubling 2 {
      arrays := [⟨[0, 0], 0⟩, ⟨[1, 2, 3], 0⟩]
      cells := [⟨1, 3, .pool⟩]
      pool := [0]
      handlers := [⟨⟨[1, 2, 3], 3, [1, 2, 3]⟩, .done (.ok [1, 2, 3])⟩, ⟨⟨[4], -1, [4]⟩, .start⟩] } :=
    (hfull.tail (.advance (i := 0) rfl)).tail (.advance (i := 0) rfl)
  have hget : Reach bytesReader doubling 2 {
      arrays := [⟨[0, 0], 0⟩, ⟨[1, 2, 3], 0⟩]
      cells := [⟨1, 3, .handler 1⟩]
      pool := []
      handlers := [⟨⟨[1, 2, 3], 3, [1, 2, 3]⟩, .done (.ok [1, 2, 3])⟩, ⟨⟨[4], -1, [4]⟩, .got 0⟩] } :=
    hput.tail (.get (i := 1) (c := 0) (h := ⟨⟨[4], -1, [4]⟩, .start⟩) (C := ⟨1, 3, .pool⟩) rfl rfl
      List.mem_cons_self rfl)
  have hgot : (Phase.got 0 : Phase (List UInt8)) ≠ .start := by
    intro h
    cases h
  obtain ⟨s', resp, _, hdone, hans⟩ :=
    ((responses_own _ _ _ _ hget).2 1 _ _ rfl (bytesReader_delivers _)).2 hgot
  have hresp : resp = .ok [4] := hans.unknown (by decide)
  exact ⟨_, s', hget, rfl, rfl, hresp ▸ hdone⟩

end Heap

end Http3Bench.Frameworks
