import Mathlib.Data.Int.Notation
import Mathlib.Data.List.Forall2
import Mathlib.Order.Basic

/-!
# Reading a request body

`ReadBody` of `frameworks/handlers.go`, which the Go servers read a body with before they echo it, into
a buffer from `BodyPool`. A buffer keeps its capacity and the bytes of the bodies it held before, so
what is returned is said in terms of the bytes the reader delivers alone (`Returned`).
-/

namespace Http3Bench.Frameworks

/-! ### Slices and readers -/

/-- A slice of bytes: the bytes up to its length, and those from there to its capacity. -/
structure Slice where
  data : List UInt8
  spare : List UInt8

namespace Slice

variable (s : Slice)

def cap : ℕ := s.data.length + s.spare.length

/-- `s[:n]`, which panics beyond the capacity. -/
def cut (n : ℕ) : Option Slice :=
  if n ≤ s.cap then some ⟨(s.data ++ s.spare).take n, (s.data ++ s.spare).drop n⟩ else none

/-- `make([]byte, n)`. -/
def make (n : ℕ) : Slice := ⟨List.replicate n 0, []⟩

end Slice

/-- The capacity `append` gives a full slice for one more byte. -/
structure Growth where
  cap : ℕ → ℕ
  lt_cap : ∀ n, n < cap n

/-- `append(s, 0)[:len(s)]` of a full slice. -/
def Slice.grow (G : Growth) (s : Slice) : Slice :=
  ⟨s.data, List.replicate (G.cap s.cap - s.data.length) 0⟩

inductive Err
  | eof
  | unexpectedEOF
  | other (text : String)
  deriving DecidableEq

/-- What one `Read` does: the bytes it returns, the bytes after them that it used as scratch space, its
error and the state of the reader after it. -/
structure Read (σ : Type) where
  chunk : List UInt8
  scratch : List UInt8
  err : Option Err
  next : σ

/-- An `io.Reader`: `Read` writes at most the length of what it is given. -/
structure Reader (σ : Type) where
  read : σ → ℕ → Read σ
  le : ∀ st n, (read st n).chunk.length + (read st n).scratch.length ≤ n

variable {σ : Type}

/-- The bytes given to `Read` after the call. -/
def Read.into (r : Read σ) (p : List UInt8) : List UInt8 :=
  r.chunk ++ r.scratch ++ p.drop (r.chunk.length + r.scratch.length)

/-- The reader has the bytes `s` left and then the end: whatever it is asked for, it returns some of
them, perhaps none, with the end after the last or along with it. -/
inductive Reader.Delivers (R : Reader σ) : σ → List UInt8 → Prop
  | intro {st : σ} {s : List UInt8} (rest : ℕ → List UInt8)
    (more : ∀ n, 0 < n → (R.read st n).err = none → s = (R.read st n).chunk ++ rest n)
    (next : ∀ n, 0 < n → (R.read st n).err = none → Delivers R (R.read st n).next (rest n))
    (last : ∀ n e, 0 < n → (R.read st n).err = some e → e = .eof ∧ s = (R.read st n).chunk) :
    Delivers R st s

/-! ### The program -/

/-- `io.ReadFull(body, buf)`, with `n` bytes of `buf` read. -/
def readFull (R : Reader σ) : ℕ → σ → List UInt8 → ℕ → Option (List UInt8 × Option Err)
  | 0, _, _, _ => none
  | fuel + 1, st, buf, n =>
    if n < buf.length then
      let r := R.read st (buf.length - n)
      let buf := buf.take n ++ r.into (buf.drop n)
      let n := n + r.chunk.length
      match r.err with
      | none => readFull R fuel r.next buf n
      | some e =>
        if buf.length ≤ n then some (buf, none)
        else if 0 < n ∧ e = .eof then some (buf, some .unexpectedEOF)
        else some (buf, some e)
    else some (buf, none)

/-- The loop of `ReadBody` for a body of unknown length. -/
def readAll (R : Reader σ) (G : Growth) : ℕ → σ → Slice → Option (Slice × Option Err)
  | 0, _, _ => none
  | fuel + 1, st, buf => do
    let buf := if buf.data.length = buf.cap then buf.grow G else buf
    let r := R.read st (buf.cap - buf.data.length)
    let buf ← Slice.cut ⟨buf.data, r.into buf.spare⟩ (buf.data.length + r.chunk.length)
    match r.err with
    | some .eof => some (buf, none)
    | some e => some (buf, some e)
    | none => readAll R G fuel r.next buf

/-- What `ReadBody` returns, with the slice its `bufp` points to. -/
structure Body where
  data : List UInt8
  bufp : Slice
  err : Option Err

def readBody (R : Reader σ) (G : Growth) (fuel : ℕ) (bufp : Slice) (st : σ) (contentLength : ℤ) :
    Option Body :=
  if 0 ≤ contentLength then do
    let bufp := if bufp.cap < contentLength.toNat then Slice.make contentLength.toNat else bufp
    let buf ← bufp.cut contentLength.toNat
    let (data, err) ← readFull R fuel st buf.data 0
    -- `bufp` keeps its length, over the array that was read into
    let left := data ++ buf.spare
    return ⟨data, ⟨left.take bufp.data.length, left.drop bufp.data.length⟩, err⟩
  else do
    let buf ← bufp.cut 0
    let (buf, err) ← readAll R G fuel st buf
    let left ← buf.cut 0
    return ⟨buf.data, left, err⟩

/-- Requests one after another, each with the buffer the one before it left in the pool. -/
def readBodies (R : Reader σ) (G : Growth) (fuel : ℕ) : Slice → List (σ × ℤ) → Option (List Body)
  | _, [] => some []
  | bufp, (st, contentLength) :: requests => do
    let body ← readBody R G fuel bufp st contentLength
    let bodies ← readBodies R G fuel body.bufp requests
    return body :: bodies

/-! ### What is read -/

@[simp] theorem Read.length_into (r : Read σ) {p : List UInt8}
    (h : r.chunk.length + r.scratch.length ≤ p.length) : (r.into p).length = p.length := by
  simp only [Read.into, List.length_append, List.length_drop]
  omega

theorem Read.take_into (r : Read σ) (p : List UInt8) : (r.into p).take r.chunk.length = r.chunk := by
  rw [Read.into, List.append_assoc, List.take_left]

variable {R : Reader σ} {G : Growth} {st : σ} {s : List UInt8}

/-- What `io.ReadFull` makes of a buffer of which `n` bytes are read, from a reader with the bytes `s`
left. -/
structure Filled (s buf : List UInt8) (n : ℕ) (out : List UInt8 × Option Err) : Prop where
  length_eq : out.1.length = buf.length
  full : buf.length ≤ n + s.length → out.2 = none ∧ out.1 = buf.take n ++ s.take (buf.length - n)
  short : n + s.length < buf.length →
    out.2 = some (if n + s.length = 0 then .eof else .unexpectedEOF)

section

variable {chunk rest buf buf' : List UInt8} {n : ℕ} {out : List UInt8 × Option Err}

/-- A call of `Read` that is not the last. -/
theorem Filled.cons (h : Filled rest buf' (n + chunk.length) out) (hlen : buf'.length = buf.length)
    (hle : n + chunk.length ≤ buf.length)
    (htake : buf'.take (n + chunk.length) = buf.take n ++ chunk) : Filled (chunk ++ rest) buf n out where
  length_eq := h.length_eq.trans hlen
  full := by
    rw [List.length_append, ← Nat.add_assoc, ← hlen]
    intro hfull
    obtain ⟨hnone, hout⟩ := h.full hfull
    have hchunk : chunk.length ≤ buf'.length - n := by omega
    refine ⟨hnone, hout.trans ?_⟩
    rw [htake, List.append_assoc, List.take_append, List.take_of_length_le hchunk, Nat.sub_add_eq]
  short := by
    rw [List.length_append, ← Nat.add_assoc, ← hlen]
    exact h.short

/-- The call that reports the end. -/
theorem Filled.last (hlen : buf'.length = buf.length) (hle : n + chunk.length ≤ buf.length)
    (htake : buf'.take (n + chunk.length) = buf.take n ++ chunk) :
    Filled chunk buf n (buf', if buf'.length ≤ n + chunk.length then none
      else some (if n + chunk.length = 0 then .eof else .unexpectedEOF)) where
  length_eq := hlen
  full := by
    intro hfull
    refine ⟨if_pos (hlen ▸ hfull), ?_⟩
    rw [← List.take_of_length_le (hlen ▸ hfull : buf'.length ≤ n + chunk.length), htake,
      List.take_of_length_le (by omega : chunk.length ≤ buf.length - n)]
  short := fun hshort => if_neg (by omega)

/-- The buffer after a call of `Read` on all of it but the first `n` bytes. -/
theorem length_read {r : Read σ} (hn : n ≤ buf.length)
    (hle : r.chunk.length + r.scratch.length ≤ buf.length - n) :
    (buf.take n ++ r.into (buf.drop n)).length = buf.length ∧
      (buf.take n ++ r.into (buf.drop n)).take (n + r.chunk.length) = buf.take n ++ r.chunk := by
  have hdrop : (buf.drop n).length = buf.length - n := List.length_drop
  constructor
  · rw [List.length_append, List.length_take, r.length_into (hdrop ▸ hle), hdrop]
    omega
  · rw [List.take_append, List.take_of_length_le (by rw [List.length_take]; omega), List.length_take,
      Nat.min_eq_left hn, Nat.add_sub_cancel_left, r.take_into]

theorem readFull_succ {r : Read σ} (hlt : n < buf.length) (hr : R.read st (buf.length - n) = r)
    (hbuf : buf.take n ++ r.into (buf.drop n) = buf') (fuel : ℕ) :
    readFull R (fuel + 1) st buf n = match r.err with
      | none => readFull R fuel r.next buf' (n + r.chunk.length)
      | some e =>
        if buf'.length ≤ n + r.chunk.length then some (buf', none)
        else if 0 < n + r.chunk.length ∧ e = .eof then some (buf', some .unexpectedEOF)
        else some (buf', some e) := by
  rw [readFull, if_pos hlt]
  simp only [hr, hbuf]

end

theorem readFull_of_delivers (h : R.Delivers st s) (buf : List UInt8) {n : ℕ} (hn : n ≤ buf.length) :
    ∃ out fuel₀, Filled s buf n out ∧ ∀ fuel, fuel₀ ≤ fuel → readFull R fuel st buf n = some out := by
  induction h generalizing buf n with
  | @intro st s rest more next last ih =>
    by_cases hlt : n < buf.length
    · have hpos : 0 < buf.length - n := by omega
      have hle := R.le st (buf.length - n)
      have hmore := more _ hpos
      have hlast := fun e => last _ e hpos
      have hrest := ih _ hpos
      generalize hr : R.read st (buf.length - n) = r at hle hmore hlast hrest
      obtain ⟨hlen, htake⟩ := length_read hn hle
      generalize hbuf : buf.take n ++ r.into (buf.drop n) = buf' at hlen htake
      have hstep := readFull_succ hlt hr hbuf
      have hroom : n + r.chunk.length ≤ buf.length := by omega
      cases herr : r.err with
      | none =>
        obtain ⟨out, fuel₀, hout, hrun⟩ := hrest herr buf' (hlen ▸ hroom)
        rw [hmore herr]
        refine ⟨out, fuel₀ + 1, hout.cons hlen hroom htake, fun fuel hfuel => ?_⟩
        obtain ⟨fuel, rfl⟩ := Nat.exists_eq_succ_of_ne_zero (by omega : fuel ≠ 0)
        rw [hstep, herr]
        exact hrun fuel (by omega)
      | some e =>
        obtain ⟨rfl, hs⟩ := hlast e herr
        rw [hs]
        refine ⟨_, 1, Filled.last hlen hroom htake, fun fuel hfuel => ?_⟩
        obtain ⟨fuel, rfl⟩ := Nat.exists_eq_succ_of_ne_zero (by omega : fuel ≠ 0)
        rw [hstep, herr]
        dsimp only
        by_cases hfull : buf'.length ≤ n + r.chunk.length
        · rw [if_pos hfull, if_pos hfull]
        · rw [if_neg hfull, if_neg hfull]
          by_cases hzero : n + r.chunk.length = 0
          · rw [if_neg (fun h => absurd h.1 (by omega)), if_pos hzero]
          · rw [if_pos ⟨by omega, rfl⟩, if_neg hzero]
    · refine ⟨(buf, none), 1, ⟨rfl, fun _ => ⟨rfl, ?_⟩, fun hs => absurd hs (by omega)⟩, ?_⟩
      · rw [List.take_of_length_le (by omega), Nat.sub_eq_zero_of_le (by omega), List.take_zero,
          List.append_nil]
      · intro fuel hfuel
        obtain ⟨fuel, rfl⟩ := Nat.exists_eq_succ_of_ne_zero (by omega : fuel ≠ 0)
        rw [readFull, if_neg hlt]

theorem Slice.cut_read {buf : Slice} {r : Read σ} (hle : r.chunk.length + r.scratch.length ≤ buf.spare.length) :
    ∃ spare, Slice.cut ⟨buf.data, r.into buf.spare⟩ (buf.data.length + r.chunk.length) =
      some ⟨buf.data ++ r.chunk, spare⟩ := by
  have hcap : buf.data.length + r.chunk.length ≤ buf.data.length + (r.into buf.spare).length := by
    rw [r.length_into hle]
    omega
  refine ⟨(buf.data ++ r.into buf.spare).drop (buf.data.length + r.chunk.length),
    (if_pos hcap).trans ?_⟩
  rw [List.take_length_add_append, r.take_into]

/-- The buffer of the loop has room before each call. -/
theorem Slice.room (G : Growth) (buf : Slice) :
    ∃ spare, (if buf.data.length = buf.cap then buf.grow G else buf) = ⟨buf.data, spare⟩ ∧
      0 < spare.length := by
  split
  · rename_i h
    refine ⟨_, rfl, ?_⟩
    have hlt := G.lt_cap buf.cap
    rw [List.length_replicate]
    omega
  · rename_i h
    refine ⟨buf.spare, rfl, ?_⟩
    unfold Slice.cap at h
    omega

theorem readAll_of_delivers (G : Growth) (h : R.Delivers st s) (buf : Slice) :
    ∃ spare fuel₀, ∀ fuel, fuel₀ ≤ fuel →
      readAll R G fuel st buf = some (⟨buf.data ++ s, spare⟩, none) := by
  induction h generalizing buf with
  | @intro st s rest more next last ih =>
    obtain ⟨room, hroom, hpos⟩ := buf.room G
    have hle := R.le st room.length
    have hmore := more _ hpos
    have hlast := fun e => last _ e hpos
    have hrest := ih _ hpos
    have hcap : Slice.cap ⟨buf.data, room⟩ - buf.data.length = room.length := Nat.add_sub_cancel_left ..
    generalize hr : R.read st room.length = r at hle hmore hlast hrest
    obtain ⟨spare, hcut⟩ := @Slice.cut_read _ ⟨buf.data, room⟩ r hle
    have hstep : ∀ fuel, readAll R G (fuel + 1) st buf = match r.err with
        | some .eof => some (⟨buf.data ++ r.chunk, spare⟩, none)
        | some e => some (⟨buf.data ++ r.chunk, spare⟩, some e)
        | none => readAll R G fuel r.next ⟨buf.data ++ r.chunk, spare⟩ := by
      intro fuel
      rw [readAll]
      simp only [hroom, hcap, hr, hcut, Option.bind_eq_bind, Option.bind_some]
    cases herr : r.err with
    | none =>
      obtain ⟨spare', fuel₀, hrun⟩ := hrest herr ⟨buf.data ++ r.chunk, spare⟩
      refine ⟨spare', fuel₀ + 1, fun fuel hfuel => ?_⟩
      obtain ⟨fuel, rfl⟩ := Nat.exists_eq_succ_of_ne_zero (by omega : fuel ≠ 0)
      rw [hstep, herr, hmore herr, ← List.append_assoc]
      exact hrun fuel (by omega)
    | some e =>
      obtain ⟨rfl, hs⟩ := hlast e herr
      refine ⟨spare, 1, fun fuel hfuel => ?_⟩
      obtain ⟨fuel, rfl⟩ := Nat.exists_eq_succ_of_ne_zero (by omega : fuel ≠ 0)
      rw [hstep, herr, hs]

/-- What `ReadBody` returns for a body of the bytes `s`. -/
structure Returned (contentLength : ℤ) (s : List UInt8) (body : Body) : Prop where
  whole : 0 ≤ contentLength → contentLength ≤ s.length →
    body.err = none ∧ body.data = s.take contentLength.toNat
  short : 0 ≤ contentLength → s.length < contentLength →
    body.err = some (if s = [] then .eof else .unexpectedEOF)
  unknown : contentLength < 0 → body.err = none ∧ body.data = s

theorem Slice.cut_of_le {buf : Slice} {n : ℕ} (h : n ≤ buf.cap) :
    ∃ data spare, buf.cut n = some ⟨data, spare⟩ ∧ data.length = n := by
  refine ⟨_, _, if_pos h, ?_⟩
  rw [List.length_take, List.length_append]
  exact Nat.min_eq_left h

theorem readBody_of_delivers (G : Growth) (h : R.Delivers st s) (contentLength : ℤ) (bufp : Slice) :
    ∃ body fuel₀, Returned contentLength s body ∧
      ∀ fuel, fuel₀ ≤ fuel → readBody R G fuel bufp st contentLength = some body := by
  by_cases hlen : 0 ≤ contentLength
  · obtain ⟨n, rfl⟩ := Int.eq_ofNat_of_zero_le hlen
    obtain ⟨bufp', hbufp', hcap⟩ : ∃ bufp', (if bufp.cap < n then Slice.make n else bufp) = bufp' ∧
        n ≤ bufp'.cap := by
      refine ⟨_, rfl, ?_⟩
      split
      · simp [Slice.make, Slice.cap]
      · omega
    obtain ⟨data, spare, hcut, hdata⟩ := Slice.cut_of_le hcap
    obtain ⟨out, fuel₀, hout, hrun⟩ := readFull_of_delivers h data (Nat.zero_le _)
    refine ⟨⟨out.1, ⟨(out.1 ++ spare).take bufp'.data.length, (out.1 ++ spare).drop bufp'.data.length⟩,
      out.2⟩, fuel₀, ⟨fun _ hwhole => ?_, fun _ hshort => ?_, fun hneg => absurd hlen (by omega)⟩, ?_⟩
    · have hfull := hout.full (by omega)
      simpa [hdata] using hfull
    · have hempty : s = [] ↔ 0 + s.length = 0 := by simp
      simpa only [hempty] using hout.short (by omega)
    · intro fuel hfuel
      rw [readBody, if_pos hlen]
      simp only [Int.toNat_natCast, hbufp', hcut, hrun fuel hfuel, Option.bind_eq_bind, Option.bind_some,
        Option.pure_def]
  · obtain ⟨spare, fuel₀, hrun⟩ := readAll_of_delivers G h ⟨[], bufp.data ++ bufp.spare⟩
    refine ⟨⟨s, ⟨[], s ++ spare⟩, none⟩, fuel₀, ⟨fun h0 => absurd h0 hlen, fun h0 => absurd h0 hlen,
      fun _ => ⟨rfl, rfl⟩⟩, fun fuel hfuel => ?_⟩
    rw [readBody, if_neg hlen]
    simp only [Slice.cut, Nat.zero_le, if_true, List.take_zero, List.drop_zero, Option.bind_eq_bind,
      Option.bind_some, hrun fuel hfuel, List.nil_append, Option.pure_def]

/-! ### Requests on one buffer -/

/-- A request whose reader delivers `body`. -/
structure Request (σ : Type) where
  st : σ
  contentLength : ℤ
  body : List UInt8

theorem readBodies_of_delivers (G : Growth) {requests : List (Request σ)}
    (h : ∀ q ∈ requests, R.Delivers q.st q.body) (bufp : Slice) :
    ∃ bodies fuel₀, List.Forall₂ (fun q body => Returned q.contentLength q.body body) requests bodies ∧
      ∀ fuel, fuel₀ ≤ fuel →
        readBodies R G fuel bufp (requests.map (fun q => (q.st, q.contentLength))) = some bodies := by
  induction requests generalizing bufp with
  | nil => exact ⟨[], 0, .nil, fun _ _ => rfl⟩
  | cons q requests ih =>
    obtain ⟨body, fuel₁, hbody, hrun₁⟩ :=
      readBody_of_delivers G (h q List.mem_cons_self) q.contentLength bufp
    obtain ⟨bodies, fuel₂, hbodies, hrun₂⟩ :=
      ih (fun q' hq' => h q' (List.mem_cons_of_mem _ hq')) body.bufp
    refine ⟨body :: bodies, fuel₁ + fuel₂, .cons hbody hbodies, fun fuel hfuel => ?_⟩
    rw [List.map_cons, readBodies, hrun₁ fuel (by omega), Option.bind_eq_bind, Option.bind_some,
      hrun₂ fuel (by omega)]
    rfl

/-- What is returned does not depend on the buffer, but for the data that comes with an error. -/
theorem Returned.agree {contentLength : ℤ} {body body' : Body} (h : Returned contentLength s body)
    (h' : Returned contentLength s body') :
    body.err = body'.err ∧ (body.err = none → body.data = body'.data) := by
  by_cases hneg : contentLength < 0
  · obtain ⟨herr, hdata⟩ := h.unknown hneg
    obtain ⟨herr', hdata'⟩ := h'.unknown hneg
    exact ⟨herr.trans herr'.symm, fun _ => hdata.trans hdata'.symm⟩
  · have hlen : 0 ≤ contentLength := by omega
    by_cases hshort : s.length < contentLength
    · have herr := h.short hlen hshort
      refine ⟨herr.trans (h'.short hlen hshort).symm, fun hnone => ?_⟩
      cases herr.symm.trans hnone
    · obtain ⟨herr, hdata⟩ := h.whole hlen (by omega)
      obtain ⟨herr', hdata'⟩ := h'.whole hlen (by omega)
      exact ⟨herr.trans herr'.symm, fun _ => hdata.trans hdata'.symm⟩

/-- Requests served with one buffer after another, whatever it held at first: each returns what its
reader delivers, and nothing of the buffer in a response without an error. -/
theorem readBody_returns (R : Reader σ) (G : Growth) (requests : List (Request σ))
    (h : ∀ q ∈ requests, R.Delivers q.st q.body) (bufp bufp' : Slice) :
    ∃ bodies bodies' fuel₀,
      (∀ fuel, fuel₀ ≤ fuel →
        readBodies R G fuel bufp (requests.map (fun q => (q.st, q.contentLength))) = some bodies ∧
        readBodies R G fuel bufp' (requests.map (fun q => (q.st, q.contentLength))) = some bodies') ∧
      List.Forall₂ (fun q body => Returned q.contentLength q.body body) requests bodies ∧
      List.Forall₂ (fun body body' => body.err = body'.err ∧ (body.err = none → body.data = body'.data))
        bodies bodies' := by
  obtain ⟨bodies, fuel₁, hbodies, hrun⟩ := readBodies_of_delivers G h bufp
  obtain ⟨bodies', fuel₂, hbodies', hrun'⟩ := readBodies_of_delivers G h bufp'
  refine ⟨bodies, bodies', fuel₁ + fuel₂, fun fuel hfuel => ⟨hrun fuel (by omega), hrun' fuel (by omega)⟩,
    hbodies, ?_⟩
  clear hrun hrun' h
  induction hbodies generalizing bodies' with
  | nil =>
    cases hbodies'
    exact .nil
  | cons hbody _ ih =>
    cases hbodies' with
    | cons hbody' hbodies' => exact .cons (hbody.agree hbody') (ih _ hbodies')

/-- A reader over bytes that are there. -/
def bytesReader : Reader (List UInt8) where
  read st n := ⟨st.take n, [], if st = [] then some .eof else none, st.drop n⟩
  le st n := List.length_take_le n st

theorem bytesReader_delivers (s : List UInt8) : bytesReader.Delivers s s := by
  induction hn : s.length using Nat.strongRecOn generalizing s with
  | _ len ih =>
    refine .intro (fun n => s.drop n) (fun n _ _ => (List.take_append_drop n s).symm)
      (fun n hpos hmore => ih _ ?_ (s.drop n) rfl) (fun n e _ hlast => ?_)
    · have hne : s ≠ [] := by
        rintro rfl
        cases hmore
      have := List.length_pos_iff.mpr hne
      rw [List.length_drop]
      omega
    · by_cases hs : s = []
      · subst hs
        exact ⟨(Option.some.inj hlast).symm, List.take_nil.symm⟩
      · have herr : (bytesReader.read s n).err = none := if_neg hs
        cases herr.symm.trans hlast

def doubling : Growth where
  cap n := 2 * n + 1
  lt_cap n := by omega

/-- Two requests on a buffer that is too small, which has bytes of an earlier one. -/
theorem readBody_returns_bytes :
    ∃ bodies fuel₀, (∀ fuel, fuel₀ ≤ fuel →
        readBodies bytesReader doubling fuel ⟨[9], []⟩ [([1, 2, 3], 3), ([4], -1)] = some bodies) ∧
      bodies.map (fun body => (body.data, body.err)) = [([1, 2, 3], none), ([4], none)] := by
  obtain ⟨bodies, _, fuel₀, hrun, hbodies, _⟩ := readBody_returns bytesReader doubling
    [⟨[1, 2, 3], 3, [1, 2, 3]⟩, ⟨[4], -1, [4]⟩]
    (List.forall_mem_cons.mpr ⟨bytesReader_delivers _,
      List.forall_mem_singleton.mpr (bytesReader_delivers _)⟩) ⟨[9], []⟩ ⟨[], []⟩
  refine ⟨bodies, fuel₀, fun fuel hfuel => (hrun fuel hfuel).1, ?_⟩
  cases hbodies with
  | cons hfirst hbodies =>
    cases hbodies with
    | cons hsecond hbodies =>
      cases hbodies
      obtain ⟨herr₁, hdata₁⟩ := hfirst.whole (by decide) (by decide)
      obtain ⟨herr₂, hdata₂⟩ := hsecond.unknown (by decide)
      simp [herr₁, hdata₁, herr₂, hdata₂]

/-- A body that ends early, read into two buffers: each returns what the buffer held. -/
theorem readBody_stale :
    ∃ body body' : Body, readBody bytesReader doubling 3 ⟨[9, 9], []⟩ [1] 2 = some body ∧
      readBody bytesReader doubling 3 ⟨[8, 8], []⟩ [1] 2 = some body' ∧ body.data ≠ body'.data :=
  ⟨_, _, rfl, rfl, by decide⟩

end Http3Bench.Frameworks
