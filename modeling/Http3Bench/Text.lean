import Mathlib.Tactic
import Mathlib.Data.List.DropRight

/-!
# Text on a byte stream

UTF-8 as strings are written to and read from a stream, strictly and with replacement characters,
lines and exact reads of a stream that may stay open after its last byte, and the few operations on
text that a line protocol is parsed with. Text is a list of characters, a stream's content a list of
bytes.
-/

namespace Http3Bench.Text

def encode (s : List Char) : List UInt8 := s.flatMap String.utf8EncodeChar

def decode (b : List UInt8) : Option (List Char) := b.toByteArray.utf8Decode?.map Array.toList

@[simp] theorem encode_nil : encode [] = [] := rfl

theorem encode_ne_nil {s : List Char} (h : s ≠ []) : encode s ≠ [] := by
  obtain ⟨c, s, rfl⟩ := List.exists_cons_of_ne_nil h
  simp [encode, String.utf8EncodeChar_ne_nil]

theorem encode_cons (c : Char) (s : List Char) :
    encode (c :: s) = String.utf8EncodeChar c ++ encode s := rfl

@[simp] theorem encode_append (s t : List Char) : encode (s ++ t) = encode s ++ encode t :=
  List.flatMap_append

theorem decode_encode (s : List Char) : decode (encode s) = some s := by
  have h : (encode s).toByteArray = s.utf8Encode := rfl
  rw [decode, h, List.utf8Decode?_utf8Encode]
  simp

theorem decode_eq_some {b : List UInt8} {s : List Char} : decode b = some s ↔ b = encode s := by
  constructor
  · intro h
    have hsome : b.toByteArray.utf8Decode?.isSome := by
      cases hb : b.toByteArray.utf8Decode? with
      | none =>
        rw [decode, hb] at h
        cases h
      | some a => rfl
    obtain ⟨m, hm⟩ := ByteArray.isSome_utf8Decode?_iff.mp hsome
    have hb : b = encode m := by
      exact List.toByteArray_inj.mp hm
    rw [hb, decode_encode] at h
    rw [hb, Option.some.inj h]
  · rintro rfl
    exact decode_encode s

theorem decodeChar_encodeChar_append (c : Char) (l : List UInt8) :
    (String.utf8EncodeChar c ++ l).toByteArray.utf8DecodeChar? 0 = some c := by
  rw [List.toByteArray_append, ByteArray.utf8DecodeChar?_utf8EncodeChar_append]

/-- The byte of an ASCII character stands in the encoding of no other character. -/
theorem eq_of_mem_encodeChar {a c : Char} {b : UInt8} (ha : String.utf8EncodeChar a = [b])
    (hb : b.IsUTF8FirstByte) (h : b ∈ String.utf8EncodeChar c) : c = a := by
  obtain ⟨i, hi, rfl⟩ := List.mem_iff_getElem.mp h
  obtain rfl := UInt8.isUTF8FirstByte_getElem_utf8EncodeChar.mp hb
  have hc : String.utf8EncodeChar c =
      String.utf8EncodeChar a ++ (String.utf8EncodeChar c).tail := by
    rw [ha]
    exact (List.cons_head_tail (List.ne_nil_of_length_pos hi)).symm.trans (by simp [List.head_eq_getElem])
  have hd := decodeChar_encodeChar_append c []
  rw [List.append_nil, hc, decodeChar_encodeChar_append] at hd
  exact (Option.some.inj hd).symm

theorem not_mem_encode {a : Char} {b : UInt8} {s : List Char}
    (ha : String.utf8EncodeChar a = [b]) (hb : b.IsUTF8FirstByte) (hs : a ∉ s) : b ∉ encode s := by
  intro h
  obtain ⟨c, hc, hbc⟩ := List.mem_flatMap.mp h
  exact hs (eq_of_mem_encodeChar ha hb hbc ▸ hc)

/-- A text can be cut where the byte of an ASCII character stands. -/
theorem encode_eq_append_cons {a : Char} {b : UInt8} (ha : String.utf8EncodeChar a = [b])
    (hb : b.IsUTF8FirstByte) {s : List Char} {x y : List UInt8} (h : encode s = x ++ b :: y) :
    ∃ s₁ s₂, s = s₁ ++ a :: s₂ ∧ encode s₁ = x ∧ encode s₂ = y := by
  induction s generalizing x with
  | nil => simp at h
  | cons c s ih =>
    rw [encode_cons] at h
    have hcut : ∀ x', encode s = x' ++ b :: y →
        ∃ s₁ s₂, c :: s = s₁ ++ a :: s₂ ∧ encode s₁ = String.utf8EncodeChar c ++ x' ∧
          encode s₂ = y := by
      intro x' hx'
      obtain ⟨s₁, s₂, rfl, rfl, hy⟩ := ih hx'
      exact ⟨c :: s₁, s₂, rfl, rfl, hy⟩
    rcases List.append_eq_append_iff.mp h with ⟨x', rfl, hx'⟩ | ⟨z, hz, hy⟩
    · exact hcut x' hx'
    · cases z with
      | nil =>
        rw [List.append_nil] at hz
        have := hcut [] hy.symm
        rwa [List.append_nil, hz] at this
      | cons b' z =>
        obtain ⟨rfl, rfl⟩ := List.cons.inj hy
        obtain rfl := eq_of_mem_encodeChar ha hb (hz ▸ List.mem_append_right _ List.mem_cons_self)
        rw [ha] at hz
        cases x with
        | nil =>
          obtain rfl := (List.cons.inj hz).2
          exact ⟨[], s, rfl, rfl, rfl⟩
        | cons u x => simp at hz

/-! ### Decoding with replacement characters -/

/-- Whether `b` may follow the lead byte `a` of a sequence of three or four bytes. -/
def isSecond (a b : UInt8) : Bool :=
  if a = 0xE0 then 0xA0 ≤ b ∧ b ≤ 0xBF
  else if a = 0xED then 0x80 ≤ b ∧ b ≤ 0x9F
  else if a = 0xF0 then 0x90 ≤ b ∧ b ≤ 0xBF
  else if a = 0xF4 then 0x80 ≤ b ∧ b ≤ 0x8F
  else 0xE1 ≤ a ∧ a ≤ 0xF3 ∧ 0x80 ≤ b ∧ b ≤ 0xBF

/-- How many bytes of an ill-formed sequence one replacement character stands for: the longest
prefix that a well-formed sequence could have begun with, or one byte. -/
def subpart : List UInt8 → ℕ
  | a :: b :: c :: _ =>
      if isSecond a b then if 0xF0 ≤ a ∧ 0x80 ≤ c ∧ c ≤ 0xBF then 3 else 2 else 1
  | [a, b] => if isSecond a b then 2 else 1
  | _ => 1

theorem subpart_pos (b : List UInt8) : 0 < subpart b := by
  fun_cases subpart b <;> omega

/-- `String::from_utf8_lossy`. -/
def lossy (b : List UInt8) : List Char :=
  match _h : b.toByteArray.utf8DecodeChar? 0 with
  | some c => c :: lossy (b.drop c.utf8Size)
  | none => if b = [] then [] else '\uFFFD' :: lossy (b.drop (subpart b))
termination_by b.length
decreasing_by
  · have hle := ByteArray.le_size_of_utf8DecodeChar?_eq_some _h
    have hpos := c.utf8Size_pos
    simp only [List.size_toByteArray] at hle
    simp only [List.length_drop]
    omega
  · have hpos := subpart_pos b
    have hb : 0 < b.length := List.length_pos_iff.mpr ‹_›
    simp only [List.length_drop]
    omega

theorem lossy_of_decodeChar {b : List UInt8} {c : Char}
    (h : b.toByteArray.utf8DecodeChar? 0 = some c) : lossy b = c :: lossy (b.drop c.utf8Size) := by
  rw [lossy]
  split
  · rename_i d hd
    rw [h, Option.some.injEq] at hd
    rw [hd]
  · rename_i hd
    rw [h] at hd
    cases hd

theorem lossy_nil : lossy [] = [] := by
  rw [lossy]
  split
  · rename_i c hc
    have hle := ByteArray.le_size_of_utf8DecodeChar?_eq_some hc
    have hpos := c.utf8Size_pos
    simp only [List.size_toByteArray, List.length_nil] at hle
    omega
  · rfl

theorem lossy_encode (s : List Char) : lossy (encode s) = s := by
  induction s with
  | nil => exact lossy_nil
  | cons c s ih =>
      rw [encode_cons, lossy_of_decodeChar (decodeChar_encodeChar_append c _),
        ← String.length_utf8EncodeChar, List.drop_left, ih]

/-! ### Reading a stream -/

/-- What is left of a stream: its bytes, and whether the other side has closed it after them. A
read past the last byte of a stream that is still open waits until it times out. -/
structure Input where
  bytes : List UInt8
  closed : Bool
  deriving DecidableEq

inductive ReadError
  | timedOut
  | unexpectedEof
  | invalidUtf8
  deriving DecidableEq

namespace Input

/-- `BufRead::read_line` into an empty string: the line with its newline, or what was left before
the end of the stream. -/
def readLine (s : Input) : Except ReadError (List Char × Input) :=
  match s.bytes.span (· != 10) with
  | (line, []) =>
      if s.closed then
        match decode line with
        | some text => .ok (text, ⟨[], s.closed⟩)
        | none => .error .invalidUtf8
      else .error .timedOut
  | (line, nl :: rest) =>
      match decode (line ++ [nl]) with
      | some text => .ok (text, ⟨rest, s.closed⟩)
      | none => .error .invalidUtf8

/-- `Read::read_exact` into a buffer of `n` bytes. -/
def readExact (s : Input) (n : ℕ) : Except ReadError (List UInt8 × Input) :=
  if n ≤ s.bytes.length then .ok (s.bytes.take n, ⟨s.bytes.drop n, s.closed⟩)
  else if s.closed then .error .unexpectedEof
  else .error .timedOut

theorem length_readLine_lt {s s' : Input} {text : List Char} (h : s.readLine = .ok (text, s'))
    (ht : text ≠ []) : s'.bytes.length < s.bytes.length := by
  have hs := List.takeWhile_append_dropWhile (p := (· != 10)) (l := s.bytes)
  rw [readLine, List.span_eq_takeWhile_dropWhile] at h
  cases hd : s.bytes.dropWhile (· != 10) with
  | nil =>
      simp only [hd] at h
      split at h
      · cases hline : decode (s.bytes.takeWhile (· != 10)) with
        | none => simp [hline] at h
        | some line =>
            simp only [hline, Except.ok.injEq, Prod.mk.injEq] at h
            obtain ⟨rfl, rfl⟩ := h
            refine List.length_pos_iff.mpr fun hnil => ht ?_
            rw [hnil] at hline
            exact (Option.some.inj ((decode_encode []).symm.trans hline)).symm
      · cases h
  | cons nl rest =>
      simp only [hd] at h
      cases hline : decode (s.bytes.takeWhile (· != 10) ++ [nl]) with
      | none => simp [hline] at h
      | some line =>
          simp only [hline, Except.ok.injEq, Prod.mk.injEq] at h
          obtain ⟨-, rfl⟩ := h
          rw [← hs, hd, List.length_append, List.length_cons]
          dsimp only
          omega

theorem readLine_encode (line : List Char) (rest : List UInt8) (closed : Bool) (h : '\n' ∉ line) :
    readLine ⟨encode (line ++ ['\n']) ++ rest, closed⟩ =
      .ok (line ++ ['\n'], ⟨rest, closed⟩) := by
  have hnl : encode ['\n'] = [10] := by decide
  have hline : ∀ b ∈ encode line, (b != 10) = true := by
    intro b hb
    have hne : b ≠ 10 := by
      rintro rfl
      exact not_mem_encode (show String.utf8EncodeChar '\n' = [10] by decide) (by decide) h hb
    simpa using hne
  have hspan : (encode (line ++ ['\n']) ++ rest).span (· != 10) = (encode line, 10 :: rest) := by
    rw [List.span_eq_takeWhile_dropWhile, encode_append, hnl, List.append_assoc,
      List.takeWhile_append_of_pos hline, List.dropWhile_append_of_pos hline]
    simp
  have hdec : decode (encode line ++ [10]) = some (line ++ ['\n']) := by
    rw [← hnl, ← encode_append, decode_encode]
  rw [readLine, hspan]
  simp only [hdec]

theorem readExact_append (b rest : List UInt8) (closed : Bool) :
    readExact ⟨b ++ rest, closed⟩ b.length = .ok (b, ⟨rest, closed⟩) := by
  simp [readExact]

end Input

/-! ### Parsing text -/

/-- `char::is_whitespace`: the characters with Unicode's property White_Space. -/
def isWhitespace (c : Char) : Bool :=
  let n := c.toNat
  (9 ≤ n && n ≤ 13) || n = 0x20 || n = 0x85 || n = 0xA0 || n = 0x1680 ||
    (0x2000 ≤ n && n ≤ 0x200A) || n = 0x2028 || n = 0x2029 || n = 0x202F || n = 0x205F || n = 0x3000

/-- `str::split_whitespace`. -/
def splitWhitespace (s : List Char) : List (List Char) :=
  (s.splitOnP isWhitespace).filter (· ≠ [])

/-- `str::trim`. -/
def trim (s : List Char) : List Char := (s.dropWhile isWhitespace).rdropWhile isWhitespace

/-- `str::split_once` at a character. -/
def splitOnce (c : Char) (s : List Char) : Option (List Char × List Char) :=
  match s.span (· != c) with
  | (_, []) => none
  | (before, _ :: after) => some (before, after)

def dropSign : List Char → List Char
  | '+' :: rest => rest
  | s => s

/-- `str::parse` to an unsigned integer of at most `max`: a sign, then decimal digits. -/
def parseUnsigned (max : ℕ) (s : List Char) : Option ℕ :=
  if dropSign s ≠ [] ∧ (dropSign s).all Char.isDigit then
    if Nat.ofDigitChars 10 (dropSign s) 0 ≤ max then some (Nat.ofDigitChars 10 (dropSign s) 0)
    else none
  else none

theorem not_isWhitespace_of_all {s : List Char} (h : s.all (!isWhitespace ·) = true) :
    ∀ c ∈ s, isWhitespace c = false :=
  fun c hc => Bool.not_eq_true' _ |>.mp (List.all_eq_true.mp h c hc)

theorem splitWhitespace_word {w rest : List Char} {c : Char} (hw : ∀ x ∈ w, isWhitespace x = false)
    (hne : w ≠ []) (hc : isWhitespace c) :
    splitWhitespace (w ++ c :: rest) = w :: splitWhitespace rest := by
  rw [splitWhitespace, List.splitOnP_append_cons_of_forall_mem hw c hc]
  simp [splitWhitespace, hne]

theorem dropWhile_word {w r : List Char} (hw : ∀ x ∈ w, isWhitespace x = false) (hne : w ≠ []) :
    (w ++ r).dropWhile isWhitespace = w ++ r := by
  obtain ⟨x, w, rfl⟩ := List.exists_cons_of_ne_nil hne
  rw [List.cons_append, List.dropWhile_cons_of_neg (by simp [hw x])]

theorem trim_padded {l w r : List Char} (hl : ∀ x ∈ l, isWhitespace x)
    (hw : ∀ x ∈ w, isWhitespace x = false) (hne : w ≠ []) (hr : ∀ x ∈ r, isWhitespace x) :
    trim (l ++ w ++ r) = w := by
  rw [trim, List.append_assoc, List.dropWhile_append_of_pos hl, dropWhile_word hw hne,
    List.rdropWhile, List.reverse_append, List.dropWhile_append_of_pos (by simpa using hr)]
  have h := dropWhile_word (r := []) (w := w.reverse) (by simpa using hw) (by simpa using hne)
  rw [List.append_nil] at h
  rw [h, List.reverse_reverse]

theorem parseUnsigned_toDigits {max n : ℕ} (h : n ≤ max) :
    parseUnsigned max (Nat.toDigits 10 n) = some n := by
  have hd : ∀ c ∈ Nat.toDigits 10 n, c.isDigit := fun c hc =>
    Nat.isDigit_of_mem_toDigits (by decide) (by decide) hc
  have hne : Nat.toDigits 10 n ≠ [] := Nat.toDigits_ne_nil
  have hsign : ∀ rest, Nat.toDigits 10 n ≠ '+' :: rest := by
    intro rest hp
    have := hd '+' (hp ▸ List.mem_cons_self)
    exact absurd this (by decide)
  have hall : (Nat.toDigits 10 n).all Char.isDigit = true := List.all_eq_true.mpr hd
  have hdrop : dropSign (Nat.toDigits 10 n) = Nat.toDigits 10 n := by
    unfold dropSign
    split
    · rename_i rest hp
      exact absurd hp (hsign rest)
    · rfl
  rw [parseUnsigned, hdrop, if_pos ⟨hne, hall⟩, Nat.ofDigitChars_ten_toDigits, if_pos h]

theorem splitOnce_append {c : Char} {name value : List Char} (h : c ∉ name) :
    splitOnce c (name ++ c :: value) = some (name, value) := by
  have hname : ∀ x ∈ name, (x != c) = true := by
    intro x hx
    simpa using fun hxc : x = c => h (hxc ▸ hx)
  rw [splitOnce, List.span_eq_takeWhile_dropWhile, List.takeWhile_append_of_pos hname,
    List.dropWhile_append_of_pos hname]
  simp

theorem head_splitOn (c : Char) (s : List Char) :
    (s.splitOn c).head?.getD [] = s.takeWhile (· ≠ c) := by
  rw [List.splitOn]
  induction s with
  | nil => simp
  | cons x s ih =>
      rw [List.splitOnP_cons_eq_if_modifyHead]
      by_cases hx : x = c
      · simp [hx]
      · cases hs : s.splitOnP (· == c) with
        | nil => exact absurd hs (List.splitOnP_ne_nil _ _)
        | cons w ws =>
            rw [hs] at ih
            simp only [List.head?_cons, Option.getD_some] at ih
            simp [hx, ih]

theorem isWhitespace_of_isDigit {c : Char} (h : c.isDigit) : isWhitespace c = false := by
  have hle : 48 ≤ c.toNat ∧ c.toNat ≤ 57 := by
    simpa [Char.isDigit, UInt32.le_iff_toNat_le] using h
  simp only [isWhitespace]
  simp
  omega

/-! ### Searching for a blank line -/

/-- `windows(pat.len()).position(|w| w == pat)`, for a pattern that is not empty. -/
def position (pat : List UInt8) : List UInt8 → Option ℕ
  | [] => none
  | b :: rest =>
      if (b :: rest).take pat.length = pat then some 0 else (position pat rest).map (· + 1)

/-- `\r\n\r\n`. -/
def blankLine : List UInt8 := [13, 10, 13, 10]

theorem position_of_ne {b : UInt8} (h : b ≠ 13) (rest : List UInt8) :
    position blankLine (b :: rest) = (position blankLine rest).map (· + 1) := by
  rw [position, if_neg]
  intro hw
  exact h (List.head_eq_of_cons_eq hw)

theorem position_append {line : List UInt8} (h : 13 ∉ line) (rest : List UInt8) :
    position blankLine (line ++ rest) = (position blankLine rest).map (· + line.length) := by
  induction line with
  | nil => simp
  | cons b line ih =>
      rw [List.mem_cons, not_or] at h
      rw [List.cons_append, position_of_ne (Ne.symm h.1), ih h.2, Option.map_map]
      rfl

/-- No blank line begins in a line that another one follows. -/
theorem position_line {line next : List UInt8} (hline : 13 ∉ line) (hnext : 13 ∉ next)
    (hne : next ≠ []) (rest : List UInt8) :
    position blankLine (line ++ ([13, 10] ++ (next ++ rest))) =
      (position blankLine (next ++ rest)).map (· + (line.length + 2)) := by
  obtain ⟨b, next, rfl⟩ := List.exists_cons_of_ne_nil hne
  have hb : b ≠ 13 := fun h => hnext (h ▸ List.mem_cons_self)
  have hcr : position blankLine (13 :: 10 :: (b :: next ++ rest)) =
      (position blankLine (10 :: (b :: next ++ rest))).map (· + 1) := by
    rw [position, if_neg]
    intro hw
    simp only [blankLine, List.take_succ_cons, List.length_cons, List.length_nil, List.cons_append,
      List.cons.injEq] at hw
    exact hb hw.2.2.1
  rw [position_append hline, List.cons_append, List.cons_append, List.nil_append, hcr,
    position_of_ne (by decide), Option.map_map, Option.map_map]
  congr 1
  funext n
  simp only [Function.comp_apply]
  omega

theorem position_blank {line : List UInt8} (h : 13 ∉ line) (rest : List UInt8) :
    position blankLine (line ++ (blankLine ++ rest)) = some line.length := by
  rw [position_append h]
  simp [position, blankLine]

end Http3Bench.Text
