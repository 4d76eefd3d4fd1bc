import Http3Bench.Lib.Coverage
import Mathlib.Data.Char
import Mathlib.Data.List.Lex
import Mathlib.Data.List.Sort
import Mathlib.Data.List.TakeWhile
import Mathlib.Data.Nat.SuccPred
import Mathlib.Data.Prod.Lex

/-!
# Ports that are reserved

`ports_covered` of `script/env.sh`, whether a list in the kernel's `ip_local_reserved_ports` format has
every port of a range: the list is taken apart by `tr` and `awk`, its elements sorted by their first
number and read once, with the next port that is needed.
-/

namespace Http3Bench.Script

abbrev Str := List Char

/-! ### The pipeline -/

/-- `tr ',' '\n'`. -/
def tr (text : Str) : Str := text.map (fun c => if c = ',' then '\n' else c)

/-- The lines of a text; a newline at its end starts no other line. -/
def lines (text : Str) : List Str :=
  let parts := text.splitOn '\n'
  if parts.getLast? = some [] then parts.dropLast else parts

/-- `awk -F- 'NF { print $1, (NF > 1 ? $2 : $1) }'`, on one line. -/
def bounds (line : Str) : Option Str :=
  if line = [] then none
  else match line.splitOn '-' with
    | first :: last :: _ => some (first ++ ' ' :: last)
    | [port] => some (port ++ ' ' :: port)
    | [] => none

/-- The number a text starts with. -/
def number (text : Str) : ℕ := Nat.ofDigitChars 10 (text.takeWhile Char.isDigit) 0

/-- `sort -n`: by the number a line starts with, equal ones by the whole line. -/
def sortN (text : List Str) : List Str :=
  text.insertionSort (fun a b => toLex (number a, a) ≤ toLex (number b, b))

/-- The numbers in the first two fields of a line. -/
def fields (line : Str) : ℕ × ℕ :=
  let words := (line.splitOn ' ').filter (· ≠ [])
  (number (words.getD 0 []), number (words.getD 1 []))

/-- `$1 <= need && $2 >= need { need = $2 + 1 }`. -/
def scanLine (need : ℕ) (line : Str) : ℕ :=
  if (fields line).1 ≤ need ∧ (fields line).2 ≥ need then (fields line).2 + 1 else need

def portsCovered (list : Str) (first last : ℕ) : Bool :=
  let need := (sortN ((lines (tr (list ++ ['\n']))).filterMap bounds)).foldl scanLine first
  need > last

/-! ### Lists of ports -/

/-- An element of a list: a port, or the ports from one to another. -/
inductive Element
  | port (p : ℕ)
  | range (first last : ℕ) (le : first ≤ last)

namespace Element

def first : Element → ℕ
  | port p => p
  | range first _ _ => first

def last : Element → ℕ
  | port p => p
  | range _ last _ => last

def render : Element → Str
  | port p => Nat.toDigits 10 p
  | range first last _ => Nat.toDigits 10 first ++ '-' :: Nat.toDigits 10 last

/-- What the first `awk` prints for an element. -/
def line (e : Element) : Str := Nat.toDigits 10 e.first ++ ' ' :: Nat.toDigits 10 e.last

end Element

def renderList (list : List Element) : Str := [','].intercalate (list.map Element.render)

theorem not_mem_toDigits {c : Char} (hc : c.isDigit = false) (n : ℕ) : c ∉ Nat.toDigits 10 n :=
  fun h => absurd (Nat.isDigit_of_mem_toDigits (by decide) (by decide) h) (by simp [hc])

theorem Element.not_mem_render {c : Char} (hc : c.isDigit = false) (hdash : c ≠ '-') (e : Element) :
    c ∉ e.render := by
  cases e with
  | port p => exact not_mem_toDigits hc p
  | range first last le =>
    simp [Element.render, not_mem_toDigits hc, hdash]

theorem Element.bounds_render (e : Element) : bounds e.render = some e.line := by
  cases e with
  | port p =>
    have hne : (Element.port p).render ≠ [] := Nat.toDigits_ne_nil
    rw [bounds, if_neg hne, Element.render, List.splitOn_eq_singleton (not_mem_toDigits (by decide) p)]
    rfl
  | range first last le =>
    rw [bounds, if_neg (by simp [Element.render]), Element.render, List.splitOn_append_cons_self,
      List.splitOn_eq_singleton (not_mem_toDigits (by decide) first),
      List.splitOn_eq_singleton (not_mem_toDigits (by decide) last)]
    rfl

theorem tr_renderList (list : List Element) :
    tr (renderList list) = ['\n'].intercalate (list.map Element.render) := by
  have hrender : ∀ e : Element, tr e.render = e.render := by
    intro e
    refine (List.map_congr_left (fun c hc => if_neg ?_)).trans (List.map_id _)
    rintro rfl
    exact e.not_mem_render (by decide) (by decide) hc
  unfold renderList
  induction list with
  | nil => rfl
  | cons e list ih =>
    cases list with
    | nil => simpa using hrender e
    | cons e' list =>
      rw [List.map_cons, List.map_cons, List.intercalate_cons_cons, List.intercalate_cons_cons]
      rw [tr, List.map_append, List.map_append, ← tr, hrender, ← tr, ← tr]
      rw [List.map_cons] at ih
      rw [ih]
      rfl

/-- What is sorted: a line for each element. -/
theorem filterMap_bounds (list : List Element) :
    (lines (tr (renderList list ++ ['\n']))).filterMap bounds = list.map Element.line := by
  have htext : tr (renderList list ++ ['\n']) = tr (renderList list) ++ ['\n'] := List.map_append
  have hlines : lines (tr (renderList list ++ ['\n'])) = (tr (renderList list)).splitOn '\n' := by
    rw [htext, lines, List.splitOn_append_cons_self, List.splitOn_nil]
    simp
  rw [hlines, tr_renderList]
  by_cases hnil : list = []
  · subst hnil
    rfl
  · rw [List.splitOn_intercalate '\n' (by
      intro text htext
      obtain ⟨e, -, rfl⟩ := List.mem_map.mp htext
      exact e.not_mem_render (by decide) (by decide)) (by simpa using hnil)]
    rw [List.filterMap_map]
    refine (List.filterMap_congr (fun e _ => e.bounds_render)).trans ?_
    exact congrFun List.filterMap_eq_map' list

theorem number_digits (n : ℕ) (rest : Str) : number (Nat.toDigits 10 n ++ ' ' :: rest) = n := by
  have hdigits : ∀ c ∈ Nat.toDigits 10 n, c.isDigit = true :=
    fun c hc => Nat.isDigit_of_mem_toDigits (by decide) (by decide) hc
  rw [number, List.takeWhile_append_of_pos hdigits, List.takeWhile_cons_of_neg (by decide),
    List.append_nil, Nat.ofDigitChars_ten_toDigits]

theorem number_toDigits (n : ℕ) : number (Nat.toDigits 10 n) = n := by
  have hdigits : ∀ c ∈ Nat.toDigits 10 n, c.isDigit = true :=
    fun c hc => Nat.isDigit_of_mem_toDigits (by decide) (by decide) hc
  rw [number, List.takeWhile_eq_self_iff.mpr hdigits, Nat.ofDigitChars_ten_toDigits]

theorem Element.fields_line (e : Element) : fields e.line = (e.first, e.last) := by
  have hwords : e.line.splitOn ' ' = [Nat.toDigits 10 e.first, Nat.toDigits 10 e.last] := by
    rw [Element.line, List.splitOn_append_cons_self,
      List.splitOn_eq_singleton (not_mem_toDigits (by decide) e.first),
      List.splitOn_eq_singleton (not_mem_toDigits (by decide) e.last)]
    rfl
  rw [fields, hwords]
  simp [number_toDigits]

/-! ### Coverage -/

theorem foldl_scanLine (text : List Str) (need : ℕ) :
    text.foldl scanLine need = Coverage.scan need (text.map fields) := by
  rw [Coverage.scan, List.foldl_map]
  rfl

theorem pairwise_sortN (text : List Str) : (sortN text).Pairwise (fun a b => number a ≤ number b) := by
  have : Std.Total (fun a b : Str => toLex (number a, a) ≤ toLex (number b, b)) :=
    ⟨fun a b => le_total _ _⟩
  have : IsTrans Str (fun a b => toLex (number a, a) ≤ toLex (number b, b)) :=
    ⟨fun a b c => le_trans⟩
  refine (List.pairwise_insertionSort _ text).imp (fun h => ?_)
  rcases Prod.Lex.toLex_le_toLex.mp h with hlt | ⟨heq, -⟩
  · exact hlt.le
  · exact heq.le

/-- `ports_covered` succeeds where every port from `first` to `last` is in an element of the list. -/
theorem portsCovered_iff (list : List Element) (first last : ℕ) :
    portsCovered (renderList list) first last = true ↔
      ∀ p, first ≤ p → p ≤ last → ∃ e ∈ list, e.first ≤ p ∧ p ≤ e.last := by
  have hperm : (sortN (list.map Element.line)).Perm (list.map Element.line) := List.perm_insertionSort _ _
  have hfields : ∀ text ∈ sortN (list.map Element.line), (fields text).1 = number text := by
    intro text htext
    obtain ⟨e, -, rfl⟩ := List.mem_map.mp (hperm.subset htext)
    rw [e.fields_line, Element.line, number_digits]
  have hsorted : ((sortN (list.map Element.line)).map fields).Pairwise (fun a b => a.1 ≤ b.1) := by
    rw [List.pairwise_map]
    refine (pairwise_sortN _).imp_of_mem (fun ha hb h => ?_)
    rw [hfields _ ha, hfields _ hb]
    exact h
  rw [portsCovered, filterMap_bounds, foldl_scanLine, decide_eq_true_iff, gt_iff_lt,
    Coverage.lt_scan_iff hsorted]
  refine forall₃_congr (fun p _ _ => ?_)
  simp only [List.mem_map, hperm.mem_iff, exists_exists_and_eq_and, Element.fields_line]

example : portsCovered "80,3201-3351,3001-3200".toList 3001 3351 = true := by decide +kernel

end Http3Bench.Script
