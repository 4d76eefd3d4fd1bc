import Http3Bench.Text

/-!
# Report tables

`benchreport/report/table.go`: a title and rows of cells written as a markdown table, every cell
padded to the width of its column. A line of the table depends on the other rows only through the
widths, and these do not depend on the order of the rows (`markdownTable_perm`).

Text is a list of characters, which is what `utf8.RuneCountInString` counts.
-/

namespace Http3Bench.Benchreport

abbrev Str := List Char

def spaces (n : ℕ) : Str := List.replicate n ' '

/-- The loop of `padCell` that pushes the first column right: `paddingLen` and the number of spaces
before the cell change together. -/
def pushRight (titleLeftPaddingIdx : ℕ) : ℕ → ℕ → Str → Str
  | 0, _, s => s
  | paddingLen + 1, i, s =>
    if i < (paddingLen + 1) / 2 ∧ i < titleLeftPaddingIdx then
      pushRight titleLeftPaddingIdx paddingLen (i + 1) (' ' :: s)
    else s ++ spaces (paddingLen + 1)

/-- The first column is pushed right no further than its title and padded on the right, every other
cell is centred. -/
def padCell (s : Str) (maxLen : ℕ) (isFirst : Bool) (titleLeftPaddingIdx : ℕ) : Str :=
  let paddingLen := maxLen - s.length
  if paddingLen = 0 then s
  else if isFirst then pushRight titleLeftPaddingIdx paddingLen 0 s
  else spaces (paddingLen / 2) ++ s ++ spaces (paddingLen - paddingLen / 2)

/-- A cell with one space before it, the rest after. -/
def padLeft (s : Str) (maxLen : ℕ) (_ : Bool) (_ : ℕ) : Str :=
  let paddingLen := maxLen - s.length
  if paddingLen = 0 then s else ' ' :: s ++ spaces (paddingLen - 1)

/-- The widths of the columns after one more row. -/
def widen : List ℕ → List Str → List ℕ
  | [], row => row.map List.length
  | m, [] => m
  | a :: m, cell :: row => max a cell.length :: widen m row

/-- Where the last character that is not a space stands. -/
def lastNonSpace (s : Str) : ℕ :=
  s.zipIdx.foldl (fun idx r => if r.1 ≠ ' ' then r.2 else idx) 0

def fill (columnNum : ℕ) (row : List Str) : List Str :=
  row ++ List.replicate (columnNum - row.length) []

/-- One line: the cells of a row, padded, between bars. -/
def tableLine (pad : Str → ℕ → Bool → ℕ → Str) (maxLen : List ℕ) (isRow : Bool) (idx : ℕ)
    (row : List Str) : Str :=
  '|' :: (row.mapIdx (fun j cell => pad cell (maxLen.getD j 0) (isRow && j == 0) idx ++ ['|'])).flatten
    ++ ['\n']

def separator (title : List Str) : List Str := List.replicate title.length "---".toList

def widths (title : List Str) (rows : List (List Str)) : List ℕ :=
  ((separator title :: rows).foldl widen (title.map List.length)).map (· + 2)

def columns (title : List Str) (rows : List (List Str)) : ℕ :=
  (separator title :: rows).foldl (fun n row => max n row.length) title.length

def padOf (left : Bool) : Str → ℕ → Bool → ℕ → Str := if left then padLeft else padCell

def titleLeftPaddingIdx (title : List Str) (left : Bool) (maxLen : List ℕ) (columnNum : ℕ) : ℕ :=
  match (fill columnNum title).head? with
  | some v => lastNonSpace (padOf left v (maxLen.getD 0 0) false 0)
  | none => 0

def titleLine (title : List Str) (left : Bool) (maxLen : List ℕ) (columnNum : ℕ) : Str :=
  tableLine (padOf left) maxLen false 0 (fill columnNum title)

def rowLine (title : List Str) (left : Bool) (maxLen : List ℕ) (columnNum : ℕ) (row : List Str) :
    Str :=
  tableLine (padOf left) maxLen true (titleLeftPaddingIdx title left maxLen columnNum)
    (fill columnNum row)

/-- The lines of a table: its title, the separator and its rows. -/
def markdownTableAligned (title : List Str) (rows : List (List Str)) (left : Bool) : List Str :=
  titleLine title left (widths title rows) (columns title rows) ::
    (separator title :: rows).map (rowLine title left (widths title rows) (columns title rows))

def markdownTable (title : List Str) (rows : List (List Str)) : List Str :=
  markdownTableAligned title rows false

/-! ### The order of the rows -/

@[simp] theorem widen_nil_left (row : List Str) : widen [] row = row.map List.length := by
  cases row <;> rfl

@[simp] theorem widen_nil_right (m : List ℕ) : widen m [] = m := by
  cases m <;> rfl

@[simp] theorem widen_cons (a : ℕ) (m : List ℕ) (cell : Str) (row : List Str) :
    widen (a :: m) (cell :: row) = max a cell.length :: widen m row := rfl

theorem widen_right_comm (m : List ℕ) (r s : List Str) :
    widen (widen m r) s = widen (widen m s) r := by
  induction r generalizing m s with
  | nil => simp
  | cons c r ih =>
    cases s with
    | nil => simp
    | cons d s =>
      cases m with
      | nil =>
        have h := ih [] s
        simp only [widen_nil_left] at h
        simp only [widen_nil_left, List.map_cons, widen_cons, h, max_comm]
      | cons a m => simp only [widen_cons, ih, max_right_comm]

theorem widths_perm (title : List Str) {rows rows' : List (List Str)} (h : rows'.Perm rows) :
    widths title rows' = widths title rows := by
  unfold widths
  rw [(h.cons (separator title)).foldl_eq' (fun r _ s _ m => widen_right_comm m r s)]

theorem columns_perm (title : List Str) {rows rows' : List (List Str)} (h : rows'.Perm rows) :
    columns title rows' = columns title rows := by
  unfold columns
  apply (h.cons (separator title)).foldl_eq'
  intro r _ s _ n
  exact max_right_comm n r.length s.length

/-- Whatever the order of its rows, a table has the same two lines on top, and each row the same
line. -/
theorem markdownTable_perm (title : List Str) (rows : List (List Str)) :
    ∃ (t sep : Str) (line : List Str → Str), ∀ rows', rows'.Perm rows →
      markdownTable title rows' = t :: sep :: rows'.map line := by
  refine ⟨titleLine title false (widths title rows) (columns title rows),
    rowLine title false (widths title rows) (columns title rows) (separator title),
    rowLine title false (widths title rows) (columns title rows), fun rows' hp => ?_⟩
  unfold markdownTable markdownTableAligned
  rw [widths_perm title hp, columns_perm title hp]
  rfl

end Http3Bench.Benchreport
