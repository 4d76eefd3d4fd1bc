import Http3Bench.Benchreport.Table
import Mathlib.Order.Bounds.Basic

/-!
# The layout of a table

Whatever the lengths of its rows, `markdownTableAligned` writes a line for the title, the separator
and each row, with as many cells in each as the longest of them has, and every cell as wide as the
widest of its column and two more.
-/

namespace Http3Bench.Benchreport

/-! ### Padding -/

/-- `cell` is `text` with spaces around it, `width` characters wide. -/
def IsPadded (text : Str) (width : ℕ) (cell : Str) : Prop :=
  cell.length = width ∧ ∃ a b, cell = spaces a ++ text ++ spaces b

variable {s : Str} {maxLen : ℕ}

theorem isPadded_append {a b : ℕ} (h : a + s.length + b = maxLen) :
    IsPadded s maxLen (spaces a ++ s ++ spaces b) := by
  refine ⟨?_, a, b, rfl⟩
  simp only [spaces, List.length_append, List.length_replicate]
  exact h

/-- The loop of the first column takes a space from the padding for each one it writes. -/
theorem pushRight_eq (titleLeftPaddingIdx paddingLen i : ℕ) (s : Str) :
    ∃ a b, a + b = paddingLen ∧
      pushRight titleLeftPaddingIdx paddingLen i s = spaces a ++ s ++ spaces b := by
  induction paddingLen generalizing i s with
  | zero => exact ⟨0, 0, rfl, by simp [pushRight, spaces]⟩
  | succ paddingLen ih =>
    unfold pushRight
    split
    · obtain ⟨a, b, hsum, heq⟩ := ih (i + 1) (' ' :: s)
      refine ⟨a + 1, b, by omega, ?_⟩
      have hspace : spaces (a + 1) = spaces a ++ [' '] := List.replicate_succ'
      rw [heq, hspace]
      simp
    · exact ⟨0, paddingLen + 1, by omega, by simp [spaces]⟩

theorem padOf_isPadded (left : Bool) (h : s.length < maxLen) (isFirst : Bool) (idx : ℕ) :
    IsPadded s maxLen (padOf left s maxLen isFirst idx) := by
  have hpad : maxLen - s.length ≠ 0 := by omega
  cases left with
  | true =>
    have heq : padOf true s maxLen isFirst idx =
        spaces 1 ++ s ++ spaces (maxLen - s.length - 1) := if_neg hpad
    rw [heq]
    exact isPadded_append (by omega)
  | false =>
    change IsPadded s maxLen (padCell s maxLen isFirst idx)
    unfold padCell
    rw [if_neg hpad]
    cases isFirst with
    | true =>
      obtain ⟨a, b, hsum, heq⟩ := pushRight_eq idx (maxLen - s.length) 0 s
      rw [if_pos rfl, heq]
      exact isPadded_append (by omega)
    | false =>
      rw [if_neg Bool.false_ne_true]
      exact isPadded_append (by omega)

/-! ### Widths -/

theorem length_widen (m : List ℕ) (row : List Str) : (widen m row).length = max m.length row.length := by
  induction row generalizing m with
  | nil => simp
  | cons cell row ih =>
    cases m with
    | nil => simp
    | cons a m =>
      rw [widen_cons, List.length_cons, List.length_cons, List.length_cons, ih]
      omega

/-- The widths grow by as many columns as the rows have. -/
theorem length_foldl_widen (rows : List (List Str)) (m : List ℕ) :
    (rows.foldl widen m).length = rows.foldl (fun n row => max n row.length) m.length := by
  induction rows generalizing m with
  | nil => rfl
  | cons row rows ih => rw [List.foldl_cons, List.foldl_cons, ih, length_widen]

theorem length_widths (title : List Str) (rows : List (List Str)) :
    (widths title rows).length = columns title rows := by
  rw [widths, List.length_map, length_foldl_widen, List.length_map, columns]

section

variable {m : List ℕ} {row : List Str} {j w : ℕ}

theorem widen_cases (h : (widen m row)[j]? = some w) :
    m[j]? = some w ∨ ∃ cell, row[j]? = some cell ∧ cell.length = w := by
  induction row generalizing m j with
  | nil => exact .inl (by simpa using h)
  | cons cell row ih =>
    cases m with
    | nil =>
      rw [widen_nil_left, List.getElem?_map] at h
      exact .inr (Option.map_eq_some_iff.mp h)
    | cons a m =>
      cases j with
      | zero =>
        obtain rfl : max a cell.length = w := Option.some.inj h
        rcases le_total a cell.length with hle | hle
        · exact .inr ⟨cell, rfl, (max_eq_right hle).symm⟩
        · exact .inl (by rw [max_eq_left hle]; rfl)
      | succ j => exact ih h

theorem le_widen_left (row : List Str) (h : m[j]? = some w) : ∃ a, (widen m row)[j]? = some a ∧ w ≤ a := by
  induction row generalizing m j with
  | nil => exact ⟨w, by simpa using h, le_rfl⟩
  | cons cell row ih =>
    cases m with
    | nil => cases h
    | cons a m =>
      cases j with
      | zero =>
        obtain rfl : a = w := Option.some.inj h
        exact ⟨_, rfl, le_max_left _ _⟩
      | succ j => exact ih h

theorem le_widen_right (m : List ℕ) {cell : Str} (h : row[j]? = some cell) :
    ∃ a, (widen m row)[j]? = some a ∧ cell.length ≤ a := by
  induction row generalizing m j with
  | nil => cases h
  | cons first row ih =>
    cases m with
    | nil =>
      refine ⟨cell.length, ?_, le_rfl⟩
      rw [widen_nil_left, List.getElem?_map, h]
      rfl
    | cons a m =>
      cases j with
      | zero =>
        obtain rfl : first = cell := Option.some.inj h
        exact ⟨_, rfl, le_max_right _ _⟩
      | succ j => exact ih m h

end

/-- The widths of the contents of a column. -/
def columnLengths (rows : List (List Str)) (j : ℕ) : Set ℕ :=
  {n | ∃ row ∈ rows, ∃ cell, row[j]? = some cell ∧ cell.length = n}

theorem isGreatest_foldl_widen (rows : List (List Str)) {m : List ℕ} {j w : ℕ}
    (h : (rows.foldl widen m)[j]? = some w) :
    IsGreatest ({a | m[j]? = some a} ∪ columnLengths rows j) w := by
  induction rows generalizing m with
  | nil =>
    refine ⟨.inl h, ?_⟩
    rintro a (ha | ⟨row, hrow, -⟩)
    · exact (Option.some.inj (ha.symm.trans h)).le
    · cases hrow
  | cons row rows ih =>
    obtain ⟨hmem, hle⟩ := ih h
    constructor
    · rcases hmem with hw | ⟨row', hrow', hcell⟩
      · rcases widen_cases hw with hm | hcell
        · exact .inl hm
        · exact .inr ⟨row, List.mem_cons_self, hcell⟩
      · exact .inr ⟨row', List.mem_cons_of_mem _ hrow', hcell⟩
    · rintro a (ha | ⟨row', hrow', cell, hcell, rfl⟩)
      · obtain ⟨a', ha', hale⟩ := le_widen_left row ha
        exact hale.trans (hle (.inl ha'))
      · rcases List.mem_cons.mp hrow' with rfl | hrow'
        · obtain ⟨a', ha', hale⟩ := le_widen_right m hcell
          exact hale.trans (hle (.inl ha'))
        · exact hle (.inr ⟨row', hrow', cell, hcell, rfl⟩)

/-- What a table is written from: its title, the separator and its rows. -/
def contents (title : List Str) (rows : List (List Str)) : List (List Str) :=
  title :: separator title :: rows

variable {title : List Str} {rows : List (List Str)}

/-- A column is two wider than the widest of its contents. -/
theorem widths_isGreatest {j w : ℕ} (h : (widths title rows)[j]? = some w) :
    ∃ n, w = n + 2 ∧ IsGreatest (columnLengths (contents title rows) j) n := by
  rw [widths, List.getElem?_map] at h
  obtain ⟨n, hn, rfl⟩ := Option.map_eq_some_iff.mp h
  refine ⟨n, rfl, ?_⟩
  have hset : {a | (title.map List.length)[j]? = some a} ∪ columnLengths (separator title :: rows) j =
      columnLengths (contents title rows) j := by
    ext a
    simp [columnLengths, contents]
  rw [← hset]
  exact isGreatest_foldl_widen _ hn

theorem isGreatest_foldl_length (rows : List (List Str)) (n : ℕ) :
    IsGreatest ({n} ∪ {k | ∃ row ∈ rows, row.length = k}) (rows.foldl (fun n row => max n row.length) n) := by
  induction rows generalizing n with
  | nil => exact ⟨.inl rfl, by simp [upperBounds]⟩
  | cons row rows ih =>
    obtain ⟨hmem, hle⟩ := ih (max n row.length)
    have hmax := hle (.inl rfl)
    constructor
    · rcases hmem with heq | ⟨row', hrow', heq⟩
      · rw [List.foldl_cons, show _ = _ from heq]
        rcases le_total n row.length with h | h
        · exact .inr ⟨row, List.mem_cons_self, (max_eq_right h).symm⟩
        · exact .inl (max_eq_left h)
      · exact .inr ⟨row', List.mem_cons_of_mem _ hrow', heq⟩
    · rintro k (rfl | ⟨row', hrow', rfl⟩)
      · exact (le_max_left _ _).trans hmax
      · rcases List.mem_cons.mp hrow' with rfl | hrow'
        · exact (le_max_right _ _).trans hmax
        · exact hle (.inr ⟨row', hrow', rfl⟩)

theorem isGreatest_columns (title : List Str) (rows : List (List Str)) :
    IsGreatest {n | ∃ row ∈ title :: rows, row.length = n} (columns title rows) := by
  have hsep : (separator title).length = title.length := List.length_replicate
  have hset : {n | ∃ row ∈ title :: rows, row.length = n} =
      {title.length} ∪ {n | ∃ row ∈ rows, row.length = n} := by
    ext n
    simp [eq_comm]
  rw [hset, columns, List.foldl_cons, hsep, max_self]
  exact isGreatest_foldl_length rows title.length

theorem length_le_columns {row : List Str} (h : row ∈ contents title rows) :
    row.length ≤ columns title rows := by
  have hle := (isGreatest_columns title rows).2
  rcases List.mem_cons.mp h with rfl | h
  · exact hle ⟨row, List.mem_cons_self, rfl⟩
  · rcases List.mem_cons.mp h with rfl | h
    · exact hle ⟨title, List.mem_cons_self, List.length_replicate.symm⟩
    · exact hle ⟨row, List.mem_cons_of_mem _ h, rfl⟩

/-! ### Lines -/

/-- A line: one cell a column, each the text of the row there, or nothing, with spaces around it. -/
def IsLine (maxLen : List ℕ) (row : List Str) (line : Str) : Prop :=
  ∃ cells : List Str, line = '|' :: (cells.map (· ++ ['|'])).flatten ++ ['\n'] ∧
    cells.length = maxLen.length ∧
    ∀ j cell width, cells[j]? = some cell → maxLen[j]? = some width → IsPadded (row.getD j []) width cell

theorem length_fill {row : List Str} (h : row ∈ contents title rows) :
    (fill (columns title rows) row).length = (widths title rows).length := by
  have hle := length_le_columns h
  rw [fill, List.length_append, List.length_replicate, length_widths]
  omega

theorem length_lt_width {row : List Str} (h : row ∈ contents title rows) {j w : ℕ}
    (hw : (widths title rows)[j]? = some w) : (row.getD j []).length < w := by
  obtain ⟨n, rfl, hgreatest⟩ := widths_isGreatest hw
  cases hcell : row[j]? with
  | none => simp [List.getD_eq_getElem?_getD, hcell]
  | some cell =>
    have hle : cell.length ≤ n := hgreatest.2 ⟨row, h, cell, hcell, rfl⟩
    rw [List.getD_eq_getElem?_getD, hcell, Option.getD_some]
    omega

theorem getElem?_fill {row : List Str} {columnNum j : ℕ} {cell : Str}
    (h : (fill columnNum row)[j]? = some cell) : cell = row.getD j [] := by
  rw [fill, List.getElem?_append] at h
  rw [List.getD_eq_getElem?_getD]
  split at h
  · rw [h, Option.getD_some]
  · rename_i hlt
    rw [List.getElem?_eq_none (not_lt.mp hlt), Option.getD_none]
    exact List.eq_of_mem_replicate (List.mem_of_getElem? h)

/-- Every line of a table is one. -/
theorem tableLine_isLine (left isRow : Bool) (idx : ℕ) {row : List Str} (h : row ∈ contents title rows) :
    IsLine (widths title rows) row
      (tableLine (padOf left) (widths title rows) isRow idx (fill (columns title rows) row)) := by
  refine ⟨(fill (columns title rows) row).mapIdx (fun j cell =>
    padOf left cell ((widths title rows).getD j 0) (isRow && j == 0) idx), ?_, ?_, ?_⟩
  · have hbars : ((fill (columns title rows) row).mapIdx (fun j cell =>
        padOf left cell ((widths title rows).getD j 0) (isRow && j == 0) idx)).map (· ++ ['|']) =
          (fill (columns title rows) row).mapIdx (fun j cell =>
            padOf left cell ((widths title rows).getD j 0) (isRow && j == 0) idx ++ ['|']) := by
      apply List.ext_getElem <;> simp
    rw [tableLine, hbars]
  · rw [List.length_mapIdx, length_fill h]
  · intro j cell width hcell hwidth
    rw [List.getElem?_mapIdx] at hcell
    obtain ⟨text, htext, rfl⟩ := Option.map_eq_some_iff.mp hcell
    have hget : (widths title rows).getD j 0 = width := by
      rw [List.getD_eq_getElem?_getD, hwidth, Option.getD_some]
    rw [getElem?_fill htext, hget]
    exact padOf_isPadded left (length_lt_width h hwidth) _ _

section

variable {maxLen : List ℕ} {row : List Str} {line : Str}

theorem IsLine.length_eq (h : IsLine maxLen row line) : line.length = (maxLen.map (· + 1)).sum + 2 := by
  obtain ⟨cells, rfl, hlen, hcells⟩ := h
  have hwidths : cells.map List.length = maxLen := by
    apply List.ext_getElem (by simpa using hlen)
    intro j h1 h2
    rw [List.length_map] at h1
    rw [List.getElem_map]
    exact (hcells j _ _ (List.getElem?_eq_getElem h1) (List.getElem?_eq_getElem h2)).1
  rw [← hwidths]
  simp [List.length_flatten, Function.comp_def]

/-- Cells without a newline make one line. -/
theorem IsLine.newline (h : IsLine maxLen row line) (hrow : ∀ cell ∈ row, '\n' ∉ cell) :
    ∃ body, line = body ++ ['\n'] ∧ '\n' ∉ body := by
  obtain ⟨cells, rfl, hlen, hcells⟩ := h
  refine ⟨_, rfl, ?_⟩
  have hcell : ∀ cell ∈ cells, '\n' ∉ cell := by
    intro cell hmem
    obtain ⟨j, hj⟩ := List.mem_iff_getElem?.mp hmem
    have hlt : j < maxLen.length := hlen ▸ (List.getElem?_eq_some_iff.mp hj).1
    obtain ⟨-, a, b, rfl⟩ := hcells j cell _ hj (List.getElem?_eq_getElem hlt)
    rw [List.getD_eq_getElem?_getD]
    cases h : row[j]? with
    | none => simp [spaces]
    | some text => simp [spaces, hrow text (List.mem_of_getElem? h)]
  simp only [List.mem_cons, List.mem_flatten, List.mem_map]
  rintro (h | ⟨_, ⟨cell, hmem, rfl⟩, h⟩)
  · exact absurd h (by decide)
  · rcases List.mem_append.mp h with h | h
    · exact hcell cell hmem h
    · exact absurd h (by decide)

end

/-- The layout of a table, with its cells centred or to the left. -/
theorem table_layout (title : List Str) (rows : List (List Str)) (left : Bool)
    (hnewline : ∀ row ∈ title :: rows, ∀ cell ∈ row, '\n' ∉ cell) :
    (∀ row ∈ contents title rows, (fill (columns title rows) row).length = (widths title rows).length) ∧
    (widths title rows).length = columns title rows ∧
    IsGreatest {n | ∃ row ∈ title :: rows, row.length = n} (columns title rows) ∧
    (∀ j w, (widths title rows)[j]? = some w →
      ∃ n, w = n + 2 ∧ IsGreatest (columnLengths (contents title rows) j) n) ∧
    (markdownTableAligned title rows left).length = rows.length + 2 ∧
    List.Forall₂ (IsLine (widths title rows)) (contents title rows)
      (markdownTableAligned title rows left) ∧
    ∃ n, ∀ line ∈ markdownTableAligned title rows left,
      line.length = n ∧ ∃ body, line = body ++ ['\n'] ∧ '\n' ∉ body := by
  have hlines : List.Forall₂ (IsLine (widths title rows)) (contents title rows)
      (markdownTableAligned title rows left) := by
    have hrest : ∀ row ∈ separator title :: rows, row ∈ contents title rows :=
      fun row hrow => List.mem_cons_of_mem _ hrow
    refine .cons (tableLine_isLine left false 0 List.mem_cons_self) ?_
    rw [List.forall₂_map_right_iff, List.forall₂_same]
    exact fun row hrow => tableLine_isLine left true _ (hrest row hrow)
  have hclean : ∀ row ∈ contents title rows, ∀ cell ∈ row, '\n' ∉ cell := by
    intro row hrow
    rcases List.mem_cons.mp hrow with rfl | hrow
    · exact hnewline row List.mem_cons_self
    · rcases List.mem_cons.mp hrow with rfl | hrow
      · intro cell hcell
        rw [List.eq_of_mem_replicate hcell]
        decide
      · exact hnewline row (List.mem_cons_of_mem _ hrow)
  refine ⟨fun row => length_fill, length_widths title rows, isGreatest_columns title rows,
    fun j w => widths_isGreatest, ?_, hlines, ((widths title rows).map (· + 1)).sum + 2,
    fun line hline => ?_⟩
  · rw [← hlines.length_eq]
    rfl
  · obtain ⟨j, hj, rfl⟩ := List.getElem_of_mem hline
    have hisLine := hlines.get (hlines.length_eq ▸ hj) hj
    exact ⟨hisLine.length_eq, hisLine.newline (hclean _ (List.getElem_mem _))⟩

/-- A row longer than the title, with a cell that is not ASCII. -/
theorem table_layout_ragged :
    (markdownTableAligned ["TPS [↓1]".toList] [["é".toList, "1024".toList], []] false).length = 4 ∧
      ∃ n, ∀ line ∈ markdownTableAligned ["TPS [↓1]".toList] [["é".toList, "1024".toList], []] false,
        line.length = n := by
  obtain ⟨-, -, -, -, hlen, -, n, hn⟩ :=
    table_layout ["TPS [↓1]".toList] [["é".toList, "1024".toList], []] false (by decide)
  exact ⟨hlen, n, fun line hline => (hn line hline).1⟩

end Http3Bench.Benchreport
