import Http3Bench.Benchreport.Markdown
import Mathlib.Algebra.Order.Floor.Ring
import Mathlib.Data.Rat.Floor

/-!
# Shares of the best

The percentages `Markdown` adds to its rank columns, without the rounding of `float64`: what a row
reads against the greatest value of its column, and the column the cells make.
-/

namespace Http3Bench.Benchreport

open Text

/-! ### One value -/

/-- What a row reads in a column with the greatest value `greatest`, in percent. -/
def share (greatest value : ℚ) : ℤ :=
  if 0 < greatest then
    if value = greatest then 100
    else if 0 < value then min 99 ⌊100 * value / greatest + 1 / 10 ^ 9⌋
    else 0
  else 0

section

variable {greatest value : ℚ}

/-- `Percent`, whose best is at least zero. -/
theorem percent_exact (hle : value ≤ greatest) :
    percent exact value (max 0 greatest : ℚ) = itoa (share greatest value) ++ ['%'] := by
  have hofInt : exact.ofInt 0 = (0 : ℚ) := rfl
  unfold percent share
  by_cases hpos : 0 < greatest
  · rw [if_pos hpos, max_eq_right hpos.le]
    by_cases hv : 0 < value
    · have hguard : (exact.le greatest (exact.ofInt 0) || exact.le value (exact.ofInt 0)) = false := by
        rw [hofInt, Bool.or_eq_false_iff]
        exact ⟨decide_eq_false (not_le.mpr hpos), decide_eq_false (not_le.mpr hv)⟩
      rw [if_neg (by simp [hguard])]
      by_cases hmax : value = greatest
      · rw [if_pos ((exact_le _ _).mpr hmax.ge), if_pos hmax]
        rfl
      · have hlt : ¬ exact.le greatest value = true :=
          fun h => hmax (le_antisymm hle ((exact_le _ _).mp h))
        rw [if_neg hlt, if_neg hmax, if_pos hv, min_comm, mul_comm 100 value]
        rfl
    · have hguard : exact.le value (exact.ofInt 0) = true := (exact_le _ _).mpr (not_lt.mp hv)
      have hne : value ≠ greatest := fun h => hv (h ▸ hpos)
      rw [if_pos (by simp [hguard]), if_neg hne, if_neg hv]
      rfl
  · rw [if_neg hpos, max_eq_left (not_lt.mp hpos)]
    have hguard : exact.le (0 : ℚ) (exact.ofInt 0) = true := (exact_le _ _).mpr le_rfl
    rw [if_pos (by simp [hguard])]
    rfl

theorem share_of_lt (hpos : 0 < greatest) (hlt : value < greatest) (hv : 0 < value) :
    share greatest value = min 99 ⌊100 * value / greatest + 1 / 10 ^ 9⌋ := by
  rw [share, if_pos hpos, if_neg hlt.ne, if_pos hv]

theorem share_of_nonpos (hv : value ≤ 0) : share greatest value = 0 := by
  unfold share
  split
  · rename_i hpos
    rw [if_neg (hv.trans_lt hpos).ne, if_neg (not_lt.mpr hv)]
  · rfl

theorem share_nonneg (greatest value : ℚ) : 0 ≤ share greatest value := by
  unfold share
  split
  · split
    · omega
    · split
      · rename_i hpos _ hv
        refine le_min (by omega) (Int.floor_nonneg.mpr ?_)
        positivity
      · exact le_rfl
  · exact le_rfl

theorem share_le_of_ne (h : value ≠ greatest) : share greatest value ≤ 99 := by
  unfold share
  rw [if_neg h]
  split
  · split
    · exact min_le_left _ _
    · omega
  · omega

/-- A bigger value reads no less. -/
theorem share_mono {value' : ℚ} (hvv : value ≤ value') (hle : value' ≤ greatest) :
    share greatest value ≤ share greatest value' := by
  rcases le_or_gt value 0 with hv | hv
  · rw [share_of_nonpos hv]
    exact share_nonneg _ _
  · have hpos : 0 < greatest := hv.trans_le (hvv.trans hle)
    rcases eq_or_lt_of_le hle with heq | hlt
    · rw [heq, share.eq_def greatest greatest, if_pos hpos, if_pos rfl]
      by_cases h : value = greatest
      · rw [h, share, if_pos hpos, if_pos rfl]
      · exact (share_le_of_ne h).trans (by omega)
    · rw [share_of_lt hpos (hvv.trans_lt hlt) hv, share_of_lt hpos hlt (hv.trans_le hvv)]
      refine min_le_min_left 99 (Int.floor_mono ?_)
      gcongr

/-- A whole percent of the best reads as that percent. -/
theorem share_whole (hpos : 0 < greatest) {k : ℕ} (h1 : 1 ≤ k) (h99 : k ≤ 99) :
    share greatest (k * greatest / 100) = k := by
  have hk : (0 : ℚ) < k := by exact_mod_cast h1
  have hk' : (k : ℚ) ≤ 99 := by exact_mod_cast h99
  have hlt : k * greatest / 100 < greatest := by
    rw [div_lt_iff₀ (by norm_num)]
    nlinarith
  have hv : 0 < k * greatest / 100 := by positivity
  have hquot : 100 * (k * greatest / 100) / greatest = (k : ℚ) := by field_simp
  rw [share_of_lt hpos hlt hv, hquot]
  have hfloor : ⌊(k : ℚ) + 1 / 10 ^ 9⌋ = k := by
    rw [Int.floor_eq_iff]
    push_cast
    norm_num
  rw [hfloor]
  omega

/-- Only the best reads 100%. -/
theorem reads_hundred_iff (hpos : 0 < greatest) :
    itoa (share greatest value) ++ ['%'] = "100%".toList ↔ value = greatest := by
  constructor
  · intro h
    by_contra hne
    have h0 := share_nonneg greatest value
    have h99 := share_le_of_ne hne
    obtain ⟨n, hn⟩ := Int.eq_ofNat_of_zero_le h0
    rw [hn] at h h99
    have hsmall : ∀ n < 100, itoa (n : ℕ) ++ ['%'] ≠ "100%".toList := by decide
    exact hsmall n (by omega) h
  · intro h
    rw [share, if_pos hpos, if_pos h]
    rfl

end

/-! ### One column -/

def column (rows : List (List Str)) (col : ℕ) : List Str := rows.map (fun row => row.getD col [])

/-- The percentages of a column. -/
def percents (A : Floats) (values : List A.F) : List Str :=
  values.map (percent A · (values.foldl A.max (A.ofInt 0)))

/-- A column with its percentages. -/
def percented (A : Floats) (cells : List Str) (values : List A.F) : List Str :=
  List.zipWith (percentCell (maxBytes cells) (maxBytes (percents A values))) cells (percents A values)

theorem le_maxBytes {cell : Str} {cells : List Str} (h : cell ∈ cells) :
    (encode cell).length ≤ maxBytes cells := by
  have key : ∀ (l : List Str) (n : ℕ), n ≤ l.foldl (fun n cell => max n (encode cell).length) n ∧
      ∀ c ∈ l, (encode c).length ≤ l.foldl (fun n cell => max n (encode cell).length) n := by
    intro l
    induction l with
    | nil => exact fun n => ⟨le_rfl, fun c hc => (by cases hc)⟩
    | cons d l ih =>
      intro n
      obtain ⟨hle, hall⟩ := ih (max n (encode d).length)
      refine ⟨(le_max_left _ _).trans hle, fun c hc => ?_⟩
      rcases List.mem_cons.mp hc with rfl | hc
      · exact (le_max_right _ _).trans hle
      · exact hall c hc
  exact (key cells 0).2 cell h

theorem length_encode_spaces (n : ℕ) : (encode (spaces n)).length = n := by
  induction n with
  | zero => rfl
  | succ n ih =>
    rw [spaces, List.replicate_succ, encode_cons, List.length_append]
    change 1 + (encode (spaces n)).length = n + 1
    omega

section

variable {valueLen percentLen : ℕ} {cell share : Str}

theorem length_percentCell (hv : (encode cell).length ≤ valueLen)
    (hp : (encode share).length ≤ percentLen) :
    (encode (percentCell valueLen percentLen cell share)).length = valueLen + 1 + percentLen := by
  unfold percentCell
  simp only [encode_append, List.length_append, length_encode_spaces]
  have hspace : (encode [' ']).length = 1 := rfl
  omega

end

variable {A : Floats}

/-- `withPercent` changes one column. -/
theorem withPercent_column {rows : List (List Str)} {col : ℕ} {values : List A.F}
    (hlen : values.length = rows.length) (hcol : ∀ row ∈ rows, col < row.length) :
    ∃ rows', withPercent A rows col values = some rows' ∧
      rows'.map List.length = rows.map List.length ∧
      column rows' col = percented A (column rows col) values ∧
      ∀ j, j ≠ col → column rows' j = column rows j := by
  have hcells : rows.mapM (fun row => row[col]?) = some (column rows col) := by
    apply mapM_eq_some_map
    intro row hrow
    rw [List.getD_eq_getElem?_getD, List.getElem?_eq_getElem (hcol row hrow), Option.getD_some]
  have hwidth : ((column rows col).zip (percents A values)).length = rows.length := by
    simp [column, percents, hlen]
  have hfst := List.map_fst_zip hwidth.ge
  have hsnd := List.map_snd_zip hwidth.le
  have hmem : ∀ r ∈ rows.zip ((column rows col).zip (percents A values)), col < r.1.length :=
    fun r hr => hcol r.1 (List.of_mem_zip hr).1
  have hrows : withPercent A rows col values = some ((rows.zip ((column rows col).zip
      (percents A values))).map (fun r => r.1.set col (percentCell (maxBytes (column rows col))
        (maxBytes (percents A values)) r.2.1 r.2.2))) := by
    unfold withPercent
    rw [hcells]
    rfl
  rw [percented, ← List.map_uncurry_zip_eq_zipWith, hrows]
  generalize rows.zip ((column rows col).zip (percents A values)) = pairs at hfst hsnd hmem
  generalize maxBytes (column rows col) = valueLen
  generalize maxBytes (percents A values) = percentLen
  rw [← hsnd, ← hfst]
  refine ⟨_, rfl, ?_, ?_, fun j hj => ?_⟩
  · rw [List.map_map, List.map_map]
    exact List.map_congr_left (fun r _ => List.length_set)
  · rw [column, List.map_map, List.map_map]
    apply List.map_congr_left
    intro r hr
    have hlt := hmem r hr
    simp [List.getD_eq_getElem?_getD, hlt, Function.comp, Function.uncurry]
  · rw [column, column, List.map_map, List.map_map]
    apply List.map_congr_left
    intro r _
    simp [List.getD_eq_getElem?_getD, List.getElem?_set_ne hj.symm]

/-- Where a header stands in the titles. -/
theorem header_of_findIdx? {headers : List Str} {header : Str} {col : ℕ}
    (h : headers.findIdx? (· == header) = some col) : headers[col]? = some header := by
  obtain ⟨hlt, heq⟩ := List.findIdx?_eq_some_iff_findIdx_eq.mp h
  have hp := @List.findIdx_getElem _ (· == header) headers (heq ▸ hlt)
  rw [List.getElem?_eq_getElem hlt]
  simp only [heq, beq_iff_eq] at hp
  rw [hp]

theorem addPercent_column (headers : List Str) {keys : List (List A.F)} {rows : List (List Str)}
    {rank : RankField × ℕ} (hrow : ∀ row ∈ rows, headers.length ≤ row.length)
    (hlen : keys.length = rows.length) (hkey : ∀ key ∈ keys, rank.2 < key.length) :
    ∃ rows', addPercent A headers keys rows rank = some rows' ∧
      rows'.map List.length = rows.map List.length ∧
      ∀ col, column rows' col = if headers.findIdx? (· == rank.1.header) = some col
        then percented A (column rows col) (keys.map (·.getD rank.2 (A.ofInt 0)))
        else column rows col := by
  unfold addPercent
  cases hcol : headers.findIdx? (· == rank.1.header) with
  | none => exact ⟨rows, rfl, rfl, fun col => (if_neg nofun).symm⟩
  | some col =>
    have hlt : col < headers.length := (List.findIdx?_eq_some_iff_findIdx_eq.mp hcol).1
    have hvalues : keys.mapM (fun k => k[rank.2]?) =
        some (keys.map (·.getD rank.2 (A.ofInt 0))) := by
      apply mapM_eq_some_map
      intro key hk
      rw [List.getD_eq_getElem?_getD, List.getElem?_eq_getElem (hkey key hk), Option.getD_some]
    obtain ⟨rows', hrows, hlens, hthis, hrest⟩ := @withPercent_column A rows col
      (keys.map (·.getD rank.2 (A.ofInt 0))) (by simp [hlen])
      (fun row hr => lt_of_lt_of_le hlt (hrow row hr))
    refine ⟨rows', ?_, hlens, fun j => ?_⟩
    · simp only [hvalues, Option.bind_eq_bind, Option.bind_some, hrows]
    · by_cases hj : j = col
      · rw [hj, if_pos rfl, hthis]
      · rw [if_neg (fun h => hj (Option.some.inj h).symm), hrest j hj]

/-- Every rank column has its percentages after the loop, and no other column is changed. -/
theorem addPercents_columns (headers : List Str) {keys : List (List A.F)}
    {ranks : List (RankField × ℕ)} {rows : List (List Str)}
    (hrow : ∀ row ∈ rows, headers.length ≤ row.length) (hlen : keys.length = rows.length)
    (hkey : ∀ rank ∈ ranks, ∀ key ∈ keys, rank.2 < key.length)
    (hdistinct : ranks.Pairwise (fun a b => a.1.header ≠ b.1.header)) :
    ∃ rows', ranks.foldlM (addPercent A headers keys) rows = some rows' ∧
      rows'.map List.length = rows.map List.length ∧
      (∀ rank ∈ ranks, ∀ col, headers.findIdx? (· == rank.1.header) = some col →
        column rows' col = percented A (column rows col) (keys.map (·.getD rank.2 (A.ofInt 0)))) ∧
      ∀ col, (∀ rank ∈ ranks, headers.findIdx? (· == rank.1.header) ≠ some col) →
        column rows' col = column rows col := by
  induction ranks generalizing rows with
  | nil => exact ⟨rows, rfl, rfl, fun rank hr => (by cases hr), fun _ _ => rfl⟩
  | cons rank ranks ih =>
    obtain ⟨hhead, hdistinct⟩ := List.pairwise_cons.mp hdistinct
    obtain ⟨rows₁, h₁, hlens₁, hcol₁⟩ := addPercent_column headers hrow hlen
      (hkey rank List.mem_cons_self)
    have hsame : rows₁.length = rows.length := by simpa using congrArg List.length hlens₁
    have hrow₁ : ∀ row ∈ rows₁, headers.length ≤ row.length := by
      intro row hr
      have hm : row.length ∈ rows.map List.length := hlens₁ ▸ List.mem_map_of_mem hr
      obtain ⟨row₀, hr₀, hl⟩ := List.mem_map.mp hm
      exact hl ▸ hrow row₀ hr₀
    obtain ⟨rows₂, h₂, hlens₂, hcol₂, hrest₂⟩ := ih hrow₁ (hlen.trans hsame.symm)
      (fun r hr => hkey r (List.mem_cons_of_mem _ hr)) hdistinct
    refine ⟨rows₂, ?_, hlens₂.trans hlens₁, fun r hr col hcol => ?_, fun col hno => ?_⟩
    · rw [List.foldlM_cons, h₁]
      exact h₂
    · rcases List.mem_cons.mp hr with rfl | hr
      · rw [hrest₂ col (fun r' hr' h' => ?_), hcol₁, if_pos hcol]
        have heq := (header_of_findIdx? hcol).symm.trans (header_of_findIdx? h')
        exact hhead r' hr' (Option.some.inj heq)
      · rw [hcol₂ r hr col hcol, hcol₁, if_neg (fun h' => ?_)]
        have heq := (header_of_findIdx? h').symm.trans (header_of_findIdx? hcol)
        exact hhead r hr (Option.some.inj heq)
    · rw [hrest₂ col (fun r hr => hno r (List.mem_cons_of_mem _ hr)), hcol₁,
        if_neg (hno rank List.mem_cons_self)]

/-! ### The table -/

/-- The rows of a table, their percentages added. -/
def percentRows (A : Floats) (perf : Perf) (headers : MarkdownHeaders) (typ : ReportType)
    (reports : List (Report A.F)) (enableTPN : Bool) : Option (List (List Str)) := do
  let rows ← reports.mapM (objFieldValues A perf · enableTPN)
  (rankFields typ).zipIdx.foldlM (addPercent A (headers typ) (reports.map (rankKeys A))) rows

def tableTitle (headers : MarkdownHeaders) (typ : ReportType) (filter : Str → Bool) : List Str :=
  (rankFields typ).foldl markRank (filtHeaders (headers typ) filter)

/-- `Markdown` in two steps. -/
theorem markdown_eq {perf : Perf} {typ : ReportType} {reports : List (Report A.F)} (hne : reports ≠ [])
    (htyp : ∀ r ∈ reports, r.type = typ) (headers : MarkdownHeaders) (enableTPN : Bool) (order : Order)
    (filter : Option (Str → Bool)) :
    markdown A perf headers reports enableTPN order filter =
      (percentRows A perf headers typ (sortReports A reports order) enableTPN).map (fun rows =>
        markdownTable (tableTitle headers typ (filter.getD (fun _ => true)))
          (rows.map (filtFieldsByHeaders · (filter.getD (fun _ => true))))) := by
  have hp := sortReports_perm reports order
  obtain ⟨r, rs, hs⟩ := List.exists_cons_of_ne_nil
    (fun h => hne (hp.symm.trans (List.Perm.of_eq h)).eq_nil : sortReports A reports order ≠ [])
  have hr : r.type = typ := htyp r (hp.subset (hs ▸ List.mem_cons_self))
  unfold markdown percentRows
  simp only [hs, hr, Option.bind_eq_bind, Option.pure_def, Option.map_eq_bind, Option.bind_assoc,
    Function.comp_def]
  rfl

theorem markdown_unfiltered {perf : Perf} {typ : ReportType} {reports : List (Report A.F)}
    {headers : MarkdownHeaders} {enableTPN : Bool} {order : Order} {rows : List (List Str)}
    (hne : reports ≠ []) (htyp : ∀ r ∈ reports, r.type = typ)
    (hrows : percentRows A perf headers typ (sortReports A reports order) enableTPN = some rows) :
    markdown A perf headers reports enableTPN order none =
      some (markdownTable (tableTitle headers typ (fun _ => true)) rows) := by
  rw [markdown_eq hne htyp, hrows]
  simp [filtFieldsByHeaders]

theorem getElem?_rankKeys {typ : ReportType} {r : Report A.F} (hr : r.type = typ) {k : ℕ}
    (hk : k < (rankFields typ).length) :
    (rankKeys A r)[k]? = some ((rankKeys A r).getD k (A.ofInt 0)) := by
  have hlt : k < (rankKeys A r).length := by
    rw [length_rankKeys, hr]
    exact hk
  rw [List.getD_eq_getElem?_getD, List.getElem?_eq_getElem hlt, Option.getD_some]

theorem getElem?_objFieldValues {perf : Perf} {typ : ReportType} {r : Report A.F} (hr : r.type = typ)
    {enableTPN : Bool} {col : ℕ} (hcol : col < (init enableTPN typ).length) :
    (objFieldValues A perf r enableTPN).bind (·[col]?) =
      some (((objFieldValues A perf r enableTPN).getD []).getD col []) := by
  obtain ⟨cells, hcells, hlen⟩ := exists_objFieldValues A perf r enableTPN
  have hlt : col < cells.length := by
    rw [hlen, hr]
    exact hcol
  rw [hcells, Option.bind_some, Option.getD_some, List.getD_eq_getElem?_getD,
    List.getElem?_eq_getElem hlt, Option.getD_some]

/-- The rank columns of a table are some of its columns, no two of them the same one. -/
theorem rank_columns (typ : ReportType) (enableTPN : Bool) :
    (∀ f ∈ rankFields typ, ∃ col, (init enableTPN typ).findIdx? (· == f.header) = some col) ∧
      (rankFields typ).zipIdx.Pairwise (fun a b => a.1.header ≠ b.1.header) := by
  have hcols : ∀ f ∈ rankFields typ, ((init enableTPN typ).findIdx? (· == f.header)).isSome := by
    cases typ <;> cases enableTPN <;> decide
  refine ⟨fun f hf => Option.isSome_iff_exists.mp (hcols f hf), ?_⟩
  cases typ <;> decide

theorem percentRows_columns (perf : Perf) (enableTPN : Bool) {typ : ReportType}
    {reports : List (Report A.F)} (htyp : ∀ r ∈ reports, r.type = typ) :
    ∃ rows, percentRows A perf (init enableTPN) typ reports enableTPN = some rows ∧
      rows.map List.length = reports.map (fun _ => (init enableTPN typ).length) ∧
      (∀ k f, (rankFields typ)[k]? = some f → ∀ col,
        (init enableTPN typ).findIdx? (· == f.header) = some col →
        column rows col = percented A
          (reports.map (fun r => ((objFieldValues A perf r enableTPN).getD []).getD col []))
          (reports.map (fun r => (rankKeys A r).getD k (A.ofInt 0)))) ∧
      ∀ col, (∀ f ∈ rankFields typ, (init enableTPN typ).findIdx? (· == f.header) ≠ some col) →
        column rows col =
          reports.map (fun r => ((objFieldValues A perf r enableTPN).getD []).getD col []) := by
  let row : Report A.F → List Str := fun r => (objFieldValues A perf r enableTPN).getD []
  have hrow : ∀ r ∈ reports, (row r).length = (init enableTPN typ).length := by
    intro r hr
    obtain ⟨cells, hcells, hlen⟩ := exists_objFieldValues A perf r enableTPN
    simp only [row, hcells, Option.getD_some, hlen, htyp r hr]
  have hrows : reports.mapM (objFieldValues A perf · enableTPN) = some (reports.map row) := by
    apply mapM_eq_some_map
    intro r _
    obtain ⟨cells, hcells, -⟩ := exists_objFieldValues A perf r enableTPN
    simp only [row, hcells, Option.getD_some]
  obtain ⟨rows, hadd, hlens, hranked, hother⟩ := @addPercents_columns A (init enableTPN typ)
    (reports.map (rankKeys A)) (rankFields typ).zipIdx (reports.map row)
    (by simpa using fun r hr => (hrow r hr).ge) (by simp)
    (fun rank hrank key hkey => by
      obtain ⟨r, hr, rfl⟩ := List.mem_map.mp hkey
      rw [length_rankKeys, htyp r hr]
      exact List.snd_lt_of_mem_zipIdx hrank)
    (rank_columns typ enableTPN).2
  have hcolumn : ∀ col, column (reports.map row) col = reports.map (fun r => (row r).getD col []) :=
    fun col => List.map_map
  refine ⟨rows, ?_, hlens.trans ?_, fun k f hf col hcol => ?_, fun col hno => ?_⟩
  · unfold percentRows
    rw [hrows]
    exact hadd
  · rw [List.map_map]
    exact List.map_congr_left hrow
  · have hmem : (f, k) ∈ (rankFields typ).zipIdx := List.mk_mem_zipIdx_iff_getElem?.mpr hf
    rw [hranked (f, k) hmem col hcol, hcolumn, List.map_map]
    rfl
  · rw [hother col (fun rank hrank => hno rank.1 (List.fst_mem_of_mem_zipIdx hrank)), hcolumn]

/-- A cell of a rank column: its value and its percentage, with spaces before each of them. -/
structure ReadsPercent (width : ℕ) (cell value : Str) (percent : ℤ) : Prop where
  length_eq : (encode cell).length = width
  eq_append : ∃ a b, cell = spaces a ++ value ++ ' ' :: spaces b ++ (itoa percent ++ ['%'])

/-- The greatest of the values of a column. -/
theorem exists_isGreatest {ι : Type} {l : List ι} (hne : l ≠ []) (value : ι → ℚ) :
    ∃ greatest, IsGreatest {v | ∃ r ∈ l, value r = v} greatest ∧
      (l.map value).foldl max 0 = max 0 greatest := by
  have hmap : l.map value ≠ [] := by simpa using hne
  refine ⟨(l.map value).max hmap, ⟨?_, ?_⟩, List.foldl_max_eq_max hmap⟩
  · exact List.mem_map.mp (List.max_mem hmap)
  · rintro v ⟨r, hr, rfl⟩
    exact List.le_max_of_mem (List.mem_map_of_mem hr)

variable {perf : Perf} {typ : ReportType} {reports : List (Report ℚ)}

theorem reads_percentCell {cells percents : List Str} {cell : Str} {percent : ℤ} (hcell : cell ∈ cells)
    (hpercent : itoa percent ++ ['%'] ∈ percents) :
    ReadsPercent (maxBytes cells + 1 + maxBytes percents)
      (percentCell (maxBytes cells) (maxBytes percents) cell (itoa percent ++ ['%'])) cell percent where
  length_eq := length_percentCell (le_maxBytes hcell) (le_maxBytes hpercent)
  eq_append := ⟨_, _, by
    unfold percentCell
    rw [List.append_assoc (_ ++ cell), List.singleton_append]⟩

/-- What a row reads in a rank column. -/
theorem percented_reads {ι : Type} {l : List ι} {value : ι → ℚ} {cell : ι → Str} {greatest : ℚ}
    (hgreatest : IsGreatest {v | ∃ r ∈ l, value r = v} greatest)
    (hbest : (l.map value).foldl max 0 = max 0 greatest) {i : ℕ} {r : ι} (hr : l[i]? = some r) :
    ∃ c, (percented exact (l.map cell) (l.map value))[i]? = some c ∧
      ReadsPercent (maxBytes (l.map cell) + 1 + maxBytes (percents exact (l.map value))) c (cell r)
        (share greatest (value r)) := by
  have hmem : r ∈ l := List.mem_of_getElem? hr
  have hpercents : percents exact (l.map value) =
      l.map (fun r => itoa (share greatest (value r)) ++ ['%']) := by
    refine Eq.trans List.map_map (List.map_congr_left (fun r hr => ?_))
    have hle : value r ≤ greatest := hgreatest.2 ⟨r, hr, rfl⟩
    rw [← percent_exact hle, ← hbest]
    rfl
  unfold percented
  rw [hpercents]
  refine ⟨_, ?_, reads_percentCell (List.mem_map_of_mem hmem) (List.mem_map_of_mem hmem)⟩
  simp [hr]

/-- What the cells of a rank column read, row by row. -/
theorem percentRows_reads {rows : List (List Str)} {enableTPN : Bool} {k : ℕ} {f : RankField}
    (hne : reports ≠ []) (htyp : ∀ r ∈ reports, r.type = typ)
    (hrows : percentRows exact perf (init enableTPN) typ reports enableTPN = some rows)
    (hf : (rankFields typ)[k]? = some f) :
    ∃ (col width : ℕ) (greatest : ℚ), (init enableTPN typ)[col]? = some f.header ∧
      IsGreatest {v : ℚ | ∃ r ∈ reports, (rankKeys exact r)[k]? = some v} greatest ∧
      ∀ (i : ℕ) r, reports[i]? = some r → ∃ (row : List Str) (cell value : Str) (v : ℚ),
        rows[i]? = some row ∧ row[col]? = some cell ∧
        (objFieldValues exact perf r enableTPN).bind (·[col]?) = some value ∧
        (rankKeys exact r)[k]? = some v ∧ ReadsPercent width cell value (share greatest v) := by
  obtain ⟨col, hcol⟩ := (rank_columns typ enableTPN).1 f (List.mem_of_getElem? hf)
  have hheader := header_of_findIdx? hcol
  have hlt : col < (init enableTPN typ).length := (List.getElem?_eq_some_iff.mp hheader).1
  have hk : k < (rankFields typ).length := (List.getElem?_eq_some_iff.mp hf).1
  obtain ⟨rows', hrows', hlens, hranked, -⟩ := @percentRows_columns exact perf enableTPN typ reports htyp
  obtain rfl := Option.some.inj (hrows'.symm.trans hrows)
  let value : Report ℚ → ℚ := fun r => (rankKeys exact r).getD k (0 : ℚ)
  let cell : Report ℚ → Str := fun r => ((objFieldValues exact perf r enableTPN).getD []).getD col []
  have hcolumn : column rows' col = percented exact (reports.map cell) (reports.map value) :=
    hranked k f hf col hcol
  have hvalue : ∀ r ∈ reports, (rankKeys exact r)[k]? = some (value r) :=
    fun r hr => getElem?_rankKeys (htyp r hr) hk
  have hcell : ∀ r ∈ reports, (objFieldValues exact perf r enableTPN).bind (·[col]?) = some (cell r) :=
    fun r hr => getElem?_objFieldValues (htyp r hr) hlt
  obtain ⟨greatest, hgreatest, hbest⟩ := exists_isGreatest hne value
  refine ⟨col, maxBytes (reports.map cell) + 1 + maxBytes (percents exact (reports.map value)), greatest,
    hheader, ?_, fun i r hr => ?_⟩
  · have hset : {v : ℚ | ∃ r ∈ reports, (rankKeys exact r)[k]? = some v} =
        {v | ∃ r ∈ reports, value r = v} := by
      ext v
      refine exists_congr (fun r => and_congr_right (fun hr => ?_))
      exact ⟨fun h => Option.some.inj ((hvalue r hr).symm.trans h), fun h => h ▸ hvalue r hr⟩
    rw [hset]
    exact hgreatest
  · obtain ⟨c, hc, hreads⟩ := @percented_reads _ _ _ cell _ hgreatest hbest _ _ hr
    have hmem := List.mem_of_getElem? hr
    rw [← hcolumn, column, List.getElem?_map] at hc
    obtain ⟨row, hrow, hget⟩ := Option.map_eq_some_iff.mp hc
    have hwidth : col < row.length := by
      have hm : row.length ∈ rows'.map List.length := List.mem_map_of_mem (List.mem_of_getElem? hrow)
      rw [hlens] at hm
      obtain ⟨_, -, heq⟩ := List.mem_map.mp hm
      exact heq ▸ hlt
    refine ⟨row, c, cell r, value r, hrow, ?_, hcell r hmem, hvalue r hmem, hreads⟩
    rw [← hget, List.getD_eq_getElem?_getD, List.getElem?_eq_getElem hwidth, Option.getD_some]

/-- The rank columns of a table, in either order of its rows. -/
theorem percent_columns (perf : Perf) (enableTPN : Bool) (typ : ReportType) (reports : List (Report ℚ))
    (hne : reports ≠ []) (htyp : ∀ r ∈ reports, r.type = typ) (order : Order) :
    (∃ rows : List (List Str),
      markdown exact perf (init enableTPN) reports enableTPN order none =
        some (markdownTable (tableTitle (init enableTPN) typ (fun _ => true)) rows) ∧
      rows.length = reports.length ∧
      ∀ (k : ℕ) f, (rankFields typ)[k]? = some f →
        ∃ (col width : ℕ) (greatest : ℚ), (init enableTPN typ)[col]? = some f.header ∧
          IsGreatest {v : ℚ | ∃ r ∈ reports, (rankKeys exact r)[k]? = some v} greatest ∧
          ∀ (i : ℕ) r, (sortReports exact reports order)[i]? = some r →
            ∃ (row : List Str) (cell value : Str) (v : ℚ), rows[i]? = some row ∧
              row[col]? = some cell ∧
              (objFieldValues exact perf r enableTPN).bind (·[col]?) = some value ∧
              (rankKeys exact r)[k]? = some v ∧ ReadsPercent width cell value (share greatest v)) ∧
    (∀ greatest v : ℚ, 0 < greatest →
      (itoa (share greatest v) ++ ['%'] = "100%".toList ↔ v = greatest)) ∧
    (∀ greatest v v' : ℚ, v ≤ v' → v' ≤ greatest → share greatest v ≤ share greatest v') ∧
    ∀ (greatest : ℚ) (k : ℕ), 0 < greatest → 1 ≤ k → k ≤ 99 →
      share greatest (k * greatest / 100) = k := by
  refine ⟨?_, fun _ _ => reads_hundred_iff, fun _ _ _ => share_mono,
    fun _ _ hpos h1 h99 => share_whole hpos h1 h99⟩
  have hp := @sortReports_perm exact reports order
  have hne' : sortReports exact reports order ≠ [] :=
    fun h => hne (hp.symm.trans (List.Perm.of_eq h)).eq_nil
  have htyp' : ∀ r ∈ sortReports exact reports order, r.type = typ := fun r hr => htyp r (hp.subset hr)
  obtain ⟨rows, hrows, hlens, -⟩ := @percentRows_columns exact perf enableTPN typ _ htyp'
  refine ⟨rows, ?_, ?_, fun k f hf => ?_⟩
  · exact markdown_unfiltered hne htyp hrows
  · have hlen := congrArg List.length hlens
    rw [List.length_map, List.length_map] at hlen
    exact hlen.trans hp.length_eq
  · obtain ⟨col, width, greatest, hheader, hgreatest, hreads⟩ := percentRows_reads hne' htyp' hrows hf
    refine ⟨col, width, greatest, hheader, ?_, hreads⟩
    have hset : {v : ℚ | ∃ r ∈ sortReports exact reports order, (rankKeys exact r)[k]? = some v} =
        {v : ℚ | ∃ r ∈ reports, (rankKeys exact r)[k]? = some v} := by
      ext v
      exact exists_congr (fun r => and_congr_left (fun _ => hp.mem_iff))
    rw [← hset]
    exact hgreatest

/-- Two rows with one rate, which both read 100% of it; a tenth of the CPU EER reads 10%. -/
theorem percent_columns_tied :
    (∃ rows : List (List Str),
      markdown exact statsPerf (init true) tiedReports true .result none =
        some (markdownTable (tableTitle (init true) .benchEcho (fun _ => true)) rows) ∧
      rows.length = 2) ∧ share 300 300 = 100 ∧ share 50 5 = 10 := by
  obtain ⟨⟨rows, htable, hlen, -⟩, -⟩ := percent_columns statsPerf true .benchEcho tiedReports
    (List.cons_ne_nil _ _) (List.forall_mem_cons.mpr ⟨rfl, List.forall_mem_singleton.mpr rfl⟩) .result
  exact ⟨⟨rows, htable, hlen⟩, by decide +kernel, by decide +kernel⟩

end Http3Bench.Benchreport
