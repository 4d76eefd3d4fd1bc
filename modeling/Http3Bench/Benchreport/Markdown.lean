import Http3Bench.Benchreport.Fields

/-!
# Writing a report table

`benchreport/report/reporter.go` from the reports of one benchmark to the lines of their table: the
order of the rows, the ranked columns with their shares of the best, the titles and their markers.
Row by row, each step reads the other rows only through a maximum, so that the order of the reports
decides the order of the lines and nothing else.
-/

namespace Http3Bench.Benchreport

open Text

/-- The orders a report table can be written in. -/
inductive Order
  | result
  | framework
  deriving DecidableEq

structure RankField where
  rank : ℕ
  index : ℕ
  header : Str
  deriving DecidableEq

/-- The fields tagged with a rank, in rank order. -/
def rankFields (typ : ReportType) : List RankField :=
  (typ.fields.zipIdx.filterMap (fun f => f.1.rank.map (fun rank => ⟨rank, f.2, f.1.md⟩))).insertionSort
    (fun a b => a.rank ≤ b.rank)

variable (A : Floats) (perf : Perf)

def rankKey : Value A.F → Option A.F
  | .int i => some (A.ofInt i)
  | .uint n => some (A.ofInt n)
  | .float x => some x
  | _ => none

/-- What `SortResult` ranks a report by, most significant first. -/
def rankKeys (r : Report A.F) : List A.F :=
  (rankFields r.type).filterMap (fun f => r.values[f.index]?.bind (rankKey A))

def rankedBefore : List A.F → List A.F → Bool
  | x :: a, y :: b => if A.eq x y then rankedBefore a b else A.lt y x
  | _, _ => false

/-- How a row's result reads against the best in its table. -/
def percent (value best : A.F) : Str :=
  if A.le best (A.ofInt 0) || A.le value (A.ofInt 0) then "0%".toList
  else if A.le best value then "100%".toList
  else itoa (min (A.floor (A.add (A.div (A.mul value (A.ofInt 100)) best) A.percentSlack)) 99) ++ ['%']

/-- A cell and its percentage, each right-aligned. Go's `len` counts bytes. -/
def percentCell (valueLen percentLen : ℕ) (cell percent : Str) : Str :=
  spaces (valueLen - (encode cell).length) ++ cell ++ [' '] ++
    spaces (percentLen - (encode percent).length) ++ percent

def maxBytes (cells : List Str) : ℕ := cells.foldl (fun n cell => max n (encode cell).length) 0

/-- Appends each row's percentage of the best to its cell in column `col`. -/
def withPercent (rows : List (List Str)) (col : ℕ) (values : List A.F) : Option (List (List Str)) := do
  let best := values.foldl A.max (A.ofInt 0)
  let percents := values.map (percent A · best)
  let cells ← rows.mapM (fun row => row[col]?)
  return (rows.zip (cells.zip percents)).map (fun r =>
    r.1.set col (percentCell (maxBytes cells) (maxBytes percents) r.2.1 r.2.2))

/-- A stable sort; `SortFramework` is the order the reports are read in. -/
def sortReports (reports : List (Report A.F)) (order : Order) : List (Report A.F) :=
  match order with
  | .result => reports.insertionSort (fun a b => ¬ rankedBefore A (rankKeys A b) (rankKeys A a))
  | .framework => reports

/-- The rank column of `Markdown`'s loop, with its position among the ranks: its percentages are
added where it is a column of the table. -/
def addPercent (headers : List Str) (keys : List (List A.F)) (rows : List (List Str))
    (rank : RankField × ℕ) : Option (List (List Str)) :=
  match headers.findIdx? (· == rank.1.header) with
  | some col => do
    let values ← keys.mapM (fun k => k[rank.2]?)
    withPercent A rows col values
  | none => some rows

def rankMarker (rank : ℕ) : Str := " [↓".toList ++ itoa rank ++ "]".toList

def markRank (title : List Str) (rank : RankField) : List Str :=
  match title.findIdx? (· == rank.header) with
  | some col => title.modify col (· ++ rankMarker rank.rank)
  | none => title

def filtHeaders (headers : List Str) (filter : Str → Bool) : List Str := headers.filter filter

def filtFieldsByHeaders (values : List Str) (filter : Str → Bool) : List Str := values.filter filter

/-- The lines of a table. `headers` holds what `Init` left in the header variables. -/
def markdown (headers : MarkdownHeaders) (reports : List (Report A.F)) (enableTPN : Bool)
    (order : Order) (filter : Option (Str → Bool)) : Option (List Str) :=
  let filter := filter.getD (fun _ => true)
  match sortReports A reports order with
  | [] => some []
  | r :: reports => do
    let rows ← (r :: reports).mapM (objFieldValues A perf · enableTPN)
    let keys := (r :: reports).map (rankKeys A)
    let rows ← (rankFields r.type).zipIdx.foldlM (addPercent A (headers r.type) keys) rows
    let title := (rankFields r.type).foldl markRank (filtHeaders (headers r.type) filter)
    return markdownTable title (rows.map (filtFieldsByHeaders · filter))

/-! ### Row by row -/

theorem mapM_eq_some_map {α β : Type} {f : α → Option β} {g : α → β} {l : List α}
    (h : ∀ a ∈ l, f a = some (g a)) : l.mapM f = some (l.map g) := by
  induction l with
  | nil => rfl
  | cons a l ih =>
    rw [List.mapM_cons, h a (List.mem_cons_self ..), ih (fun b hb => h b (List.mem_cons_of_mem _ hb))]
    rfl

theorem maxBytes_perm {cells cells' : List Str} (h : cells'.Perm cells) :
    maxBytes cells' = maxBytes cells := by
  apply h.foldl_eq'
  intro c _ d _ n
  exact max_right_comm n (encode c).length (encode d).length

theorem best_perm {values values' : List A.F} (h : values'.Perm values) (x : A.F) :
    values'.foldl A.max x = values.foldl A.max x := by
  apply h.foldl_eq'
  intro v _ w _ y
  exact A.max_right_comm y v w

variable {A} {perf} {ι : Type}

/-- A column's percentages, whatever the order of the rows: each row is changed on its own. -/
theorem withPercent_rowWise (row : ι → List Str) (value : ι → A.F) {col : ℕ} {reports : List ι}
    (hcol : ∀ r ∈ reports, col < (row r).length) :
    ∃ row' : ι → List Str, (∀ r, (row' r).length = (row r).length) ∧
      ∀ reports' : List ι, reports'.Perm reports →
        withPercent A (reports'.map row) col (reports'.map value) = some (reports'.map row') := by
  let cell : ι → Str := fun r => (row r).getD col []
  let share : ι → Str := fun r => percent A (value r) ((reports.map value).foldl A.max (A.ofInt 0))
  refine ⟨fun r => (row r).set col (percentCell (maxBytes (reports.map cell))
    (maxBytes (reports.map share)) (cell r) (share r)), fun r => List.length_set .., ?_⟩
  intro reports' hp
  have hcells : (reports'.map row).mapM (fun row => row[col]?) = some (reports'.map cell) := by
    rw [List.mapM_map]
    apply mapM_eq_some_map
    intro r hr
    have hlt := hcol r (hp.subset hr)
    simp only [Function.comp, cell, List.getD_eq_getElem?_getD, List.getElem?_eq_getElem hlt,
      Option.getD_some]
  have hshares : (reports'.map value).map
      (percent A · ((reports'.map value).foldl A.max (A.ofInt 0))) = reports'.map share := by
    rw [best_perm A (hp.map value), List.map_map]
    rfl
  unfold withPercent
  simp only [hcells, hshares, maxBytes_perm (hp.map cell), maxBytes_perm (hp.map share),
    List.zip_map', List.map_map, Option.bind_eq_bind, Option.bind_some, Function.comp_def]
  rfl

theorem addPercent_rowWise (headers : List Str) (rank : RankField × ℕ)
    (row : Report A.F → List Str) {reports : List (Report A.F)}
    (hrow : ∀ r ∈ reports, headers.length ≤ (row r).length)
    (hkey : ∀ r ∈ reports, rank.2 < (rankKeys A r).length) :
    ∃ row' : Report A.F → List Str, (∀ r, (row' r).length = (row r).length) ∧
      ∀ reports' : List (Report A.F), reports'.Perm reports →
        addPercent A headers (reports'.map (rankKeys A)) (reports'.map row) rank =
          some (reports'.map row') := by
  unfold addPercent
  cases hcol : headers.findIdx? (· == rank.1.header) with
  | none => exact ⟨row, fun _ => rfl, fun _ _ => rfl⟩
  | some col =>
    have hlt : col < headers.length := (List.findIdx?_eq_some_iff_findIdx_eq.mp hcol).1
    obtain ⟨row', hlen, hrow'⟩ := withPercent_rowWise row
      (fun r => (rankKeys A r).getD rank.2 (A.ofInt 0))
      (fun r hr => lt_of_lt_of_le hlt (hrow r hr))
    refine ⟨row', hlen, fun reports' hp => ?_⟩
    have hvalues : (reports'.map (rankKeys A)).mapM (fun k => k[rank.2]?) =
        some (reports'.map (fun r => (rankKeys A r).getD rank.2 (A.ofInt 0))) := by
      rw [List.mapM_map]
      apply mapM_eq_some_map
      intro r hr
      have hk := hkey r (hp.subset hr)
      simp only [Function.comp, List.getD_eq_getElem?_getD, List.getElem?_eq_getElem hk,
        Option.getD_some]
    simp only [hvalues, Option.bind_eq_bind, Option.bind_some, hrow' reports' hp]

theorem addPercents_rowWise (headers : List Str) (ranks : List (RankField × ℕ))
    (row : Report A.F → List Str) {reports : List (Report A.F)}
    (hrow : ∀ r ∈ reports, headers.length ≤ (row r).length)
    (hkey : ∀ rank ∈ ranks, ∀ r ∈ reports, rank.2 < (rankKeys A r).length) :
    ∃ row' : Report A.F → List Str,
      ∀ reports' : List (Report A.F), reports'.Perm reports → ranks.foldlM (addPercent A headers (reports'.map (rankKeys A))) (reports'.map row) =
        some (reports'.map row') := by
  induction ranks generalizing row with
  | nil => exact ⟨row, fun _ _ => rfl⟩
  | cons rank ranks ih =>
    obtain ⟨row₁, hlen, h₁⟩ := addPercent_rowWise headers rank row hrow
      (hkey rank (List.mem_cons_self ..))
    obtain ⟨row₂, h₂⟩ := ih row₁ (fun r hr => hlen r ▸ hrow r hr)
      (fun k hk => hkey k (List.mem_cons_of_mem _ hk))
    refine ⟨row₂, fun reports' hp => ?_⟩
    rw [List.foldlM_cons, h₁ reports' hp]
    exact h₂ reports' hp

theorem sortReports_perm (reports : List (Report A.F)) (order : Order) :
    (sortReports A reports order).Perm reports := by
  cases order with
  | result => exact List.perm_insertionSort _ _
  | framework => exact List.Perm.refl _

theorem length_rankKeys (r : Report A.F) : (rankKeys A r).length = (rankFields r.type).length := by
  cases r <;> rfl

theorem init_length_le (enableTPN : Bool) (r : Report A.F) :
    (init enableTPN r.type).length ≤ ((objFieldValues A perf r enableTPN).getD []).length := by
  obtain ⟨row, hrow, hlen⟩ := exists_objFieldValues A perf r enableTPN
  rw [hrow, Option.getD_some, hlen]

/-- A table of reports of one type is the same two lines on top, whatever the order of the reports,
and a line for each of them. -/
theorem exists_markdown (enableTPN : Bool) {typ : ReportType} {reports : List (Report A.F)}
    (hne : reports ≠ []) (htyp : ∀ r ∈ reports, r.type = typ) :
    ∃ (title separator : Str) (line : Report A.F → Str), ∀ order : Order,
      markdown A perf (init enableTPN) reports enableTPN order none =
        some (title :: separator :: (sortReports A reports order).map line) := by
  let row : Report A.F → List Str := fun r => (objFieldValues A perf r enableTPN).getD []
  obtain ⟨row', hrow'⟩ := addPercents_rowWise (init enableTPN typ) (rankFields typ).zipIdx row
    (fun r hr => htyp r hr ▸ init_length_le enableTPN r)
    (fun rank hrank r hr => by
      rw [length_rankKeys, htyp r hr]
      exact List.snd_lt_of_mem_zipIdx hrank)
  obtain ⟨title, separator, line, htable⟩ := markdownTable_perm
    ((rankFields typ).foldl markRank (filtHeaders (init enableTPN typ) (fun _ => true)))
    (reports.map (fun r => filtFieldsByHeaders (row' r) (fun _ => true)))
  refine ⟨title, separator,
    fun r => line (filtFieldsByHeaders (row' r) (fun _ => true)), fun order => ?_⟩
  have hp := sortReports_perm reports order
  obtain ⟨r, rs, hs⟩ := List.exists_cons_of_ne_nil
    (fun h => hne (hp.symm.trans (List.Perm.of_eq h)).eq_nil : sortReports A reports order ≠ [])
  have hr : r.type = typ := htyp r (hp.subset (hs ▸ List.mem_cons_self ..))
  have hrows : (r :: rs).mapM (objFieldValues A perf · enableTPN) = some ((r :: rs).map row) := by
    apply mapM_eq_some_map
    intro x _
    obtain ⟨cells, hcells, -⟩ := exists_objFieldValues A perf x enableTPN
    simp only [row, hcells, Option.getD_some]
  have hadd := hrow' (r :: rs) (hs ▸ hp)
  have htab := htable _ ((hs ▸ hp : (r :: rs).Perm reports).map
    (fun r => filtFieldsByHeaders (row' r) (fun _ => true)))
  unfold markdown
  simp only [hs, hrows, hr, Option.bind_eq_bind, Option.bind_some, hadd, Option.getD_none,
    List.map_map, Function.comp_def, Option.pure_def]
  rw [htab, List.map_map]
  rfl

/-- The two orders of a table: the same title and separator, and the same rows. -/
theorem markdown_orders (enableTPN : Bool) (typ : ReportType) (reports : List (Report A.F))
    (hne : reports ≠ []) (htyp : ∀ r ∈ reports, r.type = typ) :
    ∃ title separator : Str, ∃ rows rows' : List Str,
      markdown A perf (init enableTPN) reports enableTPN .result none =
        some (title :: separator :: rows) ∧
      markdown A perf (init enableTPN) reports enableTPN .framework none =
        some (title :: separator :: rows') ∧
      rows.Perm rows' ∧ rows.length = reports.length := by
  obtain ⟨title, separator, line, h⟩ := @exists_markdown A perf enableTPN typ reports hne htyp
  refine ⟨title, separator, _, _, h .result, h .framework, ?_, ?_⟩
  · exact ((sortReports_perm reports .result).trans
      (sortReports_perm reports .framework).symm).map line
  · rw [List.length_map, (sortReports_perm reports .result).length_eq]

/-- Two rows that tie on their rate. -/
def tiedReports : List (Report ℚ) :=
  [.benchEcho { cheap with Framework := "costly".toList, CPUEER := 5, MEMEER := 900 },
    .benchEcho cheap]
where
  cheap : BenchEchoReport ℚ := {
    Framework := "cheap".toList, Lang := "go".toList, BenchClient := "benchcli-rust".toList
    Threads := 2, TPS := 300, CPUEER := 50, MEMEER := 20
    Min := 9040, Avg := 2500000, Max := 1500000000, TP50 := 12, TP75 := 12, TP90 := 12
    TP95 := 9040, TP99 := 9040, Used := 1500000000, Total := 450, Success := 450, Failed := 0
    Connections := 10, Concurrency := 4, Payload := 1024, CPUMin := 1, CPUAvg := 6, CPUMax := 8
    MEMRSSMin := 0, MEMRSSAvg := 15728640, MEMRSSMax := 202375168, Pprof := some false }

theorem markdown_orders_tied :
    ∃ title separator : Str, ∃ rows rows' : List Str,
      markdown exact statsPerf (init true) tiedReports true .result none =
        some (title :: separator :: rows) ∧
      markdown exact statsPerf (init true) tiedReports true .framework none =
        some (title :: separator :: rows') ∧
      rows.Perm rows' ∧ rows.length = tiedReports.length :=
  @markdown_orders exact statsPerf true .benchEcho tiedReports (List.cons_ne_nil _ _)
    (List.forall_mem_cons.mpr ⟨rfl, List.forall_mem_singleton.mpr rfl⟩)

end Http3Bench.Benchreport
