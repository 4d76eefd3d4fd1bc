import Http3Bench.Benchreport.Percents

/-!
# Filtered columns

`Markdown`, `Headers` and `Fields` take a filter on header names. `filtHeaders` asks it about the
headers and `filtFieldsByHeaders` about the texts of the cells, so that the cells stay under their
headers where the filter answers the same for both. Each of them filters in the array it is given,
which for the headers is the one every table of that type shares.
-/

namespace Http3Bench.Benchreport

variable {A : Floats} {perf : Perf}

/-! ### Filtering in place -/

/-- The loop of `filtHeaders` and `filtFieldsByHeaders` on the array `values` views: what the array
holds afterwards and how many of its elements the returned slice views. -/
def filtInPlace (values : List Str) (filter : Str → Bool) : List Str × ℕ :=
  (List.range values.length).foldl (fun s i =>
    match s.1[i]? with
    | some v => if filter v then (s.1.set s.2 v, s.2 + 1) else s
    | none => s) (values, 0)

theorem filtInPlace_eq (values : List Str) (filter : Str → Bool) :
    filtInPlace values filter =
      (values.filter filter ++ values.drop (values.filter filter).length,
        (values.filter filter).length) := by
  -- the elements written never pass the one that is read
  have key : ∀ n ≤ values.length, (List.range n).foldl (fun s i =>
      match s.1[i]? with
      | some v => if filter v then (s.1.set s.2 v, s.2 + 1) else s
      | none => s) (values, 0) =
        ((values.take n).filter filter ++ values.drop ((values.take n).filter filter).length,
          ((values.take n).filter filter).length) := by
    intro n
    induction n with
    | zero => simp
    | succ n ih =>
      intro hn
      have hlt : n < values.length := hn
      have hwritten : ((values.take n).filter filter).length ≤ n :=
        (List.length_filter_le _ _).trans (List.length_take_le _ _)
      rw [List.range_succ, List.foldl_append, ih hlt.le, List.foldl_cons, List.foldl_nil,
        List.take_succ_eq_append_getElem hlt, List.filter_append]
      generalize (values.take n).filter filter = kept at hwritten
      have hread : (kept ++ values.drop kept.length)[n]? = some values[n] := by
        rw [List.getElem?_append_right hwritten, List.getElem?_drop, Nat.add_sub_cancel' hwritten,
          List.getElem?_eq_getElem hlt]
      rw [hread]
      by_cases hkeep : filter values[n] = true
      · have hset : (kept ++ values.drop kept.length).set kept.length values[n] =
            (kept ++ [values[n]]) ++ values.drop (kept.length + 1) := by
          rw [List.drop_eq_getElem_cons (hwritten.trans_lt hlt), List.set_append_right _ _ le_rfl,
            Nat.sub_self, List.set_cons_zero, List.append_assoc, List.singleton_append]
        simp [hkeep, hset]
      · simp [hkeep]
  rw [filtInPlace, key values.length le_rfl, List.take_length]

/-- The header variables after calls with a filter, each on reports of one type. -/
def headersAfter (enableTPN : Bool) (calls : List (ReportType × (Str → Bool))) : MarkdownHeaders :=
  calls.foldl (fun headers call =>
    Function.update headers call.1 (filtInPlace (headers call.1) call.2).1) (init enableTPN)

/-- A filter that accepts the first headers and no other leaves the array as it was. -/
theorem filtInPlace_of_prefix {values : List Str} {filter : Str → Bool}
    (h : filtHeaders values filter <+: values) : (filtInPlace values filter).1 = values := by
  rw [filtInPlace_eq]
  exact List.prefix_iff_eq_append.mp h

theorem headersAfter_append (enableTPN : Bool) (calls : List (ReportType × (Str → Bool)))
    (typ : ReportType) (filter : Str → Bool) :
    headersAfter enableTPN (calls ++ [(typ, filter)]) = Function.update (headersAfter enableTPN calls) typ
      (filtInPlace (headersAfter enableTPN calls typ) filter).1 := by
  rw [headersAfter, List.foldl_append]
  rfl

/-- The headers of a type are changed by calls on reports of that type only. -/
theorem headersAfter_eq {enableTPN : Bool} {typ : ReportType} {calls : List (ReportType × (Str → Bool))}
    (h : ∀ filter, (typ, filter) ∈ calls → filtHeaders (init enableTPN typ) filter <+: init enableTPN typ) :
    headersAfter enableTPN calls typ = init enableTPN typ := by
  induction calls using List.reverseRecOn with
  | nil => rfl
  | append_singleton calls c ih =>
    obtain ⟨other, filter⟩ := c
    have hbefore := ih (fun f hf => h f (List.mem_append_left _ hf))
    rw [headersAfter_append]
    by_cases heq : typ = other
    · subst heq
      rw [Function.update_self, hbefore]
      exact filtInPlace_of_prefix (h filter (List.mem_append_right _ (List.mem_singleton_self _)))
    · rw [Function.update_of_ne heq]
      exact hbefore

/-! ### Titles -/

/-- The cells of a row that stand under the headers the filter accepts. -/
def cellsUnder (headers : List Str) (filter : Str → Bool) (row : List Str) : List Str :=
  ((headers.zip row).filter (fun c => filter c.1)).map Prod.snd

theorem cellsUnder_map (headers : List Str) (filter : Str → Bool) (mark : Str → Str) :
    cellsUnder headers filter (headers.map mark) = (headers.filter filter).map mark := by
  unfold cellsUnder
  induction headers with
  | nil => rfl
  | cons header headers ih =>
    rw [List.map_cons, List.zip_cons_cons, List.filter_cons, List.filter_cons]
    split
    · rw [List.map_cons, List.map_cons, ih]
    · exact ih

theorem markRank_cons (title : Str) (titles : List Str) (rank : RankField) :
    markRank (title :: titles) rank =
      if title = rank.header then (title ++ rankMarker rank.rank) :: titles
      else title :: markRank titles rank := by
  unfold markRank
  rw [List.findIdx?_cons]
  by_cases h : title = rank.header
  · simp [h]
  · rw [if_neg (by simpa using h), if_neg h]
    cases List.findIdx? (· == rank.header) titles <;> rfl

/-- One more title marked. -/
def marking (mark : Str → Str) (rank : RankField) (header : Str) : Str :=
  if header = rank.header then mark header ++ rankMarker rank.rank else mark header

theorem markRank_map {headers : List Str} (hnodup : headers.Nodup) {mark : Str → Str} {rank : RankField}
    (hmark : ∀ header, mark header = rank.header ↔ header = rank.header) :
    markRank (headers.map mark) rank = headers.map (marking mark rank) := by
  induction headers with
  | nil => rfl
  | cons header headers ih =>
    obtain ⟨hnew, hnodup⟩ := List.nodup_cons.mp hnodup
    rw [List.map_cons, List.map_cons, markRank_cons, marking]
    simp only [hmark]
    split
    · rename_i h
      refine congrArg _ (List.map_congr_left (fun other hother => ?_))
      have hne : other ≠ rank.header := fun h' => hnew ((h.trans h'.symm) ▸ hother)
      rw [marking, if_neg hne]
    · rw [ih hnodup]

/-- The titles of a table, each marked on its own. -/
theorem foldl_markRank {headers : List Str} (hnodup : headers.Nodup) {ranks : List RankField}
    {mark : Str → Str} (hmark : ∀ rank ∈ ranks, ∀ header, mark header = rank.header ↔ header = rank.header)
    (hranks : ∀ rank ∈ ranks, ']' ∉ rank.header)
    (hdistinct : ranks.Pairwise (fun a b => a.header ≠ b.header)) :
    ranks.foldl markRank (headers.map mark) = headers.map (ranks.foldl marking mark) := by
  induction ranks generalizing mark with
  | nil => rfl
  | cons rank ranks ih =>
    obtain ⟨hhead, hdistinct⟩ := List.pairwise_cons.mp hdistinct
    rw [List.foldl_cons, List.foldl_cons, markRank_map hnodup (hmark rank List.mem_cons_self)]
    refine ih (fun rank' hr header => ?_) (fun r hr => hranks r (List.mem_cons_of_mem _ hr)) hdistinct
    unfold marking
    split
    · rename_i h
      refine iff_of_false (fun heq => ?_) (fun heq => hhead rank' hr (h ▸ heq))
      apply hranks rank' (List.mem_cons_of_mem _ hr)
      rw [← heq]
      simp [rankMarker]
    · exact hmark rank' (List.mem_cons_of_mem _ hr) header

/-- A filter keeps the titles of the headers it accepts. -/
theorem tableTitle_filter (enableTPN : Bool) (typ : ReportType) (filter : Str → Bool) :
    tableTitle (init enableTPN) typ filter =
      cellsUnder (init enableTPN typ) filter (tableTitle (init enableTPN) typ (fun _ => true)) := by
  have hnodup : (init enableTPN typ).Nodup := by cases typ <;> cases enableTPN <;> decide
  have hranks : ∀ rank ∈ rankFields typ, ']' ∉ rank.header := by cases typ <;> decide
  have hdistinct : (rankFields typ).Pairwise (fun a b => a.header ≠ b.header) := by
    cases typ <;> decide
  have htitle : ∀ headers : List Str, headers.Nodup →
      (rankFields typ).foldl markRank headers = headers.map ((rankFields typ).foldl marking id) := by
    intro headers hn
    have h := @foldl_markRank headers hn (rankFields typ) id (fun _ _ _ => Iff.rfl) hranks hdistinct
    rwa [List.map_id] at h
  unfold tableTitle filtHeaders
  rw [List.filter_true, htitle _ hnodup, cellsUnder_map, htitle _ (hnodup.filter _)]

/-! ### Cells -/

theorem eq_of_countP_eq {α : Type} {l : List α} {p q : α → Bool} (himp : ∀ a ∈ l, p a = true → q a = true)
    (hcount : l.countP p = l.countP q) : ∀ a ∈ l, q a = p a := by
  induction l with
  | nil => exact fun a ha => (by cases ha)
  | cons b l ih =>
    have hrest := fun a ha => himp a (List.mem_cons_of_mem b ha)
    have hle := List.countP_mono_left hrest
    have hb := himp b List.mem_cons_self
    rw [List.countP_cons, List.countP_cons] at hcount
    have hsame : q b = p b := by
      cases hp : p b <;> cases hq : q b <;> simp_all
    rw [hsame] at hcount
    exact List.forall_mem_cons.mpr ⟨hsame, ih hrest (by omega)⟩

/-- The texts a filter accepts are the cells under the headers it accepts where it answers the same
for the two, and nowhere else. -/
theorem filtFieldsByHeaders_eq_iff {headers row : List Str} (hlen : row.length = headers.length)
    (filter : Str → Bool) :
    filtFieldsByHeaders row filter = cellsUnder headers filter row ↔
      ∀ c ∈ headers.zip row, filter c.2 = filter c.1 := by
  have hrow : filtFieldsByHeaders row filter =
      ((headers.zip row).filter (fun c => filter c.2)).map Prod.snd := by
    unfold filtFieldsByHeaders
    conv_lhs => rw [← List.map_snd_zip hlen.le, List.filter_map]
    rfl
  rw [hrow, cellsUnder]
  constructor
  · intro h
    apply eq_of_countP_eq
    · intro c hc hkept
      have hmem : c.2 ∈ ((headers.zip row).filter (fun c => filter c.2)).map Prod.snd :=
        h ▸ List.mem_map_of_mem (List.mem_filter.mpr ⟨hc, hkept⟩)
      obtain ⟨d, hd, heq⟩ := List.mem_map.mp hmem
      exact heq ▸ (List.mem_filter.mp hd).2
    · rw [List.countP_eq_length_filter, List.countP_eq_length_filter]
      simpa using (congrArg List.length h).symm
  · intro h
    rw [List.filter_congr h]

/-- `Headers(r, filter)`. -/
def filteredHeaders (headers : MarkdownHeaders) (r : Report A.F) : Option (Str → Bool) → List Str
  | some filter => filtHeaders (headers r.type) filter
  | none => []

/-- `Fields(r, enableTPN, filter)`. -/
def filteredFields (A : Floats) (perf : Perf) (r : Report A.F) (enableTPN : Bool) :
    Option (Str → Bool) → Option (List Str)
  | some filter => (objFieldValues A perf r enableTPN).map (filtFieldsByHeaders · filter)
  | none => some []

/-- A filtered table, and the headers and fields of one report, after calls that left the header
variable of its type alone: the titles are those of the headers the filter accepts, and the cells are
the ones under them where the filter answers the same for each cell and its header. -/
theorem filter_columns (A : Floats) (perf : Perf) (enableTPN : Bool)
    (calls : List (ReportType × (Str → Bool))) (typ : ReportType)
    (hcalls : ∀ f, (typ, f) ∈ calls → filtHeaders (init enableTPN typ) f <+: init enableTPN typ)
    (reports : List (Report A.F)) (hne : reports ≠ [])
    (htyp : ∀ r ∈ reports, r.type = typ) (order : Order) (filter : Str → Bool) :
    (∃ rows : List (List Str),
      percentRows A perf (init enableTPN) typ (sortReports A reports order) enableTPN = some rows ∧
      markdown A perf (headersAfter enableTPN calls) reports enableTPN order (some filter) =
        some (markdownTable (tableTitle (init enableTPN) typ filter)
          (rows.map (filtFieldsByHeaders · filter))) ∧
      ((tableTitle (init enableTPN) typ filter = cellsUnder (init enableTPN typ) filter
            (tableTitle (init enableTPN) typ (fun _ => true)) ∧
          ∀ row ∈ rows, filtFieldsByHeaders row filter = cellsUnder (init enableTPN typ) filter row) ↔
        ∀ row ∈ rows, ∀ c ∈ (init enableTPN typ).zip row, filter c.2 = filter c.1)) ∧
    (∀ r ∈ reports, ∃ row : List Str, objFieldValues A perf r enableTPN = some row ∧
      ((filteredHeaders (headersAfter enableTPN calls) r (some filter) =
            cellsUnder (init enableTPN typ) filter (init enableTPN typ) ∧
          filteredFields A perf r enableTPN (some filter) =
            some (cellsUnder (init enableTPN typ) filter row)) ↔
        ∀ c ∈ (init enableTPN typ).zip row, filter c.2 = filter c.1)) ∧
    (∀ typ', typ' ≠ typ → headersAfter enableTPN (calls ++ [(typ, filter)]) typ' =
      headersAfter enableTPN calls typ') ∧
    (headersAfter enableTPN (calls ++ [(typ, filter)]) typ = init enableTPN typ ↔
      filtHeaders (init enableTPN typ) filter <+: init enableTPN typ) := by
  have hp := sortReports_perm reports order
  obtain ⟨rows, hrows, hlens, -⟩ := @percentRows_columns A perf enableTPN typ _
    (fun r hr => htyp r (hp.subset hr))
  have hrow : ∀ row ∈ rows, row.length = (init enableTPN typ).length := by
    intro row hr
    have hm : row.length ∈ rows.map List.length := List.mem_map_of_mem hr
    rw [hlens] at hm
    obtain ⟨_, -, heq⟩ := List.mem_map.mp hm
    exact heq.symm
  have hsame := headersAfter_eq hcalls
  refine ⟨⟨rows, hrows, ?_, ?_⟩, fun r hr => ?_, fun typ' hother => ?_, ?_⟩
  · rw [markdown_eq hne htyp]
    unfold percentRows at hrows ⊢
    unfold tableTitle
    rw [hsame, hrows]
    rfl
  · rw [and_iff_right (tableTitle_filter enableTPN typ filter)]
    exact forall₂_congr (fun row hr => filtFieldsByHeaders_eq_iff (hrow row hr) filter)
  · obtain ⟨row, hcells, hlen⟩ := exists_objFieldValues A perf r enableTPN
    rw [htyp r hr] at hlen
    refine ⟨row, hcells, ?_⟩
    have hheaders : filteredHeaders (headersAfter enableTPN calls) r (some filter) =
        cellsUnder (init enableTPN typ) filter (init enableTPN typ) := by
      have h := cellsUnder_map (init enableTPN typ) filter id
      rw [List.map_id, List.map_id] at h
      rw [h, ← hsame, ← htyp r hr]
      rfl
    rw [and_iff_right hheaders, ← filtFieldsByHeaders_eq_iff hlen, filteredFields, hcells,
      Option.map_some, Option.some_inj]
  · rw [headersAfter_append, Function.update_of_ne hother]
  · rw [headersAfter_append, Function.update_self, hsame, filtInPlace_eq, List.prefix_iff_eq_append]
    rfl

/-- A filter that rejects the column `Lang` and every cell in it, after a call that accepts all and one
that takes a column out of the table of another type. -/
theorem filter_columns_langs :
    ∃ rows : List (List Str),
      markdown exact statsPerf (headersAfter false
          [(.benchEcho, fun _ => true), (.connections, (· ≠ "Lang".toList))]) tiedReports false
          .framework (some (· ∉ ["Lang".toList, "go".toList])) =
        some (markdownTable (tableTitle (init false) .benchEcho (· ∉ ["Lang".toList, "go".toList]))
          (rows.map (filtFieldsByHeaders · (· ∉ ["Lang".toList, "go".toList])))) ∧
      ∀ row ∈ rows, filtFieldsByHeaders row (· ∉ ["Lang".toList, "go".toList]) =
        cellsUnder (init false .benchEcho) (· ∉ ["Lang".toList, "go".toList]) row := by
  obtain ⟨⟨rows, hrows, htable, hiff⟩, -⟩ := filter_columns exact statsPerf false
    [(.benchEcho, fun _ => true), (.connections, (· ≠ "Lang".toList))] .benchEcho
    (by simp [filtHeaders])
    tiedReports (List.cons_ne_nil _ _)
    (List.forall_mem_cons.mpr ⟨rfl, List.forall_mem_singleton.mpr rfl⟩) .framework
    (· ∉ ["Lang".toList, "go".toList])
  have hcells : ∀ row ∈ (percentRows exact statsPerf (init false) .benchEcho tiedReports false).getD [],
      ∀ c ∈ (init false .benchEcho).zip row,
        decide (c.2 ∉ ["Lang".toList, "go".toList]) = decide (c.1 ∉ ["Lang".toList, "go".toList]) := by
    decide +kernel
  refine ⟨rows, htable, (hiff.mpr (fun row hr => hcells row ?_)).2⟩
  have heq := congrArg (Option.getD · []) hrows
  exact (show _ = rows from heq) ▸ hr

/-- A table without the column `Lang`: every row still has the cell of that column, and so have the
fields of a report. -/
theorem filter_columns_lang :
    (∃ rows : List (List Str),
      markdown exact statsPerf (init false) tiedReports false .framework (some (· ≠ "Lang".toList)) =
        some (markdownTable (tableTitle (init false) .benchEcho (· ≠ "Lang".toList)) rows) ∧
      ¬ ∀ row ∈ rows, row.length = (tableTitle (init false) .benchEcho (· ≠ "Lang".toList)).length) ∧
    ¬ ∀ r ∈ tiedReports,
      (filteredFields exact statsPerf r false (some (· ≠ "Lang".toList))).map List.length =
        some (@filteredHeaders exact (init false) r (some (· ≠ "Lang".toList))).length := by
  have htyp : ∀ r ∈ tiedReports, r.type = .benchEcho :=
    List.forall_mem_cons.mpr ⟨rfl, List.forall_mem_singleton.mpr rfl⟩
  obtain ⟨rows, hrows, -⟩ := @percentRows_columns exact statsPerf false .benchEcho tiedReports htyp
  have hlens : (percentRows exact statsPerf (init false) .benchEcho tiedReports false).map
      (fun rows => rows.map (fun row => (filtFieldsByHeaders row (· ≠ "Lang".toList)).length)) =
        some [12, 12] := by
    decide +kernel
  refine ⟨⟨rows.map (filtFieldsByHeaders · (· ≠ "Lang".toList)), ?_, ?_⟩, by decide +kernel⟩
  · exact (@markdown_eq exact statsPerf .benchEcho tiedReports (List.cons_ne_nil _ _) htyp _ _ _ _).trans
      (congrArg (Option.map _) hrows)
  · intro h
    have hlens := Option.some.inj ((congrArg (Option.map _) hrows).symm.trans hlens)
    have htitle : (tableTitle (init false) .benchEcho (· ≠ "Lang".toList)).length = 11 := by decide
    rw [htitle, List.forall_mem_map] at h
    have hsame : rows.map (fun row => (filtFieldsByHeaders row (· ≠ "Lang".toList)).length) =
        rows.map (fun _ => 11) := List.map_congr_left h
    cases rows with
    | nil => cases hlens
    | cons row rows => exact absurd (hlens.symm.trans hsame) (by simp)

end Http3Bench.Benchreport
