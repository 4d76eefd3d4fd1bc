import Http3Bench.Benchreport.Markdown

/-!
# The Summary table

`benchreport/report/summary.go`: the parameters of a run, taken off the summary-tagged fields of every
row of every table. A parameter's values and the frameworks of a value are gathered in the order they
are read, and what is gathered from some rows and one more is what is gathered from all of them
(`addSummaryValue_gathered`).
-/

namespace Http3Bench.Benchreport

/-! ### The program -/

def Project : Str := "GO-HTTP3-BENCHMARK".toList

structure SummaryParameter where
  Name : Str
  Description : Str

/-- The order the parameters are listed in. -/
def SummaryParameters : List SummaryParameter := [
  ⟨"Client".toList, "The benchmark client the load came from".toList⟩,
  ⟨"Client Threads".toList, "Event-loop threads the client drives its connections from (-t)".toList⟩,
  ⟨"Conns".toList, "QUIC connections dialed (-c) and used by every benchmark".toList⟩,
  ⟨"Payload".toList, "Request body size in bytes (-b), which the server echoes back".toList⟩,
  ⟨"Dial Concurrency".toList, "Handshakes in progress at once in Connections (-dc)".toList⟩,
  ⟨"Echo Concurrency".toList,
    "Connections with a request in flight at once in BenchEcho (-ec)".toList⟩,
  ⟨"Echo Total".toList, "Request/response round trips BenchEcho makes in all (-en)".toList⟩,
  ⟨"Echo Pprof".toList, "Whether Go servers were profiled through pprof in BenchEcho (-ep)".toList⟩,
  ⟨"Rate Duration".toList, "How long BenchMultiplex sends for (-rd)".toList⟩,
  ⟨"Rate SendRate".toList,
    "Requests sent on each connection per second in BenchMultiplex (-rr)".toList⟩,
  ⟨"Rate Batch".toList,
    "Request streams opened together on a connection in BenchMultiplex (-rb)".toList⟩,
  ⟨"Rate Pprof".toList,
    "Whether Go servers were profiled through pprof in BenchMultiplex (-rp)".toList⟩]

/-- One value a parameter took, and the frameworks it took it for. -/
structure SummaryValue where
  value : Str
  frameworks : List Str

/-- Names and values are told apart character by character. -/
local instance lawfulBEq_str : LawfulBEq Str := inferInstance

def addSummaryValue : List SummaryValue → Str → Str → List SummaryValue
  | [], value, framework => [⟨value, [framework]⟩]
  | v :: values, value, framework =>
    if v.value = value then
      if framework ∈ v.frameworks then v :: values
      else ⟨v.value, v.frameworks ++ [framework]⟩ :: values
    else v :: addSummaryValue values value framework

def summaryString : List SummaryValue → Str
  | [v] => v.value
  | values => "; ".toList.intercalate (values.map (fun v =>
      v.value ++ " (".toList ++ ", ".toList.intercalate v.frameworks ++ ")".toList))

def summaryDescription (name : Str) : Str :=
  ((SummaryParameters.find? (·.Name = name)).map (·.Description)).getD []

/-- The first loop of `summaryOrder`: the listed names that are found, each taken out of the set. -/
def takeListed (s : (Str → Bool) × List Str) (p : SummaryParameter) : (Str → Bool) × List Str :=
  if s.1 p.Name then (Function.update s.1 p.Name false, s.2 ++ [p.Name]) else s

def summaryOrder (names : List Str) : List Str :=
  let s := SummaryParameters.foldl takeListed (fun name => decide (name ∈ names), [])
  s.2 ++ names.filter s.1

/-- A row as `Summary` reads it by reflection: its framework, and the name and text of each field
with a summary tag. -/
structure Row where
  framework : Str
  tagged : List (Str × Str)

/-- The map of the values, and the names in the order they were first seen. -/
structure Gathered where
  values : Str → Option (List SummaryValue)
  names : List Str

def Gathered.add (framework : Str) (s : Gathered) (field : Str × Str) : Gathered where
  values := Function.update s.values field.1
    (some (addSummaryValue ((s.values field.1).getD []) field.2 framework))
  names := if (s.values field.1).isNone then s.names ++ [field.1] else s.names

def gather (tables : List (List Row)) : Gathered :=
  tables.foldl (fun s reports =>
    reports.foldl (fun s r => r.tagged.foldl (Gathered.add r.framework) s) s) ⟨fun _ => none, []⟩

/-- The lines of the Summary table. -/
def summaryTable (tables : List (List Row)) : List Str :=
  let s := gather tables
  if s.names = [] then []
  else markdownTableAligned ["Parameter".toList, "Value".toList, "Description".toList]
    (["Project".toList, Project, "The benchmark this run is from".toList] ::
      (summaryOrder s.names).map (fun name =>
        [name, summaryString ((s.values name).getD []), summaryDescription name])) true

def Report.framework {F : Type} : Report F → Str
  | .connections r => r.Framework
  | .benchEcho r => r.Framework
  | .benchRate r => r.Framework

variable (A : Floats) (perf : Perf)

def Report.row (r : Report A.F) : Option Row := do
  let tagged ← ((r.type.fields.zip r.values).filter (fun f => f.1.summary ≠ [])).mapM
    (fun f => (cellString A perf f.1 f.2).map (fun text => (f.1.summary, text)))
  return ⟨r.framework, tagged⟩

def summary (tables : List (List (Report A.F))) : Option (List Str) := do
  let rows ← tables.mapM (·.mapM (Report.row A perf))
  return summaryTable rows

/-! ### The row of a report -/

def onoff : Option Bool → Str
  | none => "unknown".toList
  | some true => "on".toList
  | some false => "off".toList

/-- The run's parameters as a report carries them, by the names of `SummaryParameters`. -/
def Report.parameterCells {F : Type} : Report F → List (Str × Str)
  | .connections r => [
      ("Client".toList, clientLabel r.BenchClient), ("Client Threads".toList, itoa r.Threads),
      ("Dial Concurrency".toList, itoa r.Concurrency)]
  | .benchEcho r => [
      ("Client".toList, clientLabel r.BenchClient), ("Client Threads".toList, itoa r.Threads),
      ("Echo Total".toList, itoa r.Total), ("Conns".toList, itoa r.Connections),
      ("Echo Concurrency".toList, itoa r.Concurrency), ("Payload".toList, itoa r.Payload),
      ("Echo Pprof".toList, onoff r.Pprof)]
  | .benchRate r => [
      ("Client".toList, clientLabel r.BenchClient), ("Client Threads".toList, itoa r.Threads),
      ("Rate Duration".toList, perf.i2TimeString r.Duration), ("Conns".toList, itoa r.Connections),
      ("Rate SendRate".toList, itoa r.SendRate), ("Rate Batch".toList, itoa r.Batch),
      ("Payload".toList, itoa r.Payload), ("Rate Pprof".toList, onoff r.Pprof)]

/-- A row is what `Summary` is to read of a report: the report's framework, and one by one the
fields that have a summary tag, under that tag and as their cells show them. -/
structure Report.Reads (r : Report A.F) (row : Row) : Prop where
  framework : row.framework = r.framework
  tagged : List.Forall₂
    (fun field cell => cell.1 = field.1.summary ∧ cellString A perf field.1 field.2 = some cell.2)
    ((r.type.fields.zip r.values).filter (fun f => f.1.summary ≠ [])) row.tagged
  parameterCells : row.tagged = r.parameterCells perf

theorem forall₂_of_mapM {α β γ : Type} {f : α → Option γ} {g : α → β} {l : List α}
    {cells : List (β × γ)}
    (h : l.mapM (fun a => (f a).map (fun text => (g a, text))) = some cells) :
    List.Forall₂ (fun a cell => cell.1 = g a ∧ f a = some cell.2) l cells := by
  induction l generalizing cells with
  | nil =>
    cases h
    exact List.Forall₂.nil
  | cons a l ih =>
    rw [List.mapM_cons] at h
    obtain ⟨cell, hcell, h⟩ := Option.bind_eq_some_iff.mp h
    obtain ⟨rest, hrest, h⟩ := Option.bind_eq_some_iff.mp h
    obtain ⟨text, htext, rfl⟩ := Option.map_eq_some_iff.mp hcell
    cases h
    exact List.Forall₂.cons ⟨rfl, htext⟩ (ih hrest)

theorem row_eq (r : Report A.F) :
    Report.row A perf r = some ⟨r.framework, r.parameterCells perf⟩ := by
  cases r with
  | connections r => rfl
  | benchEcho r =>
    cases r
    rename_i pprof
    rcases pprof with _ | _ | _ <;> rfl
  | benchRate r =>
    cases r
    rename_i pprof
    rcases pprof with _ | _ | _ <;> rfl

/-- Every report has a row, with what `Summary` is to read of it. -/
theorem exists_row (r : Report A.F) :
    ∃ row, Report.row A perf r = some row ∧ Report.Reads A perf r row := by
  refine ⟨_, row_eq A perf r, rfl, ?_, rfl⟩
  have hrow := row_eq A perf r
  rw [Report.row] at hrow
  obtain ⟨tagged, htagged, hrow⟩ := Option.bind_eq_some_iff.mp hrow
  cases hrow
  exact forall₂_of_mapM htagged

/-! ### First appearances -/

section

variable {α : Type} [BEq α] [LawfulBEq α]

theorem eraseDups_concat (l : List α) (a : α) [Decidable (a ∈ l)] :
    (l ++ [a]).eraseDups = if a ∈ l then l.eraseDups else l.eraseDups ++ [a] := by
  rw [List.eraseDups_append]
  split
  · rename_i h
    simp [List.removeAll, h]
  · rename_i h
    simp [List.removeAll, h, List.eraseDups_cons]

theorem nodup_eraseDups (l : List α) : l.eraseDups.Nodup := by
  induction l using List.reverseRecOn with
  | nil => exact List.nodup_nil
  | append_singleton l a ih =>
    rw [eraseDups_concat]
    split
    · exact ih
    · rename_i h
      rw [← List.concat_eq_append, List.nodup_concat, List.mem_eraseDups]
      exact ⟨h, ih⟩

end

/-! ### What is gathered -/

/-- A tagged field of a row. -/
structure Observation where
  name : Str
  text : Str
  framework : Str
  deriving DecidableEq

/-- The tagged fields of all rows of all tables, in the order they are read. -/
def observations (tables : List (List Row)) : List Observation :=
  tables.flatten.flatMap (fun r => r.tagged.map (fun field => ⟨field.1, field.2, r.framework⟩))

/-- The texts of a parameter, each once. -/
def texts (seen : List Observation) : List Str := (seen.map (·.text)).eraseDups

/-- The frameworks with a text, each once. -/
def frameworksOf (seen : List Observation) (text : Str) : List Str :=
  ((seen.filter (·.text = text)).map (·.framework)).eraseDups

def gathered (seen : List Observation) : List SummaryValue :=
  (texts seen).map (fun text => ⟨text, frameworksOf seen text⟩)

theorem frameworksOf_concat (seen : List Observation) (o : Observation) (text : Str) :
    frameworksOf (seen ++ [o]) text =
      if o.text = text then
        if o.framework ∈ frameworksOf seen text then frameworksOf seen text
        else frameworksOf seen text ++ [o.framework]
      else frameworksOf seen text := by
  unfold frameworksOf
  rw [List.filter_append, List.map_append, List.filter_singleton]
  by_cases h : o.text = text
  · rw [if_pos h, decide_eq_true h, cond_true, List.map_singleton, eraseDups_concat]
    simp only [List.mem_eraseDups]
  · rw [if_neg h, decide_eq_false h, cond_false, List.map_nil, List.append_nil]

/-- Adding a value to a list of distinct ones. -/
theorem addSummaryValue_map {values : List Str} (hnodup : values.Nodup) (frameworks : Str → List Str)
    (value framework : Str) :
    addSummaryValue (values.map (fun v => ⟨v, frameworks v⟩)) value framework =
      if value ∈ values then
        values.map (fun v => ⟨v, if value = v then
          if framework ∈ frameworks v then frameworks v else frameworks v ++ [framework]
          else frameworks v⟩)
      else values.map (fun v => ⟨v, frameworks v⟩) ++ [⟨value, [framework]⟩] := by
  induction values with
  | nil => rfl
  | cons v values ih =>
    obtain ⟨hnew, hnodup⟩ := List.nodup_cons.mp hnodup
    rw [List.map_cons, addSummaryValue]
    by_cases hv : v = value
    · subst hv
      have hrest : values.map (fun w => (⟨w, if v = w then
          if framework ∈ frameworks w then frameworks w else frameworks w ++ [framework]
          else frameworks w⟩ : SummaryValue)) = values.map (fun w => ⟨w, frameworks w⟩) := by
        apply List.map_congr_left
        intro w hw
        have hne : v ≠ w := fun h => hnew (h ▸ hw)
        rw [if_neg hne]
      rw [if_pos rfl, if_pos List.mem_cons_self, List.map_cons, hrest, if_pos rfl]
      split <;> rfl
    · have hmem : value ∈ v :: values ↔ value ∈ values := by
        simp [Ne.symm hv]
      rw [if_neg hv, ih hnodup]
      simp only [hmem]
      split
      · rw [List.map_cons, if_neg (Ne.symm hv)]
      · rw [List.cons_append]

/-- One more row. -/
theorem addSummaryValue_gathered (seen : List Observation) (o : Observation) :
    addSummaryValue (gathered seen) o.text o.framework = gathered (seen ++ [o]) := by
  have htexts : texts (seen ++ [o]) =
      if o.text ∈ texts seen then texts seen else texts seen ++ [o.text] := by
    unfold texts
    rw [List.map_append, List.map_singleton, eraseDups_concat]
    simp only [List.mem_eraseDups]
  have hnodup : (texts seen).Nodup := nodup_eraseDups _
  unfold gathered
  rw [addSummaryValue_map hnodup, htexts]
  split
  · simp only [frameworksOf_concat]
  · rename_i hnew
    have hnone : frameworksOf seen o.text = [] := by
      unfold frameworksOf
      rw [List.filter_eq_nil_iff.mpr, List.map_nil, List.eraseDups_nil]
      intro o' ho' heq
      have heq := of_decide_eq_true heq
      exact hnew (List.mem_eraseDups.mpr (heq ▸ List.mem_map_of_mem ho'))
    rw [List.map_append, List.map_singleton, frameworksOf_concat, if_pos rfl, hnone,
      if_neg List.not_mem_nil, List.nil_append]
    refine congrArg (· ++ _) (List.map_congr_left (fun text htext => ?_))
    have hne : o.text ≠ text := fun h => hnew (h ▸ htext)
    rw [frameworksOf_concat, if_neg hne]

/-- The names, each once. -/
def parameters (seen : List Observation) : List Str := (seen.map (·.name)).eraseDups

/-- What the loops hold after the fields in `seen`. -/
def Gathered.after (seen : List Observation) : Gathered where
  values name :=
    if ∃ o ∈ seen, o.name = name then some (gathered (seen.filter (·.name = name))) else none
  names := parameters seen

theorem Gathered.values_after (seen : List Observation) (name : Str) :
    ((Gathered.after seen).values name).getD [] = gathered (seen.filter (·.name = name)) := by
  unfold Gathered.after
  dsimp only
  split
  · rfl
  · rename_i h
    have hnone : seen.filter (·.name = name) = [] := by
      rw [List.filter_eq_nil_iff]
      exact fun o ho heq => h ⟨o, ho, of_decide_eq_true heq⟩
    rw [hnone]
    rfl

theorem Gathered.add_after (seen : List Observation) (o : Observation) :
    (Gathered.after seen).add o.framework (o.name, o.text) = Gathered.after (seen ++ [o]) := by
  unfold Gathered.add
  rw [Gathered.values_after, addSummaryValue_gathered]
  unfold Gathered.after
  congr 1
  · funext name
    by_cases h : name = o.name
    · subst h
      rw [Function.update_self, if_pos ⟨o, by simp, rfl⟩, List.filter_append,
        List.filter_singleton]
      simp
    · rw [Function.update_of_ne h, List.filter_append, List.filter_singleton]
      simp [Ne.symm h]
  · have hmem : (∃ o' ∈ seen, o'.name = o.name) ↔ o.name ∈ seen.map (·.name) := List.mem_map.symm
    unfold parameters
    rw [List.map_append, List.map_singleton, eraseDups_concat]
    dsimp only
    simp only [hmem]
    split <;> rename_i h <;> simp_all

/-- The loops of `Summary`, as one. -/
theorem gather_eq (tables : List (List Row)) : gather tables = Gathered.after (observations tables) := by
  have key : ∀ seen : List Observation,
      seen.foldl (fun s o => Gathered.add o.framework s (o.name, o.text)) ⟨fun _ => none, []⟩ =
        Gathered.after seen := by
    intro seen
    induction seen using List.reverseRecOn with
    | nil => simp [Gathered.after, parameters]
    | append_singleton seen o ih =>
      rw [List.foldl_append, ih, List.foldl_cons, List.foldl_nil, Gathered.add_after]
  rw [← key, observations, List.foldl_flatMap, List.foldl_flatten]
  simp only [List.foldl_map]
  rfl

/-! ### The order of the rows -/

theorem foldl_takeListed {params : List SummaryParameter} (hnodup : (params.map (·.Name)).Nodup)
    (found : Str → Bool) (ordered : List Str) :
    params.foldl takeListed (found, ordered) =
      (fun name => found name && decide (name ∉ params.map (·.Name)),
        ordered ++ (params.map (·.Name)).filter found) := by
  induction params generalizing found ordered with
  | nil => simp
  | cons p params ih =>
    obtain ⟨hnew, hnodup⟩ := List.nodup_cons.mp hnodup
    rw [List.foldl_cons, takeListed, List.map_cons, List.filter_cons]
    by_cases h : found p.Name = true
    · have hrest : (params.map (·.Name)).filter (Function.update found p.Name false) =
          (params.map (·.Name)).filter found := by
        apply List.filter_congr
        intro name hname
        have hne : name ≠ p.Name := by
          rintro rfl
          exact hnew hname
        rw [Function.update_of_ne hne]
      rw [if_pos h, if_pos h, ih hnodup, hrest, List.append_assoc, List.singleton_append]
      refine Prod.ext (funext fun name => ?_) rfl
      by_cases hn : name = p.Name
      · simp [hn]
      · simp [hn]
    · rw [if_neg h, if_neg h, ih hnodup]
      refine Prod.ext (funext fun name => ?_) rfl
      by_cases hn : name = p.Name
      · simp [hn, h]
      · simp [hn]

theorem summaryOrder_eq (names : List Str) :
    summaryOrder names = (SummaryParameters.map (·.Name)).filter (· ∈ names) ++
      names.filter (· ∉ SummaryParameters.map (·.Name)) := by
  have hnodup : (SummaryParameters.map (·.Name)).Nodup := by decide
  unfold summaryOrder
  rw [foldl_takeListed hnodup]
  refine congrArg _ (List.filter_congr (fun name hname => ?_))
  simp [hname]

/-! ### The values -/

/-- How a parameter with several values reads. -/
def listed (seen : List Observation) : Str :=
  "; ".toList.intercalate ((texts seen).map (fun text =>
    text ++ " (".toList ++ ", ".toList.intercalate (frameworksOf seen text) ++ ")".toList))

theorem summaryString_same {seen : List Observation} (hne : seen ≠ []) {text : Str}
    (h : ∀ o ∈ seen, o.text = text) : summaryString (gathered seen) = text := by
  have hall : ∀ t ∈ texts seen, t = text := by
    intro t ht
    obtain ⟨o, ho, rfl⟩ := List.mem_map.mp (List.mem_eraseDups.mp ht)
    exact h o ho
  have hnodup : (texts seen).Nodup := nodup_eraseDups _
  have hsome : texts seen ≠ [] := by
    obtain ⟨o, rest, rfl⟩ := List.exists_cons_of_ne_nil hne
    exact List.ne_nil_of_mem (List.mem_eraseDups.mpr (List.mem_map_of_mem List.mem_cons_self))
  have hone : texts seen = [text] := by
    cases hs : texts seen with
    | nil => exact absurd hs hsome
    | cons t rest =>
      rw [hs] at hall hnodup
      obtain ⟨hnew, -⟩ := List.nodup_cons.mp hnodup
      have ht := hall t List.mem_cons_self
      cases rest with
      | nil => rw [ht]
      | cons u rest =>
        have hu := hall u (List.mem_cons_of_mem _ List.mem_cons_self)
        exact absurd (ht.trans hu.symm ▸ List.mem_cons_self) hnew
  rw [gathered, hone]
  rfl

theorem summaryString_listed {seen : List Observation} (h : ¬ ∃ text, ∀ o ∈ seen, o.text = text) :
    summaryString (gathered seen) = listed seen := by
  have hmany : ∀ text, texts seen ≠ [text] := by
    intro text hs
    refine h ⟨text, fun o ho => ?_⟩
    have hmem : o.text ∈ texts seen := List.mem_eraseDups.mpr (List.mem_map_of_mem ho)
    rw [hs] at hmem
    exact List.mem_singleton.mp hmem
  unfold gathered listed
  cases hs : texts seen with
  | nil => rfl
  | cons text rest =>
    cases rest with
    | nil => exact absurd hs (hmany text)
    | cons other rest =>
      have hparts : summaryString ((text :: other :: rest).map (fun t => ⟨t, frameworksOf seen t⟩)) =
          "; ".toList.intercalate (((text :: other :: rest).map (fun t =>
            (⟨t, frameworksOf seen t⟩ : SummaryValue))).map (fun v =>
              v.value ++ " (".toList ++ ", ".toList.intercalate v.frameworks ++ ")".toList)) := rfl
      rw [hparts, List.map_map]
      rfl

/-- The Summary table: after the project, each parameter that is found once, those in
`SummaryParameters` in its order and the others as they first appear; its value where all rows agree,
and otherwise each of its values with the frameworks that have it. The rows are those of the reports,
each with its report's framework and tagged fields. -/
theorem summary_faithful (tables : List (List Row)) :
    (observations tables = [] → summaryTable tables = []) ∧
    (observations tables ≠ [] → ∃ (order : List Str) (value : Str → Str),
      summaryTable tables =
        markdownTableAligned ["Parameter".toList, "Value".toList, "Description".toList]
          (["Project".toList, Project, "The benchmark this run is from".toList] ::
            order.map (fun name => [name, value name, summaryDescription name])) true ∧
      order.Nodup ∧ (∀ name, name ∈ order ↔ ∃ o ∈ observations tables, o.name = name) ∧
      order = (SummaryParameters.map (·.Name)).filter (· ∈ order) ++
        ((observations tables).map (·.name)).eraseDups.filter (· ∉ SummaryParameters.map (·.Name)) ∧
      ∀ name ∈ order, ∀ seen, seen = (observations tables).filter (·.name = name) →
        (∀ text, (∀ o ∈ seen, o.text = text) → value name = text) ∧
        ((¬ ∃ text, ∀ o ∈ seen, o.text = text) → value name = listed seen)) ∧
    ∀ (A : Floats) (perf : Perf) (reports : List (List (Report A.F))), ∃ rows : List (List Row),
      reports.mapM (·.mapM (Report.row A perf)) = some rows ∧
      summary A perf reports = some (summaryTable rows) ∧
      List.Forall₂ (List.Forall₂ (Report.Reads A perf)) reports rows := by
  have hmem : ∀ name, name ∈ parameters (observations tables) ↔
      ∃ o ∈ observations tables, o.name = name :=
    fun name => List.mem_eraseDups.trans List.mem_map
  have horder : ∀ name, name ∈ summaryOrder (parameters (observations tables)) ↔
      name ∈ parameters (observations tables) := by
    intro name
    rw [summaryOrder_eq, List.mem_append, List.mem_filter, List.mem_filter]
    by_cases h : name ∈ SummaryParameters.map (·.Name) <;> simp [h]
  refine ⟨fun h => ?_, fun h => ⟨summaryOrder (parameters (observations tables)),
    fun name => summaryString (((Gathered.after (observations tables)).values name).getD []),
    ?_, ?_, fun name => (horder name).trans (hmem name), ?_, ?_⟩, fun A perf reports => ?_⟩
  · rw [summaryTable, gather_eq, h]
    rfl
  · have hsome : parameters (observations tables) ≠ [] := by
      obtain ⟨o, rest, hs⟩ := List.exists_cons_of_ne_nil h
      exact List.ne_nil_of_mem ((hmem o.name).mpr ⟨o, hs ▸ List.mem_cons_self, rfl⟩)
    rw [summaryTable, gather_eq]
    exact if_neg hsome
  · have hparams : (SummaryParameters.map (·.Name)).Nodup := by decide
    rw [summaryOrder_eq, List.nodup_append]
    refine ⟨hparams.filter _, (nodup_eraseDups _).filter _, fun a ha b hb heq => ?_⟩
    have hb := of_decide_eq_true (List.mem_filter.mp hb).2
    exact hb (heq ▸ (List.mem_filter.mp ha).1)
  · rw [summaryOrder_eq]
    refine congrArg (· ++ _) (List.filter_congr (fun name _ => ?_))
    rw [← summaryOrder_eq]
    exact decide_eq_decide.mpr (horder name).symm
  · rintro name hname seen rfl
    have hfound := (hmem name).mp ((horder name).mp hname)
    dsimp only
    rw [Gathered.values_after]
    refine ⟨fun text => summaryString_same ?_, summaryString_listed⟩
    obtain ⟨o, ho, heq⟩ := hfound
    exact List.ne_nil_of_mem (List.mem_filter.mpr ⟨ho, decide_eq_true heq⟩)
  · have hrow : ∀ r, ∃ row, Report.row A perf r = some row ∧ Report.Reads A perf r row :=
      exists_row A perf
    choose row hrow hreads using hrow
    have hrows : reports.mapM (·.mapM (Report.row A perf)) = some (reports.map (·.map row)) :=
      mapM_eq_some_map (fun table _ => mapM_eq_some_map (fun r _ => hrow r))
    refine ⟨_, hrows, ?_, ?_⟩
    · rw [summary, hrows]
      rfl
    · simp only [List.forall₂_map_right_iff, List.forall₂_same]
      exact fun table _ r _ => hreads r

/-- Three tables of one run, as the program's test of the Summary has them. -/
def threeTables : List (List (Report exact.F)) :=
  let conns (framework : Str) (tps : ℤ) : Report exact.F := .connections
    { Framework := framework, Lang := "Go".toList, BenchClient := "benchcli-rust".toList,
      Threads := 4, TPS := tps, Min := 0, Avg := 0, Max := 0, TP50 := 0, TP75 := 0, TP90 := 0,
      TP95 := 0, TP99 := 0, Used := 0, Total := 0, Success := 0, Failed := 0, Concurrency := 2000 }
  let echo (framework : Str) (connections : ℤ) : Report exact.F := .benchEcho
    { Framework := framework, Lang := "Go".toList, BenchClient := "benchcli-rust".toList,
      Threads := 4, TPS := 0, CPUEER := (0 : ℚ), MEMEER := (0 : ℚ), Min := 0, Avg := 0, Max := 0,
      TP50 := 0, TP75 := 0, TP90 := 0, TP95 := 0, TP99 := 0, Used := 0, Total := 2000000,
      Success := 0, Failed := 0, Connections := connections, Concurrency := 10000, Payload := 1024,
      CPUMin := (0 : ℚ), CPUAvg := (0 : ℚ), CPUMax := (0 : ℚ), MEMRSSMin := 0, MEMRSSAvg := 0,
      MEMRSSMax := 0, Pprof := some false }
  let rate (framework : Str) : Report exact.F := .benchRate
    { Framework := framework, Lang := "Go".toList, BenchClient := "benchcli-rust".toList,
      Threads := 4, Duration := 10 ^ 10, TPS := 0, CPUEER := (0 : ℚ), MEMEER := (0 : ℚ),
      SendTimes := 0, SendBytes := 0, RecvTimes := 0, RecvBytes := 0, Connections := 20000,
      SendRate := 200, Batch := 10, Payload := 1024, CPUMin := (0 : ℚ), CPUAvg := (0 : ℚ),
      CPUMax := (0 : ℚ), MEMRSSMin := 0, MEMRSSAvg := 0, MEMRSSMax := 0, Pprof := some true }
  [[conns "fib".toList 9, conns "fasthttp".toList 8, conns "gin".toList 7],
    [echo "fib".toList 20000, echo "fasthttp".toList 19998], [rate "fib".toList]]

def threeRows : List (List Row) :=
  threeTables.map (·.map (fun r => ⟨r.framework, r.parameterCells statsPerf⟩))

theorem summary_faithful_threeTables : ∃ (order : List Str) (value : Str → Str),
    summary exact statsPerf threeTables = some
      (markdownTableAligned ["Parameter".toList, "Value".toList, "Description".toList]
        (["Project".toList, Project, "The benchmark this run is from".toList] ::
          order.map (fun name => [name, value name, summaryDescription name])) true) ∧
    order = ["Client".toList, "Client Threads".toList, "Conns".toList, "Payload".toList,
      "Dial Concurrency".toList, "Echo Concurrency".toList, "Echo Total".toList,
      "Echo Pprof".toList, "Rate Duration".toList, "Rate SendRate".toList, "Rate Batch".toList,
      "Rate Pprof".toList] ∧
    value "Client".toList = "rust-quiche".toList ∧
    value "Conns".toList = "20000 (fib); 19998 (fasthttp)".toList ∧
    value "Rate Duration".toList = "10.00s".toList := by
  obtain ⟨rows, -, hsummary, hreads⟩ := (summary_faithful []).2.2 exact statsPerf threeTables
  have hrow : ∀ r row, Report.Reads exact statsPerf r row →
      ⟨r.framework, r.parameterCells statsPerf⟩ = row := by
    rintro r ⟨framework, tagged⟩ ⟨hframework, -, hcells⟩
    exact congrArg₂ Row.mk hframework.symm hcells.symm
  have hrows : threeRows = rows := by
    rw [threeRows, ← List.forall₂_eq_eq_eq, List.forall₂_map_left_iff]
    refine hreads.imp (fun table seen h => ?_)
    rw [← List.forall₂_eq_eq_eq, List.forall₂_map_left_iff]
    exact h.imp hrow
  subst hrows
  obtain ⟨order, value, htable, -, hmem, horder, hvalue⟩ :=
    (summary_faithful threeRows).2.1 (by decide)
  have hfound : ∀ name, name ∈ order ↔ name ∈ (observations threeRows).map (·.name) :=
    fun name => (hmem name).trans List.mem_map.symm
  refine ⟨order, value, hsummary.trans (congrArg some htable), ?_, ?_, ?_, ?_⟩
  · have hlisted : (SummaryParameters.map (·.Name)).filter (· ∈ order) =
        (SummaryParameters.map (·.Name)).filter (· ∈ (observations threeRows).map (·.name)) :=
      List.filter_congr (fun name _ => decide_eq_decide.mpr (hfound name))
    rw [horder, hlisted]
    decide +kernel
  · exact (hvalue _ ((hfound _).mpr (by decide +kernel)) _ rfl).1 _ (by decide +kernel)
  · rw [(hvalue _ ((hfound _).mpr (by decide +kernel)) _ rfl).2 ?_]
    · decide +kernel
    · rintro ⟨text, htext⟩
      have hfib := htext ⟨"Conns".toList, "20000".toList, "fib".toList⟩ (by decide +kernel)
      have hfasthttp := htext ⟨"Conns".toList, "19998".toList, "fasthttp".toList⟩
        (by decide +kernel)
      exact absurd (hfib.trans hfasthttp.symm) (by decide)
  · exact (hvalue _ ((hfound _).mpr (by decide +kernel)) _ rfl).1 _ (by decide +kernel)

end Http3Bench.Benchreport
