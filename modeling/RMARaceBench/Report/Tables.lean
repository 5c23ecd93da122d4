import RMARaceBench.Generator.Combinations
import RMARaceBench.Report.Statistics

/-!
# The printed tables

The script body of `parse_results.py` on the table that `run_test.py` writes in the mode `tools`.
`parseResults_accepts_iff`: when the script prints every selected tool and every selected discipline that
has tests.
-/

set_option autoImplicit false

namespace Report

open Generator (Text Discipline)
open Runner

/-! ## `parse_results.py` -/

/-- `DataFrame.from_dict(rows, orient='index')`. It raises when one of the rows is `None`. -/
def fromDict {α : Type} (rows : List (Text × Option α)) : Option (List (Text × α)) :=
  rows.mapM fun x => x.2.map fun r => (x.1, r)

/-- `df.loc[df['discipline'] == discipline][tool]`. -/
def disciplineData (df : Table) (discipline tool : Text) : Option (List (Option Text)) := do
  let _ ← column df "discipline".toList
  let _ ← column df tool
  some ((df.items.filter fun x => x.2.get? "discipline".toList = some discipline).map
    fun x => x.2.get? tool)

def getToolTable (df : Table) (tool : Text) : Option (List (Text × Statistics)) := do
  let conflict ← getToolStatistics (← disciplineData df "conflict".toList tool)
  let sync ← getToolStatistics (← disciplineData df "sync".toList tool)
  let atomic ← getToolStatistics (← disciplineData df "atomic".toList tool)
  let hybrid ← getToolStatistics (← disciplineData df "hybrid".toList tool)
  let total ← getToolStatistics (← column df tool)
  fromDict [("Conflict".toList, conflict), ("Sync".toList, sync), ("Atomic".toList, atomic),
    ("Hybrid".toList, hybrid), ("Total".toList, total)]

/-- The two tables that are printed: the metrics of each tool, and for each tool the statistics of each
discipline. -/
structure Printed where
  metrics : List (Text × Metrics)
  tables : List (Text × List (Text × Statistics))

def derivedMetrics (df : Table) (tool : Text) : Option (Text × Option Metrics) := do
  let metrics ← getDerivedMetrics (← column df tool)
  some (tool, metrics)

def parseResults (df : Table) : Option Printed := do
  let metrics ← fromDict (← ["MUST".toList, "PARCOACH-dynamic".toList,
    "PARCOACH-static".toList].mapM (derivedMetrics df))
  let must ← getToolTable df "MUST".toList
  let dynamic ← getToolTable df "PARCOACH-dynamic".toList
  let static ← getToolTable df "PARCOACH-static".toList
  some ⟨metrics, [("MUST".toList, must), ("PARCOACH-dynamic".toList, dynamic),
    ("PARCOACH-static".toList, static)]⟩

/-! ## The mode `tools` of `run_test.py` -/

/-- The text of a discipline on the command line. -/
def name : Discipline → Text
  | .conflict => "conflict".toList
  | .sync => "sync".toList
  | .atomic => "atomic".toList
  | .hybrid => "hybrid".toList
  | .misc => "misc".toList

/-- The row of a discipline in the tables. -/
def rowName : Discipline → Text
  | .conflict => "Conflict".toList
  | .sync => "Sync".toList
  | .atomic => "Atomic".toList
  | .hybrid => "Hybrid".toList
  | .misc => "Misc".toList

/-- The selections on the command line, and the test files of each discipline. -/
structure Selection where
  tools : List Tool
  disciplines : List Discipline
  files : Discipline → List Test

namespace Selection

/-- The batches of the two loops. `env i j k` are the outcomes of the commands for test `k` in pass `j` over
the disciplines, for the tool at position `i`. -/
def batches (sel : Selection) (env : Nat → Nat → Nat → Nat → Outcome) : List Batch :=
  sel.tools.zipIdx.flatMap fun t => sel.disciplines.zipIdx.map fun d =>
    ⟨t.1, name d.1, (sel.files d.1).zipIdx.map fun x => (x.1, env t.2 d.2 x.2)⟩

/-- The discipline has a test with this basename. -/
def Has (sel : Selection) (t : Text) (d : Discipline) : Bool :=
  (sel.files d).any fun x => x.basename = t

/-- The last selected discipline that has a test with this basename. -/
def lastDiscipline (sel : Selection) (t : Text) : Option Discipline :=
  sel.disciplines.foldl (fun acc d => if sel.Has t d then some d else acc) none

end Selection

/-! ## The reader -/

/-- The table has a test of the discipline. -/
def HasRow (df : Table) (d : Discipline) : Prop :=
  ∃ x ∈ df.items, x.2.get? "discipline".toList = some (name d)

/-- The disciplines for which the reader has a row. -/
def tableDisciplines : List Discipline := [.conflict, .sync, .atomic, .hybrid]

theorem fromDict_eq_some {α : Type} {rows : List (Text × Option α)}
    (h : ∀ x ∈ rows, x.2.isSome = true) :
    ∃ l, fromDict rows = some l ∧ l.map Prod.fst = rows.map Prod.fst := by
  unfold fromDict
  induction rows with
  | nil => exact ⟨[], rfl, rfl⟩
  | cons x rows ih =>
    obtain ⟨l, hl, hm⟩ := ih fun y hy => h y (List.mem_cons_of_mem x hy)
    obtain ⟨r, hr⟩ := Option.isSome_iff_exists.1 (h x List.mem_cons_self)
    refine ⟨(x.1, r) :: l, ?_, by simp [hm]⟩
    rw [List.mapM_cons, hl, hr]
    rfl

theorem isSome_of_fromDict {α : Type} {rows : List (Text × Option α)} {l : List (Text × α)}
    (h : fromDict rows = some l) : ∀ x ∈ rows, x.2.isSome = true := by
  unfold fromDict at h
  induction rows generalizing l with
  | nil => simp
  | cons x rows ih =>
    rw [List.mapM_cons] at h
    obtain ⟨r, hr, h⟩ := Option.bind_eq_some_iff.1 h
    obtain ⟨l', hl', -⟩ := Option.bind_eq_some_iff.1 h
    intro y hy
    rw [List.mem_cons] at hy
    obtain rfl | hy := hy
    · obtain ⟨r', hr', -⟩ := Option.map_eq_some_iff.1 hr
      rw [hr']
      rfl
    · exact ih hl' y hy

theorem getToolStatistics_isSome (data : List (Option Text)) :
    ∃ o, getToolStatistics data = some o ∧ (o.isSome = true ↔ data ≠ []) := by
  by_cases h : data = []
  · exact ⟨none, by rw [h]; rfl, by simp [h]⟩
  · obtain ⟨s, -, hs, -⟩ := getToolStatistics_eq h
    exact ⟨some s, hs, by simp [h]⟩

/-- The rows that are selected for a discipline. -/
theorem disciplineData_eq {df : Table} {tool : Text} {d : Discipline}
    (hd : (column df "discipline".toList).isSome = true) (ht : (column df tool).isSome = true) :
    ∃ data, disciplineData df (name d) tool = some data ∧ (data ≠ [] ↔ HasRow df d) := by
  obtain ⟨ds, hds⟩ := Option.isSome_iff_exists.1 hd
  obtain ⟨ts, hts⟩ := Option.isSome_iff_exists.1 ht
  refine ⟨_, by rw [disciplineData, hds, hts]; rfl, ?_⟩
  rw [ne_eq, List.map_eq_nil_iff, List.filter_eq_nil_iff, HasRow]
  simp only [decide_eq_true_eq, not_forall, not_not, exists_prop]

theorem column_ne_nil {df : Table} {c : Text} {data : List (Option Text)}
    (h : column df c = some data) : data ≠ [] := by
  unfold column at h
  split at h
  · next ha =>
    obtain ⟨x, hx, -⟩ := List.any_eq_true.1 ha
    cases h
    intro he
    rw [List.map_eq_nil_iff] at he
    rw [he] at hx
    cases hx
  · cases h

theorem column_isSome_iff {df : Table} {c : Text} :
    (column df c).isSome = true ↔ ∃ t, (cell df t c).isSome = true := by
  unfold column cell
  constructor
  · intro h
    split at h
    · next ha =>
      obtain ⟨x, hx, hs⟩ := List.any_eq_true.1 ha
      exact ⟨x.1, by rw [Dict.mem_items_iff.1 hx]; exact hs⟩
    · cases h
  · intro h
    obtain ⟨t, ht⟩ := h
    cases hg : df.get? t with
    | none => simp [hg] at ht
    | some row =>
      rw [hg] at ht
      rw [if_pos (List.any_eq_true.2 ⟨(t, row), Dict.mem_items_iff.2 hg, ht⟩)]
      rfl

theorem hasRow_iff {df : Table} {d : Discipline} :
    HasRow df d ↔ ∃ t, cell df t "discipline".toList = some (name d) := by
  unfold HasRow cell
  constructor
  · intro h
    obtain ⟨x, hx, hd⟩ := h
    exact ⟨x.1, by rw [Dict.mem_items_iff.1 hx]; exact hd⟩
  · intro h
    obtain ⟨t, ht⟩ := h
    obtain ⟨row, hrow, hd⟩ := Option.bind_eq_some_iff.1 ht
    exact ⟨(t, row), Dict.mem_items_iff.2 hrow, hd⟩

theorem HasRow.column {df : Table} {d : Discipline} (h : HasRow df d) :
    (column df "discipline".toList).isSome = true := by
  obtain ⟨t, ht⟩ := hasRow_iff.1 h
  exact column_isSome_iff.2 ⟨t, by rw [ht]; rfl⟩

/-- The table of a tool needs the tool's column and a row for each discipline of the reader. -/
theorem getToolTable_eq_some {df : Table} {tool : Text} (ht : (column df tool).isSome = true)
    (hd : ∀ d ∈ tableDisciplines, HasRow df d) :
    ∃ rows, getToolTable df tool = some rows ∧
      rows.map Prod.fst = tableDisciplines.map rowName ++ ["Total".toList] := by
  have hcol : (column df "discipline".toList).isSome = true :=
    (hd .conflict (by decide)).column
  have hstat : ∀ d ∈ tableDisciplines, ∃ data o, disciplineData df (name d) tool = some data ∧
      getToolStatistics data = some o ∧ o.isSome = true := by
    intro d hm
    obtain ⟨data, hdata, hrow⟩ := disciplineData_eq (d := d) hcol ht
    obtain ⟨o, ho, hs⟩ := getToolStatistics_isSome data
    exact ⟨data, o, hdata, ho, hs.2 (hrow.2 (hd d hm))⟩
  obtain ⟨d1, o1, h1, e1, s1⟩ := hstat .conflict (by decide)
  obtain ⟨d2, o2, h2, e2, s2⟩ := hstat .sync (by decide)
  obtain ⟨d3, o3, h3, e3, s3⟩ := hstat .atomic (by decide)
  obtain ⟨d4, o4, h4, e4, s4⟩ := hstat .hybrid (by decide)
  obtain ⟨d5, h5⟩ := Option.isSome_iff_exists.1 ht
  obtain ⟨o5, e5, s5⟩ := getToolStatistics_isSome d5
  have hsome : ∀ x ∈ [("Conflict".toList, o1), ("Sync".toList, o2), ("Atomic".toList, o3),
      ("Hybrid".toList, o4), ("Total".toList, o5)], x.2.isSome = true := by
    intro x hx
    simp only [List.mem_cons, List.not_mem_nil, or_false] at hx
    obtain rfl | rfl | rfl | rfl | rfl := hx
    · exact s1
    · exact s2
    · exact s3
    · exact s4
    · exact s5.2 (column_ne_nil h5)
  obtain ⟨rows, hr, hm⟩ := fromDict_eq_some hsome
  refine ⟨rows, ?_, hm⟩
  unfold getToolTable
  rw [show disciplineData df "conflict".toList tool = some d1 from h1,
    show disciplineData df "sync".toList tool = some d2 from h2,
    show disciplineData df "atomic".toList tool = some d3 from h3,
    show disciplineData df "hybrid".toList tool = some d4 from h4, h5]
  simp only [Option.bind_eq_bind, Option.bind_some, e1, e2, e3, e4, e5]
  exact hr

theorem of_getToolTable {df : Table} {tool : Text} {rows : List (Text × Statistics)}
    (h : getToolTable df tool = some rows) :
    (column df tool).isSome = true ∧ ∀ d ∈ tableDisciplines, HasRow df d := by
  simp only [getToolTable, Option.bind_eq_bind, Option.bind_eq_some_iff] at h
  obtain ⟨d1, h1, o1, e1, d2, h2, o2, e2, d3, h3, o3, e3, d4, h4, o4, e4, d5, h5, o5, -, hf⟩ := h
  have hsome := isSome_of_fromDict hf
  have ht : (column df tool).isSome = true := by rw [h5]; rfl
  have hcol : (column df "discipline".toList).isSome = true := by
    unfold disciplineData at h1
    obtain ⟨ds, hds, -⟩ := Option.bind_eq_some_iff.1 h1
    rw [hds]
    rfl
  have hrow : ∀ {d : Discipline} {data : List (Option Text)} {o : Option Statistics},
      disciplineData df (name d) tool = some data → getToolStatistics data = some o →
        o.isSome = true → HasRow df d := by
    intro d data o hdata ho hs
    obtain ⟨data', hdata', hr⟩ := disciplineData_eq (d := d) hcol ht
    obtain rfl := Option.some.inj (hdata.symm.trans hdata')
    obtain ⟨o', ho', hs'⟩ := getToolStatistics_isSome data
    obtain rfl := Option.some.inj (ho.symm.trans ho')
    exact hr.1 (hs'.1 hs)
  refine ⟨ht, fun d hm => ?_⟩
  simp only [tableDisciplines, List.mem_cons, List.not_mem_nil, or_false] at hm
  obtain rfl | rfl | rfl | rfl := hm
  · exact hrow h1 e1 (hsome _ List.mem_cons_self)
  · exact hrow h2 e2 (hsome _ (List.mem_cons_of_mem _ List.mem_cons_self))
  · exact hrow h3 e3 (hsome _ (List.mem_cons_of_mem _ (List.mem_cons_of_mem _ List.mem_cons_self)))
  · exact hrow h4 e4 (hsome _ (List.mem_cons_of_mem _ (List.mem_cons_of_mem _
      (List.mem_cons_of_mem _ List.mem_cons_self))))

/-- The script succeeds on a table with a column for each tool and a row for each discipline of the
reader. -/
theorem parseResults_eq_some {df : Table} (ht : ∀ tool : Tool, (column df tool.name).isSome = true)
    (hd : ∀ d ∈ tableDisciplines, HasRow df d) :
    ∃ p, parseResults df = some p ∧ (∀ tool : Tool, tool.name ∈ p.metrics.map Prod.fst) ∧
      (∀ tool : Tool, tool.name ∈ p.tables.map Prod.fst) ∧
      ∀ table ∈ p.tables, table.2.map Prod.fst =
        tableDisciplines.map rowName ++ ["Total".toList] := by
  have hmetrics : ∀ tool : Tool, ∃ m, derivedMetrics df tool.name = some (tool.name, some m) := by
    intro tool
    obtain ⟨data, hdata⟩ := Option.isSome_iff_exists.1 (ht tool)
    obtain ⟨-, m, -, hm, -⟩ := getToolStatistics_eq (column_ne_nil hdata)
    refine ⟨m, ?_⟩
    unfold derivedMetrics
    rw [hdata]
    simp only [Option.bind_eq_bind, Option.bind_some, hm]
  obtain ⟨m1, hm1⟩ := hmetrics .MUST
  obtain ⟨m2, hm2⟩ := hmetrics .PARCOACHdynamic
  obtain ⟨m3, hm3⟩ := hmetrics .PARCOACHstatic
  obtain ⟨t1, h1, r1⟩ := getToolTable_eq_some (ht .MUST) hd
  obtain ⟨t2, h2, r2⟩ := getToolTable_eq_some (ht .PARCOACHdynamic) hd
  obtain ⟨t3, h3, r3⟩ := getToolTable_eq_some (ht .PARCOACHstatic) hd
  have hfrom : fromDict [(Tool.MUST.name, some m1), (Tool.PARCOACHdynamic.name, some m2),
      (Tool.PARCOACHstatic.name, some m3)] = some [(Tool.MUST.name, m1),
        (Tool.PARCOACHdynamic.name, m2), (Tool.PARCOACHstatic.name, m3)] := rfl
  have hmap : [Tool.MUST.name, Tool.PARCOACHdynamic.name, Tool.PARCOACHstatic.name].mapM
      (derivedMetrics df) = some [(Tool.MUST.name, some m1), (Tool.PARCOACHdynamic.name, some m2),
        (Tool.PARCOACHstatic.name, some m3)] := by
    rw [List.mapM_cons, hm1, List.mapM_cons, hm2, List.mapM_cons, hm3]
    rfl
  refine ⟨⟨[(Tool.MUST.name, m1), (Tool.PARCOACHdynamic.name, m2),
    (Tool.PARCOACHstatic.name, m3)], [(Tool.MUST.name, t1), (Tool.PARCOACHdynamic.name, t2),
    (Tool.PARCOACHstatic.name, t3)]⟩, ?_, ?_, ?_, ?_⟩
  · unfold parseResults
    rw [show ["MUST".toList, "PARCOACH-dynamic".toList, "PARCOACH-static".toList].mapM
        (derivedMetrics df) = _ from hmap, Option.bind_eq_bind, Option.bind_some, hfrom,
      Option.bind_eq_bind, Option.bind_some, show getToolTable df "MUST".toList = some t1 from h1,
      Option.bind_eq_bind, Option.bind_some,
      show getToolTable df "PARCOACH-dynamic".toList = some t2 from h2, Option.bind_some,
      show getToolTable df "PARCOACH-static".toList = some t3 from h3]
    rfl
  · intro tool
    cases tool with
    | MUST => exact List.mem_cons_self
    | PARCOACHdynamic => exact List.mem_cons_of_mem _ List.mem_cons_self
    | PARCOACHstatic => exact List.mem_cons_of_mem _ (List.mem_cons_of_mem _ List.mem_cons_self)
  · intro tool
    cases tool with
    | MUST => exact List.mem_cons_self
    | PARCOACHdynamic => exact List.mem_cons_of_mem _ List.mem_cons_self
    | PARCOACHstatic => exact List.mem_cons_of_mem _ (List.mem_cons_of_mem _ List.mem_cons_self)
  · intro table hm
    simp only [List.mem_cons, List.not_mem_nil, or_false] at hm
    obtain rfl | rfl | rfl := hm
    · exact r1
    · exact r2
    · exact r3

theorem of_parseResults {df : Table} {p : Printed} (h : parseResults df = some p) :
    (∀ tool : Tool, (column df tool.name).isSome = true) ∧
      ∀ d ∈ tableDisciplines, HasRow df d := by
  simp only [parseResults, Option.bind_eq_bind, Option.bind_eq_some_iff] at h
  obtain ⟨-, -, -, -, t1, h1, t2, h2, t3, h3, -⟩ := h
  refine ⟨fun tool => ?_, (of_getToolTable h1).2⟩
  cases tool with
  | MUST => exact (of_getToolTable h1).1
  | PARCOACHdynamic => exact (of_getToolTable h2).1
  | PARCOACHstatic => exact (of_getToolTable h3).1

/-! ## The writer -/

namespace Selection

variable (sel : Selection) (env : Nat → Nat → Nat → Nat → Outcome)

/-- The last discipline in a list that has a test with this basename, or else `acc`. -/
theorem foldl_lastDiscipline {β : Type} (p : β → Bool) (f : β → Text) (l : List β)
    (acc : Option Text) :
    l.foldl (fun acc b => if p b then some (f b) else acc) acc =
      ((l.foldl (fun acc b => if p b then some b else acc) none).map f).or acc := by
  have hor : ∀ (l : List β) (acc : Option β),
      l.foldl (fun acc b => if p b then some b else acc) acc =
        (l.foldl (fun acc b => if p b then some b else acc) none).or acc := by
    intro l
    induction l with
    | nil => intro acc; rfl
    | cons b l ih =>
      intro acc
      rw [List.foldl_cons, List.foldl_cons, ih, ih (if p b = true then some b else none)]
      cases p b <;> simp
  induction l generalizing acc with
  | nil => rfl
  | cons b l ih =>
    rw [List.foldl_cons, List.foldl_cons, ih, hor l (if p b = true then some b else none)]
    cases p b with
    | true => cases l.foldl (fun acc b => if p b then some b else acc) none <;> rfl
    | false => simp

theorem foldl_const_or {α β : Type} (x : Option α) (l : List β) (acc : Option α) :
    l.foldl (fun acc _ => x.or acc) acc = if l = [] then acc else x.or acc := by
  induction l generalizing acc with
  | nil => rfl
  | cons b l ih =>
    rw [List.foldl_cons, ih, if_neg (List.cons_ne_nil b l)]
    split
    · rfl
    · cases x <;> rfl

theorem foldl_zipIdx {α β : Type} (f : β → α → β) (l : List α) (acc : β) :
    l.zipIdx.foldl (fun acc x => f acc x.1) acc = l.foldl f acc := by
  conv => rhs; rw [← List.zipIdx_map_fst 0 l]
  rw [List.foldl_map]

theorem exists_zipIdx_of_mem {α : Type} {l : List α} {a : α} (h : a ∈ l) :
    ∃ x ∈ l.zipIdx, x.1 = a := by
  rw [← List.zipIdx_map_fst 0 l, List.mem_map] at h
  exact h

/-- The discipline that the table shows for a test. -/
theorem cell_discipline (pre t : Text) :
    cell (appendAll .empty (appended pre (sel.batches env))) t "discipline".toList =
      if sel.tools = [] then none else (sel.lastDiscipline t).map name := by
  have htest : ∀ (d : Discipline) (i j : Nat),
      (t ∈ ((sel.files d).zipIdx.map fun x => (x.1, env i j x.2)).map fun x => x.1.basename) ↔
        sel.Has t d = true := by
    intro d i j
    rw [List.map_map, show ((fun x : Test × (Nat → Outcome) => x.1.basename) ∘
      fun x : Test × Nat => (x.1, env i j x.2)) = Test.basename ∘ Prod.fst from rfl, ← List.map_map,
      List.zipIdx_map_fst, Has, List.mem_map, List.any_eq_true]
    simp only [decide_eq_true_eq]
  rw [cell_discipline_appended]
  unfold batches
  simp only [List.foldl_flatMap, List.foldl_map, htest]
  rw [show cell .empty t "discipline".toList = none from rfl,
    foldl_zipIdx (fun acc _ => sel.disciplines.zipIdx.foldl (fun acc x =>
      if sel.Has t x.1 = true then some (name x.1) else acc) acc)]
  have hpass : ∀ acc : Option Text, sel.disciplines.zipIdx.foldl (fun acc x =>
      if sel.Has t x.1 = true then some (name x.1) else acc) acc =
        ((sel.lastDiscipline t).map name).or acc := by
    intro acc
    rw [foldl_zipIdx (fun acc d => if sel.Has t d = true then some (name d) else acc),
      foldl_lastDiscipline]
    rfl
  simp only [hpass]
  rw [foldl_const_or, Option.or_none]

/-- A selected discipline has tests. -/
def HasTests (d : Discipline) : Prop := d ∈ sel.disciplines ∧ sel.files d ≠ []

theorem mem_batches {b : Batch} : b ∈ sel.batches env ↔ ∃ t ∈ sel.tools.zipIdx,
    ∃ d ∈ sel.disciplines.zipIdx,
      ⟨t.1, name d.1, (sel.files d.1).zipIdx.map fun x => (x.1, env t.2 d.2 x.2)⟩ = b := by
  unfold batches
  rw [List.mem_flatMap]
  simp only [List.mem_map]

/-- A tool has a cell for each test of its batches. -/
theorem cell_tool_isSome_iff (pre : Text) (tool : Tool) (t : Text) :
    (cell (appendAll .empty (appended pre (sel.batches env))) t tool.name).isSome = true ↔
      ∃ b ∈ sel.batches env, b.tool = tool ∧ ∃ x ∈ b.tests, x.1.basename = t := by
  have hm : t ∈ (ofTool tool (appended pre (sel.batches env))).map Prod.fst ↔
      ∃ b ∈ sel.batches env, b.tool = tool ∧ ∃ x ∈ b.tests, x.1.basename = t := by
    rw [ofTool_appended_names, List.mem_flatMap]
    simp only [List.mem_filter, decide_eq_true_eq, List.mem_map, and_assoc]
  rw [← hm]
  constructor
  · intro h
    by_contra hn
    rw [cell_appendAll_of_not_mem hn] at h
    cases h
  · intro h
    exact cell_appendAll_isSome h _

/-- The table has a column for a tool if the tool is selected and some selected discipline has a test. -/
theorem column_tool_iff (pre : Text) (tool : Tool) :
    (column (appendAll .empty (appended pre (sel.batches env))) tool.name).isSome = true ↔
      tool ∈ sel.tools ∧ ∃ d, sel.HasTests d := by
  rw [column_isSome_iff]
  simp only [sel.cell_tool_isSome_iff env]
  constructor
  · intro h
    obtain ⟨t, b, hb, rfl, x, hx, -⟩ := h
    obtain ⟨tl, htl, d, hd, rfl⟩ := (sel.mem_batches env).1 hb
    refine ⟨List.fst_mem_of_mem_zipIdx htl, d.1, List.fst_mem_of_mem_zipIdx hd, ?_⟩
    intro he
    rw [he] at hx
    cases hx
  · intro h
    obtain ⟨htool, d, hd, hf⟩ := h
    obtain ⟨x, hx⟩ := List.exists_mem_of_ne_nil _ hf
    obtain ⟨tl, htl, rfl⟩ := exists_zipIdx_of_mem htool
    obtain ⟨dj, hdj, rfl⟩ := exists_zipIdx_of_mem hd
    obtain ⟨xk, hxk, rfl⟩ := exists_zipIdx_of_mem hx
    exact ⟨xk.1.basename, _, (sel.mem_batches env).2 ⟨tl, htl, dj, hdj, rfl⟩, rfl, _,
      List.mem_map.2 ⟨xk, hxk, rfl⟩, rfl⟩

theorem name_inj {d d' : Discipline} : name d = name d' ↔ d = d' := by
  constructor
  · cases d <;> cases d' <;> decide
  · intro h
    rw [h]

theorem hasRow_writer_iff (pre : Text) (d : Discipline) :
    HasRow (appendAll .empty (appended pre (sel.batches env))) d ↔
      sel.tools ≠ [] ∧ ∃ t, sel.lastDiscipline t = some d := by
  rw [hasRow_iff]
  simp only [cell_discipline]
  by_cases h : sel.tools = []
  · simp only [h, if_true, ne_eq, not_true_eq_false, false_and, iff_false]
    intro hn
    obtain ⟨t, ht⟩ := hn
    cases ht
  · simp only [h, if_false, ne_eq, not_false_eq_true, true_and, Option.map_eq_some_iff, name_inj,
      exists_eq_right]

/-- The last discipline is selected and has the test. -/
theorem has_of_lastDiscipline {t : Text} {d : Discipline} (h : sel.lastDiscipline t = some d) :
    d ∈ sel.disciplines ∧ sel.Has t d = true := by
  have hall : ∀ (l : List Discipline) (acc : Option Discipline),
      l.foldl (fun acc d => if sel.Has t d then some d else acc) acc = some d →
        acc = some d ∨ d ∈ l ∧ sel.Has t d = true := by
    intro l
    induction l with
    | nil => intro acc ha; exact .inl ha
    | cons d' l ih =>
      intro acc ha
      rw [List.foldl_cons] at ha
      obtain ha | ⟨hm, hd⟩ := ih _ ha
      · split at ha
        · next hd =>
          cases ha
          exact .inr ⟨List.mem_cons_self, hd⟩
        · exact .inl ha
      · exact .inr ⟨List.mem_cons_of_mem d' hm, hd⟩
  obtain hn | h := hall sel.disciplines none h
  · cases hn
  · exact h

theorem hasTests_of_lastDiscipline {t : Text} {d : Discipline}
    (h : sel.lastDiscipline t = some d) : sel.HasTests d := by
  obtain ⟨hm, hd⟩ := sel.has_of_lastDiscipline h
  refine ⟨hm, fun he => ?_⟩
  rw [Has, he] at hd
  cases hd

/-! ## What the reader accepts -/

/-- The script succeeds, and every selected tool and every selected discipline with tests is printed. -/
def Accepted (df : Table) : Prop :=
  ∃ p, parseResults df = some p ∧
    (∀ tool ∈ sel.tools, tool.name ∈ p.metrics.map Prod.fst ∧ tool.name ∈ p.tables.map Prod.fst) ∧
    ∀ d, sel.HasTests d → ∀ table ∈ p.tables, rowName d ∈ table.2.map Prod.fst

/-- Every tool is selected, every discipline of the reader has a test that no later discipline overwrites,
and `misc` is not run. -/
structure Complete : Prop where
  tools : ∀ tool : Tool, tool ∈ sel.tools
  disciplines : ∀ d ∈ tableDisciplines, ∃ t, sel.lastDiscipline t = some d
  no_misc : ¬ sel.HasTests .misc

theorem rowName_mem_iff {d : Discipline} :
    rowName d ∈ tableDisciplines.map rowName ++ ["Total".toList] ↔ d ≠ .misc := by
  cases d <;> decide

theorem accepted_iff_complete (pre : Text) :
    sel.Accepted (appendAll .empty (appended pre (sel.batches env))) ↔ sel.Complete := by
  constructor
  · intro h
    obtain ⟨p, hp, -, hd⟩ := h
    obtain ⟨hcol, hrow⟩ := of_parseResults hp
    have hrow' := fun d hm => (sel.hasRow_writer_iff env pre d).1 (hrow d hm)
    refine ⟨fun tool => ((sel.column_tool_iff env pre tool).1 (hcol tool)).1,
      fun d hm => (hrow' d hm).2, fun hmisc => ?_⟩
    obtain ⟨p', hp', -, ht, hrows⟩ := parseResults_eq_some hcol hrow
    obtain rfl := Option.some.inj (hp.symm.trans hp')
    obtain ⟨table, htable, -⟩ := List.mem_map.1 (ht .MUST)
    have hm := hd .misc hmisc table htable
    rw [hrows table htable, rowName_mem_iff] at hm
    exact hm rfl
  · intro h
    obtain ⟨t, ht⟩ := h.disciplines .conflict (by decide)
    have hcol := fun tool => (sel.column_tool_iff env pre tool).2
      ⟨h.tools tool, _, sel.hasTests_of_lastDiscipline ht⟩
    have hrow := fun d hm => (sel.hasRow_writer_iff env pre d).2
      ⟨List.ne_nil_of_mem (h.tools .MUST), h.disciplines d hm⟩
    obtain ⟨p, hp, hm, ht, hrows⟩ := parseResults_eq_some hcol hrow
    refine ⟨p, hp, fun tool _ => ⟨hm tool, ht tool⟩, fun d hd table htable => ?_⟩
    rw [hrows table htable, rowName_mem_iff]
    intro he
    exact h.no_misc (he ▸ hd)

end Selection

/-- The table that the runs of a selection leave is accepted if and only if the selection is complete. -/
theorem parseResults_accepts_iff (sel : Selection) (env : Nat → Nat → Nat → Nat → Outcome)
    (pre : Text) : ∃ df, runBatches pre (sel.batches env) .empty = some df ∧
      (sel.Accepted df ↔ sel.Complete) :=
  ⟨_, runBatches_eq pre _ _, sel.accepted_iff_complete env pre⟩

/-- Only MUST is selected, for one test of the discipline `conflict`. -/
def onlyMust : Selection where
  tools := [.MUST]
  disciplines := [.conflict]
  files := fun _ => [⟨"a.c".toList, "none".toList, 0, 0, 2⟩]

theorem onlyMust_not_accepted :
    ¬ ∃ df, runBatches [] (onlyMust.batches fun _ _ _ _ => .exit 0 []) .empty = some df ∧
      onlyMust.Accepted df := by
  intro h
  obtain ⟨df, hdf, ha⟩ := h
  rw [runBatches_eq] at hdf
  obtain rfl := Option.some.inj hdf
  have hc := (onlyMust.accepted_iff_complete _ _).1 ha
  exact absurd (hc.tools .PARCOACHstatic) (by decide)

end Report
