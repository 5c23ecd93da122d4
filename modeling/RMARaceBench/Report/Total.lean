import RMARaceBench.Report.Tables
import RMARaceBench.Runner.Merge

/-!
# The row `Total`

`get_tool_table` filters the column of a tool for the rows of four disciplines, and takes the whole column
for the row `Total`.

* `totalIsSum_iff`: on any data frame, the total is the sum of the other rows when no test outside of the
  four disciplines has a counted result.
* `totalIsSum_selection_iff`: which selections leave such a data frame.
-/

set_option autoImplicit false

namespace Report

open Generator (Text Discipline)
open Generator.Text (isIn)
open Runner

/-- The entries of a row that count tests, each with the result that it counts. -/
def entries : List ((Statistics → Nat) × Result) :=
  [(Statistics.TP, .TP), (Statistics.FP, .FP), (Statistics.TN, .TN), (Statistics.FN, .FN),
    (Statistics.TO, .TO)]

/-- The sum of an entry over the rows of the disciplines. -/
def entrySum (rows : List (Text × Statistics)) (entry : Statistics → Nat) : Nat :=
  (rows.filter fun x => x.1 ≠ "Total".toList).foldl (fun n x => n + entry x.2) 0

/-- Every entry of the row `Total` is the sum over the other rows. -/
def TotalIsSum (rows : List (Text × Statistics)) : Prop :=
  ∃ total, ("Total".toList, total) ∈ rows ∧ ∀ e ∈ entries, e.1 total = entrySum rows e.1

/-! ## Counting by kind -/

theorem countP_by_kind {α κ : Type} [DecidableEq κ] (q : α → Bool) (kind : α → κ) {ks : List κ}
    (hk : ks.Nodup) (l : List α) (n : Nat) :
    ks.foldl (fun n k => n + l.countP fun a => kind a = k ∧ q a = true) n +
      l.countP (fun a => kind a ∉ ks ∧ q a = true) = n + l.countP q := by
  induction ks generalizing n with
  | nil => simp
  | cons k ks ih =>
    rw [List.nodup_cons] at hk
    have hrest := ih hk.2 (n + l.countP fun a => kind a = k ∧ q a = true)
    rw [List.foldl_cons]
    -- what is of no kind in `ks` is of the kind `k` or of none
    have hsplit : (l.countP fun a => kind a = k ∧ q a = true) +
        l.countP (fun a => kind a ∉ k :: ks ∧ q a = true) =
          l.countP fun a => kind a ∉ ks ∧ q a = true := by
      refine countP_add fun a _ => ?_
      simp only [decide_eq_true_eq, List.mem_cons, not_or]
      by_cases ha : kind a = k
      · subst ha
        simp [hk.1]
      · simp [ha]
    omega

/-- The counts of the kinds add up when everything that is counted is of one of the kinds. -/
theorem countP_kinds_iff {α κ : Type} [DecidableEq κ] (q : α → Bool) (kind : α → κ) {ks : List κ}
    (hk : ks.Nodup) (l : List α) :
    l.countP q = ks.foldl (fun n k => n + l.countP fun a => kind a = k ∧ q a = true) 0 ↔
      ∀ a ∈ l, q a = true → kind a ∈ ks := by
  have hsum := countP_by_kind q kind hk l 0
  have hrest : l.countP (fun a => kind a ∉ ks ∧ q a = true) = 0 ↔
      ∀ a ∈ l, q a = true → kind a ∈ ks := by
    rw [List.countP_eq_zero]
    refine forall₂_congr fun a _ => ?_
    simp only [decide_eq_true_eq, not_and, not_imp_not]
  rw [← hrest]
  omega

/-! ## The rows of a table -/

/-- The entries of a row, on the data that it was computed from. -/
def Counts (s : Statistics) (data : List (Option Text)) : Prop :=
  ∀ e ∈ entries, e.1 s = data.count (some e.2.value)

theorem counts_of_getToolStatistics {data : List (Option Text)} {s : Statistics}
    (h : getToolStatistics data = some (some s)) : Counts s data := by
  have hne : data ≠ [] := by
    intro he
    rw [he] at h
    cases h
  obtain ⟨s', -, hs', -, ⟨htp, hfp, htn, hfn, hto⟩, -, -⟩ := getToolStatistics_eq hne
  obtain rfl := Option.some.inj (Option.some.inj (h.symm.trans hs'))
  intro e he
  simp only [entries, List.mem_cons, List.not_mem_nil, or_false] at he
  obtain rfl | rfl | rfl | rfl | rfl := he
  · exact htp
  · exact hfp
  · exact htn
  · exact hfn
  · exact hto

/-- The cells of a tool in the rows of a discipline. -/
def ofDiscipline (df : Table) (tool : Text) (d : Discipline) : List (Option Text) :=
  (df.items.filter fun x => x.2.get? "discipline".toList = some (name d)).map fun x => x.2.get? tool

theorem eq_of_disciplineData {df : Table} {tool : Text} {d : Discipline}
    {data : List (Option Text)} (h : disciplineData df (name d) tool = some data) :
    data = ofDiscipline df tool d := by
  unfold disciplineData at h
  obtain ⟨-, -, h⟩ := Option.bind_eq_some_iff.1 h
  obtain ⟨-, -, h⟩ := Option.bind_eq_some_iff.1 h
  exact (Option.some.inj h).symm

theorem eq_of_column {df : Table} {c : Text} {data : List (Option Text)}
    (h : column df c = some data) : data = df.items.map fun x => x.2.get? c := by
  unfold column at h
  split at h
  · exact (Option.some.inj h).symm
  · cases h

/-- A table has a row for each discipline of the reader and the row `Total`. -/
theorem rows_of_getToolTable {df : Table} {tool : Text} {rows : List (Text × Statistics)}
    (h : getToolTable df tool = some rows) :
    ∃ (s : Discipline → Statistics) (total : Statistics),
      rows = tableDisciplines.map (fun d => (rowName d, s d)) ++ [("Total".toList, total)] ∧
      (∀ d ∈ tableDisciplines, Counts (s d) (ofDiscipline df tool d)) ∧
      Counts total (df.items.map fun x => x.2.get? tool) := by
  simp only [getToolTable, Option.bind_eq_bind, Option.bind_eq_some_iff] at h
  obtain ⟨d1, h1, o1, e1, d2, h2, o2, e2, d3, h3, o3, e3, d4, h4, o4, e4, d5, h5, o5, e5, hf⟩ := h
  have hsome := isSome_of_fromDict hf
  simp only [List.forall_mem_cons, List.not_mem_nil, Option.isSome_iff_exists] at hsome
  obtain ⟨⟨s1, rfl⟩, ⟨s2, rfl⟩, ⟨s3, rfl⟩, ⟨s4, rfl⟩, ⟨s5, rfl⟩, -⟩ := hsome
  refine ⟨fun d => Discipline.casesOn (motive := fun _ => Statistics) d s1 s2 s3 s4 s5, s5,
    (Option.some.inj hf).symm, ?_, ?_⟩
  · intro d hd
    simp only [tableDisciplines, List.mem_cons, List.not_mem_nil, or_false] at hd
    obtain rfl | rfl | rfl | rfl := hd
    · exact eq_of_disciplineData (d := .conflict) h1 ▸ counts_of_getToolStatistics e1
    · exact eq_of_disciplineData (d := .sync) h2 ▸ counts_of_getToolStatistics e2
    · exact eq_of_disciplineData (d := .atomic) h3 ▸ counts_of_getToolStatistics e3
    · exact eq_of_disciplineData (d := .hybrid) h4 ▸ counts_of_getToolStatistics e4
  · exact eq_of_column h5 ▸ counts_of_getToolStatistics e5

theorem count_map_eq {α : Type} (f : α → Option Text) (v : Text) (l : List α) :
    (l.map f).count (some v) = l.countP fun x => f x = some v := by
  rw [List.count_eq_countP, List.countP_map]
  refine List.countP_congr fun x _ => ?_
  simp

theorem count_ofDiscipline (df : Table) (tool : Text) (d : Discipline) (v : Text) :
    (ofDiscipline df tool d).count (some v) = df.items.countP fun x =>
      x.2.get? "discipline".toList = some (name d) ∧
        decide (x.2.get? tool = some v) = true := by
  unfold ofDiscipline
  generalize "discipline".toList = c
  generalize some (name d) = k
  rw [count_map_eq, List.countP_filter]
  refine List.countP_congr fun x _ => ?_
  simp only [Bool.and_eq_true, decide_eq_true_eq, and_comm]

/-- The texts by which the reader selects its rows. -/
def kinds : List (Option Text) := tableDisciplines.map fun d => some (name d)

theorem rowName_ne_total (d : Discipline) : rowName d ≠ "Total".toList := by
  cases d <;> decide

theorem entrySum_eq (s : Discipline → Statistics) (total : Statistics)
    (entry : Statistics → Nat) :
    entrySum (tableDisciplines.map (fun d => (rowName d, s d)) ++ [("Total".toList, total)]) entry =
      tableDisciplines.foldl (fun n d => n + entry (s d)) 0 := by
  have hrows : ∀ x ∈ tableDisciplines.map (fun d => (rowName d, s d)),
      decide (x.1 ≠ "Total".toList) = true := by
    intro x hx
    obtain ⟨d, -, rfl⟩ := List.mem_map.1 hx
    exact decide_eq_true (rowName_ne_total d)
  unfold entrySum
  rw [List.filter_append, List.filter_eq_self.2 hrows, List.filter_singleton,
    decide_eq_false (not_not_intro rfl), cond_false, List.append_nil, List.foldl_map]

/-- The total is the sum when every counted result is in the row of a discipline. -/
theorem totalIsSum_iff {df : Table} {tool : Text} {rows : List (Text × Statistics)}
    (h : getToolTable df tool = some rows) :
    TotalIsSum rows ↔ ∀ x ∈ df.items, ∀ e ∈ entries, x.2.get? tool = some e.2.value →
      x.2.get? "discipline".toList ∈ kinds := by
  obtain ⟨s, total, rfl, hs, htotal⟩ := rows_of_getToolTable h
  have hmem : ∀ {t : Statistics}, ("Total".toList, t) ∈
      tableDisciplines.map (fun d => (rowName d, s d)) ++ [("Total".toList, total)] ↔
        t = total := by
    intro t
    rw [List.mem_append, List.mem_singleton, Prod.mk.injEq, or_iff_right]
    · exact ⟨fun h => h.2, fun h => ⟨rfl, h⟩⟩
    · intro hm
      obtain ⟨d, -, hd⟩ := List.mem_map.1 hm
      exact rowName_ne_total d (Prod.ext_iff.1 hd).1
  have hentry : ∀ e ∈ entries, e.1 total = entrySum (tableDisciplines.map (fun d =>
      (rowName d, s d)) ++ [("Total".toList, total)]) e.1 ↔
        ∀ x ∈ df.items, x.2.get? tool = some e.2.value → x.2.get? "discipline".toList ∈ kinds := by
    intro e he
    have hsum : tableDisciplines.foldl (fun n d => n + e.1 (s d)) 0 =
        kinds.foldl (fun n k => n + df.items.countP fun x =>
          x.2.get? "discipline".toList = k ∧ decide (x.2.get? tool = some e.2.value) = true) 0 := by
      unfold kinds
      rw [List.foldl_map]
      refine List.foldl_ext _ _ 0 fun n d hd => ?_
      rw [hs d hd e he, count_ofDiscipline]
    rw [entrySum_eq, hsum, htotal e he, count_map_eq]
    refine (countP_kinds_iff (fun x : Text × Dict Text Text => x.2.get? tool = some e.2.value)
      (fun x => x.2.get? "discipline".toList) (show kinds.Nodup by decide) df.items).trans ?_
    simp only [decide_eq_true_eq]
  unfold TotalIsSum
  simp only [hmem, exists_eq_left]
  constructor
  · intro h x hx e he
    exact (hentry e he).1 (h e he) x hx
  · intro h e he
    exact (hentry e he).2 fun x hx => h x hx e he

/-! ## The table of a selection -/

theorem Tool.runs_congr {tool : Tool} {t t' : Test} (h : t.basename = t'.basename) :
    tool.runs t = tool.runs t' := by
  cases tool with
  | MUST => rfl
  | PARCOACHdynamic => rfl
  | PARCOACHstatic => exact congrArg (fun n => !isIn "remote".toList n) h

/-- A tool's result counts exactly for the tests that it runs. -/
theorem parse_counted_iff {tool : Tool} {pre category : Text} {x : Test × (Nat → Outcome)}
    {r : Result} (h : tool.parse (ranTest tool pre category x) = some r) :
    (∃ e ∈ entries, e.2 = r) ↔ tool.runs x.1 = true := by
  have ht := ranTest_test tool pre category x
  obtain ⟨r', hr, hc⟩ := parse_classified tool pre category x
  obtain rfl := Option.some.inj (h.symm.trans hr)
  constructor
  · intro he
    obtain ⟨e, he, rfl⟩ := he
    by_contra hn
    rw [Tool.parse_unsupported (by rw [ht]; simpa using hn)] at h
    have hno : ∀ e ∈ entries, e.2 ≠ .NOSUPPORT := by decide
    exact hno e he (Option.some.inj h).symm
  · intro hruns
    cases hc with
    | unsupported hs => rw [hruns] at hs; cases hs
    | timeout => exact ⟨(Statistics.TO, .TO), by simp [entries], rfl⟩
    | racy _ _ _ h =>
      obtain rfl | rfl := h
      · exact ⟨(Statistics.TP, .TP), by simp [entries], rfl⟩
      · exact ⟨(Statistics.FN, .FN), by simp [entries], rfl⟩
    | clean _ _ _ h =>
      obtain rfl | rfl := h
      · exact ⟨(Statistics.TN, .TN), by simp [entries], rfl⟩
      · exact ⟨(Statistics.FP, .FP), by simp [entries], rfl⟩

/-- A cell of a tool's column is what the tool made of a test with this name. -/
theorem result_of_cell {pre : Text} {bs : List Batch} {tool : Tool} {t v : Text}
    (h : cell (appendAll .empty (appended pre bs)) t tool.name = some v) :
    ∃ b ∈ bs, b.tool = tool ∧ ∃ x ∈ b.tests, x.1.basename = t ∧
      ∃ r, v = r.value ∧ ((∃ e ∈ entries, e.2 = r) ↔ tool.runs x.1 = true) := by
  by_cases hw : ∃ a ∈ appended pre bs, ∃ v, a.Writes t tool.name v
  · obtain ⟨a, ha, v', hv, hc⟩ := cell_appendAll_of_writes hw .empty
    obtain rfl := Option.some.inj (hc.symm.trans h)
    obtain ⟨b, hb, ha⟩ := List.mem_flatMap.1 ha
    obtain ⟨r, hr, rfl⟩ := List.mem_map.1 ha
    obtain ⟨x, hx, hr⟩ := List.mem_filterMap.1 hr
    obtain ⟨y, hy, rfl⟩ := Option.map_eq_some_iff.1 hr
    obtain ⟨c, hcol⟩ : ∃ c, c = tool.name := ⟨_, rfl⟩
    rw [← hcol] at hv
    cases hv with
    | discipline => exact absurd hcol.symm tool.name_ne_discipline
    | result =>
      obtain rfl := Tool.name_inj.1 hcol
      exact ⟨b, hb, rfl, x, hx, rfl, y, rfl, parse_counted_iff hy⟩
  · rw [cell_appendAll_of_not_writes fun a ha v hv => hw ⟨a, ha, v, hv⟩] at h
    cases h

namespace Selection

variable (sel : Selection) (env : Nat → Nat → Nat → Nat → Outcome)

theorem lastDiscipline_isSome {t : Text} {d : Discipline} (hd : d ∈ sel.disciplines)
    (ht : sel.Has t d = true) : (sel.lastDiscipline t).isSome = true := by
  have hall : ∀ (l : List Discipline) (acc : Option Discipline), acc.isSome = true ∨ d ∈ l →
      (l.foldl (fun acc d => if sel.Has t d then some d else acc) acc).isSome = true := by
    intro l
    induction l with
    | nil =>
      intro acc h
      exact h.elim id (fun hm => absurd hm List.not_mem_nil)
    | cons d' l ih =>
      intro acc h
      refine ih _ ?_
      beta_reduce
      obtain h | h := h
      · exact .inl (by split <;> simp [h])
      · obtain rfl | h := List.mem_cons.1 h
        · exact .inl (by rw [if_pos ht]; rfl)
        · exact .inr h
  exact hall sel.disciplines none (.inr hd)

/-- The test of a batch is one of a selected discipline. -/
theorem test_of_batch {b : Batch} (hb : b ∈ sel.batches env) {x : Test × (Nat → Outcome)}
    (hx : x ∈ b.tests) : ∃ d ∈ sel.disciplines, x.1 ∈ sel.files d := by
  obtain ⟨tl, -, d, hd, rfl⟩ := (sel.mem_batches env).1 hb
  obtain ⟨y, hy, rfl⟩ := List.mem_map.1 hx
  exact ⟨d.1, List.fst_mem_of_mem_zipIdx hd, List.fst_mem_of_mem_zipIdx hy⟩

/-- The tool is selected, no row of the reader is missing, and the tool runs no test whose row shows the
discipline `misc`. -/
structure Summed (tool : Tool) : Prop where
  selected : tool ∈ sel.tools
  disciplines : ∀ d ∈ tableDisciplines, ∃ t, sel.lastDiscipline t = some d
  misc : ∀ x ∈ sel.files .misc, sel.lastDiscipline x.basename = some .misc → tool.runs x = false

theorem has_iff {t : Text} {d : Discipline} :
    sel.Has t d = true ↔ ∃ x ∈ sel.files d, x.basename = t := by
  unfold Has
  simp only [List.any_eq_true, decide_eq_true_eq]

theorem mem_kinds_iff {d : Discipline} : some (name d) ∈ kinds ↔ d ≠ .misc := by
  cases d <;> decide

theorem totalIsSum_of_summed (pre : Text) {tool : Tool} (h : sel.Summed tool) :
    ∃ rows, getToolTable (appendAll .empty (appended pre (sel.batches env))) tool.name = some rows ∧
      TotalIsSum rows := by
  have htools : sel.tools ≠ [] := List.ne_nil_of_mem h.selected
  obtain ⟨t, ht⟩ := h.disciplines .conflict (by decide)
  obtain ⟨rows, hrows, -⟩ := getToolTable_eq_some
    ((sel.column_tool_iff env pre tool).2 ⟨h.selected, _, sel.hasTests_of_lastDiscipline ht⟩)
    (fun d hd => (sel.hasRow_writer_iff env pre d).2 ⟨htools, h.disciplines d hd⟩)
  refine ⟨rows, hrows, (totalIsSum_iff hrows).2 fun x hx e he hv => ?_⟩
  have hrow := Dict.mem_items_iff.1 hx
  have hcell : cell (appendAll .empty (appended pre (sel.batches env))) x.1 tool.name =
      some e.2.value := by
    rw [cell, hrow]
    exact hv
  have hdisc := sel.cell_discipline env pre x.1
  rw [if_neg htools, cell, hrow] at hdisc
  obtain ⟨b, hb, -, y, hy, hyt, r, hr, hcount⟩ := result_of_cell hcell
  have hruns : tool.runs y.1 = true := hcount.1 ⟨e, he, Result.value_inj.1 hr⟩
  obtain ⟨d, hd, hf⟩ := sel.test_of_batch env hb hy
  obtain ⟨d', hd'⟩ := Option.isSome_iff_exists.1
    (sel.lastDiscipline_isSome hd (sel.has_iff.2 ⟨y.1, hf, hyt⟩))
  rw [hd'] at hdisc
  rw [show x.2.get? "discipline".toList = some (name d') from hdisc, mem_kinds_iff]
  rintro rfl
  -- the row shows `misc`, so a test of `misc` has this name, and the tool does not run it
  obtain ⟨-, hm⟩ := sel.has_of_lastDiscipline hd'
  obtain ⟨z, hz, hzt⟩ := sel.has_iff.1 hm
  have hnot := h.misc z hz (hzt ▸ hd')
  rw [Tool.runs_congr (hyt.trans hzt.symm), hnot] at hruns
  cases hruns

theorem summed_of_totalIsSum (pre : Text) {tool : Tool} {rows : List (Text × Statistics)}
    (h : getToolTable (appendAll .empty (appended pre (sel.batches env))) tool.name = some rows)
    (hsum : TotalIsSum rows) : sel.Summed tool := by
  obtain ⟨hcol, hrow⟩ := of_getToolTable h
  obtain ⟨htool, -⟩ := (sel.column_tool_iff env pre tool).1 hcol
  have htools : sel.tools ≠ [] := List.ne_nil_of_mem htool
  refine ⟨htool, fun d hd => ((sel.hasRow_writer_iff env pre d).1 (hrow d hd)).2, ?_⟩
  intro x hx hlast
  by_contra hruns
  rw [Bool.not_eq_false] at hruns
  obtain ⟨hmisc, -⟩ := sel.has_of_lastDiscipline hlast
  obtain ⟨tl, htl, rfl⟩ := exists_zipIdx_of_mem htool
  obtain ⟨dj, hdj, hdm⟩ := exists_zipIdx_of_mem hmisc
  obtain ⟨xk, hxk, rfl⟩ := exists_zipIdx_of_mem (hdm ▸ hx)
  have hb := (sel.mem_batches env).2 ⟨tl, htl, dj, hdj, rfl⟩
  obtain ⟨v, hv⟩ := Option.isSome_iff_exists.1 ((sel.cell_tool_isSome_iff env pre tl.1
    xk.1.basename).2 ⟨_, hb, rfl, _, List.mem_map_of_mem hxk, rfl⟩)
  obtain ⟨b', hb', -, y, hy, hyt, r, rfl, hcount⟩ := result_of_cell hv
  obtain ⟨e, he, rfl⟩ := hcount.2 (Tool.runs_congr hyt ▸ hruns)
  obtain ⟨row, hrow, hcell⟩ := Option.bind_eq_some_iff.1 hv
  have hkind := (totalIsSum_iff h).1 hsum _ (Dict.mem_items_iff.2 hrow) e he hcell
  have hdisc := sel.cell_discipline env pre xk.1.basename
  rw [if_neg htools, hlast, cell, hrow] at hdisc
  rw [show row.get? "discipline".toList = some (name .misc) from hdisc, mem_kinds_iff] at hkind
  exact hkind rfl

end Selection

/-- The table of a tool is there, with a total that is the sum of its rows, exactly for the selections
where the tool runs no test that is shown as `misc`. -/
theorem totalIsSum_selection_iff (sel : Selection) (env : Nat → Nat → Nat → Nat → Outcome)
    (pre : Text) (tool : Tool) : ∃ df, runBatches pre (sel.batches env) .empty = some df ∧
      ((∃ rows, getToolTable df tool.name = some rows ∧ TotalIsSum rows) ↔ sel.Summed tool) := by
  refine ⟨_, runBatches_eq pre _ _, fun h => ?_, sel.totalIsSum_of_summed env pre⟩
  obtain ⟨rows, hrows, hsum⟩ := h
  exact sel.summed_of_totalIsSum env pre hrows hsum

/-- All five disciplines, with one test each. -/
def allDisciplines : Selection where
  tools := [.MUST]
  disciplines := [.conflict, .sync, .atomic, .hybrid, .misc]
  files := fun d => [⟨name d ++ ".c".toList, "none".toList, 0, 0, 2⟩]

/-- Every discipline is selected and has a test, and the total counts one test more than the rows. -/
theorem allDisciplines_total_ne_sum :
    (∀ d, allDisciplines.HasTests d) ∧
      ¬ ∃ df, runBatches [] (allDisciplines.batches fun _ _ _ _ => .exit 0 []) .empty = some df ∧
        ∃ rows, getToolTable df Tool.MUST.name = some rows ∧ TotalIsSum rows := by
  refine ⟨fun d => ⟨by cases d <;> decide, List.cons_ne_nil _ _⟩, fun h => ?_⟩
  obtain ⟨df, hdf, rows, hrows, hsum⟩ := h
  rw [runBatches_eq] at hdf
  obtain rfl := Option.some.inj hdf
  have hs := allDisciplines.summed_of_totalIsSum _ _ hrows hsum
  exact absurd (hs.misc _ List.mem_cons_self (by decide)) (by decide)

end Report
