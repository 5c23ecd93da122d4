import RMARaceBench.Dict.Basic
import RMARaceBench.Runner.Runs

/-!
# The results table

`run_tool_test`, `results_append` and the loop of the mode `tools`. The table that is written to
`results.csv` has a row for each test name, with a cell for the discipline and one for each tool that
ran the test.
-/

set_option autoImplicit false

namespace Runner

open Generator (Text)

/-- The text of a result. -/
def Result.value : Result → Text
  | .TP => "TP".toList
  | .FP => "FP".toList
  | .TN => "TN".toList
  | .FN => "FN".toList
  | .TO => "TO".toList
  | .CR => "CR".toList
  | .NOSUPPORT => "-".toList

theorem Result.value_inj {r r' : Result} : r.value = r'.value ↔ r = r' := by
  constructor
  · cases r <;> cases r' <;> decide
  · intro h
    rw [h]

/-- `results_dict`. -/
abbrev Table := Dict Text (Dict Text Text)

/-- `results_dict[testname][column] = value`, for a name that is a key. -/
def setCell (d : Table) (testname column value : Text) : Table :=
  d.set testname (((d.get? testname).getD .empty).set column value)

/-- The body of the loop of `results_append`. -/
def appendResult (name discipline : Text) (d : Table) (r : Text × Result) : Table :=
  let d := if (d.get? r.1).isNone then d.set r.1 .empty else d
  setCell (setCell d r.1 "discipline".toList discipline) r.1 name r.2.value

def resultsAppend (d : Table) (results : List (Text × Result)) (name discipline : Text) : Table :=
  results.foldl (appendResult name discipline) d

/-! ## Running the tests -/

/-- The object of a test after `mt.run()`. -/
def ranTest (tool : Tool) (pre category : Text) (x : Test × (Nat → Outcome)) : RunTest :=
  tool.run x.2 (.new x.1 (joinPath (joinPath pre tool.name) category))

/-- `run_tool_test`. It fails when `parse` reads an attribute that is not set. -/
def runToolTest (tool : Tool) (pre category : Text) (x : Test × (Nat → Outcome)) :
    Option (Text × Result) :=
  (tool.parse (ranTest tool pre category x)).map fun r => (x.1.basename, r)

/-- The tests that a tool runs for a discipline, each with the outcomes of its commands. -/
structure Batch where
  tool : Tool
  discipline : Text
  tests : List (Test × (Nat → Outcome))

/-- `pool.starmap(run_tool_test, …)`, then `results_append`. -/
def runBatch (pre : Text) (d : Table) (b : Batch) : Option Table :=
  (b.tests.mapM (runToolTest b.tool pre b.discipline)).map fun results =>
    resultsAppend d results b.tool.name b.discipline

def runBatches (pre : Text) (bs : List Batch) (d : Table) : Option Table :=
  bs.foldlM (runBatch pre) d

/-! ## Reading the table -/

/-- A cell of the table; a missing cell is `NaN` in the data frame. -/
def cell (d : Table) (testname column : Text) : Option Text :=
  (d.get? testname).bind (·.get? column)

/-- `df[column]`. A column without a cell is not in the data frame, and the access raises. -/
def column (d : Table) (c : Text) : Option (List (Option Text)) :=
  if d.items.any fun x => (x.2.get? c).isSome then some (d.items.map fun x => x.2.get? c) else none

/-! ## One result -/

theorem cell_setCell {d : Table} {n c v t c' : Text} :
    cell (setCell d n c v) t c' = if t = n ∧ c' = c then some v else cell d t c' := by
  unfold cell setCell
  rw [Dict.get?_set]
  by_cases ht : t = n
  · subst ht
    rw [if_pos rfl, Option.bind_some, Dict.get?_set]
    by_cases hc : c' = c
    · rw [if_pos hc, if_pos ⟨rfl, hc⟩]
    · rw [if_neg hc, if_neg fun h => hc h.2]
      cases d.get? t <;> rfl
  · rw [if_neg ht, if_neg fun h => ht h.1]

/-- An appended result changes the cells of the test's discipline and of the tool, and no others. -/
theorem cell_appendResult {name discipline : Text} {d : Table} {r : Text × Result} {t c : Text} :
    cell (appendResult name discipline d r) t c =
      if t = r.1 ∧ c = name then some r.2.value
      else if t = r.1 ∧ c = "discipline".toList then some discipline
      else cell d t c := by
  unfold appendResult
  rw [cell_setCell, cell_setCell]
  have hnew : cell (if (d.get? r.1).isNone = true then d.set r.1 .empty else d) t c =
      cell d t c := by
    split
    · next h =>
      unfold cell
      rw [Dict.get?_set]
      split
      · next ht =>
        subst ht
        rw [Option.isNone_iff_eq_none.1 h]
        rfl
      · rfl
    · rfl
  rw [hnew]

theorem Tool.name_ne_discipline (tool : Tool) : tool.name ≠ "discipline".toList := by
  cases tool <;> decide

theorem Tool.name_inj {tool tool' : Tool} : tool.name = tool'.name ↔ tool = tool' := by
  constructor
  · cases tool <;> cases tool' <;> decide
  · intro h
    rw [h]

/-! ## All results -/

/-- A result as it is appended. -/
structure Appended where
  tool : Tool
  discipline : Text
  testname : Text
  result : Result

/-- The results of a list, appended one after another. -/
def appendAll (d : Table) (l : List Appended) : Table :=
  l.foldl (fun d a => appendResult a.tool.name a.discipline d (a.testname, a.result)) d

/-- The names and results that a tool appended. -/
def ofTool (tool : Tool) (l : List Appended) : List (Text × Result) :=
  (l.filter (·.tool = tool)).map fun a => (a.testname, a.result)

theorem ofTool_cons_self {a : Appended} {l : List Appended} :
    ofTool a.tool (a :: l) = (a.testname, a.result) :: ofTool a.tool l := by
  simp [ofTool]

theorem ofTool_cons_ne {tool : Tool} {a : Appended} {l : List Appended} (h : a.tool ≠ tool) :
    ofTool tool (a :: l) = ofTool tool l := by
  simp [ofTool, h]

/-- A tool's cells of other tests stay as they are. -/
theorem cell_appendAll_of_not_mem {tool : Tool} {l : List Appended} {t : Text}
    (h : t ∉ (ofTool tool l).map Prod.fst) (d : Table) :
    cell (appendAll d l) t tool.name = cell d t tool.name := by
  induction l generalizing d with
  | nil => rfl
  | cons a l ih =>
    unfold appendAll
    rw [List.foldl_cons]
    by_cases ha : a.tool = tool
    · subst ha
      rw [ofTool_cons_self, List.map_cons, List.mem_cons, not_or] at h
      refine (ih h.2 _).trans ?_
      rw [cell_appendResult, if_neg fun hc => h.1 hc.1,
        if_neg fun hc => a.tool.name_ne_discipline hc.2]
    · rw [ofTool_cons_ne ha] at h
      refine (ih h _).trans ?_
      rw [cell_appendResult, if_neg fun hc => ha (Tool.name_inj.1 hc.2.symm),
        if_neg fun hc => tool.name_ne_discipline hc.2]

/-- A tool's cell of a test that it appended once. -/
theorem cell_appendAll_of_mem {tool : Tool} {l : List Appended} {x : Text × Result}
    (hn : ((ofTool tool l).map Prod.fst).Nodup) (h : x ∈ ofTool tool l) (d : Table) :
    cell (appendAll d l) x.1 tool.name = some x.2.value := by
  induction l generalizing d with
  | nil => simp [ofTool] at h
  | cons a l ih =>
    unfold appendAll
    rw [List.foldl_cons]
    by_cases ha : a.tool = tool
    · subst ha
      rw [ofTool_cons_self] at h hn
      rw [List.map_cons, List.nodup_cons] at hn
      rw [List.mem_cons] at h
      obtain rfl | h := h
      · refine (cell_appendAll_of_not_mem hn.1 _).trans ?_
        rw [cell_appendResult, if_pos ⟨rfl, rfl⟩]
      · exact ih hn.2 h _
    · rw [ofTool_cons_ne ha] at h hn
      exact ih hn h _

/-- A tool has a cell for every test that it appended. -/
theorem cell_appendAll_isSome {tool : Tool} {l : List Appended} {t : Text}
    (h : t ∈ (ofTool tool l).map Prod.fst) (d : Table) :
    (cell (appendAll d l) t tool.name).isSome = true := by
  induction l generalizing d with
  | nil => simp [ofTool] at h
  | cons a l ih =>
    by_cases hl : t ∈ (ofTool tool l).map Prod.fst
    · exact ih hl _
    · unfold appendAll
      rw [List.foldl_cons]
      refine (congrArg Option.isSome (cell_appendAll_of_not_mem hl _)).trans ?_
      by_cases ha : a.tool = tool
      · subst ha
        rw [ofTool_cons_self, List.map_cons, List.mem_cons, or_iff_left hl] at h
        rw [cell_appendResult, if_pos ⟨h, rfl⟩]
        rfl
      · rw [ofTool_cons_ne ha] at h
        exact absurd h hl

/-- The discipline of a test after results of one discipline. -/
theorem cell_discipline_appendAll {discipline : Text} {l : List Appended}
    (h : ∀ a ∈ l, a.discipline = discipline) (d : Table) (t : Text) :
    cell (appendAll d l) t "discipline".toList =
      if t ∈ l.map (·.testname) then some discipline else cell d t "discipline".toList := by
  induction l generalizing d with
  | nil => rfl
  | cons a l ih =>
    unfold appendAll
    rw [List.foldl_cons]
    refine (ih (fun b hb => h b (List.mem_cons_of_mem a hb)) _).trans ?_
    rw [List.map_cons]
    by_cases hl : t ∈ l.map (·.testname)
    · rw [if_pos hl, if_pos (List.mem_cons_of_mem _ hl)]
    · rw [if_neg hl, cell_appendResult, if_neg fun hc => a.tool.name_ne_discipline hc.2.symm]
      by_cases ht : t = a.testname
      · rw [if_pos ⟨ht, rfl⟩, if_pos (ht ▸ List.mem_cons_self), h a List.mem_cons_self]
      · rw [if_neg fun hc => ht hc.1, if_neg fun hc => (List.mem_cons.1 hc).elim ht hl]

/-- The cells of a tool's column are the results that it appended, in another order. -/
theorem column_perm {tool : Tool} {l : List Appended} (hn : ((ofTool tool l).map Prod.fst).Nodup) :
    List.Perm ((appendAll .empty l).items.filterMap fun x => x.2.get? tool.name)
      ((ofTool tool l).map fun x => x.2.value) := by
  have hiff : ∀ t, (cell (appendAll .empty l) t tool.name).isSome = true ↔
      t ∈ (ofTool tool l).map Prod.fst := by
    intro t
    constructor
    · intro h
      by_contra hm
      rw [cell_appendAll_of_not_mem hm] at h
      simp [cell] at h
    · intro h
      obtain ⟨x, hx, rfl⟩ := List.mem_map.1 h
      rw [cell_appendAll_of_mem hn hx]
      rfl
  have hmap : ((ofTool tool l).map Prod.fst).filterMap
      (fun t => cell (appendAll .empty l) t tool.name) = (ofTool tool l).map fun x => x.2.value := by
    rw [List.filterMap_map, ← List.filterMap_eq_map]
    exact List.filterMap_congr fun x hx => cell_appendAll_of_mem hn hx _
  rw [← hmap]
  exact Dict.filterMap_items_perm (appendAll .empty l)
    (fun row : Dict Text Text => row.get? tool.name) hn hiff

/-! ## The batches -/

/-- The objects of a tool after their runs. -/
def ranTests (pre : Text) (tool : Tool) (bs : List Batch) : List RunTest :=
  (bs.filter (·.tool = tool)).flatMap fun b => b.tests.map (ranTest tool pre b.discipline)

theorem ranTest_test (tool : Tool) (pre category : Text) (x : Test × (Nat → Outcome)) :
    (ranTest tool pre category x).test = x.1 :=
  tool.run_test _ _

/-- The tests that a tool ran, each with the outcomes of its commands. -/
def testsOf (tool : Tool) (bs : List Batch) : List (Test × (Nat → Outcome)) :=
  (bs.filter (·.tool = tool)).flatMap (·.tests)

/-- Counting the objects is counting the tests. -/
theorem countP_ranTests {pre : Text} {tool : Tool} {bs : List Batch} {p : RunTest → Bool}
    {q : Test × (Nat → Outcome) → Bool}
    (h : ∀ b ∈ bs, ∀ x ∈ b.tests, p (ranTest tool pre b.discipline x) = q x) :
    (ranTests pre tool bs).countP p = (testsOf tool bs).countP q := by
  unfold ranTests testsOf
  rw [List.countP_flatMap, List.countP_flatMap]
  refine congrArg List.sum (List.map_congr_left fun b hb => ?_)
  rw [Function.comp, Function.comp, List.countP_map]
  refine List.countP_congr fun x hx => ?_
  rw [Function.comp, h b (List.mem_of_mem_filter hb) x hx]

/-- What `parse` makes of a test, by its label and the outcomes of its commands. -/
inductive Classified (tool : Tool) (x : Test × (Nat → Outcome)) : Result → Prop
  | unsupported (hs : tool.runs x.1 = false) : Classified tool x .NOSUPPORT
  | timeout (hs : tool.runs x.1 = true) (ht : tool.TimedOut x.2) : Classified tool x .TO
  | racy {r : Result} (hs : tool.runs x.1 = true) (ht : ¬ tool.TimedOut x.2)
      (hrace : x.1.hasRace = true) (h : r = .TP ∨ r = .FN) : Classified tool x r
  | clean {r : Result} (hs : tool.runs x.1 = true) (ht : ¬ tool.TimedOut x.2)
      (hrace : x.1.hasRace = false) (h : r = .TN ∨ r = .FP) : Classified tool x r

theorem Tool.run_unsupported {tool : Tool} {env : Nat → Outcome} {s : RunTest}
    (h : tool.runs s.test = false) : tool.run env s = s := by
  cases tool with
  | MUST => cases h
  | PARCOACHdynamic => cases h
  | PARCOACHstatic =>
    have hr : RunParcoachStaticTest.remote s.test = true := by simpa [runs] using h
    exact if_pos hr

/-- A run leaves no command behind exactly when the tool does not run the test. -/
theorem ranTest_executed_iff (tool : Tool) (pre category : Text) (x : Test × (Nat → Outcome)) :
    (ranTest tool pre category x).executed = [] ↔ tool.runs x.1 = false := by
  cases hs : tool.runs x.1 with
  | false =>
    unfold ranTest
    rw [Tool.run_unsupported hs]
    exact iff_of_true rfl rfl
  | true =>
    refine iff_of_false (fun he => ?_) (by simp)
    have hlog : (ranTest tool pre category x).log = [] := by rw [RunTest.log, he]; rfl
    have hspec : Ended x.2 tool.dropped.length tool.tries tool.kept (tool.droppedLog x.2)
        (ranTest tool pre category x) := tool.run_spec x.2 x.1 _ hs
    cases hspec with
    | timeout _ _ hl =>
      rw [hlog, eq_comm, List.append_eq_nil_iff] at hl
      cases tool <;> simp [Tool.tries] at hl
    | exit i c out _ _ _ hl =>
      rw [hlog] at hl
      simp at hl

/-- `parse` reads nothing that `run` left unset. -/
theorem parse_classified (tool : Tool) (pre category : Text) (x : Test × (Nat → Outcome)) :
    ∃ r, tool.parse (ranTest tool pre category x) = some r ∧ Classified tool x r := by
  have ht := ranTest_test tool pre category x
  cases hs : tool.runs x.1 with
  | false => exact ⟨.NOSUPPORT, Tool.parse_unsupported (by rw [ht]; exact hs), .unsupported hs⟩
  | true =>
    have hrun : tool.runs (ranTest tool pre category x).test = true := by rw [ht]; exact hs
    have hspec : Ended x.2 tool.dropped.length tool.tries tool.kept (tool.droppedLog x.2)
        (ranTest tool pre category x) := tool.run_spec x.2 x.1 _ hs
    rw [Tool.parse_eq hrun]
    cases hspec with
    | timeout hto hr _ =>
      refine ⟨.TO, ?_, .timeout hs hto⟩
      split <;> exact RunTest.parse_timeout hr _ _ _
    | exit i c out hf hr ho _ =>
      rw [RunTest.parse_output hr (exitResult_ne_timeout c) ho,
        RunTest.parse_output hr (exitResult_ne_timeout c) ho, ht]
      cases hrace : x.1.hasRace with
      | true =>
        refine ⟨_, if_pos rfl, .racy hs hf.not_timesOut hrace ?_⟩
        rw [if_pos rfl]
        split
        · split
          · exact .inr rfl
          · split
            · exact .inr rfl
            · exact .inl rfl
        · exact .inr rfl
      | false =>
        refine ⟨_, if_neg (by simp), .clean hs hf.not_timesOut hrace ?_⟩
        rw [if_neg (by simp)]
        split
        · exact .inl rfl
        · exact .inr rfl

section
variable {tool : Tool} {x : Test × (Nat → Outcome)} {r : Result}

/-- The results that each class of tests can have. -/
theorem Classified.racy_iff (h : Classified tool x r) :
    (x.1.hasRace = true ∧ tool.runs x.1 = true ∧ ¬ tool.TimedOut x.2) ↔ r = .TP ∨ r = .FN := by
  cases h with
  | unsupported hs => simp [hs]
  | timeout _ ht => simp [ht]
  | racy hs ht hrace h => exact iff_of_true ⟨hrace, hs, ht⟩ h
  | clean _ _ hrace h => obtain rfl | rfl := h <;> simp [hrace]

theorem Classified.clean_iff (h : Classified tool x r) :
    (x.1.hasRace = false ∧ tool.runs x.1 = true ∧ ¬ tool.TimedOut x.2) ↔ r = .FP ∨ r = .TN := by
  cases h with
  | unsupported hs => simp [hs]
  | timeout _ ht => simp [ht]
  | racy _ _ hrace h => obtain rfl | rfl := h <;> simp [hrace]
  | clean hs ht hrace h => exact iff_of_true ⟨hrace, hs, ht⟩ h.symm

theorem Classified.timeout_iff (h : Classified tool x r) :
    (tool.runs x.1 = true ∧ tool.TimedOut x.2) ↔ r = .TO := by
  cases h with
  | unsupported hs => simp [hs]
  | timeout hs ht => exact iff_of_true ⟨hs, ht⟩ rfl
  | racy _ ht _ h => obtain rfl | rfl := h <;> simp [ht]
  | clean _ ht _ h => obtain rfl | rfl := h <;> simp [ht]

theorem Classified.unsupported_iff (h : Classified tool x r) :
    tool.runs x.1 = false ↔ r = .NOSUPPORT := by
  cases h with
  | unsupported hs => exact iff_of_true hs rfl
  | timeout hs => simp [hs]
  | racy hs _ _ h => obtain rfl | rfl := h <;> simp [hs]
  | clean hs _ _ h => obtain rfl | rfl := h <;> simp [hs]

end

/-- What a batch appends, in order. -/
def Batch.appended (pre : Text) (b : Batch) : List Appended :=
  (b.tests.filterMap (runToolTest b.tool pre b.discipline)).map fun r =>
    ⟨b.tool, b.discipline, r.1, r.2⟩

theorem Batch.appended_tool {pre : Text} {b : Batch} {a : Appended} (h : a ∈ b.appended pre) :
    a.tool = b.tool := by
  obtain ⟨r, -, rfl⟩ := List.mem_map.1 h
  rfl

def appended (pre : Text) (bs : List Batch) : List Appended := bs.flatMap (·.appended pre)

theorem runToolTest_eq_some (tool : Tool) (pre category : Text) (x : Test × (Nat → Outcome)) :
    ∃ y, runToolTest tool pre category x = some y := by
  obtain ⟨r, hr, -⟩ := parse_classified tool pre category x
  exact ⟨_, by rw [runToolTest, hr]; rfl⟩

theorem mapM_eq_filterMap {α β : Type} {f : α → Option β} (hf : ∀ a, ∃ b, f a = some b)
    (l : List α) : l.mapM f = some (l.filterMap f) := by
  induction l with
  | nil => rfl
  | cons a l ih =>
    obtain ⟨b, hb⟩ := hf a
    rw [List.mapM_cons, hb, ih, List.filterMap_cons, hb]
    rfl

theorem runBatch_eq (pre : Text) (d : Table) (b : Batch) :
    runBatch pre d b = some (appendAll d (b.appended pre)) := by
  unfold runBatch appendAll Batch.appended resultsAppend
  rw [mapM_eq_filterMap (runToolTest_eq_some b.tool pre b.discipline), List.foldl_map]
  rfl

/-- The main loop never fails, and appends the results one after another. -/
theorem runBatches_eq (pre : Text) (bs : List Batch) (d : Table) :
    runBatches pre bs d = some (appendAll d (appended pre bs)) := by
  unfold runBatches
  induction bs generalizing d with
  | nil => rfl
  | cons b bs ih =>
    rw [List.foldlM_cons, runBatch_eq]
    refine (ih _).trans ?_
    simp only [appended, appendAll, List.flatMap_cons, List.foldl_append]

theorem Batch.appended_testnames (pre : Text) (b : Batch) :
    (b.appended pre).map (·.testname) = b.tests.map fun x => x.1.basename := by
  unfold Batch.appended
  rw [List.map_map, List.map_filterMap, ← List.filterMap_eq_map]
  refine List.filterMap_congr fun x _ => ?_
  obtain ⟨r, hr, -⟩ := parse_classified b.tool pre b.discipline x
  rw [runToolTest, hr]
  rfl

/-- The discipline of a test is that of the last batch that has it. -/
theorem cell_discipline_appended (pre : Text) (bs : List Batch) (d : Table) (t : Text) :
    cell (appendAll d (appended pre bs)) t "discipline".toList =
      bs.foldl (fun acc b =>
        if t ∈ b.tests.map fun x => x.1.basename then some b.discipline else acc)
        (cell d t "discipline".toList) := by
  induction bs generalizing d with
  | nil => rfl
  | cons b bs ih =>
    have hd : ∀ a ∈ b.appended pre, a.discipline = b.discipline := by
      intro a ha
      obtain ⟨r, -, rfl⟩ := List.mem_map.1 ha
      rfl
    rw [List.foldl_cons, ← b.appended_testnames pre, ← cell_discipline_appendAll hd d t, ← ih]
    simp only [appended, appendAll, List.flatMap_cons, List.foldl_append]

/-- The results that a tool appends come from its objects. -/
theorem ofTool_appended (pre : Text) (tool : Tool) (bs : List Batch) :
    ofTool tool (appended pre bs) = (ranTests pre tool bs).filterMap fun s =>
      (tool.parse s).map fun r => (s.test.basename, r) := by
  unfold ofTool appended ranTests
  induction bs with
  | nil => rfl
  | cons b bs ih =>
    rw [List.flatMap_cons, List.filter_append, List.map_append, ih, List.filter_cons]
    by_cases hb : b.tool = tool
    · subst hb
      rw [if_pos (by simp), List.flatMap_cons, List.filterMap_append, List.filterMap_map]
      congr 1
      rw [List.filter_eq_self.2 fun a ha => decide_eq_true (Batch.appended_tool ha)]
      unfold Batch.appended
      rw [List.map_map]
      refine (List.map_id _).trans (List.filterMap_congr fun x _ => ?_)
      rw [Function.comp, ranTest_test]
      rfl
    · rw [if_neg (by simpa using hb)]
      rw [List.filter_eq_nil_iff.2 fun a ha h =>
        hb ((Batch.appended_tool ha).symm.trans (of_decide_eq_true h)), List.map_nil,
        List.nil_append]

end Runner
