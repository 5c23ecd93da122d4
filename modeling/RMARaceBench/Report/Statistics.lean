import Mathlib.Algebra.Order.Field.Rat
import Mathlib.Algebra.Order.Field.Basic
import RMARaceBench.Runner.Results

/-!
# The statistics of a tool

`get_tool_statistics` and `get_derived_metrics` of `parse_results.py`. `statistics_conserved`: every test
that a tool ran is counted once in the statistics of its column.
-/

set_option autoImplicit false

namespace Report

open Generator (Text)
open Runner

/-- `dividend / divisor`, which raises for the divisor 0. -/
def divide (dividend divisor : Nat) : Option ℚ :=
  if divisor = 0 then none else some (dividend / divisor)

def guardedDiv (dividend divisor : Nat) : Option ℚ :=
  if divisor = 0 then some 0 else divide dividend divisor

/-- The entries of the dictionary that `get_tool_statistics` returns. -/
structure Statistics where
  TP : Nat
  FP : Nat
  TN : Nat
  FN : Nat
  TO : Nat
  P : ℚ
  R : ℚ
  A : ℚ

/-- The entries of the dictionary that `get_derived_metrics` returns. -/
structure Metrics where
  Precision : ℚ
  Recall : ℚ
  Accuracy : ℚ

/-- `results[v] if v in results else 0` for `results = data.value_counts().to_dict()`. -/
def valueCount (data : List (Option Text)) (v : String) : Nat := data.count (some v.toList)

/-- The outer option is none when a division raises, the inner one when the function returns `None`. -/
def getToolStatistics (data : List (Option Text)) : Option (Option Statistics) :=
  if data.length = 0 then some none
  else do
    let tp := valueCount data "TP"
    let fp := valueCount data "FP"
    let tn := valueCount data "TN"
    let fn := valueCount data "FN"
    let total := tp + fp + tn + fn
    let n := fp + tn
    let precision ← guardedDiv tp (tp + fp)
    let recall' ← guardedDiv tp (tp + fn)
    let _specificity ← guardedDiv tn n
    let accuracy ← guardedDiv (tp + tn) total
    some (some ⟨tp, fp, tn, fn, valueCount data "TO", precision, recall', accuracy⟩)

def getDerivedMetrics (data : List (Option Text)) : Option (Option Metrics) :=
  if data.length = 0 then some none
  else do
    let tp := valueCount data "TP"
    let fp := valueCount data "FP"
    let tn := valueCount data "TN"
    let fn := valueCount data "FN"
    let total := tp + fp + tn + fn
    let n := fp + tn
    let precision ← guardedDiv tp (tp + fp)
    let recall' ← guardedDiv tp (tp + fn)
    let _specificity ← guardedDiv tn n
    let accuracy ← guardedDiv (tp + tn) total
    some (some ⟨precision, recall', accuracy⟩)

/-! ## Ratios -/

/-- No division by zero happens, and the value for the divisor 0 is 0. -/
theorem guardedDiv_eq (a b : Nat) : guardedDiv a b = some ((a : ℚ) / b) := by
  unfold guardedDiv divide
  by_cases hb : b = 0
  · simp [hb]
  · rw [if_neg hb, if_neg hb]

theorem ratio_mem {a b : Nat} (h : a ≤ b) : 0 ≤ (a : ℚ) / b ∧ (a : ℚ) / b ≤ 1 := by
  have hq : (a : ℚ) ≤ b := by exact_mod_cast h
  exact ⟨div_nonneg (Nat.cast_nonneg a) (Nat.cast_nonneg b),
    div_le_one_of_le₀ hq (Nat.cast_nonneg b)⟩

/-- The ratios are the quotients of the counts, and lie between 0 and 1. -/
structure Statistics.Derived (s : Statistics) : Prop where
  precision_eq : s.P = (s.TP : ℚ) / (s.TP + s.FP : ℕ)
  recall_eq : s.R = (s.TP : ℚ) / (s.TP + s.FN : ℕ)
  accuracy_eq : s.A = ((s.TP + s.TN : ℕ) : ℚ) / (s.TP + s.FP + s.TN + s.FN : ℕ)
  bounds : (0 ≤ s.P ∧ s.P ≤ 1) ∧ (0 ≤ s.R ∧ s.R ≤ 1) ∧ 0 ≤ s.A ∧ s.A ≤ 1

/-- On a column with a row, both functions return their dictionaries, with the same ratios. -/
theorem getToolStatistics_eq {data : List (Option Text)} (h : data ≠ []) :
    ∃ s m, getToolStatistics data = some (some s) ∧ getDerivedMetrics data = some (some m) ∧
      (s.TP = valueCount data "TP" ∧ s.FP = valueCount data "FP" ∧ s.TN = valueCount data "TN" ∧
        s.FN = valueCount data "FN" ∧ s.TO = valueCount data "TO") ∧
      s.Derived ∧ m.Precision = s.P ∧ m.Recall = s.R ∧ m.Accuracy = s.A := by
  have hl : data.length ≠ 0 := fun e => h (List.length_eq_zero_iff.1 e)
  unfold getToolStatistics getDerivedMetrics
  rw [if_neg hl, if_neg hl]
  generalize valueCount data "TP" = tp
  generalize valueCount data "FP" = fp
  generalize valueCount data "TN" = tn
  generalize valueCount data "FN" = fn
  simp only [guardedDiv_eq]
  refine ⟨_, _, rfl, rfl, ⟨rfl, rfl, rfl, rfl, rfl⟩, ⟨rfl, rfl, rfl, ?_, ?_, ?_⟩, rfl, rfl, rfl⟩
  · exact ratio_mem (Nat.le_add_right tp fp)
  · exact ratio_mem (Nat.le_add_right tp fn)
  · exact ratio_mem (show tp + tn ≤ tp + fp + tn + fn by omega)

/-! ## Counting -/

theorem count_map_some {α : Type} (f : α → Option Text) (l : List α) (b : Text) :
    (l.map f).count (some b) = (l.filterMap f).count b := by
  induction l with
  | nil => rfl
  | cons a l ih =>
    rw [List.map_cons, List.filterMap_cons, List.count_cons, ih]
    cases f a with
    | none => simp
    | some c => simp [List.count_cons]

theorem countP_add {α : Type} {p q r : α → Bool} {l : List α}
    (h : ∀ a ∈ l, (r a = true ↔ p a = true ∨ q a = true) ∧ ¬ (p a = true ∧ q a = true)) :
    l.countP p + l.countP q = l.countP r := by
  induction l with
  | nil => rfl
  | cons a l ih =>
    have ha := h a List.mem_cons_self
    rw [List.countP_cons, List.countP_cons, List.countP_cons,
      ← ih fun b hb => h b (List.mem_cons_of_mem a hb)]
    cases hp : p a <;> cases hq : q a <;> cases hr : r a <;> simp_all <;> omega

/-! ## Conservation -/

/-- The basenames of the tests that a tool runs are pairwise distinct. -/
def DistinctNames (bs : List Batch) : Prop :=
  ∀ tool : Tool,
    ((bs.filter (·.tool = tool)).flatMap fun b => b.tests.map fun x => x.1.basename).Nodup

theorem ranTests_basenames (pre : Text) (tool : Tool) (bs : List Batch) :
    (ranTests pre tool bs).map (fun o => o.test.basename) =
      (bs.filter (·.tool = tool)).flatMap fun b => b.tests.map fun x => x.1.basename := by
  unfold ranTests
  rw [List.map_flatMap]
  simp only [List.map_map, Function.comp_def, ranTest_test]

theorem mem_ranTests {pre : Text} {tool : Tool} {bs : List Batch} {o : RunTest}
    (h : o ∈ ranTests pre tool bs) : ∃ category x, o = ranTest tool pre category x := by
  unfold ranTests at h
  rw [List.mem_flatMap] at h
  obtain ⟨b, -, hm⟩ := h
  obtain ⟨x, -, rfl⟩ := List.mem_map.1 hm
  exact ⟨b.discipline, x, rfl⟩

theorem ofTool_appended_names (pre : Text) (tool : Tool) (bs : List Batch) :
    (ofTool tool (appended pre bs)).map Prod.fst =
      (bs.filter (·.tool = tool)).flatMap fun b => b.tests.map fun x => x.1.basename := by
  rw [← ranTests_basenames pre, ofTool_appended, List.map_filterMap, ← List.filterMap_eq_map]
  refine List.filterMap_congr fun o ho => ?_
  obtain ⟨category, x, rfl⟩ := mem_ranTests ho
  obtain ⟨r, hr, -⟩ := parse_classified tool pre category x
  rw [hr]
  rfl

/-- The counts of the statistics are numbers of objects. -/
structure Counted (tool : Tool) (data : List (Option Text)) (objects : List RunTest) : Prop where
  value : ∀ r : Result,
    data.count (some r.value) = objects.countP fun o => tool.parse o = some r

theorem column_counted {bs : List Batch} (hd : DistinctNames bs) (pre : Text) (tool : Tool) :
    Counted tool ((appendAll .empty (appended pre bs)).items.map fun x => x.2.get? tool.name)
      (ranTests pre tool bs) := by
  have hnd : ((ofTool tool (appended pre bs)).map Prod.fst).Nodup := by
    rw [ofTool_appended_names]
    exact hd tool
  refine ⟨fun r => ?_⟩
  rw [count_map_some, (column_perm hnd).count_eq, ofTool_appended, List.map_filterMap,
    ← count_map_some, List.count_eq_countP, List.countP_map]
  refine List.countP_congr fun o _ => ?_
  cases hp : tool.parse o with
  | none => simp [hp]
  | some r' => simp [hp, Result.value_inj]

/-- The statistics of a tool's column, over the tests that it ran and the outcomes of their commands. -/
structure Conserved (tool : Tool) (data : List (Option Text))
    (tests : List (Test × (Nat → Outcome))) (s : Statistics) (m : Metrics) : Prop where
  racy : s.TP + s.FN = tests.countP fun x =>
    x.1.hasRace = true ∧ tool.runs x.1 = true ∧ ¬ tool.TimedOut x.2
  clean : s.FP + s.TN = tests.countP fun x =>
    x.1.hasRace = false ∧ tool.runs x.1 = true ∧ ¬ tool.TimedOut x.2
  timeouts : s.TO = tests.countP fun x => tool.runs x.1 = true ∧ tool.TimedOut x.2
  unsupported : valueCount data "-" = tests.countP fun x => tool.runs x.1 = false
  all : s.TP + s.FP + s.TN + s.FN + s.TO + valueCount data "-" = tests.length
  ratios : s.Derived
  metrics : m.Precision = s.P ∧ m.Recall = s.R ∧ m.Accuracy = s.A

/-- A test is racy or not, and runs to its end, times out or is not run. -/
theorem countP_classes (tool : Tool) (tests : List (Test × (Nat → Outcome))) :
    (tests.countP fun x => x.1.hasRace = true ∧ tool.runs x.1 = true ∧ ¬ tool.TimedOut x.2) +
      (tests.countP fun x => x.1.hasRace = false ∧ tool.runs x.1 = true ∧ ¬ tool.TimedOut x.2) +
      (tests.countP fun x => tool.runs x.1 = true ∧ tool.TimedOut x.2) +
      (tests.countP fun x => tool.runs x.1 = false) = tests.length := by
  rw [countP_add (r := fun x => tool.runs x.1 = true ∧ ¬ tool.TimedOut x.2),
    countP_add (r := fun x => tool.runs x.1 = true), countP_add (r := fun _ => true),
    List.countP_true]
  all_goals intro x _
  · simp
  · by_cases ht : tool.TimedOut x.2 <;> simp [ht]
  · cases x.1.hasRace <;> simp

theorem Counted.conserved {pre : Text} {tool : Tool} {data : List (Option Text)} {bs : List Batch}
    (h : Counted tool data (ranTests pre tool bs)) (hne : data ≠ []) :
    ∃ s m, getToolStatistics data = some (some s) ∧ getDerivedMetrics data = some (some m) ∧
      Conserved tool data (testsOf tool bs) s m := by
  obtain ⟨s, m, hs, hm, ⟨htp, hfp, htn, hfn, hto⟩, hr, hmm⟩ := getToolStatistics_eq hne
  -- a set of results counts the tests that are classified so
  have hcount : ∀ (rs : Result → Bool) (q : Test × (Nat → Outcome) → Bool),
      (∀ x r, Classified tool x r → (q x = true ↔ rs r = true)) →
      (ranTests pre tool bs).countP (fun o => (tool.parse o).any rs) = (testsOf tool bs).countP q := by
    intro rs q hq
    refine countP_ranTests fun b _ x _ => ?_
    obtain ⟨r, hr, hc⟩ := parse_classified tool pre b.discipline x
    rw [hr, Option.any_some, Bool.eq_iff_iff, hq x r hc]
  have hone : ∀ r : Result, data.count (some r.value) =
      (ranTests pre tool bs).countP fun o => (tool.parse o).any (· = r) := by
    intro r
    rw [h.value r]
    refine List.countP_congr fun o _ => ?_
    cases tool.parse o <;> simp
  have htwo : ∀ r r' : Result, r ≠ r' → data.count (some r.value) + data.count (some r'.value) =
      (ranTests pre tool bs).countP fun o => (tool.parse o).any fun x => x = r ∨ x = r' := by
    intro r r' hne
    rw [hone, hone]
    refine countP_add fun o _ => ?_
    cases tool.parse o with
    | none => simp
    | some x =>
      refine ⟨by simp, fun hx => ?_⟩
      simp only [Option.any_some, decide_eq_true_eq] at hx
      exact hne (hx.1.symm.trans hx.2)
  have hTO : s.TO = (testsOf tool bs).countP fun x => tool.runs x.1 = true ∧ tool.TimedOut x.2 := by
    rw [hto, show valueCount data "TO" = data.count (some Result.TO.value) from rfl, hone]
    exact hcount _ _ fun x r hc => by simpa using hc.timeout_iff
  have hNO : valueCount data "-" = (testsOf tool bs).countP fun x => tool.runs x.1 = false := by
    rw [show valueCount data "-" = data.count (some Result.NOSUPPORT.value) from rfl, hone]
    exact hcount _ _ fun x r hc => by simpa using hc.unsupported_iff
  have hracy : s.TP + s.FN = (testsOf tool bs).countP fun x =>
      x.1.hasRace = true ∧ tool.runs x.1 = true ∧ ¬ tool.TimedOut x.2 := by
    rw [htp, hfn]
    refine (htwo .TP .FN (by decide)).trans (hcount _ _ fun x r hc => ?_)
    simpa only [decide_eq_true_eq] using hc.racy_iff
  have hclean : s.FP + s.TN = (testsOf tool bs).countP fun x =>
      x.1.hasRace = false ∧ tool.runs x.1 = true ∧ ¬ tool.TimedOut x.2 := by
    rw [hfp, htn]
    refine (htwo .FP .TN (by decide)).trans (hcount _ _ fun x r hc => ?_)
    simpa only [decide_eq_true_eq] using hc.clean_iff
  refine ⟨s, m, hs, hm, hracy, hclean, hTO, hNO, ?_, hr, hmm⟩
  have hall := countP_classes tool (testsOf tool bs)
  rw [← hracy, ← hclean, ← hTO, ← hNO] at hall
  omega

/-- A column with a cell is in the data frame. -/
theorem column_eq_some {d : Table} {c : Text}
    (h : (d.items.filterMap fun x => x.2.get? c) ≠ []) :
    column d c = some (d.items.map fun x => x.2.get? c) := by
  obtain ⟨v, hv⟩ := List.exists_mem_of_ne_nil _ h
  obtain ⟨x, hx, hxv⟩ := List.mem_filterMap.1 hv
  unfold column
  rw [if_pos]
  exact List.any_eq_true.2 ⟨x, hx, by rw [hxv]; rfl⟩

/-- No test is lost or counted twice between the run of a tool and the statistics of its column. -/
theorem statistics_conserved {bs : List Batch} (hd : DistinctNames bs) (pre : Text) :
    ∃ d, runBatches pre bs .empty = some d ∧ ∀ tool : Tool,
      (∀ o ∈ ranTests pre tool bs, tool.parse o ≠ none ∧
        (tool.parse o = some .NOSUPPORT ↔ o.executed = [])) ∧
      (testsOf tool bs ≠ [] → ∃ data s m, column d tool.name = some data ∧
        getToolStatistics data = some (some s) ∧ getDerivedMetrics data = some (some m) ∧
        Conserved tool data (testsOf tool bs) s m) := by
  refine ⟨_, runBatches_eq pre bs .empty, fun tool => ⟨fun o ho => ?_, fun hne => ?_⟩⟩
  · obtain ⟨category, x, rfl⟩ := mem_ranTests ho
    obtain ⟨r, hr, hc⟩ := parse_classified tool pre category x
    rw [hr, ranTest_executed_iff, hc.unsupported_iff]
    simp
  · have hcount := column_counted hd pre tool
    obtain ⟨x, hx⟩ := List.exists_mem_of_ne_nil _ hne
    obtain ⟨b, hb, hxb⟩ := List.mem_flatMap.1 hx
    have ho : ranTest tool pre b.discipline x ∈ ranTests pre tool bs :=
      List.mem_flatMap.2 ⟨b, hb, List.mem_map_of_mem hxb⟩
    obtain ⟨r, hr, -⟩ := parse_classified tool pre b.discipline x
    -- the result of one test is a cell of the column
    have hcell : ((appendAll .empty (appended pre bs)).items.filterMap fun x =>
        x.2.get? tool.name) ≠ [] := by
      intro he
      have hz := hcount.value r
      rw [count_map_some, he, List.count_nil] at hz
      exact absurd hz.symm (Nat.pos_iff_ne_zero.1
        (List.countP_pos_iff.2 ⟨_, ho, decide_eq_true hr⟩))
    have hrows : ((appendAll .empty (appended pre bs)).items.map fun x =>
        x.2.get? tool.name) ≠ [] := by
      intro he
      rw [List.map_eq_nil_iff] at he
      rw [he] at hcell
      exact hcell rfl
    obtain ⟨s, m, hs, hm, hcons⟩ := hcount.conserved hrows
    exact ⟨_, s, m, column_eq_some hcell, hs, hm, hcons⟩

/-- MUST runs one test without race and one that times out, PARCOACH-static one that it skips. -/
def threeTests : List Batch :=
  [⟨.MUST, "sync".toList, [(⟨"a.c".toList, "none".toList, 0, 0, 2⟩, fun _ => .exit 0 []),
      (⟨"b.c".toList, "local".toList, 1, 2, 2⟩, fun _ => .timeout)]⟩,
    ⟨.PARCOACHstatic, "sync".toList,
      [(⟨"a-remote.c".toList, "none".toList, 0, 0, 2⟩, fun _ => .exit 0 [])]⟩]

theorem threeTests_conserved :
    ∃ d, runBatches [] threeTests .empty = some d ∧ ∀ tool : Tool,
      (∀ o ∈ ranTests [] tool threeTests, tool.parse o ≠ none ∧
        (tool.parse o = some .NOSUPPORT ↔ o.executed = [])) ∧
      (testsOf tool threeTests ≠ [] → ∃ data s m, column d tool.name = some data ∧
        getToolStatistics data = some (some s) ∧ getDerivedMetrics data = some (some m) ∧
        Conserved tool data (testsOf tool threeTests) s m) :=
  statistics_conserved (by intro tool; cases tool <;> decide) []

end Report
