import RMARaceBench.Runner.Results

/-!
# Merging the results of the batches

`results_append` over the batches of the mode `tools`, for any results.

* `cell_mergeBatches_iff`: the cells that a merge leaves are those that some batch writes.
* `resultsAppend_frame`: what a batch does not touch.
* `merge_order_independent`: the order of the batches does not matter, so neither does that of the mode
  `tools` (`runBatches_perm`).
-/

set_option autoImplicit false

namespace Runner

open Generator (Text)

/-- The results of a tool for a discipline, as `pool.starmap` returns them. -/
structure ResultBatch where
  tool : Tool
  discipline : Text
  results : List (Text × Result)

/-- The body of the two loops. -/
def appendBatch (d : Table) (b : ResultBatch) : Table :=
  resultsAppend d b.results b.tool.name b.discipline

def mergeBatches (bs : List ResultBatch) (d : Table) : Table := bs.foldl appendBatch d

/-! ## One result -/

/-- The cells that an appended result writes. -/
inductive Appended.Writes (a : Appended) : Text → Text → Text → Prop
  | discipline : Writes a a.testname "discipline".toList a.discipline
  | result : Writes a a.testname a.tool.name a.result.value

theorem cell_of_writes {a : Appended} {t c v : Text} (h : a.Writes t c v) (d : Table) :
    cell (appendResult a.tool.name a.discipline d (a.testname, a.result)) t c = some v := by
  rw [cell_appendResult]
  cases h with
  | discipline => rw [if_neg fun hc => a.tool.name_ne_discipline hc.2.symm, if_pos ⟨rfl, rfl⟩]
  | result => rw [if_pos ⟨rfl, rfl⟩]

theorem cell_of_not_writes {a : Appended} {t c : Text} (h : ∀ v, ¬ a.Writes t c v) (d : Table) :
    cell (appendResult a.tool.name a.discipline d (a.testname, a.result)) t c = cell d t c := by
  rw [cell_appendResult, if_neg, if_neg]
  · rintro ⟨rfl, rfl⟩
    exact h _ .discipline
  · rintro ⟨rfl, rfl⟩
    exact h _ .result

theorem get?_setCell {d : Table} {n c v t : Text} :
    ((setCell d n c v).get? t).isSome = true ↔ t = n ∨ (d.get? t).isSome = true := by
  unfold setCell
  rw [Dict.get?_set]
  by_cases ht : t = n
  · simp [ht]
  · simp [ht]

/-- A result adds at most the row of its test. -/
theorem get?_appendResult {name discipline : Text} {d : Table} {r : Text × Result} {t : Text} :
    ((appendResult name discipline d r).get? t).isSome = true ↔
      t = r.1 ∨ (d.get? t).isSome = true := by
  unfold appendResult
  rw [get?_setCell, get?_setCell]
  split
  · rw [Dict.get?_set]
    by_cases ht : t = r.1
    · simp [ht]
    · simp [ht]
  · simp

/-! ## Many results -/

/-- A cell that no result writes stays as it is. -/
theorem cell_appendAll_of_not_writes {l : List Appended} {t c : Text}
    (h : ∀ a ∈ l, ∀ v, ¬ a.Writes t c v) (d : Table) :
    cell (appendAll d l) t c = cell d t c := by
  induction l generalizing d with
  | nil => rfl
  | cons a l ih =>
    refine (ih (fun b hb => h b (List.mem_cons_of_mem a hb)) _).trans ?_
    exact cell_of_not_writes (h a List.mem_cons_self) d

/-- A cell that some result writes has the value of one of them. -/
theorem cell_appendAll_of_writes {l : List Appended} {t c : Text}
    (h : ∃ a ∈ l, ∃ v, a.Writes t c v) (d : Table) :
    ∃ a ∈ l, ∃ v, a.Writes t c v ∧ cell (appendAll d l) t c = some v := by
  induction l generalizing d with
  | nil =>
    obtain ⟨a, ha, -⟩ := h
    cases ha
  | cons a l ih =>
    by_cases hl : ∃ b ∈ l, ∃ v, b.Writes t c v
    · obtain ⟨b, hb, v, hw, hv⟩ := ih hl _
      exact ⟨b, List.mem_cons_of_mem a hb, v, hw, hv⟩
    · obtain ⟨b, hb, v, hw⟩ := h
      obtain rfl | hb := List.mem_cons.1 hb
      · refine ⟨b, List.mem_cons_self, v, hw, ?_⟩
        -- the later results leave the cell alone
        refine (cell_appendAll_of_not_writes (fun x hx v' hv' => hl ⟨x, hx, v', hv'⟩) _).trans ?_
        exact cell_of_writes hw d
      · exact absurd ⟨b, hb, v, hw⟩ hl

/-- No two results write different values to one cell. -/
def Consistent (l : List Appended) : Prop :=
  ∀ a ∈ l, ∀ b ∈ l, ∀ t c v v', a.Writes t c v → b.Writes t c v' → v = v'

theorem cell_appendAll_iff {l : List Appended} (hl : Consistent l) {t c v : Text} :
    cell (appendAll .empty l) t c = some v ↔ ∃ a ∈ l, a.Writes t c v := by
  constructor
  · intro h
    by_cases hw : ∃ a ∈ l, ∃ v, a.Writes t c v
    · obtain ⟨a, ha, v', hv, hc⟩ := cell_appendAll_of_writes hw .empty
      obtain rfl := Option.some.inj (hc.symm.trans h)
      exact ⟨a, ha, hv⟩
    · rw [cell_appendAll_of_not_writes fun a ha v hv => hw ⟨a, ha, v, hv⟩] at h
      cases h
  · intro h
    obtain ⟨a, ha, hw⟩ := h
    obtain ⟨b, hb, v', hv, hc⟩ := cell_appendAll_of_writes ⟨a, ha, v, hw⟩ .empty
    rw [hc, hl b hb a ha t c v' v hv hw]

theorem get?_appendAll {l : List Appended} {d : Table} {t : Text} :
    ((appendAll d l).get? t).isSome = true ↔
      (∃ a ∈ l, t = a.testname) ∨ (d.get? t).isSome = true := by
  induction l generalizing d with
  | nil => simp [appendAll]
  | cons a l ih =>
    refine ih.trans ?_
    rw [get?_appendResult, List.exists_mem_cons_iff, or_left_comm, or_assoc]

/-! ## Batches -/

namespace ResultBatch

variable {b : ResultBatch}

/-- What a batch appends, in order. -/
def appended (b : ResultBatch) : List Appended :=
  b.results.map fun r => ⟨b.tool, b.discipline, r.1, r.2⟩

theorem appendBatch_eq (d : Table) (b : ResultBatch) :
    appendBatch d b = appendAll d b.appended := by
  unfold appendBatch resultsAppend appendAll appended
  rw [List.foldl_map]

/-- The tool ran the test. -/
def Ran (b : ResultBatch) (t : Text) : Prop := t ∈ b.results.map Prod.fst

/-- The cells that a batch writes: the discipline of its tests, and their results in its tool's column. -/
inductive Writes (b : ResultBatch) : Text → Text → Text → Prop
  | discipline {t : Text} (h : b.Ran t) : Writes b t "discipline".toList b.discipline
  | result {r : Text × Result} (h : r ∈ b.results) : Writes b r.1 b.tool.name r.2.value

theorem writes_iff {t c v : Text} : (∃ a ∈ b.appended, a.Writes t c v) ↔ b.Writes t c v := by
  constructor
  · intro h
    obtain ⟨a, ha, hw⟩ := h
    obtain ⟨r, hr, rfl⟩ := List.mem_map.1 ha
    cases hw with
    | discipline => exact .discipline (List.mem_map_of_mem hr)
    | result => exact .result hr
  · intro h
    cases h with
    | discipline ht =>
      obtain ⟨r, hr, rfl⟩ := List.mem_map.1 ht
      exact ⟨_, List.mem_map_of_mem hr, .discipline⟩
    | result hr => exact ⟨_, List.mem_map_of_mem hr, .result⟩

theorem ran_iff {t : Text} : (∃ a ∈ b.appended, t = a.testname) ↔ b.Ran t := by
  constructor
  · intro h
    obtain ⟨a, ha, rfl⟩ := h
    obtain ⟨r, hr, rfl⟩ := List.mem_map.1 ha
    exact List.mem_map_of_mem hr
  · intro h
    obtain ⟨r, hr, rfl⟩ := List.mem_map.1 h
    exact ⟨_, List.mem_map_of_mem hr, rfl⟩

end ResultBatch

open ResultBatch

theorem mergeBatches_eq (bs : List ResultBatch) (d : Table) :
    mergeBatches bs d = appendAll d (bs.flatMap (·.appended)) := by
  unfold mergeBatches
  induction bs generalizing d with
  | nil => rfl
  | cons b bs ih =>
    rw [List.foldl_cons, ih, appendBatch_eq, List.flatMap_cons]
    simp only [appendAll, List.foldl_append]

/-- What a batch of the mode `tools` returns. -/
def Batch.resultBatch (pre : Text) (b : Batch) : ResultBatch :=
  ⟨b.tool, b.discipline, b.tests.filterMap (runToolTest b.tool pre b.discipline)⟩

/-- The table of the mode `tools` is a merge. -/
theorem runBatches_eq_mergeBatches (pre : Text) (bs : List Batch) (d : Table) :
    runBatches pre bs d = some (mergeBatches (bs.map (·.resultBatch pre)) d) := by
  rw [runBatches_eq, mergeBatches_eq, List.flatMap_map]
  rfl

/-- One batch for each tool and discipline, a name in one discipline only, and once in a batch. -/
structure Mergeable (bs : List ResultBatch) : Prop where
  pairs : (bs.map fun b => (b.tool, b.discipline)).Nodup
  disciplines : ∀ b ∈ bs, ∀ b' ∈ bs, ∀ t, b.Ran t → b'.Ran t → b.discipline = b'.discipline
  names : ∀ b ∈ bs, (b.results.map Prod.fst).Nodup

namespace Mergeable

variable {bs bs' : List ResultBatch}

theorem perm (h : Mergeable bs) (hp : bs.Perm bs') : Mergeable bs' where
  pairs := (hp.map _).nodup_iff.1 h.pairs
  disciplines := fun b hb b' hb' => h.disciplines b (hp.mem_iff.2 hb) b' (hp.mem_iff.2 hb')
  names := fun b hb => h.names b (hp.mem_iff.2 hb)

/-- A tool ran a test in one batch. -/
theorem batch_eq (h : Mergeable bs) {b b' : ResultBatch} (hb : b ∈ bs) (hb' : b' ∈ bs)
    (ht : b.tool = b'.tool) {t : Text} (hr : b.Ran t) (hr' : b'.Ran t) : b = b' := by
  have hd := h.disciplines b hb b' hb' t hr hr'
  exact List.inj_on_of_nodup_map h.pairs hb hb' (Prod.ext ht hd)

theorem writes_unique (h : Mergeable bs) {b b' : ResultBatch} (hb : b ∈ bs) (hb' : b' ∈ bs)
    {t c v v' : Text} (hw : b.Writes t c v) (hw' : b'.Writes t c v') : v = v' := by
  obtain ⟨c', hc⟩ : ∃ c', c' = c := ⟨c, rfl⟩
  obtain ⟨t', ht⟩ : ∃ t', t' = t := ⟨t, rfl⟩
  rw [← hc, ← ht] at hw'
  cases hw with
  | discipline hr =>
    cases hw' with
    | discipline hr' => exact h.disciplines b hb b' hb' t hr (ht ▸ hr')
    | result => exact absurd hc b'.tool.name_ne_discipline
  | @result r hr =>
    cases hw' with
    | discipline => exact absurd hc.symm b.tool.name_ne_discipline
    | @result r' hr' =>
      have hran : b.Ran r.1 := List.mem_map_of_mem hr
      have hran' : b'.Ran r.1 := ht ▸ List.mem_map_of_mem hr'
      obtain rfl := h.batch_eq hb hb' (Tool.name_inj.1 hc.symm) hran hran'
      rw [List.inj_on_of_nodup_map (h.names b hb) hr' hr ht]

theorem consistent (h : Mergeable bs) : Consistent (bs.flatMap (·.appended)) := by
  intro a ha a' ha' t c v v' hw hw'
  obtain ⟨b, hb, hm⟩ := List.mem_flatMap.1 ha
  obtain ⟨b', hb', hm'⟩ := List.mem_flatMap.1 ha'
  exact h.writes_unique hb hb' (writes_iff.1 ⟨a, hm, hw⟩) (writes_iff.1 ⟨a', hm', hw'⟩)

end Mergeable

/-- The cells of a merge are those that its batches write. -/
theorem cell_mergeBatches_iff {bs : List ResultBatch} (h : Mergeable bs) {t c v : Text} :
    cell (mergeBatches bs .empty) t c = some v ↔ ∃ b ∈ bs, b.Writes t c v := by
  rw [mergeBatches_eq, cell_appendAll_iff h.consistent]
  simp only [List.mem_flatMap, ← writes_iff]
  constructor
  · intro h
    obtain ⟨a, ⟨b, hb, ha⟩, hw⟩ := h
    exact ⟨b, hb, a, ha, hw⟩
  · intro h
    obtain ⟨b, hb, a, ha, hw⟩ := h
    exact ⟨a, ⟨b, hb, ha⟩, hw⟩

theorem get?_mergeBatches_iff {bs : List ResultBatch} {t : Text} :
    ((mergeBatches bs .empty).get? t).isSome = true ↔ ∃ b ∈ bs, b.Ran t := by
  rw [mergeBatches_eq, get?_appendAll, Dict.get?_empty]
  simp only [List.mem_flatMap, ← ran_iff, Option.isSome_none, Bool.false_eq_true, or_false]
  constructor
  · intro h
    obtain ⟨a, ⟨b, hb, ha⟩, ht⟩ := h
    exact ⟨b, hb, a, ha, ht⟩
  · intro h
    obtain ⟨b, hb, a, ha, ht⟩ := h
    exact ⟨a, ⟨b, hb, ha⟩, ht⟩

/-! ## What a batch does not touch -/

theorem get?_appendResult_of_ne {name discipline : Text} {d : Table} {r : Text × Result} {t : Text}
    (h : t ≠ r.1) : (appendResult name discipline d r).get? t = d.get? t := by
  unfold appendResult setCell
  rw [Dict.get?_set, if_neg h, Dict.get?_set, if_neg h]
  split
  · rw [Dict.get?_set, if_neg h]
  · rfl

/-- The records of other tests and the results of other tools stay as they are. -/
theorem resultsAppend_frame (d : Table) (b : ResultBatch) (t : Text) :
    (¬ b.Ran t → (appendBatch d b).get? t = d.get? t) ∧
      ∀ tool, tool ≠ b.tool → cell (appendBatch d b) t tool.name = cell d t tool.name := by
  refine ⟨fun ht => ?_, fun tool htool => ?_⟩
  · unfold ResultBatch.Ran at ht
    unfold appendBatch resultsAppend
    generalize b.results = results at ht
    induction results generalizing d with
    | nil => rfl
    | cons r results ih =>
      rw [List.map_cons, List.mem_cons, not_or] at ht
      exact (ih _ ht.2).trans (get?_appendResult_of_ne ht.1)
  · rw [appendBatch_eq]
    refine cell_appendAll_of_not_writes (fun a ha v hw => ?_) d
    obtain ⟨c, hc⟩ : ∃ c, c = tool.name := ⟨_, rfl⟩
    rw [← hc] at hw
    cases writes_iff.1 ⟨a, ha, hw⟩ with
    | discipline => exact tool.name_ne_discipline hc.symm
    | result => exact htool (Tool.name_inj.1 hc.symm)

/-! ## The order of the batches -/

/-- The same keys, each with the same record. -/
structure SameTable (d d' : Table) : Prop where
  keys : ∀ t, (d.get? t).isSome = true ↔ (d'.get? t).isSome = true
  cells : ∀ t c, cell d t c = cell d' t c

theorem SameTable.of_perm {bs bs' : List ResultBatch} (h : Mergeable bs) (hp : bs.Perm bs') :
    SameTable (mergeBatches bs .empty) (mergeBatches bs' .empty) := by
  refine ⟨fun t => ?_, fun t c => Option.ext fun v => ?_⟩
  · rw [get?_mergeBatches_iff, get?_mergeBatches_iff]
    simp only [hp.mem_iff]
  · rw [cell_mergeBatches_iff h, cell_mergeBatches_iff (h.perm hp)]
    simp only [hp.mem_iff]

/-- The order in which the mode `tools` goes through the tools and the disciplines makes no difference to its
table. -/
theorem runBatches_perm {pre : Text} {bs bs' : List Batch}
    (h : Mergeable (bs.map (·.resultBatch pre))) (hp : bs.Perm bs') :
    ∃ d d', runBatches pre bs .empty = some d ∧ runBatches pre bs' .empty = some d' ∧
      SameTable d d' :=
  ⟨_, _, runBatches_eq_mergeBatches pre bs .empty, runBatches_eq_mergeBatches pre bs' .empty,
    .of_perm h (hp.map _)⟩

/-- The merge depends on the set of batches only: it has a record for each test that some tool ran, with the
test's discipline and the results of its tools. A batch changes no other entries. -/
theorem merge_order_independent {bs : List ResultBatch} (h : Mergeable bs) :
    (∀ bs', bs.Perm bs' → SameTable (mergeBatches bs .empty) (mergeBatches bs' .empty)) ∧
      (∀ t, ((mergeBatches bs .empty).get? t).isSome = true ↔ ∃ b ∈ bs, b.Ran t) ∧
      (∀ t c v, cell (mergeBatches bs .empty) t c = some v ↔ ∃ b ∈ bs, b.Writes t c v) ∧
      ∀ d b t, (¬ b.Ran t → (appendBatch d b).get? t = d.get? t) ∧
        ∀ tool, tool ≠ b.tool → cell (appendBatch d b) t tool.name = cell d t tool.name :=
  ⟨fun _ hp => .of_perm h hp, fun _ => get?_mergeBatches_iff, fun _ _ _ => cell_mergeBatches_iff h,
    resultsAppend_frame⟩

/-- Two tools ran one test, and one of them a second test of another discipline. -/
def threeBatches : List ResultBatch :=
  [⟨.MUST, "sync".toList, [("a.c".toList, .TN)]⟩,
    ⟨.PARCOACHstatic, "sync".toList, [("a.c".toList, .FP)]⟩,
    ⟨.MUST, "misc".toList, [("b.c".toList, .TP), ("c.c".toList, .FN)]⟩]

theorem threeBatches_mergeable : Mergeable threeBatches where
  pairs := by decide
  disciplines := by
    have hall : ∀ b ∈ threeBatches, ∀ b' ∈ threeBatches, ∀ r ∈ b.results,
        r.1 ∈ b'.results.map Prod.fst → b.discipline = b'.discipline := by decide
    intro b hb b' hb' t ht ht'
    obtain ⟨r, hr, rfl⟩ := List.mem_map.1 ht
    exact hall b hb b' hb' r hr ht'
  names := by decide

theorem threeBatches_order_independent :
    (∀ bs', threeBatches.Perm bs' →
        SameTable (mergeBatches threeBatches .empty) (mergeBatches bs' .empty)) ∧
      (∀ t, ((mergeBatches threeBatches .empty).get? t).isSome = true ↔
        ∃ b ∈ threeBatches, b.Ran t) ∧
      (∀ t c v, cell (mergeBatches threeBatches .empty) t c = some v ↔
        ∃ b ∈ threeBatches, b.Writes t c v) ∧
      ∀ d b t, (¬ b.Ran t → (appendBatch d b).get? t = d.get? t) ∧
        ∀ tool, tool ≠ b.tool → cell (appendBatch d b) t tool.name = cell d t tool.name :=
  merge_order_independent threeBatches_mergeable

end Runner
