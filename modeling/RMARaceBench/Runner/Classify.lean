import RMARaceBench.Runner.Runs

/-!
# What a classification means

When `TP` means that the two labelled lines were reported (`truePositive_iff`), and when `TN` means that
every command of the run worked (`trueNegative_iff`).
-/

set_option autoImplicit false

namespace Runner

open Generator (Text)
open Generator.Text (isIn isIn_iff)

/-! ## References to a line -/

/-- `w` occurs in `s` and no decimal digit follows. -/
def RefersTo (w s : Text) : Prop :=
  ∃ a b, s = a ++ w ++ b ∧ b.head?.any Char.isDigit = false

/-- `RefersTo`, by a search. -/
def refersTo (w : Text) : Text → Bool
  | [] => w.isEmpty
  | c :: s =>
    (w.isPrefixOf (c :: s) && !((c :: s).drop w.length).head?.any Char.isDigit) || refersTo w s

theorem refersTo_iff {w s : Text} : refersTo w s = true ↔ RefersTo w s := by
  induction s with
  | nil =>
    unfold refersTo RefersTo
    constructor
    · intro h
      exact ⟨[], [], by simpa using h, rfl⟩
    · intro h
      obtain ⟨a, b, h, -⟩ := h
      simp only [List.nil_eq, List.append_eq_nil_iff] at h
      simp [h.1.2]
  | cons c s ih =>
    unfold refersTo
    rw [Bool.or_eq_true, ih, Bool.and_eq_true, List.isPrefixOf_iff_prefix, Bool.not_eq_true']
    constructor
    · intro h
      obtain ⟨⟨b, hb⟩, hd⟩ | ⟨a, b, rfl, hd⟩ := h
      · refine ⟨[], b, hb.symm, ?_⟩
        rwa [← hb, List.drop_left] at hd
      · exact ⟨c :: a, b, rfl, hd⟩
    · intro h
      obtain ⟨a, b, h, hd⟩ := h
      cases a with
      | nil =>
        left
        rw [List.nil_append] at h
        refine ⟨⟨b, h.symm⟩, ?_⟩
        rwa [h, List.drop_left]
      | cons d a =>
        right
        rw [List.cons_append, List.cons_append, List.cons.injEq] at h
        exact ⟨a, b, h.2, hd⟩

theorem RefersTo.infix {w s : Text} (h : RefersTo w s) : w <:+: s := by
  obtain ⟨a, b, rfl, -⟩ := h
  exact ⟨a, b, rfl⟩

/-- `w` occurs in `s`, but only with a further digit behind it. -/
def OnlyExtended (w s : Text) : Prop := w <:+: s ∧ ¬ RefersTo w s

/-! ## True positives -/

section
variable (tool : Tool) (t : Test) (output : Text)

/-- The output has the race message. -/
def Reports : Prop := tool.raceString <:+: output

/-- The output has the race message and refers to exactly the two labelled lines. -/
def ReportsLines : Prop :=
  Reports tool output ∧ RefersTo (tool.reference t t.raceLoc1) output ∧
    RefersTo (tool.reference t t.raceLoc2) output

/-- The output has the race message and both references, but one of them only inside a reference to a
line with a longer number. -/
def LongerLine : Prop :=
  Reports tool output ∧ tool.reference t t.raceLoc1 <:+: output ∧
    tool.reference t t.raceLoc2 <:+: output ∧
    (OnlyExtended (tool.reference t t.raceLoc1) output ∨
      OnlyExtended (tool.reference t t.raceLoc2) output)

end

/-- `parse` returns `TP` where the tool runs the test and the output has the message and both
references as substrings. -/
theorem parse_truePositive_iff {tool : Tool} {s : RunTest} {r : RunResult} {output : Text}
    (hrace : s.test.hasRace = true) (hr : s.runresult = some r) (hn : r ≠ .TIMEOUT)
    (ho : s.output = some output) :
    tool.parse s = some .TP ↔ tool.runs s.test = true ∧ Reports tool output ∧
      tool.reference s.test s.test.raceLoc1 <:+: output ∧
      tool.reference s.test s.test.raceLoc2 <:+: output := by
  cases hs : tool.runs s.test with
  | false => simp [Tool.parse_unsupported hs]
  | true =>
    rw [Tool.parse_eq hs, if_pos hrace, RunTest.parse_output hr hn ho, if_pos hrace]
    unfold Reports
    simp only [← isIn_iff]
    split
    · split
      · simp_all
      · split <;> simp_all
    · simp_all

/-- `TP` means exactly that the labelled lines were reported, unless a reference stands only inside a
longer number, or the lines were reported for a test that the tool does not run. -/
theorem truePositive_iff {tool : Tool} {s : RunTest} {r : RunResult} {output : Text}
    (hrace : s.test.hasRace = true) (hr : s.runresult = some r) (hn : r ≠ .TIMEOUT)
    (ho : s.output = some output) :
    (tool.parse s = some .TP ↔ ReportsLines tool s.test output) ↔
      if tool.runs s.test then ¬ LongerLine tool s.test output
      else ¬ ReportsLines tool s.test output := by
  rw [parse_truePositive_iff hrace hr hn ho]
  cases hs : tool.runs s.test with
  | false => simp
  | true =>
    unfold ReportsLines LongerLine OnlyExtended
    have h1 := RefersTo.infix (w := tool.reference s.test s.test.raceLoc1) (s := output)
    have h2 := RefersTo.infix (w := tool.reference s.test s.test.raceLoc2) (s := output)
    simp only [true_and, if_true]
    tauto

/-- The race of lines 1 and 2 counts as found when line 12 and line 2 are reported. -/
def line12 : RunTest where
  test := { filename := "x.c".toList, raceKind := "local".toList, raceLoc1 := 1, raceLoc2 := 2,
            nprocs := 2 }
  outFolder := []
  output := some "data race x.c:12 x.c:2".toList
  runresult := some .SUCCESS

theorem line12_not_exact :
    ¬ (Tool.MUST.parse line12 = some .TP ↔
      ReportsLines .MUST line12.test "data race x.c:12 x.c:2".toList) := by
  have hp : Tool.MUST.parse line12 = some .TP := by decide
  have hn : ¬ RefersTo (Tool.MUST.reference line12.test line12.test.raceLoc1)
      "data race x.c:12 x.c:2".toList := by
    rw [← refersTo_iff]
    decide
  intro h
  exact hn (h.1 hp).2.1

/-- A report of lines 1 and 2 for the same test. -/
theorem truePositive_iff_lines12 :
    (Tool.MUST.parse { line12 with output := some "data race x.c:1 x.c:2".toList } = some .TP ↔
      ReportsLines .MUST line12.test "data race x.c:1 x.c:2".toList) ↔
      if Tool.MUST.runs line12.test then ¬ LongerLine .MUST line12.test "data race x.c:1 x.c:2".toList
      else ¬ ReportsLines .MUST line12.test "data race x.c:1 x.c:2".toList :=
  @truePositive_iff .MUST { line12 with output := some "data race x.c:1 x.c:2".toList } .SUCCESS
    "data race x.c:1 x.c:2".toList (by decide) rfl (by decide) rfl

/-! ## True negatives -/

/-- For each command the last time that it was started. -/
def lastOfPhase : List (Phase × RunResult) → List (Phase × RunResult)
  | [] => []
  | x :: l => if l.any fun y => y.1 = x.1 then lastOfPhase l else x :: lastOfPhase l

theorem lastOfPhase_replicate (phase : Phase) (r r' : RunResult) (n : Nat) :
    lastOfPhase (List.replicate n (phase, r) ++ [(phase, r')]) = [(phase, r')] := by
  induction n with
  | zero => rfl
  | succ n ih =>
    rw [List.replicate_succ, List.cons_append, lastOfPhase, if_pos (by simp), ih]

/-- The commands whose results are dropped are different ones. -/
theorem Tool.lastOfPhase_droppedLog (tool : Tool) (env : Nat → Outcome) (n : Nat)
    (r r' : RunResult) :
    lastOfPhase (tool.droppedLog env ++ List.replicate n (tool.kept, r) ++ [(tool.kept, r')]) =
      tool.droppedLog env ++ [(tool.kept, r')] := by
  have hne : ∀ p ∈ tool.dropped, tool.kept ≠ p := by cases tool <;> decide
  have hnd : tool.dropped.Nodup := by cases tool <;> decide
  unfold droppedLog
  rw [List.append_assoc]
  generalize 0 = k
  generalize tool.dropped = ps at hne hnd
  induction ps generalizing k with
  | nil => exact lastOfPhase_replicate tool.kept r r' n
  | cons p l ih =>
    rw [List.nodup_cons] at hnd
    rw [List.zipIdx_cons, List.map_cons, List.cons_append, List.cons_append, lastOfPhase, if_neg,
      ih _ (fun q hq => hne q (List.mem_cons_of_mem p hq)) hnd.2]
    intro h
    rw [List.any_eq_true] at h
    obtain ⟨x, hx, hp⟩ := h
    replace hp : x.1 = p := of_decide_eq_true hp
    rw [List.mem_append, List.mem_append, List.mem_map, List.mem_replicate,
      List.mem_singleton] at hx
    obtain ⟨⟨q, i⟩, hq, rfl⟩ | ⟨-, rfl⟩ | rfl := hx
    · obtain rfl : q = p := hp
      exact hnd.1 (List.fst_mem_of_mem_zipIdx hq)
    · exact hne p List.mem_cons_self hp
    · exact hne p List.mem_cons_self hp

theorem Tool.droppedLog_success (tool : Tool) (env : Nat → Outcome) :
    (∀ x ∈ tool.droppedLog env, x.2 = .SUCCESS) ↔
      ∀ k < tool.dropped.length, (env k).succeeded = true := by
  unfold droppedLog
  constructor
  · intro h k hk
    rw [← runCommand_success_iff]
    exact h (tool.dropped[k], _) (List.mem_map.2 ⟨(tool.dropped[k], k),
      List.mem_iff_getElem?.2 ⟨k, by simp [hk]⟩, rfl⟩)
  · intro h x hx
    obtain ⟨⟨p, k⟩, hk, rfl⟩ := List.mem_map.1 hx
    rw [runCommand_success_iff]
    have := List.mem_zipIdx hk
    exact h k (by omega)

section
variable (tool : Tool) (env : Nat → Outcome) (t : Test)

/-- The first attempt that ends has the race message in its output. -/
def ReportsRace : Prop :=
  ∃ i returncode out, Finishes env tool.dropped.length tool.tries i returncode out ∧
    Reports tool (shown out)

/-- `parse` cannot return `TN`: nothing is run, every attempt times out, or a race is reported. -/
def NotNegative : Prop :=
  tool.runs t = false ∨ TimesOut env tool.dropped.length tool.tries ∨ ReportsRace tool env

/-- The commands before the last one exit with code 0, and so does the last one, at the first start. -/
def AllWork : Prop :=
  (∀ k < tool.dropped.length, (env k).succeeded = true) ∧
    (env tool.dropped.length).succeeded = true

/-- The commands before the last one exit with code 0, and so does the first attempt at the last one
that ends. -/
def AllWorkInTheEnd : Prop :=
  (∀ k < tool.dropped.length, (env k).succeeded = true) ∧
    ∃ i out, Finishes env tool.dropped.length tool.tries i 0 out

end

theorem RunTest.parse_negative_iff {tool : Tool} {s : RunTest} {returncode : Int}
    {out : List UInt8} (hs : tool.runs s.test = true) (hrace : s.test.hasRace = false)
    (hr : s.runresult = some (exitResult returncode)) (ho : s.output = some (shown out)) :
    tool.parse s = some .TN ↔ ¬ Reports tool (shown out) := by
  rw [Tool.parse_eq hs, hrace, if_neg (by simp), parse_output hr (exitResult_ne_timeout _) ho,
    hrace, if_neg (by simp), Reports, ← isIn_iff]
  split <;> simp_all

/-- `parse` returns `TN` when an attempt ends without the race message. -/
theorem trueNegative_cases (tool : Tool) (env : Nat → Outcome) {t : Test} (outFolder : Text)
    (hrace : t.hasRace = false) :
    NotNegative tool env t ∧ tool.parse (tool.run env (.new t outFolder)) ≠ some .TN ∨
    ∃ i returncode out, Finishes env tool.dropped.length tool.tries i returncode out ∧
      ¬ NotNegative tool env t ∧ tool.parse (tool.run env (.new t outFolder)) = some .TN ∧
      (tool.run env (.new t outFolder)).log = tool.droppedLog env ++
        List.replicate i (tool.kept, .TIMEOUT) ++ [(tool.kept, exitResult returncode)] := by
  have ht : (tool.run env (.new t outFolder)).test = t := tool.run_test env _
  cases hs : tool.runs t with
  | false =>
    refine .inl ⟨.inl hs, ?_⟩
    rw [Tool.parse_unsupported (by rw [ht]; exact hs)]
    simp
  | true =>
    cases tool.run_spec env t outFolder hs with
    | timeout h hr hl =>
      refine .inl ⟨.inr (.inl h), ?_⟩
      rw [Tool.parse_eq (by rw [ht]; exact hs), ht, hrace, if_neg (by simp),
        RunTest.parse_timeout hr]
      simp
    | exit i c out h hr ho hl =>
      have hp := RunTest.parse_negative_iff
        (show tool.runs (tool.run env (.new t outFolder)).test = true by rw [ht]; exact hs)
        (by rw [ht]; exact hrace) hr ho
      by_cases hrep : Reports tool (shown out)
      · refine .inl ⟨.inr (.inr ⟨i, c, out, h, hrep⟩), ?_⟩
        rw [ne_eq, hp, not_not]
        exact hrep
      · refine .inr ⟨i, c, out, h, ?_, hp.2 hrep, hl⟩
        intro hn
        obtain hn | hn | ⟨i', c', out', h', hrep'⟩ := hn
        · rw [hs] at hn
          cases hn
        · exact h.not_timesOut hn
        · obtain ⟨-, -, rfl⟩ := h.unique h'
          exact hrep hrep'

/-- `TN` means that every command that was started worked: exactly when no test without race report has a
command that failed. The second part judges a command that is repeated by its last start. -/
theorem trueNegative_iff (tool : Tool) (env : Nat → Outcome) {t : Test} (outFolder : Text)
    (hrace : t.hasRace = false) :
    ((tool.parse (tool.run env (.new t outFolder)) = some .TN →
      ∀ x ∈ (tool.run env (.new t outFolder)).log, x.2 = .SUCCESS) ↔
        NotNegative tool env t ∨ AllWork tool env) ∧
    ((tool.parse (tool.run env (.new t outFolder)) = some .TN →
      ∀ x ∈ lastOfPhase (tool.run env (.new t outFolder)).log, x.2 = .SUCCESS) ↔
        NotNegative tool env t ∨ AllWorkInTheEnd tool env) := by
  obtain ⟨hn, hp⟩ | ⟨i, c, out, h, hn, hp, hl⟩ := trueNegative_cases tool env outFolder hrace
  · exact ⟨iff_of_true (fun h => absurd h hp) (.inl hn), iff_of_true (fun h => absurd h hp) (.inl hn)⟩
  · have hc : exitResult c = .SUCCESS ↔ c = 0 := by
      unfold exitResult
      split <;> simp_all
    rw [hl, Tool.lastOfPhase_droppedLog, or_iff_right hn, or_iff_right hn]
    simp only [hp, true_imp_iff, List.mem_append, or_imp, forall_and,
      Tool.droppedLog_success, List.mem_singleton, forall_eq, hc]
    constructor
    · unfold AllWork
      constructor
      · intro hall
        obtain ⟨⟨hd, hrep⟩, rfl⟩ := hall
        refine ⟨hd, ?_⟩
        cases i with
        | zero =>
          have := h.ends
          rw [Nat.add_zero] at this
          rw [this]
          rfl
        | succ i =>
          have := hrep (tool.kept, .TIMEOUT) (by simp [List.replicate_succ])
          cases this
      · intro hall
        obtain ⟨hd, h0⟩ := hall
        cases i with
        | zero =>
          have := h.ends
          rw [Nat.add_zero] at this
          rw [this, Outcome.succeeded, decide_eq_true_iff] at h0
          exact ⟨⟨hd, by simp⟩, h0⟩
        | succ i =>
          have := h.before 0 (Nat.succ_pos i)
          rw [Nat.add_zero] at this
          rw [this] at h0
          cases h0
    · unfold AllWorkInTheEnd
      constructor
      · intro hall
        obtain ⟨hd, rfl⟩ := hall
        exact ⟨hd, i, out, h⟩
      · intro hall
        obtain ⟨hd, i', out', h'⟩ := hall
        exact ⟨hd, (h.unique h').2.1⟩

/-- A test without race. -/
def quiet : Test where
  filename := "x.c".toList
  raceKind := "none".toList
  nprocs := 2

/-- The compiler of MUST fails, and the output of `mustrun` has no race message: `TN`. -/
theorem failed_compile_trueNegative :
    let s := Tool.MUST.run (fun k => if k = 0 then .exit 1 [] else .exit 0 []) (.new quiet [])
    ¬ (Tool.MUST.parse s = some .TN → ∀ x ∈ s.log, x.2 = .SUCCESS) ∧
    ¬ (Tool.MUST.parse s = some .TN → ∀ x ∈ lastOfPhase s.log, x.2 = .SUCCESS) := by
  decide

/-- The same test where every command works. -/
theorem trueNegative_iff_quiet :
    ((Tool.MUST.parse (Tool.MUST.run (fun _ => .exit 0 []) (.new quiet [])) = some .TN →
      ∀ x ∈ (Tool.MUST.run (fun _ => .exit 0 []) (.new quiet [])).log, x.2 = .SUCCESS) ↔
        NotNegative .MUST (fun _ => .exit 0 []) quiet ∨ AllWork .MUST fun _ => .exit 0 []) ∧
    ((Tool.MUST.parse (Tool.MUST.run (fun _ => .exit 0 []) (.new quiet [])) = some .TN →
      ∀ x ∈ lastOfPhase (Tool.MUST.run (fun _ => .exit 0 []) (.new quiet [])).log,
        x.2 = .SUCCESS) ↔
        NotNegative .MUST (fun _ => .exit 0 []) quiet ∨ AllWorkInTheEnd .MUST fun _ => .exit 0 []) :=
  trueNegative_iff .MUST (fun _ => .exit 0 []) [] (by decide)

end Runner
