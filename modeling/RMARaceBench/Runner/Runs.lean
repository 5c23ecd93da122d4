import Mathlib.Data.List.TakeWhile
import RMARaceBench.Runner.Tools

/-!
# What a run leaves behind

`Tool.run_spec`: a run executes some commands whose results it drops, then one command that it repeats
while it times out. `Tool.parse_eq`: the parse methods differ in the message and in the form of a
reference only.
-/

set_option autoImplicit false

namespace Runner

open Generator (Text)
open Generator.Text (isIn)

/-! ## The commands of a tool -/

namespace Tool

/-- The commands whose results `run` drops. -/
def dropped : Tool → List Phase
  | MUST => [.compile]
  | PARCOACHdynamic => [.compile, .instrument, .link]
  | PARCOACHstatic => [.compile]

/-- The command whose output is parsed. -/
def kept : Tool → Phase
  | MUST => .execute
  | PARCOACHdynamic => .execute
  | PARCOACHstatic => .instrument

/-- How often the last command is started while it times out. -/
def tries : Tool → Nat
  | MUST => 1
  | PARCOACHdynamic => 10
  | PARCOACHstatic => 1

/-- `run` executes commands for the test. -/
def runs (t : Test) : Tool → Bool
  | PARCOACHstatic => !RunParcoachStaticTest.remote t
  | _ => true

/-- The race message of the tool. -/
def raceString : Tool → Text
  | MUST => "data race".toList
  | PARCOACHdynamic => "Error when inserting memory access".toList
  | PARCOACHstatic => "LocalConcurrency detected".toList

/-- How the tool's output refers to a line of the test. -/
def reference (t : Test) (loc : Int) : Tool → Text
  | PARCOACHstatic => "LINE ".toList ++ decimal loc
  | _ => t.basename ++ ':' :: decimal loc

end Tool

/-! ## Parsing -/

theorem basename_basename (p : Text) : p.basename.basename = p.basename := by
  unfold Generator.Text.basename
  rw [List.reverse_reverse, List.takeWhile_idem]

theorem Tool.parse_eq {tool : Tool} {s : RunTest} (h : tool.runs s.test = true) :
    tool.parse s =
      if s.test.hasRace then
        s.parse tool.raceString (tool.reference s.test s.test.raceLoc1)
          (tool.reference s.test s.test.raceLoc2)
      else s.parse tool.raceString := by
  cases tool with
  | MUST => rfl
  | PARCOACHdynamic =>
    show RunParcoachDynamicTest.parse s = _
    unfold RunParcoachDynamicTest.parse
    rw [show s.test.basename.basename = s.test.basename from basename_basename _]
    rfl
  | PARCOACHstatic =>
    have hr : RunParcoachStaticTest.remote s.test = false := by simpa [runs] using h
    show RunParcoachStaticTest.parse s = _
    unfold RunParcoachStaticTest.parse
    rw [hr]
    rfl

/-- A tool that does not run the test reports that it does not support it. -/
theorem Tool.parse_unsupported {tool : Tool} {s : RunTest} (h : tool.runs s.test = false) :
    tool.parse s = some .NOSUPPORT := by
  cases tool with
  | MUST => cases h
  | PARCOACHdynamic => cases h
  | PARCOACHstatic =>
    have hr : RunParcoachStaticTest.remote s.test = true := by simpa [runs] using h
    exact if_pos hr

theorem RunTest.parse_timeout {s : RunTest} (h : s.runresult = some .TIMEOUT)
    (raceString race1 race2 : Text) : s.parse raceString race1 race2 = some .TO := by
  unfold parse
  rw [h]

theorem RunTest.parse_output {s : RunTest} {r : RunResult} {output : Text}
    (hr : s.runresult = some r) (hn : r ≠ .TIMEOUT) (ho : s.output = some output)
    (raceString race1 race2 : Text) :
    s.parse raceString race1 race2 = some (
      if s.test.hasRace then
        if isIn raceString output then
          if ¬ isIn race1 output then .FN else if ¬ isIn race2 output then .FN else .TP
        else .FN
      else if ¬ isIn raceString output then .TN else .FP) := by
  unfold parse
  rw [hr, ho]
  cases r with
  | TIMEOUT => exact absurd rfl hn
  | SUCCESS => rfl
  | CRASH => rfl

/-! ## Running -/

/-- Phases and results of the commands executed so far. -/
def RunTest.log (s : RunTest) : List (Phase × RunResult) := s.executed.map fun x => (x.phase, x.result)

/-- Of `n` attempts from number `b` on, attempt `i` is the first that ends. -/
structure Finishes (env : Nat → Outcome) (b n i : Nat) (returncode : Int) (out : List UInt8) :
    Prop where
  lt : i < n
  before : ∀ j < i, env (b + j) = .timeout
  ends : env (b + i) = .exit returncode out

/-- All of `n` attempts from number `b` on time out. -/
def TimesOut (env : Nat → Outcome) (b n : Nat) : Prop := ∀ i < n, env (b + i) = .timeout

instance (env : Nat → Outcome) (b n : Nat) : Decidable (TimesOut env b n) :=
  inferInstanceAs (Decidable (∀ i < n, _))

/-- The command whose output the tool parses times out in every attempt. -/
def Tool.TimedOut (tool : Tool) (env : Nat → Outcome) : Prop :=
  TimesOut env tool.dropped.length tool.tries

instance (tool : Tool) (env : Nat → Outcome) : Decidable (tool.TimedOut env) :=
  inferInstanceAs (Decidable (TimesOut _ _ _))

theorem Finishes.unique {env : Nat → Outcome} {b n i i' : Nat} {c c' : Int} {out out' : List UInt8}
    (h : Finishes env b n i c out) (h' : Finishes env b n i' c' out') :
    i = i' ∧ c = c' ∧ out = out' := by
  have hi : i = i' := by
    obtain hlt | rfl | hlt := Nat.lt_trichotomy i i'
    · have := h'.before i hlt
      rw [h.ends] at this
      cases this
    · rfl
    · have := h.before i' hlt
      rw [h'.ends] at this
      cases this
  subst hi
  have := h.ends.symm.trans h'.ends
  simp only [Outcome.exit.injEq] at this
  exact ⟨rfl, this⟩

theorem Finishes.not_timesOut {env : Nat → Outcome} {b n i : Nat} {c : Int} {out : List UInt8}
    (h : Finishes env b n i c out) : ¬ TimesOut env b n := by
  intro ht
  have := ht i h.lt
  rw [h.ends] at this
  cases this

/-- One attempt more. -/
theorem Finishes.succ {env : Nat → Outcome} {b n i : Nat} {c : Int} {out : List UInt8}
    (h0 : env b = .timeout) (h : Finishes env (b + 1) n i c out) :
    Finishes env b (n + 1) (i + 1) c out := by
  refine ⟨Nat.succ_lt_succ h.lt, fun j hj => ?_, ?_⟩
  · cases j with
    | zero => exact h0
    | succ j =>
      rw [← Nat.add_assoc, Nat.add_right_comm]
      exact h.before j (Nat.lt_of_succ_lt_succ hj)
  · rw [← Nat.add_assoc, Nat.add_right_comm]
    exact h.ends

/-- What a run leaves in the object after the dropped commands, whose log is `log`. -/
inductive Ended (env : Nat → Outcome) (b n : Nat) (phase : Phase) (log : List (Phase × RunResult))
    (s : RunTest) : Prop
  | timeout (h : TimesOut env b n) (hr : s.runresult = some .TIMEOUT)
      (hl : s.log = log ++ List.replicate n (phase, .TIMEOUT))
  | exit (i : Nat) (returncode : Int) (out : List UInt8) (h : Finishes env b n i returncode out)
      (hr : s.runresult = some (exitResult returncode)) (ho : s.output = some (shown out))
      (hl : s.log = log ++ List.replicate i (phase, .TIMEOUT) ++ [(phase, exitResult returncode)])

/-- The object after an attempt that times out. -/
def RunTest.timedOut (s : RunTest) (phase : Phase) (command : Text) : RunTest :=
  { s with
    runresult := some .TIMEOUT
    executed := s.executed ++ [⟨phase, command, .TIMEOUT⟩] }

@[simp] theorem RunTest.timedOut_length (s : RunTest) (phase : Phase) (command : Text) :
    (s.timedOut phase command).executed.length = s.executed.length + 1 := by
  simp [timedOut]

@[simp] theorem RunTest.timedOut_log (s : RunTest) (phase : Phase) (command : Text) :
    (s.timedOut phase command).log = s.log ++ [(phase, .TIMEOUT)] := by
  simp [timedOut, log]

theorem RunTest.runKept_ended (env : Nat → Outcome) (phase : Phase) (command : Text) (s : RunTest) :
    Ended env s.executed.length 1 phase s.log (s.runKept env phase command) := by
  cases he : env s.executed.length with
  | timeout =>
    refine .timeout (fun i hi => ?_) ?_ ?_
    · obtain rfl : i = 0 := by omega
      exact he
    · simp [runKept, RunTest.runCommand, writeStdout, he, Runner.runCommand]
    · simp [runKept, RunTest.runCommand, writeStdout, he, Runner.runCommand, log]
  | exit c out =>
    refine .exit 0 c out ⟨Nat.one_pos, fun j hj => absurd hj (Nat.not_lt_zero j), he⟩ ?_ ?_ ?_ <;>
      simp [runKept, RunTest.runCommand, writeStdout, he, Runner.runCommand, log]

namespace RunParcoachDynamicTest

theorem attempts_timeout {env : Nat → Outcome} {s : RunTest}
    (he : env s.executed.length = .timeout) (command : Text) (n : Nat) :
    attempts env command (n + 1) s = attempts env command n (s.timedOut .execute command) := by
  conv => lhs; unfold attempts
  simp only [RunTest.runCommand, he, Runner.runCommand]
  rfl

theorem attempts_exit {env : Nat → Outcome} {s : RunTest} {c : Int} {out : List UInt8}
    (he : env s.executed.length = .exit c out) (command : Text) (n : Nat) :
    attempts env command (n + 1) s =
      { s with
        runresult := some (exitResult c)
        output := some (shown out)
        stdout := s.stdout ++ shown out
        executed := s.executed ++ [⟨.execute, command, exitResult c⟩] } := by
  unfold attempts
  simp only [RunTest.runCommand, he, Runner.runCommand]
  rw [if_pos (exitResult_ne_timeout c)]
  rfl

/-- The attempts of PARCOACH-dynamic, by induction on their number. -/
theorem attempts_ended (env : Nat → Outcome) (command : Text) (n : Nat) (s : RunTest) :
    Ended env s.executed.length (n + 1) .execute s.log (attempts env command (n + 1) s) := by
  induction n generalizing s with
  | zero =>
    cases he : env s.executed.length with
    | timeout =>
      rw [attempts_timeout he]
      refine .timeout (fun i hi => ?_) rfl (s.timedOut_log .execute command)
      obtain rfl : i = 0 := by omega
      exact he
    | exit c out =>
      rw [attempts_exit he]
      exact .exit 0 c out ⟨Nat.one_pos, fun j hj => absurd hj (Nat.not_lt_zero j), he⟩ rfl rfl
        (by simp [RunTest.log])
  | succ n ih =>
    cases he : env s.executed.length with
    | timeout =>
      rw [attempts_timeout he]
      cases ih (s.timedOut .execute command) with
      | timeout ht hr hl =>
        refine .timeout (fun i hi => ?_) hr ?_
        · cases i with
          | zero => exact he
          | succ i =>
            have := ht i (Nat.lt_of_succ_lt_succ hi)
            rwa [RunTest.timedOut_length, Nat.add_assoc, Nat.add_comm 1] at this
        · rw [hl, RunTest.timedOut_log, List.append_assoc]
          rfl
      | exit i c out hf hr ho hl =>
        rw [RunTest.timedOut_length] at hf
        refine .exit (i + 1) c out (hf.succ he) hr ho ?_
        rw [hl, RunTest.timedOut_log, List.append_assoc s.log]
        rfl
    | exit c out =>
      rw [attempts_exit he]
      exact .exit 0 c out ⟨Nat.succ_pos _, fun j hj => absurd hj (Nat.not_lt_zero j), he⟩ rfl rfl
        (by simp [RunTest.log])

end RunParcoachDynamicTest

/-! ## One spec for all tools -/

/-- The object as `__init__` leaves it. -/
def RunTest.new (test : Test) (outFolder : Text) : RunTest := { test, outFolder }

/-- The log of the commands whose results are dropped. -/
def Tool.droppedLog (env : Nat → Outcome) (tool : Tool) : List (Phase × RunResult) :=
  tool.dropped.zipIdx.map fun x => (x.1, (Runner.runCommand (env x.2)).2)

theorem Ended.congr {env : Nat → Outcome} {b b' n : Nat} {phase : Phase}
    {log log' : List (Phase × RunResult)} {s : RunTest} (h : Ended env b n phase log s) (hb : b = b')
    (hl : log = log') : Ended env b' n phase log' s :=
  hb ▸ hl ▸ h

theorem Tool.run_spec (tool : Tool) (env : Nat → Outcome) (t : Test) (outFolder : Text)
    (h : tool.runs t = true) :
    Ended env tool.dropped.length tool.tries tool.kept (tool.droppedLog env)
      (tool.run env (.new t outFolder)) := by
  cases tool with
  | MUST => exact (RunTest.runKept_ended env .execute _ _).congr rfl rfl
  | PARCOACHdynamic => exact (RunParcoachDynamicTest.attempts_ended env _ 9 _).congr rfl rfl
  | PARCOACHstatic =>
    have hr : RunParcoachStaticTest.remote t = false := by simpa [runs] using h
    show Ended env 1 1 .instrument _ (RunParcoachStaticTest.run env _)
    unfold RunParcoachStaticTest.run
    rw [if_neg (by simpa [RunTest.new] using hr)]
    exact (RunTest.runKept_ended env .instrument _ _).congr rfl rfl

@[simp] theorem RunParcoachDynamicTest.attempts_test (env : Nat → Outcome) (command : Text) (n : Nat)
    (s : RunTest) : (attempts env command n s).test = s.test := by
  induction n generalizing s with
  | zero => rfl
  | succ n ih =>
    cases he : env s.executed.length with
    | timeout =>
      rw [attempts_timeout he, ih]
      rfl
    | exit c out => rw [attempts_exit he]

@[simp] theorem Tool.run_test (tool : Tool) (env : Nat → Outcome) (s : RunTest) :
    (tool.run env s).test = s.test := by
  cases tool with
  | MUST => rfl
  | PARCOACHdynamic => exact RunParcoachDynamicTest.attempts_test env _ 10 _
  | PARCOACHstatic =>
    show (RunParcoachStaticTest.run env s).test = s.test
    unfold RunParcoachStaticTest.run
    split <;> rfl

end Runner
