import RMARaceBench.Generator.Kind
import RMARaceBench.Runner.Command

/-!
# The tools

`Test` and the classes `RunMUSTTest`, `RunParcoachStaticTest`, `RunParcoachDynamicTest` of
`run_test.py`. The outcomes of the commands that a run executes come from `env`, in the order in which
they are executed.
-/

set_option autoImplicit false

namespace Runner

open Generator (Text)
open Generator.Text (isIn)

inductive Result
  | TP | FP | TN | FN | TO | CR | NOSUPPORT
  deriving DecidableEq, Repr

/-- What `Test.__init__` reads from the labels of a file. The locations are set for racy tests only. -/
structure Test where
  filename : Text
  raceKind : Text
  raceLoc1 : Int := 0
  raceLoc2 : Int := 0
  nprocs : Nat

namespace Test

def basename (t : Test) : Text := t.filename.basename

def hasRace (t : Test) : Bool := t.raceKind ≠ "none".toList

end Test

/-- `f'{n}'`. -/
def decimal : Int → Text
  | .ofNat n => Nat.toDigits 10 n
  | .negSucc n => '-' :: Nat.toDigits 10 (n + 1)

/-- `os.path.join(a, b)` for a relative `b`. -/
def joinPath (a b : Text) : Text :=
  if a = [] ∨ a.getLast? = some '/' then a ++ b else a ++ '/' :: b

/-- What a command is for. -/
inductive Phase
  | compile | instrument | link | execute
  deriving DecidableEq, Repr

/-- A command that was executed. -/
structure Executed where
  phase : Phase
  command : Text
  result : RunResult
  deriving DecidableEq, Repr

/-- The attributes of a `RunTest` object. `executed` are the lines of `cmd_out`, with the result of each
command. -/
structure RunTest where
  test : Test
  outFolder : Text
  output : Option Text := none
  runresult : Option RunResult := none
  stdout : Text := []
  executed : List Executed := []

namespace RunTest

def sourceFile (s : RunTest) : Text := joinPath s.outFolder s.test.basename

/-- `self.run_command(command)`. -/
def runCommand (env : Nat → Outcome) (phase : Phase) (command : Text) (s : RunTest) :
    (Text × RunResult) × RunTest :=
  let r := Runner.runCommand (env s.executed.length)
  (r, { s with executed := s.executed ++ [⟨phase, command, r.2⟩] })

/-- `self.run_command(command)` with the result dropped. -/
def runDropped (env : Nat → Outcome) (phase : Phase) (command : Text) (s : RunTest) : RunTest :=
  (s.runCommand env phase command).2

/-- `self.write_stdout(…)`. -/
def writeStdout (s : RunTest) : RunTest := { s with stdout := s.stdout ++ s.output.getD [] }

/-- `self.output, self.runresult = self.run_command(command)`, then `self.write_stdout(self.output)`. -/
def runKept (env : Nat → Outcome) (phase : Phase) (command : Text) (s : RunTest) : RunTest :=
  let ((output, runresult), s) := s.runCommand env phase command
  { s with output := some output, runresult := some runresult }.writeStdout

/-- `RunTest.parse`. It fails when it reads an attribute that is not set. -/
def parse (s : RunTest) (raceString : Text) (race1Test : Text := []) (race2Test : Text := []) :
    Option Result :=
  match s.runresult, s.output with
  | none, _ => none
  | some .TIMEOUT, _ => some .TO
  | some _, none => none
  | some _, some output => some <|
    if s.test.hasRace then
      if isIn raceString output then
        if ¬ isIn race1Test output then .FN
        else if ¬ isIn race2Test output then .FN
        else .TP
      else .FN
    else
      if ¬ isIn raceString output then .TN else .FP

end RunTest

/-! ## MUST -/

namespace RunMUSTTest

def run (env : Nat → Outcome) (s : RunTest) : RunTest :=
  let binaryOut := s.sourceFile ++ ".exe-must".toList
  let s := s.runDropped env .compile (("mpicc -fopenmp -g -Wl,--whole-archive " ++
        "/opt/must/lib/libonReportLoader.a -Wl,--no-whole-archive -ldl -fsanitize=thread ").toList ++
    s.sourceFile ++ " -o ".toList ++ binaryOut)
  s.runKept env .execute ("mustrun -np ".toList ++ decimal s.test.nprocs ++
    " --must:distributed --must:nodl --must:output stdout --must:tsan --must:rma ".toList ++
    binaryOut)

def parse (s : RunTest) : Option Result :=
  if s.test.hasRace then
    s.parse "data race".toList (s.test.basename ++ ':' :: decimal s.test.raceLoc1)
      (s.test.basename ++ ':' :: decimal s.test.raceLoc2)
  else s.parse "data race".toList

end RunMUSTTest

/-! ## PARCOACH -/

namespace RunParcoachStaticTest

/-- `'remote' in self.test.basename`. -/
def remote (t : Test) : Bool := isIn "remote".toList t.basename

def run (env : Nat → Outcome) (s : RunTest) : RunTest :=
  if remote s.test then s
  else
    let binaryOut := s.sourceFile
    let s := s.runDropped env .compile ("mpicc -fopenmp -O0 -g -S -emit-llvm ".toList ++
      s.sourceFile ++ " -o ".toList ++ binaryOut ++ ".ll".toList)
    s.runKept env .instrument ("parcoach -S --check=rma ".toList ++ binaryOut ++
      ".ll -o ".toList ++ binaryOut ++ "-instrumented.ll".toList)

def parse (s : RunTest) : Option Result :=
  if remote s.test then some .NOSUPPORT
  else if s.test.hasRace then
    s.parse "LocalConcurrency detected".toList ("LINE ".toList ++ decimal s.test.raceLoc1)
      ("LINE ".toList ++ decimal s.test.raceLoc2)
  else s.parse "LocalConcurrency detected".toList

end RunParcoachStaticTest

namespace RunParcoachDynamicTest

/-- The loop over the attempts, with `n` of them left. -/
def attempts (env : Nat → Outcome) (command : Text) : Nat → RunTest → RunTest
  | 0, s => s
  | n + 1, s =>
    let ((ret, runresult), s) := s.runCommand env .execute command
    let s := { s with runresult := some runresult }
    if runresult ≠ .TIMEOUT then { s with output := some ret }.writeStdout
    else attempts env command n s

def run (env : Nat → Outcome) (s : RunTest) : RunTest :=
  let binaryOut := s.sourceFile
  let s := s.runDropped env .compile ("mpicc -fopenmp -O0 -g -S -emit-llvm ".toList ++
    s.sourceFile ++ " -o ".toList ++ binaryOut ++ ".ll".toList)
  let s := s.runDropped env .instrument ("parcoach -S --check=rma ".toList ++ binaryOut ++
    ".ll -o ".toList ++ binaryOut ++ "-instrumented.ll".toList)
  let s := s.runDropped env .link ("mpicc -fopenmp -O0 -g ".toList ++ binaryOut ++
    "-instrumented.ll -o ".toList ++ binaryOut ++ ("-instrumented.exe " ++
        "-Wl,-rpath=/opt/parcoach/lib /opt/parcoach/lib/libParcoachInstrumentation.so").toList)
  attempts env ("mpirun -np ".toList ++ decimal s.test.nprocs ++ ' ' :: binaryOut ++
    "-instrumented.exe".toList) 10 { s with output := some "timeout".toList }

def parse (s : RunTest) : Option Result :=
  if s.test.hasRace then
    s.parse "Error when inserting memory access".toList
      (s.test.basename.basename ++ ':' :: decimal s.test.raceLoc1)
      (s.test.basename.basename ++ ':' :: decimal s.test.raceLoc2)
  else s.parse "Error when inserting memory access".toList

end RunParcoachDynamicTest

/-! ## The factory -/

inductive Tool
  | MUST | PARCOACHdynamic | PARCOACHstatic
  deriving DecidableEq, Repr

namespace Tool

/-- The names in `defaulttools`. -/
def name : Tool → Text
  | MUST => "MUST".toList
  | PARCOACHdynamic => "PARCOACH-dynamic".toList
  | PARCOACHstatic => "PARCOACH-static".toList

/-- `mt.run()` for the object that `createTest` makes. -/
def run (env : Nat → Outcome) (s : RunTest) : Tool → RunTest
  | MUST => RunMUSTTest.run env s
  | PARCOACHdynamic => RunParcoachDynamicTest.run env s
  | PARCOACHstatic => RunParcoachStaticTest.run env s

/-- `mt.parse()`. -/
def parse (s : RunTest) : Tool → Option Result
  | MUST => RunMUSTTest.parse s
  | PARCOACHdynamic => RunParcoachDynamicTest.parse s
  | PARCOACHstatic => RunParcoachStaticTest.parse s

end Tool

end Runner
