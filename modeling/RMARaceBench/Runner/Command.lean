import RMARaceBench.Generator.Text

/-!
# Commands

`run_command` of `run_test.py`, as a function of what the started process does.
-/

set_option autoImplicit false

namespace Runner

open Generator (Text)

inductive RunResult
  | SUCCESS | TIMEOUT | CRASH
  deriving DecidableEq, Repr

/-- What `run_command` sees of a process: it does not end within the timeout, or it exits with a
return code and its output. -/
inductive Outcome
  | timeout
  | exit (returncode : Int) (out : List UInt8)
  deriving DecidableEq, Repr

/-- `out.decode()`. -/
def decode (out : List UInt8) : Option Text :=
  (String.fromUTF8? ⟨out.toArray⟩).map String.toList

/-- The text that `run_command` returns for an output. -/
def shown (out : List UInt8) : Text := (decode out).getD "decoding error".toList

/-- The result that `run_command` returns for a return code. -/
def exitResult (returncode : Int) : RunResult := if returncode ≠ 0 then .CRASH else .SUCCESS

def runCommand : Outcome → Text × RunResult
  | .timeout => ([], .TIMEOUT)
  | .exit returncode out => (shown out, exitResult returncode)

namespace Outcome

/-- The process exits with code 0. -/
def succeeded : Outcome → Bool
  | .timeout => false
  | .exit returncode _ => returncode = 0

end Outcome

theorem exitResult_ne_timeout (returncode : Int) : exitResult returncode ≠ .TIMEOUT := by
  unfold exitResult
  split <;> simp

theorem shown_of_decode {out : List UInt8} {text : Text} (h : decode out = some text) :
    shown out = text := by
  rw [shown, h, Option.getD_some]

theorem runCommand_success_iff {o : Outcome} :
    (runCommand o).2 = .SUCCESS ↔ o.succeeded = true := by
  cases o with
  | timeout => simp [runCommand, Outcome.succeeded]
  | exit returncode out =>
    by_cases h : returncode = 0 <;> simp [runCommand, exitResult, Outcome.succeeded, h]

end Runner
