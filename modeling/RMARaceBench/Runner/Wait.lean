import RMARaceBench.Pipe.Process
import RMARaceBench.Runner.Command

/-!
# Waiting before reading

`run_command` waits for the exit of the process (`p.wait`) and reads its output only afterwards
(`p.communicate`). `returnsOutput_iff`: the text of the complete output is returned if and only if the
output fits into the pipe and is UTF-8.
-/

set_option autoImplicit false

namespace Runner

open Generator (Text)
open Pipe (Writer Inevitable)

/-- A program: its writes to the standard output, and its return code. -/
structure Process where
  writes : List (List UInt8)
  returncode : Int

def Process.output (p : Process) : List UInt8 := p.writes.flatten

/-- Where `run_command` stands: in `p.wait`, in `p.communicate` with what was read so far, or returned. -/
inductive Parent
  | waiting
  | communicating (out : List UInt8)
  | returned (result : Text × RunResult)

structure System where
  child : Writer UInt8
  parent : Parent

namespace System

def start (p : Process) : System := ⟨⟨p.writes, [], false⟩, .waiting⟩

/-- The steps of both parties. The process finishes in time when its output is read: the timeout can
expire only while it is blocked on the pipe. -/
inductive Step (C : Nat) (p : Process) : System → System → Prop
  | child {w w' : Writer UInt8} {parent : Parent} (h : Writer.Step C w w')
      (hp : ∀ result, parent ≠ .returned result) : Step C p ⟨w, parent⟩ ⟨w', parent⟩
  | waited {w : Writer UInt8} (h : w.exited = true) :
      Step C p ⟨w, .waiting⟩ ⟨w, .communicating []⟩
  | expired {w : Writer UInt8} (h : w.Blocked C) :
      Step C p ⟨w, .waiting⟩ ⟨w, .returned (runCommand .timeout)⟩
  | read {xs ys out : List UInt8} {pending : List (List UInt8)} {exited : Bool} (hx : xs ≠ []) :
      Step C p ⟨⟨pending, xs ++ ys, exited⟩, .communicating out⟩
        ⟨⟨pending, ys, exited⟩, .communicating (out ++ xs)⟩
  | eof {pending : List (List UInt8)} {out : List UInt8} :
      Step C p ⟨⟨pending, [], true⟩, .communicating out⟩
        ⟨⟨pending, [], true⟩, .returned (runCommand (.exit p.returncode out))⟩

/-- `run_command` has returned `result`. -/
def Returned (result : Text × RunResult) (s : System) : Prop := s.parent = .returned result

variable {C : Nat} {p : Process}

theorem Returned.no_step {result : Text × RunResult} {s s' : System} (h : Returned result s) :
    ¬ Step C p s s' := by
  intro hs
  cases hs with
  | child _ hp => exact hp result h
  | waited => cases h
  | expired => cases h
  | read => cases h
  | eof => cases h

/-! ## The invariant -/

/-- What holds in every state of a run: no byte is lost, and `communicate` starts after the exit. -/
inductive Inv (C : Nat) (p : Process) : System → Prop
  | waiting {w : Writer UInt8} (hw : w.Ok C) (ht : w.total = p.output) : Inv C p ⟨w, .waiting⟩
  | communicating {b out : List UInt8} (hC : p.output.length ≤ C) (ht : out ++ b = p.output) :
      Inv C p ⟨⟨[], b, true⟩, .communicating out⟩
  | complete {w : Writer UInt8} (hC : p.output.length ≤ C) :
      Inv C p ⟨w, .returned (shown p.output, exitResult p.returncode)⟩
  | expired {w : Writer UInt8} (hC : C < p.output.length) :
      Inv C p ⟨w, .returned ([], .TIMEOUT)⟩

/-- A bound on the number of steps. -/
def work : System → Nat
  | ⟨w, .waiting⟩ => w.work + w.total.length + 2
  | ⟨w, .communicating _⟩ => w.buffer.length + 1
  | ⟨_, .returned _⟩ => 0

/-- Everything fits, or the result is the timeout. -/
def Final (C : Nat) (p : Process) (s : System) : Prop :=
  if p.output.length ≤ C then Returned (shown p.output, exitResult p.returncode) s
  else Returned ([], .TIMEOUT) s

theorem Inv.start (C : Nat) (p : Process) : Inv C p (System.start p) :=
  .waiting ⟨Nat.zero_le C, by simp⟩ rfl

theorem Inv.step_exists {s : System} (h : Inv C p s) (hf : ¬ Final C p s) : ∃ s', Step C p s s' := by
  cases h with
  | @waiting w hw ht =>
    by_cases he : w.exited = true
    · exact ⟨_, .waited he⟩
    · by_cases hs : ∃ w', Writer.Step C w w'
      · obtain ⟨w', hs⟩ := hs
        exact ⟨_, .child hs (by simp)⟩
      · exact ⟨_, .expired ⟨by simpa using he, not_exists.1 hs⟩⟩
  | @communicating b out hC ht =>
    cases b with
    | nil => exact ⟨_, .eof⟩
    | cons x b => exact ⟨_, @Step.read C p [x] b out [] true (by simp)⟩
  | complete hC => exact absurd (by rw [Final, if_pos hC]; rfl) hf
  | expired hC => exact absurd (by rw [Final, if_neg (by omega)]; rfl) hf

/-- One step keeps the invariant. -/
theorem Inv.step {s s' : System} (h : Inv C p s) (hs : Step C p s s') :
    Inv C p s' ∧ s'.work < s.work := by
  cases hs with
  | child hw hp =>
    cases h with
    | waiting hok ht =>
      refine ⟨.waiting (hw.ok hok) (hw.total.trans ht), ?_⟩
      have := hw.work
      simp only [work, hw.total]
      omega
    | communicating hC ht => cases hw
    | complete hC => exact absurd rfl (hp _)
    | expired hC => exact absurd rfl (hp _)
  | @waited w he =>
    cases h with
    | waiting hok ht =>
      obtain ⟨pending, b, e⟩ := w
      obtain rfl : e = true := he
      obtain rfl : pending = [] := hok.done rfl
      have hb : b = p.output := (hok.total_eq rfl).symm.trans ht
      refine ⟨.communicating (hb ▸ hok.fits) hb, ?_⟩
      simp only [work, Writer.total, List.flatten_nil, List.append_nil]
      omega
  | expired hb =>
    cases h with
    | waiting hok ht =>
      refine ⟨.expired ?_, Nat.succ_pos _⟩
      rw [← ht]
      exact (hb.full hok).2
  | read hx =>
    cases h with
    | communicating hC ht =>
      refine ⟨.communicating hC (by rw [List.append_assoc]; exact ht), ?_⟩
      have := List.length_pos_of_ne_nil hx
      simp only [work, List.length_append]
      omega
  | eof =>
    cases h with
    | communicating hC ht =>
      rw [List.append_nil] at ht
      subst ht
      exact ⟨.complete hC, Nat.succ_pos _⟩

theorem Final.no_step {s s' : System} (h : Final C p s) : ¬ Step C p s s' := by
  unfold Final at h
  split at h
  · exact h.no_step
  · exact h.no_step

/-- Every run returns: the complete output when it fits into the pipe, and the timeout otherwise. -/
theorem inevitable_final (C : Nat) (p : Process) :
    Inevitable (Step C p) (Final C p) (start p) :=
  Inevitable.of_measure work (fun _ hi hf => hi.step_exists hf) (fun _ _ hi _ hs => hi.step hs)
    (Inv.start C p)

/-- With output that fits into the pipe, every run returns what `run_command` makes of it. -/
theorem inevitable_shown (h : p.output.length ≤ C) :
    Inevitable (Step C p) (Returned (shown p.output, exitResult p.returncode)) (start p) := by
  have hret : Final C p = Returned (shown p.output, exitResult p.returncode) := by
    funext s
    exact if_pos h
  exact hret ▸ inevitable_final C p

/-- With output that does not fit, every run returns the timeout. -/
theorem inevitable_timeout (h : C < p.output.length) :
    Inevitable (Step C p) (Returned ([], .TIMEOUT)) (start p) := by
  have hret : Final C p = Returned ([], .TIMEOUT) := by
    funext s
    exact if_neg (Nat.not_le.2 h)
  exact hret ▸ inevitable_final C p

/-- Every run returns the same. -/
theorem Returned.unique {result result' : Text × RunResult}
    (h : Inevitable (Step C p) (Returned result) (start p))
    (h' : Inevitable (Step C p) (Returned result') (start p)) : result = result' := by
  obtain ⟨s, hs, hs'⟩ := h.common h' (fun _ _ h => h.no_step) (fun _ _ h => h.no_step)
  exact Parent.returned.inj (hs.symm.trans hs')

end System

/-! ## What `run_command` returns -/

/-- `SUCCESS` for a program that exits with code 0, and `CRASH` for any other. -/
def Process.result (p : Process) : RunResult := if p.returncode = 0 then .SUCCESS else .CRASH

theorem exitResult_returncode (p : Process) : exitResult p.returncode = p.result := by
  unfold exitResult Process.result
  by_cases h : p.returncode = 0 <;> simp [h]

/-- The output is a text, every run of the two parties returns this text with the result for the return
code, and no run returns the timeout. -/
def ReturnsOutput (C : Nat) (p : Process) : Prop :=
  ∃ text, decode p.output = some text ∧
    Inevitable (System.Step C p) (System.Returned (text, p.result)) (System.start p) ∧
    ∀ s, Relation.ReflTransGen (System.Step C p) (System.start p) s →
      ¬ System.Returned ([], .TIMEOUT) s

theorem Process.result_ne_timeout (p : Process) : p.result ≠ .TIMEOUT := by
  rw [← exitResult_returncode]
  exact exitResult_ne_timeout p.returncode

/-- Output that does not fit into the pipe: every run ends in the timeout. -/
theorem not_returnsOutput {C : Nat} {p : Process} (h : C < p.output.length) :
    ¬ ReturnsOutput C p := by
  intro hr
  obtain ⟨text, -, hret, -⟩ := hr
  have heq := System.Returned.unique hret (System.inevitable_timeout h)
  exact p.result_ne_timeout (congrArg Prod.snd heq)

/-- Output that is not UTF-8 is not returned, but the text `decoding error` is, in every run. -/
theorem returns_decoding_error {C : Nat} {p : Process} (h : p.output.length ≤ C)
    (hd : decode p.output = none) :
    Inevitable (System.Step C p) (System.Returned ("decoding error".toList, p.result))
      (System.start p) := by
  have hs : shown p.output = "decoding error".toList := by rw [shown, hd, Option.getD_none]
  rw [← hs, ← exitResult_returncode]
  exact System.inevitable_shown h

theorem returnsOutput_iff (C : Nat) (p : Process) :
    ReturnsOutput C p ↔ p.output.length ≤ C ∧ (decode p.output).isSome := by
  constructor
  · intro h
    refine ⟨?_, ?_⟩
    · by_contra hC
      exact not_returnsOutput (by omega) h
    · obtain ⟨text, hd, -⟩ := h
      rw [hd]
      rfl
  · intro h
    obtain ⟨hC, hd⟩ := h
    obtain ⟨text, hd⟩ := Option.isSome_iff_exists.1 hd
    have hret := System.inevitable_shown hC
    rw [shown_of_decode hd, exitResult_returncode] at hret
    refine ⟨text, hd, hret, fun s hs ht => ?_⟩
    cases hret.of_reach (fun _ _ h => h.no_step) hs with
    | here h =>
      have heq := Parent.returned.inj (h.symm.trans ht)
      exact p.result_ne_timeout (congrArg Prod.snd heq)
    | next he _ =>
      obtain ⟨s', hs'⟩ := he
      exact ht.no_step hs'

/-- A program that writes two bytes and exits with code 0, on a pipe for one byte. -/
theorem two_bytes_not_returnsOutput : ¬ ReturnsOutput 1 ⟨[[104, 105]], 0⟩ :=
  not_returnsOutput (by decide)

end Runner
