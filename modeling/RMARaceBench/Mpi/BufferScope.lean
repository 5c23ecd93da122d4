import RMARaceBench.Mpi.Boilerplate
import RMARaceBench.Mpi.Statements
import RMARaceBench.Omp.Threads

/-!
# The scope of origin buffers

Until a communication call is locally complete, its origin and result buffers must not go out of
scope (`Program.KeepsBuffers`). A sequential text keeps them when a walk through it, with the calls that
are pending behind each statement, leaves no block of their buffers (`keepsBuffersAt_of_covered`); any
text does whose calls have no variables as buffers (`keepsBuffersAt_of_unbuffered`).
-/

set_option autoImplicit false

namespace Mpi

open Causal Causal.System Omp

/-! ## Buffers and their completion -/

/-- The origin and result buffers that are variables. -/
def Rma.bufferVars (c : Rma) : List Var :=
  (c.origin.toList ++ c.result.toList).filterMap fun
    | .var x => some x
    | .cell _ _ => none

/-- The return of the statement means that the call `c` in front of it is locally complete.
`MPI_Wait` waits for the last request-based call. -/
def Stmt.completes (c : Rma) : Stmt → Bool
  | .fenceLeave w | .flushAll w | .flushLocalAll w | .unlockAll w | .complete w => w == c.win
  | .flush w t | .flushLocal w t | .unlock w t => w == c.win && t == c.target
  | .waitReq => c.isRequest
  | _ => false

/-- The variables that go out of scope. -/
def Stmt.leaves : Stmt → List Var
  | .leaveBlock xs => xs
  | _ => []

/-- Not a call with a variable as a buffer. -/
def Stmt.unbuffered : Stmt → Bool
  | .rma c => c.bufferVars.isEmpty
  | _ => true

namespace Program

variable (P : Program)

/-- Control leaves the block that declares a buffer of a call only after a statement behind the call
has completed it. -/
def KeepsBuffersAt (r : Nat) : Prop :=
  ∀ h y, P.system.Run (y :: h) → ∀ s, P.performed r y = some s →
    ∀ x ∈ h, ∀ c, P.performed r x = some (.rma c) → (∃ v ∈ c.bufferVars, v ∈ s.leaves) →
      ∃ h₂ h₁ z s', h = h₂ ++ z :: h₁ ∧ x ∈ h₁ ∧ P.performed r z = some s' ∧ s'.completes c = true

/-- **The origin buffer of a pending operation stays alive** (module doc), on every rank. -/
def KeepsBuffers : Prop := ∀ r, P.KeepsBuffersAt r

variable {P} {r : Nat}

theorem exists_item_of_performed {x : Event Actor} {s : Stmt} (h : P.performed r x = some s) :
    ∃ it, (P.items r)[x.2]? = some it ∧ it.stmt? = some s ∧ x.1.executes r it.who = true := by
  obtain ⟨it, hit, hs⟩ := Option.bind_eq_some_iff.1 h
  obtain ⟨hex, hs⟩ := Option.ite_none_right_eq_some.1 hs
  exact ⟨it, hit, hs, hex⟩

/-- A text whose calls have no variables as buffers. -/
theorem keepsBuffersAt_of_unbuffered
    (hno : AllStmts (fun _ s => s.unbuffered = true) (P.items r)) : P.KeepsBuffersAt r := by
  intro h y _ s _ x _ c hcall ⟨v, hv, _⟩
  obtain ⟨it, hit, hstmt, -⟩ := exists_item_of_performed hcall
  have hact : it.act = .stmt (.rma c) := by
    unfold Item.stmt? at hstmt
    split at hstmt
    · rename_i s' hact
      rw [hact, Option.some.inj hstmt]
    · cases hstmt
  have hempty : c.bufferVars.isEmpty = true := hno it (List.mem_of_getElem? hit) _ hact
  rw [List.isEmpty_iff.1 hempty] at hv
  cases hv

/-! ## Sequential texts -/

/-- The calls that are pending behind the statement, when `cs` are pending before it. -/
def pending (cs : List Rma) (s : Stmt) : List Rma :=
  let open_ := cs.filter fun c => !s.completes c
  match s with
  | .rma c => c :: open_
  | _ => open_

/-- From the calls `cs` on, no block is left that declares a buffer of a pending call. -/
def covered : List Rma → List Stmt → Bool
  | _, [] => true
  | cs, s :: ss =>
    (cs.all fun c => c.bufferVars.all fun v => !s.leaves.contains v) && covered (pending cs s) ss

section
variable {cs : List Rma} {ss : List Stmt} {c : Rma} {s : Stmt} {k j : Nat}

/-- A call stays pending until a statement completes it. -/
theorem mem_pending (hc : c ∈ cs) (hs : s.completes c = false) : c ∈ pending cs s := by
  have hmem : c ∈ cs.filter fun c => !s.completes c :=
    List.mem_filter.2 ⟨hc, by rw [hs]; rfl⟩
  cases s
  case rma c' => exact List.mem_cons_of_mem c' hmem
  all_goals exact hmem

/-- The block of a buffer of a pending call is left behind a statement that completes the call. -/
theorem completes_of_pending (h : covered cs ss = true) (hc : c ∈ cs) (hj : ss[j]? = some s)
    (hv : ∃ v ∈ c.bufferVars, v ∈ s.leaves) :
    ∃ m < j, ∃ s', ss[m]? = some s' ∧ s'.completes c = true := by
  induction ss generalizing cs j with
  | nil => cases hj
  | cons s₀ ss ih =>
    obtain ⟨hall, hrest⟩ := Bool.and_eq_true_iff.1 h
    cases j with
    | zero =>
      obtain rfl : s₀ = s := Option.some.inj hj
      obtain ⟨v, hvc, hvs⟩ := hv
      have hno := List.all_eq_true.1 (List.all_eq_true.1 hall c hc) v hvc
      rw [List.contains_iff_mem.2 hvs] at hno
      cases hno
    | succ j =>
      cases hs₀ : s₀.completes c with
      | true => exact ⟨0, Nat.succ_pos j, s₀, rfl, hs₀⟩
      | false =>
        obtain ⟨m, hm, s', hs', hcomp⟩ := ih hrest (mem_pending hc hs₀) hj
        exact ⟨m + 1, Nat.succ_lt_succ hm, s', hs', hcomp⟩

theorem completes_of_covered (h : covered cs ss = true) (hk : ss[k]? = some (.rma c)) (hkj : k < j)
    (hj : ss[j]? = some s) (hv : ∃ v ∈ c.bufferVars, v ∈ s.leaves) :
    ∃ m, k < m ∧ m < j ∧ ∃ s', ss[m]? = some s' ∧ s'.completes c = true := by
  induction ss generalizing cs k j with
  | nil => cases hj
  | cons s₀ ss ih =>
    obtain ⟨j, rfl⟩ : ∃ i, j = i + 1 := ⟨j - 1, by omega⟩
    have hrest := (Bool.and_eq_true_iff.1 h).2
    cases k with
    | zero =>
      obtain rfl : s₀ = .rma c := Option.some.inj hk
      obtain ⟨m, hm, hs'⟩ := completes_of_pending hrest List.mem_cons_self hj hv
      exact ⟨m + 1, Nat.succ_pos m, Nat.succ_lt_succ hm, hs'⟩
    | succ k =>
      obtain ⟨m, hkm, hmj, hs'⟩ := ih hrest hk (Nat.lt_of_succ_lt_succ hkj) hj
      exact ⟨m + 1, Nat.succ_lt_succ hkm, Nat.succ_lt_succ hmj, hs'⟩

end

theorem performed_seq {ss : List Stmt} (hi : P.items r = seq ss) {x : Event Actor} {s : Stmt}
    (h : P.performed r x = some s) : x.1 = .thread r 0 ∧ ss[x.2]? = some s := by
  obtain ⟨it, hit, hs, hex⟩ := exists_item_of_performed h
  rw [hi, getElem?_seq] at hit
  obtain ⟨s', hs', rfl⟩ := Option.map_eq_some_iff.1 hit
  cases hs
  refine ⟨?_, hs'⟩
  obtain ⟨a, k⟩ := x
  cases a with
  | thread q t =>
    simp only [Actor.executes, Who.runs, Bool.and_eq_true, beq_iff_eq] at hex
    rw [hex.1, hex.2]
  | task q j => simp [Actor.executes] at hex
  | op q j => cases hex
  | grant q j => cases hex

theorem performed_of_seq {ss : List Stmt} (hi : P.items r = seq ss) {k : Nat} {s : Stmt}
    (hs : ss[k]? = some s) : P.performed r (.thread r 0, k) = some s := by
  rw [performed, hi, getElem?_seq, hs]
  simp [Actor.executes, Who.runs, Item.stmt?]

/-- An actor's earlier events are those below its newest one. -/
theorem mem_below_iff {h : List (Event Actor)} {a : Actor} {k m : Nat}
    (hr : P.system.Run ((a, m) :: h)) : (a, k) ∈ h ↔ k < m := by
  have hm := (Run.mem_iff hr a m).1 List.mem_cons_self
  have hnot := (Run.head hr).1
  rw [done_cons_self] at hm
  rw [Run.mem_iff hr.tail] at hnot
  rw [Run.mem_iff hr.tail]
  omega

/-- An actor's event is performed in front of its later events. -/
theorem exists_below {h : List (Event Actor)} (hr : P.system.Run h) {a : Actor} {k m : Nat}
    (hm : (a, m) ∈ h) (hkm : k < m) : ∃ h₂ h₁, h = h₂ ++ (a, m) :: h₁ ∧ (a, k) ∈ h₁ := by
  obtain ⟨h₂, h₁, s, rfl, hr₁, -, -⟩ := hr.split hm
  exact ⟨h₂, h₁, rfl, (mem_below_iff hr₁).2 hkm⟩

/-- **A sequential text that completes the calls before it leaves the blocks of their buffers.** -/
theorem keepsBuffersAt_of_covered {ss : List Stmt} (hi : P.items r = seq ss)
    (hc : covered [] ss = true) : P.KeepsBuffersAt r := by
  intro h y hr s hs x hx c hcall hbuf
  obtain ⟨ya, hsy⟩ := performed_seq hi hs
  obtain ⟨xa, hsx⟩ := performed_seq hi hcall
  obtain ⟨y, j⟩ := y
  obtain ⟨x, k⟩ := x
  obtain rfl : y = .thread r 0 := ya
  obtain rfl : x = .thread r 0 := xa
  have hkj : k < j := (mem_below_iff hr).1 hx
  obtain ⟨m, hkm, hmj, s', hs', hcomp⟩ := completes_of_covered hc hsx hkj hsy hbuf
  have hmh : (Actor.thread r 0, m) ∈ h := (mem_below_iff hr).2 hmj
  obtain ⟨h₂, h₁, hsplit, hbelow⟩ := exists_below hr.tail hmh hkm
  exact ⟨h₂, h₁, _, s', hsplit, hbelow, performed_of_seq hi hs', hcomp⟩

end Program

end Mpi
