import RMARaceBench.Mpi.Semantics

/-!
# The MPI boilerplate and its operations

`Template.items` puts a template's blocks into the frame of `MPI-boilerplate.c.j2`: the variables of
`main`, the allocation and initialization of the window, the block `main`, the final barrier, the
final `printf`, `MPI_Win_free` and the end of the block of `main`. The pointers (`buf`, `win_base` and
the aliases of the `misc` templates) always point to the same variable or window and are replaced by
it; variables that no statement uses are left out.
-/

set_option autoImplicit false

namespace Mpi

open Omp

/-! ## Operations -/

/-- An operation of the registry `om`: its label data and the statements of its code. -/
structure Operation where
  name : String
  callname : Call
  localOpkind : Kind
  remoteOpkind : Kind
  code : List Stmt
  deriving DecidableEq, Repr

namespace Op

def localLoad : Operation := ⟨"load", .load, .load, .load, printf [value]⟩
def localStore : Operation := ⟨"store", .store, .store, .store, [.store value]⟩
def put : Operation := ⟨"put", .put, .localRead, .rmaWrite, [mpiPut value 1 0]⟩
def put2 : Operation := ⟨"put", .put, .localRead, .rmaWrite, [mpiPut value 1 1]⟩
def acc : Operation := ⟨"acc", .accumulate, .localRead, .rmaAtomicWrite, [mpiAccumulate value 1 mpiInt 1 0]⟩
def get : Operation := ⟨"get", .get, .localWrite, .rmaRead, [mpiGet value 1 0]⟩
def remoteLoad : Operation := ⟨"load", .load, .load, .load, printf [winBase 0]⟩
def remoteStore : Operation := ⟨"store", .store, .store, .store, [.store (winBase 0)]⟩
def rget : Operation := ⟨"rget", .rget, .localWrite, .rmaRead, [mpiRget value 1 0]⟩
def gacc1 : Operation :=
  ⟨"gacc", .getAccumulate, .localRead, .rmaAtomicWrite, [mpiGetAccumulate value value2 1 0]⟩
def gacc2 : Operation :=
  ⟨"gacc", .getAccumulate, .localWrite, .rmaAtomicWrite, [mpiGetAccumulate value2 value 1 0]⟩
def gaccread : Operation :=
  ⟨"gaccread", .getAccumulate, .localWrite, .rmaAtomicRead, [mpiGetAccumulateNoOp value 1 0]⟩
def fop1 : Operation :=
  ⟨"fop", .fetchAndOp, .localRead, .rmaAtomicWrite, [mpiFetchAndOp value value2 1 0]⟩
def fop2 : Operation :=
  ⟨"fop", .fetchAndOp, .localWrite, .rmaAtomicWrite, [mpiFetchAndOp value2 value 1 0]⟩
def cas1 : Operation :=
  ⟨"cas", .compareAndSwap, .localRead, .rmaAtomicWrite,
    [mpiCompareAndSwap value (winBase 0) value2 1 0]⟩
def cas2 : Operation :=
  ⟨"cas", .compareAndSwap, .localWrite, .rmaAtomicWrite,
    [mpiCompareAndSwap value2 (winBase 0) value 1 0]⟩

end Op

/-- `op.name in ['store', 'load']`. -/
def Operation.isPlain (op : Operation) : Bool := op.name == "store" || op.name == "load"

/-! ## Labels -/

inductive RaceKind
  | none | local | remote
  deriving DecidableEq, Repr

/-- `RACE_KIND`, `ACCESS_SET` and the call names of `RACE_PAIR`. The hybrid cases without a race have
no `ACCESS_SET`. -/
structure Labels where
  raceKind : RaceKind
  accessSet : Option (Kind × Kind) := Option.none
  racePair : Option (Call × Call) := Option.none
  deriving DecidableEq, Repr

/-- What the boilerplate's own block `race_labels` makes of the template parameters. -/
def defaultLabels (accessKind : RaceKind) (op1 op2 : Operation) (race : Bool) : Labels where
  raceKind := if race then accessKind else .none
  accessSet :=
    match accessKind with
    | .local => some (op1.localOpkind, op2.localOpkind)
    | .remote => some (op1.remoteOpkind, op2.remoteOpkind)
    | .none => Option.none
  racePair := if race then some (op1.callname, op2.callname) else Option.none

/-! ## Templates -/

/-- What a template is rendered with, and the choices of a run that shape a process's text: the team
of its parallel region and the number of rounds that each rank's polling loop takes. -/
structure Ctx where
  race : Bool
  op1 : Operation
  op2 : Operation
  team : Team := Team.alone
  rounds : Nat → Nat := fun _ => 0

def WIN_SIZE : Nat := 10

/-- The loop that sets the process's part of a window to zero. -/
def zeroWindow : List Stmt := (List.range WIN_SIZE).map fun i => .store (winBase i)

/-- The block `win_allocate`. -/
def winAllocate : List Stmt := .winAllocate .win :: zeroWindow

/-- A template of `templates/MPIRMA`. `labels` is the block `race_labels`, when the template has its
own. -/
structure Template where
  file : String
  labels : Option (Bool → Labels)
  winAllocate : List Stmt := winAllocate
  main : Ctx → Nat → List (Item Stmt)

/-- A declaration with initializer. -/
def declInit (x : Var) : List Stmt := [.decl x, .store (.var x)]

/-- The variables of `main`. -/
def prologue : List Stmt := declInit .value ++ declInit .value2 ++ [.decl .result] ++ declInit .token

/-- The end of `main`, up to the end of its block. -/
def epilogue : List Stmt :=
  mpiBarrier ++ printf [value, value2, winBase 0] ++ winFree .win ++
    [.leaveBlock [.value, .value2, .result, .token]]

/-- The text of a rank. -/
def Template.items (tp : Template) (cx : Ctx) (rank : Nat) : List (Item Stmt) :=
  seq (prologue ++ tp.winAllocate) ++ (tp.main cx rank ++ seq epilogue)

/-- A template rendered for `procs` processes. -/
def Template.program (tp : Template) (cx : Ctx) (procs : Nat) : Program where
  procs := procs
  team := cx.team.size
  items := tp.items cx

/-- Rendered with `cx` the main block is the sequential text `text`. -/
def Template.Plain (tp : Template) (cx : Ctx) (text : Nat → List Stmt) : Prop :=
  tp.main cx = fun rank => seq (text rank)

theorem Template.Plain.items {tp : Template} {cx : Ctx} {text : Nat → List Stmt}
    (hp : tp.Plain cx text) (r : Nat) :
    tp.items cx r = seq (prologue ++ tp.winAllocate ++ (text r ++ epilogue)) := by
  rw [Template.items, hp, ← seq_append, ← seq_append, List.append_assoc, ← List.append_assoc]

/-- `if (rank == q) { .. }` -/
def ifRank {α : Type} (rank q : Nat) (ss : List α) : List α := if rank = q then ss else []

/-- Text that only the racy rendering has. -/
def ifRace {α : Type} (cx : Ctx) (ss : List α) : List α := if cx.race then ss else []

/-- Text that only the rendering without a race has. -/
def unlessRace {α : Type} (cx : Ctx) (ss : List α) : List α := if cx.race then [] else ss

end Mpi
