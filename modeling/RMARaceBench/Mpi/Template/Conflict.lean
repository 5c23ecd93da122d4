import RMARaceBench.Mpi.Template.Sync

/-!
# `templates/MPIRMA/conflict`, `atomic` and `misc`

The `misc` templates reach `value` and `win_base` through pointers that a function, `memcpy` or a
parameter has copied; the copies name the same memory, so that only the order of the two operations
and the ranks that perform them are left of these templates.
-/

set_option autoImplicit false

namespace Mpi.Template

open Omp Mpi

/-! ## `conflict` -/

def conflictLocalRace : Template where
  file := "MPI-conflict-op1-op2-local-race"
  labels := none
  main cx rank := seq <|
    winFence .win ++
    ifRank rank 0 (if cx.race then
      [.conflict 1] ++ cx.op1.code ++ [.conflict 2] ++ cx.op2.code
    else cx.op1.code ++ cx.op2.code) ++
    winFence .win

def conflictRemoteRace : Template where
  file := "MPI-conflict-op1-op2-remote-race"
  labels := none
  main cx rank := seq <|
    winFence .win ++
    ifRank rank 0 (ifRace cx [.conflict 1] ++ cx.op1.code) ++
    (if cx.op1.isPlain || cx.op2.isPlain then
      ifRank rank 1 (ifRace cx [.conflict 2] ++ cx.op2.code)
    else ifRank rank 2 ((if cx.op2.name != "get" then [.store value] else []) ++
      ifRace cx [.conflict 2] ++ cx.op2.code)) ++
    winFence .win

/-! ## `atomic` -/

/-- The arrays `value1[4]` and `value2[4]` with elements of a predefined datatype. -/
def valueArray1 (e : Elem) : Var := .blockValue1 (4 * e.size)
def valueArray2 (e : Elem) : Var := .blockValue2 (4 * e.size)

/-- Two calls of `MPI_Accumulate` between two fences, from rank 0 and from rank 2, the second one to byte
`lo2` on. The markers of the racy files stand in front of the calls. -/
def accumulates (race : Bool) (count1 : Nat) (d1 : Datatype) (count2 : Nat) (d2 : Datatype) (lo2 : Nat)
    (between : List Stmt) (rank : Nat) : List Stmt :=
  winFence .win ++
  ifRank rank 0 (declInit (valueArray1 d1.elem) ++ (if race then [.conflict 1] else []) ++
    [mpiAccumulate (.var (valueArray1 d1.elem)) count1 d1 1 0, .leaveBlock [valueArray1 d1.elem]]) ++
  ifRank rank 2 (declInit (valueArray2 d2.elem) ++ between ++ (if race then [.conflict 2] else []) ++
    [mpiAccumulate (.var (valueArray2 d2.elem)) count2 d2 1 lo2, .leaveBlock [valueArray2 d2.elem]]) ++
  winFence .win

/-- The same from one origin: both arrays are declared first. -/
def accumulatesSameorigin (race : Bool) (d1 d2 : Datatype) (rank : Nat) : List Stmt :=
  winFence .win ++
  ifRank rank 0 (declInit (valueArray1 d1.elem) ++ declInit (valueArray2 d2.elem) ++
    (if race then [.conflict 1] else []) ++ [mpiAccumulate (.var (valueArray1 d1.elem)) 4 d1 1 0] ++
    (if race then [.conflict 2] else []) ++ [mpiAccumulate (.var (valueArray2 d2.elem)) 4 d2 1 0,
      .leaveBlock [valueArray1 d1.elem, valueArray2 d2.elem]]) ++
  winFence .win

def atomicNoLabels : Option (Bool → Labels) :=
  labelsConst (raceless (.rmaAtomicWrite, .rmaAtomicWrite))

def atomicYesLabels : Option (Bool → Labels) :=
  labelsConst (racy .remote (.rmaAtomicWrite, .rmaAtomicWrite) (.accumulate, .accumulate))

def atomicCustomdatatypeRemoteNo : Template where
  file := "MPI-atomic-customdatatype-remote-no"
  labels := atomicNoLabels
  main _ rank := seq (mpiBarrier ++ accumulates false 4 mpiInt 1 (typeContiguous 4 mpiInt) 0 [] rank)

def atomicCustomdatatypeRemoteYes : Template where
  file := "MPI-atomic-customdatatype-remote-yes"
  labels := atomicYesLabels
  main _ rank :=
    seq (mpiBarrier ++ accumulates true 4 mpiShort 1 (typeContiguous 4 mpiInt) 0 [] rank)

/-- The window of the `disp` templates has the displacement unit 1. -/
def atomicDispRemoteNo : Template where
  file := "MPI-atomic-disp-remote-no"
  labels := atomicNoLabels
  main _ rank := seq (mpiBarrier ++ accumulates false 4 mpiInt 4 mpiInt 4
    [.decl .typesize, .store (.var .typesize), .load (.var .typesize)] rank)

def atomicDispRemoteYes : Template where
  file := "MPI-atomic-disp-remote-yes"
  labels := atomicYesLabels
  main _ rank := seq (mpiBarrier ++ accumulates true 4 mpiInt 4 mpiInt 1 [] rank)

def atomicDoubleFloatRemoteYes : Template where
  file := "MPI-atomic-double-float-remote-yes"
  labels := atomicYesLabels
  main _ rank := seq (mpiBarrier ++ accumulates true 4 mpiDouble 4 mpiFloat 0 [] rank)

def atomicFloatIntRemoteYes : Template where
  file := "MPI-atomic-float-int-remote-yes"
  labels := atomicYesLabels
  main _ rank := seq (mpiBarrier ++ accumulates true 4 mpiFloat 4 mpiInt 0 [] rank)

def atomicFloatIntSameoriginRemoteYes : Template where
  file := "MPI-atomic-float-int-sameorigin-remote-yes"
  labels := atomicYesLabels
  main _ rank := seq (mpiBarrier ++ accumulatesSameorigin true mpiFloat mpiInt rank)

/-- The file has the markers although it has no race. -/
def atomicIntIntRemoteNo : Template where
  file := "MPI-atomic-int-int-remote-no"
  labels := atomicNoLabels
  main _ rank := seq (mpiBarrier ++ accumulates true 4 mpiInt 4 mpiInt 0 [] rank)

def atomicIntIntSameoriginRemoteNo : Template where
  file := "MPI-atomic-int-int-sameorigin-remote-no"
  labels := atomicNoLabels
  main _ rank := seq (mpiBarrier ++ accumulatesSameorigin false mpiInt mpiInt rank)

def atomicShortIntRemoteYes : Template where
  file := "MPI-atomic-short-int-remote-yes"
  labels := atomicYesLabels
  main _ rank := seq (mpiBarrier ++ accumulates true 4 mpiShort 4 mpiInt 0 [] rank)

/-! ## `misc` -/

/-- Rank 0 performs both operations between two fences. -/
def bothAtRank0 (cx : Ctx) (rank : Nat) : List Stmt :=
  winFence .win ++
  ifRank rank 0 (ifRace cx [.conflict 1] ++ cx.op1.code ++ ifRace cx [.conflict 2] ++ cx.op2.code) ++
  winFence .win

/-- Rank 0 performs the first operation, every other rank the second one. -/
def otherRanks (cx : Ctx) (rank : Nat) : List Stmt :=
  winFence .win ++
  (if rank = 0 then ifRace cx [.conflict 1] ++ cx.op1.code
    else ifRace cx [.conflict 2] ++ cx.op2.code) ++
  winFence .win

def miscAliasingLocalRace : Template where
  file := "MPI-misc-op1-op2-aliasing-local-race"
  labels := none
  main cx rank := seq (bothAtRank0 cx rank)

def miscAliasingRemoteRace : Template where
  file := "MPI-misc-op1-op2-aliasing-remote-race"
  labels := none
  main cx rank := seq (otherRanks cx rank)

def miscDeepNestingLocalRace : Template where
  file := "MPI-misc-op1-op2-deep-nesting-local-race"
  labels := none
  main cx rank := seq (bothAtRank0 cx rank)

def miscDeepNestingRemoteRace : Template where
  file := "MPI-misc-op1-op2-deep-nesting-remote-race"
  labels := none
  main cx rank := seq (otherRanks cx rank)

def miscFuncpointerRemoteRace : Template where
  file := "MPI-misc-op1-op2-funcpointer-remote-race"
  labels := none
  main cx rank := seq (otherRanks cx rank)

def miscMemcpyLocalRace : Template where
  file := "MPI-misc-op1-op2-memcpy-local-race"
  labels := none
  main cx rank := seq (bothAtRank0 cx rank)

def miscMemcpyRemoteRace : Template where
  file := "MPI-misc-op1-op2-memcpy-remote-race"
  labels := none
  main cx rank := seq (otherRanks cx rank)

def miscRetvalLocalRace : Template where
  file := "MPI-misc-op1-op2-retval-local-race"
  labels := none
  main cx rank := seq (bothAtRank0 cx rank)

def miscRetvalRemoteRace : Template where
  file := "MPI-misc-op1-op2-retval-remote-race"
  labels := none
  main cx rank := seq (otherRanks cx rank)

end Mpi.Template
