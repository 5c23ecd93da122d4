import RMARaceBench.Omp

/-!
# The MPI programs of the benchmark

The statements that the MPI templates are made of, one constructor for each thing a process does
that the memory model or the epoch rules look at, and the source's calls as functions that build
statements. Blocking collective calls (`MPI_Barrier`, `MPI_Win_fence`, `MPI_Win_free`) are an entry
and an exit, so that processes can be between the two.

A program gives every rank its text as OpenMP items (`Omp.lean`); a rank's branches
`if (rank == ..)` are taken when its text is built.
-/

set_option autoImplicit false

namespace Mpi

/-! ## Memory -/

/-- The variables of `main` in the boilerplate and those that templates declare in inner blocks. -/
inductive Var
  | value | value2 | result | token
  /-- `int value` of an inner block. -/
  | blockValue
  /-- The arrays `value1[4]` and `value2[4]` of the atomic templates. -/
  | blockValue1 (bytes : Nat)
  | blockValue2 (bytes : Nat)
  | typesize | flag | dummy
  deriving DecidableEq, Repr

/-- The windows `win` and `win2`. -/
inductive Win
  | win | win2
  deriving DecidableEq, Repr

/-- What a plain access of a process touches: a variable or the `int` cell `i` of its own part of a
window (`win_base[i]`). -/
inductive Loc
  | var (x : Var)
  | cell (w : Win) (i : Nat)
  deriving DecidableEq, Repr

/-- The words of `ACCESS_SET`, and the accesses of `omp atomic`. -/
inductive Kind
  | load | store | localRead | localWrite
  | rmaRead | rmaWrite | rmaAtomicRead | rmaAtomicWrite
  | ompAtomicRead | ompAtomicWrite
  deriving DecidableEq, Repr

/-- How the labels spell a kind. -/
def Kind.text : Kind → String
  | .load => "load"
  | .store => "store"
  | .localRead => "local buffer read"
  | .localWrite => "local buffer write"
  | .rmaRead => "rma read"
  | .rmaWrite => "rma write"
  | .rmaAtomicRead => "rma atomic read"
  | .rmaAtomicWrite => "rma atomic write"
  | .ompAtomicRead => "omp atomic read"
  | .ompAtomicWrite => "omp atomic write"

def Kind.writes : Kind → Bool
  | .store | .localWrite | .rmaWrite | .rmaAtomicWrite | .ompAtomicWrite => true
  | _ => false

/-- An access of `omp atomic`. -/
def Kind.isOmpAtomic : Kind → Bool
  | .ompAtomicRead | .ompAtomicWrite => true
  | _ => false

/-- An access to a call's target location. -/
def Kind.atTarget : Kind → Bool
  | .rmaRead | .rmaWrite | .rmaAtomicRead | .rmaAtomicWrite => true
  | _ => false

/-- An access to a call's origin or result buffer. -/
def Kind.atBuffer : Kind → Bool
  | .localRead | .localWrite => true
  | _ => false

/-- The names in front of the `@` of `RACE_PAIR`. -/
inductive Call
  | load | store | put | get | accumulate | getAccumulate | fetchAndOp | compareAndSwap | rput | rget
  deriving DecidableEq, Repr

/-- How the labels spell a call. -/
def Call.text : Call → String
  | .load => "LOAD"
  | .store => "STORE"
  | .put => "MPI_Put"
  | .get => "MPI_Get"
  | .accumulate => "MPI_Accumulate"
  | .getAccumulate => "MPI_Get_accumulate"
  | .fetchAndOp => "MPI_Fetch_and_op"
  | .compareAndSwap => "MPI_Compare_and_swap"
  | .rput => "MPI_Rput"
  | .rget => "MPI_Rget"

/-- The predefined datatypes `MPI_SHORT`, `MPI_INT`, `MPI_FLOAT` and `MPI_DOUBLE`. -/
inductive Elem
  | short | int | float | double
  deriving DecidableEq, Repr

def Elem.size : Elem → Nat
  | .short => 2
  | .int | .float => 4
  | .double => 8

/-- A part of the memory of a process. -/
inductive Region
  | var (x : Var)
  | win (w : Win)
  deriving DecidableEq, Repr

/-- An access to the bytes `lo .. hi - 1` of a region of the process `rank`. `elem` is the datatype of the
elements that a call accesses at its target. -/
structure Access where
  rank : Nat
  region : Region
  lo : Nat
  hi : Nat
  kind : Kind
  call : Call
  elem : Option Elem := none
  deriving DecidableEq, Repr

def Access.overlaps (m m' : Access) : Bool :=
  m.rank == m'.rank && m.region == m'.region && decide (m.lo < m'.hi) && decide (m'.lo < m.hi)

/-- Two accesses conflict when they overlap and one of them writes, unless both are `omp atomic`. -/
def Access.conflicts (m m' : Access) : Bool :=
  m.overlaps m' &&
    ((m.kind.writes || m'.kind.writes) && !(m.kind.isOmpAtomic && m'.kind.isOmpAtomic))

def Access.Conf (m m' : Access) : Prop := m.conflicts m' = true

theorem Access.Conf.symm {m m' : Access} (h : m.Conf m') : m'.Conf m := by
  simp only [Access.Conf, Access.conflicts, Access.overlaps, Bool.and_eq_true, Bool.or_eq_true,
    beq_iff_eq, decide_eq_true_eq] at h ⊢
  refine ⟨⟨⟨⟨h.1.1.1.1.symm, h.1.1.1.2.symm⟩, h.1.2⟩, h.1.1.2⟩, h.2.1.symm, ?_⟩
  rw [Bool.and_comm]
  exact h.2.2

/-- The size of a variable in bytes. -/
def Var.size : Var → Nat
  | .blockValue1 b | .blockValue2 b => b
  | _ => 4

/-- The access of `rank` to its own memory `l`. -/
def Loc.access (l : Loc) (rank : Nat) (kind : Kind) (call : Call) : Access :=
  match l with
  | .var x => { rank, region := .var x, lo := 0, hi := x.size, kind, call }
  | .cell w i => { rank, region := .win w, lo := 4 * i, hi := 4 * i + 4, kind, call }

/-! ## Statements -/

/-- A communication call: the buffers it reads and writes at the origin and the bytes of the window
of `target` that it accesses, as elements of the datatype `elem`. -/
structure Rma where
  call : Call
  origin : Option Loc := none
  compare : Option Loc := none
  result : Option Loc := none
  target : Nat
  lo : Nat
  hi : Nat
  kind : Kind
  win : Win := .win
  elem : Elem := .int
  deriving DecidableEq, Repr

/-- Request-based calls. -/
def Rma.isRequest (c : Rma) : Bool := c.call == .rput || c.call == .rget

/-- The access of a call at its target. -/
def Rma.targetAccess (c : Rma) : Access where
  rank := c.target
  region := .win c.win
  lo := c.lo
  hi := c.hi
  kind := c.kind
  call := c.call
  elem := some c.elem

inductive Stmt
  /-- A declaration without initializer. -/
  | decl (x : Var)
  /-- Control leaves the block that declares `xs`. -/
  | leaveBlock (xs : List Var)
  | load (l : Loc)
  | store (l : Loc)
  /-- `x++` under `omp atomic`. -/
  | atomicIncr (x : Var)
  /-- A read of `x` under `omp atomic`. With `found` it is the read of a loop that sees `x`
  incremented, and ends the loop. -/
  | atomicRead (x : Var) (found : Bool)
  | rma (c : Rma)
  /-- `MPI_Wait` on the request of the last request-based call. -/
  | waitReq
  | barrierEnter
  | barrierLeave
  | send (buf : Var) (dst : Nat)
  | recv (buf : Var) (src : Nat)
  | winAllocate (w : Win)
  | fenceEnter (w : Win)
  | fenceLeave (w : Win)
  /-- `MPI_Win_lock`; the lock may be granted later. -/
  | lock (w : Win) (excl : Bool) (t : Nat)
  /-- The return from `MPI_Win_lock`: a process waits for the lock on its own window. -/
  | locked (w : Win) (t : Nat)
  | unlock (w : Win) (t : Nat)
  | lockAll (w : Win)
  | unlockAll (w : Win)
  | flush (w : Win) (t : Nat)
  | flushAll (w : Win)
  | flushLocal (w : Win) (t : Nat)
  | flushLocalAll (w : Win)
  | start (w : Win) (group : List Nat)
  | complete (w : Win)
  | post (w : Win) (group : List Nat)
  | wait (w : Win)
  | freeEnter (w : Win)
  | freeLeave (w : Win)
  /-- The `i`-th `// CONFLICT` comment of the file. -/
  | conflict (i : Nat)
  deriving DecidableEq, Repr

def Stmt.isRma : Stmt → Bool
  | .rma _ => true
  | _ => false

/-! ## The calls of the source -/

def mpiBarrier : List Stmt := [.barrierEnter, .barrierLeave]

def winFence (w : Win) : List Stmt := [.fenceEnter w, .fenceLeave w]

def winLock (w : Win) (excl : Bool) (t : Nat) : List Stmt := [.lock w excl t, .locked w t]

def winUnlock (w : Win) (t : Nat) : List Stmt := [.unlock w t]

def winFree (w : Win) : List Stmt := [.freeEnter w, .freeLeave w]

/-- `printf` of some values. -/
def printf (ls : List Loc) : List Stmt := ls.map .load

/-- `MPI_Put` of one `int` to the `disp`-th `int` of the window of `t`. -/
def mpiPut (b : Loc) (t disp : Nat) : Stmt :=
  .rma { call := .put, origin := some b, target := t, lo := 4 * disp, hi := 4 * disp + 4,
         kind := .rmaWrite }

/-- `MPI_Get` of one `int`. -/
def mpiGet (b : Loc) (t disp : Nat) : Stmt :=
  .rma { call := .get, result := some b, target := t, lo := 4 * disp, hi := 4 * disp + 4,
         kind := .rmaRead }

def mpiRget (b : Loc) (t disp : Nat) : Stmt :=
  .rma { call := .rget, result := some b, target := t, lo := 4 * disp, hi := 4 * disp + 4,
         kind := .rmaRead }

/-- A datatype: the datatype of its elements and their number. -/
structure Datatype where
  elem : Elem
  elems : Nat := 1
  deriving DecidableEq, Repr

def Datatype.size (d : Datatype) : Nat := d.elems * d.elem.size

def mpiShort : Datatype := { elem := .short }
def mpiInt : Datatype := { elem := .int }
def mpiFloat : Datatype := { elem := .float }
def mpiDouble : Datatype := { elem := .double }

/-- `MPI_Type_contiguous`. -/
def typeContiguous (count : Nat) (d : Datatype) : Datatype := ⟨d.elem, count * d.elems⟩

/-- `MPI_Accumulate(b, count, d, t, .., count, d, MPI_SUM, win)`, from byte `lo` on of the window of
`t`. -/
def mpiAccumulate (b : Loc) (count : Nat) (d : Datatype) (t lo : Nat) : Stmt :=
  .rma { call := .accumulate, origin := some b, target := t, lo := lo, hi := lo + count * d.size,
         kind := .rmaAtomicWrite, elem := d.elem }

/-- `MPI_Get_accumulate` with `MPI_SUM` on one `int`. -/
def mpiGetAccumulate (b res : Loc) (t disp : Nat) : Stmt :=
  .rma { call := .getAccumulate, origin := some b, result := some res, target := t, lo := 4 * disp,
         hi := 4 * disp + 4, kind := .rmaAtomicWrite }

/-- `MPI_Get_accumulate` with `MPI_NO_OP`: no origin buffer, the target is only read. -/
def mpiGetAccumulateNoOp (res : Loc) (t disp : Nat) : Stmt :=
  .rma { call := .getAccumulate, result := some res, target := t, lo := 4 * disp,
         hi := 4 * disp + 4, kind := .rmaAtomicRead }

def mpiFetchAndOp (b res : Loc) (t disp : Nat) : Stmt :=
  .rma { call := .fetchAndOp, origin := some b, result := some res, target := t, lo := 4 * disp,
         hi := 4 * disp + 4, kind := .rmaAtomicWrite }

def mpiCompareAndSwap (b cmp res : Loc) (t disp : Nat) : Stmt :=
  .rma { call := .compareAndSwap, origin := some b, compare := some cmp, result := some res,
         target := t, lo := 4 * disp, hi := 4 * disp + 4, kind := .rmaAtomicWrite }

abbrev value : Loc := .var .value
abbrev value2 : Loc := .var .value2
abbrev winBase (i : Nat) : Loc := .cell .win i

/-- A program: the number of processes, the size of the team of a parallel region and the text of
every rank. -/
structure Program where
  procs : Nat
  team : Nat := 1
  items : Nat → List (Omp.Item Stmt)

/-- The statement at position `k` of the text of `r`. -/
def Program.stmtAt (P : Program) (r k : Nat) : Option Stmt := (P.items r)[k]?.bind Omp.Item.stmt?

end Mpi
