import RMARaceBench.Hybrid.Support

/-!
# `templates/GASPI/hybrid`

The hybrid cases as programs of calls (`Hybrid/Support.lean`). The boilerplate initializes MPI for
`MPI_THREAD_MULTIPLE` when it is rendered with `threaded`. In the `local` templates rank 0 reads into
its local segment from a parallel region; in the `remote` templates rank 1 is synchronized in a
parallel region, by a barrier or by a notification.
-/

set_option autoImplicit false

namespace Hybrid.Gaspi

open Omp

inductive Routine
  | procInit | procRank | procNum | segmentAlloc | segmentCreate | segmentPtr
  | read | writeNotify | notify | wait | notifyWaitsome | barrier | passiveSend | passiveReceive
  | procTerm | mpiFinalize
  deriving DecidableEq, Repr

abbrev Text := List (Item (Stmt Routine))

/-! ## `GASPI-boilerplate.c.j2` -/

/-- `MPI_Init`, or `MPI_Init_thread` and the check of what it provides. -/
def mpiInit (threaded : Bool) : List (Stmt Routine) :=
  if threaded then [.init .multiple, .plain] else [.init .single]

def gaspiBarrier : List (Stmt Routine) := collective .barrier

/-- The start of `main`. -/
def prologue (threaded : Bool) : List (Stmt Routine) :=
  mpiInit threaded ++ [.call .procInit, .call .procRank, .call .procNum, .plain, .call .segmentAlloc] ++
    collective .segmentCreate ++ [.call .segmentPtr, .call .segmentPtr] ++ gaspiBarrier

/-- The end of `main`, for `num` ranks. -/
def epilogue (num : Nat) : List (Stmt Routine) :=
  [.call .wait] ++ gaspiBarrier ++ List.replicate num (.call .notify) ++
    List.replicate num (.call .notifyWaitsome) ++ [.plain, .call .procTerm, .call .mpiFinalize]

/-! ## Common text -/

def printf : List (Stmt Routine) := [.plain]

/-- `remote_data[0] = 42` -/
def store : List (Stmt Routine) := [.plain]

/-- `gaspi_read` and `gaspi_wait`. -/
def read : List (Stmt Routine) := [.call .read, .call .wait]

/-- `gaspi_write_notify` and `gaspi_wait`. -/
def writeNotify : List (Stmt Routine) := [.call .writeNotify, .call .wait]

/-- `if (rank == q) { .. }` -/
def ifRank (rank q : Nat) (ss : Text) : Text := if rank = q then ss else []

/-- Rank 0 executes `region`, then both ranks meet. -/
def localFrame (region : Text) (rank : Nat) : Text :=
  ifRank rank 0 (region ++ seq gaspiBarrier) ++ ifRank rank 1 (seq (gaspiBarrier ++ printf))

/-- Rank 0 reads and meets rank 1, which executes `region`. -/
def remoteFrame (region : Text) (rank : Nat) : Text :=
  ifRank rank 0 (seq (read ++ gaspiBarrier)) ++ ifRank rank 1 region

/-- Rank 0 writes with a notification, rank 1 executes `region`. -/
def notifyFrame (region : Text) (rank : Nat) : Text :=
  ifRank rank 0 (seq writeNotify) ++ ifRank rank 1 region

def waitsome : List (Stmt Routine) := [.plain, .call .notifyWaitsome]

/-- `my_wait(&flag, 1)`. -/
def myWait (rounds : Nat) : List (Stmt Routine) := List.replicate (rounds + 1) .plain

/-- The `single` block of the task templates: the task (`my_signal` and `body`), `my_wait` and what
follows. -/
def taskRegion (T : Team) (rounds : Nat) (body : List (Stmt Routine)) (rest : Who → Text) : Text :=
  seq [.plain] ++ parallel (single T 0 fun w =>
    task w 0 (.plain :: body) ++ on w (myWait rounds) ++ rest w)

/-! ## The cases -/

inductive Case
  | forLocalYes | forOrderedLocalNo | masterLocalNo | masterLocalYes | singleLocalNo | singleLocalYes
  | sectionLocalNo | sectionLocalYes | taskLocalNo | taskLocalYes
  | forOrderedRemoteNo | forRemoteYes | masterRemoteNo | masterRemoteYes | singleRemoteNo
  | singleRemoteYes | sectionRemoteNo | sectionRemoteYes | taskRemoteNo | taskRemoteYes
  | lockSectionBarrierOriginRemoteYes | lockSectionBarrierOriginP2pRemoteYes
  deriving DecidableEq, Repr

namespace Case

/-- The block `main` of the case. -/
def main (T : Team) (rounds : Nat → Nat) (rank : Nat) : Case → Text
  | forLocalYes => localFrame (parallel (forStatic T 2 fun i => if i = 0 then read else printf)) rank
  | forOrderedLocalNo =>
    localFrame (parallel (forOrdered T 0 2 fun i => if i = 0 then read else printf)) rank
  | masterLocalNo => localFrame (parallel (master read ++ barrier ++ each printf)) rank
  | masterLocalYes => localFrame (parallel (master read ++ each printf)) rank
  | singleLocalNo =>
    localFrame (parallel (single T 0 (fun w => on w read) ++ barrier ++ each printf)) rank
  | singleLocalYes =>
    localFrame (parallel (singleNowait T 0 (fun w => on w read) ++ each printf)) rank
  | sectionLocalNo => localFrame (parallel (sections T 0 [read] ++ sections T 1 [printf])) rank
  | sectionLocalYes => localFrame (parallel (sections T 0 [read, printf])) rank
  | taskLocalNo =>
    localFrame (taskRegion T (rounds rank) read fun w => taskwait w ++ on w printf) rank
  | taskLocalYes => localFrame (taskRegion T (rounds rank) read fun w => on w printf) rank
  | forOrderedRemoteNo =>
    remoteFrame (parallel (forOrdered T 0 2 fun i => if i = 0 then gaspiBarrier else store)) rank
  | forRemoteYes =>
    remoteFrame (parallel (forStatic T 2 fun i => if i = 0 then gaspiBarrier else store)) rank
  | masterRemoteNo => notifyFrame (parallel (master waitsome ++ barrier ++ each printf)) rank
  | masterRemoteYes => notifyFrame (parallel (master waitsome ++ each printf)) rank
  | singleRemoteNo =>
    notifyFrame (parallel (single T 0 (fun w => on w waitsome) ++ barrier ++ each printf)) rank
  | singleRemoteYes =>
    notifyFrame (parallel (singleNowait T 0 (fun w => on w waitsome) ++ each printf)) rank
  | sectionRemoteNo => remoteFrame (parallel (sections T 0 [gaspiBarrier] ++ sections T 1 [store])) rank
  | sectionRemoteYes => remoteFrame (parallel (sections T 0 [gaspiBarrier, store])) rank
  | taskRemoteNo =>
    remoteFrame (taskRegion T (rounds rank) gaspiBarrier fun w => taskwait w ++ on w store) rank
  | taskRemoteYes => remoteFrame (taskRegion T (rounds rank) gaspiBarrier fun w => on w store) rank
  | lockSectionBarrierOriginRemoteYes =>
    seq gaspiBarrier ++
    ifRank rank 0 (parallel (sections T 0 [read, .plain :: gaspiBarrier])) ++
    ifRank rank 1 (seq (gaspiBarrier ++ store))
  | lockSectionBarrierOriginP2pRemoteYes =>
    seq gaspiBarrier ++
    ifRank rank 0 (parallel (sections T 0 [read, [.plain, .call .passiveSend]])) ++
    ifRank rank 1 (seq ([.plain, .call .passiveReceive] ++ printf ++ store))

/-- The text of a rank. -/
def items (c : Case) (threaded : Bool) (T : Team) (rounds : Nat → Nat) (rank : Nat) : Text :=
  seq (prologue threaded) ++ (c.main T rounds rank ++ seq (epilogue 2))

/-- The generated case, for `PROC_NUM` ranks. -/
def program (c : Case) (threaded : Bool) (T : Team) (rounds : Nat → Nat) : Program (Stmt Routine) where
  procs := 2
  team := T
  items := c.items threaded T rounds

end Case

/-! ## Thread support -/

variable {T : Team} {rounds : Nat → Nat}

theorem guarded_ifRank {rank q : Nat} {ss : Text} (hs : Guarded ss) : Guarded (ifRank rank q ss) := by
  unfold ifRank
  split
  · exact hs
  · exact .nil

theorem guarded_localFrame {region : Text} (hr : Guarded region) (rank : Nat) :
    Guarded (localFrame region rank) :=
  (guarded_ifRank (hr.append (.seq _))).append (guarded_ifRank (.seq _))

theorem guarded_remoteFrame {region : Text} (hr : Guarded region) (rank : Nat) :
    Guarded (remoteFrame region rank) :=
  (guarded_ifRank (.seq _)).append (guarded_ifRank hr)

theorem guarded_notifyFrame {region : Text} (hr : Guarded region) (rank : Nat) :
    Guarded (notifyFrame region rank) :=
  (guarded_ifRank (.seq _)).append (guarded_ifRank hr)

theorem guarded_taskRegion {n : Nat} {body : List (Stmt Routine)} {rest : Who → Text}
    (hr : ∀ t, Threaded (rest (.thread t))) : Guarded (taskRegion T n body rest) :=
  .append (.seq _) (.parallel_single_task hr 0 _ _)

/-- Everything outside of the initial thread stands behind a fork. -/
theorem guarded_main (c : Case) (rank : Nat) : Guarded (c.main T rounds rank) := by
  have hstore : ∀ t, Threaded (on (.thread t) store) := fun t => .thread t _
  have hprintf : ∀ t, Threaded (on (.thread t) printf) := fun t => .thread t _
  cases c with
  | forLocalYes => exact guarded_localFrame (.parallel (.forStatic _)) rank
  | forOrderedLocalNo => exact guarded_localFrame (.parallel (.forOrdered _)) rank
  | masterLocalNo =>
    exact guarded_localFrame (.parallel (((Threaded.master _).append .barrier).append (.each _))) rank
  | masterLocalYes => exact guarded_localFrame (.parallel ((Threaded.master _).append (.each _))) rank
  | singleLocalNo =>
    exact guarded_localFrame (.parallel (((Threaded.single fun t => .thread t _).append
      .barrier).append (.each _))) rank
  | singleLocalYes =>
    exact guarded_localFrame (.parallel ((Threaded.thread _ _).append (.each _))) rank
  | sectionLocalNo =>
    exact guarded_localFrame (.parallel ((Threaded.sections _).append (.sections _))) rank
  | sectionLocalYes => exact guarded_localFrame (.parallel (.sections _)) rank
  | taskLocalNo =>
    exact guarded_localFrame (guarded_taskRegion fun t => (Threaded.taskwait t).append (hprintf t)) rank
  | taskLocalYes => exact guarded_localFrame (guarded_taskRegion hprintf) rank
  | forOrderedRemoteNo => exact guarded_remoteFrame (.parallel (.forOrdered _)) rank
  | forRemoteYes => exact guarded_remoteFrame (.parallel (.forStatic _)) rank
  | masterRemoteNo =>
    exact guarded_notifyFrame (.parallel (((Threaded.master _).append .barrier).append (.each _))) rank
  | masterRemoteYes => exact guarded_notifyFrame (.parallel ((Threaded.master _).append (.each _))) rank
  | singleRemoteNo =>
    exact guarded_notifyFrame (.parallel (((Threaded.single fun t => .thread t _).append
      .barrier).append (.each _))) rank
  | singleRemoteYes =>
    exact guarded_notifyFrame (.parallel ((Threaded.thread _ _).append (.each _))) rank
  | sectionRemoteNo =>
    exact guarded_remoteFrame (.parallel ((Threaded.sections _).append (.sections _))) rank
  | sectionRemoteYes => exact guarded_remoteFrame (.parallel (.sections _)) rank
  | taskRemoteNo =>
    exact guarded_remoteFrame (guarded_taskRegion fun t => (Threaded.taskwait t).append (hstore t)) rank
  | taskRemoteYes => exact guarded_remoteFrame (guarded_taskRegion hstore) rank
  | lockSectionBarrierOriginRemoteYes | lockSectionBarrierOriginP2pRemoteYes =>
    exact ((Guarded.seq _).append (guarded_ifRank (.parallel (.sections _)))).append
      (guarded_ifRank (.seq _))

/-- **Every GASPI case is supported.** -/
theorem supported (c : Case) (T : Team) (rounds : Nat → Nat) :
    Supported (c.program true T rounds) :=
  supported_of_multiple fun rank => ⟨prologue true, _, rfl, (guarded_main c rank).append (.seq _),
    by simp [prologue, mpiInit]⟩

end Hybrid.Gaspi
