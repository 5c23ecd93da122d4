import RMARaceBench.Mpi.Template.Sync

/-!
# `templates/MPIRMA/hybrid`

In the `local` templates rank 0 gets into its own `win_base[0]` from a parallel region that also reads
it; in the `remote` templates rank 0 puts into `win_base[0]` of rank 1, whose parallel region receives
the barrier and reads. The two groups share the text around the region (`localFrame`, `remoteFrame`).
-/

set_option autoImplicit false

namespace Mpi.Template

open Omp Mpi

/-! ## Common text -/

/-- `printf("win_base[0] is %d\n", win_base[0])`. -/
def printWin : List Stmt := printf [winBase 0]

/-- The access epoch with the `MPI_Get`. -/
def getEpoch (mark : List Stmt) : List Stmt :=
  winLock .win true 1 ++ mark ++ [mpiGet (winBase 0) 1 0] ++ winUnlock .win 1

/-- The access epoch with the `MPI_Put`. -/
def putEpoch (mark : List Stmt) : List Stmt :=
  winLock .win true 1 ++ [.store value] ++ mark ++ [mpiPut value 1 0] ++ winUnlock .win 1

/-- Rank 0 executes `region`, then both ranks meet. -/
def localFrame (region : List (Item Stmt)) (rank : Nat) : List (Item Stmt) :=
  seq mpiBarrier ++
  ifRank rank 0 (region ++ seq mpiBarrier) ++
  ifRank rank 1 (seq (mpiBarrier ++ printWin))

/-- Rank 0 puts and meets rank 1, which executes `region`. -/
def remoteFrame (mark : List Stmt) (region : List (Item Stmt)) (rank : Nat) : List (Item Stmt) :=
  seq mpiBarrier ++
  ifRank rank 0 (seq (putEpoch mark ++ mpiBarrier)) ++
  ifRank rank 1 region

def mySignal : List Stmt := [.atomicIncr .flag]

/-- `my_wait(&flag, 1)`: the reads that do not find the flag, and the one that does. -/
def myWait (rounds : Nat) : List Stmt :=
  List.replicate rounds (.atomicRead .flag false) ++ [.atomicRead .flag true]

def hybridNoLabels : Option (Bool → Labels) := labelsConst ⟨.none, none, none⟩

def hybridLocalLabels : Option (Bool → Labels) :=
  labelsConst (racy .local (.rmaRead, .load) (.get, .load))

def hybridRemoteLabels : Option (Bool → Labels) :=
  labelsConst (racy .remote (.rmaWrite, .load) (.put, .load))

/-! ## `for`, `ordered` -/

def hybridForLocalYes : Template where
  file := "MPI-hybrid-for-local-yes"
  labels := hybridLocalLabels
  main cx := localFrame <| parallel <| forLoop cx.team 0 2 fun i =>
    if i = 0 then getEpoch [.conflict 1] else [.conflict 2] ++ printWin

def hybridForRemoteYes : Template where
  file := "MPI-hybrid-for-remote-yes"
  labels := hybridRemoteLabels
  main cx := remoteFrame [.conflict 1] <| parallel <| forLoop cx.team 0 2 fun i =>
    if i = 0 then mpiBarrier else [.conflict 2] ++ printWin

def hybridOrderedLocalNo : Template where
  file := "MPI-hybrid-ordered-local-no"
  labels := hybridNoLabels
  main cx := localFrame <| parallel <| forOrdered cx.team 0 2 fun i =>
    if i = 0 then getEpoch [] else printWin

/-- The file has the markers although it has no race. -/
def hybridOrderedRemoteNo : Template where
  file := "MPI-hybrid-ordered-remote-no"
  labels := hybridNoLabels
  main cx := remoteFrame [.conflict 1] <| parallel <| forOrdered cx.team 0 2 fun i =>
    if i = 0 then mpiBarrier else [.conflict 2] ++ printWin

/-! ## `master` -/

def hybridMasterLocalNo : Template where
  file := "MPI-hybrid-master-local-no"
  labels := hybridNoLabels
  main _ := localFrame <| parallel <| master (getEpoch []) ++ barrier ++ each printWin

def hybridMasterLocalYes : Template where
  file := "MPI-hybrid-master-local-yes"
  labels := hybridLocalLabels
  main _ := localFrame <| parallel <|
    master (getEpoch [.conflict 1]) ++ each ([.conflict 2] ++ printWin)

def hybridMasterRemoteNo : Template where
  file := "MPI-hybrid-master-remote-no"
  labels := hybridNoLabels
  main _ := remoteFrame [] <| parallel <| master mpiBarrier ++ barrier ++ each printWin

def hybridMasterRemoteYes : Template where
  file := "MPI-hybrid-master-remote-yes"
  labels := hybridRemoteLabels
  main _ := remoteFrame [.conflict 1] <| parallel <|
    master mpiBarrier ++ each ([.conflict 2] ++ printWin)

/-! ## `sections` -/

/-- The section's `int value = 42` is the variable that is put. -/
def putSection : List Stmt :=
  declInit .blockValue ++ winLock .win true 1 ++ [.conflict 1, mpiPut (.var .blockValue) 1 0] ++
  winUnlock .win 1 ++ [.leaveBlock [.blockValue]]

def hybridSectionBarrierOriginRemoteYes : Template where
  file := "MPI-hybrid-section-barrier-origin-remote-yes"
  labels := hybridRemoteLabels
  main cx rank :=
    seq mpiBarrier ++
    ifRank rank 0 (parallel (sections cx.team 0 [putSection, mpiBarrier])) ++
    ifRank rank 1 (seq (mpiBarrier ++ [.conflict 2] ++ printWin))

def hybridSectionLocalNo : Template where
  file := "MPI-hybrid-section-local-no"
  labels := hybridNoLabels
  main cx := localFrame <| parallel <|
    sections cx.team 0 [getEpoch []] ++ sections cx.team 1 [printWin]

def hybridSectionLocalYes : Template where
  file := "MPI-hybrid-section-local-yes"
  labels := hybridLocalLabels
  main cx := localFrame <| parallel <|
    sections cx.team 0 [getEpoch [.conflict 1], [.conflict 2] ++ printWin]

def hybridSectionRemoteNo : Template where
  file := "MPI-hybrid-section-remote-no"
  labels := hybridNoLabels
  main cx := remoteFrame [] <| parallel <|
    sections cx.team 0 [mpiBarrier] ++ sections cx.team 1 [printWin]

def hybridSectionRemoteYes : Template where
  file := "MPI-hybrid-section-remote-yes"
  labels := hybridRemoteLabels
  main cx := remoteFrame [.conflict 1] <| parallel <|
    sections cx.team 0 [mpiBarrier, [.conflict 2] ++ printWin]

def hybridSectionSendrecvOriginRemoteYes : Template where
  file := "MPI-hybrid-section-sendrecv-origin-remote-yes"
  labels := hybridRemoteLabels
  main cx rank :=
    seq mpiBarrier ++
    ifRank rank 0 (parallel (sections cx.team 0
      [putSection, declInit .dummy ++ [.send .dummy 1, .leaveBlock [.dummy]]])) ++
    ifRank rank 1 (seq ([.decl .dummy, .recv .dummy 0, .leaveBlock [.dummy], .conflict 2] ++ printWin))

/-! ## `single` -/

def hybridSingleLocalNo : Template where
  file := "MPI-hybrid-single-local-no"
  labels := hybridNoLabels
  main cx := localFrame <| parallel <|
    single cx.team 0 (fun w => on w (getEpoch [])) ++ each printWin

def hybridSingleLocalYes : Template where
  file := "MPI-hybrid-single-local-yes"
  labels := hybridLocalLabels
  main cx := localFrame <| parallel <|
    singleNowait cx.team 0 (fun w => on w (getEpoch [.conflict 1])) ++
    each ([.conflict 2] ++ printWin)

def hybridSingleRemoteNo : Template where
  file := "MPI-hybrid-single-remote-no"
  labels := hybridNoLabels
  main cx := remoteFrame [] <| parallel <|
    single cx.team 0 (fun w => on w mpiBarrier) ++ each printWin

def hybridSingleRemoteYes : Template where
  file := "MPI-hybrid-single-remote-yes"
  labels := hybridRemoteLabels
  main cx := remoteFrame [.conflict 1] <| parallel <|
    singleNowait cx.team 0 (fun w => on w mpiBarrier) ++ each ([.conflict 2] ++ printWin)

/-! ## `task` -/

/-- The `single` block of the task templates: the task, `my_wait` and what follows. -/
def taskRegion (cx : Ctx) (rank : Nat) (body : List Stmt) (rest : Who → List (Item Stmt)) :
    List (Item Stmt) :=
  seq (declInit .flag) ++ parallel (single cx.team 0 fun w =>
    task w 0 (mySignal ++ body) ++ on w (myWait (cx.rounds rank)) ++ rest w)

def hybridTaskLocalNo : Template where
  file := "MPI-hybrid-task-local-no"
  labels := hybridNoLabels
  main cx rank := localFrame
    (taskRegion cx rank (getEpoch []) fun w => taskwait w ++ on w printWin) rank

def hybridTaskLocalYes : Template where
  file := "MPI-hybrid-task-local-yes"
  labels := hybridLocalLabels
  main cx rank := localFrame
    (taskRegion cx rank (getEpoch [.conflict 1]) fun w => on w ([.conflict 2] ++ printWin)) rank

def hybridTaskRemoteNo : Template where
  file := "MPI-hybrid-task-remote-no"
  labels := hybridNoLabels
  main cx rank := remoteFrame []
    (taskRegion cx rank mpiBarrier fun w => taskwait w ++ on w printWin) rank

def hybridTaskRemoteYes : Template where
  file := "MPI-hybrid-task-remote-yes"
  labels := hybridRemoteLabels
  main cx rank := remoteFrame [.conflict 1]
    (taskRegion cx rank mpiBarrier fun w => on w ([.conflict 2] ++ printWin)) rank

end Mpi.Template
