import RMARaceBench.Mpi.Boilerplate

/-!
# `templates/MPIRMA/sync`

One definition for each template, named like its file.
-/

set_option autoImplicit false

namespace Mpi.Template

open Omp Mpi

/-- Labels of a case with a race. -/
def racy (k : RaceKind) (access : Kind × Kind) (pair : Call × Call) : Labels :=
  ⟨k, some access, some pair⟩

/-- Labels of a case without a race. -/
def raceless (access : Kind × Kind) : Labels := ⟨.none, some access, none⟩

/-- A block `race_labels` that depends on `race`. -/
def labelsIf (yes no : Labels) : Option (Bool → Labels) := some fun race => if race then yes else no

/-- A block `race_labels` that is the same for every rendering. -/
def labelsConst (l : Labels) : Option (Bool → Labels) := some fun _ => l

def syncFence3procsRemoteRace : Template where
  file := "MPI-sync-fence-3procs-remote-race"
  labels := labelsIf (racy .remote (.rmaWrite, .rmaRead) (.put, .get)) (raceless (.rmaWrite, .rmaRead))
  main cx rank := seq <|
    winFence .win ++
    ifRank rank 0 ([.store value] ++ ifRace cx [.conflict 1] ++ [mpiPut value 1 0]) ++
    unlessRace cx (winFence .win) ++
    ifRank rank 2 ([.store value] ++ ifRace cx [.conflict 2] ++ [mpiGet value 1 0]) ++
    winFence .win

def syncFenceLocalRace : Template where
  file := "MPI-sync-fence-local-race"
  labels := labelsIf (racy .local (.localWrite, .load) (.get, .load)) (raceless (.localWrite, .load))
  main cx rank := seq <|
    mpiBarrier ++ winFence .win ++
    ifRank rank 0 (if cx.race then
      [.conflict 1, mpiPut value 1 0, .conflict 2, .store value]
    else [mpiPut value 1 0]) ++
    unlessRace cx (winFence .win ++ ifRank rank 0 (printf [value])) ++
    winFence .win

def syncLockBarrierNonconsistentRemoteYes : Template where
  file := "MPI-sync-lock-barrier-nonconsistent-remote-yes"
  labels := labelsConst (racy .remote (.rmaWrite, .load) (.put, .load))
  main _ rank := seq <|
    mpiBarrier ++
    ifRank rank 0 ([.store value] ++ winLock .win false 1 ++ [.conflict 1, mpiPut value 1 0]) ++
    mpiBarrier ++
    ifRank rank 1 ([.conflict 2] ++ printf [winBase 0]) ++
    ifRank rank 0 (winUnlock .win 1) ++
    mpiBarrier

def syncLockBarrierRemoteNo : Template where
  file := "MPI-sync-lock-barrier-remote-no"
  labels := labelsConst (raceless (.rmaWrite, .load))
  main _ rank := seq <|
    mpiBarrier ++
    ifRank rank 0 ([.store value] ++ winLock .win false 1 ++ [mpiPut value 1 0] ++
      winUnlock .win 1) ++
    mpiBarrier ++
    ifRank rank 1 (printf [winBase 0]) ++
    mpiBarrier

def syncLockBarrierRemoteYes : Template where
  file := "MPI-sync-lock-barrier-remote-yes"
  labels := labelsConst (racy .remote (.rmaWrite, .load) (.put, .load))
  main _ rank := seq <|
    mpiBarrier ++
    ifRank rank 0 ([.store value] ++ winLock .win false 1 ++ [.conflict 1, mpiPut value 1 0] ++
      winUnlock .win 1) ++
    ifRank rank 1 ([.conflict 2] ++ printf [winBase 0]) ++
    mpiBarrier

def syncLockBarrierSameoriginRemoteNo : Template where
  file := "MPI-sync-lock-barrier-sameorigin-remote-no"
  labels := labelsConst (raceless (.rmaWrite, .rmaRead))
  main _ rank := seq <|
    mpiBarrier ++
    ifRank rank 0 ([.store value] ++ winLock .win false 1 ++
      [mpiPut value 1 0, .flush .win 1, mpiGet value2 1 0] ++ winUnlock .win 1) ++
    mpiBarrier

def syncLockBarrierSameoriginRemoteYes : Template where
  file := "MPI-sync-lock-barrier-sameorigin-remote-yes"
  labels := labelsConst (racy .remote (.rmaWrite, .rmaRead) (.put, .get))
  main cx rank := seq <|
    mpiBarrier ++
    ifRank rank 0 ([.store value] ++ winLock .win false 1 ++
      [.conflict 1, mpiPut value 1 0, .conflict 2, mpiGet value2 1 0] ++ winUnlock .win 1) ++
    mpiBarrier ++
    (if cx.op1.name == "put" || cx.op2.name == "put" then ifRank rank 1 (printf [winBase 0])
      else []) ++
    mpiBarrier

def syncLockExclusive3procsRemoteNo : Template where
  file := "MPI-sync-lock-exclusive-3procs-remote-no"
  labels := labelsConst (raceless (.rmaWrite, .rmaRead))
  main _ rank := seq <|
    mpiBarrier ++
    ifRank rank 0 ([.store value] ++ winLock .win true 1 ++ [.conflict 1, mpiPut value 1 0] ++
      winUnlock .win 1) ++
    ifRank rank 2 (winLock .win true 1 ++ [.conflict 2, mpiGet value 1 0] ++ winUnlock .win 1) ++
    mpiBarrier

def syncLockExclusiveRemoteNo : Template where
  file := "MPI-sync-lock-exclusive-remote-no"
  labels := labelsConst (raceless (.rmaWrite, .load))
  main _ rank := seq <|
    mpiBarrier ++
    ifRank rank 0 (winLock .win true 1 ++ [.conflict 1, mpiPut value 1 0] ++ winUnlock .win 1) ++
    ifRank rank 1 (winLock .win true 1 ++ [.conflict 2] ++ printf [winBase 0] ++
      winUnlock .win 1) ++
    mpiBarrier

def syncLockExclusiveRemoteYes : Template where
  file := "MPI-sync-lock-exclusive-remote-yes"
  labels := labelsConst (racy .remote (.rmaWrite, .load) (.put, .load))
  winAllocate := [.winAllocate .win, .winAllocate .win2]
  main _ rank := seq <|
    ((List.range WIN_SIZE).flatMap fun i => [.store (winBase i), .store (.cell .win2 i)]) ++
    mpiBarrier ++
    (if rank = 0 then
      winLock .win true 1 ++ [.conflict 1, mpiPut value 1 0] ++ winUnlock .win 1 ++
      winLock .win2 true 1 ++ winUnlock .win2 1
    else
      winLock .win2 true 1 ++ winUnlock .win2 1 ++ [.conflict 2] ++ printf [winBase 0]) ++
    winFree .win2

def syncLockFlushLocalRace : Template where
  file := "MPI-sync-lock-flush-local-race"
  labels := labelsIf (racy .local (.localWrite, .load) (.get, .load)) (raceless (.localWrite, .load))
  main cx rank := seq <|
    mpiBarrier ++
    ifRank rank 0 (
      winLock .win false 1 ++
      (if cx.race then [.conflict 1, mpiGet value 1 0, .conflict 2] ++ printf [value]
        else [mpiGet value 1 0]) ++
      [.flush .win 1] ++
      unlessRace cx (printf [value]) ++
      winUnlock .win 1)

def syncLockFlushlocalSameoriginRemoteNo : Template where
  file := "MPI-sync-lock-flushlocal-sameorigin-remote-no"
  labels := labelsConst (raceless (.rmaWrite, .rmaRead))
  main _ rank := seq <|
    mpiBarrier ++
    ifRank rank 0 (winLock .win false 1 ++
      [mpiGet value 1 0, .flushLocal .win 1, mpiGet value 1 0] ++ winUnlock .win 1) ++
    mpiBarrier

def syncLockFlushlocalSameoriginRemoteYes : Template where
  file := "MPI-sync-lock-flushlocal-sameorigin-remote-yes"
  labels := labelsConst (racy .local (.localRead, .localWrite) (.put, .get))
  main _ rank := seq <|
    mpiBarrier ++
    ifRank rank 0 ([.store value] ++ winLock .win false 1 ++
      [.conflict 1, mpiPut value 1 0, .flushLocal .win 1, .conflict 2, mpiGet value 1 0] ++
      winUnlock .win 1) ++
    mpiBarrier

def syncLockLocalRace : Template where
  file := "MPI-sync-lock-local-race"
  labels := labelsIf (racy .local (.localWrite, .load) (.get, .load)) (raceless (.localWrite, .load))
  main cx rank := seq <|
    mpiBarrier ++
    ifRank rank 0 (
      winLock .win false 1 ++
      (if cx.race then [.conflict 1, mpiGet value 1 0, .conflict 2] ++ printf [value]
        else [mpiGet value 1 0]) ++
      winUnlock .win 1 ++
      unlessRace cx (printf [value]))

def syncLockSendrecv3procsRemoteNo : Template where
  file := "MPI-sync-lock-sendrecv-3procs-remote-no"
  labels := labelsConst (raceless (.rmaWrite, .rmaWrite))
  main _ rank := seq <|
    mpiBarrier ++
    ifRank rank 0 ([.store value] ++ winLock .win false 1 ++ [mpiPut value 1 0] ++
      winUnlock .win 1 ++ [.send .token 2]) ++
    ifRank rank 2 ([.recv .token 0, .store value] ++ winLock .win false 1 ++ [mpiPut value 1 0] ++
      winUnlock .win 1)

def syncLockSendrecv3procsRemoteYes : Template where
  file := "MPI-sync-lock-sendrecv-3procs-remote-yes"
  labels := labelsConst (racy .remote (.rmaWrite, .load) (.put, .load))
  main _ rank := seq <|
    mpiBarrier ++
    ifRank rank 0 ([.store value] ++ winLock .win true 1 ++ [.conflict 1, mpiPut value 1 0] ++
      winUnlock .win 1 ++ [.send .token 1]) ++
    ifRank rank 1 ([.recv .token 2, .conflict 2] ++ printf [winBase 0] ++ [.recv .token 0]) ++
    ifRank rank 2 [.send .token 1]

def syncLockSendrecvRemoteRace : Template where
  file := "MPI-sync-lock-sendrecv-remote-race"
  labels := labelsIf (racy .remote (.rmaWrite, .load) (.put, .load)) (raceless (.rmaWrite, .load))
  main cx rank := seq <|
    mpiBarrier ++
    ifRank rank 0 ([.store value] ++ winLock .win false 1 ++ ifRace cx [.conflict 1] ++
      [mpiPut value 1 0] ++ winUnlock .win 1 ++ [.send .token 1]) ++
    ifRank rank 1 (if cx.race then [.conflict 2] ++ printf [winBase 0] ++ [.recv .token 0]
      else [.recv .token 0] ++ printf [winBase 0])

def syncLockallBarrierRemoteNo : Template where
  file := "MPI-sync-lockall-barrier-remote-no"
  labels := labelsConst (raceless (.rmaWrite, .load))
  main _ rank := seq <|
    mpiBarrier ++
    [.lockAll .win] ++
    ifRank rank 0 [.store value, mpiPut value 1 0] ++
    [.unlockAll .win] ++
    mpiBarrier ++
    ifRank rank 1 (printf [winBase 0])

def syncLockallBarrierRemoteYes : Template where
  file := "MPI-sync-lockall-barrier-remote-yes"
  labels := labelsConst (racy .remote (.rmaWrite, .load) (.put, .load))
  main _ rank := seq <|
    mpiBarrier ++
    [.lockAll .win] ++
    ifRank rank 0 [.store value, .conflict 1, mpiPut value 1 0] ++
    [.unlockAll .win] ++
    ifRank rank 1 ([.conflict 2] ++ printf [winBase 0]) ++
    mpiBarrier

def syncLockallFlushallRemoteNo : Template where
  file := "MPI-sync-lockall-flushall-remote-no"
  labels := labelsConst (raceless (.rmaWrite, .load))
  main _ rank := seq <|
    [.lockAll .win] ++
    mpiBarrier ++
    ifRank rank 0 ([.store value, mpiPut value 1 0, .flushAll .win] ++ mpiBarrier) ++
    ifRank rank 1 (mpiBarrier ++ printf [winBase 0]) ++
    [.unlockAll .win] ++
    mpiBarrier

def syncLockallFlushallRemoteYes : Template where
  file := "MPI-sync-lockall-flushall-remote-yes"
  labels := labelsConst (racy .remote (.rmaWrite, .load) (.put, .load))
  main _ rank := seq <|
    [.lockAll .win] ++
    mpiBarrier ++
    ifRank rank 0 [.store value, .conflict 1, mpiPut value 1 0, .flushAll .win] ++
    ifRank rank 1 ([.conflict 2] ++ printf [winBase 0]) ++
    [.unlockAll .win] ++
    mpiBarrier

def syncLockallFlushlocalallLocalRace : Template where
  file := "MPI-sync-lockall-flushlocalall-local-race"
  labels := labelsIf (racy .local (.localWrite, .load) (.get, .load)) (raceless (.localWrite, .load))
  main cx rank := seq <|
    mpiBarrier ++
    [.lockAll .win] ++
    ifRank rank 0 (
      (if cx.race then [.conflict 1, mpiGet value 1 0, .conflict 2] ++ printf [value]
        else [mpiGet value 1 0]) ++
      [.flushLocalAll .win] ++
      unlessRace cx (printf [value])) ++
    (if cx.op2.name == "store" then ifRank rank 0 (printf [value]) else []) ++
    (if cx.op1.name == "put" || cx.op2.name == "put" then ifRank rank 1 (printf [winBase 0])
      else []) ++
    [.unlockAll .win]

def syncLockallRemoteYes : Template where
  file := "MPI-sync-lockall-remote-yes"
  labels := labelsConst (racy .remote (.rmaWrite, .load) (.put, .load))
  main _ rank := seq <|
    mpiBarrier ++
    [.lockAll .win] ++
    ifRank rank 0 [.store value, .conflict 1, mpiPut value 1 0] ++
    ifRank rank 1 ([.conflict 2] ++ printf [winBase 0]) ++
    [.unlockAll .win] ++
    mpiBarrier

/-- The second key `ACCESS_SET` of the label is the one that a JSON reader keeps. -/
def syncPollingRemoteYes : Template where
  file := "MPI-sync-polling-remote-yes"
  labels := labelsConst (racy .remote (.localWrite, .load) (.put, .load))
  main cx rank := seq <|
    mpiBarrier ++
    (if rank = 0 then
      winLock .win true 1 ++ declInit .blockValue ++ [.conflict 1, mpiPut (.var .blockValue) 1 0] ++
      winUnlock .win 1 ++ [.leaveBlock [.blockValue]]
    else
      -- `while (*flag != 1)`: every round reads the flag once more
      [.conflict 2] ++ printf [winBase 0] ++
      (List.replicate (cx.rounds rank)
        (winLock .win true 1 ++ winUnlock .win 1 ++ printf [winBase 0])).flatten) ++
    mpiBarrier

def syncPscwLocalRace : Template where
  file := "MPI-sync-pscw-local-race"
  labels := labelsIf (racy .local (.localWrite, .load) (.get, .load)) (raceless (.localWrite, .load))
  main cx rank := seq <|
    mpiBarrier ++
    (if rank = 0 then
      [.start .win [1]] ++
      (if cx.race then [.conflict 1, mpiGet value 1 0, .conflict 2] ++ printf [value]
        else [mpiGet value 1 0]) ++
      [.complete .win] ++
      unlessRace cx (printf [value])
    else [.post .win [0], .wait .win])

def syncPscwRemoteNo : Template where
  file := "MPI-sync-pscw-remote-no"
  labels := labelsConst (raceless (.rmaWrite, .rmaRead))
  main _ rank := seq <|
    mpiBarrier ++
    (if rank = 0 then
      [.start .win [2]] ++ declInit .blockValue ++
      [mpiPut (.var .blockValue) 2 0, .complete .win, .leaveBlock [.blockValue]]
    else if rank = 1 then
      [.start .win [2], .decl .blockValue, mpiGet (.var .blockValue) 2 0, .complete .win,
        .leaveBlock [.blockValue]]
    else if rank = 2 then [.post .win [0], .wait .win, .post .win [1], .wait .win]
    else [])

def syncPscwRemoteYes : Template where
  file := "MPI-sync-pscw-remote-yes"
  labels := labelsConst (racy .remote (.rmaWrite, .rmaRead) (.put, .get))
  main _ rank := seq <|
    mpiBarrier ++
    (if rank = 0 then
      [.start .win [2]] ++ declInit .blockValue ++
      [.conflict 1, mpiPut (.var .blockValue) 2 0, .complete .win, .leaveBlock [.blockValue]]
    else if rank = 1 then
      [.start .win [2], .decl .blockValue, .conflict 2, mpiGet (.var .blockValue) 2 0,
        .complete .win, .leaveBlock [.blockValue]]
    else if rank = 2 then [.post .win [0, 1], .wait .win]
    else [])

/-- The template writes its labels into the block `preamble`: the boilerplate's block `race_labels`
stays, and stands first in the file. -/
def syncRequestLocalRace : Template where
  file := "MPI-sync-request-local-race"
  labels := none
  main cx rank := seq <|
    mpiBarrier ++ winFence .win ++
    ifRank rank 0 (if cx.race then
      [.conflict 1, mpiRget value 1 0, .conflict 2] ++ printf [value] ++ [.waitReq]
    else [mpiRget value 1 0, .waitReq] ++ printf [value]) ++
    winFence .win

end Mpi.Template
