import RMARaceBench.Gaspi.Semantics

/-!
# GASPI templates

`boilerplate` puts the blocks `main` of the ranks into the frame of `GASPI-boilerplate.c.j2`: the
barrier after the segments are created, and the epilogue that waits for the queue, meets at a barrier,
notifies every rank, waits for the notification of every rank and prints.
-/

set_option autoImplicit false

namespace Gaspi

/-- The end of the start of `main`. -/
def prologue : List Stmt := gaspiBarrier

/-- The notifications of the epilogue: rank `rank` raises its slot at every rank. -/
def notifyAll (num rank : Nat) : List Stmt := (List.range num).map fun i => gaspiNotify i rank

def waitAll (num : Nat) : List Stmt := (List.range num).map .waitsome

/-- The final `printf`. -/
def finalPrintf : List Stmt := [.load .loc 0, .load .remote 0]

/-- The end of `main`. -/
def epilogue (num rank : Nat) : List Stmt :=
  [.wait] ++ gaspiBarrier ++ notifyAll num rank ++ waitAll num ++ finalPrintf

/-- The boilerplate with the blocks `main`, for `num` ranks. -/
def boilerplate (num : Nat) (main : Nat → List Stmt) : Program where
  ranks := num
  text rank := prologue ++ main rank ++ epilogue num rank

/-- A template of `templates/GASPI` with its label `NPROCS`. -/
structure Template where
  file : String
  nprocs : Nat
  main : Nat → List Stmt

def Template.program (tp : Template) (num : Nat) : Program := boilerplate num tp.main

/-! ## Synchronization without a race -/

def syncNotifyWaitsomeLocalNo : Template where
  file := "GASPI-sync-notify-waitsome-local-no"
  nprocs := 2
  main rank :=
    ifRank rank 0 [.store .loc 0, gaspiWriteNotify 0 1 0 0, .waitsome 0, .store .loc 0] ++
    ifRank rank 1 [.waitsome 0, gaspiNotify 0 0] ++ gaspiBarrier

def syncNotifyWaitsomeRemoteNo : Template where
  file := "GASPI-sync-notify-waitsome-remote-no"
  nprocs := 2
  main rank :=
    ifRank rank 0 [gaspiWriteNotify 0 1 0 0, .wait] ++
    ifRank rank 1 [.waitsome 0, .load .remote 0]

def syncWaitAllreduceRemoteNo : Template where
  file := "GASPI-sync-wait-allreduce-remote-no"
  nprocs := 3
  main rank :=
    ifRank rank 0 [gaspiRead 0 1 0, .wait, .load .loc 0] ++ gaspiAllreduce ++
    ifRank rank 1 [.store .remote 0]

def syncWaitSendrecvRemoteNo : Template where
  file := "GASPI-sync-wait-sendrecv-remote-no"
  nprocs := 2
  main rank :=
    ifRank rank 0 [gaspiRead 0 1 0, .wait, .load .loc 0, .passiveSend 1] ++
    ifRank rank 1 [.passiveReceive, .load .loc 0, .store .remote 0]

end Gaspi
