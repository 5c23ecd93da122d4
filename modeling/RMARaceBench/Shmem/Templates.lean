import RMARaceBench.Shmem.Semantics

/-!
# SHMEM templates

`Template.program` puts a template's block `main` into the frame of `shmem-boilerplate.c.j2`: the
variables of `main`, the check of the number of PEs, the final barrier and the final `printf`. The
static variables are initialized before the program starts; loop counters are left out.
-/

set_option autoImplicit false

namespace Shmem

/-- A template of `templates/SHMEM` with its label `NPROCS` and its block `main`. -/
structure Template where
  file : String
  nprocs : Nat
  main : Nat → Nat → List Stmt

/-- The start of `main`. -/
def prologue : List Stmt := [.store .localbuf, .store .numPe, .store .myPe, .load .numPe]

/-- The end of `main`. -/
def epilogue : List Stmt := shmemBarrierAll ++ printf [.myPe, .remote, .localbuf]

/-- The template rendered for `n` PEs. -/
def Template.program (tp : Template) (n : Nat) : Program where
  pes := n
  text r := prologue ++ tp.main n r ++ epilogue

/-! ## Calls -/

/-- `shmem_int_put_signal_nbi`. -/
def putSignalNbi (dest source : Var) (f : Flag) (target : Nat) : Stmt :=
  .issue ⟨.default, some source, some dest, false, some f, target⟩

/-- `shmem_int_put_signal`. -/
def putSignal (dest source : Var) (f : Flag) (target : Nat) : List Stmt :=
  [putSignalNbi dest source f target, .returned]

/-- `shmem_ctx_int_put`; `shmem_int_put` is on the default context. -/
def ctxIntPut (c : Ctx) (dest source : Var) (target : Nat) : List Stmt :=
  [.issue ⟨c, some source, some dest, false, none, target⟩, .returned]

def intPut (dest source : Var) (target : Nat) : List Stmt := ctxIntPut .default dest source target

/-- `shmem_ctx_int_atomic_add`. -/
def ctxIntAtomicAdd (c : Ctx) (dest : Var) (target : Nat) : Stmt :=
  .issue ⟨c, none, some dest, true, none, target⟩

/-- `shmem_int_atomic_set` of a flag. -/
def intAtomicSet (f : Flag) (target : Nat) : Stmt := .issue ⟨.default, none, none, true, some f, target⟩

/-! ## Contexts -/

def atomicSameCtxRemoteNo : Template where
  file := "shmem-atomic-same-ctx-remote-no"
  nprocs := 3
  main _ pe := [.ctxCreate .ctx] ++
    ifPe pe 0 [ctxIntAtomicAdd .ctx .remote 1] ++
    ifPe pe 2 [ctxIntAtomicAdd .ctx .remote 1] ++ shmemBarrierAll

def atomicSameDomainRemoteNo : Template where
  file := "shmem-atomic-same-domain-remote-no"
  nprocs := 3
  main _ pe := [.ctxCreate .ctx, .ctxCreate .ctx2] ++
    ifPe pe 0 [ctxIntAtomicAdd .ctx .remote 1] ++
    ifPe pe 2 [ctxIntAtomicAdd .ctx2 .remote 1] ++ shmemBarrierAll ++
    [.ctxDestroy .ctx, .ctxDestroy .ctx2]

def syncCtxRemoteNo : Template where
  file := "shmem-sync-ctx-remote-no"
  nprocs := 2
  main _ pe := [.ctxCreate .ctx] ++ shmemBarrierAll ++
    ifPe pe 0 ([.store .localbuf] ++ ctxIntPut .ctx .remote .localbuf 1 ++
      [.ctxQuiet .ctx, .store .localbuf] ++ ctxIntPut .ctx .remote .localbuf 1) ++
    shmemBarrierAll ++ [.ctxDestroy .ctx]

/-- The templates without a race that create contexts. -/
def contextTemplates : List Template :=
  [atomicSameCtxRemoteNo, atomicSameDomainRemoteNo, syncCtxRemoteNo]

/-! ## Synchronization on the default context -/

def syncWaituntilLocalNo : Template where
  file := "shmem-sync-waituntil-local-no"
  nprocs := 2
  main _ pe := shmemBarrierAll ++
    ifPe pe 0 [.store .localbuf, putSignalNbi .remote .localbuf .flag 1, .waitUntil .flag,
      .store .localbuf] ++
    ifPe pe 1 ([.store .localbuf, .waitUntil .flag] ++ putSignal .remote .localbuf .flag 0)

def syncWaituntilRemoteNo : Template where
  file := "shmem-sync-waituntil-remote-no"
  nprocs := 2
  main _ pe := shmemBarrierAll ++
    ifPe pe 0 ([.store .myval] ++ intPut .remote .myval 1 ++ [.fence, intAtomicSet .flag 1]) ++
    [.quiet] ++ ifPe pe 1 ([.waitUntil .flag] ++ printf [.remote])

/-- `polls` is the number of rounds in which PE 0 finds the signal not yet set. -/
def syncPutsignalRemoteNo (polls : Nat) : Template where
  file := "shmem-sync-putsignal-remote-no"
  nprocs := 2
  main n pe := shmemBarrierAll ++
    ifPe pe 0 (List.replicate polls (.signalFetch .signal false) ++ [.signalFetch .signal true] ++
      printf ((List.range n).map .data)) ++
    ifPe pe 1 (printf [.myPe] ++ putSignal (.data pe) .myPe .signal 0)

/-- The members of `shmem_team_split_strided(SHMEM_TEAM_WORLD, 0, 2, num_pe / 2, ..)`. -/
def teamMembers (n : Nat) : List Nat := (List.range (n / 2)).map (2 * ·)

/-- `if (SHMEM_TEAM_INVALID != team) { .. }` -/
def ifTeam (n pe : Nat) (ss : List Stmt) : List Stmt := if pe ∈ teamMembers n then ss else []

def syncTeamSyncRemoteNo : Template where
  file := "shmem-sync-team-sync-remote-no"
  nprocs := 4
  main n pe := printf [.numPe] ++ [.teamSplit] ++ shmemBarrierAll ++
    ifTeam n pe (ifPe pe 0 ([.store .localbuf] ++ intPut .remote .localbuf 2) ++ [.quiet]) ++
    ifTeam n pe (shmemTeamSync (teamMembers n)) ++
    ifTeam n pe (ifPe pe 2 (printf [.myPe, .remote])) ++ shmemBarrierAll ++ [.teamDestroy]

end Shmem
