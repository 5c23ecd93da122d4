import RMARaceBench.Generator.Name
import RMARaceBench.Mpi.Template.Conflict
import RMARaceBench.Mpi.Template.Hybrid

/-!
# The generated MPI cases

The tables of `gen_conflict_races`, `gen_misc_races` and `gen_sync_races` for `Model.MPIRMA`, and the
list of all cases that they generate (`mpiCases`). Every list of operations of the MPI tables has one
element, so that the generator's check for pairs generated twice never applies.
-/

set_option autoImplicit false

namespace Mpi

/-- A generated file: the arguments of `render_template`. -/
structure Case where
  template : Template
  number : Nat := 0
  op1 : Operation
  op2 : Operation
  race : Bool
  nprocs : Nat
  threaded : Bool

namespace Case

/-- `access_kind` of `render_template`. -/
def accessKind (c : Case) : RaceKind :=
  match Generator.accessKind (Generator.outFile (c.template.file.toList ++ ".c.j2".toList) c.number
      c.op1.name.toList c.op2.name.toList c.race) with
  | some .local => .local
  | some .remote => .remote
  | none => .none

/-- The labels in the generated file. -/
def labels (c : Case) : Labels :=
  match c.template.labels with
  | some l => l c.race
  | none => defaultLabels c.accessKind c.op1 c.op2 c.race

def program (c : Case) (T : Omp.Team) (rounds : Nat → Nat) (procs : Nat) : Program :=
  c.template.program ⟨c.race, c.op1, c.op2, T, rounds⟩ procs

end Case

/-- `SourceTemplate`. -/
structure SourceTemplate where
  template : Template
  nprocs : Nat
  hasRace : List Bool
  combinations : List (Operation × Operation)
  threaded : Bool

/-! ## The tables -/

def opLocalLoad := [Op.localLoad]
def opLocalStore := [Op.localStore]
def opLocalBufferRead := [Op.put]
def opLocalBufferRead2 := [Op.put2]
def opLocalBufferWrite := [Op.get]
def opRemoteLoad := [Op.remoteLoad]
def opRemoteStore := [Op.remoteStore]
def opRmaWrite := [Op.put]
def opRmaRead := [Op.get]
def opRmaAtomicWrite := [Op.acc]
def opRmaAtomicRead := [Op.gaccread]

def localRaceCombinations : List (List Operation × List Operation × Bool) :=
  [(opLocalBufferRead, opLocalLoad, false), (opLocalBufferRead, opLocalStore, true),
    (opLocalBufferRead, opLocalBufferRead2, false), (opLocalBufferWrite, opLocalLoad, true),
    (opLocalBufferWrite, opLocalStore, true), (opLocalBufferWrite, opLocalBufferRead, true),
    (opLocalBufferWrite, opLocalBufferWrite, true)]

def additionalLocalCombinations : List (Operation × Operation × Bool × Nat) :=
  [(Op.acc, Op.localStore, true, 2), (Op.acc, Op.localLoad, false, 2),
    (Op.gacc1, Op.localStore, true, 2), (Op.gacc2, Op.localLoad, true, 2),
    (Op.fop1, Op.localStore, true, 2), (Op.fop2, Op.localLoad, true, 2),
    (Op.cas1, Op.localStore, true, 2), (Op.cas2, Op.localLoad, true, 2)]

def remoteRaceCombinations : List (List Operation × List Operation × Bool × Nat) :=
  [(opRmaRead, opRemoteLoad, false, 2), (opRmaRead, opRmaRead, false, 3),
    (opRmaRead, opRemoteStore, true, 2), (opRmaRead, opRmaWrite, true, 3),
    (opRmaRead, opRmaAtomicRead, false, 3), (opRmaRead, opRmaAtomicWrite, true, 3),
    (opRmaWrite, opRemoteLoad, true, 2), (opRmaWrite, opRemoteStore, true, 2),
    (opRmaWrite, opRmaWrite, true, 3), (opRmaWrite, opRmaAtomicRead, true, 3),
    (opRmaWrite, opRmaAtomicWrite, true, 3), (opRmaAtomicWrite, opRemoteLoad, true, 2),
    (opRmaAtomicWrite, opRemoteStore, true, 2), (opRmaAtomicWrite, opRmaAtomicWrite, false, 3),
    (opRmaAtomicWrite, opRmaAtomicRead, false, 3), (opRmaAtomicRead, opRmaAtomicRead, false, 3),
    (opRmaAtomicRead, opRemoteLoad, false, 2), (opRmaAtomicRead, opRemoteStore, true, 2)]

def additionalRemoteCombinations : List (Operation × Operation × Bool × Nat) :=
  [(Op.gacc1, Op.remoteStore, true, 2), (Op.gacc1, Op.gacc1, false, 3),
    (Op.fop1, Op.fop1, false, 3), (Op.fop1, Op.remoteStore, true, 2),
    (Op.cas1, Op.remoteStore, true, 2), (Op.cas1, Op.cas1, false, 3)]

def miscLocalCombinations : List (List Operation × List Operation × Bool) :=
  [(opLocalBufferRead, opLocalLoad, false), (opLocalBufferWrite, opLocalLoad, true)]

def miscRemoteCombinations : List (List Operation × List Operation × Bool × Nat) :=
  [(opRmaRead, opRemoteLoad, false, 2), (opRmaRead, opRemoteStore, true, 2)]

open Template in
def miscLocalTemplates : List Template :=
  [miscDeepNestingLocalRace, miscAliasingLocalRace, miscRetvalLocalRace, miscMemcpyLocalRace]

open Template in
def miscRemoteTemplates : List Template :=
  [miscDeepNestingRemoteRace, miscFuncpointerRemoteRace, miscAliasingRemoteRace,
    miscRetvalRemoteRace, miscMemcpyRemoteRace]

def mpiGetLoad := [(Op.get, Op.localLoad)]
def mpiPutLoad := [(Op.put, Op.remoteLoad)]
def mpiPutGet := [(Op.put, Op.get)]
def mpiRgetLoad := [(Op.rget, Op.localLoad)]
def mpiAccAcc := [(Op.acc, Op.acc)]

open Template in
def srcSyncTemplates : List SourceTemplate :=
  [⟨syncFenceLocalRace, 2, [true, false], mpiGetLoad, false⟩,
    ⟨syncLockLocalRace, 2, [true, false], mpiGetLoad, false⟩,
    ⟨syncLockFlushLocalRace, 2, [true, false], mpiGetLoad, false⟩,
    ⟨syncLockallFlushlocalallLocalRace, 2, [true, false], mpiGetLoad, false⟩,
    ⟨syncRequestLocalRace, 2, [true, false], mpiRgetLoad, false⟩,
    ⟨syncPscwLocalRace, 2, [true, false], mpiGetLoad, false⟩,
    ⟨syncLockallFlushallRemoteNo, 2, [false], mpiGetLoad, false⟩,
    ⟨syncLockallFlushallRemoteYes, 2, [true], mpiGetLoad, false⟩,
    ⟨syncLockallBarrierRemoteNo, 2, [false], mpiGetLoad, false⟩,
    ⟨syncLockallBarrierRemoteYes, 2, [true], mpiGetLoad, false⟩,
    ⟨syncLockallRemoteYes, 2, [true], mpiGetLoad, false⟩,
    ⟨syncFence3procsRemoteRace, 3, [true], mpiPutGet, false⟩,
    ⟨syncFence3procsRemoteRace, 3, [false], mpiPutGet, false⟩,
    ⟨syncLockBarrierNonconsistentRemoteYes, 2, [true], mpiPutLoad, false⟩,
    ⟨syncLockBarrierRemoteYes, 2, [true], mpiPutLoad, false⟩,
    ⟨syncLockBarrierRemoteNo, 2, [false], mpiPutLoad, false⟩,
    ⟨syncLockBarrierSameoriginRemoteNo, 2, [false], mpiPutGet, false⟩,
    ⟨syncLockBarrierSameoriginRemoteYes, 2, [true], mpiPutGet, false⟩,
    ⟨syncLockFlushlocalSameoriginRemoteYes, 2, [true], mpiPutGet, false⟩,
    ⟨syncLockFlushlocalSameoriginRemoteNo, 2, [false], mpiPutGet, false⟩,
    ⟨syncLockExclusiveRemoteNo, 2, [false], mpiPutLoad, false⟩,
    ⟨syncLockExclusive3procsRemoteNo, 3, [false], mpiPutGet, false⟩,
    ⟨syncLockExclusiveRemoteYes, 2, [true], mpiPutLoad, false⟩,
    ⟨syncLockSendrecvRemoteRace, 2, [true, false], mpiPutLoad, false⟩,
    ⟨syncLockSendrecv3procsRemoteNo, 3, [false], mpiPutLoad, false⟩,
    ⟨syncLockSendrecv3procsRemoteYes, 3, [true], mpiPutLoad, false⟩,
    ⟨syncPscwRemoteNo, 3, [false], mpiPutGet, false⟩,
    ⟨syncPscwRemoteYes, 3, [true], mpiPutGet, false⟩,
    ⟨syncPollingRemoteYes, 2, [true], mpiPutLoad, false⟩]

open Template in
def srcAtomicTemplates : List SourceTemplate :=
  [⟨atomicCustomdatatypeRemoteNo, 3, [false], mpiAccAcc, false⟩,
    ⟨atomicCustomdatatypeRemoteYes, 3, [true], mpiAccAcc, false⟩,
    ⟨atomicDispRemoteYes, 3, [true], mpiAccAcc, false⟩,
    ⟨atomicDispRemoteNo, 3, [false], mpiAccAcc, false⟩,
    ⟨atomicShortIntRemoteYes, 3, [true], mpiAccAcc, false⟩,
    ⟨atomicFloatIntRemoteYes, 3, [true], mpiAccAcc, false⟩,
    ⟨atomicFloatIntSameoriginRemoteYes, 2, [true], mpiAccAcc, false⟩,
    ⟨atomicDoubleFloatRemoteYes, 3, [true], mpiAccAcc, false⟩,
    ⟨atomicIntIntRemoteNo, 3, [false], mpiAccAcc, false⟩,
    ⟨atomicIntIntSameoriginRemoteNo, 2, [false], mpiAccAcc, false⟩]

open Template in
def srcHybridTemplates : List SourceTemplate :=
  [⟨hybridMasterLocalYes, 2, [true], mpiAccAcc, true⟩,
    ⟨hybridMasterLocalNo, 2, [false], mpiAccAcc, true⟩,
    ⟨hybridSingleLocalYes, 2, [true], mpiAccAcc, true⟩,
    ⟨hybridSingleLocalNo, 2, [false], mpiAccAcc, true⟩,
    ⟨hybridOrderedLocalNo, 2, [false], mpiAccAcc, true⟩,
    ⟨hybridForLocalYes, 2, [true], mpiAccAcc, true⟩,
    ⟨hybridSectionLocalYes, 2, [true], mpiAccAcc, true⟩,
    ⟨hybridSectionLocalNo, 2, [false], mpiAccAcc, true⟩,
    ⟨hybridTaskLocalYes, 2, [true], mpiAccAcc, true⟩,
    ⟨hybridTaskLocalNo, 2, [false], mpiAccAcc, true⟩,
    ⟨hybridMasterRemoteYes, 2, [true], mpiAccAcc, true⟩,
    ⟨hybridMasterRemoteNo, 2, [false], mpiAccAcc, true⟩,
    ⟨hybridSingleRemoteYes, 2, [true], mpiAccAcc, true⟩,
    ⟨hybridSingleRemoteNo, 2, [false], mpiAccAcc, true⟩,
    ⟨hybridTaskRemoteYes, 2, [true], mpiAccAcc, true⟩,
    ⟨hybridTaskRemoteNo, 2, [false], mpiAccAcc, true⟩,
    ⟨hybridSectionRemoteYes, 2, [true], mpiAccAcc, true⟩,
    ⟨hybridSectionRemoteNo, 2, [false], mpiAccAcc, true⟩,
    ⟨hybridOrderedRemoteNo, 2, [false], mpiAccAcc, true⟩,
    ⟨hybridForRemoteYes, 2, [true], mpiAccAcc, true⟩,
    ⟨hybridSectionBarrierOriginRemoteYes, 2, [true], mpiAccAcc, true⟩,
    ⟨hybridSectionSendrecvOriginRemoteYes, 2, [true], mpiAccAcc, true⟩]

/-! ## The cases -/

/-- The cases of a discipline are numbered from 1 on. -/
def numbered (cs : List Case) : List Case :=
  (cs.zipIdx 1).map fun p => { p.1 with number := p.2 }

def genConflictRaces : List Case :=
  numbered <|
    (localRaceCombinations.flatMap fun (ops1, ops2, race) => ops1.flatMap fun op1 =>
      ops2.map fun op2 => ⟨Template.conflictLocalRace, 0, op1, op2, race, 2, false⟩) ++
    (additionalLocalCombinations.map fun (op1, op2, race, nprocs) =>
      ⟨Template.conflictLocalRace, 0, op1, op2, race, nprocs, false⟩) ++
    (remoteRaceCombinations.flatMap fun (ops1, ops2, race, nprocs) => ops1.flatMap fun op1 =>
      ops2.map fun op2 => ⟨Template.conflictRemoteRace, 0, op1, op2, race, nprocs, false⟩) ++
    (additionalRemoteCombinations.map fun (op1, op2, race, nprocs) =>
      ⟨Template.conflictRemoteRace, 0, op1, op2, race, nprocs, false⟩)

def genMiscRaces : List Case :=
  numbered <|
    (miscLocalTemplates.flatMap fun tp => miscLocalCombinations.flatMap fun (ops1, ops2, race) =>
      ops1.flatMap fun op1 => ops2.map fun op2 => ⟨tp, 0, op1, op2, race, 2, false⟩) ++
    (miscRemoteTemplates.flatMap fun tp =>
      miscRemoteCombinations.flatMap fun (ops1, ops2, race, nprocs) =>
      ops1.flatMap fun op1 => ops2.map fun op2 => ⟨tp, 0, op1, op2, race, nprocs, false⟩)

/-- One discipline of `gen_sync_races`. -/
def genDiscipline (ts : List SourceTemplate) : List Case :=
  numbered <| ts.flatMap fun st => st.combinations.flatMap fun (op1, op2) =>
    st.hasRace.map fun race => ⟨st.template, 0, op1, op2, race, st.nprocs, st.threaded⟩

def genSyncRaces : List Case :=
  genDiscipline srcSyncTemplates ++ genDiscipline srcAtomicTemplates ++
    genDiscipline srcHybridTemplates

/-- **The cases generated from `templates/MPIRMA`.** -/
def mpiCases : List Case := genConflictRaces ++ genSyncRaces ++ genMiscRaces

/-- `002-MPI-conflict-put-store-local-yes.c` -/
def conflictPutStore : Case :=
  ⟨Template.conflictLocalRace, 2, Op.put, Op.localStore, true, 2, false⟩

theorem conflictPutStore_mem : conflictPutStore ∈ mpiCases :=
  List.mem_append_left _ (List.mem_append_left _
    (List.mem_of_getElem? (show genConflictRaces[1]? = some conflictPutStore from rfl)))

/-! ## What a case keeps of the tables -/

theorem mem_numbered {cs : List Case} {c : Case} (h : c ∈ numbered cs) :
    ∃ c' ∈ cs, c.template = c'.template ∧ c.race = c'.race ∧ c.nprocs = c'.nprocs := by
  obtain ⟨⟨c', k⟩, hmem, rfl⟩ := List.mem_map.1 h
  exact ⟨c', List.fst_mem_of_mem_zipIdx hmem, rfl, rfl, rfl⟩

theorem mem_genDiscipline {ts : List SourceTemplate} {c : Case} (h : c ∈ genDiscipline ts) :
    ∃ st ∈ ts, c.template = st.template ∧ c.race ∈ st.hasRace ∧ c.nprocs = st.nprocs := by
  obtain ⟨c', hc', ht, hr, hn⟩ := mem_numbered h
  simp only [List.mem_flatMap, List.mem_map] at hc'
  obtain ⟨st, hst, ⟨op1, op2⟩, -, race, hrace, rfl⟩ := hc'
  exact ⟨st, hst, ht, hr ▸ hrace, hn⟩

theorem mem_genConflictRaces {c : Case} (h : c ∈ genConflictRaces) :
    c.template = Template.conflictLocalRace ∨ c.template = Template.conflictRemoteRace := by
  obtain ⟨c', hc', ht, -, -⟩ := mem_numbered h
  simp only [List.mem_append, List.mem_flatMap, List.mem_map] at hc'
  rw [ht]
  rcases hc' with ((⟨_, -, _, -, _, -, rfl⟩ | ⟨_, -, rfl⟩) | ⟨_, -, _, -, _, -, rfl⟩) | ⟨_, -, rfl⟩
  · exact .inl rfl
  · exact .inl rfl
  · exact .inr rfl
  · exact .inr rfl

theorem mem_genMiscRaces {c : Case} (h : c ∈ genMiscRaces) :
    c.template ∈ miscLocalTemplates ++ miscRemoteTemplates := by
  obtain ⟨c', hc', ht, -, -⟩ := mem_numbered h
  simp only [List.mem_append, List.mem_flatMap, List.mem_map] at hc'
  rw [ht, List.mem_append]
  rcases hc' with ⟨tp, htp, _, -, _, -, _, -, rfl⟩ | ⟨tp, htp, _, -, _, -, _, -, rfl⟩
  · exact .inl htp
  · exact .inr htp

end Mpi
