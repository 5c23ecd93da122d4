import RMARaceBench.Generator.CaseFiles

/-!
# The loops of the generator

`gen_conflict_races`, `gen_sync_races` and `gen_misc_races` over any tables, and `printStaticstics`.
`Tables.generated_eq`: the nested loops make one list of calls.
-/

set_option autoImplicit false

namespace Generator

/-! ## The counters -/

namespace CaseCounter

variable (c : CaseCounter)

def get (model : Model) : Nat := c.counter model

def set (model : Model) (value : Nat) : CaseCounter :=
  { c with counter := fun m => if m = model then value else c.counter m }

def setRaces (model : Model) (value : Nat) : CaseCounter :=
  { c with raceCounter := fun m => if m = model then value else c.raceCounter m }

def getRaces (model : Model) : Nat := c.raceCounter model

def getNoraces (model : Model) : Int := (c.counter model : Int) - c.raceCounter model

end CaseCounter

/-! ## The tables -/

/-- `for model in Model`. -/
def models : List Model := [.MPIRMA, .SHMEM, .GASPI]

/-- `SourceTemplate`. -/
structure SourceTemplate where
  filename : String
  nprocs : Nat
  hasRace : List Bool := []
  operationCombinations : List (Option Operation × Option Operation) := []
  threaded : Bool := false

/-- An entry of `local_race_combinations`. -/
structure LocalCombination where
  ops1 : Model → List Operation
  ops2 : Model → List Operation
  hasRace : Bool

/-- An entry of `remote_race_combinations`. -/
structure RemoteCombination extends LocalCombination where
  nprocs : Nat

/-- An entry of `additional_local_combinations` or `additional_remote_combinations`. -/
structure AdditionalCombination where
  op1 : Operation
  op2 : Operation
  hasRace : Bool
  nprocs : Nat

structure ConflictTables where
  localRaceCombinations : List LocalCombination
  additionalLocalCombinations : Model → List AdditionalCombination
  additionalRemoteCombinations : Model → List AdditionalCombination
  remoteRaceCombinations : List RemoteCombination
  localSrcTemplates : Model → SourceTemplate
  remoteSrcTemplates : Model → SourceTemplate

structure SyncTables where
  srcSyncTemplates : Model → List SourceTemplate
  srcAtomicTemplates : Model → List SourceTemplate
  srcHybridTemplates : Model → List SourceTemplate

structure MiscTables where
  localRaceCombinations : List LocalCombination
  remoteRaceCombinations : List RemoteCombination
  localSrcTemplates : Model → List SourceTemplate
  remoteSrcTemplates : Model → List SourceTemplate

/-! ## The loops -/

namespace ConflictTables

variable (t : ConflictTables)

def localEntry (c : LocalCombination) (model : Model) : Entry :=
  ⟨(t.localSrcTemplates model).filename, model, c.hasRace, (t.localSrcTemplates model).nprocs⟩

def remoteEntry (c : RemoteCombination) (model : Model) : Entry :=
  ⟨(t.remoteSrcTemplates model).filename, model, c.hasRace, c.nprocs⟩

end ConflictTables

/-- The loop over `additional_local_combinations[model]` or `additional_remote_combinations[model]`. -/
def genAdditional (srcTemplate : SourceTemplate) (model : Model) (cs : List AdditionalCombination)
    (s : State) : State :=
  cs.foldl (fun s c => s.render .conflict srcTemplate.filename model (some c.op1) (some c.op2)
    c.hasRace c.nprocs) s

def genConflictRaces (t : ConflictTables) (s : State) : State :=
  let s := t.localRaceCombinations.foldl (fun s c => models.foldl (fun s model =>
    (t.localEntry c model).combinationLoop (c.ops1 model) (c.ops2 model) s) s) s
  let s := models.foldl (fun s model =>
    genAdditional (t.localSrcTemplates model) model (t.additionalLocalCombinations model) s) s
  let s := t.remoteRaceCombinations.foldl (fun s c => models.foldl (fun s model =>
    (t.remoteEntry c model).combinationLoop (c.ops1 model) (c.ops2 model) s) s) s
  models.foldl (fun s model =>
    genAdditional (t.remoteSrcTemplates model) model (t.additionalRemoteCombinations model) s) s

/-- `for src_template in src_templates[model]: …`. -/
def genTemplates (d : Discipline) (model : Model) (srcTemplates : List SourceTemplate) (s : State) :
    State :=
  srcTemplates.foldl (fun s srcTemplate => srcTemplate.operationCombinations.foldl (fun s op =>
    srcTemplate.hasRace.foldl (fun s hasRace => s.render d srcTemplate.filename model op.1 op.2
      hasRace srcTemplate.nprocs srcTemplate.threaded) s) s) s

/-- The local `caseCounter` of the loops is never used. -/
def genSyncRaces (t : SyncTables) (s : State) : State :=
  models.foldl (fun s model =>
    [(Discipline.sync, t.srcSyncTemplates), (.atomic, t.srcAtomicTemplates),
      (.hybrid, t.srcHybridTemplates)].foldl (fun s x => genTemplates x.1 model (x.2 model) s) s) s

/-- `for op1 in ops1[model]: for op2 in ops2[model]: …`, without `generated_combos`. -/
def genAllPairs (templateFile : String) (model : Model) (c : LocalCombination) (nprocs : Nat)
    (s : State) : State :=
  (c.ops1 model).foldl (fun s op1 => (c.ops2 model).foldl (fun s op2 =>
    s.render .misc templateFile model (some op1) (some op2) c.hasRace nprocs) s) s

def genMiscRaces (t : MiscTables) (s : State) : State :=
  let s := models.foldl (fun s model => (t.localSrcTemplates model).foldl (fun s template =>
    t.localRaceCombinations.foldl (fun s c =>
      genAllPairs template.filename model c template.nprocs s) s) s) s
  models.foldl (fun s model => (t.remoteSrcTemplates model).foldl (fun s template =>
    t.remoteRaceCombinations.foldl (fun s c =>
      genAllPairs template.filename model c.toLocalCombination c.nprocs s) s) s) s

/-- The tables of the script. -/
structure Tables where
  conflict : ConflictTables
  sync : SyncTables
  misc : MiscTables

/-- The state after the three functions. `render_template` does not touch the counters; where it raises, the
script ends with the calls that were made. -/
def Tables.generated (t : Tables) : State :=
  genMiscRaces t.misc (genSyncRaces t.sync (genConflictRaces t.conflict {}))

/-! ## `printStaticstics` -/

/-- A printed row: the numbers of races, of other cases and of all cases for each model. -/
structure Row where
  name : Text
  cells : List (Nat × Int × Nat)

def printCases (name : Text) (counter : CaseCounter) : Row :=
  ⟨name, models.map fun m => (counter.getRaces m, counter.getNoraces m, counter.get m)⟩

/-- `total`. -/
def totalCounter (caseCounters : Discipline → CaseCounter) : CaseCounter :=
  models.foldl (fun total model =>
    [Discipline.conflict, .sync, .atomic, .hybrid, .misc].foldl (fun total d =>
      let total := total.set model (total.get model + (caseCounters d).get model)
      total.setRaces model (total.getRaces model + (caseCounters d).getRaces model)) total) {}

/-- `f'\x7bname: <16\x7d'`. -/
def padRight16 (name : Text) : Text := name ++ List.replicate (16 - name.length) ' '

def printStaticstics (caseCounters : Discipline → CaseCounter) : List Row :=
  [printCases (padRight16 "Conflict".toList) (caseCounters .conflict),
    printCases (padRight16 "Synchronization".toList) (caseCounters .sync),
    printCases (padRight16 "Atomic".toList) (caseCounters .atomic),
    printCases (padRight16 "Hybrid".toList) (caseCounters .hybrid),
    printCases (padRight16 "Misc".toList) (caseCounters .misc),
    printCases (padRight16 "Total".toList) (totalCounter caseCounters)]

/-! ## Requests -/

/-- The arguments of a call, without the number. -/
structure Request where
  discipline : Discipline
  templateFile : String
  model : Model
  op1 : Option Operation
  op2 : Option Operation
  hasRace : Bool
  nprocs : Nat
  threaded : Bool := false

def State.perform (s : State) (r : Request) : State :=
  s.render r.discipline r.templateFile r.model r.op1 r.op2 r.hasRace r.nprocs r.threaded

/-- The requests of a list, one after another. -/
def State.run (s : State) (rs : List Request) : State := rs.foldl State.perform s

theorem State.run_append (s : State) (rs rs' : List Request) :
    s.run (rs ++ rs') = (s.run rs).run rs' := List.foldl_append

/-- A loop runs the requests of its passes. -/
theorem State.run_flatMap {α : Type} (s : State) (g : α → List Request) (l : List α) :
    s.run (l.flatMap g) = l.foldl (fun s a => s.run (g a)) s := List.foldl_flatMap

theorem State.run_map {α : Type} (s : State) (g : α → Request) (l : List α) :
    s.run (l.map g) = l.foldl (fun s a => s.perform (g a)) s := List.foldl_map

/-! ### `gen_conflict_races` -/

def Entry.request (e : Entry) (p : Operation × Operation) : Request :=
  ⟨.conflict, e.templateFile, e.model, some p.1, some p.2, e.hasRace, e.nprocs, false⟩

/-- A skipped pair is no request. -/
def Entry.requests (e : Entry) (ops1 ops2 : List Operation) : List Request :=
  (firsts pairKey [] (pairs ops1 ops2)).map e.request

theorem Entry.foldl_combine_eq (e : Entry) (l : List (Operation × Operation))
    (seen : List (String × String)) (s : State) :
    (l.foldl (fun acc p => e.combine acc p.1 p.2) (seen, s)).2 =
      s.run ((firsts pairKey seen l).map e.request) := by
  induction l generalizing seen s with
  | nil => rfl
  | cons p l ih =>
    rw [List.foldl_cons]
    unfold firsts combine
    by_cases hp : pairKey p ∈ seen
    · rw [if_pos hp, if_pos (show sortedPair p.1.name p.2.name ∈ seen from hp)]
      exact ih seen s
    · rw [if_neg hp, if_neg (show sortedPair p.1.name p.2.name ∉ seen from hp)]
      exact ih _ _

theorem Entry.combinationLoop_eq_run (e : Entry) (ops1 ops2 : List Operation) (s : State) :
    e.combinationLoop ops1 ops2 s = s.run (e.requests ops1 ops2) := by
  rw [e.combinationLoop_eq]
  exact e.foldl_combine_eq _ [] s

def additionalRequests (srcTemplate : SourceTemplate) (model : Model)
    (cs : List AdditionalCombination) : List Request :=
  cs.map fun c => ⟨.conflict, srcTemplate.filename, model, some c.op1, some c.op2, c.hasRace,
    c.nprocs, false⟩

theorem genAdditional_eq (srcTemplate : SourceTemplate) (model : Model)
    (cs : List AdditionalCombination) (s : State) :
    genAdditional srcTemplate model cs s = s.run (additionalRequests srcTemplate model cs) := by
  unfold additionalRequests
  rw [State.run_map]
  rfl

def ConflictTables.requests (t : ConflictTables) : List Request :=
  (t.localRaceCombinations.flatMap fun c => models.flatMap fun model =>
    (t.localEntry c model).requests (c.ops1 model) (c.ops2 model)) ++
  (models.flatMap fun model =>
    additionalRequests (t.localSrcTemplates model) model (t.additionalLocalCombinations model)) ++
  (t.remoteRaceCombinations.flatMap fun c => models.flatMap fun model =>
    (t.remoteEntry c model).requests (c.ops1 model) (c.ops2 model)) ++
  models.flatMap fun model =>
    additionalRequests (t.remoteSrcTemplates model) model (t.additionalRemoteCombinations model)

theorem genConflictRaces_eq (t : ConflictTables) (s : State) :
    genConflictRaces t s = s.run t.requests := by
  unfold genConflictRaces ConflictTables.requests
  simp only [State.run_append, State.run_flatMap, Entry.combinationLoop_eq_run, genAdditional_eq]

/-! ### `gen_sync_races` -/

def templateRequests (d : Discipline) (model : Model) (srcTemplates : List SourceTemplate) :
    List Request :=
  srcTemplates.flatMap fun srcTemplate => srcTemplate.operationCombinations.flatMap fun op =>
    srcTemplate.hasRace.map fun hasRace => ⟨d, srcTemplate.filename, model, op.1, op.2, hasRace,
      srcTemplate.nprocs, srcTemplate.threaded⟩

theorem genTemplates_eq (d : Discipline) (model : Model) (srcTemplates : List SourceTemplate)
    (s : State) :
    genTemplates d model srcTemplates s = s.run (templateRequests d model srcTemplates) := by
  unfold templateRequests
  simp only [State.run_flatMap, State.run_map]
  rfl

def SyncTables.requests (t : SyncTables) : List Request :=
  models.flatMap fun model => [(Discipline.sync, t.srcSyncTemplates), (.atomic, t.srcAtomicTemplates),
    (.hybrid, t.srcHybridTemplates)].flatMap fun x => templateRequests x.1 model (x.2 model)

theorem genSyncRaces_eq (t : SyncTables) (s : State) : genSyncRaces t s = s.run t.requests := by
  unfold genSyncRaces SyncTables.requests
  simp only [State.run_flatMap, genTemplates_eq]

/-! ### `gen_misc_races` -/

def pairRequests (templateFile : String) (model : Model) (c : LocalCombination) (nprocs : Nat) :
    List Request :=
  (c.ops1 model).flatMap fun op1 => (c.ops2 model).map fun op2 =>
    ⟨.misc, templateFile, model, some op1, some op2, c.hasRace, nprocs, false⟩

theorem genAllPairs_eq (templateFile : String) (model : Model) (c : LocalCombination) (nprocs : Nat)
    (s : State) :
    genAllPairs templateFile model c nprocs s = s.run (pairRequests templateFile model c nprocs) := by
  unfold pairRequests
  simp only [State.run_flatMap, State.run_map]
  rfl

def MiscTables.requests (t : MiscTables) : List Request :=
  (models.flatMap fun model => (t.localSrcTemplates model).flatMap fun template =>
    t.localRaceCombinations.flatMap fun c => pairRequests template.filename model c template.nprocs) ++
  models.flatMap fun model => (t.remoteSrcTemplates model).flatMap fun template =>
    t.remoteRaceCombinations.flatMap fun c =>
      pairRequests template.filename model c.toLocalCombination c.nprocs

theorem genMiscRaces_eq (t : MiscTables) (s : State) : genMiscRaces t s = s.run t.requests := by
  unfold genMiscRaces MiscTables.requests
  simp only [State.run_append, State.run_flatMap, genAllPairs_eq]

/-- All calls of the script, in order. -/
def Tables.requests (t : Tables) : List Request :=
  t.conflict.requests ++ t.sync.requests ++ t.misc.requests

theorem Tables.generated_eq (t : Tables) : t.generated = State.run {} t.requests := by
  unfold generated requests
  rw [State.run_append, State.run_append, genConflictRaces_eq, genSyncRaces_eq, genMiscRaces_eq]

end Generator
