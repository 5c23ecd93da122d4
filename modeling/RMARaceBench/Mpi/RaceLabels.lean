import RMARaceBench.Causal.Exec
import RMARaceBench.Mpi.SyncRaceFree

/-!
# The labels of the racy cases

`Case.Truthful`: some execution of a case leaves the two accesses that its label names unordered. For
every case labelled with a race this holds unless the case comes from a template of `mislabelled`
(`labels_truthful_iff`). For a good label the execution is found by running the program
(`Case.findRace`). A wrong label is refuted by the accesses that the program makes at all
(`Offers`), or, where they are right and only their order is not, by the race check for these two.
-/

set_option autoImplicit false

namespace Mpi

open Causal Causal.System Omp

/-! ## What a label says -/

/-- Where two accesses meet: in a call's target location, or in a buffer of the calls' process. -/
def meet (m m' : Access) : RaceKind :=
  if m.kind.atTarget || m'.kind.atTarget then .remote
  else if m.kind.atBuffer || m'.kind.atBuffer then .local
  else .none

/-- The label that names the accesses `m` and `m'`. -/
def labelOf (m m' : Access) : Labels :=
  ⟨meet m m', some (m.kind, m'.kind), some (m.call, m'.call)⟩

/-- The process and the position in its text that an event belongs to. -/
def place : Event Actor → Nat × Nat
  | (.thread r _, k) | (.task r _, k) | (.op r k, _) | (.grant r k, _) => (r, k)

/-- `x` is performed by the statement under the `i`-th comment `// CONFLICT`. -/
def Program.Marked (P : Program) (i : Nat) (x : Event Actor) : Prop :=
  ∃ r k, P.stmtAt r k = some (.conflict i) ∧ place x = (r, k + 1)

/-- **The label of the case describes a race**: in some execution the accesses it names, made on the
marked lines, conflict and are unordered. -/
def Case.Truthful (c : Case) : Prop :=
  ∃ (T : Team) (rounds : Nat → Nat) (h : List (Event Actor)) (x y : Event Actor) (m m' : Access),
    (c.program T rounds c.nprocs).system.Run h ∧ x ∈ h ∧ y ∈ h ∧
    (c.program T rounds c.nprocs).Marked 1 x ∧ (c.program T rounds c.nprocs).Marked 2 y ∧
    (c.program T rounds c.nprocs).system.Accesses x m ∧
    (c.program T rounds c.nprocs).system.Accesses y m' ∧ m.Conf m' ∧
    ¬ (c.program T rounds c.nprocs).system.Ordered h x y ∧ c.labels = labelOf m m'

/-- The templates whose label names accesses that do not race. -/
def mislabelled : List String :=
  ["MPI-sync-fence-local-race", "MPI-sync-lock-flushlocal-sameorigin-remote-yes",
    "MPI-sync-polling-remote-yes", "MPI-hybrid-for-local-yes", "MPI-hybrid-master-local-yes",
    "MPI-hybrid-section-local-yes", "MPI-hybrid-single-local-yes", "MPI-hybrid-task-local-yes"]

/-! ## Searching for the race -/

namespace Program

variable (P : Program)

/-- The places under the `i`-th comment. -/
def marks (i : Nat) : List (Nat × Nat) :=
  (List.range P.procs).flatMap fun r =>
    (P.items r).zipIdx.filterMap fun p =>
      if p.1.stmt? = some (.conflict i) then some (r, p.2 + 1) else none

/-- The events that may access memory for the statement at position `k`. -/
def eventsAt (r k : Nat) : List (Event Actor) :=
  match P.stmtAt r k with
  | some (.rma _) => [(.op r k, 0), (.op r k, 1), (.op r k, 2)]
  | _ => (List.range P.team).reverse.map fun tid => (.thread r tid, k)

def accsOf (x : Event Actor) : List Access :=
  match P.system.step x with
  | some s => s.accs
  | none => []

/-- All actors. -/
def actors : List Actor :=
  (List.range P.procs).flatMap fun r =>
    (List.range P.team).map (.thread r) ++ (P.items r).zipIdx.flatMap fun p =>
      match p.1.act with
      | .stmt s => startedBy r p.2 (some s)
      | .taskCreate j => [.task r j]
      | _ => []

/-- An order for the search: the actor of `x` first, the one of `y` last. -/
def orderFor (x y : Event Actor) : List Actor :=
  x.1 :: (P.actors.filter fun a => decide (a ≠ x.1) && decide (a ≠ y.1)) ++ [y.1]

/-- An execution leaves `x` and `y` unordered. -/
def unorderedIn (x y : Event Actor) : Bool :=
  unorderedB P.system (P.orderFor x y) 8 x y || unorderedB P.system (P.orderFor y x) 8 y x

/-- An execution shows the race that `l` names. -/
def findRace (l : Labels) : Bool :=
  (P.marks 1).any fun p => (P.marks 2).any fun q =>
    (P.eventsAt p.1 p.2).any fun x => (P.eventsAt q.1 q.2).any fun y =>
      ((P.accsOf x).any fun m => (P.accsOf y).any fun m' =>
        m.conflicts m' && decide (l = labelOf m m')) && P.unorderedIn x y

variable {P}

theorem mem_marks {i r k : Nat} (h : (r, k) ∈ P.marks i) :
    ∃ k', P.stmtAt r k' = some (.conflict i) ∧ k = k' + 1 := by
  simp only [marks, List.mem_flatMap, List.mem_filterMap] at h
  obtain ⟨r', -, ⟨it, k'⟩, hit, h⟩ := h
  split at h
  · rename_i hst
    simp only [Option.some.injEq, Prod.mk.injEq] at h
    obtain ⟨rfl, rfl⟩ := h
    refine ⟨k', ?_, rfl⟩
    rw [stmtAt, List.mem_zipIdx_iff_getElem?.1 hit]
    exact hst
  · cases h

theorem place_of_mem_eventsAt {r k : Nat} {x : Event Actor} (h : x ∈ P.eventsAt r k) :
    place x = (r, k) := by
  unfold eventsAt at h
  split at h
  · simp only [List.mem_cons, List.not_mem_nil, or_false] at h
    rcases h with rfl | rfl | rfl <;> rfl
  · obtain ⟨tid, -, rfl⟩ := List.mem_map.1 h
    rfl

theorem marked_of_mem {i r k : Nat} {x : Event Actor} (hm : (r, k) ∈ P.marks i)
    (hx : x ∈ P.eventsAt r k) : P.Marked i x := by
  obtain ⟨k', hst, rfl⟩ := mem_marks hm
  exact ⟨r, k', hst, place_of_mem_eventsAt hx⟩

theorem accesses_of_mem {x : Event Actor} {m : Access} (h : m ∈ P.accsOf x) :
    P.system.Accesses x m := by
  unfold accsOf at h
  split at h
  · rename_i s hs
    exact ⟨s, hs, h⟩
  · simp at h

theorem unordered_of_unorderedIn {x y : Event Actor} (h : P.unorderedIn x y = true) :
    ∃ h, P.system.Run h ∧ x ∈ h ∧ y ∈ h ∧ ¬ P.system.Ordered h x y := by
  rcases Bool.or_eq_true _ _ ▸ h with h | h
  · exact unordered_of_drive h
  · obtain ⟨h, hr, hy, hx, ho⟩ := unordered_of_drive h
    exact ⟨h, hr, hx, hy, fun ho' => ho ho'.symm⟩

end Program

/-- A team of two for the hybrid cases. -/
def Case.searchTeam (c : Case) : Team := if c.threaded then Team.two else Team.alone

/-- The search with polling loops of one round. -/
def Case.findRace (c : Case) : Bool :=
  (c.program c.searchTeam (fun _ => 1) c.nprocs).findRace c.labels

/-- **A race that is found is one.** -/
theorem Case.truthful_of_findRace {c : Case} (h : c.findRace = true) : c.Truthful := by
  simp only [findRace, Program.findRace, List.any_eq_true, Bool.and_eq_true, decide_eq_true_eq] at h
  obtain ⟨p, hp, q, hq, x, hx, y, hy, ⟨m, hm, m', hm', hconf, hl⟩, hu⟩ := h
  obtain ⟨h, hr, hxh, hyh, ho⟩ := Program.unordered_of_unorderedIn hu
  exact ⟨c.searchTeam, fun _ => 1, h, x, y, m, m', hr, hxh, hyh, Program.marked_of_mem hp hx,
    Program.marked_of_mem hq hy, Program.accesses_of_mem hm, Program.accesses_of_mem hm', hconf, ho,
    hl⟩

/-! ## Labels that name no race -/

/-- Different comments mark different statements. -/
theorem Program.Marked.ne {P : Program} {i j : Nat} {x y : Event Actor} (hx : P.Marked i x)
    (hy : P.Marked j y) (hij : i ≠ j) : x ≠ y := by
  rintro rfl
  obtain ⟨r, k, hk, hpl⟩ := hx
  obtain ⟨r', k', hk', hpl'⟩ := hy
  rw [hpl, Prod.mk.injEq, Nat.add_right_cancel_iff] at hpl'
  obtain ⟨rfl, rfl⟩ := hpl'
  rw [hk, Option.some.injEq, Stmt.conflict.injEq] at hk'
  exact hij hk'

/-- A write to a buffer is made by a call. -/
theorem Program.rma_of_localWrite {P : Program} {x : Event Actor} {m : Access}
    (h : P.system.Accesses x m) (hk : m.kind = .localWrite) :
    ∃ r k c, P.stmtAt r k = some (.rma c) ∧ (c.result ≠ none ∨ c.kind = .localWrite) := by
  obtain ⟨a, i⟩ := x
  obtain ⟨s, hs, hm⟩ := id h
  cases a with
  | thread r tid =>
    obtain ⟨-, -, it, -, rfl⟩ := step_thread.1 hs
    split at hm
    · exact absurd hk (kind_actStep hm)
    · simp [Step.skip] at hm
  | task r j =>
    obtain ⟨-, it, -, rfl⟩ := step_task.1 hs
    split at hm
    · exact absurd hk (kind_actStep hm)
    · simp [Step.skip] at hm
  | grant r k => exact absurd h not_accesses_grant
  | op r k =>
    obtain ⟨-, c, hc, hs⟩ := step_op.1 hs
    refine ⟨r, k, c, hc, ?_⟩
    rcases opCode_cases hs with ⟨-, rfl⟩ | ⟨-, rfl⟩ | ⟨-, rfl⟩
    · obtain ⟨l, -, rfl⟩ := List.mem_map.1 hm
      cases l <;> cases hk
    · rw [List.mem_singleton.1 hm] at hk
      exact .inr hk
    · refine .inl fun hnone => ?_
      simp [hnone] at hm

/-- A read of the window and a load do not conflict. -/
theorem Case.not_truthful_of_reads {c : Case}
    (hl : c.labels = Template.racy .local (.rmaRead, .load) (.get, .load)) : ¬ c.Truthful := by
  rintro ⟨T, rounds, h, x, y, m, m', -, -, -, -, -, -, -, hconf, -, hlab⟩
  rw [hl] at hlab
  have hkind : (m.kind, m'.kind) = (Kind.rmaRead, Kind.load) :=
    (Option.some.inj (congrArg Labels.accessSet hlab)).symm
  simp only [Prod.mk.injEq] at hkind
  simp [Access.Conf, Access.conflicts, hkind.1, hkind.2, Kind.writes] at hconf

/-- A label that names the write of a result, in a program whose calls have no result buffer. -/
theorem Case.not_truthful_of_noResult {c : Case} {k : Kind}
    (hl : c.labels.accessSet = some (.localWrite, k))
    (hno : ∀ T rounds r i rc, (c.program T rounds c.nprocs).stmtAt r i = some (.rma rc) →
      rc.result = none ∧ rc.kind ≠ .localWrite) : ¬ c.Truthful := by
  rintro ⟨T, rounds, h, x, y, m, m', -, -, -, -, -, hm, -, -, -, hlab⟩
  rw [hlab] at hl
  have hkind : (m.kind, m'.kind) = (Kind.localWrite, k) := Option.some.inj hl
  obtain ⟨r, i, rc, hst, hrc⟩ := Program.rma_of_localWrite hm (Prod.mk.inj hkind).1
  obtain ⟨h1, h2⟩ := hno T rounds r i rc hst
  rcases hrc with hrc | hrc
  · exact hrc h1
  · exact h2 hrc

open Template

/-- The racy rendering puts and stores, its label has a get and a load. -/
theorem not_truthful_fenceLocal {c : Case} (ht : c.template = syncFenceLocalRace)
    (hr : c.race = true) : ¬ c.Truthful := by
  obtain ⟨_, number, op1, op2, race, nprocs, threaded⟩ := c
  obtain rfl : _ = syncFenceLocalRace := ht
  obtain rfl : race = true := hr
  refine Case.not_truthful_of_noResult (k := .load) rfl fun T rounds r i rc h => ?_
  have hp : syncFenceLocalRace.Plain ⟨true, op1, op2, T, rounds⟩ _ := rfl
  have hmem := hp.rma_mem (by decide) h
  by_cases hr : r = 0 <;>
    simp [hr, mpiBarrier, winFence, ifRank, unlessRace, mpiPut] at hmem
  subst hmem
  exact ⟨rfl, by decide⟩

/-- The put of the flag has no result, the label has the write of a result. -/
theorem not_truthful_polling {c : Case} (ht : c.template = syncPollingRemoteYes) :
    ¬ c.Truthful := by
  obtain ⟨_, number, op1, op2, race, nprocs, threaded⟩ := c
  obtain rfl : _ = syncPollingRemoteYes := ht
  refine Case.not_truthful_of_noResult (k := .load) rfl fun T rounds r i rc h => ?_
  have hp : syncPollingRemoteYes.Plain ⟨race, op1, op2, T, rounds⟩ _ := rfl
  have hmem := hp.rma_mem (by decide) h
  by_cases hr : r = 0 <;>
    simp [hr, mpiBarrier, winLock, winUnlock, declInit, printf, mpiPut] at hmem
  subst hmem
  exact ⟨rfl, by decide⟩

/-- Of the accesses to the local buffer that the label names, the first one is complete before the
second call: `MPI_Win_flush_local` lies between. -/
theorem not_truthful_flushlocal {c : Case}
    (ht : c.template = syncLockFlushlocalSameoriginRemoteYes) (hn : 2 ≤ c.nprocs) :
    ¬ c.Truthful := by
  obtain ⟨_, number, op1, op2, race, nprocs, threaded⟩ := c
  obtain rfl : _ = syncLockFlushlocalSameoriginRemoteYes := ht
  rintro ⟨T, rounds, h, x, y, m, m', hrun, hx, hy, hmx, hmy, hm, hm', hconf, hord, hlab⟩
  have hp : ∀ cx, syncLockFlushlocalSameoriginRemoteYes.Plain cx _ := fun _ => rfl
  have hcheck : raceCheck (syncLockFlushlocalSameoriginRemoteYes.program anyCtx 2).system
      (syncLockFlushlocalSameoriginRemoteYes.program anyCtx 2).core
      (fun a b => a.conflicts b && decide (labelOf a b =
        racy .local (.localRead, .localWrite) (.put, .get))) 200 = true := by decide +kernel
  have hfree := (hp ⟨race, op1, op2, T, rounds⟩).raceFree (hp anyCtx) (by decide) (by decide)
    (fun r hr => by
      have h0 : r ≠ 0 := by omega
      simp [h0, ifRank, mpiBarrier, Stmt.isRma])
    (fun a b hab => by simp only [Bool.and_eq_true] at hab; exact hab.1) hcheck hn
  have hne : x ≠ y := hmx.ne hmy (by decide)
  refine hord (hfree h hrun x hx y hy hne m m' hm hm' ?_)
  have hlab' : labelOf m m' = racy .local (.localRead, .localWrite) (.put, .get) := hlab.symm
  simp [hlab', show m.conflicts m' = true from hconf]

/-! ## All cases -/

/-- The racy rendering of the fence template. -/
theorem race_of_fenceLocal {c : Case} (ht : c.template = syncFenceLocalRace)
    (hl : c.labels.raceKind ≠ .none) : c.race = true := by
  cases hr : c.race with
  | true => rfl
  | false =>
    rw [Case.labels, ht, hr] at hl
    exact absurd rfl hl

/-- A wrong label of a `sync`, `atomic` or `hybrid` case. -/
theorem not_truthful_of_mem_tables : ∀ st ∈ srcSyncTemplates ++ srcAtomicTemplates ++
    srcHybridTemplates, st.template.file ∈ mislabelled → ∀ c : Case, c.template = st.template →
    c.nprocs = st.nprocs → c.labels.raceKind ≠ .none → ¬ c.Truthful := by
  simp only [srcSyncTemplates, srcAtomicTemplates, srcHybridTemplates, List.cons_append,
    List.nil_append, List.forall_mem_cons]
  and_intros
  all_goals first
    | exact fun h => absurd h (by decide)
    | exact fun _ c ht _ _ => Case.not_truthful_of_reads (by rw [Case.labels, ht]; rfl)
    | exact fun _ c ht _ _ => not_truthful_polling ht
    | exact fun _ c ht hn _ => not_truthful_flushlocal ht (Nat.le_of_eq hn.symm)
    | exact fun _ c ht _ hl => not_truthful_fenceLocal ht (race_of_fenceLocal ht hl)
    | simp

/-- A case is labelled without a race, comes from a mislabelled template or has the race. -/
def Case.check (c : Case) : Bool :=
  decide (c.labels.raceKind = .none) || decide (c.template.file ∈ mislabelled) || c.findRace

-- One evaluation for each table: a single one of `mpiCases` keeps five gigabytes.
theorem check_conflict : genConflictRaces.all Case.check = true := by decide +kernel

theorem check_sync : (genDiscipline srcSyncTemplates).all Case.check = true := by decide +kernel

theorem check_atomic : (genDiscipline srcAtomicTemplates).all Case.check = true := by
  decide +kernel

theorem check_hybrid : (genDiscipline srcHybridTemplates).all Case.check = true := by
  decide +kernel

theorem check_misc : genMiscRaces.all Case.check = true := by decide +kernel

theorem check_mpiCases : mpiCases.all Case.check = true := by
  simp only [mpiCases, genSyncRaces, List.all_append, check_conflict, check_sync, check_atomic,
    check_hybrid, check_misc, Bool.and_self]

/-- The labels of the boilerplate are not among the wrong ones. -/
theorem default_not_mislabelled {c : Case} (hc : c ∈ genConflictRaces ∨ c ∈ genMiscRaces) :
    c.template.file ∉ mislabelled := by
  rcases hc with hc | hc
  · rcases mem_genConflictRaces hc with h | h <;> rw [h] <;> decide
  · have hall : ∀ tp ∈ miscLocalTemplates ++ miscRemoteTemplates, tp.file ∉ mislabelled := by
      simp only [miscLocalTemplates, miscRemoteTemplates, List.cons_append, List.nil_append,
        List.forall_mem_cons]
      and_intros
      all_goals decide
    exact hall _ (mem_genMiscRaces hc)

theorem not_truthful_of_mislabelled {c : Case} (hc : c ∈ mpiCases) (hl : c.labels.raceKind ≠ .none)
    (hf : c.template.file ∈ mislabelled) : ¬ c.Truthful := by
  have of_table : ∀ ts, (∀ st ∈ ts, st ∈ srcSyncTemplates ++ srcAtomicTemplates ++
      srcHybridTemplates) → c ∈ genDiscipline ts → ¬ c.Truthful := fun ts hts hd => by
    obtain ⟨st, hst, ht, -, hn⟩ := mem_genDiscipline hd
    exact not_truthful_of_mem_tables st (hts st hst) (ht ▸ hf) c ht hn hl
  simp only [mpiCases, genSyncRaces, List.mem_append] at hc
  rcases hc with (hc | (hc | hc) | hc) | hc
  · exact absurd hf (default_not_mislabelled (.inl hc))
  · exact of_table _ (fun st h => List.mem_append_left _ (List.mem_append_left _ h)) hc
  · exact of_table _ (fun st h => List.mem_append_left _ (List.mem_append_right _ h)) hc
  · exact of_table _ (fun st h => List.mem_append_right _ h) hc
  · exact absurd hf (default_not_mislabelled (.inr hc))

/-- **Exactly the cases of eight templates have a label that names no race.** -/
theorem labels_truthful_iff : ∀ c ∈ mpiCases, c.labels.raceKind ≠ .none →
    (c.Truthful ↔ c.template.file ∉ mislabelled) := by
  intro c hc hl
  constructor
  · exact fun ht hf => not_truthful_of_mislabelled hc hl hf ht
  · intro hf
    have hcheck := List.all_eq_true.1 check_mpiCases c hc
    simp only [Case.check, hl, hf, decide_false, Bool.false_or] at hcheck
    exact Case.truthful_of_findRace hcheck

theorem conflictPutStore_truthful : conflictPutStore.Truthful :=
  (labels_truthful_iff conflictPutStore conflictPutStore_mem (by decide)).2 (by decide)

/-- `001-MPI-sync-fence-local-yes.c` -/
def syncFenceLocalYes : Case :=
  ⟨syncFenceLocalRace, 1, Op.get, Op.localLoad, true, 2, false⟩

/-- The label of the racy fence case names a get and a load, its code has a put and a store. -/
theorem syncFenceLocalYes_not_truthful :
    ¬ ∀ c ∈ mpiCases, c.labels.raceKind ≠ .none → c.Truthful := fun h =>
  have hmem : syncFenceLocalYes ∈ mpiCases :=
    List.mem_append_left _ (List.mem_append_right _ (List.mem_append_left _
      (List.mem_append_left _
        (List.mem_of_getElem? (show (genDiscipline srcSyncTemplates)[0]? = some syncFenceLocalYes
          from rfl)))))
  not_truthful_fenceLocal rfl rfl (h syncFenceLocalYes hmem (by decide))

end Mpi
