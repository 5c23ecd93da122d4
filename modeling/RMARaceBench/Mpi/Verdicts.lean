import RMARaceBench.Mpi.Keys
import RMARaceBench.Mpi.Forks
import RMARaceBench.Mpi.RaceLabels

/-!
# Verdicts of the MPI cases

`Case.Races`: two accesses of a case race when they overlap and one of them writes, unless both belong
to atomic calls on the same elements of one datatype. A case that its label calls free of races has
none in any execution, for any number of processes from `NPROCS` on; a case that its label calls racy
has an execution with an unordered pair of racing accesses (`verdict_iff`).
-/

set_option autoImplicit false

namespace Mpi

open Causal Causal.System Omp

/-! ## Atomic calls -/

def Kind.isAtomic : Kind → Bool
  | .rmaAtomicRead | .rmaAtomicWrite => true
  | _ => false

/-- Two accesses by atomic calls to elements of one datatype that coincide or are apart. -/
def Access.elementwise (m m' : Access) : Bool :=
  match m.elem, m'.elem with
  | some e, some e' =>
    m.kind.isAtomic && m'.kind.isAtomic && e == e' && m.lo % e.size == m'.lo % e.size
  | _, _ => false

/-- Two accesses of a program race when they are unordered. -/
def Access.races (m m' : Access) : Bool := m.conflicts m' && !m.elementwise m'

/-- No execution of the program for `n` processes leaves two racing accesses unordered. -/
def Case.RaceFree (c : Case) (T : Team) (rounds : Nat → Nat) (n : Nat) : Prop :=
  (c.program T rounds n).system.RaceFree fun m m' => m.races m' = true

theorem Access.conf_of_races {m m' : Access} (h : m.races m' = true) : m.Conf m' := by
  simp only [races, Bool.and_eq_true] at h
  exact h.1

/-- An access that is not atomic races with all that it conflicts with. -/
theorem Access.races_of_plain {m m' : Access} (hc : m.Conf m')
    (hn : (m.kind.isAtomic && m'.kind.isAtomic) = false) : m.races m' = true := by
  unfold races elementwise
  rw [show m.conflicts m' = true from hc]
  split
  · rw [hn]
    rfl
  · rfl

/-! ## Cases labelled with a race -/

/-- The accesses marked in the file race in an execution. -/
def Program.findAnyRace (P : Program) (races : Access → Access → Bool) : Bool :=
  (P.marks 1).any fun p => (P.marks 2).any fun q =>
    (P.eventsAt p.1 p.2).any fun x => (P.eventsAt q.1 q.2).any fun y =>
      ((P.accsOf x).any fun m => (P.accsOf y).any fun m' => races m m') && P.unorderedIn x y

def Case.racesB (c : Case) : Bool :=
  (c.program c.searchTeam (fun _ => 1) c.nprocs).findAnyRace Access.races

theorem Case.not_raceFree {c : Case} (h : c.racesB = true) :
    ¬ c.RaceFree c.searchTeam (fun _ => 1) c.nprocs := by
  simp only [racesB, Program.findAnyRace, List.any_eq_true, Bool.and_eq_true] at h
  obtain ⟨p, hp, q, hq, x, hx, y, hy, ⟨m, hm, m', hm', hrace⟩, hu⟩ := h
  obtain ⟨h, hr, hxh, hyh, ho⟩ := Program.unordered_of_unorderedIn hu
  have hne : x ≠ y := (Program.marked_of_mem hp hx).ne (Program.marked_of_mem hq hy) (by decide)
  exact fun hfree => ho (hfree h hr x hxh y hyh hne m m' (Program.accesses_of_mem hm)
    (Program.accesses_of_mem hm') hrace)

/-- The label of the case names an access that is not atomic. -/
def Case.namesPlain (c : Case) : Bool :=
  match c.labels.accessSet with
  | some (k, k') => !(k.isAtomic && k'.isAtomic)
  | none => true

/-- A race that the label names is a race. -/
theorem Case.not_raceFree_of_findRace {c : Case} (h : c.findRace = true)
    (hn : c.namesPlain = true) : ¬ c.RaceFree c.searchTeam (fun _ => 1) c.nprocs := by
  simp only [findRace, Program.findRace, List.any_eq_true, Bool.and_eq_true, decide_eq_true_eq] at h
  obtain ⟨p, hp, q, hq, x, hx, y, hy, ⟨m, hm, m', hm', hconf, hl⟩, hu⟩ := h
  obtain ⟨h, hr, hxh, hyh, ho⟩ := Program.unordered_of_unorderedIn hu
  have hne : x ≠ y := (Program.marked_of_mem hp hx).ne (Program.marked_of_mem hq hy) (by decide)
  have hrace : m.races m' = true := by
    rw [namesPlain, hl] at hn
    exact Access.races_of_plain hconf (by simpa only [labelOf, Bool.not_eq_true'] using hn)
  exact fun hfree => ho (hfree h hr x hxh y hyh hne m m' (Program.accesses_of_mem hm)
    (Program.accesses_of_mem hm') hrace)

/-! ## Cases labelled without a race -/

/-- The text of a rank is that of its initial thread and does not depend on the team and on the
numbers of polling rounds; from rank 3 on all ranks have the same text. -/
structure Template.Sequential (tp : Template) : Prop where
  text : ∀ cx r, ∃ ss, tp.main cx r = seq ss
  same : ∀ race op1 op2 T T' rounds rounds',
    tp.main ⟨race, op1, op2, T, rounds⟩ = tp.main ⟨race, op1, op2, T', rounds'⟩
  further : ∀ cx k, tp.main cx (k + 3) = tp.main cx 3

/-- The rendering with a team of one. -/
def Case.solo (c : Case) : Program := c.program Team.alone (fun _ => 0) c.nprocs

/-- The communication calls of the ranks up to 3 are made by and go to processes of the program. -/
def Program.closedB (P : Program) : Bool :=
  decide (P.procs ≤ 3) && (List.range 4).all fun r => (P.items r).all fun it =>
    match it.stmt? with
    | some (.rma c) => decide (r < P.procs) && decide (c.target < P.procs)
    | _ => true

/-- The race check of a case. -/
def Case.freeB (c : Case) : Bool :=
  c.solo.closedB && keyedCheck c.solo.system c.solo.core Access.races 200

namespace Template.Sequential

variable {c : Case}

theorem items {tp : Template} (h : tp.Sequential) (cx : Ctx) (r : Nat) :
    ∃ ss, tp.items cx r = seq ss := by
  obtain ⟨ss, hss⟩ := h.text cx r
  refine ⟨prologue ++ tp.winAllocate ++ (ss ++ epilogue), ?_⟩
  rw [Template.items, hss, ← seq_append, ← seq_append]

theorem program (h : c.template.Sequential) (T : Team) (rounds : Nat → Nat) (n : Nat) :
    c.program T rounds n = c.solo.scale n T.size := by
  have hitems : c.template.items ⟨c.race, c.op1, c.op2, T, rounds⟩ =
      c.template.items ⟨c.race, c.op1, c.op2, Team.alone, fun _ => 0⟩ := by
    funext r
    rw [Template.items, Template.items, h.same c.race c.op1 c.op2 T Team.alone rounds fun _ => 0]
  simp only [Case.program, Template.program, Case.solo, Program.scale, hitems]

/-- A rank from 3 on has the text of rank 3. -/
theorem items_min (h : c.template.Sequential) (r : Nat) : c.solo.items r = c.solo.items (min r 3) := by
  rcases Nat.le_total r 3 with hr | hr
  · rw [Nat.min_eq_left hr]
  · obtain ⟨k, rfl⟩ := Nat.exists_eq_add_of_le' hr
    rw [Nat.min_eq_right hr]
    change c.template.items _ (k + 3) = c.template.items _ 3
    rw [Template.items, Template.items, h.further]

theorem closed (h : c.template.Sequential) (hb : c.solo.closedB = true) : c.solo.Closed := by
  simp only [Program.closedB, Bool.and_eq_true, decide_eq_true_eq, List.all_eq_true,
    List.mem_range] at hb
  obtain ⟨h3, hb⟩ := hb
  have hat : ∀ r k rc, c.solo.stmtAt r k = some (.rma rc) →
      min r 3 < c.solo.procs ∧ rc.target < c.solo.procs := fun r k rc hs => by
    obtain ⟨it, hit, hst⟩ := Option.bind_eq_some_iff.1 hs
    rw [h.items_min] at hit
    have := hb (min r 3) (by omega) it (List.mem_of_getElem? hit)
    rw [hst] at this
    simpa using this
  constructor
  · intro r hr k rc hs
    have := (hat r k rc hs).1
    omega
  · exact fun r _ k rc hs => (hat r k rc hs).2

/-- **The race check speaks about every team and every number of processes.** -/
theorem raceFree (h : c.template.Sequential) (hb : c.freeB = true) (T : Team) (rounds : Nat → Nat)
    {n : Nat} (hn : c.nprocs ≤ n) : c.RaceFree T rounds n := by
  simp only [Case.freeB, Bool.and_eq_true] at hb
  have hs : c.solo.Sequential := fun r => h.items _ r
  rw [Case.RaceFree, h.program]
  exact Program.raceFree_scale hs hn (h.closed hb.1) Team.alone.pos T.pos
    (fun _ _ hr => Access.conf_of_races hr) (raceCheck_of_keyed hb.2)

end Template.Sequential

/-! ## All cases -/

open Template

/-- Polling is the only sequential template whose text depends on the numbers of rounds; it has a race. -/
theorem sequential_of_mem_tables : ∀ st ∈ srcSyncTemplates ++ srcAtomicTemplates,
    st.template = syncPollingRemoteYes ∨ st.template.Sequential := by
  simp only [srcSyncTemplates, srcAtomicTemplates, List.cons_append, List.nil_append,
    List.forall_mem_cons]
  and_intros
  all_goals first
    | exact .inl rfl
    | exact .inr ⟨fun _ _ => ⟨_, rfl⟩, fun _ _ _ _ _ _ _ => rfl, fun _ _ => rfl⟩
    | simp

theorem sequential_conflict : conflictLocalRace.Sequential ∧ conflictRemoteRace.Sequential :=
  ⟨⟨fun _ _ => ⟨_, rfl⟩, fun _ _ _ _ _ _ _ => rfl, fun _ _ => rfl⟩,
    ⟨fun _ _ => ⟨_, rfl⟩, fun _ _ _ _ _ _ _ => rfl, fun _ _ => rfl⟩⟩

theorem sequential_misc : ∀ tp ∈ miscLocalTemplates ++ miscRemoteTemplates, tp.Sequential := by
  simp only [miscLocalTemplates, miscRemoteTemplates, List.cons_append, List.nil_append,
    List.forall_mem_cons]
  and_intros
  all_goals first
    | exact ⟨fun _ _ => ⟨_, rfl⟩, fun _ _ _ _ _ _ _ => rfl, fun _ _ => rfl⟩
    | simp

/-- The hybrid templates are the ten without a race and those whose label names one. -/
theorem hybrid_of_mem_table : ∀ st ∈ srcHybridTemplates, st.nprocs = 2 ∧
    (st.template ∈ hybridNo ∨ ∀ c : Case, c.template = st.template → c.labels.raceKind ≠ .none) := by
  simp only [srcHybridTemplates, List.forall_mem_cons]
  and_intros
  all_goals first
    | rfl
    | refine .inl ?_
      simp [hybridNo]
      done
    | refine .inr fun c ht hl => ?_
      rw [Case.labels, ht] at hl
      cases hl
    | simp

/-- What the label of a case says is to be shown by evaluation: a sequential case labelled without a
race has none; a case whose label is wrong or names two atomic accesses has a race all the same. -/
def Case.verdictB (c : Case) : Bool :=
  if c.labels.raceKind = .none then c.threaded || c.freeB
  else c.namesPlain && decide (c.template.file ∉ mislabelled) || c.racesB

theorem verdict_pairs : genConflictRaces.all Case.verdictB = true ∧
    genMiscRaces.all Case.verdictB = true := by
  refine ⟨all_of_chunks 8 5 (by decide +kernel) fun i hi => ?_,
    all_of_chunks 8 3 (by decide +kernel) fun i hi => ?_⟩
  all_goals interval_cases i <;> decide +kernel

theorem verdict_sync : (genDiscipline srcSyncTemplates).all Case.verdictB = true := by
  refine all_of_chunks 6 6 (by decide +kernel) fun i hi => ?_
  interval_cases i <;> decide +kernel

theorem verdict_tables : (genDiscipline srcAtomicTemplates).all Case.verdictB = true ∧
    (genDiscipline srcHybridTemplates).all Case.verdictB = true := by
  refine ⟨all_of_chunks 5 2 (by decide +kernel) fun i hi => ?_,
    all_of_chunks 6 4 (by decide +kernel) fun i hi => ?_⟩
  all_goals interval_cases i <;> decide +kernel

theorem verdict_mpiCases : mpiCases.all Case.verdictB = true := by
  obtain ⟨hconflict, hmisc⟩ := verdict_pairs
  obtain ⟨hatomic, hhybrid⟩ := verdict_tables
  simp only [mpiCases, genSyncRaces, List.all_append, hconflict, verdict_sync, hatomic, hhybrid,
    hmisc, Bool.and_self]

/-- The cases without threads. -/
def plainCases : List Case :=
  genConflictRaces ++ genDiscipline srcSyncTemplates ++ genDiscipline srcAtomicTemplates ++ genMiscRaces

theorem threaded_cases : plainCases.all (fun c => !c.threaded) = true ∧
    (genDiscipline srcHybridTemplates).all (·.threaded) = true := by decide +kernel

theorem plain_or_hybrid {c : Case} (hc : c ∈ mpiCases) :
    c ∈ plainCases ∧ c.threaded = false ∨
      c ∈ genDiscipline srcHybridTemplates ∧ c.threaded = true := by
  have hplain : c ∈ plainCases → c.threaded = false := fun h => by
    simpa using List.all_eq_true.1 threaded_cases.1 c h
  have hhybrid := List.all_eq_true.1 threaded_cases.2 c
  simp only [mpiCases, genSyncRaces, plainCases, List.mem_append] at hc hplain ⊢
  tauto

theorem sequential_of_plain {c : Case} (hc : c ∈ plainCases) :
    c.template = syncPollingRemoteYes ∨ c.template.Sequential := by
  have table : ∀ ts, (∀ st ∈ ts, st ∈ srcSyncTemplates ++ srcAtomicTemplates) →
      c ∈ genDiscipline ts → c.template = syncPollingRemoteYes ∨ c.template.Sequential :=
    fun ts hts hd => by
      obtain ⟨st, hst, ht, -, -⟩ := mem_genDiscipline hd
      exact ht ▸ sequential_of_mem_tables st (hts st hst)
  simp only [plainCases, List.mem_append] at hc
  rcases hc with ((hc | hc) | hc) | hc
  · rcases mem_genConflictRaces hc with ht | ht <;> rw [ht]
    · exact .inr sequential_conflict.1
    · exact .inr sequential_conflict.2
  · exact table _ (fun st h => List.mem_append_left _ h) hc
  · exact table _ (fun st h => List.mem_append_right _ h) hc
  · exact .inr (sequential_misc _ (mem_genMiscRaces hc))

/-- A case labelled without a race is sequential or comes from one of the ten hybrid templates. -/
theorem sequential_or_hybrid {c : Case} (hc : c ∈ mpiCases) (hl : c.labels.raceKind = .none) :
    (c.threaded = false ∧ c.template.Sequential) ∨ (c.template ∈ hybridNo ∧ c.nprocs = 2) := by
  rcases plain_or_hybrid hc with ⟨hplain, hthr⟩ | ⟨hhybrid, -⟩
  · rcases sequential_of_plain hplain with hp | hs
    · have hlabels : c.labels = racy .remote (.localWrite, .load) (.put, .load) := by
        rw [Case.labels, hp]
        rfl
      rw [hlabels] at hl
      cases hl
    · exact .inl ⟨hthr, hs⟩
  · obtain ⟨st, hst, ht, -, hn⟩ := mem_genDiscipline hhybrid
    obtain ⟨h2, hno | hyes⟩ := hybrid_of_mem_table st hst
    · exact .inr ⟨ht ▸ hno, hn.trans h2⟩
    · exact absurd hl (hyes c ht)

/-- **The labels say whether a case has a race**: a case is labelled without a race if and only if no
execution of it, with any team and any numbers of polling rounds, has one. -/
theorem verdict_iff : ∀ c ∈ mpiCases,
    (c.labels.raceKind = .none ↔ ∀ T rounds, c.RaceFree T rounds c.nprocs) := by
  intro c hc
  have hv := List.all_eq_true.1 verdict_mpiCases c hc
  rw [Case.verdictB] at hv
  constructor
  · intro hl T rounds
    rw [if_pos hl] at hv
    rcases sequential_or_hybrid hc hl with ⟨hthr, hs⟩ | ⟨hno, h2⟩
    · rw [hthr, Bool.false_or] at hv
      exact hs.raceFree hv T rounds (Nat.le_refl _)
    · have hfree := hybridNo_raceFree c.template hno ⟨c.race, c.op1, c.op2, T, rounds⟩
      rw [h2]
      exact fun h hr x hx y hy hne m m' hm hm' hrace =>
        hfree h hr x hx y hy hne m m' hm hm' (Access.conf_of_races hrace)
  · intro hfree
    by_contra hl
    rw [if_neg hl, Bool.or_eq_true, Bool.and_eq_true, decide_eq_true_eq] at hv
    rcases hv with ⟨hn, hf⟩ | hraces
    · have hcheck := List.all_eq_true.1 check_mpiCases c hc
      simp only [Case.check, hl, hf, decide_false, Bool.false_or] at hcheck
      exact Case.not_raceFree_of_findRace hcheck hn (hfree _ _)
    · exact Case.not_raceFree hraces (hfree _ _)

/-- A put and a store to its origin buffer. -/
theorem conflictPutStore_races :
    ¬ ∀ T rounds, conflictPutStore.RaceFree T rounds conflictPutStore.nprocs := fun h =>
  absurd ((verdict_iff conflictPutStore conflictPutStore_mem).2 h) (by decide)

end Mpi
