import RMARaceBench.Mpi.Flat
import RMARaceBench.Mpi.Verdicts

/-!
# No MPI case has a deadlock

Every run of a generated MPI case can be continued to its end (`finishes_of_not_polling`), for any team
and any assignment of the constructs to its threads. Left out are the files whose loops wait for a value
in memory (`polling`): the number of their rounds is chosen before the run.

In a finished run of a case all ranks have entered `MPI_Barrier` equally often (`barriers_finished`).
-/

set_option autoImplicit false

namespace Mpi

open Causal Causal.System Omp Template

/-- The templates that wait in a loop for a value in memory. -/
def polling : List String :=
  ["MPI-sync-polling-remote-yes", "MPI-hybrid-task-local-yes", "MPI-hybrid-task-local-no",
    "MPI-hybrid-task-remote-yes", "MPI-hybrid-task-remote-no"]

/-! ## Cases without threads -/

theorem finish_pairs : genConflictRaces.all (·.solo.finishB) = true ∧
    genMiscRaces.all (·.solo.finishB) = true := by
  refine ⟨all_of_chunks 8 5 (by decide +kernel) fun i hi => ?_,
    all_of_chunks 8 3 (by decide +kernel) fun i hi => ?_⟩
  all_goals interval_cases i <;> decide +kernel

theorem finish_tables : (genDiscipline srcSyncTemplates).all (·.solo.finishB) = true ∧
    (genDiscipline srcAtomicTemplates).all (·.solo.finishB) = true := by
  refine ⟨all_of_chunks 6 6 (by decide +kernel) fun i hi => ?_,
    all_of_chunks 5 2 (by decide +kernel) fun i hi => ?_⟩
  all_goals interval_cases i <;> decide +kernel

theorem finish_plainCases : plainCases.all (·.solo.finishB) = true := by
  obtain ⟨hconflict, hmisc⟩ := finish_pairs
  obtain ⟨hsync, hatomic⟩ := finish_tables
  simp only [plainCases, List.all_append, hconflict, hsync, hatomic, hmisc, Bool.and_self]

theorem finishes_of_plain {c : Case} (hc : c ∈ plainCases) (hpoll : c.template.file ∉ polling)
    (T : Team) (rounds : Nat → Nat) : (c.program T rounds c.nprocs).Finishes := by
  rcases sequential_of_plain hc with hp | hs
  · rw [hp] at hpoll
    exact absurd (by decide) hpoll
  · rw [hs.program]
    exact Program.finishes_of_finishB (fun r => hs.items _ r) Team.alone.pos
      (List.all_eq_true.1 finish_plainCases c hc) T.pos

/-! ## Hybrid cases -/

/-- The items of a region are for the team and stand behind what they wait for, in any context. -/
def Sound (T : Team) (its : List (Item Stmt)) : Prop :=
  Fits T its ∧ ∀ before, Program.textB before its = true

section
variable {T : Team} {as bs : List (Item Stmt)} {ss ss' : List Stmt}

theorem sound_append (ha : Sound T as) (hb : Sound T bs) : Sound T (as ++ bs) := by
  refine ⟨fits_append ha.1 hb.1, fun before => ?_⟩
  rw [Program.textB_append, ha.2, hb.2]
  rfl

theorem sound_on {w : Who} (hfits : Fits T (on w ss)) (hw : ∀ j, w ≠ .task j) : Sound T (on w ss) := by
  refine ⟨hfits, fun before => ?_⟩
  clear hfits
  induction ss generalizing before with
  | nil => rfl
  | cons s ss ih =>
    rw [on, List.map_cons, Program.textB, ← on, ih, Bool.and_true, Program.itemB]
    cases w with
    | task j => exact absurd rfl (hw j)
    | _ => rfl

theorem sound_seq : Sound T (seq ss) := sound_on fits_seq (by simp)

theorem sound_thread (τ : Fin T.size) : Sound T (on (.thread τ) ss) :=
  sound_on (fits_thread τ.isLt) (by simp)

theorem sound_each (h : ss.any (· == .barrierEnter) = false) : Sound T (each ss) :=
  sound_on (fits_each h) (by simp)

theorem sound_barrier : Sound T barrier := by
  refine ⟨fits_barrier, fun before => ?_⟩
  simp [barrier, Program.textB, Program.itemB]

theorem sound_parallel (h : Sound T as) : Sound T (parallel as) := by
  refine ⟨fits_parallel h.1, fun before => ?_⟩
  rw [parallel, Program.textB, Program.textB_append, h.2, (sound_barrier (T := T)).2]
  rfl

theorem sound_sections {k : Nat} : Sound T (sections T k [ss]) := by
  rw [show sections T k [ss] = on (.thread (T.section_ k 0)) ss ++ barrier by simp [sections]]
  exact sound_append (sound_thread _) sound_barrier

theorem sound_sections₂ {k : Nat} : Sound T (sections T k [ss, ss']) := by
  rw [show sections T k [ss, ss'] = on (.thread (T.section_ k 0)) ss ++
    on (.thread (T.section_ k 1)) ss' ++ barrier by simp [sections]]
  exact sound_append (sound_append (sound_thread _) (sound_thread _)) sound_barrier

theorem sound_forLoop₂ {k : Nat} {body : Nat → List Stmt} : Sound T (forLoop T k 2 body) := by
  rw [show forLoop T k 2 body = on (.thread (T.iter k 0)) (body 0) ++
    on (.thread (T.iter k 1)) (body 1) ++ barrier by simp [forLoop, List.range_succ]]
  exact sound_append (sound_append (sound_thread _) (sound_thread _)) sound_barrier

/-- The second iteration waits for the end of the first one. -/
theorem sound_forOrdered₂ {k : Nat} {body : Nat → List Stmt} : Sound T (forOrdered T k 2 body) := by
  refine ⟨fits_forOrdered, fun before => ?_⟩
  have hbody : forOrdered T k 2 body = [⟨.thread (T.iter k 0), .orderedBegin k 0⟩] ++
      (on (.thread (T.iter k 0)) (body 0) ++ ([⟨.thread (T.iter k 0), .orderedEnd k 0⟩] ++
        ([⟨.thread (T.iter k 1), .orderedBegin k 1⟩] ++ (on (.thread (T.iter k 1)) (body 1) ++
          ([⟨.thread (T.iter k 1), .orderedEnd k 1⟩] ++ barrier))))) := by
    simp [forOrdered, List.range_succ]
  have hbar : ∀ before, Program.textB before barrier = true := (sound_barrier (T := T)).2
  rw [hbody]
  simp only [Program.textB_append, (sound_thread (T.iter k 0)).2, (sound_thread (T.iter k 1)).2,
    hbar, Bool.and_true, Bool.true_and]
  simp [Program.textB, Program.itemB]

theorem sound_ifRank {r r' : Nat} (h : Sound T as) : Sound T (ifRank r r' as) := by
  unfold ifRank
  split
  · exact h
  · exact @sound_seq _ []

theorem sound_localFrame (h : Sound T as) (r : Nat) : Sound T (localFrame as r) :=
  sound_append (sound_append sound_seq (sound_ifRank (sound_append h sound_seq)))
    (sound_ifRank sound_seq)

theorem sound_remoteFrame {mark : List Stmt} (h : Sound T as) (r : Nat) :
    Sound T (remoteFrame mark as r) :=
  sound_append (sound_append sound_seq (sound_ifRank sound_seq)) (sound_ifRank h)

end

/-- A template whose flat text does not depend on the team. -/
structure Template.Lexical (tp : Template) : Prop where
  sound : ∀ cx r, Sound cx.team (tp.main cx r)
  flat : ∀ cx r, (tp.main cx r).map flatten = (tp.main anyCtx r).map flatten

theorem Template.Lexical.finishes {tp : Template} (L : tp.Lexical)
    (hb : (tp.program anyCtx 2).flat.finishB = true ∧ (tp.program anyCtx 2).flat.calmB = true)
    (cx : Ctx) : (tp.program cx 2).Finishes := by
  have hflat : (tp.program cx 2).flat = (tp.program anyCtx 2).flat := by
    simp only [Program.flat, Template.program, Template.items, List.map_append, L.flat cx]
  have hsound : ∀ r, Sound cx.team (tp.items cx r) := fun r =>
    sound_append sound_seq (sound_append (L.sound cx r) sound_seq)
  refine Program.finishes_of_flat ⟨cx.team.pos, fun r _ it hit => ((hsound r).1 it hit).1,
    fun r _ => (hsound r).2 []⟩ (hflat ▸ hb.1) (hflat ▸ hb.2)

section
variable {tp : Template} {region : Ctx → List (Item Stmt)} {mark : List Stmt}
  (hs : ∀ cx, Sound cx.team (region cx))
  (hf : ∀ cx, (region cx).map flatten = (region anyCtx).map flatten)
include hs hf

theorem lexical_local (hmain : ∀ cx, tp.main cx = localFrame (region cx)) : tp.Lexical where
  sound cx r := hmain cx ▸ sound_localFrame (hs cx) r
  flat cx r := by
    rw [hmain, hmain, localFrame, localFrame]
    unfold ifRank
    split <;> split <;> simp only [List.map_append, hf cx]

theorem lexical_remote (hmain : ∀ cx, tp.main cx = remoteFrame mark (region cx)) : tp.Lexical where
  sound cx r := hmain cx ▸ sound_remoteFrame (hs cx) r
  flat cx r := by
    rw [hmain, hmain, remoteFrame, remoteFrame]
    unfold ifRank
    split <;> split <;> simp only [List.map_append, hf cx]

end

theorem lexical_master : hybridMasterLocalNo.Lexical ∧ hybridMasterLocalYes.Lexical ∧
    hybridMasterRemoteNo.Lexical ∧ hybridMasterRemoteYes.Lexical := by
  refine ⟨lexical_local (fun cx => ?_) (fun _ => rfl) fun _ => rfl,
    lexical_local (fun cx => ?_) (fun _ => rfl) fun _ => rfl,
    lexical_remote (fun cx => ?_) (fun _ => rfl) fun _ => rfl,
    lexical_remote (fun cx => ?_) (fun _ => rfl) fun _ => rfl⟩
  · exact sound_parallel (sound_append (sound_append (sound_thread ⟨0, cx.team.pos⟩) sound_barrier)
      (sound_each rfl))
  · exact sound_parallel (sound_append (sound_thread ⟨0, cx.team.pos⟩) (sound_each rfl))
  · exact sound_parallel (sound_append (sound_append (sound_thread ⟨0, cx.team.pos⟩) sound_barrier)
      (sound_each rfl))
  · exact sound_parallel (sound_append (sound_thread ⟨0, cx.team.pos⟩) (sound_each rfl))

theorem lexical_single : hybridSingleLocalNo.Lexical ∧ hybridSingleLocalYes.Lexical ∧
    hybridSingleRemoteNo.Lexical ∧ hybridSingleRemoteYes.Lexical := by
  refine ⟨lexical_local (fun cx => ?_) (fun _ => rfl) fun _ => rfl,
    lexical_local (fun cx => ?_) (fun _ => rfl) fun _ => rfl,
    lexical_remote (fun cx => ?_) (fun _ => rfl) fun _ => rfl,
    lexical_remote (fun cx => ?_) (fun _ => rfl) fun _ => rfl⟩
  · exact sound_parallel (sound_append (sound_append (sound_thread _) sound_barrier) (sound_each rfl))
  · exact sound_parallel (sound_append (sound_thread _) (sound_each rfl))
  · exact sound_parallel (sound_append (sound_append (sound_thread _) sound_barrier) (sound_each rfl))
  · exact sound_parallel (sound_append (sound_thread _) (sound_each rfl))

theorem lexical_section : hybridSectionLocalNo.Lexical ∧ hybridSectionLocalYes.Lexical ∧
    hybridSectionRemoteNo.Lexical ∧ hybridSectionRemoteYes.Lexical := by
  refine ⟨lexical_local (fun cx => ?_) (fun _ => rfl) fun _ => rfl,
    lexical_local (fun cx => ?_) (fun _ => rfl) fun _ => rfl,
    lexical_remote (fun cx => ?_) (fun _ => rfl) fun _ => rfl,
    lexical_remote (fun cx => ?_) (fun _ => rfl) fun _ => rfl⟩
  · exact sound_parallel (sound_append sound_sections sound_sections)
  · exact sound_parallel sound_sections₂
  · exact sound_parallel (sound_append sound_sections sound_sections)
  · exact sound_parallel sound_sections₂

theorem lexical_loop : hybridOrderedLocalNo.Lexical ∧ hybridForLocalYes.Lexical ∧
    hybridOrderedRemoteNo.Lexical ∧ hybridForRemoteYes.Lexical := by
  refine ⟨lexical_local (fun cx => ?_) (fun _ => rfl) fun _ => rfl,
    lexical_local (fun cx => ?_) (fun _ => rfl) fun _ => rfl,
    lexical_remote (fun cx => ?_) (fun _ => rfl) fun _ => rfl,
    lexical_remote (fun cx => ?_) (fun _ => rfl) fun _ => rfl⟩
  · exact sound_parallel sound_forOrdered₂
  · exact sound_parallel sound_forLoop₂
  · exact sound_parallel sound_forOrdered₂
  · exact sound_parallel sound_forLoop₂

/-- Rank 0 meets rank 1 from a section of its own. -/
theorem lexical_origin : hybridSectionBarrierOriginRemoteYes.Lexical ∧
    hybridSectionSendrecvOriginRemoteYes.Lexical := by
  refine ⟨⟨fun cx r => ?_, fun cx r => ?_⟩, ⟨fun cx r => ?_, fun cx r => ?_⟩⟩
  · exact sound_append (sound_append sound_seq (sound_ifRank (sound_parallel sound_sections₂)))
      (sound_ifRank sound_seq)
  · match r with
    | 0 => rfl
    | 1 => rfl
    | _ + 2 => rfl
  · exact sound_append (sound_append sound_seq (sound_ifRank (sound_parallel sound_sections₂)))
      (sound_ifRank sound_seq)
  · match r with
    | 0 => rfl
    | 1 => rfl
    | _ + 2 => rfl

/-- The hybrid templates that do not poll. -/
def hybridFlat : List Template :=
  [hybridMasterLocalNo, hybridMasterLocalYes, hybridMasterRemoteNo, hybridMasterRemoteYes,
    hybridSingleLocalNo, hybridSingleLocalYes, hybridSingleRemoteNo, hybridSingleRemoteYes,
    hybridSectionLocalNo, hybridSectionLocalYes, hybridSectionRemoteNo, hybridSectionRemoteYes,
    hybridOrderedLocalNo, hybridForLocalYes, hybridOrderedRemoteNo, hybridForRemoteYes,
    hybridSectionBarrierOriginRemoteYes, hybridSectionSendrecvOriginRemoteYes]

theorem lexical_of_mem : ∀ tp ∈ hybridFlat, tp.Lexical := by
  simp only [hybridFlat, List.forall_mem_cons]
  exact ⟨lexical_master.1, lexical_master.2.1, lexical_master.2.2.1, lexical_master.2.2.2,
    lexical_single.1, lexical_single.2.1, lexical_single.2.2.1, lexical_single.2.2.2,
    lexical_section.1, lexical_section.2.1, lexical_section.2.2.1, lexical_section.2.2.2,
    lexical_loop.1, lexical_loop.2.1, lexical_loop.2.2.1, lexical_loop.2.2.2, lexical_origin.1,
    lexical_origin.2, by simp⟩

/-- The hybrid templates that poll a flag. -/
def hybridTask : List Template :=
  [hybridTaskLocalYes, hybridTaskLocalNo, hybridTaskRemoteYes, hybridTaskRemoteNo]

theorem flat_or_task : ∀ st ∈ srcHybridTemplates, st.nprocs = 2 ∧
    (st.template ∈ hybridFlat ∨ st.template ∈ hybridTask) := by
  simp only [srcHybridTemplates, List.forall_mem_cons]
  and_intros
  all_goals simp [hybridFlat, hybridTask]

theorem polling_of_task : ∀ tp ∈ hybridTask, tp.file ∈ polling := by
  simp only [hybridTask, List.forall_mem_cons]
  exact ⟨by decide, by decide, by decide, by decide, List.forall_mem_nil _⟩

theorem finish_hybridFlat : hybridFlat.all (fun tp => (tp.program anyCtx 2).flat.finishB &&
    (tp.program anyCtx 2).flat.calmB) = true := by
  refine all_of_chunks 3 6 (by decide) fun i hi => ?_
  interval_cases i <;> decide +kernel

/-- **No case has a deadlock**, except possibly those that poll. -/
theorem finishes_of_not_polling : ∀ c ∈ mpiCases, c.template.file ∉ polling →
    ∀ T rounds, (c.program T rounds c.nprocs).Finishes := by
  intro c hc hpoll T rounds
  rcases plain_or_hybrid hc with ⟨hplain, -⟩ | ⟨hhybrid, -⟩
  · exact finishes_of_plain hplain hpoll T rounds
  · obtain ⟨st, hst, ht, -, hn⟩ := mem_genDiscipline hhybrid
    obtain ⟨h2, hflat | htask⟩ := flat_or_task st hst
    · have hb := List.all_eq_true.1 finish_hybridFlat _ hflat
      rw [hn, h2, Case.program, ht]
      rw [Bool.and_eq_true] at hb
      exact (lexical_of_mem _ hflat).finishes hb _
    · exact absurd (ht ▸ polling_of_task _ htask) hpoll

theorem conflictPutStore_finishes :
    (conflictPutStore.program .alone (fun _ => 0) conflictPutStore.nprocs).Finishes :=
  finishes_of_not_polling conflictPutStore conflictPutStore_mem (by decide) .alone _

/-! ## Barriers of finished runs -/

theorem textOf_flatten {q : Stmt → Bool} (hq : q (.conflict 0) = false) (its : List (Item Stmt)) :
    textOf q (its.map flatten) = textOf q its := by
  induction its with
  | nil => rfl
  | cons it its ih =>
    rw [List.map_cons, textOf_cons, textOf_cons, ih, List.append_left_inj]
    change ((some (it.stmt?.getD (.conflict 0))).toList.filter q) = it.stmt?.toList.filter q
    cases it.stmt? <;> simp [hq]

/-! ### Cases without threads -/

/-- The ranks of a case call `MPI_Barrier` equally often. -/
def Case.meetsB (c : Case) : Bool :=
  (List.range c.nprocs).all fun r =>
    (c.template.barrierCalls ⟨c.race, c.op1, c.op2, Team.alone, fun _ => 0⟩ r).length ==
      (c.template.barrierCalls ⟨c.race, c.op1, c.op2, Team.alone, fun _ => 0⟩ 0).length

theorem meets_plainCases : plainCases.all Case.meetsB = true := by decide +kernel

/-- The rounds of the polling loop call no barrier. -/
theorem barrierCalls_polling (cx : Ctx) (r : Nat) :
    (syncPollingRemoteYes.barrierCalls cx r).length = 2 := by
  rw [barrierCalls, syncPollingRemoteYes, textOf_seq]
  split
  · rfl
  · simp [winLock, winUnlock, printf, mpiBarrier, List.filter_flatten]

theorem meets_of_plain {c : Case} (hc : c ∈ plainCases) (T : Team) (rounds : Nat → Nat) :
    (c.program T rounds c.nprocs).Meets := by
  rcases sequential_of_plain hc with hp | hs
  · rw [Case.program, hp]
    refine meets_of_calls (fun r _ => fits_seq) fun r _ => ?_
    rw [barrierCalls_polling, barrierCalls_polling]
  · refine meets_of_calls (fun r _ => ?_) fun r hlt => ?_
    · obtain ⟨ss, hss⟩ := hs.text ⟨c.race, c.op1, c.op2, T, rounds⟩ r
      exact hss ▸ fits_seq
    · have hb := List.all_eq_true.1 (List.all_eq_true.1 meets_plainCases c hc) r (List.mem_range.2 hlt)
      rw [barrierCalls, barrierCalls, hs.same c.race c.op1 c.op2 T Team.alone rounds fun _ => 0]
      exact beq_iff_eq.1 hb

/-! ### Hybrid cases -/

theorem barrierCalls_flat : hybridFlat.all (fun tp =>
    decide (tp.barrierCalls anyCtx 1 = tp.barrierCalls anyCtx 0)) = true := by decide +kernel

theorem meets_flat {tp : Template} (htp : tp ∈ hybridFlat) (cx : Ctx) : (tp.program cx 2).Meets := by
  have L := lexical_of_mem tp htp
  have hcalls : ∀ r, tp.barrierCalls cx r = tp.barrierCalls anyCtx r := fun r => by
    rw [barrierCalls, barrierCalls, ← textOf_flatten rfl, L.flat cx, textOf_flatten rfl]
  refine meets_two (L.sound cx 0).1 (L.sound cx 1).1 ?_
  rw [hcalls, hcalls]
  exact of_decide_eq_true (List.all_eq_true.1 barrierCalls_flat tp htp)

/-- The task templates meet like the others, whatever the number of polling rounds. -/
theorem meets_task (cx : Ctx) : (hybridTaskLocalYes.program cx 2).Meets ∧
    (hybridTaskRemoteYes.program cx 2).Meets := by
  constructor
  · refine meets_local rfl rfl (fits_task (fits_thread (cx.team.single 0).isLt)) ?_
    rw [textOf_taskRegion fun _ => rfl]
    rfl
  · refine meets_remote rfl rfl (fits_task (fits_thread (cx.team.single 0).isLt)) ?_ (.inr rfl)
    rw [textOf_taskRegion fun _ => rfl]
    rfl

theorem meets_hybrid : ∀ st ∈ srcHybridTemplates, ∀ cx, (st.template.program cx 2).Meets := by
  intro st hst cx
  obtain ⟨-, hflat | htask⟩ := flat_or_task st hst
  · exact meets_flat hflat cx
  · simp only [hybridTask, List.mem_cons, List.not_mem_nil, or_false] at htask
    rcases htask with h | h | h | h
    all_goals rw [h]
    · exact (meets_task cx).1
    · exact (synchronizes_task cx).1.2
    · exact (meets_task cx).2
    · exact (synchronizes_task cx).2.2

/-- **The ranks meet equally often** in every finished run of a case, and of a hybrid template in any
context. -/
theorem barriers_finished :
    (∀ c ∈ mpiCases, ∀ T rounds, (c.program T rounds c.nprocs).Meets) ∧
      ∀ st ∈ srcHybridTemplates, ∀ cx, (st.template.program cx 2).Meets := by
  refine ⟨fun c hc T rounds => ?_, meets_hybrid⟩
  rcases plain_or_hybrid hc with ⟨hplain, -⟩ | ⟨hhybrid, -⟩
  · exact meets_of_plain hplain T rounds
  · obtain ⟨st, hst, ht, -, hn⟩ := mem_genDiscipline hhybrid
    rw [hn, (flat_or_task st hst).1, Case.program, ht]
    exact meets_hybrid st hst _

/-- Two threads on each rank: there is a finished run, and its ranks have met equally often. -/
theorem hybridMasterLocalNo_barriers :
    ∃ h, (hybridMasterLocalNo.program { anyCtx with team := .two } 2).Finished h ∧
      (hybridMasterLocalNo.program { anyCtx with team := .two } 2).barriers 0 h =
        (hybridMasterLocalNo.program { anyCtx with team := .two } 2).barriers 1 h := by
  have hb := List.all_eq_true.1 finish_hybridFlat hybridMasterLocalNo (by simp [hybridFlat])
  rw [Bool.and_eq_true] at hb
  obtain ⟨h, hr, hf⟩ := lexical_master.1.finishes hb { anyCtx with team := .two } [] .nil
  exact ⟨_, hf, barriers_finished.2 ⟨hybridMasterLocalNo, 2, [false], mpiAccAcc, true⟩
    (by simp [srcHybridTemplates]) _ _ hr hf 0 Nat.two_pos 1 Nat.one_lt_two⟩

end Mpi
