import RMARaceBench.Mpi.BufferScope
import RMARaceBench.Mpi.EpochCases
import RMARaceBench.Mpi.FenceFront
import RMARaceBench.Mpi.Verdicts

/-!
# Which cases keep their origin buffers

Of the cases without a race, four atomic templates leave the block that declares the origin buffer of
`MPI_Accumulate` in front of the fence that completes it. All others complete every call before they
leave the block of its buffer, be it an inner block or that of `main` (`keepsBuffers_iff`): the walk of
`BufferScope.lean` goes through the texts of the sequential cases and of the origins of the hybrid ones.
-/

set_option autoImplicit false

namespace Mpi

open Causal Causal.System Omp Template Program

/-! ## Leaving the block too early -/

theorem completes_of_free {c : Rma} {s : Stmt} (hs : s.free = true) : s.completes c = false := by
  cases s <;> first | rfl | cases hs

/-- Behind the first fence, rank 0 calls `c` and leaves the block of its buffer with nothing but free
statements in between. -/
theorem Fenced.not_keepsBuffers {P : Program} {rest : Nat → List Stmt} (hP : Fenced P rest)
    (before between : List Stmt) (call : Stmt) {c : Rma} (xs : List Var) (hcall : call = .rma c)
    (hrest : ∃ post, rest 0 = (before ++ (call :: (between ++ [.leaveBlock xs]))) ++ post)
    (hfree : (before ++ (call :: (between ++ [.leaveBlock xs]))).all Stmt.free = true)
    (hbuf : ∃ v ∈ c.bufferVars, v ∈ xs) (hn : 0 < P.procs) : ¬ P.KeepsBuffers := by
  intro hK
  subst hcall
  obtain ⟨post, hrest⟩ := hrest
  obtain ⟨h, hr, hmem⟩ := hP.run hrest hfree hn
  have hitems := hP.items 0
  have hget : ∀ j, (fenceFront ++ rest 0)[fenceFront.length + before.length + j]? =
      ((.rma c :: (between ++ [.leaveBlock xs])) ++ post)[j]? := by
    intro j
    rw [hrest, List.append_assoc, Nat.add_assoc, List.getElem?_append_right (Nat.le_add_right _ _),
      Nat.add_sub_cancel_left, List.getElem?_append_right (Nat.le_add_right _ _),
      Nat.add_sub_cancel_left]
  have hcall : P.performed 0 (.thread 0 0, fenceFront.length + before.length) = some (.rma c) :=
    performed_of_seq hitems (hget 0)
  have hleave : P.performed 0
      (.thread 0 0, fenceFront.length + before.length + (between.length + 1)) =
      some (.leaveBlock xs) := by
    refine performed_of_seq hitems ((hget _).trans ?_)
    simp
  have hy := hmem (fenceFront.length + before.length + (between.length + 1)) (by simp; omega)
  obtain ⟨h₂, h₁, -, rfl, hr₁, -, -⟩ := hr.split hy
  have hx : (.thread 0 0, fenceFront.length + before.length) ∈ h₁ := (mem_below_iff hr₁).2 (by omega)
  obtain ⟨g₂, g₁, z, s, rfl, hxz, hz, hs⟩ := hK 0 _ _ hr₁ _ hleave _ hx c hcall hbuf
  -- `z` stands between the call and the end of the block
  obtain ⟨z, m⟩ := z
  obtain ⟨hza, hzs⟩ := performed_seq hitems hz
  obtain rfl : z = .thread 0 0 := hza
  have hlo : fenceFront.length + before.length < m := (mem_below_iff (Run.suffix hr₁.tail)).1 hxz
  have hhi := (mem_below_iff hr₁).1 (List.mem_append_right g₂ List.mem_cons_self)
  obtain ⟨j, rfl⟩ : ∃ j, m = fenceFront.length + before.length + (j + 1) :=
    ⟨m - (fenceFront.length + before.length) - 1, by omega⟩
  have hj : j < between.length := by omega
  change (fenceFront ++ rest 0)[_]? = some s at hzs
  rw [hget, List.cons_append, List.getElem?_cons_succ, List.append_assoc,
    List.getElem?_append_left hj] at hzs
  have hsfree : s.free = true := by
    refine List.all_eq_true.1 hfree s ?_
    have := List.mem_of_getElem? hzs
    simp [this]
  rw [completes_of_free hsfree] at hs
  cases hs

/-- A template that meets at a barrier and a fence before it goes on. -/
theorem fenced_of_main {tp : Template} {cx : Ctx} {n : Nat} {body : Nat → List Stmt}
    (hwin : tp.winAllocate = winAllocate)
    (hmain : tp.main cx = fun rank => seq (mpiBarrier ++ (winFence .win ++ body rank))) :
    Fenced (tp.program cx n) fun rank => body rank ++ epilogue := by
  refine ⟨cx.team.pos, fun r => ?_⟩
  have hp : tp.Plain cx _ := hmain
  have hits : (tp.program cx n).items r = _ := hp.items r
  rw [hits, hwin]
  simp only [fenceFront, List.append_assoc]

/-- The templates that leave the block of the buffer before the fence. -/
def leavingFiles : List String :=
  ["MPI-atomic-customdatatype-remote-no", "MPI-atomic-disp-remote-no", "MPI-atomic-int-int-remote-no",
    "MPI-atomic-int-int-sameorigin-remote-no"]

/-- Rank 0 declares the array, accumulates and leaves the block. -/
theorem not_keepsBuffers_accumulates {tp : Template} {cx : Ctx} {n : Nat} (race : Bool)
    (count1 count2 lo2 : Nat) (d1 d2 : Datatype) (between : List Stmt)
    (hwin : tp.winAllocate = winAllocate) (hmain : tp.main cx = fun rank =>
      seq (mpiBarrier ++ accumulates race count1 d1 count2 d2 lo2 between rank)) (hn : 0 < n) :
    ¬ (tp.program cx n).KeepsBuffers := by
  have hP : Fenced (tp.program cx n) _ := fenced_of_main (n := n) hwin (hmain.trans (by
    funext rank
    simp only [accumulates, List.append_assoc]
    rfl))
  refine hP.not_keepsBuffers
    (declInit (valueArray1 d1.elem) ++ if race then [.conflict 1] else []) []
    (mpiAccumulate (.var (valueArray1 d1.elem)) count1 d1 1 0) [valueArray1 d1.elem] rfl ?_ ?_
    ⟨valueArray1 d1.elem, ?_, List.mem_singleton.2 rfl⟩ hn
  · simp only [ifRank, ↓reduceIte, List.append_assoc]
    exact ⟨_, rfl⟩
  · cases race <;> rfl
  · exact List.mem_singleton.2 rfl

theorem not_keepsBuffers_accumulatesSameorigin {tp : Template} {cx : Ctx} {n : Nat}
    (race : Bool) (d1 d2 : Datatype) (hwin : tp.winAllocate = winAllocate)
    (hmain : tp.main cx = fun rank =>
      seq (mpiBarrier ++ accumulatesSameorigin race d1 d2 rank)) (hn : 0 < n) :
    ¬ (tp.program cx n).KeepsBuffers := by
  have hP : Fenced (tp.program cx n) _ := fenced_of_main (n := n) hwin (hmain.trans (by
    funext rank
    simp only [accumulatesSameorigin, List.append_assoc]
    rfl))
  refine hP.not_keepsBuffers
    (declInit (valueArray1 d1.elem) ++ (declInit (valueArray2 d2.elem) ++
      if race then [.conflict 1] else []))
    ((if race then [.conflict 2] else []) ++ [mpiAccumulate (.var (valueArray2 d2.elem)) 4 d2 1 0])
    (mpiAccumulate (.var (valueArray1 d1.elem)) 4 d1 1 0)
    [valueArray1 d1.elem, valueArray2 d2.elem] rfl ?_ ?_
    ⟨valueArray1 d1.elem, ?_, List.mem_cons_self⟩ hn
  · simp only [ifRank, ↓reduceIte, List.append_assoc, List.cons_append]
    exact ⟨_, rfl⟩
  · cases race <;> rfl
  · exact List.mem_singleton.2 rfl

/-- These files hold these templates. -/
theorem template_of_leaving : ∀ tp ∈ mpiTemplates,
    (tp.file = "MPI-atomic-customdatatype-remote-no" → tp = atomicCustomdatatypeRemoteNo) ∧
    (tp.file = "MPI-atomic-disp-remote-no" → tp = atomicDispRemoteNo) ∧
    (tp.file = "MPI-atomic-int-int-remote-no" → tp = atomicIntIntRemoteNo) ∧
    (tp.file = "MPI-atomic-int-int-sameorigin-remote-no" → tp = atomicIntIntSameoriginRemoteNo) := by
  simp only [mpiTemplates, miscLocalTemplates, miscRemoteTemplates, srcSyncTemplates,
    srcAtomicTemplates, srcHybridTemplates, List.cons_append, List.nil_append, List.map_cons,
    List.map_nil, List.forall_mem_cons]
  and_intros
  all_goals first
    | exact fun _ h => absurd h List.not_mem_nil
    | exact fun _ => trivial
    | exact fun h => absurd h (by decide)

theorem not_keepsBuffers_of_mem {tp : Template} (htp : tp ∈ mpiTemplates) (hf : tp.file ∈ leavingFiles)
    (cx : Ctx) {n : Nat} (hn : 0 < n) : ¬ (tp.program cx n).KeepsBuffers := by
  obtain ⟨hcustom, hdisp, hint, hsame⟩ := template_of_leaving tp htp
  simp only [leavingFiles, List.mem_cons, List.not_mem_nil, or_false] at hf
  rcases hf with hf | hf | hf | hf
  · rw [hcustom hf]
    exact not_keepsBuffers_accumulates false 4 1 0 mpiInt (typeContiguous 4 mpiInt) [] rfl rfl hn
  · rw [hdisp hf]
    exact not_keepsBuffers_accumulates false 4 4 4 mpiInt mpiInt _ rfl rfl hn
  · rw [hint hf]
    exact not_keepsBuffers_accumulates true 4 4 0 mpiInt mpiInt [] rfl rfl hn
  · rw [hsame hf]
    exact not_keepsBuffers_accumulatesSameorigin false mpiInt mpiInt rfl rfl hn

/-! ## Sequential cases -/

/-- The walks through the texts of all ranks. -/
def Case.coveredB (c : Case) : Bool :=
  (List.range 4).all fun r => covered [] (textOf (fun _ => true) (c.solo.items r))

theorem Case.keepsBuffers_of_covered {c : Case} (hs : c.template.Sequential) (hb : c.coveredB = true)
    (T : Team) (rounds : Nat → Nat) (n : Nat) : (c.program T rounds n).KeepsBuffers := by
  intro r
  obtain ⟨ss, hss⟩ := hs.items ⟨c.race, c.op1, c.op2, Team.alone, fun _ => 0⟩ (min r 3)
  have hits : (c.program T rounds n).items r = seq ss := by
    rw [hs.program]
    exact (hs.items_min r).trans hss
  have hcov := List.all_eq_true.1 hb (min r 3) (List.mem_range.2 (by omega))
  have htext : textOf (fun _ => true) (c.solo.items (min r 3)) = ss := by
    rw [show c.solo.items (min r 3) = seq ss from hss, textOf_seq]
    exact List.filter_eq_self.2 fun _ _ => rfl
  rw [htext] at hcov
  exact keepsBuffersAt_of_covered hits hcov

/-- What the walks are to show of a case. -/
def Case.keepsB (c : Case) : Bool :=
  c.race || leavingFiles.contains c.template.file ||
    (c.template.file != syncPollingRemoteYes.file && c.coveredB)

theorem keepsB_plainCases : plainCases.all Case.keepsB = true := by
  refine all_of_chunks 12 9 (by decide +kernel) fun i hi => ?_
  interval_cases i <;> decide +kernel

theorem keepsBuffers_of_plain {c : Case} (hc : c ∈ plainCases) (hrace : c.race = false)
    (hf : c.template.file ∉ leavingFiles) (T : Team) (rounds : Nat → Nat) (n : Nat) :
    (c.program T rounds n).KeepsBuffers := by
  have hb := List.all_eq_true.1 keepsB_plainCases c hc
  rw [Case.keepsB, hrace, Bool.false_or, Bool.or_eq_true, List.contains_iff_mem, or_iff_right hf,
    Bool.and_eq_true, bne_iff_ne] at hb
  rcases sequential_of_plain hc with hp | hs
  · exact absurd (congrArg Template.file hp) hb.1
  · exact Case.keepsBuffers_of_covered hs hb.2 T rounds n

/-! ## Hybrid cases -/

/-- No call has a variable as a buffer. -/
def Unbuffered (its : List (Item Stmt)) : Prop := AllStmts (fun _ s => s.unbuffered = true) its

section
variable {as bs : List (Item Stmt)} {ss : List Stmt}

theorem unbuffered_append (ha : Unbuffered as) (hb : Unbuffered bs) : Unbuffered (as ++ bs) :=
  allStmts_append.2 ⟨ha, hb⟩

theorem unbuffered_on {w : Who} (h : ss.all Stmt.unbuffered = true) : Unbuffered (on w ss) :=
  allStmts_on.2 (List.all_eq_true.1 h)

theorem unbuffered_seq (h : ss.all Stmt.unbuffered = true) : Unbuffered (seq ss) := unbuffered_on h

theorem unbuffered_ifRank {r q : Nat} (h : Unbuffered as) : Unbuffered (ifRank r q as) := by
  unfold ifRank
  split
  · exact h
  · exact allStmts_nil

end

section
variable {inner reads : List Stmt} (hi : inner.all Stmt.unbuffered = true)
  (hr : reads.all Stmt.unbuffered = true) (T : Team)
include hi hr

theorem unbuffered_master :
    Unbuffered (parallel (master inner ++ barrier ++ each reads)) := by
  refine allStmts_parallel.2 (unbuffered_append (unbuffered_append ?_ allStmts_barrier) ?_)
  · exact unbuffered_on hi
  · exact unbuffered_on hr

theorem unbuffered_single :
    Unbuffered (parallel (single T 0 (fun w => on w inner) ++ each reads)) := by
  refine allStmts_parallel.2 (unbuffered_append (allStmts_single.2 ?_) ?_)
  · exact unbuffered_on hi
  · exact unbuffered_on hr

theorem unbuffered_sections :
    Unbuffered (parallel (sections T 0 [inner] ++ sections T 1 [reads])) := by
  refine allStmts_parallel.2 (unbuffered_append (allStmts_sections.2 ?_) (allStmts_sections.2 ?_))
  · simpa using hi
  · simpa using hr

theorem unbuffered_ordered :
    Unbuffered (parallel (forOrdered T 0 2 fun i => if i = 0 then inner else reads)) := by
  refine allStmts_parallel.2 (allStmts_forOrdered.2 fun i _ => ?_)
  split
  · exact List.all_eq_true.1 hi
  · exact List.all_eq_true.1 hr

theorem unbuffered_task (cx : Ctx) (rank : Nat) :
    Unbuffered (taskRegion cx rank inner fun w => taskwait w ++ on w reads) := by
  refine unbuffered_append (unbuffered_seq rfl) (allStmts_parallel.2 (allStmts_single.2 ?_))
  refine unbuffered_append (unbuffered_append (allStmts_task.2 ?_) (unbuffered_on ?_))
    (unbuffered_append allStmts_taskwait (unbuffered_on hr))
  · exact List.forall_mem_cons.2 ⟨rfl, List.all_eq_true.1 hi⟩
  · rw [myWait, List.all_append, List.all_replicate]
    simp [Stmt.unbuffered]

end

section
variable {tp : Template} {cx : Ctx} {region : Nat → List (Item Stmt)} {mark : List Stmt}
  (halloc : tp.winAllocate = winAllocate) (hreg : ∀ r, Unbuffered (region r))
include halloc hreg

/-- Rank 0 gets into its window. -/
theorem keepsBuffers_local (hmain : ∀ r, tp.main cx r = localFrame (region r) r) (n : Nat) :
    (tp.program cx n).KeepsBuffers := by
  intro r
  refine keepsBuffersAt_of_unbuffered ?_
  change Unbuffered (tp.items cx r)
  rw [Template.items, halloc, hmain, localFrame]
  refine unbuffered_append (unbuffered_seq rfl) (unbuffered_append (unbuffered_append
    (unbuffered_append (unbuffered_seq rfl) (unbuffered_ifRank ?_)) (unbuffered_ifRank ?_))
    (unbuffered_seq rfl))
  · exact unbuffered_append (hreg r) (unbuffered_seq rfl)
  · exact unbuffered_seq rfl

/-- Rank 0 puts `value` and unlocks before it leaves `main`; the other ranks make no calls. -/
theorem keepsBuffers_remote (hmain : ∀ r, tp.main cx r = remoteFrame mark (region r) r)
    (hmark : mark = [] ∨ mark = [.conflict 1]) (n : Nat) : (tp.program cx n).KeepsBuffers := by
  intro r
  cases r with
  | zero =>
    refine keepsBuffersAt_of_covered (items_remote₀ halloc (hmain 0)) ?_
    rcases hmark with rfl | rfl <;> rfl
  | succ r =>
    refine keepsBuffersAt_of_unbuffered ?_
    change Unbuffered (tp.items cx (r + 1))
    rw [Template.items, halloc, hmain, remoteFrame, ifRank, if_neg (Nat.succ_ne_zero r),
      List.append_nil]
    exact unbuffered_append (unbuffered_seq rfl) (unbuffered_append
      (unbuffered_append (unbuffered_seq rfl) (unbuffered_ifRank (hreg _))) (unbuffered_seq rfl))

end

theorem keepsBuffers_of_hybridNo : ∀ tp ∈ hybridNo, ∀ cx n, (tp.program cx n).KeepsBuffers := by
  intro tp htp cx n
  have hget : (getEpoch []).all Stmt.unbuffered = true := rfl
  have hbar : mpiBarrier.all Stmt.unbuffered = true := rfl
  have hread : printWin.all Stmt.unbuffered = true := rfl
  have hmarked : ([Stmt.conflict 2] ++ printWin).all Stmt.unbuffered = true := rfl
  simp only [hybridNo, List.mem_cons, List.not_mem_nil, or_false] at htp
  rcases htp with rfl | rfl | rfl | rfl | rfl | rfl | rfl | rfl | rfl | rfl
  · exact keepsBuffers_local rfl (fun _ => unbuffered_master hget hread) (fun _ => rfl) n
  · exact keepsBuffers_remote rfl (fun _ => unbuffered_master hbar hread) (fun _ => rfl) (.inl rfl) n
  · exact keepsBuffers_local rfl (fun _ => unbuffered_single hget hread cx.team) (fun _ => rfl) n
  · exact keepsBuffers_remote rfl (fun _ => unbuffered_single hbar hread cx.team) (fun _ => rfl)
      (.inl rfl) n
  · exact keepsBuffers_local rfl (fun _ => unbuffered_sections hget hread cx.team) (fun _ => rfl) n
  · exact keepsBuffers_remote rfl (fun _ => unbuffered_sections hbar hread cx.team) (fun _ => rfl)
      (.inl rfl) n
  · exact keepsBuffers_local rfl (fun _ => unbuffered_ordered hget hread cx.team) (fun _ => rfl) n
  · exact keepsBuffers_remote rfl (fun _ => unbuffered_ordered hbar hmarked cx.team) (fun _ => rfl)
      (.inr rfl) n
  · exact keepsBuffers_local rfl (fun r => unbuffered_task hget hread cx r) (fun _ => rfl) n
  · exact keepsBuffers_remote rfl (fun r => unbuffered_task hbar hread cx r) (fun _ => rfl) (.inl rfl) n

/-- The hybrid templates that are rendered without a race. -/
theorem hybridNo_of_hasRace : ∀ st ∈ srcHybridTemplates, false ∈ st.hasRace →
    st.template ∈ hybridNo := by
  simp only [srcHybridTemplates, List.forall_mem_cons]
  and_intros
  all_goals simp [hybridNo]

/-! ## All cases -/

/-- Nothing happens without processes. -/
theorem keepsBuffers_zero (tp : Template) (cx : Ctx) : (tp.program cx 0).KeepsBuffers := by
  intro r h y hr s hs x hx c hcall hbuf
  obtain ⟨-, st, hst, -⟩ := Run.head hr
  obtain ⟨it, hp, -⟩ := performs_of_performed hst hs
  cases hp with
  | thread hlt _ _ _ => exact absurd hlt (Nat.not_lt_zero _)
  | task hlt _ _ => exact absurd hlt (Nat.not_lt_zero _)

/-- **The origin buffers stay alive** in all cases without a race, for every number of processes, every
team and every number of polling rounds, but in those of four atomic templates. -/
theorem keepsBuffers_iff : ∀ c ∈ mpiCases, c.race = false →
    ∀ (T : Team) (rounds : Nat → Nat) (n : Nat),
      ((c.program T rounds n).KeepsBuffers ↔ n = 0 ∨ c.template.file ∉ leavingFiles) := by
  intro c hc hrace T rounds n
  constructor
  · intro hK
    by_contra hno
    obtain ⟨hn, hf⟩ := not_or.1 hno
    exact not_keepsBuffers_of_mem (template_mem hc) (not_not.1 hf) _ (Nat.pos_of_ne_zero hn) hK
  · intro hcond
    rcases hcond with rfl | hf
    · exact keepsBuffers_zero _ _
    · rcases plain_or_hybrid hc with ⟨hplain, -⟩ | ⟨hhybrid, -⟩
      · exact keepsBuffers_of_plain hplain hrace hf T rounds n
      · obtain ⟨st, hst, ht, hr, -⟩ := mem_genDiscipline hhybrid
        have hno : c.template ∈ hybridNo := ht ▸ hybridNo_of_hasRace st hst (hrace ▸ hr)
        exact keepsBuffers_of_hybridNo _ hno _ n

/-- `013-MPI-sync-lockall-flushall-remote-no.c` -/
def syncLockallFlushallNo : Case :=
  ⟨syncLockallFlushallRemoteNo, 13, Op.get, Op.localLoad, false, 2, false⟩

theorem syncLockallFlushallNo_mem : syncLockallFlushallNo ∈ mpiCases :=
  List.mem_append_left _ (List.mem_append_right _ (List.mem_append_left _
    (List.mem_append_left _ (List.mem_of_getElem?
      (show (genDiscipline srcSyncTemplates)[12]? = some syncLockallFlushallNo from rfl)))))

theorem syncLockallFlushallNo_keepsBuffers :
    (syncLockallFlushallNo.program .alone (fun _ => 0) 2).KeepsBuffers :=
  (keepsBuffers_iff syncLockallFlushallNo syncLockallFlushallNo_mem rfl .alone (fun _ => 0) 2).2
    (.inr (by decide))

/-- `009-MPI-atomic-int-int-remote-no.c` -/
def atomicIntIntNo : Case := ⟨atomicIntIntRemoteNo, 9, Op.acc, Op.acc, false, 3, false⟩

/-- `MPI_Win_fence` completes the `MPI_Accumulate` behind the end of the block of `value1`. -/
theorem atomicIntIntNo_not_keepsBuffers : ¬ ∀ c ∈ mpiCases, c.race = false →
    ∀ (T : Team) (rounds : Nat → Nat) (n : Nat), (c.program T rounds n).KeepsBuffers := by
  intro h
  have hmem : atomicIntIntNo ∈ mpiCases :=
    List.mem_append_left _ (List.mem_append_right _ (List.mem_append_left _
      (List.mem_append_right _ (List.mem_of_getElem?
        (show (genDiscipline srcAtomicTemplates)[8]? = some atomicIntIntNo from rfl)))))
  exact not_keepsBuffers_accumulates true 4 4 0 mpiInt mpiInt [] rfl rfl (by decide)
    (h atomicIntIntNo hmem rfl .alone (fun _ => 0) 3)

end Mpi
