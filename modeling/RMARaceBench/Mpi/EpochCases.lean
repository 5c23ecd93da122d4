import RMARaceBench.Mpi.Handover
import RMARaceBench.Mpi.RequestCase

/-!
# The epoch discipline of the cases

A case keeps to the epoch discipline (`Program.Disciplined`) for every team, every number of polling
rounds and every number of processes, unless it is one of the two renderings of
`MPI-sync-request-local-race`, which call `MPI_Rget` in a fence epoch (`disciplined_iff`).

The text of a rank that the machine of `Epoch.lean` looks at does not depend on the team, on the rounds
and, from rank 3 on, on the rank (`Template.Uniform`), so that finitely many texts are run through the
machine (`Case.accepts`).
-/

set_option autoImplicit false

namespace Mpi

open Causal Causal.System Omp

/-! ## Epochal statements of a text -/

/-- The rendering with one thread and without polling. -/
def Ctx.plain (cx : Ctx) : Ctx := { cx with team := .alone, rounds := fun _ => 0 }

/-- What the machine sees of a rank depends on nothing but the rendering and the first ranks. -/
def Template.Uniform (tp : Template) : Prop :=
  ∀ cx r, textOf Stmt.epochal (tp.main cx r) = textOf Stmt.epochal (tp.main cx.plain (min r 3))

theorem textOf_items (tp : Template) (cx : Ctx) (r : Nat) : textOf Stmt.epochal (tp.items cx r) =
    textOf Stmt.epochal (seq (prologue ++ tp.winAllocate)) ++
      (textOf Stmt.epochal (tp.main cx r) ++ textOf Stmt.epochal (seq epilogue)) := by
  rw [Template.items, textOf_append, textOf_append]

theorem Template.Uniform.items {tp : Template} (h : tp.Uniform) (cx : Ctx) (r : Nat) :
    textOf Stmt.epochal (tp.items cx r) = textOf Stmt.epochal (tp.items cx.plain (min r 3)) := by
  rw [textOf_items, textOf_items, h]

def pollingFile : String := "MPI-sync-polling-remote-yes"

/-- The templates of all cases. -/
def mpiTemplates : List Template :=
  [Template.conflictLocalRace, Template.conflictRemoteRace] ++ miscLocalTemplates ++
    miscRemoteTemplates ++
    (srcSyncTemplates ++ srcAtomicTemplates ++ srcHybridTemplates).map (·.template)

open Template

/-- The polling of a task is not looked at. -/
theorem uniform_task {tp : Template} {body : List Stmt} {rest : Who → List (Item Stmt)}
    {frame : List (Item Stmt) → Nat → List (Item Stmt)}
    (hmain : tp.main = fun cx rank => frame (taskRegion cx rank body rest) rank)
    (hframe : ∀ region region' rank,
      textOf Stmt.epochal region = textOf Stmt.epochal region' →
      textOf Stmt.epochal (frame region rank) = textOf Stmt.epochal (frame region' (min rank 3)))
    (hrest : ∀ w w', textOf Stmt.epochal (rest w) = textOf Stmt.epochal (rest w')) :
    tp.Uniform := by
  intro cx r
  rw [hmain]
  refine hframe _ _ r ?_
  rw [textOf_taskRegion (fun _ => rfl), textOf_taskRegion (fun _ => rfl)]
  exact congrArg _ (hrest _ _)

theorem textOf_frames (region region' : List (Item Stmt)) (rank : Nat)
    (h : textOf Stmt.epochal region = textOf Stmt.epochal region') :
    textOf Stmt.epochal (localFrame region rank) =
      textOf Stmt.epochal (localFrame region' (min rank 3)) ∧
    ∀ mark, textOf Stmt.epochal (remoteFrame mark region rank) =
      textOf Stmt.epochal (remoteFrame mark region' (min rank 3)) := by
  rcases rank with _ | _ | _ | r
  · simp [localFrame, remoteFrame, ifRank, h]
  · simp [localFrame, remoteFrame, ifRank, h]
  · simp [localFrame, remoteFrame, ifRank]
  · rw [Nat.min_eq_right (by omega)]
    simp [localFrame, remoteFrame, ifRank]

theorem uniform_of_mem : ∀ tp ∈ mpiTemplates, tp.file ≠ pollingFile →
    tp.Uniform := by
  simp only [mpiTemplates, miscLocalTemplates, miscRemoteTemplates, srcSyncTemplates,
    srcAtomicTemplates, srcHybridTemplates, List.cons_append, List.nil_append, List.map_cons,
    List.map_nil, List.forall_mem_cons]
  and_intros
  all_goals first
    | exact fun _ h => absurd h List.not_mem_nil
    | exact fun h => absurd rfl h
    | exact fun _ => uniform_task rfl (fun a b r h => (textOf_frames a b r h).1) fun _ _ => rfl
    | exact fun _ => uniform_task rfl (fun a b r h => (textOf_frames a b r h).2 _) fun _ _ => rfl
    | intro _ cx r
      rcases r with _ | _ | _ | r
      · rfl
      · rfl
      · rfl
      · rw [Nat.min_eq_right (by omega)]; rfl

/-! ## Every case is chained -/

section
variable {tp : Template} {cx : Ctx} {n r : Nat}

theorem chained_plain {text : Nat → List Stmt} (hp : tp.Plain cx text) :
    (tp.program cx n).Chained r := by
  have hits : (tp.program cx n).items r = _ := hp.items r
  apply Program.chained_of_who (w := .initial) nofun
  rw [hits]
  exact Program.epochalBy_on _ _

/-- The main block of a rank has no parallel region with epochal statements. -/
theorem chained_initial (halloc : textOf Stmt.epochal (seq (prologue ++ tp.winAllocate)) = [])
    (h : Program.EpochalBy .initial (tp.main cx r)) : (tp.program cx n).Chained r := by
  apply Program.chained_of_who (w := .initial) nofun
  exact Program.epochalBy_append (Program.epochalBy_of_text halloc _)
    (Program.epochalBy_append h (Program.epochalBy_on _ _))

/-- Only rank 0 executes the region of a local template. -/
theorem epochalBy_localFrame {region : List (Item Stmt)} (h : r ≠ 0) :
    Program.EpochalBy .initial (localFrame region r) := by
  rw [localFrame, ifRank, if_neg h, ifRank]
  apply Program.epochalBy_append
  · exact Program.epochalBy_append (Program.epochalBy_on _ _) (Program.epochalBy_nil _)
  · split
    · exact Program.epochalBy_on _ _
    · exact Program.epochalBy_nil _

/-- The region of a remote template has no epochal statements. -/
theorem epochalBy_remoteFrame {mark : List Stmt} {region : List (Item Stmt)}
    (h : textOf Stmt.epochal region = []) :
    Program.EpochalBy .initial (remoteFrame mark region r) := by
  rw [remoteFrame, ifRank, ifRank]
  apply Program.epochalBy_append
  · apply Program.epochalBy_append (Program.epochalBy_on _ _)
    split
    · exact Program.epochalBy_on _ _
    · exact Program.epochalBy_nil _
  · split
    · exact Program.epochalBy_of_text h _
    · exact Program.epochalBy_nil _

/-- Only rank 0 has a parallel region with epochal statements, all for the thread `τ`. -/
theorem chained_region (halloc : textOf Stmt.epochal (seq (prologue ++ tp.winAllocate)) = [])
    {body : List (Item Stmt)} {after : List Stmt} {τ : Nat}
    (hmain : tp.main cx 0 = seq mpiBarrier ++ (parallel body ++ seq after))
    (hbody : Program.EpochalBy (.thread τ) body) (hτ : τ < cx.team.size)
    (hrest : r ≠ 0 → Program.EpochalBy .initial (tp.main cx r)) (hr : r < n) :
    (tp.program cx n).Chained r := by
  by_cases h0 : r = 0
  · subst h0
    have hits : (tp.program cx n).items 0 = (seq (prologue ++ tp.winAllocate) ++ seq mpiBarrier) ++
        (parallel body ++ seq (after ++ epilogue)) := by
      change tp.items cx 0 = _
      rw [Template.items, hmain, seq_append, seq_append]
      simp only [List.append_assoc]
    refine Program.chained_parallel hr cx.team.pos hτ hits ?_ hbody
    rw [textOf_append, halloc]
    rfl
  · exact chained_initial halloc (hrest h0)

theorem chained_local (halloc : textOf Stmt.epochal (seq (prologue ++ tp.winAllocate)) = [])
    {body : List (Item Stmt)} {τ : Nat} (hmain : tp.main cx = localFrame (parallel body))
    (hτ : τ < cx.team.size) (hbody : Program.EpochalBy (.thread τ) body) (hr : r < n) :
    (tp.program cx n).Chained r := by
  have h0 : tp.main cx 0 = seq mpiBarrier ++ (parallel body ++ seq mpiBarrier) := by
    rw [hmain]
    simp [localFrame, ifRank]
  refine chained_region halloc h0 hbody hτ (fun h0 => ?_) hr
  rw [hmain]
  exact epochalBy_localFrame h0

/-- Only rank 0 communicates, from a task. -/
theorem chained_localTask (halloc : textOf Stmt.epochal (seq (prologue ++ tp.winAllocate)) = [])
    {body : List Stmt} {rest : Who → List (Item Stmt)}
    (hmain : tp.main cx = fun rank => localFrame (taskRegion cx rank body rest) rank)
    (hrest : ∀ w, textOf Stmt.epochal (rest w) = [])
    (hend : ∀ w, ∀ it ∈ rest w, it.act ≠ .taskEnd 0) (hr : r < n) :
    (tp.program cx n).Chained r := by
  by_cases h0 : r = 0
  · subst h0
    obtain ⟨w, hw⟩ : ∃ w : Who, w = .thread (cx.team.single 0) := ⟨_, rfl⟩
    have hits : (tp.program cx n).items 0 =
        seq (prologue ++ tp.winAllocate ++ mpiBarrier ++ declInit .flag) ++
        (parallel (task w 0 (mySignal ++ body) ++
          (on w (myWait (cx.rounds 0)) ++ rest w ++ barrier)) ++ seq (mpiBarrier ++ epilogue)) := by
      change tp.items cx 0 = _
      rw [Template.items, hmain, hw]
      simp only [localFrame, taskRegion, single, singleNowait, ifRank, seq_append, List.append_assoc,
        ↓reduceIte, Nat.zero_ne_one, List.nil_append]
    have hnoEnd : ∀ (w : Who) (ss : List Stmt), ∀ it ∈ on w ss, it.act ≠ .taskEnd 0 := by
      intro w ss it hit
      obtain ⟨s, -, rfl⟩ := List.mem_map.1 hit
      simp
    refine Program.chained_task hr cx.team.pos hits ?_ ?_ fun it hit => ?_
    · rw [seq_append, seq_append, textOf_append, textOf_append, halloc]
      rfl
    · rw [textOf_append, textOf_append, textOf_on, hrest, myWait, List.filter_append,
        List.filter_replicate]
      rfl
    · simp only [List.mem_append] at hit
      rcases hit with hit | (hit | hit) | hit
      · exact hnoEnd _ _ it hit
      · exact hnoEnd _ _ it hit
      · exact hend w it hit
      · simp only [barrier, List.mem_cons, List.not_mem_nil, or_false] at hit
        rcases hit with rfl | rfl <;> simp
  · apply chained_initial halloc
    rw [hmain]
    exact epochalBy_localFrame h0

end

/-- The put stands in a section of the region of rank 0. -/
theorem chained_sectionOrigin {tp : Template} {cx : Ctx} {n r : Nat} {ss other : List Stmt}
    (halloc : textOf Stmt.epochal (seq (prologue ++ tp.winAllocate)) = [])
    (hmain : tp.main cx = fun rank => seq mpiBarrier ++
      ifRank rank 0 (parallel (sections cx.team 0 [putSection, ss])) ++ ifRank rank 1 (seq other))
    (hss : ss.filter Stmt.epochal = []) (hr : r < n) : (tp.program cx n).Chained r := by
  have h0 : tp.main cx 0 =
      seq mpiBarrier ++ (parallel (sections cx.team 0 [putSection, ss]) ++ seq []) := by
    rw [hmain]
    simp [ifRank, seq, on]
  refine chained_region halloc h0 ?_ (cx.team.section_ 0 0).isLt (fun h0 => ?_) hr
  · apply Program.epochalBy_append _ (Program.epochalBy_of_text rfl _)
    simp only [List.zipIdx_cons, List.zipIdx_nil, List.flatMap_cons, List.flatMap_nil,
      List.append_nil]
    apply Program.epochalBy_append (Program.epochalBy_on _ _)
    apply Program.epochalBy_of_text
    rw [textOf_on, hss]
  · rw [hmain]
    simp only [ifRank, if_neg h0, List.append_nil]
    apply Program.epochalBy_append (Program.epochalBy_on _ _)
    split
    · exact Program.epochalBy_on _ _
    · exact Program.epochalBy_nil _

theorem chained_hybrid (cx : Ctx) {n r : Nat} (hr : r < n) :
    ∀ st ∈ srcHybridTemplates, (st.template.program cx n).Chained r := by
  simp only [srcHybridTemplates, List.forall_mem_cons]
  and_intros
  -- `local`
  · exact chained_local rfl rfl cx.team.pos (Program.epochalBy_of_whos (k := 3) rfl) hr
  · exact chained_local rfl rfl cx.team.pos (Program.epochalBy_of_whos (k := 3) rfl) hr
  · exact chained_local rfl rfl (cx.team.single 0).isLt (Program.epochalBy_of_whos (k := 3) rfl) hr
  · exact chained_local rfl rfl (cx.team.single 0).isLt (Program.epochalBy_of_whos (k := 3) rfl) hr
  · exact chained_local rfl rfl (cx.team.iter 0 0).isLt (Program.epochalBy_of_whos (k := 3) rfl) hr
  · exact chained_local rfl rfl (cx.team.iter 0 0).isLt (Program.epochalBy_of_whos (k := 3) rfl) hr
  · exact chained_local rfl rfl (cx.team.section_ 0 0).isLt (Program.epochalBy_of_whos (k := 3) rfl) hr
  · exact chained_local rfl rfl (cx.team.section_ 0 0).isLt (Program.epochalBy_of_whos (k := 3) rfl) hr
  · exact chained_localTask rfl rfl (fun _ => rfl) (by simp [on]) hr
  · exact chained_localTask rfl rfl (fun _ => rfl) (by simp [taskwait, on]) hr
  -- `remote`
  · exact chained_initial rfl (epochalBy_remoteFrame rfl)
  · exact chained_initial rfl (epochalBy_remoteFrame rfl)
  · exact chained_initial rfl (epochalBy_remoteFrame rfl)
  · exact chained_initial rfl (epochalBy_remoteFrame rfl)
  · exact chained_initial rfl (epochalBy_remoteFrame (textOf_taskRegion (fun _ => rfl) _ _ _ _))
  · exact chained_initial rfl (epochalBy_remoteFrame (textOf_taskRegion (fun _ => rfl) _ _ _ _))
  · exact chained_initial rfl (epochalBy_remoteFrame rfl)
  · exact chained_initial rfl (epochalBy_remoteFrame rfl)
  · exact chained_initial rfl (epochalBy_remoteFrame rfl)
  · exact chained_initial rfl (epochalBy_remoteFrame rfl)
  · exact chained_sectionOrigin rfl rfl rfl hr
  · exact chained_sectionOrigin rfl rfl rfl hr
  · simp

/-- The main block of every other template is sequential. -/
theorem plain_of_mem : ∀ tp ∈ [conflictLocalRace, conflictRemoteRace] ++ miscLocalTemplates ++
    miscRemoteTemplates ++ (srcSyncTemplates ++ srcAtomicTemplates).map (·.template),
    ∀ cx, ∃ text, tp.Plain cx text := by
  simp only [miscLocalTemplates, miscRemoteTemplates, srcSyncTemplates, srcAtomicTemplates,
    List.cons_append, List.nil_append, List.map_cons, List.map_nil, List.forall_mem_cons]
  and_intros
  all_goals first
    | exact fun _ h => absurd h List.not_mem_nil
    | exact fun cx => ⟨_, rfl⟩

/-- **The epochal statements of every case are performed in the order of the text.** -/
theorem chained_of_mem {tp : Template} (htp : tp ∈ mpiTemplates) (cx : Ctx) {n r : Nat} (hr : r < n) :
    (tp.program cx n).Chained r := by
  rw [mpiTemplates, List.map_append, ← List.append_assoc, List.mem_append] at htp
  rcases htp with htp | htp
  · obtain ⟨text, hp⟩ := plain_of_mem tp htp cx
    exact chained_plain hp
  · obtain ⟨st, hst, rfl⟩ := List.mem_map.1 htp
    exact chained_hybrid cx hr st hst

/-! ## Which texts the machine accepts -/

def accepts (its : List (Item Stmt)) : Bool :=
  [Win.win, .win2].all fun w => (epochsAfter w (textOf Stmt.epochal its) {}).isSome

/-- The plain rendering of a case. -/
def Case.plain (c : Case) : Ctx := ⟨c.race, c.op1, c.op2, .alone, fun _ => 0⟩

/-- The machine accepts the first ranks of the plain rendering. -/
def Case.accepted (c : Case) : Bool :=
  (List.range 4).all fun r => accepts (c.template.items c.plain r)

def requestFile : String := "MPI-sync-request-local-race"

theorem accepted_mpiCases :
    mpiCases.all (fun c => c.accepted || c.template.file == requestFile) = true := by
  decide +kernel

theorem isSome_of_accepts {its : List (Item Stmt)} (h : accepts its = true) (w : Win) :
    (epochsAfter w (textOf Stmt.epochal its) {}).isSome := by
  have hw : w ∈ [Win.win, .win2] := by cases w <;> simp
  exact List.all_eq_true.1 h w hw

/-! ### Polling -/

theorem neutral_append {w : Win} {as bs : List Stmt} (ha : epochsAfter w as {} = some {})
    (hb : epochsAfter w bs {} = some {}) : epochsAfter w (as ++ bs) {} = some {} := by
  rw [epochsAfter_append, ha]
  exact hb

/-- A poll closes the epoch that it opens. -/
theorem epochsAfter_polls (w : Win) (k : Nat) : epochsAfter w
    ((List.replicate k (winLock .win true 1 ++ winUnlock .win 1 ++ printf [winBase 0])).flatten) {} =
      some {} := by
  induction k with
  | zero => rfl
  | succ k ih =>
    rw [List.replicate_succ, List.flatten_cons]
    apply neutral_append _ ih
    cases w <;> rfl

theorem accepted_polling (cx : Ctx) (r : Nat) (w : Win) :
    (epochsAfter w (textOf Stmt.epochal (syncPollingRemoteYes.items cx r)) {}).isSome := by
  have hp : syncPollingRemoteYes.Plain cx _ := rfl
  rw [hp.items, seq, textOf_on, epochsAfter_filter, epochsAfter_append,
    show epochsAfter w (prologue ++ syncPollingRemoteYes.winAllocate) {} = some {} by cases w <;> rfl,
    Option.bind_some, epochsAfter_append]
  by_cases h0 : r = 0
  · subst h0
    cases w <;> rfl
  · simp only [if_neg h0]
    rw [neutral_append (neutral_append _ (neutral_append _ (epochsAfter_polls w _))) _]
    all_goals cases w <;> rfl

/-! ### All cases -/

/-- A template is known by its file. -/
theorem template_of_file : ∀ tp ∈ mpiTemplates,
    (tp.file = requestFile → tp = syncRequestLocalRace) ∧
    (tp.file = pollingFile → tp = syncPollingRemoteYes) := by
  simp only [mpiTemplates, miscLocalTemplates, miscRemoteTemplates, srcSyncTemplates,
    srcAtomicTemplates, srcHybridTemplates, List.cons_append, List.nil_append, List.map_cons,
    List.map_nil, List.forall_mem_cons]
  and_intros
  all_goals first
    | exact fun _ h => absurd h List.not_mem_nil
    | exact fun _ => trivial
    | exact fun h => absurd h (by decide)

theorem template_mem {c : Case} (hc : c ∈ mpiCases) : c.template ∈ mpiTemplates := by
  have of_table : ∀ {ts : List SourceTemplate}, c ∈ genDiscipline ts →
      c.template ∈ ts.map (·.template) := by
    intro ts h
    obtain ⟨st, hst, ht, -, -⟩ := mem_genDiscipline h
    rw [ht]
    exact List.mem_map_of_mem hst
  simp only [mpiCases, genSyncRaces, List.mem_append] at hc
  simp only [mpiTemplates, List.map_append, List.mem_append]
  rcases hc with (hc | (hc | hc) | hc) | hc
  · rcases mem_genConflictRaces hc with h | h <;> simp [h]
  · exact .inr (.inl (.inl (of_table hc)))
  · exact .inr (.inl (.inr (of_table hc)))
  · exact .inr (.inr (of_table hc))
  · rcases List.mem_append.1 (mem_genMiscRaces hc) with h | h
    · exact .inl (.inl (.inr h))
    · exact .inl (.inr h)

theorem nprocs_of_mem {c : Case} (hc : c ∈ mpiCases) : 2 ≤ c.nprocs := by
  have hall : mpiCases.all (fun c => decide (2 ≤ c.nprocs)) = true := by decide +kernel
  exact of_decide_eq_true (List.all_eq_true.1 hall c hc)

/-- The machine accepts the text of every rank. -/
theorem accepted_of_mem {c : Case} (hc : c ∈ mpiCases) (hf : c.template.file ≠ requestFile)
    {cx : Ctx} (hcx : cx.plain = c.plain) (r : Nat) (w : Win) :
    (epochsAfter w (textOf Stmt.epochal (c.template.items cx r)) {}).isSome := by
  have htp := template_mem hc
  by_cases hpoll : c.template.file = pollingFile
  · rw [(template_of_file _ htp).2 hpoll]
    exact accepted_polling cx r w
  · have hacc := List.all_eq_true.1 accepted_mpiCases c hc
    simp only [hf, Bool.or_eq_true, beq_iff_eq, or_false, Case.accepted, List.all_eq_true,
      List.mem_range] at hacc
    rw [(uniform_of_mem _ htp hpoll).items cx r, hcx]
    exact isSome_of_accepts (hacc _ (by omega)) w

/-- **The RMA epoch discipline**: every case keeps to it, for every number of processes, every team and
every number of polling rounds, but the two renderings of one template. -/
theorem disciplined_iff : ∀ c ∈ mpiCases, ∀ (T : Team) (rounds : Nat → Nat) (n : Nat), c.nprocs ≤ n →
    ((c.program T rounds n).Disciplined ↔ c.template.file ≠ requestFile) := by
  intro c hc T rounds n hn
  constructor
  · intro hd hf
    have ht := (template_of_file _ (template_mem hc)).1 hf
    have := nprocs_of_mem hc
    rw [Case.program, ht] at hd
    exact not_disciplined_request (by omega) hd
  · intro hf
    refine Program.disciplined_of_chained (fun r hr => ?_) fun r _ w => ?_
    · exact chained_of_mem (template_mem hc) _ hr
    · exact accepted_of_mem hc hf rfl r w

theorem conflictPutStore_disciplined :
    (conflictPutStore.program .alone (fun _ => 0) 2).Disciplined :=
  (disciplined_iff conflictPutStore conflictPutStore_mem .alone (fun _ => 0) 2 (by decide)).2
    (by decide)

/-- `009-MPI-sync-request-local-yes.c` -/
def syncRequestLocalYes : Case :=
  ⟨syncRequestLocalRace, 9, Op.rget, Op.localLoad, true, 2, false⟩

/-- `MPI_Rget` is called in a fence epoch. -/
theorem syncRequestLocalYes_not_disciplined : ¬ ∀ c ∈ mpiCases, ∀ (T : Team) (rounds : Nat → Nat)
    (n : Nat), c.nprocs ≤ n → (c.program T rounds n).Disciplined := by
  intro h
  have hmem : syncRequestLocalYes ∈ mpiCases :=
    List.mem_append_left _ (List.mem_append_right _ (List.mem_append_left _
      (List.mem_append_left _ (List.mem_of_getElem?
        (show (genDiscipline srcSyncTemplates)[8]? = some syncRequestLocalYes from rfl)))))
  exact not_disciplined_request (by decide)
    (h syncRequestLocalYes hmem .alone (fun _ => 0) 2 (by decide))

end Mpi
