import RMARaceBench.Generator.Loops

/-!
# The numbers of the cases

* `Numbered.perform`, `numbered_run`: what one call keeps, and what a list of requests keeps.
* `Numbered.matched`: numbers, names and endings of the files in a directory.
* `filesIn_run`: the files in a directory are the renderings of the requests for it, in order.
* `generated_matched`: the counters and the files after the three functions, for any tables.
-/

set_option autoImplicit false

namespace Generator

open Runner (joinPath)

/-! ## What a call changes -/

/-- The files in the directory of a model and a discipline, in the order of generation. -/
def State.filesIn (s : State) (m : Model) (d : Discipline) : List RenderCall :=
  s.rendered.filter fun c => c.outPath = caseDir m d

/-- The counters of a model and a discipline are the same in two states. -/
def SameCounter (s s' : State) (m : Model) (d : Discipline) : Prop :=
  (s'.caseCounters d).get m = (s.caseCounters d).get m ∧
    (s'.caseCounters d).getRaces m = (s.caseCounters d).getRaces m

section Perform

variable {s : State} {r : Request} {m : Model} {d : Discipline}

/-- The file of a request with the number `number`. -/
def Request.rendering (r : Request) (number : Nat) : RenderCall :=
  ⟨r.templateFile, number, r.model, r.op1, r.op2, r.hasRace, r.nprocs, r.threaded⟩

/-- The call that a request makes. -/
def State.call (s : State) (r : Request) : RenderCall :=
  r.rendering ((s.caseCounters r.discipline).get r.model + 1)

theorem rendered_perform : (s.perform r).rendered = s.rendered ++ [s.call r] := rfl

theorem perform_same (hd : d = r.discipline) (hm : m = r.model) :
    ((s.perform r).caseCounters d).get m = (s.caseCounters d).get m + 1 ∧
      ((s.perform r).caseCounters d).getRaces m =
        (s.caseCounters d).getRaces m + if r.hasRace then 1 else 0 := by
  subst hd hm
  unfold State.perform State.render CaseCounter.incGet CaseCounter.get CaseCounter.getRaces
  cases r.hasRace <;> simp

/-- The counters of the other models and disciplines stay as they are. -/
theorem perform_other (h : ¬ (r.model = m ∧ r.discipline = d)) :
    SameCounter s (s.perform r) m d := by
  unfold SameCounter State.perform State.render CaseCounter.incGet CaseCounter.get CaseCounter.getRaces
  by_cases hd : d = r.discipline
  · subst hd
    have hm : m ≠ r.model := fun hm => h ⟨hm.symm, rfl⟩
    simp [hm]
  · simp [hd]

end Perform

/-- Requests for others leave the counters of a model and a discipline as they are. -/
theorem run_other {rs : List Request} {m : Model} {d : Discipline}
    (h : ∀ r ∈ rs, ¬ (r.model = m ∧ r.discipline = d)) (s : State) :
    SameCounter s (s.run rs) m d := by
  induction rs generalizing s with
  | nil => exact ⟨rfl, rfl⟩
  | cons r rs ih =>
    obtain ⟨h1, h2⟩ := ih (fun r' hr' => h r' (List.mem_cons_of_mem r hr')) (s.perform r)
    obtain ⟨h3, h4⟩ := perform_other (s := s) (h r List.mem_cons_self)
    exact ⟨h1.trans h3, h2.trans h4⟩

/-- Requests for one model and discipline take one number each. -/
theorem run_same {rs : List Request} {m : Model} {d : Discipline}
    (h : ∀ r ∈ rs, r.model = m ∧ r.discipline = d) (s : State) :
    ((s.run rs).caseCounters d).get m = (s.caseCounters d).get m + rs.length := by
  induction rs generalizing s with
  | nil => rfl
  | cons r rs ih =>
    obtain ⟨hm, hd⟩ := h r List.mem_cons_self
    refine (ih (fun r' hr' => h r' (List.mem_cons_of_mem r hr')) (s.perform r)).trans ?_
    rw [(perform_same hd.symm hm.symm).1, List.length_cons]
    omega

/-! ## The invariant -/

def Request.Placed (r : Request) : Prop :=
  Generator.Placed r.templateFile r.model r.discipline r.hasRace

/-- Each directory has the numbers from 1 on, and its counters count its files. -/
structure Numbered (s : State) : Prop where
  placed : ∀ c ∈ s.rendered, ∃ m d, Placed c.templateFile m d c.hasRace
  numbers : ∀ m d, (s.filesIn m d).map (·.number) = List.range' 1 ((s.caseCounters d).get m)
  races : ∀ m d, (s.caseCounters d).getRaces m = (s.filesIn m d).countP (·.hasRace)

theorem Numbered.init : Numbered {} where
  placed := fun _ hc => absurd hc List.not_mem_nil
  numbers := fun _ _ => rfl
  races := fun _ _ => rfl

/-- A request adds its file to the directory of its model and its discipline. -/
theorem filesIn_perform {r : Request} (hr : r.Placed) (s : State) (m : Model) (d : Discipline) :
    (s.perform r).filesIn m d =
      s.filesIn m d ++ if r.model = m ∧ r.discipline = d then [s.call r] else [] := by
  have hpath : (s.call r).outPath = caseDir r.model r.discipline :=
    Placed.outPath (c := s.call r) hr
  unfold State.filesIn
  rw [rendered_perform, List.filter_append, List.filter_singleton, hpath]
  congr 1
  by_cases hmd : r.model = m ∧ r.discipline = d
  · obtain ⟨rfl, rfl⟩ := hmd
    simp
  · rw [if_neg hmd, decide_eq_false fun he => hmd (caseDir_injective he), cond_false]

theorem Numbered.perform {s : State} (h : Numbered s) {r : Request} (hr : r.Placed) :
    Numbered (s.perform r) := by
  have hfiles := filesIn_perform hr s
  refine ⟨fun c hc => ?_, fun m d => ?_, fun m d => ?_⟩
  · rw [rendered_perform, List.mem_append, List.mem_singleton] at hc
    obtain hc | rfl := hc
    · exact h.placed c hc
    · exact ⟨r.model, r.discipline, hr⟩
  · rw [hfiles]
    by_cases hmd : r.model = m ∧ r.discipline = d
    · obtain ⟨hm, hd⟩ := hmd
      rw [if_pos ⟨hm, hd⟩, (perform_same hd.symm hm.symm).1, List.map_append, h.numbers,
        List.range'_1_concat]
      subst hm hd
      rw [Nat.add_comm 1]
      rfl
    · rw [if_neg hmd, (perform_other hmd).1, List.append_nil, h.numbers]
  · rw [hfiles]
    by_cases hmd : r.model = m ∧ r.discipline = d
    · obtain ⟨hm, hd⟩ := hmd
      rw [if_pos ⟨hm, hd⟩, (perform_same hd.symm hm.symm).2, List.countP_append, h.races,
        List.countP_singleton]
      rfl
    · rw [if_neg hmd, (perform_other hmd).2, List.append_nil, h.races]

theorem numbered_run {rs : List Request} (h : ∀ r ∈ rs, r.Placed) {s : State} (hs : Numbered s) :
    Numbered (s.run rs) := by
  induction rs generalizing s with
  | nil => exact hs
  | cons r rs ih =>
    exact ih (fun r' hr' => h r' (List.mem_cons_of_mem r hr')) (hs.perform (h r List.mem_cons_self))

/-- The requests for a model and a discipline add their renderings, with the next numbers. -/
theorem filesIn_run {rs : List Request} (h : ∀ r ∈ rs, r.Placed) (s : State) (m : Model)
    (d : Discipline) : (s.run rs).filesIn m d = s.filesIn m d ++
      ((rs.filter fun r => r.model = m ∧ r.discipline = d).zipIdx ((s.caseCounters d).get m + 1)).map
        fun x => x.1.rendering x.2 := by
  induction rs generalizing s with
  | nil => simp [State.run]
  | cons r rs ih =>
    refine (ih (fun r' hr' => h r' (List.mem_cons_of_mem r hr')) (s.perform r)).trans ?_
    rw [filesIn_perform (h r List.mem_cons_self), List.append_assoc]
    by_cases hmd : r.model = m ∧ r.discipline = d
    · obtain ⟨hm, hd⟩ := hmd
      rw [if_pos ⟨hm, hd⟩, (perform_same hd.symm hm.symm).1,
        List.filter_cons_of_pos (by simp [hm, hd]), List.zipIdx_cons, List.map_cons]
      subst hm hd
      rfl
    · rw [if_neg hmd, (perform_other hmd).1, List.filter_cons_of_neg (by simpa using hmd),
        List.nil_append]

/-! ## Files and counters -/

/-- The files of a directory have distinct names with the numbers from 1 on, and the counters agree with
the files. -/
structure Matched (s : State) (m : Model) (d : Discipline) : Prop where
  names : ((s.filesIn m d).map RenderCall.filename).Nodup
  numbers : (s.filesIn m d).map (·.number) = List.range' 1 (s.filesIn m d).length
  carried : ∀ c ∈ s.filesIn m d, zeroPad3 c.number ++ ['-'] <+: c.outFile
  files : (s.caseCounters d).get m = (s.filesIn m d).length
  races : (s.caseCounters d).getRaces m = (s.filesIn m d).countP (·.IsYes)
  noraces : (s.caseCounters d).getNoraces m = (s.filesIn m d).countP (·.IsNo)

theorem number_of_filename {c c' : RenderCall} {dir : Text} (hc : c.outPath = dir)
    (hc' : c'.outPath = dir) (h : c.filename = c'.filename) : c.number = c'.number := by
  unfold RenderCall.filename joinPath at h
  rw [hc, hc'] at h
  refine number_of_outFile (show c.outFile = c'.outFile from ?_)
  split at h
  · exact List.append_cancel_left h
  · exact (List.cons_eq_cons.1 (List.append_cancel_left h)).2

theorem Numbered.matched {s : State} (h : Numbered s) (m : Model) (d : Discipline) :
    Matched s m d := by
  have hlen : (s.caseCounters d).get m = (s.filesIn m d).length := by
    rw [← List.length_map (f := RenderCall.number), h.numbers, List.length_range']
  have hplaced : ∀ c ∈ s.filesIn m d, ∃ m d, Placed c.templateFile m d c.hasRace := fun c hc =>
    h.placed c (List.mem_of_mem_filter hc)
  have hyes : (s.filesIn m d).countP (·.IsYes) = (s.filesIn m d).countP (·.hasRace) := by
    refine List.countP_congr fun c hc => ?_
    obtain ⟨_, _, hp⟩ := hplaced c hc
    rw [decide_eq_true_eq]
    exact hp.yes_iff
  have hno : (s.filesIn m d).countP (·.IsNo) = (s.filesIn m d).countP (fun c => !c.hasRace) := by
    refine List.countP_congr fun c hc => ?_
    obtain ⟨_, _, hp⟩ := hplaced c hc
    rw [decide_eq_true_eq, Bool.not_eq_true']
    exact hp.no_iff
  have hsplit : (s.filesIn m d).length = (s.filesIn m d).countP (·.hasRace) +
      (s.filesIn m d).countP (fun c => !c.hasRace) := by
    simpa using List.length_eq_countP_add_countP RenderCall.hasRace (l := s.filesIn m d)
  refine ⟨?_, ?_, fun c _ => ?_, hlen, ?_, ?_⟩
  · have hnd : ((s.filesIn m d).map (·.number)).Nodup := by
      rw [h.numbers]
      exact List.nodup_range'
    rw [List.Nodup, List.pairwise_map] at hnd ⊢
    refine hnd.imp_of_mem fun {c c'} hc hc' hne he => hne ?_
    have hdir : ∀ c ∈ s.filesIn m d, c.outPath = caseDir m d := fun c hc =>
      of_decide_eq_true (List.mem_filter.1 hc).2
    exact number_of_filename (hdir c hc) (hdir c' hc') he
  · rw [h.numbers, hlen]
  · unfold RenderCall.outFile outFile
    exact ⟨_, by rw [List.append_assoc, List.singleton_append]⟩
  · rw [h.races, hyes]
  · have hr := h.races m d
    unfold CaseCounter.getNoraces
    rw [show (s.caseCounters d).counter m = (s.filesIn m d).length from hlen,
      show (s.caseCounters d).raceCounter m = (s.filesIn m d).countP (·.hasRace) from hr, hno, hsplit]
    omega

/-! ## Placed tables -/

/-- The templates of the table lie in the directories of their models, with endings that agree with the
flags. -/
structure ConflictTables.Placed (t : ConflictTables) : Prop where
  locals : ∀ c ∈ t.localRaceCombinations, ∀ m,
    Generator.Placed (t.localSrcTemplates m).filename m .conflict c.hasRace
  additionalLocals : ∀ m, ∀ c ∈ t.additionalLocalCombinations m,
    Generator.Placed (t.localSrcTemplates m).filename m .conflict c.hasRace
  remotes : ∀ c ∈ t.remoteRaceCombinations, ∀ m,
    Generator.Placed (t.remoteSrcTemplates m).filename m .conflict c.hasRace
  additionalRemotes : ∀ m, ∀ c ∈ t.additionalRemoteCombinations m,
    Generator.Placed (t.remoteSrcTemplates m).filename m .conflict c.hasRace

/-- The templates of a list, each with its own flags. -/
def TemplatesPlaced (d : Discipline) (ts : Model → List SourceTemplate) : Prop :=
  ∀ m, ∀ t ∈ ts m, ∀ hasRace ∈ t.hasRace, Placed t.filename m d hasRace

structure SyncTables.Placed (t : SyncTables) : Prop where
  sync : TemplatesPlaced .sync t.srcSyncTemplates
  atomic : TemplatesPlaced .atomic t.srcAtomicTemplates
  hybrid : TemplatesPlaced .hybrid t.srcHybridTemplates

structure MiscTables.Placed (t : MiscTables) : Prop where
  locals : ∀ m, ∀ template ∈ t.localSrcTemplates m, ∀ c ∈ t.localRaceCombinations,
    Generator.Placed template.filename m .misc c.hasRace
  remotes : ∀ m, ∀ template ∈ t.remoteSrcTemplates m, ∀ c ∈ t.remoteRaceCombinations,
    Generator.Placed template.filename m .misc c.hasRace

structure Tables.Placed (t : Tables) : Prop where
  conflict : t.conflict.Placed
  sync : t.sync.Placed
  misc : t.misc.Placed

/-- What the directory and the ending of a request's file depend on. -/
structure Request.For (r : Request) (file : String) (m : Model) (d : Discipline) (hasRace : Bool) :
    Prop where
  file : r.templateFile = file
  model : r.model = m
  discipline : r.discipline = d
  flag : r.hasRace = hasRace

theorem Request.For.placed {r : Request} {file : String} {m : Model} {d : Discipline}
    {hasRace : Bool} (h : r.For file m d hasRace) (hp : Generator.Placed file m d hasRace) :
    r.Placed := by
  obtain ⟨rfl, rfl, rfl, rfl⟩ := h
  exact hp

theorem Entry.mem_requests {e : Entry} {ops1 ops2 : List Operation} {r : Request}
    (h : r ∈ e.requests ops1 ops2) : r.For e.templateFile e.model .conflict e.hasRace := by
  obtain ⟨p, -, rfl⟩ := List.mem_map.1 h
  exact ⟨rfl, rfl, rfl, rfl⟩

theorem ConflictTables.mem_requests {t : ConflictTables} {r : Request} (h : r ∈ t.requests) :
    (∃ m, ∃ c ∈ t.localRaceCombinations,
      r.For (t.localSrcTemplates m).filename m .conflict c.hasRace) ∨
    (∃ m, ∃ c ∈ t.additionalLocalCombinations m,
      r.For (t.localSrcTemplates m).filename m .conflict c.hasRace) ∨
    (∃ m, ∃ c ∈ t.remoteRaceCombinations,
      r.For (t.remoteSrcTemplates m).filename m .conflict c.hasRace) ∨
    ∃ m, ∃ c ∈ t.additionalRemoteCombinations m,
      r.For (t.remoteSrcTemplates m).filename m .conflict c.hasRace := by
  unfold requests additionalRequests at h
  simp only [List.mem_append, List.mem_flatMap, List.mem_map] at h
  obtain ((⟨c, hc, m, -, hr⟩ | ⟨m, -, c, hc, rfl⟩) | ⟨c, hc, m, -, hr⟩) | ⟨m, -, c, hc, rfl⟩ := h
  · exact .inl ⟨m, c, hc, Entry.mem_requests hr⟩
  · exact .inr (.inl ⟨m, c, hc, rfl, rfl, rfl, rfl⟩)
  · exact .inr (.inr (.inl ⟨m, c, hc, Entry.mem_requests hr⟩))
  · exact .inr (.inr (.inr ⟨m, c, hc, rfl, rfl, rfl, rfl⟩))

theorem mem_templateRequests {d : Discipline} {m : Model} {ts : List SourceTemplate} {r : Request}
    (h : r ∈ templateRequests d m ts) :
    ∃ t ∈ ts, ∃ hasRace ∈ t.hasRace, r.For t.filename m d hasRace := by
  unfold templateRequests at h
  simp only [List.mem_flatMap, List.mem_map] at h
  obtain ⟨t, ht, -, -, hasRace, hr, rfl⟩ := h
  exact ⟨t, ht, hasRace, hr, rfl, rfl, rfl, rfl⟩

theorem SyncTables.mem_requests {t : SyncTables} {r : Request} (h : r ∈ t.requests) :
    ∃ m, r ∈ templateRequests .sync m (t.srcSyncTemplates m) ∨
      r ∈ templateRequests .atomic m (t.srcAtomicTemplates m) ∨
      r ∈ templateRequests .hybrid m (t.srcHybridTemplates m) := by
  unfold requests at h
  obtain ⟨m, -, h⟩ := List.mem_flatMap.1 h
  refine ⟨m, ?_⟩
  simpa only [List.flatMap_cons, List.flatMap_nil, List.append_nil, List.mem_append] using h

theorem MiscTables.mem_requests {t : MiscTables} {r : Request} (h : r ∈ t.requests) :
    (∃ m, ∃ template ∈ t.localSrcTemplates m, ∃ c ∈ t.localRaceCombinations,
      r.For template.filename m .misc c.hasRace) ∨
    ∃ m, ∃ template ∈ t.remoteSrcTemplates m, ∃ c ∈ t.remoteRaceCombinations,
      r.For template.filename m .misc c.hasRace := by
  unfold requests pairRequests at h
  simp only [List.mem_append, List.mem_flatMap, List.mem_map] at h
  obtain ⟨m, -, template, ht, c, hc, -, -, -, -, rfl⟩ | ⟨m, -, template, ht, c, hc, -, -, -, -, rfl⟩ := h
  · exact .inl ⟨m, template, ht, c, hc, rfl, rfl, rfl, rfl⟩
  · exact .inr ⟨m, template, ht, c, hc, rfl, rfl, rfl, rfl⟩

/-! ### Placed requests -/

theorem ConflictTables.Placed.requests {t : ConflictTables} (h : t.Placed) :
    ∀ r ∈ t.requests, r.Placed := by
  intro r hr
  obtain ⟨m, c, hc, hf⟩ | ⟨m, c, hc, hf⟩ | ⟨m, c, hc, hf⟩ | ⟨m, c, hc, hf⟩ := t.mem_requests hr
  · exact hf.placed (h.locals c hc m)
  · exact hf.placed (h.additionalLocals m c hc)
  · exact hf.placed (h.remotes c hc m)
  · exact hf.placed (h.additionalRemotes m c hc)

theorem TemplatesPlaced.requests {d : Discipline} {ts : Model → List SourceTemplate}
    (h : TemplatesPlaced d ts) (m : Model) : ∀ r ∈ templateRequests d m (ts m), r.Placed := by
  intro r hr
  obtain ⟨t, ht, hasRace, hrace, hf⟩ := mem_templateRequests hr
  exact hf.placed (h m t ht hasRace hrace)

theorem SyncTables.Placed.requests {t : SyncTables} (h : t.Placed) :
    ∀ r ∈ t.requests, r.Placed := by
  intro r hr
  obtain ⟨m, hr | hr | hr⟩ := t.mem_requests hr
  · exact h.sync.requests m r hr
  · exact h.atomic.requests m r hr
  · exact h.hybrid.requests m r hr

theorem MiscTables.Placed.requests {t : MiscTables} (h : t.Placed) :
    ∀ r ∈ t.requests, r.Placed := by
  intro r hr
  obtain ⟨m, template, ht, c, hc, hf⟩ | ⟨m, template, ht, c, hc, hf⟩ := t.mem_requests hr
  · exact hf.placed (h.locals m template ht c hc)
  · exact hf.placed (h.remotes m template ht c hc)

theorem Tables.Placed.requests {t : Tables} (h : t.Placed) : ∀ r ∈ t.requests, r.Placed := by
  intro r hr
  unfold Tables.requests at hr
  rw [List.mem_append, List.mem_append] at hr
  obtain (hr | hr) | hr := hr
  · exact h.conflict.requests r hr
  · exact h.sync.requests r hr
  · exact h.misc.requests r hr

/-! ## Skipped combinations and other counters -/

/-- A loop takes one number for each combination that it does not skip. -/
theorem Entry.combinationLoop_get (e : Entry) (ops1 ops2 : List Operation) (s : State) :
    ((e.combinationLoop ops1 ops2 s).caseCounters .conflict).get e.model =
      (s.caseCounters .conflict).get e.model + (firsts pairKey [] (pairs ops1 ops2)).length := by
  rw [e.combinationLoop_eq_run, run_same (m := e.model) (d := .conflict)]
  · rw [requests, List.length_map]
  · intro r hr
    have hf := Entry.mem_requests hr
    exact ⟨hf.model, hf.discipline⟩

/-- A combination that is skipped takes no number, and the numbers of a loop are taken by the others. -/
structure SkipsFree : Prop where
  skip : ∀ (e : Entry) (seen : List (String × String)) (s : State) (op1 op2 : Operation),
    sortedPair op1.name op2.name ∈ seen → (e.combine (seen, s) op1 op2).2 = s
  loop : ∀ (e : Entry) (ops1 ops2 : List Operation) (s : State),
    ((e.combinationLoop ops1 ops2 s).caseCounters .conflict).get e.model =
      (s.caseCounters .conflict).get e.model + (firsts pairKey [] (pairs ops1 ops2)).length

theorem skipsFree : SkipsFree where
  skip := fun e seen s op1 op2 h => by
    unfold Entry.combine
    rw [if_pos h]
  loop := Entry.combinationLoop_get

/-- What each function and each loop for one model leaves alone. -/
structure Frame (t : Tables) : Prop where
  conflict : ∀ s m d, d ≠ .conflict → SameCounter s (genConflictRaces t.conflict s) m d
  sync : ∀ s m d, d ∉ [Discipline.sync, .atomic, .hybrid] →
    SameCounter s (genSyncRaces t.sync s) m d
  misc : ∀ s m d, d ≠ .misc → SameCounter s (genMiscRaces t.misc s) m d
  combinations : ∀ (e : Entry) ops1 ops2 s m d, ¬ (e.model = m ∧ .conflict = d) →
    SameCounter s (e.combinationLoop ops1 ops2 s) m d
  additional : ∀ srcTemplate model cs s m d, ¬ (model = m ∧ .conflict = d) →
    SameCounter s (genAdditional srcTemplate model cs s) m d
  templates : ∀ d' model ts s m d, ¬ (model = m ∧ d' = d) →
    SameCounter s (genTemplates d' model ts s) m d
  pairs : ∀ file model c nprocs s m d, ¬ (model = m ∧ .misc = d) →
    SameCounter s (genAllPairs file model c nprocs s) m d

theorem frame (t : Tables) : Frame t where
  conflict := by
    intro s m d hd
    rw [genConflictRaces_eq]
    refine run_other (fun r hr h => hd ?_) s
    obtain ⟨_, _, -, hf⟩ | ⟨_, _, -, hf⟩ | ⟨_, _, -, hf⟩ | ⟨_, _, -, hf⟩ := t.conflict.mem_requests hr
    all_goals rw [← h.2, hf.discipline]
  sync := by
    intro s m d hd
    rw [genSyncRaces_eq]
    refine run_other (fun r hr h => hd ?_) s
    obtain ⟨_, hr | hr | hr⟩ := t.sync.mem_requests hr
    all_goals
      obtain ⟨_, -, _, -, hf⟩ := mem_templateRequests hr
      rw [← h.2, hf.discipline]
      decide
  misc := by
    intro s m d hd
    rw [genMiscRaces_eq]
    refine run_other (fun r hr h => hd ?_) s
    obtain ⟨_, _, -, _, -, hf⟩ | ⟨_, _, -, _, -, hf⟩ := t.misc.mem_requests hr
    all_goals rw [← h.2, hf.discipline]
  combinations := by
    intro e ops1 ops2 s m d hmd
    rw [e.combinationLoop_eq_run]
    refine run_other (fun r hr h => hmd ?_) s
    have hf := Entry.mem_requests hr
    exact ⟨hf.model.symm.trans h.1, hf.discipline.symm.trans h.2⟩
  additional := by
    intro srcTemplate model cs s m d hmd
    rw [genAdditional_eq]
    refine run_other (fun r hr h => hmd ?_) s
    obtain ⟨c, -, rfl⟩ := List.mem_map.1 hr
    exact h
  templates := by
    intro d' model ts s m d hmd
    rw [genTemplates_eq]
    refine run_other (fun r hr h => hmd ?_) s
    obtain ⟨_, -, _, -, hf⟩ := mem_templateRequests hr
    exact ⟨hf.model.symm.trans h.1, hf.discipline.symm.trans h.2⟩
  pairs := by
    intro file model c nprocs s m d hmd
    rw [genAllPairs_eq]
    refine run_other (fun r hr h => hmd ?_) s
    unfold pairRequests at hr
    simp only [List.mem_flatMap, List.mem_map] at hr
    obtain ⟨_, -, _, -, rfl⟩ := hr
    exact h

/-! ## The row `Total` -/

/-- The sum over the five disciplines. -/
def sumDisciplines {α : Type} [Add α] (f : Discipline → α) : α :=
  f .conflict + f .sync + f .atomic + f .hybrid + f .misc

theorem totalCounter_get (caseCounters : Discipline → CaseCounter) (m : Model) :
    (totalCounter caseCounters).get m = sumDisciplines fun d => (caseCounters d).get m := by
  cases m <;> simp [totalCounter, models, CaseCounter.get, CaseCounter.set, CaseCounter.setRaces,
    sumDisciplines]

theorem totalCounter_getRaces (caseCounters : Discipline → CaseCounter) (m : Model) :
    (totalCounter caseCounters).getRaces m =
      sumDisciplines fun d => (caseCounters d).getRaces m := by
  cases m <;> simp [totalCounter, models, CaseCounter.getRaces, CaseCounter.set,
    CaseCounter.setRaces, sumDisciplines]

theorem totalCounter_getNoraces (caseCounters : Discipline → CaseCounter) (m : Model) :
    (totalCounter caseCounters).getNoraces m =
      sumDisciplines fun d => (caseCounters d).getNoraces m := by
  have hg : (totalCounter caseCounters).counter m = _ := totalCounter_get caseCounters m
  have hr : (totalCounter caseCounters).raceCounter m = _ := totalCounter_getRaces caseCounters m
  unfold CaseCounter.getNoraces
  rw [hg, hr]
  simp only [sumDisciplines, CaseCounter.get, CaseCounter.getRaces]
  omega

/-- The last row has the sums of the entries of the other rows. -/
def TotalRow (caseCounters : Discipline → CaseCounter) : Prop :=
  (printStaticstics caseCounters).getLast? = some
    ⟨padRight16 "Total".toList, models.map fun m =>
      (sumDisciplines fun d => (caseCounters d).getRaces m,
        sumDisciplines fun d => (caseCounters d).getNoraces m,
        sumDisciplines fun d => (caseCounters d).get m)⟩

theorem totalRow (caseCounters : Discipline → CaseCounter) : TotalRow caseCounters := by
  unfold TotalRow
  simp only [← totalCounter_get, ← totalCounter_getRaces, ← totalCounter_getNoraces]
  rfl

/-! ## The script -/

/-- The files of a model and a discipline are the renderings of the tables' requests for them, in order. -/
def InOrder (t : Tables) (m : Model) (d : Discipline) : Prop :=
  t.generated.filesIn m d =
    ((t.requests.filter fun r => r.model = m ∧ r.discipline = d).zipIdx 1).map
      fun x => x.1.rendering x.2

/-- For any placed tables, the files are those of the tables' requests, the counters, the numbers and the
files agree, no skipped combination takes a number, the generations do not disturb each other, and the last
printed row is the sum of the rows. -/
theorem generated_matched {t : Tables} (h : t.Placed) :
    (∀ m d, InOrder t m d) ∧ (∀ m d, Matched t.generated m d) ∧ SkipsFree ∧ Frame t ∧
      TotalRow t.generated.caseCounters := by
  refine ⟨fun m d => ?_, fun m d => ?_, skipsFree, frame t, totalRow _⟩
  · rw [InOrder, t.generated_eq, filesIn_run h.requests]
    rfl
  · rw [t.generated_eq]
    exact (numbered_run h.requests .init).matched m d

/-- The local combination of `op_local_buffer_write` and `op_local_store`. -/
def getStore : LocalCombination where
  ops1 := fun
    | .MPIRMA => (Model.MPIRMA.get "get").toList
    | .SHMEM => (Model.SHMEM.get "getnbi").toList
    | .GASPI => (Model.GASPI.get "read").toList
  ops2 := fun m => (m.get "local_store").toList
  hasRace := true

/-- One combination for the three models, and one template of each of `sync`, `atomic` and `misc`. -/
def someTables : Tables where
  conflict :=
    { localRaceCombinations := [getStore]
      additionalLocalCombinations := fun _ => []
      additionalRemoteCombinations := fun _ => []
      remoteRaceCombinations := []
      localSrcTemplates := fun
        | .MPIRMA => ⟨"templates/MPIRMA/conflict/MPI-conflict-op1-op2-local-race.c.j2", 2, [], [], false⟩
        | .SHMEM => ⟨"templates/SHMEM/conflict/shmem-conflict-op1-op2-local-race.c.j2", 2, [], [], false⟩
        | .GASPI => ⟨"templates/GASPI/conflict/GASPI-conflict-op1-op2-local-race.c.j2", 2, [], [], false⟩
      remoteSrcTemplates := fun
        | .MPIRMA => ⟨"templates/MPIRMA/conflict/MPI-conflict-op1-op2-remote-race.c.j2", 2, [], [], false⟩
        | .SHMEM => ⟨"templates/SHMEM/conflict/shmem-conflict-op1-op2-remote-race.c.j2", 2, [], [], false⟩
        | .GASPI => ⟨"templates/GASPI/conflict/GASPI-conflict-op1-op2-remote-race.c.j2", 2, [], [], false⟩ }
  sync :=
    { srcSyncTemplates := fun
        | .MPIRMA => [⟨"templates/MPIRMA/sync/MPI-sync-fence-local-race.c.j2", 2, [true, false],
            [(Model.MPIRMA.get "get", Model.MPIRMA.get "local_load")], false⟩]
        | _ => []
      srcAtomicTemplates := fun
        | .MPIRMA => [⟨"templates/MPIRMA/atomic/MPI-atomic-customdatatype-remote-no.c.j2", 3, [false],
            [(Model.MPIRMA.get "acc", Model.MPIRMA.get "acc")], false⟩]
        | _ => []
      srcHybridTemplates := fun _ => [] }
  misc :=
    { localRaceCombinations := [getStore]
      remoteRaceCombinations := []
      localSrcTemplates := fun
        | .GASPI => [⟨"templates/GASPI/misc/GASPI-misc-op1-op2-retval-local-race.c.j2", 2, [], [], false⟩]
        | _ => []
      remoteSrcTemplates := fun _ => [] }

theorem someTables_placed : someTables.Placed where
  conflict :=
    { locals := by
        intro c hc m
        rw [List.mem_singleton.1 hc]
        cases m with
        | MPIRMA => exact ⟨"MPI-conflict-op1-op2-local".toList, _, rfl, by decide, .inl rfl⟩
        | SHMEM => exact ⟨"shmem-conflict-op1-op2-local".toList, _, rfl, by decide, .inl rfl⟩
        | GASPI => exact ⟨"GASPI-conflict-op1-op2-local".toList, _, rfl, by decide, .inl rfl⟩
      additionalLocals := fun _ _ hc => absurd hc List.not_mem_nil
      remotes := fun _ hc => absurd hc List.not_mem_nil
      additionalRemotes := fun _ _ hc => absurd hc List.not_mem_nil }
  sync :=
    { sync := by
        intro m t ht hasRace hr
        cases m with
        | MPIRMA =>
          rw [List.mem_singleton.1 ht]
          exact ⟨"MPI-sync-fence-local".toList, _, rfl, by decide, .inl rfl⟩
        | SHMEM => exact absurd ht List.not_mem_nil
        | GASPI => exact absurd ht List.not_mem_nil
      atomic := by
        intro m t ht hasRace hr
        cases m with
        | MPIRMA =>
          rw [List.mem_singleton.1 ht, List.mem_singleton] at hr
          rw [List.mem_singleton.1 ht, hr]
          exact ⟨"MPI-atomic-customdatatype-remote".toList, "no".toList, rfl, by decide, .inr rfl⟩
        | SHMEM => exact absurd ht List.not_mem_nil
        | GASPI => exact absurd ht List.not_mem_nil
      hybrid := fun _ _ ht => absurd ht List.not_mem_nil }
  misc :=
    { locals := by
        intro m t ht c hc
        cases m with
        | MPIRMA => exact absurd ht List.not_mem_nil
        | SHMEM => exact absurd ht List.not_mem_nil
        | GASPI =>
          rw [List.mem_singleton.1 ht]
          exact ⟨"GASPI-misc-op1-op2-retval-local".toList, _, rfl, by decide, .inl rfl⟩
      remotes := fun _ _ _ _ hc => absurd hc List.not_mem_nil }

theorem someTables_matched :
    (∀ m d, InOrder someTables m d) ∧ (∀ m d, Matched someTables.generated m d) ∧ SkipsFree ∧
      Frame someTables ∧ TotalRow someTables.generated.caseCounters :=
  generated_matched someTables_placed

end Generator
