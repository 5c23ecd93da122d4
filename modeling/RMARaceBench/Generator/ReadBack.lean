import RMARaceBench.Generator.Written

/-!
# Reading back a generated case

`readBack_iff`: `Test.__init__` recovers from the written file what the generator was asked for, if and only if
the case has no race, its template is of the kind `local`, or no other part of the written name shows the word
`local`.
-/

set_option autoImplicit false

namespace Generator

open Python
open Runner (decimal)

/-! ## Templates -/

/-- The line that defines `PROC_NUM`, between newlines. -/
def procNumLine (nprocs : Nat) : Text :=
  "\n#define PROC_NUM ".toList ++ Nat.toDigits 10 nprocs ++ "\n".toList

/-- A template that keeps the block `race_labels` of the boilerplate. Its name has the word of a kind once,
between hyphens; the rest of what it renders to is arbitrary. -/
structure CaseTemplate where
  before : Text
  kind : AccessKind
  after : Text
  no_word : ∀ k : AccessKind, ¬ k.word <:+: before ∧ ¬ k.word <:+: after
  no_slash : '/' ∉ before ∧ '/' ∉ after
  /-- The text before the block. -/
  header : Text
  no_marker : ¬ beginMarker <:+: header
  no_cr : '\r' ∉ header
  /-- The text between the label comment and the line with `PROC_NUM`, and the text behind it. -/
  between : RenderArgs → Text
  rest : RenderArgs → Text

namespace CaseTemplate

def file (t : CaseTemplate) : Text := Text.joinHyphen [t.before, t.kind.word, t.after]

/-- `template.render`. -/
def render (t : CaseTemplate) (a : RenderArgs) : Text :=
  t.header ++ (a.labelComment placeholder1 placeholder2 ++
    (t.between a ++ (procNumLine a.nprocs ++ t.rest a)))

end CaseTemplate

/-- What is assumed of clang-format: the label comment stays, and no line with `// CONFLICT` or with a
definition of `PROC_NUM` is split, joined or changed. -/
structure KeepsLabels (format : Text → Text) : Prop where
  comment : KeepsComment format
  conflicts : ∀ text, (conflictLines (format text)).length = (conflictLines text).length
  procNum : ∀ text n, procNumLine n <:+: text → procNumLine n <:+: format text

/-! ## What is read back -/

/-- The attributes of a test agree with what the generator was asked for, and with the file. -/
structure Recovers (kind : AccessKind) (op1 op2 : Option Operation) (race : Bool) (procs : Nat)
    (content : Text) (d : TestData) : Prop where
  hasRace : d.hasRace = race
  raceKind : d.raceKind = .str (if race then kind.word else "none".toList)
  nprocs : d.nprocs = .int procs
  procNum : procNumLine procs <:+: content
  accessSet : race = true → d.accessSet =
    some (.arr [.str (opkind kind op1).toList, .str (opkind kind op2).toList])
  /-- The locations are the lines behind the two markers, counted from 1. -/
  locations : race = true → ∃ i j : Nat, conflictLines content = [i, j] ∧
    d.raceLoc1 = some ((i : Int) + 2) ∧ d.raceLoc2 = some ((j : Int) + 2) ∧
    d.racePair = some (.arr [.str (callname op1 ++ '@' :: Nat.toDigits 10 (i + 2)),
      .str (callname op2 ++ '@' :: Nat.toDigits 10 (j + 2))])

/-- The file is written, and reading it back recovers what was asked for. -/
def ReadBack (t : CaseTemplate) (format : Text → Text) (dir : Text) (number : Nat)
    (op1 op2 : Option Operation) (hasRace : Bool) (nprocs : Nat) (threaded : Bool) : Prop :=
  ∃ content d,
    renderTemplate t.render format (dir ++ '/' :: t.file) number op1 op2 hasRace nprocs threaded =
      some content ∧
    testInit content = some d ∧ Recovers t.kind op1 op2 hasRace nprocs content d

/-! ## The line with `PROC_NUM` -/

theorem procNumLine_readText {n : Nat} {s : Text} (h : procNumLine n <:+: s) :
    procNumLine n <:+: readText s := by
  obtain ⟨u, v, rfl⟩ := h
  have hcr : '\r' ∉ "#define PROC_NUM ".toList ++ Nat.toDigits 10 n ++ "\n".toList := by
    refine List.not_mem_append (List.not_mem_append (by decide) fun hm => ?_) (by decide)
    exact absurd (Json.toDigits_isDigit n _ hm) (by decide)
  have hline : u ++ procNumLine n ++ v =
      u ++ '\n' :: ("#define PROC_NUM ".toList ++ Nat.toDigits 10 n ++ "\n".toList ++ v) := by
    rw [List.append_assoc]
    rfl
  obtain ⟨y, hy⟩ := readText_append_newline
    (s := "#define PROC_NUM ".toList ++ Nat.toDigits 10 n ++ "\n".toList ++ v) u
  rw [hline, hy, readText_append hcr]
  exact ⟨y, readText v, by rw [List.append_assoc]; rfl⟩

theorem procNumLine_replace {old new : Text} (ho : IsPlaceholder old) (hn : '\n' ∉ old) {n : Nat}
    {s : Text} (h : procNumLine n <:+: s) : procNumLine n <:+: s.replace old new := by
  obtain ⟨u, v, rfl⟩ := h
  have hbrace : '\x7b' ∉ procNumLine n := by
    refine List.not_mem_append (List.not_mem_append (by decide) fun hm => ?_) (by decide)
    exact absurd (Json.toDigits_isDigit n _ hm) (by decide)
  have hends : ∀ c ∈ (procNumLine n ++ v).head?, c ∉ old := by
    intro c hc
    obtain rfl : '\n' = c := Option.some.inj hc
    exact hn
  obtain ⟨o, rfl⟩ := ho.shape
  rw [List.append_assoc, Text.replace_append_of_ends ho.ne_nil hends,
    Text.replace_append_of_head new hbrace v]
  exact ⟨_, _, by rw [List.append_assoc]⟩

theorem procNumLine_fillIn (hasRace : Bool) {n : Nat} {code : Text} (h : procNumLine n <:+: code) :
    procNumLine n <:+: fillIn hasRace code := by
  unfold fillIn
  split
  · exact procNumLine_replace isPlaceholder2 (by decide)
      (procNumLine_replace isPlaceholder1 (by decide) h)
  · exact h

variable {t : CaseTemplate} {format : Text → Text}

theorem procNumLine_code (hf : KeepsLabels format) (a : RenderArgs) :
    procNumLine a.nprocs <:+: readText (format (t.render a)) := by
  have hrender : procNumLine a.nprocs <:+: t.render a :=
    ⟨t.header ++ (a.labelComment placeholder1 placeholder2 ++ t.between a), t.rest a, by
      unfold CaseTemplate.render
      simp only [List.append_assoc]⟩
  exact procNumLine_readText (hf.procNum _ _ hrender)

theorem conflictLines_code (hf : KeepsLabels format) {a : RenderArgs}
    (htwo : (conflictLines (t.render a)).length = 2) :
    ∃ i j, conflictLines (readText (format (t.render a))) = [i, j] := by
  have hlines : conflictLines (readText (format (t.render a))) =
      conflictLines (format (t.render a)) := by
    unfold conflictLines
    rw [splitlines_readText]
  refine List.length_eq_two.1 ?_
  rw [hlines, hf.conflicts, htwo]

/-! ## Reading back -/

theorem accessSet_eq (a : RenderArgs) :
    a.accessSet = (opkind a.accessKind a.op1, opkind a.accessKind a.op2) := by
  unfold RenderArgs.accessSet
  cases a.accessKind <;> rfl

/-- A racy case recovers the kind that was passed to the template. -/
theorem recovers_race (hf : KeepsLabels format) {a : RenderArgs} (hr : a.race = true) (h : a.Clean)
    (htwo : (conflictLines (t.render a)).length = 2) :
    ∃ d, testInit (fillIn true (readText (format (t.render a)))) = some d ∧
      Recovers a.accessKind a.op1 a.op2 true a.nprocs
        (fillIn true (readText (format (t.render a)))) d := by
  have hcr := no_cr_readText (format (t.render a))
  have hproc := procNumLine_fillIn true (procNumLine_code (t := t) hf a)
  obtain ⟨i, j, hlines⟩ := conflictLines_code hf htwo
  obtain ⟨pre, rest, hpre, hcode⟩ := hf.comment.exists_code h t.no_cr t.no_marker
    (t.between a ++ (procNumLine a.nprocs ++ t.rest a))
  have htest := testInit_fillIn hr h hcr hpre hcode
  rw [raceLocs_eq hlines] at htest
  refine ⟨_, htest, ?_⟩
  constructor
  case hasRace => rfl
  case raceKind => rfl
  case nprocs => rfl
  case procNum => exact hproc
  case accessSet =>
    intro _
    rw [accessSet_eq]
  case locations =>
    intro _
    exact ⟨i, j, (conflictLines_fillIn true hcr).trans hlines, rfl, rfl, rfl⟩

/-- A case without a race has no use for the kind. -/
theorem recovers_noRace (hf : KeepsLabels format) {a : RenderArgs} (hr : a.race = false)
    (h : a.Clean) (k : AccessKind) :
    ∃ d, testInit (fillIn false (readText (format (t.render a)))) = some d ∧
      Recovers k a.op1 a.op2 false a.nprocs (fillIn false (readText (format (t.render a)))) d := by
  have hproc := procNumLine_fillIn false (procNumLine_code (t := t) hf a)
  have hread := readText_eq_self (no_cr_fillIn false (no_cr_readText (format (t.render a))))
  obtain ⟨pre, rest, hpre, hcode⟩ := hf.comment.exists_code h t.no_cr t.no_marker
    (t.between a ++ (procNumLine a.nprocs ++ t.rest a))
  -- the locations are not in the comment
  have hcomment : a.labelComment placeholder1 placeholder2 =
      a.labelComment (decimal 0) (decimal 0) := by
    unfold RenderArgs.labelComment RenderArgs.labelJson
    rw [hr]
    rfl
  have hcontent : readText (fillIn false (readText (format (t.render a)))) =
      pre ++ (a.labelComment (decimal 0) (decimal 0) ++ rest) := by
    rw [hread, ← hcomment, ← hcode]
    rfl
  have htest := RenderArgs.testInit_eq h (isLocation_decimal 0) (isLocation_decimal 0) hcontent hpre
  rw [RenderArgs.readLabels_noRace hr] at htest
  refine ⟨_, htest, ?_⟩
  constructor
  case hasRace => rfl
  case raceKind => rfl
  case nprocs => rfl
  case procNum => exact hproc
  case accessSet => exact fun hx => absurd hx Bool.false_ne_true
  case locations => exact fun hx => absurd hx Bool.false_ne_true

theorem CaseTemplate.basename_file (t : CaseTemplate) (dir : Text) :
    Text.basename (dir ++ '/' :: t.file) = t.file := by
  refine Text.basename_append ?_
  have hkind : '/' ∉ t.kind.word := by cases t.kind <;> decide
  unfold CaseTemplate.file
  simp only [Text.joinHyphen, List.mem_append, List.mem_cons, not_or]
  exact ⟨t.no_slash.1, by decide, hkind, by decide, t.no_slash.2⟩

/-- The word of the kind is in the name, so that a kind is found. -/
theorem CaseTemplate.exists_kind (t : CaseTemplate) (number : Nat) (op1 op2 : Option Operation)
    (hasRace : Bool) : ∃ k, accessKind (outFile t.file number (opName op1) (opName op2) hasRace) = some k := by
  have hmem : t.kind.word ∈ [t.before, t.kind.word, t.after] := by simp
  exact exists_accessKind (isIn_outFile_of_mem hmem number op1 op2 hasRace)

/-- The kind that is found is the one of the template unless another part shows the word `local`. -/
theorem CaseTemplate.accessKind_iff (t : CaseTemplate) (number : Nat) (op1 op2 : Option Operation)
    (hasRace : Bool) :
    accessKind (outFile t.file number (opName op1) (opName op2) hasRace) = some t.kind ↔
      t.kind = .local ∨
        ∀ p ∈ [t.before, t.after], ¬ "local".toList <:+: substitute op1 op2 hasRace p := by
  unfold CaseTemplate.file
  rw [accessKind_outFile_iff (by simp)]
  cases hk : t.kind with
  | «local» => exact iff_of_true (.inl rfl) (.inl rfl)
  | remote =>
    have hword : ¬ "local".toList <:+: substitute op1 op2 hasRace AccessKind.remote.word := by
      rw [substitute_word, ← Text.isIn_iff]
      decide
    simp only [List.mem_cons, List.not_mem_nil, or_false, forall_eq_or_imp, forall_eq, hword,
      not_false_eq_true, true_and]

theorem word_injective {k k' : AccessKind} (h : k.word = k'.word) : k = k' := by
  cases k <;> cases k' <;> first | rfl | exact absurd h (by decide)

/-- Reading back recovers what was asked for where the kind of the template is found. -/
theorem readBack_iff_accessKind (t : CaseTemplate) {format : Text → Text} (hf : KeepsLabels format)
    (dir : Text) (number : Nat) {op1 op2 : Option Operation} (h1 : ∀ op ∈ op1, CleanOperation op)
    (h2 : ∀ op ∈ op2, CleanOperation op) (hasRace : Bool) (nprocs : Nat) (threaded : Bool)
    (htwo : hasRace = true → ∀ a,
      renderArgs (dir ++ '/' :: t.file) number op1 op2 hasRace nprocs threaded = some a →
        (conflictLines (t.render a)).length = 2) :
    ReadBack t format dir number op1 op2 hasRace nprocs threaded ↔
      hasRace = false ∨
        accessKind (outFile t.file number (opName op1) (opName op2) hasRace) = some t.kind := by
  obtain ⟨k, hk⟩ := t.exists_kind number op1 op2 hasRace
  have hargs : renderArgs (dir ++ '/' :: t.file) number op1 op2 hasRace nprocs threaded =
      some ⟨op1, op2, hasRace, nprocs, k, threaded⟩ := by
    unfold renderArgs
    rw [t.basename_file, hk]
    rfl
  have hclean : RenderArgs.Clean ⟨op1, op2, hasRace, nprocs, k, threaded⟩ := clean_of_operations h1 h2
  rw [hk]
  unfold ReadBack renderTemplate
  rw [hargs]
  cases hasRace with
  | false =>
    obtain ⟨d, hd, hrec⟩ := recovers_noRace (t := t) hf (a := ⟨op1, op2, false, nprocs, k, threaded⟩)
      rfl hclean t.kind
    exact iff_of_true ⟨_, d, rfl, hd, hrec⟩ (.inl rfl)
  | true =>
    obtain ⟨d, hd, hrec⟩ := recovers_race (t := t) hf (a := ⟨op1, op2, true, nprocs, k, threaded⟩)
      rfl hclean (htwo rfl _ hargs)
    rw [or_iff_right Bool.true_eq_false_eq_False]
    constructor
    · intro h
      obtain ⟨content, d', hcontent, hd', hrec'⟩ := h
      obtain rfl := Option.some.inj hcontent
      obtain rfl : d = d' := Option.some.inj (hd.symm.trans hd')
      have hword := hrec.raceKind.symm.trans hrec'.raceKind
      rw [if_pos rfl, if_pos rfl] at hword
      exact congrArg some (word_injective (Json.str.inj hword))
    · intro h
      obtain rfl := Option.some.inj h
      exact ⟨_, d, rfl, hd, hrec⟩

theorem readBack_iff (t : CaseTemplate) {format : Text → Text} (hf : KeepsLabels format) (dir : Text)
    (number : Nat) {op1 op2 : Option Operation} (h1 : ∀ op ∈ op1, CleanOperation op)
    (h2 : ∀ op ∈ op2, CleanOperation op) (hasRace : Bool) (nprocs : Nat) (threaded : Bool)
    (htwo : hasRace = true → ∀ a,
      renderArgs (dir ++ '/' :: t.file) number op1 op2 hasRace nprocs threaded = some a →
        (conflictLines (t.render a)).length = 2) :
    ReadBack t format dir number op1 op2 hasRace nprocs threaded ↔
      hasRace = false ∨ t.kind = .local ∨
        ∀ p ∈ [t.before, t.after], ¬ "local".toList <:+: substitute op1 op2 hasRace p := by
  rw [readBack_iff_accessKind t hf dir number h1 h2 hasRace nprocs threaded htwo,
    t.accessKind_iff number op1 op2 hasRace]

/-! ## A template with another word -/

theorem keepsLabels_id : KeepsLabels id where
  comment := keepsComment_id
  conflicts := fun _ => rfl
  procNum := fun _ _ h => h

/-- `MPI-loop1-remote-race.c.j2`. -/
def loopTemplate : CaseTemplate where
  before := "MPI-loop1".toList
  kind := .remote
  after := "race.c.j2".toList
  no_word := by
    intro k
    rw [← Text.isIn_iff, ← Text.isIn_iff]
    cases k <;> decide
  no_slash := by decide
  header := []
  no_marker := no_marker_nil
  no_cr := no_cr_nil
  between := fun _ => []
  rest := fun a => "// CONFLICT\n".toList ++ (a.op1.elim [] fun op => op.code.toList) ++
    "\n// CONFLICT\n".toList ++ (a.op2.elim [] fun op => op.code.toList) ++ "\n".toList

def callOperation : Operation :=
  add "call" "call" "MPI_Win_call_errhandler" "load" "load" "MPI_Win_call_errhandler(win, 0);"

/-- With an operation `call`, the name `loop1` becomes `locall`. -/
theorem loopTemplate_not_readBack :
    KeepsLabels id ∧ CleanOperation callOperation ∧ CleanOperation mpirmaOperations[2] ∧
      (∀ k : AccessKind, ¬ k.word <:+: callOperation.name.toList ∧
        ¬ k.word <:+: mpirmaOperations[2].name.toList) ∧
      (∀ a, renderArgs ("templates/MPIRMA/misc".toList ++ '/' :: loopTemplate.file) 1
        (some callOperation) (some mpirmaOperations[2]) true 2 false = some a →
          (conflictLines (loopTemplate.render a)).length = 2) ∧
      ¬ ReadBack loopTemplate id "templates/MPIRMA/misc".toList 1 (some callOperation)
        (some mpirmaOperations[2]) true 2 false := by
  have hcall : CleanOperation callOperation := cleanOperation_of_all (by decide)
  have hput : CleanOperation mpirmaOperations[2] :=
    cleanOperation_of_registered .MPIRMA _ (List.getElem_mem _)
  have hargs : renderArgs ("templates/MPIRMA/misc".toList ++ '/' :: loopTemplate.file) 1
      (some callOperation) (some mpirmaOperations[2]) true 2 false =
        some ⟨some callOperation, some mpirmaOperations[2], true, 2, .local, false⟩ := rfl
  have htwo : ∀ a, renderArgs ("templates/MPIRMA/misc".toList ++ '/' :: loopTemplate.file) 1
      (some callOperation) (some mpirmaOperations[2]) true 2 false = some a →
        (conflictLines (loopTemplate.render a)).length = 2 := by
    intro a ha
    obtain rfl := Option.some.inj (hargs.symm.trans ha)
    decide +kernel
  refine ⟨keepsLabels_id, hcall, hput, ?_, htwo, ?_⟩
  · intro k
    rw [← Text.isIn_iff, ← Text.isIn_iff]
    cases k <;> decide
  · have hiff := readBack_iff_accessKind loopTemplate keepsLabels_id "templates/MPIRMA/misc".toList 1
      (fun op h => Option.some.inj h ▸ hcall) (fun op h => Option.some.inj h ▸ hput) true 2 false
      (fun _ => htwo)
    have hkind : accessKind (outFile loopTemplate.file 1 (opName (some callOperation))
        (opName (some mpirmaOperations[2])) true) = some .local := by decide
    rw [hiff, hkind]
    decide

/-- With the operations `put` and `get`, the name stays without the word. -/
theorem loopTemplate_readBack : ReadBack loopTemplate id "templates/MPIRMA/misc".toList 1
    (some mpirmaOperations[2]) (some mpirmaOperations[6]) true 2 false := by
  have hput : CleanOperation mpirmaOperations[2] :=
    cleanOperation_of_registered .MPIRMA _ (List.getElem_mem _)
  have hget : CleanOperation mpirmaOperations[6] :=
    cleanOperation_of_registered .MPIRMA _ (List.getElem_mem _)
  have hargs : renderArgs ("templates/MPIRMA/misc".toList ++ '/' :: loopTemplate.file) 1
      (some mpirmaOperations[2]) (some mpirmaOperations[6]) true 2 false =
        some ⟨some mpirmaOperations[2], some mpirmaOperations[6], true, 2, .remote, false⟩ := rfl
  refine (readBack_iff loopTemplate keepsLabels_id _ 1 (fun op h => Option.some.inj h ▸ hput)
    (fun op h => Option.some.inj h ▸ hget) true 2 false ?_).2 (.inr (.inr ?_))
  · intro _ a ha
    obtain rfl := Option.some.inj (hargs.symm.trans ha)
    decide +kernel
  · intro p hp
    rw [← Text.isIn_iff]
    obtain rfl | rfl : p = loopTemplate.before ∨ p = loopTemplate.after := by simpa using hp
    · decide
    · decide

end Generator
