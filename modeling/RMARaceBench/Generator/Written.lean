import RMARaceBench.Generator.LabelLines
import RMARaceBench.Generator.LabelRead

/-!
# The written file

`render_template` writes the rendered text, lets clang-format change the file, fills in the locations and
writes it again. `testInit_fillIn`: what `Test.__init__` reads from the labels of the written file.
-/

set_option autoImplicit false

namespace Generator

open Python
open Runner (decimal)

/-- The text that `render_template` leaves in the file, for what a template renders to and what clang-format
makes of a file. -/
def renderTemplate (render : RenderArgs → Text) (format : Text → Text) (templateFile : Text) (number : Nat)
    (op1 op2 : Option Operation) (hasRace : Bool) (nprocs : Nat) (threaded : Bool) : Option Text :=
  (renderArgs templateFile number op1 op2 hasRace nprocs threaded).map fun a =>
    fillIn hasRace (readText (format (render a)))

/-- What is assumed of clang-format: the label comment stays as it is, and it is still the first one. -/
def KeepsComment (format : Text → Text) : Prop :=
  ∀ (a : RenderArgs) (pre rest : Text), a.Clean → '\r' ∉ pre → ¬ beginMarker <:+: pre →
    ∃ pre' rest', '\r' ∉ pre' ∧ ¬ beginMarker <:+: pre' ∧
      format (pre ++ (a.labelComment placeholder1 placeholder2 ++ rest)) =
        pre' ++ (a.labelComment placeholder1 placeholder2 ++ rest')

/-! An empty text before the comment. -/

theorem no_marker_nil : ¬ beginMarker <:+: [] := by decide

theorem no_cr_nil : '\r' ∉ ([] : Text) := List.not_mem_nil

/-- clang-format as one that changes nothing. -/
theorem keepsComment_id : KeepsComment id := fun _ pre rest _ hcr hpre => ⟨pre, rest, hcr, hpre, rfl⟩

/-! ## The label comment -/

theorem cleanText_nil : CleanText [] :=
  ⟨fun _ hc => absurd hc List.not_mem_nil, by decide, by decide⟩

theorem clean_of_operations {a : RenderArgs} (h1 : ∀ op ∈ a.op1, CleanOperation op)
    (h2 : ∀ op ∈ a.op2, CleanOperation op) : a.Clean := by
  have hkind : ∀ (k : AccessKind) (op : Option Operation), (∀ o ∈ op, CleanOperation o) →
      CleanText (opkind k op).toList := by
    intro k op h
    cases op with
    | none => cases k <;> exact cleanText_nil
    | some op =>
      cases k with
      | «local» => exact (h op rfl).localOpkind
      | remote => exact (h op rfl).remoteOpkind
  have hcall : ∀ op : Option Operation, (∀ o ∈ op, CleanOperation o) → CleanText (callname op) := by
    intro op h
    cases op with
    | none => exact cleanText_nil
    | some op => exact (h op rfl).callname
  have hname : ∀ op : Option Operation, (∀ o ∈ op, CleanOperation o) → CleanText (opName op) := by
    intro op h
    cases op with
    | none => exact cleanText_nil
    | some op => exact (h op rfl).name
  have hset : CleanText a.accessSet.1.toList ∧ CleanText a.accessSet.2.toList := by
    unfold RenderArgs.accessSet
    split
    · exact ⟨hkind _ _ h1, hkind _ _ h2⟩
    · exact ⟨hkind _ _ h1, hkind _ _ h2⟩
  exact ⟨hset.1, hset.2, hcall _ h1, hcall _ h2, hname _ h1, hname _ h2⟩

theorem RenderArgs.Clean.no_cr_labelComment {a : RenderArgs} (h : a.Clean) :
    '\r' ∉ a.labelComment placeholder1 placeholder2 := by
  have hjson := RenderArgs.not_mem_labelJson (.inr rfl) h (by decide : '\r' ∉ placeholder1)
    (by decide : '\r' ∉ placeholder2)
  unfold labelComment
  exact List.not_mem_append (List.not_mem_append (List.not_mem_append (List.not_mem_append
    (by decide) (by decide)) hjson) (by decide)) (by decide)

/-! The registered operations. -/

/-- A check for texts without braces. -/
def isCleanText (s : Text) : Bool :=
  s.all fun c => c ≠ '"' ∧ c ≠ '\\' ∧ c ≠ '/' ∧ c ≠ '@' ∧ c ≠ '\r' ∧ c ≠ '\x7b'

theorem cleanText_of_isCleanText {s : Text} (h : isCleanText s = true) : CleanText s := by
  have hc : ∀ c ∈ s, c ≠ '"' ∧ c ≠ '\\' ∧ c ≠ '/' ∧ c ≠ '@' ∧ c ≠ '\r' ∧ c ≠ '\x7b' :=
    fun c hc => of_decide_eq_true (List.all_eq_true.1 h c hc)
  have hbrace : ∀ {o : Text}, ¬ '\x7b' :: o <:+: s := fun hi =>
    (hc _ (hi.subset List.mem_cons_self)).2.2.2.2.2 rfl
  constructor
  case chars =>
    intro c hm
    obtain ⟨h1, h2, h3, h4, h5, -⟩ := hc c hm
    exact ⟨h1, h2, h3, h4, h5⟩
  case placeholder1 => exact hbrace
  case placeholder2 => exact hbrace

theorem cleanOperation_of_all {op : Operation}
    (h : [op.name, op.callname, op.localOpkind, op.remoteOpkind].all (fun s => isCleanText s.toList) =
      true) : CleanOperation op := by
  have hs : ∀ s ∈ [op.name, op.callname, op.localOpkind, op.remoteOpkind], CleanText s.toList :=
    fun s hs => cleanText_of_isCleanText (List.all_eq_true.1 h s hs)
  exact ⟨hs _ (by simp), hs _ (by simp), hs _ (by simp), hs _ (by simp)⟩

/-- The registered operations have texts for the labels. -/
theorem cleanOperation_of_registered (m : Model) : ∀ op ∈ m.operations, CleanOperation op := by
  have hall : m.operations.all (fun op =>
      [op.name, op.callname, op.localOpkind, op.remoteOpkind].all fun s => isCleanText s.toList) =
        true := by
    cases m <;> decide +kernel
  exact fun op hop => cleanOperation_of_all (List.all_eq_true.1 hall op hop)

/-! ## Filling in -/

/-- What `render_template` reads after formatting. -/
theorem KeepsComment.exists_code {format : Text → Text} (hf : KeepsComment format) {a : RenderArgs}
    (h : a.Clean) {pre : Text} (hcr : '\r' ∉ pre) (hpre : ¬ beginMarker <:+: pre) (rest : Text) :
    ∃ pre' rest', ¬ beginMarker <:+: pre' ∧
      readText (format (pre ++ (a.labelComment placeholder1 placeholder2 ++ rest))) =
        pre' ++ (a.labelComment placeholder1 placeholder2 ++ rest') := by
  obtain ⟨pre', rest', hcr', hpre', hformat⟩ := hf a pre rest h hcr hpre
  refine ⟨pre', readText rest', hpre', ?_⟩
  rw [hformat, readText_append hcr', readText_append h.no_cr_labelComment]

theorem beginMarker_no_digit {c : Char} (hc : c.isDigit = true ∨ c = '-') : c ∉ beginMarker := by
  intro hm
  have hall : beginMarker.all (fun c => !(c.isDigit || c = '-')) = true := by decide
  have := List.all_eq_true.1 hall c hm
  obtain hd | rfl := hc
  · rw [hd] at this
    cases this
  · cases this

/-- No begin marker is made in front of the comment. -/
theorem not_beginMarker_replace {old : Text} (ho : old ≠ []) (how : ∀ c ∈ old, c ∉ beginMarker)
    (n : Int) {pre : Text} (h : ¬ beginMarker <:+: pre) :
    ¬ beginMarker <:+: pre.replace old (decimal n) := by
  rwa [infix_replace (by decide) ho (decimal_ne_nil n) how
    fun c hc => beginMarker_no_digit (mem_decimal hc)]

/-- The written text of a racy case, around the filled label comment. -/
theorem fillIn_labelComment {a : RenderArgs} (hr : a.race = true) (h : a.Clean) {code pre rest : Text}
    (hpre : ¬ beginMarker <:+: pre)
    (hcode : code = pre ++ (a.labelComment placeholder1 placeholder2 ++ rest)) :
    ∃ pre' rest', ¬ beginMarker <:+: pre' ∧ fillIn true code =
      pre' ++ (a.labelComment (decimal (raceLocs code).1) (decimal (raceLocs code).2) ++ rest') := by
  have how : ∀ old ∈ [placeholder1, placeholder2], ∀ c ∈ old, c ∉ beginMarker := by
    have hall : [placeholder1, placeholder2].all (fun old => old.all fun c => c ∉ beginMarker) =
        true := by decide
    intro old hold c hc
    exact of_decide_eq_true (List.all_eq_true.1 (List.all_eq_true.1 hall old hold) c hc)
  have hpre1 := not_beginMarker_replace (by decide) (how placeholder1 (by simp)) (raceLocs code).1 hpre
  have hpre2 := not_beginMarker_replace (by decide) (how placeholder2 (by simp)) (raceLocs code).2 hpre1
  have hloc := (isLocation_decimal (raceLocs code).1).brace
  refine ⟨_, (rest.replace placeholder1 (decimal (raceLocs code).1)).replace placeholder2
    (decimal (raceLocs code).2), hpre2, ?_⟩
  unfold fillIn
  rw [if_pos rfl]
  generalize raceLocs code = locs at hloc ⊢
  rw [hcode, RenderArgs.replace_around (by decide) (by decide) (by decide),
    RenderArgs.replace_labelComment1 hr h, RenderArgs.replace_around (by decide) (by decide) (by decide),
    RenderArgs.replace_labelComment2 hr h hloc]

/-- What is read back from the written text of a racy case. -/
theorem testInit_fillIn {a : RenderArgs} (hr : a.race = true) (h : a.Clean) {code pre rest : Text}
    (hcr : '\r' ∉ code) (hpre : ¬ beginMarker <:+: pre)
    (hcode : code = pre ++ (a.labelComment placeholder1 placeholder2 ++ rest)) :
    testInit (fillIn true code) =
      some
        { raceKind := .str a.accessKind.word
          hasRace := true
          accessSet := some (.arr [.str a.accessSet.1.toList, .str a.accessSet.2.toList])
          racePair := some (.arr
            [.str (callname a.op1 ++ '@' :: decimal (raceLocs code).1),
              .str (callname a.op2 ++ '@' :: decimal (raceLocs code).2)])
          raceLoc1 := some (raceLocs code).1
          raceLoc2 := some (raceLocs code).2
          description := .str a.description
          nprocs := .int a.nprocs } := by
  obtain ⟨pre', rest', hpre', hfill⟩ := fillIn_labelComment hr h hpre hcode
  have h1 := isLocation_decimal (raceLocs code).1
  have h2 := isLocation_decimal (raceLocs code).2
  have hread := readText_eq_self (no_cr_fillIn true hcr)
  rw [RenderArgs.testInit_eq h h1 h2 (hread.trans hfill) hpre', RenderArgs.readLabels_race hr h h1 h2]
  rfl

end Generator
