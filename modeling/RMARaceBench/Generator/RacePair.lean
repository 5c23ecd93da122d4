import Mathlib.Data.List.Forall2
import RMARaceBench.Generator.MarkedTemplates
import RMARaceBench.Generator.Performs

/-!
# The race pair and the statements it names

`racePair_points_iff`: in the written file, the locations of `RACE_PAIR` are the statements that perform the two
operations if and only if the template marks two codes, the first one begins with the statement of the first
operation and the second one with that of the second.
-/

set_option autoImplicit false

namespace Generator

open Python
open Runner (decimal)

/-! ## Lines of a file -/

/-- The lines from the index `k` on, as one text. -/
def linesFrom (code : Text) (k : Nat) : Text := ((splitlines code).drop k).flatMap fun line => line ++ ['\n']

/-- The line shows something. -/
def NotBlank (line : Text) : Prop := ∃ c ∈ line, isSpace c = false

/-- The line `loc`, counted from 1, is the first line of a statement that performs the operation. -/
def PointsAt (content : Text) (loc : Nat) (op : Operation) : Prop :=
  1 ≤ loc ∧ (∃ line, (splitlines content)[loc - 1]? = some line ∧ NotBlank line) ∧
    performs op (words (linesFrom content (loc - 1))) = true

/-- The race pair that is read from the written file points at the operations that it names. -/
def PairPoints (t : KeptTemplate) (s : Surroundings) (format : Text → Text) (number : Nat)
    (op1 op2 : Operation) (nprocs : Nat) (threaded : Bool) : Prop :=
  ∃ content d loc1 loc2,
    renderTemplate (t.render s op1 op2) format t.file number (some op1) (some op2) true nprocs threaded =
      some content ∧
    testInit content = some d ∧
    d.racePair = some (.arr [.str (op1.callname.toList ++ '@' :: Nat.toDigits 10 loc1),
      .str (op2.callname.toList ++ '@' :: Nat.toDigits 10 loc2)]) ∧
    PointsAt content loc1 op1 ∧ PointsAt content loc2 op2

/-! ## What is assumed -/

/-- The code behind the `i`-th line: it begins on the next line and differs in its blanks only. -/
def Follows (code : Text) (i : Nat) (piece : Text) : Prop :=
  (∃ line, (splitlines code)[i + 1]? = some line ∧ NotBlank line) ∧
    ∃ u v, linesFrom code (i + 1) = u ++ '\n' :: v ∧ words u = words piece

/-- clang-format keeps each marker on its own line, directly above the first line of the code that it
marks. -/
def KeepsMarkers (format : Text → Text) (rendered : Text) (pieces : List Text) : Prop :=
  List.Forall₂ (Follows (format rendered)) (conflictLines (format rendered)) pieces

/-- A code with a statement, which does not use the words of the placeholders. -/
structure IsStatement (piece : Text) : Prop where
  semicolon : [';'] ∈ words piece
  loc1 : "race_loc1".toList ∉ words piece
  loc2 : "race_loc2".toList ∉ words piece

/-- The marked codes begin with the statements of the two operations, in their order. -/
def KeptTemplate.Names (t : KeptTemplate) (op1 op2 : Operation) : Prop :=
  ∃ m1 m2, t.marked = [m1, m2] ∧ performs op1 (words (m1.render op1 op2)) = true ∧
    performs op2 (words (m2.render op1 op2)) = true

/-! ## Filling in the lines -/

/-- The two replacements in a part of the text. -/
def fillText (locs : Int × Int) (s : Text) : Text :=
  (s.replace placeholder1 (decimal locs.1)).replace placeholder2 (decimal locs.2)

theorem splitlines_fillIn {code : Text} (hr : '\r' ∉ code) :
    splitlines (fillIn true code) = (splitlines code).map (fillText (raceLocs code)) := by
  have hr1 := no_cr_replace isMark1.ne_nil (raceLocs code).1 hr
  unfold fillIn
  rw [if_pos rfl, splitlines_replace isMark2.ne_nil isMark2.noBreak (decimal_ne_nil _) (noBreak_decimal _) hr1,
    splitlines_replace isMark1.ne_nil isMark1.noBreak (decimal_ne_nil _) (noBreak_decimal _) hr, List.map_map]
  rfl

theorem fillText_append (locs : Int × Int) (u v : Text) :
    fillText locs (u ++ '\n' :: v) = fillText locs u ++ '\n' :: fillText locs v := by
  unfold fillText
  rw [Text.replace_append_cons _ (by decide) isMark1.ne_nil,
    Text.replace_append_cons _ (by decide) isMark2.ne_nil]

theorem linesFrom_fillIn {code : Text} (hr : '\r' ∉ code) (k : Nat) :
    linesFrom (fillIn true code) k = fillText (raceLocs code) (linesFrom code k) := by
  unfold linesFrom
  rw [splitlines_fillIn hr, ← List.map_drop]
  generalize raceLocs code = locs
  induction (splitlines code).drop k with
  | nil => rfl
  | cons line lines ih =>
    have hline : line ++ ['\n'] ++ lines.flatMap (fun line => line ++ ['\n']) =
        line ++ '\n' :: lines.flatMap (fun line => line ++ ['\n']) := by
      rw [List.append_assoc, List.singleton_append]
    rw [List.map_cons, List.flatMap_cons, List.flatMap_cons, hline, fillText_append, ih, List.append_assoc,
      List.singleton_append]

/-- A code without the words of the placeholders is left alone. -/
theorem fillText_eq_self (locs : Int × Int) {u : Text} (h1 : "race_loc1".toList ∉ words u)
    (h2 : "race_loc2".toList ∉ words u) : fillText locs u = u := by
  have hp1 : ¬ placeholder1 <:+: u := fun h => h1 (mem_words_of_braces (by decide) h)
  have hp2 : ¬ placeholder2 <:+: u := fun h => h2 (mem_words_of_braces (by decide) h)
  unfold fillText
  rw [Text.replace_eq_self _ hp1, Text.replace_eq_self _ hp2]

theorem notBlank_replace {old : Text} (ho : old ≠ []) (n : Int) {line : Text} (h : NotBlank line) :
    NotBlank (line.replace old (decimal n)) := by
  refine Text.replace_cases (motive := fun s s' => NotBlank s → NotBlank s') ho (fun _ h => h) ?_ line h
  intro a b b' ih h
  obtain ⟨c, hc⟩ := List.exists_mem_of_ne_nil _ (decimal_ne_nil n)
  have hsolid : isSpace c = false := by
    obtain hd | rfl := mem_decimal hc
    · exact not_isSpace_of_isWord (by simp [isWord, Char.isAlphanum, hd])
    · rfl
  exact ⟨c, List.mem_append_right _ (List.mem_append_left _ hc), hsolid⟩

/-! ## One marker -/

/-- Behind a marker, the written file performs what the marked code performs. -/
theorem Follows.performs_eq {code : Text} (hr : '\r' ∉ code) {i : Nat} {piece : Text}
    (h : Follows code i piece) (hp : IsStatement piece) (op : Operation) :
    performs op (words (linesFrom (fillIn true code) (i + 1))) = performs op (words piece) := by
  obtain ⟨-, u, v, htext, hwords⟩ := h
  have h1 : "race_loc1".toList ∉ words u := hwords ▸ hp.loc1
  have h2 : "race_loc2".toList ∉ words u := hwords ▸ hp.loc2
  rw [linesFrom_fillIn hr, htext, fillText_append, fillText_eq_self _ h1 h2, words_append (by decide), hwords,
    performs_append op hp.semicolon]

theorem Follows.pointsAt_iff {code : Text} (hr : '\r' ∉ code) {i : Nat} {piece : Text}
    (h : Follows code i piece) (hp : IsStatement piece) (op : Operation) :
    PointsAt (fillIn true code) (i + 2) op ↔ performs op (words piece) = true := by
  have hperforms := h.performs_eq hr hp op
  obtain ⟨⟨line, hline, hsolid⟩, -⟩ := h
  have hfilled : (splitlines (fillIn true code))[i + 1]? = some (fillText (raceLocs code) line) := by
    rw [splitlines_fillIn hr, List.getElem?_map, hline]
    rfl
  have hnot : NotBlank (fillText (raceLocs code) line) :=
    notBlank_replace isMark2.ne_nil _ (notBlank_replace isMark1.ne_nil _ hsolid)
  unfold PointsAt
  rw [show i + 2 - 1 = i + 1 from rfl, hperforms]
  constructor
  · intro hpoints
    exact hpoints.2.2
  · intro hperf
    exact ⟨Nat.succ_pos _, ⟨_, hfilled, hnot⟩, hperf⟩

/-! ## The race pair -/

theorem toDigits_injective {n m : Nat} (h : Nat.toDigits 10 n = Nat.toDigits 10 m) : n = m := by
  have hn := Nat.ofDigitChars_toDigits (b := 10) (n := n) (by decide) (by decide)
  have hm := Nat.ofDigitChars_toDigits (b := 10) (n := m) (by decide) (by decide)
  rw [← hn, h, hm]

/-- Without a marker, the location is no line. -/
theorem toDigits_ne_decimal (n : Nat) : Nat.toDigits 10 n ≠ decimal (-1) := by
  intro h
  have hm : '-' ∈ Nat.toDigits 10 n := by
    rw [h]
    exact List.mem_cons_self
  exact absurd (Json.toDigits_isDigit n _ hm) (by decide)

theorem pair_injective {t1 t2 u1 u2 v1 v2 : Text}
    (h : some (Json.arr [.str (t1 ++ '@' :: u1), .str (t2 ++ '@' :: u2)]) =
      some (Json.arr [.str (t1 ++ '@' :: v1), .str (t2 ++ '@' :: v2)])) : u1 = v1 ∧ u2 = v2 := by
  obtain ⟨h1, hrest⟩ := List.cons_eq_cons.1 (Json.arr.inj (Option.some.inj h))
  obtain ⟨h2, -⟩ := List.cons_eq_cons.1 hrest
  exact ⟨(List.cons_eq_cons.1 (List.append_cancel_left (Json.str.inj h1))).2,
    (List.cons_eq_cons.1 (List.append_cancel_left (Json.str.inj h2))).2⟩

theorem Follows.of_readText {code : Text} {i : Nat} {piece : Text} (h : Follows code i piece) :
    Follows (readText code) i piece := by
  unfold Follows linesFrom
  rw [splitlines_readText]
  exact h

theorem renderArgs_eq {templateFile : Text} {number : Nat} {op1 op2 : Option Operation} {hasRace : Bool}
    {nprocs : Nat} {threaded : Bool} {a : RenderArgs}
    (h : renderArgs templateFile number op1 op2 hasRace nprocs threaded = some a) :
    a.op1 = op1 ∧ a.op2 = op2 ∧ a.race = hasRace := by
  unfold renderArgs at h
  obtain ⟨k, -, rfl⟩ := Option.map_eq_some_iff.1 h
  exact ⟨rfl, rfl, rfl⟩

theorem basename_of_hyphened (x : Text) (k : AccessKind) {y : Text} (hy : '/' ∉ y) :
    hyphened k <:+: Text.basename (x ++ (hyphened k ++ y)) := by
  have hslash : ∀ c ∈ (hyphened k ++ y).reverse, decide (c ≠ '/') = true := by
    have hk : '/' ∉ hyphened k := by cases k <;> decide
    intro c hc
    rw [List.mem_reverse] at hc
    rw [decide_eq_true_iff]
    rintro rfl
    exact List.not_mem_append hk hy hc
  unfold Text.basename
  rw [List.reverse_append, List.takeWhile_append_of_pos hslash, List.reverse_append, List.reverse_reverse]
  exact ⟨_, y, by rw [List.append_assoc]⟩

/-- Every template has no marker, or two of them and a kind in its name. -/
theorem keptTemplates_cases {t : KeptTemplate} (ht : t ∈ keptTemplates) :
    t.marked = [] ∨ (∃ m1 m2, t.marked = [m1, m2]) ∧ ∃ k, hyphened k <:+: t.file.basename := by
  have hall : keptTemplates.all (fun t => t.marked.isEmpty ||
      (t.marked.length == 2 && t.kind.isSome && !t.ending.toList.contains '/')) = true := by
    decide +kernel
  have h := List.all_eq_true.1 hall t ht
  simp only [Bool.or_eq_true, Bool.and_eq_true, List.isEmpty_iff, beq_iff_eq, Option.isSome_iff_exists,
    Bool.not_eq_true', List.contains_eq_mem, decide_eq_false_iff_not] at h
  obtain hnil | ⟨⟨hlen, k, hk⟩, hy⟩ := h
  · exact .inl hnil
  · refine .inr ⟨List.length_eq_two.1 hlen, k, ?_⟩
    have hfile : t.file = "templates/".toList ++ t.stem.toList ++ (hyphened k ++ t.ending.toList) := by
      unfold KeptTemplate.file
      rw [hk, List.append_assoc]
      rfl
    rw [hfile]
    exact basename_of_hyphened _ k hy

/-- A file is written for a template with a kind in its name. -/
theorem exists_renderArgs {templateFile : Text} {k : AccessKind} (hk : hyphened k <:+: templateFile.basename)
    (number : Nat) (op1 op2 : Option Operation) (hasRace : Bool) (nprocs : Nat) (threaded : Bool) :
    ∃ a, renderArgs templateFile number op1 op2 hasRace nprocs threaded = some a := by
  obtain ⟨x, y, hxy⟩ := hk
  have hjoin : templateFile.basename = Text.joinHyphen [x, k.word, y] := by
    rw [← hxy]
    simp only [hyphened, Text.joinHyphen, List.append_assoc, List.cons_append, List.nil_append]
  have hmem : k.word ∈ [x, k.word, y] := by simp
  obtain ⟨k', hk'⟩ := exists_accessKind (isIn_outFile_of_mem hmem number op1 op2 hasRace)
  unfold renderArgs
  rw [hjoin, hk']
  exact ⟨_, rfl⟩

/-! ## Templates -/

section

variable {t : KeptTemplate} {s : Surroundings} {format : Text → Text} {number : Nat} {op1 op2 : Operation}
  {nprocs : Nat} {threaded : Bool}

/-- The race pair that is read from the written file. -/
theorem racePair_written (hf : KeepsComment format) (h1 : CleanOperation op1) (h2 : CleanOperation op2)
    {a : RenderArgs}
    (ha : renderArgs t.file number (some op1) (some op2) true nprocs threaded = some a) :
    ∃ d, testInit (fillIn true (readText (format (t.render s op1 op2 a)))) = some d ∧
      d.racePair = some (.arr
        [.str (op1.callname.toList ++
            '@' :: decimal (raceLocs (readText (format (t.render s op1 op2 a)))).1),
          .str (op2.callname.toList ++
            '@' :: decimal (raceLocs (readText (format (t.render s op1 op2 a)))).2)]) := by
  obtain ⟨hop1, hop2, hrace⟩ := renderArgs_eq ha
  have hclean : a.Clean := by
    apply clean_of_operations
    · rw [hop1]
      exact fun op h => Option.some.inj h ▸ h1
    · rw [hop2]
      exact fun op h => Option.some.inj h ▸ h2
  obtain ⟨pre, rest, hpre, hcode⟩ := hf.exists_code hclean s.no_cr s.no_marker
    (s.body a 0 (t.pieces op1 op2))
  have htest := testInit_fillIn hrace hclean (no_cr_readText _) hpre hcode
  rw [hop1, hop2] at htest
  exact ⟨_, htest, rfl⟩

theorem conflictLines_readText (text : Text) : conflictLines (readText text) = conflictLines text := by
  unfold conflictLines
  rw [splitlines_readText]

/-- A template without markers gets no locations. -/
theorem not_pairPoints_of_nil (hf : KeepsComment format) (h1 : CleanOperation op1)
    (h2 : CleanOperation op2) (hmarked : t.marked = [])
    (hmarks : ∀ a, renderArgs t.file number (some op1) (some op2) true nprocs threaded = some a →
      KeepsMarkers format (t.render s op1 op2 a) (t.pieces op1 op2)) :
    ¬ PairPoints t s format number op1 op2 nprocs threaded := by
  intro h
  obtain ⟨content, d, loc1, loc2, hcontent, htest, hpair, -, -⟩ := h
  obtain ⟨a, ha, rfl⟩ := Option.map_eq_some_iff.1 hcontent
  obtain ⟨d', htest', hpair'⟩ := racePair_written (s := s) hf h1 h2 ha
  obtain rfl : d = d' := Option.some.inj (htest.symm.trans htest')
  have hlines : conflictLines (readText (format (t.render s op1 op2 a))) = [] := by
    have hkeeps := hmarks a ha
    unfold KeepsMarkers KeptTemplate.pieces at hkeeps
    rw [hmarked] at hkeeps
    rw [conflictLines_readText]
    exact List.forall₂_nil_right_iff.1 hkeeps
  rw [raceLocs_of_nil hlines] at hpair'
  exact toDigits_ne_decimal loc1 (pair_injective (hpair.symm.trans hpair')).1

/-- With two markers, the race pair points at the operations where the marked codes perform them. -/
theorem pairPoints_iff_of_pair (hf : KeepsComment format) (h1 : CleanOperation op1)
    (h2 : CleanOperation op2) {m1 m2 : Marked} (hmarked : t.marked = [m1, m2])
    (hstmt : ∀ piece ∈ t.pieces op1 op2, IsStatement piece)
    (hmarks : ∀ a, renderArgs t.file number (some op1) (some op2) true nprocs threaded = some a →
      KeepsMarkers format (t.render s op1 op2 a) (t.pieces op1 op2)) {a : RenderArgs}
    (ha : renderArgs t.file number (some op1) (some op2) true nprocs threaded = some a) :
    PairPoints t s format number op1 op2 nprocs threaded ↔
      performs op1 (words (m1.render op1 op2)) = true ∧
        performs op2 (words (m2.render op1 op2)) = true := by
  have hpieces : t.pieces op1 op2 = [m1.render op1 op2, m2.render op1 op2] := by
    unfold KeptTemplate.pieces
    rw [hmarked]
    rfl
  have hcr := no_cr_readText (format (t.render s op1 op2 a))
  have hkeeps := hmarks a ha
  unfold KeepsMarkers at hkeeps
  rw [hpieces] at hkeeps hstmt
  obtain ⟨i, rest, hf1, hrest, hlines⟩ := List.forall₂_cons_right_iff.1 hkeeps
  obtain ⟨j, rest, hf2, hnil, rfl⟩ := List.forall₂_cons_right_iff.1 hrest
  obtain rfl := List.forall₂_nil_right_iff.1 hnil
  have hpoints1 := hf1.of_readText.pointsAt_iff hcr (hstmt _ (by simp)) op1
  have hpoints2 := hf2.of_readText.pointsAt_iff hcr (hstmt _ (by simp)) op2
  rw [← conflictLines_readText] at hlines
  obtain ⟨d, htest, hpair⟩ := racePair_written (s := s) hf h1 h2 ha
  rw [raceLocs_eq hlines] at hpair
  have hcontent : renderTemplate (t.render s op1 op2) format t.file number (some op1) (some op2) true nprocs
      threaded = some (fillIn true (readText (format (t.render s op1 op2 a)))) := by
    unfold renderTemplate
    rw [ha]
    rfl
  rw [← hpoints1, ← hpoints2]
  constructor
  · intro h
    obtain ⟨content, d', loc1, loc2, hcontent', htest', hpair', hp1, hp2⟩ := h
    obtain rfl := Option.some.inj (hcontent.symm.trans hcontent')
    obtain rfl : d = d' := Option.some.inj (htest.symm.trans htest')
    obtain ⟨hl1, hl2⟩ := pair_injective (hpair'.symm.trans hpair)
    obtain rfl : loc1 = i + 2 := toDigits_injective hl1
    obtain rfl : loc2 = j + 2 := toDigits_injective hl2
    exact ⟨hp1, hp2⟩
  · intro h
    exact ⟨_, d, i + 2, j + 2, hcontent, htest, hpair, h.1, h.2⟩

theorem racePair_points_iff (ht : t ∈ keptTemplates) (hf : KeepsComment format)
    (h1 : CleanOperation op1) (h2 : CleanOperation op2)
    (hstmt : ∀ piece ∈ t.pieces op1 op2, IsStatement piece)
    (hmarks : ∀ a, renderArgs t.file number (some op1) (some op2) true nprocs threaded = some a →
      KeepsMarkers format (t.render s op1 op2 a) (t.pieces op1 op2)) :
    PairPoints t s format number op1 op2 nprocs threaded ↔ t.Names op1 op2 := by
  obtain hnil | ⟨⟨m1, m2, hmarked⟩, k, hk⟩ := keptTemplates_cases ht
  · refine iff_of_false (not_pairPoints_of_nil hf h1 h2 hnil hmarks) ?_
    intro h
    obtain ⟨m1, m2, hmarked, -⟩ := h
    rw [hnil] at hmarked
    cases hmarked
  · obtain ⟨a, ha⟩ := exists_renderArgs hk number (some op1) (some op2) true nprocs threaded
    rw [pairPoints_iff_of_pair hf h1 h2 hmarked hstmt hmarks ha]
    unfold KeptTemplate.Names
    constructor
    · intro h
      exact ⟨m1, m2, hmarked, h.1, h.2⟩
    · intro h
      obtain ⟨m1', m2', hmarked', hp1, hp2⟩ := h
      rw [hmarked] at hmarked'
      cases hmarked'
      exact ⟨hp1, hp2⟩

end

/-! ## A template that marks the second operation first -/

theorem notBlank_of_words {line : Text} (h : words line ≠ []) : NotBlank line := by
  by_contra hblank
  refine h (words_eq_nil fun c hc => ?_)
  cases hs : isSpace c with
  | true => rfl
  | false => exact absurd ⟨c, hc, hs⟩ hblank

/-- A statement on one line behind its marker. -/
theorem Follows.of_line {code piece : Text} {i : Nat}
    (h : (splitlines code)[i + 1]?.map words = some (words piece)) (hne : words piece ≠ []) :
    Follows code i piece := by
  obtain ⟨line, hline, hwords⟩ := Option.map_eq_some_iff.1 h
  have hsolid : NotBlank line := notBlank_of_words (hwords ▸ hne)
  refine ⟨⟨line, hline, hsolid⟩, line, linesFrom code (i + 2), ?_, hwords⟩
  obtain ⟨hlt, hget⟩ := List.getElem?_eq_some_iff.1 hline
  unfold linesFrom
  rw [List.drop_eq_getElem_cons hlt, List.flatMap_cons, hget, List.append_assoc, List.singleton_append]

/-- A text whose markers have their statements on the next lines, under a clang-format that changes nothing. -/
theorem keepsMarkers_of_lines {text : Text} {pieces : List Text}
    (h : (conflictLines text).map (fun i => (splitlines text)[i + 1]?.map words) =
      pieces.map fun piece => some (words piece)) (hstmt : ∀ piece ∈ pieces, IsStatement piece) :
    KeepsMarkers id text pieces := by
  have hne : ∀ piece ∈ pieces, words piece ≠ [] := fun piece hp =>
    List.ne_nil_of_mem (hstmt piece hp).semicolon
  clear hstmt
  show List.Forall₂ (Follows text) (conflictLines text) pieces
  generalize conflictLines text = lines at h ⊢
  induction lines generalizing pieces with
  | nil =>
    rw [List.map_nil] at h
    rw [List.map_eq_nil_iff.1 h.symm]
    exact .nil
  | cons i lines ih =>
    obtain ⟨piece, rest, rfl, hpiece, hrest⟩ := List.map_eq_cons_iff.1 h.symm
    exact .cons (.of_line hpiece.symm (hne piece List.mem_cons_self))
      (ih (fun p hp => hne p (List.mem_cons_of_mem _ hp)) hrest.symm)

/-- What `GASPI-misc-op1-op2-deep-nesting-remote-race.c.j2` renders around its markers, without the other
functions. -/
def nesting : Surroundings where
  header := []
  no_marker := no_marker_nil
  no_cr := no_cr_nil
  gap k _ :=
    if k = 0 then "\nvoid deeeeeeeeep(int* remote_data) \x7b\n    ".toList
    else if k = 1 then "\n\x7d\n    \x7d else \x7b\n        ".toList
    else "\n    \x7d\n".toList
  indent k := if k = 0 then 4 else 8

def nestingTemplate : KeptTemplate :=
  ⟨"GASPI/misc/GASPI-misc-op1-op2-deep-nesting", some .remote, "race.c.j2", .GASPI, [.code .op2, .code .op1]⟩

theorem isStatement_of_words {piece : Text}
    (h : ((words piece).contains [';'] && !(words piece).contains "race_loc1".toList &&
      !(words piece).contains "race_loc2".toList) = true) : IsStatement piece := by
  simp only [Bool.and_eq_true, Bool.not_eq_true', List.contains_eq_mem, decide_eq_true_eq,
    decide_eq_false_iff_not] at h
  exact ⟨h.1.1, h.1.2, h.2⟩

theorem isStatement_read : IsStatement gaspiOperations[6].code.toList :=
  isStatement_of_words (by decide +kernel)

theorem isStatement_remoteStore : IsStatement gaspiOperations[3].code.toList :=
  isStatement_of_words (by decide +kernel)

/-- The function with the store is marked first, and the pair begins with the read. -/
theorem nesting_not_pairPoints :
    nestingTemplate ∈ keptTemplates ∧ KeepsComment id ∧ CleanOperation gaspiOperations[6] ∧
      CleanOperation gaspiOperations[3] ∧
      (∀ piece ∈ nestingTemplate.pieces gaspiOperations[6] gaspiOperations[3], IsStatement piece) ∧
      (∀ a, renderArgs nestingTemplate.file 1 (some gaspiOperations[6]) (some gaspiOperations[3]) true 2
          false = some a →
        KeepsMarkers id (nestingTemplate.render nesting gaspiOperations[6] gaspiOperations[3] a)
          (nestingTemplate.pieces gaspiOperations[6] gaspiOperations[3])) ∧
      ¬ PairPoints nestingTemplate nesting id 1 gaspiOperations[6] gaspiOperations[3] 2 false := by
  have hmem : nestingTemplate ∈ keptTemplates := by decide
  have hread : CleanOperation gaspiOperations[6] :=
    cleanOperation_of_registered .GASPI _ (List.getElem_mem _)
  have hstore : CleanOperation gaspiOperations[3] :=
    cleanOperation_of_registered .GASPI _ (List.getElem_mem _)
  have hstmt : ∀ piece ∈ nestingTemplate.pieces gaspiOperations[6] gaspiOperations[3],
      IsStatement piece :=
    List.forall_mem_cons.2 ⟨isStatement_remoteStore, List.forall_mem_singleton.2 isStatement_read⟩
  have hargs : renderArgs nestingTemplate.file 1 (some gaspiOperations[6]) (some gaspiOperations[3]) true 2
      false = some ⟨some gaspiOperations[6], some gaspiOperations[3], true, 2, .remote, false⟩ := by
    rfl
  have hmarks : ∀ a, renderArgs nestingTemplate.file 1 (some gaspiOperations[6]) (some gaspiOperations[3])
      true 2 false = some a →
        KeepsMarkers id (nestingTemplate.render nesting gaspiOperations[6] gaspiOperations[3] a)
          (nestingTemplate.pieces gaspiOperations[6] gaspiOperations[3]) := by
    intro a ha
    obtain rfl := Option.some.inj (hargs.symm.trans ha)
    exact keepsMarkers_of_lines (by decide +kernel) hstmt
  refine ⟨hmem, keepsComment_id, hread, hstore, hstmt, hmarks, ?_⟩
  rw [pairPoints_iff_of_pair keepsComment_id hread hstore rfl hstmt hmarks hargs]
  intro h
  exact absurd h.1 (by decide +kernel)

def conflictTemplate : KeptTemplate :=
  ⟨"GASPI/conflict/GASPI-conflict-op1-op2", some .remote, "race.c.j2", .GASPI, codes⟩

/-- In the order of the operations, the pair points at both. -/
theorem conflict_pairPoints :
    PairPoints conflictTemplate nesting id 1 gaspiOperations[6] gaspiOperations[3] 2 false := by
  have hread : CleanOperation gaspiOperations[6] :=
    cleanOperation_of_registered .GASPI _ (List.getElem_mem _)
  have hstore : CleanOperation gaspiOperations[3] :=
    cleanOperation_of_registered .GASPI _ (List.getElem_mem _)
  have hstmt : ∀ piece ∈ conflictTemplate.pieces gaspiOperations[6] gaspiOperations[3],
      IsStatement piece :=
    List.forall_mem_cons.2 ⟨isStatement_read, List.forall_mem_singleton.2 isStatement_remoteStore⟩
  have hargs : renderArgs conflictTemplate.file 1 (some gaspiOperations[6]) (some gaspiOperations[3]) true 2
      false = some ⟨some gaspiOperations[6], some gaspiOperations[3], true, 2, .remote, false⟩ := by
    rfl
  refine (racePair_points_iff (s := nesting) (by decide) keepsComment_id hread hstore hstmt ?_).2
    ⟨.code .op1, .code .op2, rfl, by decide +kernel, by decide +kernel⟩
  intro a ha
  obtain rfl := Option.some.inj (hargs.symm.trans ha)
  exact keepsMarkers_of_lines (by decide +kernel) hstmt

end Generator
