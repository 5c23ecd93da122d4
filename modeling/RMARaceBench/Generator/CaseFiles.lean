import RMARaceBench.Generator.Combinations
import RMARaceBench.Generator.Kind
import RMARaceBench.Runner.Tools

/-!
# The files of the cases

Where `render_template` writes a case: the directory of the template without `templates/`, and a name
that starts with the number of the case and ends with the word for its flag.

* `number_of_outFile`: names with the same number part have the same number.
* `Placed.outPath`, `Placed.yes_iff`, `Placed.no_iff`: directory and ending of a written file.
-/

set_option autoImplicit false

namespace Generator

open Runner (joinPath)

/-! ## `render_template` -/

/-- `os.path.split(path)[0]`. -/
def Text.dirname (path : Text) : Text :=
  let head := (path.reverse.dropWhile (· ≠ '/')).reverse
  if head.all (· = '/') then head else (head.reverse.dropWhile (· = '/')).reverse

namespace RenderCall

variable (c : RenderCall)

/-- `out_path`. -/
def outPath : Text := (Text.dirname c.templateFile.toList).replace "templates/".toList []

/-- `out_file`. -/
def outFile : Text :=
  Generator.outFile (Text.basename c.templateFile.toList) c.number (opName c.op1) (opName c.op2)
    c.hasRace

/-- `filename`. -/
def filename : Text := joinPath c.outPath c.outFile

/-- A `-yes` file. -/
def IsYes : Prop := "-yes.c".toList <:+ c.outFile

/-- A `-no` file. -/
def IsNo : Prop := "-no.c".toList <:+ c.outFile

instance : Decidable c.IsYes := inferInstanceAs (Decidable (_ <:+ _))

instance : Decidable c.IsNo := inferInstanceAs (Decidable (_ <:+ _))

end RenderCall

/-! ## Numbers in names -/

theorem ofDigitChars_zeroPad3 (n : Nat) : Nat.ofDigitChars 10 (zeroPad3 n) 0 = n := by
  unfold zeroPad3
  rw [Nat.ofDigitChars_append, Nat.ofDigitChars_replicate_zero, Nat.mul_zero,
    Nat.ofDigitChars_toDigits (by decide) (by decide)]

theorem takeWhile_zeroPad3 (n : Nat) (rest : Text) :
    (zeroPad3 n ++ '-' :: rest).takeWhile (· ≠ '-') = zeroPad3 n := by
  have hn : ∀ c ∈ zeroPad3 n, decide (c ≠ '-') = true := by
    intro c hc
    rw [decide_eq_true_iff]
    rintro rfl
    exact letter_not_in_zeroPad3 (by decide) n hc
  rw [List.takeWhile_append_of_pos hn, List.takeWhile_cons_of_neg (by simp), List.append_nil]

/-- The number can be read off the name. -/
theorem number_of_outFile {b b' x y x' y' : Text} {n n' : Nat} {r r' : Bool}
    (h : outFile b n x y r = outFile b' n' x' y' r') : n = n' := by
  have hpad : zeroPad3 n = zeroPad3 n' := by
    unfold outFile at h
    have ht := congrArg (List.takeWhile (· ≠ '-')) h
    rwa [takeWhile_zeroPad3, takeWhile_zeroPad3] at ht
  rw [← ofDigitChars_zeroPad3 n, hpad, ofDigitChars_zeroPad3]

/-! ## Placed templates -/

/-- The name of a model as it is printed. -/
def Model.value : Model → Text
  | .MPIRMA => "MPIRMA".toList
  | .SHMEM => "SHMEM".toList
  | .GASPI => "GASPI".toList

/-- The key in `caseCounters`. -/
def Discipline.key : Discipline → Text
  | .conflict => "conflict".toList
  | .sync => "sync".toList
  | .atomic => "atomic".toList
  | .hybrid => "hybrid".toList
  | .misc => "misc".toList

/-- The directory of the cases of a model and a discipline. -/
def caseDir (m : Model) (d : Discipline) : Text := m.value ++ '/' :: d.key

/-- The word for a flag. -/
def raceWord (hasRace : Bool) : Text := if hasRace then "yes".toList else "no".toList

/-- The template lies in the directory of its model and discipline, and its name ends in `race` or in the
word for the flag. -/
def Placed (file : String) (m : Model) (d : Discipline) (hasRace : Bool) : Prop :=
  ∃ stem word : Text, file.toList = "templates/".toList ++ caseDir m d ++
      '/' :: (stem ++ '-' :: (word ++ ".c.j2".toList)) ∧
    '/' ∉ stem ∧ (word = "race".toList ∨ word = raceWord hasRace)

theorem caseDir_injective {m m' : Model} {d d' : Discipline} (h : caseDir m d = caseDir m' d') :
    m = m' ∧ d = d' := by
  cases m <;> cases m' <;> cases d <;> cases d' <;> first | exact ⟨rfl, rfl⟩ | exact absurd h (by decide)

theorem dirname_append {dir name : Text} {c : Char} (hc : c ≠ '/') (hn : '/' ∉ name) :
    Text.dirname (dir ++ [c] ++ '/' :: name) = dir ++ [c] := by
  have hname : ∀ x ∈ name.reverse, decide (x ≠ '/') = true := by
    intro x hx
    rw [decide_eq_true_iff]
    rintro rfl
    exact hn (List.mem_reverse.1 hx)
  have hhead : ((dir ++ [c] ++ '/' :: name).reverse.dropWhile (· ≠ '/')).reverse =
      dir ++ [c] ++ ['/'] := by
    rw [List.reverse_append, List.reverse_cons, List.append_assoc,
      List.dropWhile_append_of_pos hname, List.singleton_append,
      List.dropWhile_cons_of_neg (by simp), List.reverse_cons, List.reverse_reverse]
  unfold Text.dirname
  simp only [hhead]
  rw [if_neg]
  · simp [hc]
  · simp [hc]

theorem dirname_template (m : Model) (d : Discipline) {name : Text} (hn : '/' ∉ name) :
    (Text.dirname ("templates/".toList ++ caseDir m d ++ '/' :: name)).replace "templates/".toList [] =
      caseDir m d := by
  have hlast : ∃ dir c, "templates/".toList ++ caseDir m d = dir ++ [c] ∧ c ≠ '/' := by
    have hne : "templates/".toList ++ caseDir m d ≠ [] := by cases m <;> cases d <;> decide
    refine ⟨_, _, (List.dropLast_append_getLast hne).symm, ?_⟩
    cases m <;> cases d <;> decide +revert
  obtain ⟨dir, c, he, hc⟩ := hlast
  rw [he, dirname_append hc hn, ← he]
  cases m <;> cases d <;> decide

theorem name_no_slash {stem word : Text} {hasRace : Bool} (hs : '/' ∉ stem)
    (hw : word = "race".toList ∨ word = raceWord hasRace) :
    '/' ∉ stem ++ '-' :: (word ++ ".c.j2".toList) := by
  simp only [List.mem_append, List.mem_cons, hs, false_or, not_or]
  refine ⟨by decide, ?_, by decide⟩
  obtain rfl | rfl := hw
  · decide
  · cases hasRace <;> decide

/-- The last part of a name with the placeholders replaced. -/
theorem substitute_ending (op1 op2 : Option Operation) {hasRace : Bool} {word : Text}
    (h : word = "race".toList ∨ word = raceWord hasRace) :
    substitute op1 op2 hasRace (word ++ ".c.j2".toList) = raceWord hasRace ++ ".c".toList := by
  have hrace : (word ++ ".c.j2".toList).replace "race".toList
      (if hasRace then "yes".toList else "no".toList) = raceWord hasRace ++ ".c.j2".toList := by
    obtain rfl | rfl := h <;> cases hasRace <;> decide
  have hop : ∀ w ∈ ["op1".toList, "op2".toList],
      ¬ w <:+: raceWord hasRace ++ ".c.j2".toList := by
    intro w hw
    rw [← Text.isIn_iff]
    revert w
    cases hasRace <;> decide
  unfold substitute
  rw [hrace, Text.replace_eq_self _ (hop "op1".toList (by simp)),
    Text.replace_eq_self _ (hop "op2".toList (by simp))]
  cases hasRace <;> decide

namespace Placed

variable {c : RenderCall} {m : Model} {d : Discipline}

/-- A case is written to the directory of its model and discipline. -/
theorem outPath (h : Placed c.templateFile m d c.hasRace) : c.outPath = caseDir m d := by
  obtain ⟨stem, word, hfile, hs, hw⟩ := h
  unfold RenderCall.outPath
  rw [hfile, dirname_template m d (name_no_slash hs hw)]

/-- The name of a case ends with the word for its flag. -/
theorem outFile_eq (h : Placed c.templateFile m d c.hasRace) :
    ∃ start, c.outFile = start ++ '-' :: (raceWord c.hasRace ++ ".c".toList) := by
  obtain ⟨stem, word, hfile, hs, hw⟩ := h
  unfold RenderCall.outFile outFile
  rw [hfile, Text.basename_append (name_no_slash hs hw),
    Text.replace_append_cons _ (by decide) (by decide),
    Text.replace_append_cons _ (by decide) (by decide),
    Text.replace_append_cons _ (by decide) (by decide),
    Text.replace_append_cons _ (by decide) (by decide)]
  have hend := substitute_ending c.op1 c.op2 hw
  unfold substitute at hend
  rw [hend]
  exact ⟨zeroPad3 c.number ++ '-' :: _, by rw [List.append_assoc, List.cons_append]⟩

theorem yes_iff (h : Placed c.templateFile m d c.hasRace) : c.IsYes ↔ c.hasRace = true := by
  obtain ⟨start, he⟩ := h.outFile_eq
  unfold RenderCall.IsYes
  rw [he, ← List.reverse_prefix, List.reverse_append]
  cases c.hasRace <;> simp [raceWord]

theorem no_iff (h : Placed c.templateFile m d c.hasRace) : c.IsNo ↔ c.hasRace = false := by
  obtain ⟨start, he⟩ := h.outFile_eq
  unfold RenderCall.IsNo
  rw [he, ← List.reverse_prefix, List.reverse_append]
  cases c.hasRace <;> simp [raceWord]

end Placed

end Generator
