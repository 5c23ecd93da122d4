import RMARaceBench.Generator.Name
import RMARaceBench.Generator.Operations

/-!
# The kind passed to a template

`render_template` searches the name of the file that it writes for the words `local` and `remote`.
`kindPassed_iff`: the result is the kind component of the template's name if and only if that
component is `local` or no component contains `local` once the words are replaced.
-/

set_option autoImplicit false

namespace Generator

/-! ## Names with hyphens -/

namespace Text

/-- `'-'.join(parts)`. -/
def joinHyphen : List Text → Text
  | [] => []
  | [p] => p
  | p :: q :: ps => p ++ '-' :: joinHyphen (q :: ps)

/-- `os.path.split(path)[1]`. -/
def basename (path : Text) : Text := (path.reverse.takeWhile (· ≠ '/')).reverse

theorem basename_append {dir name : Text} (h : '/' ∉ name) : basename (dir ++ '/' :: name) = name := by
  unfold basename
  have hn : ∀ c ∈ name.reverse, decide (c ≠ '/') = true := by
    intro c hc
    rw [List.mem_reverse] at hc
    rw [decide_eq_true_iff]
    intro e
    exact h (e ▸ hc)
  rw [List.reverse_append, List.reverse_cons, List.append_assoc,
    List.takeWhile_append_of_pos hn, List.singleton_append, List.takeWhile_cons_of_neg (by simp),
    List.append_nil, List.reverse_reverse]

/-- A word without a hyphen occurs in a joined name where it occurs in a part. -/
theorem infix_joinHyphen {w : Text} (hw : w ≠ []) (hh : '-' ∉ w) (ps : List Text) :
    w <:+: joinHyphen ps ↔ ∃ p ∈ ps, w <:+: p := by
  induction ps with
  | nil => simp [joinHyphen, hw]
  | cons p ps ih =>
    cases ps with
    | nil => simp [joinHyphen]
    | cons q ps =>
      rw [joinHyphen, infix_append_cons hh, ih]
      simp only [List.mem_cons, exists_eq_or_imp]

theorem replace_joinHyphen {old : Text} (new : Text) (ho : old ≠ []) (hh : '-' ∉ old)
    (ps : List Text) :
    replace (joinHyphen ps) old new = joinHyphen (ps.map fun p => replace p old new) := by
  induction ps with
  | nil => rfl
  | cons p ps ih =>
    cases ps with
    | nil => rfl
    | cons q ps =>
      rw [joinHyphen, replace_append_cons new hh ho, ih]
      rfl

end Text

/-! ## `render_template` up to the call of `template.render` -/

def AccessKind.word : AccessKind → Text
  | .local => "local".toList
  | .remote => "remote".toList

/-- `op.name if not op is None else ''`. -/
def opName : Option Operation → Text
  | some op => op.name.toList
  | none => []

/-- The arguments of `template.render`. -/
structure RenderArgs where
  op1 : Option Operation
  op2 : Option Operation
  race : Bool
  nprocs : Nat
  accessKind : AccessKind
  threaded : Bool

/-- The arguments that `render_template` passes. Without a kind in the name, `access_kind` is
unbound and the call raises. -/
def renderArgs (templateFile : Text) (number : Nat) (op1 op2 : Option Operation) (hasRace : Bool)
    (nprocs : Nat) (threaded : Bool) : Option RenderArgs :=
  (accessKind (outFile templateFile.basename number (opName op1) (opName op2) hasRace)).map
    fun k => ⟨op1, op2, hasRace, nprocs, k, threaded⟩

/-! ## The default block `race_labels` -/

/-- `{{op.local_opkind}}` or `{{op.remote_opkind}}`; an undefined value renders as the empty
text. -/
def opkind (k : AccessKind) (op : Option Operation) : String :=
  match k, op with
  | _, none => ""
  | .local, some op => op.localOpkind
  | .remote, some op => op.remoteOpkind

namespace RenderArgs

/-- `RACE_KIND`. -/
def raceKind (a : RenderArgs) : Text := if a.race then a.accessKind.word else "none".toList

/-- `ACCESS_SET`. -/
def accessSet (a : RenderArgs) : String × String :=
  if a.accessKind = .local then (opkind .local a.op1, opkind .local a.op2)
  else (opkind .remote a.op1, opkind .remote a.op2)

end RenderArgs

/-! ## Template names -/

/-- A template file name: components between hyphens, one of which is the word of a kind, the last one
ending in `race`, `yes` or `no`. -/
structure TemplateName where
  init : List Text
  last : Text
  kind : AccessKind
  separated : ∀ c ∈ init ++ [last], '-' ∉ c ∧ '/' ∉ c
  kind_unique : (init ++ [last]).filter (fun c =>
    c = AccessKind.local.word ∨ c = AccessKind.remote.word) = [kind.word]
  ending : ["race".toList, "yes".toList, "no".toList].any (·.isSuffixOf last) = true

namespace TemplateName

/-- The components of the file name, with the ending `.c.j2`. -/
def parts (t : TemplateName) : List Text := t.init ++ [t.last ++ ".c.j2".toList]

def file (t : TemplateName) : Text := Text.joinHyphen t.parts

end TemplateName

/-- The replacements of `out_file` on a part of the name. -/
def substitute (op1 op2 : Option Operation) (hasRace : Bool) (p : Text) : Text :=
  (((p.replace "race".toList (if hasRace then "yes".toList else "no".toList)).replace
    "op1".toList (opName op1)).replace "op2".toList (opName op2)).replace ".j2".toList []

/-- The call of `template.render` gets the kind in the name, and the default labels use it. -/
def KindPassed (t : TemplateName) (dir : Text) (number : Nat) (op1 op2 : Option Operation)
    (hasRace : Bool) (nprocs : Nat) (threaded : Bool) : Prop :=
  ∃ a, renderArgs (dir ++ '/' :: t.file) number op1 op2 hasRace nprocs threaded = some a ∧
    a.accessKind = t.kind ∧
    a.raceKind = (if hasRace then t.kind.word else "none".toList) ∧
    a.accessSet = (opkind t.kind op1, opkind t.kind op2)

/-! ## Proofs -/

/-- The digits of the number contain no letter. -/
theorem letter_not_in_zeroPad3 {c : Char} (hc : c.isDigit = false) (number : Nat) :
    c ∉ zeroPad3 number := by
  unfold zeroPad3
  rw [List.mem_append, List.mem_replicate]
  intro h
  obtain ⟨-, rfl⟩ | h := h
  · simp at hc
  · rw [Nat.isDigit_of_mem_toDigits (by decide) (by decide) h] at hc
    cases hc

theorem outFile_joinHyphen (ps : List Text) (number : Nat) (op1 op2 : Option Operation)
    (hasRace : Bool) :
    outFile (Text.joinHyphen ps) number (opName op1) (opName op2) hasRace =
      zeroPad3 number ++ '-' :: Text.joinHyphen (ps.map (substitute op1 op2 hasRace)) := by
  unfold outFile
  rw [Text.replace_joinHyphen _ (by decide) (by decide),
    Text.replace_joinHyphen _ (by decide) (by decide),
    Text.replace_joinHyphen _ (by decide) (by decide),
    Text.replace_joinHyphen _ (by decide) (by decide)]
  simp only [List.map_map]
  rfl

/-- The word of a kind occurs in the written name where it occurs in a part. -/
theorem isIn_outFile (k : AccessKind) (ps : List Text) (number : Nat) (op1 op2 : Option Operation)
    (hasRace : Bool) :
    Text.isIn k.word (outFile (Text.joinHyphen ps) number (opName op1) (opName op2) hasRace) = true ↔
      ∃ p ∈ ps, k.word <:+: substitute op1 op2 hasRace p := by
  have hne : k.word ≠ [] := by cases k <;> decide
  have hh : '-' ∉ k.word := by cases k <;> decide
  have hnum : ¬ k.word <:+: zeroPad3 number := by
    intro h
    cases k with
    | «local» => exact letter_not_in_zeroPad3 (c := 'l') (by decide) number (h.subset (by decide))
    | remote => exact letter_not_in_zeroPad3 (c := 'r') (by decide) number (h.subset (by decide))
  rw [outFile_joinHyphen, Text.isIn_iff, Text.infix_append_cons hh, or_iff_right hnum,
    Text.infix_joinHyphen hne hh]
  simp only [List.mem_map, exists_exists_and_eq_and]

/-- The word of a kind contains none of the words that are replaced. -/
theorem substitute_word (k : AccessKind) (op1 op2 : Option Operation) (hasRace : Bool) :
    substitute op1 op2 hasRace k.word = k.word := by
  have hn : ∀ w ∈ ["race".toList, "op1".toList, "op2".toList, ".j2".toList],
      ¬ w <:+: k.word := by
    intro w hw
    rw [← Text.isIn_iff]
    revert w
    cases k <;> decide
  unfold substitute
  rw [Text.replace_eq_self _ (hn "race".toList (by simp)),
    Text.replace_eq_self _ (hn "op1".toList (by simp)),
    Text.replace_eq_self _ (hn "op2".toList (by simp)),
    Text.replace_eq_self _ (hn ".j2".toList (by simp))]

theorem TemplateName.kind_mem (t : TemplateName) : t.kind.word ∈ t.parts := by
  have hm : t.kind.word ∈ (t.init ++ [t.last]).filter (fun c =>
      c = AccessKind.local.word ∨ c = AccessKind.remote.word) := by
    rw [t.kind_unique]
    exact List.mem_cons_self
  have h := List.mem_of_mem_filter hm
  rw [List.mem_append, List.mem_singleton] at h
  obtain h | h := h
  · exact List.mem_append_left _ h
  · -- the last component has another ending
    have he := t.ending
    rw [← h] at he
    have hn : ∀ k : AccessKind,
        ["race".toList, "yes".toList, "no".toList].any (·.isSuffixOf k.word) = false := by
      intro k
      cases k <;> decide
    rw [hn] at he
    cases he

/-- The word of a kind always stays in the written name. -/
theorem isIn_outFile_of_mem {k : AccessKind} {ps : List Text} (hk : k.word ∈ ps) (number : Nat)
    (op1 op2 : Option Operation) (hasRace : Bool) :
    Text.isIn k.word (outFile (Text.joinHyphen ps) number (opName op1) (opName op2) hasRace) =
      true := by
  have hs := substitute_word k op1 op2 hasRace
  exact (isIn_outFile k ps number op1 op2 hasRace).2
    ⟨_, hk, [], [], by rw [hs, List.nil_append, List.append_nil]⟩

theorem TemplateName.no_slash (t : TemplateName) : '/' ∉ t.file := by
  have hp : ∀ p ∈ t.parts, '/' ∉ p := by
    intro p hp
    unfold parts at hp
    rw [List.mem_append, List.mem_singleton] at hp
    obtain hp | rfl := hp
    · exact (t.separated p (List.mem_append_left _ hp)).2
    · rw [List.mem_append, not_or]
      exact ⟨(t.separated t.last (by simp)).2, by decide⟩
  unfold file
  generalize t.parts = ps at hp
  intro h
  obtain ⟨a, b, hab⟩ := List.append_of_mem h
  have hi : ['/'] <:+: Text.joinHyphen ps := ⟨a, b, by simp [hab]⟩
  obtain ⟨p, hm, hi⟩ := (Text.infix_joinHyphen (by decide) (by decide) ps).1 hi
  exact hp p hm (hi.subset List.mem_cons_self)

/-- A name with a word of a kind has a kind. -/
theorem exists_accessKind {k : AccessKind} {name : Text} (h : Text.isIn k.word name = true) :
    ∃ k', accessKind name = some k' := by
  unfold accessKind
  cases k with
  | «local» => exact ⟨.local, if_pos h⟩
  | remote =>
    split
    · exact ⟨.local, rfl⟩
    · exact ⟨.remote, if_pos h⟩

/-- The kind is found unless another part shows the word `local`. -/
theorem accessKind_outFile_iff {k : AccessKind} {ps : List Text} (hk : k.word ∈ ps) (number : Nat)
    (op1 op2 : Option Operation) (hasRace : Bool) :
    accessKind (outFile (Text.joinHyphen ps) number (opName op1) (opName op2) hasRace) = some k ↔
      k = .local ∨ ∀ p ∈ ps, ¬ "local".toList <:+: substitute op1 op2 hasRace p := by
  have hin := isIn_outFile_of_mem hk number op1 op2 hasRace
  have hl := isIn_outFile .local ps number op1 op2 hasRace
  have hall : (∀ p ∈ ps, ¬ "local".toList <:+: substitute op1 op2 hasRace p) ↔
      ¬ Text.isIn "local".toList
        (outFile (Text.joinHyphen ps) number (opName op1) (opName op2) hasRace) = true := by
    rw [show "local".toList = AccessKind.local.word from rfl, hl]
    simp only [not_exists, not_and]
  rw [hall]
  unfold accessKind
  cases k with
  | «local» =>
    rw [AccessKind.word] at hin
    rw [if_pos hin]
    exact iff_of_true rfl (.inl rfl)
  | remote =>
    rw [AccessKind.word] at hin
    rw [if_pos hin]
    split
    · next h =>
      refine iff_of_false (by simp) ?_
      intro hr
      obtain hr | hr := hr
      · cases hr
      · exact hr h
    · next h => exact iff_of_true rfl (.inr h)

theorem kindPassed_iff (t : TemplateName) (dir : Text) (number : Nat) (op1 op2 : Option Operation)
    (hasRace : Bool) (nprocs : Nat) (threaded : Bool) :
    KindPassed t dir number op1 op2 hasRace nprocs threaded ↔
      t.kind = .local ∨
        ∀ p ∈ t.parts, ¬ "local".toList <:+: substitute op1 op2 hasRace p := by
  rw [← accessKind_outFile_iff t.kind_mem number op1 op2 hasRace]
  unfold KindPassed renderArgs
  rw [Text.basename_append t.no_slash, TemplateName.file]
  constructor
  · intro h
    obtain ⟨a, ha, hk, -, -⟩ := h
    obtain ⟨k, hk', rfl⟩ := Option.map_eq_some_iff.1 ha
    rw [hk']
    exact congrArg some hk
  · intro h
    refine ⟨_, by rw [h]; rfl, rfl, rfl, ?_⟩
    unfold RenderArgs.accessSet
    cases t.kind <;> rfl

/-- `MPI-sync-lock-flushlocal-sameorigin-remote-yes.c.j2`. -/
def flushlocalName : TemplateName where
  init := ["MPI", "sync", "lock", "flushlocal", "sameorigin", "remote"].map String.toList
  last := "yes".toList
  kind := .remote
  separated := by decide
  kind_unique := by decide
  ending := by decide

/-- The kind that is passed for this template is `local`. -/
theorem flushlocalName_not_kindPassed :
    ¬ KindPassed flushlocalName "templates/MPIRMA/sync".toList 35 none none true 2 false := by
  intro h
  obtain ⟨a, ha, hk, -, -⟩ := h
  have : (renderArgs ("templates/MPIRMA/sync".toList ++ '/' :: flushlocalName.file) 35 none none
      true 2 false).map RenderArgs.accessKind = some .local := by decide
  rw [ha, Option.map_some, hk] at this
  exact absurd this (by decide)

end Generator
