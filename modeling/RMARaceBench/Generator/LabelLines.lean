import RMARaceBench.Generator.Labels

/-!
# The lines of a file

* `splitlines_replace`: a replacement without line breaks works on each line.
* `conflictLines_fillIn`: filling in the locations moves no `// CONFLICT` line.
* `raceLocs_eq`: with two such lines, the locations are the lines behind them.
-/

set_option autoImplicit false

namespace Generator

open Python
open Runner (decimal)

/-! ## Replacing in lines -/

variable {old new : Text}

theorem replace_ne_nil (hn : new ≠ []) {w : Text} (hw : w ≠ []) : w.replace old new ≠ [] := by
  obtain ⟨c, w, rfl⟩ := List.exists_cons_of_ne_nil hw
  by_cases h : old <+: c :: w
  · rw [Text.replace, Text.replaceFrom, if_pos (List.isPrefixOf_iff_prefix.2 h)]
    exact List.append_ne_nil_of_left_ne_nil hn _
  · rw [Text.replace_cons_of_ne h]
    exact List.cons_ne_nil _ _

/-- A replacement without line breaks works on each line. -/
theorem splitlines_replace (ho : old ≠ []) (hob : NoBreak old) (hn : new ≠ []) (hnb : NoBreak new)
    {s : Text} (hr : '\r' ∉ s) :
    splitlines (s.replace old new) = (splitlines s).map fun w => Text.replace w old new := by
  have hbreak : ∀ {w : Text}, NoBreak w → NoBreak (w.replace old new) := fun hw =>
    Text.all_replace (p := fun c => isLineBreak c = false) ho hnb hw
  refine line_induction (motive := fun s => '\r' ∉ s →
    splitlines (Text.replace s old new) = (splitlines s).map fun w => Text.replace w old new)
    (fun w hw _ => ?_) (fun w c s hw hc ih hr => ?_) s hr
  · rw [splitlines_noBreak (hbreak hw), splitlines_noBreak hw]
    by_cases h : w = []
    · rw [h]
      rfl
    · rw [if_neg h, if_neg (replace_ne_nil hn h)]
      rfl
  · have hco : c ∉ old := fun hm => by
      rw [hob c hm] at hc
      cases hc
    rw [List.mem_append, List.mem_cons, not_or, not_or] at hr
    have hcr := Ne.symm hr.2.1
    rw [Text.replace_append_cons new hco ho, splitlines_append (hbreak hw) hc hcr,
      splitlines_append hw hc hcr, ih hr.2.2]
    rfl

/-- Text without a character of `w` separates the occurrences of `w`. -/
theorem infix_append_text {w x a b : Text} (hw : w ≠ []) (hx : x ≠ []) (h : ∀ c ∈ x, c ∉ w) :
    w <:+: a ++ (x ++ b) ↔ w <:+: a ∨ w <:+: b := by
  induction x generalizing a with
  | nil => exact absurd rfl hx
  | cons c x ih =>
    have hc := h c List.mem_cons_self
    rw [List.cons_append, Text.infix_append_cons hc]
    cases x with
    | nil => rfl
    | cons d x =>
      have hrest := ih (a := []) (List.cons_ne_nil d x) fun e he => h e (List.mem_cons_of_mem c he)
      rw [List.nil_append] at hrest
      rw [hrest, List.infix_nil, or_iff_right hw]

/-- A replacement of other characters by other characters keeps the occurrences of `w`. -/
theorem infix_replace {w : Text} (hw : w ≠ []) (ho : old ≠ []) (hn : new ≠ [])
    (how : ∀ c ∈ old, c ∉ w) (hnw : ∀ c ∈ new, c ∉ w) (s : Text) :
    w <:+: s.replace old new ↔ w <:+: s := by
  refine Text.replace_cases (motive := fun s s' => w <:+: s' ↔ w <:+: s) ho (fun _ => Iff.rfl) ?_ s
  intro a b b' ih
  rw [infix_append_text hw hn hnw, infix_append_text hw ho how, ih]

/-! ## The lines with a marker -/

/-- The indices of the lines with `// CONFLICT`. -/
def conflictLines (code : Text) : List Nat :=
  ((splitlines code).zipIdx.filter fun line => isConflict line.1).map Prod.snd

/-- Other lines do not change the locations. -/
theorem foldl_recordConflict (lines : List (Text × Nat)) (locs : Int × Int) :
    lines.foldl recordConflict locs =
      (lines.filter fun line => isConflict line.1).foldl recordConflict locs := by
  induction lines generalizing locs with
  | nil => rfl
  | cons line lines ih =>
    rw [List.foldl_cons, ih]
    cases h : isConflict line.1 with
    | true => rw [List.filter_cons_of_pos (by exact h), List.foldl_cons]
    | false =>
      have hsame : recordConflict locs line = locs := by
        unfold recordConflict
        rw [h, if_neg Bool.false_ne_true]
      rw [List.filter_cons_of_neg (by simp [h]), hsame]

/-- With two marked lines, the locations are the lines behind them, counted from 1. -/
theorem raceLocs_eq {code : Text} {i j : Nat} (h : conflictLines code = [i, j]) :
    raceLocs code = ((i : Int) + 2, (j : Int) + 2) := by
  unfold conflictLines at h
  unfold raceLocs
  rw [foldl_recordConflict]
  obtain ⟨p, l, hl, rfl, hrest⟩ := List.map_eq_cons_iff.1 h
  obtain ⟨q, l, rfl, rfl, hnil⟩ := List.map_eq_cons_iff.1 hrest
  obtain rfl := List.map_eq_nil_iff.1 hnil
  have hmem : ∀ r ∈ [p, q], isConflict r.1 = true := by
    intro r hr
    rw [← hl] at hr
    exact (List.mem_filter.1 hr).2
  have hp := hmem p (by simp)
  have hq := hmem q (by simp)
  have hne : (p.2 : Int) + 2 ≠ -1 := by omega
  rw [hl]
  simp only [List.foldl_cons, List.foldl_nil, recordConflict, hp, hq, if_true, if_neg hne]

/-- Without marked lines there are no locations. -/
theorem raceLocs_of_nil {code : Text} (h : conflictLines code = []) : raceLocs code = (-1, -1) := by
  unfold conflictLines at h
  unfold raceLocs
  rw [foldl_recordConflict, List.map_eq_nil_iff.1 h]
  rfl

/-- The characters of the placeholders and of the numbers are not in the marker. -/
theorem isConflict_replace (ho : old ≠ []) (how : ∀ c ∈ old, c ∉ "// CONFLICT".toList) (n : Int)
    (line : Text) : isConflict (line.replace old (decimal n)) = isConflict line := by
  have hnw : ∀ c ∈ decimal n, c ∉ "// CONFLICT".toList := by
    intro c hc hm
    have hall : "// CONFLICT".toList.all (fun c => !(c.isDigit || c = '-')) = true := by decide
    have := List.all_eq_true.1 hall c hm
    obtain hd | rfl := mem_decimal hc
    · rw [hd] at this
      cases this
    · cases this
  have hiff := infix_replace (by decide) ho (decimal_ne_nil n) how hnw line
  unfold isConflict
  rw [Bool.eq_iff_iff, Text.isIn_iff, Text.isIn_iff, hiff]

theorem noBreak_decimal (n : Int) : NoBreak (decimal n) := by
  intro c hc
  have hall : lineBreaks.all (fun x => !(x.isDigit || x = '-')) = true := by decide
  unfold isLineBreak
  rw [List.contains_eq_mem, decide_eq_false_iff_not]
  intro h
  have := List.all_eq_true.1 hall c h
  obtain hd | rfl := mem_decimal hc
  · rw [hd] at this
    cases this
  · cases this

/-- A placeholder of a location in a text of several lines. -/
structure IsMark (old : Text) : Prop where
  ne_nil : old ≠ []
  noBreak : NoBreak old
  apart : ∀ c ∈ old, c ∉ "// CONFLICT".toList

theorem isMark_of_all (hne : old ≠ [])
    (h : old.all (fun c => isLineBreak c = false ∧ c ∉ "// CONFLICT".toList) = true) : IsMark old := by
  have hall : ∀ c ∈ old, isLineBreak c = false ∧ c ∉ "// CONFLICT".toList := fun c hc =>
    of_decide_eq_true (List.all_eq_true.1 h c hc)
  exact ⟨hne, fun c hc => (hall c hc).1, fun c hc => (hall c hc).2⟩

theorem isMark1 : IsMark placeholder1 := isMark_of_all (by decide) (by decide)

theorem isMark2 : IsMark placeholder2 := isMark_of_all (by decide) (by decide)

theorem conflictLines_replace (ho : IsMark old) (n : Int) {s : Text} (hr : '\r' ∉ s) :
    conflictLines (s.replace old (decimal n)) = conflictLines s := by
  have hsame : ((fun line : Text × Nat => isConflict line.1) ∘
      Prod.map (fun w => Text.replace w old (decimal n)) id) = fun line => isConflict line.1 :=
    funext fun line => isConflict_replace ho.ne_nil ho.apart n line.1
  unfold conflictLines
  rw [splitlines_replace ho.ne_nil ho.noBreak (decimal_ne_nil n) (noBreak_decimal n) hr,
    List.zipIdx_map, List.filter_map, hsame, List.map_map]
  rfl

theorem no_cr_replace (ho : old ≠ []) (n : Int) {s : Text} (hr : '\r' ∉ s) :
    '\r' ∉ s.replace old (decimal n) := by
  have hnum : ∀ c ∈ decimal n, c ≠ '\r' := fun c hc he =>
    not_mem_decimal (by decide) (by decide) n (he ▸ hc)
  have hall : ∀ c ∈ s.replace old (decimal n), c ≠ '\r' :=
    Text.all_replace (p := fun c => c ≠ '\r') ho hnum fun c hc he => hr (he ▸ hc)
  exact fun hm => hall _ hm rfl

/-- Filling in the locations moves no marker. -/
theorem conflictLines_fillIn (hasRace : Bool) {code : Text} (hr : '\r' ∉ code) :
    conflictLines (fillIn hasRace code) = conflictLines code := by
  unfold fillIn
  split
  · rw [conflictLines_replace isMark2 _ (no_cr_replace isMark1.ne_nil _ hr),
      conflictLines_replace isMark1 _ hr]
  · rfl

theorem no_cr_fillIn (hasRace : Bool) {code : Text} (hr : '\r' ∉ code) :
    '\r' ∉ fillIn hasRace code := by
  unfold fillIn
  split
  · exact no_cr_replace isMark2.ne_nil _ (no_cr_replace isMark1.ne_nil _ hr)
  · exact hr

end Generator
