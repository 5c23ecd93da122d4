import Mathlib.Data.List.Basic

/-!
# Python strings

The string methods that `generate.py` and `run_test.py` use, on texts as lists of characters.
-/

set_option autoImplicit false

namespace Generator

abbrev Text := List Char

namespace Text

/-- `w in s`. -/
def isIn (w : Text) : Text → Bool
  | [] => w.isEmpty
  | c :: s => w.isPrefixOf (c :: s) || isIn w s

/-- `replace` with `skip` characters of a match still to drop. -/
def replaceFrom (old new : Text) : Nat → Text → Text
  | _, [] => []
  | k + 1, _ :: s => replaceFrom old new k s
  | 0, c :: s =>
    if old.isPrefixOf (c :: s) then new ++ replaceFrom old new (old.length - 1) s
    else c :: replaceFrom old new 0 s

/-- `s.replace(old, new)` for a nonempty `old`. -/
def replace (s old new : Text) : Text := replaceFrom old new 0 s

/-! ## Substrings -/

theorem isIn_iff {w s : Text} : isIn w s = true ↔ w <:+: s := by
  induction s with
  | nil => simp [isIn]
  | cons c s ih => rw [isIn, Bool.or_eq_true, List.isPrefixOf_iff_prefix, ih, List.infix_cons_iff]

theorem prefix_append_cons {w a b : Text} {c : Char} (hc : c ∉ w) :
    w <+: a ++ c :: b ↔ w <+: a := by
  constructor
  · intro h
    obtain hl | hl := Nat.le_total w.length a.length
    · exact List.prefix_of_prefix_length_le h (List.prefix_append a _) hl
    · obtain ⟨t, rfl⟩ := List.prefix_of_prefix_length_le (List.prefix_append a (c :: b)) h hl
      rw [List.prefix_append_right_inj] at h
      cases t with
      | nil => simp
      | cons d t =>
        rw [List.cons_prefix_cons] at h
        simp [h.1] at hc
  · intro h
    exact h.trans (List.prefix_append a _)

/-- A character that is not in `w` separates the occurrences of `w`. -/
theorem infix_append_cons {w a b : Text} {c : Char} (hc : c ∉ w) :
    w <:+: a ++ c :: b ↔ w <:+: a ∨ w <:+: b := by
  induction a with
  | nil =>
    rw [List.nil_append, List.infix_cons_iff, List.infix_nil]
    have h := prefix_append_cons (a := []) (b := b) hc
    rw [List.nil_append, List.prefix_nil] at h
    rw [h]
  | cons d a ih =>
    rw [List.cons_append, List.infix_cons_iff, ih, List.infix_cons_iff, ← List.cons_append,
      prefix_append_cons hc, or_assoc]

/-! ## Replacement -/

theorem replaceFrom_append_cons {old new a b : Text} {c : Char} (hc : c ∉ old) (ho : old ≠ [])
    {k : Nat} (hk : k ≤ a.length) :
    replaceFrom old new k (a ++ c :: b) = replaceFrom old new k a ++ c :: replace b old new := by
  induction a generalizing k with
  | nil =>
    obtain rfl : k = 0 := by simpa using hk
    have hp : ¬ old.isPrefixOf (c :: b) = true := by
      rw [List.isPrefixOf_iff_prefix]
      have h := prefix_append_cons (a := []) (b := b) hc
      rw [List.nil_append, List.prefix_nil] at h
      rwa [h]
    exact if_neg hp
  | cons d a ih =>
    cases k with
    | succ k => exact ih (by simpa using hk)
    | zero =>
      rw [List.cons_append, replaceFrom, replaceFrom]
      by_cases hp : old <+: d :: a
      · have hp' : old <+: d :: (a ++ c :: b) := by
          rw [← List.cons_append]
          exact hp.trans (List.prefix_append _ _)
        have hl : old.length - 1 ≤ a.length := by
          have := hp.length_le
          simp only [List.length_cons] at this
          omega
        rw [if_pos (List.isPrefixOf_iff_prefix.2 hp'), if_pos (List.isPrefixOf_iff_prefix.2 hp),
          ih hl, List.append_assoc]
      · have hp' : ¬ old <+: d :: (a ++ c :: b) := by
          rw [← List.cons_append, prefix_append_cons hc]
          exact hp
        rw [if_neg (by rwa [List.isPrefixOf_iff_prefix]),
          if_neg (by rwa [List.isPrefixOf_iff_prefix]), ih (Nat.zero_le _), List.cons_append]

/-- A character that is not in `old` separates the occurrences of `old`. -/
theorem replace_append_cons {old a b : Text} {c : Char} (new : Text) (hc : c ∉ old)
    (ho : old ≠ []) :
    replace (a ++ c :: b) old new = replace a old new ++ c :: replace b old new :=
  replaceFrom_append_cons hc ho (Nat.zero_le _)

theorem replace_eq_self {old s : Text} (new : Text) (h : ¬ old <:+: s) : replace s old new = s := by
  unfold replace
  induction s with
  | nil => rfl
  | cons c s ih =>
    rw [List.infix_cons_iff, not_or] at h
    rw [replaceFrom, if_neg (by rw [List.isPrefixOf_iff_prefix]; exact h.1), ih h.2]

end Text

end Generator
