import Mathlib.Data.List.Basic
import Mathlib.Data.Nat.Digits.Defs

/-!
# Splitting texts

`str.split`, `str.strip`, `str.splitlines`, `int` and the newlines of text files in Python, on texts as lists of
characters.

* `split_append`: a text up to the first separator.
* `splitlines_append`: a text up to the first line break.
-/

set_option autoImplicit false

namespace Python

variable {sep cur s t : List Char}

/-! ## `split` -/

/-- `split` with `skip` characters of a separator still to drop, and the piece so far. -/
def splitFrom (sep : List Char) : Nat → List Char → List Char → List (List Char)
  | _, cur, [] => [cur]
  | k + 1, cur, _ :: s => splitFrom sep k cur s
  | 0, cur, c :: s =>
    if sep.isPrefixOf (c :: s) then cur :: splitFrom sep (sep.length - 1) [] s
    else splitFrom sep 0 (cur ++ [c]) s

/-- `s.split(sep)` for a nonempty `sep`. -/
def split (s sep : List Char) : List (List Char) := splitFrom sep 0 [] s

theorem splitFrom_length_append (a : List Char) :
    splitFrom sep a.length cur (a ++ s) = splitFrom sep 0 cur s := by
  induction a with
  | nil => rfl
  | cons c a ih => exact ih

theorem splitFrom_step {c : Char} (h : ¬ sep <+: c :: s) :
    splitFrom sep 0 cur (c :: s) = splitFrom sep 0 (cur ++ [c]) s := by
  rw [splitFrom, if_neg (by rwa [List.isPrefixOf_iff_prefix])]

/-- Without the first character of the separator there is no separator. -/
theorem splitFrom_of_head {c : Char} {o w : List Char} (hc : c ∉ w) :
    splitFrom (c :: o) 0 cur (w ++ s) = splitFrom (c :: o) 0 (cur ++ w) s := by
  induction w generalizing cur with
  | nil => rw [List.nil_append, List.append_nil]
  | cons d w ih =>
    rw [List.mem_cons, not_or] at hc
    rw [List.cons_append, splitFrom_step, ih hc.2, List.append_assoc, List.singleton_append]
    intro h
    exact hc.1 (List.cons_prefix_cons.1 h).1

/-- The first piece goes on with the piece so far. -/
theorem splitFrom_eq_cons (k : Nat) : ∃ y l, splitFrom sep k cur s = (cur ++ y) :: l := by
  induction s generalizing k cur with
  | nil => exact ⟨[], [], by rw [splitFrom, List.append_nil]⟩
  | cons c s ih =>
    cases k with
    | succ k => exact ih k
    | zero =>
      rw [splitFrom]
      split
      · exact ⟨[], _, by rw [List.append_nil]⟩
      · obtain ⟨y, l, hy⟩ : ∃ y l, splitFrom sep 0 (cur ++ [c]) s = (cur ++ [c] ++ y) :: l := ih 0
        exact ⟨c :: y, l, by rw [hy, List.append_assoc, List.singleton_append]⟩

theorem splitFrom_append {a : List Char} (hs : sep ≠ []) (ha : ¬ sep <:+: a ++ sep.dropLast) :
    splitFrom sep 0 cur (a ++ (sep ++ s)) = (cur ++ a) :: split s sep := by
  induction a generalizing cur with
  | nil =>
    obtain ⟨c, o, rfl⟩ := List.exists_cons_of_ne_nil hs
    rw [List.nil_append, List.cons_append, splitFrom,
      if_pos (List.isPrefixOf_iff_prefix.2 ⟨s, List.cons_append⟩), List.length_cons,
      Nat.add_sub_cancel, splitFrom_length_append, List.append_nil]
    rfl
  | cons c a ih =>
    have hpre : ¬ sep <+: c :: (a ++ (sep ++ s)) := by
      intro h
      -- a separator that begins here ends before the next one
      have hlong : c :: a ++ sep.dropLast <+: c :: (a ++ (sep ++ s)) := by
        refine ⟨sep.drop (sep.length - 1) ++ s, ?_⟩
        rw [List.dropLast_eq_take, List.append_assoc, ← List.append_assoc (sep.take _),
          List.take_append_drop, List.cons_append]
      have hlen : sep.length ≤ (c :: a ++ sep.dropLast).length := by
        have := List.length_pos_iff.2 hs
        simp only [List.length_append, List.length_cons, List.length_dropLast]
        omega
      exact ha (List.prefix_of_prefix_length_le h hlong hlen).isInfix
    rw [List.cons_append, splitFrom_step hpre, ih, List.append_assoc, List.singleton_append]
    intro h
    exact ha (h.trans (List.suffix_cons c _).isInfix)

/-- The text up to the first separator is a piece. -/
theorem split_append {a : List Char} (hs : sep ≠ []) (ha : ¬ sep <:+: a ++ sep.dropLast) :
    split (a ++ (sep ++ s)) sep = a :: split s sep :=
  splitFrom_append hs ha

/-- The last character of a separator stands only at its end: then no occurrence reaches into the next. -/
theorem not_infix_append_dropLast {a : List Char} (hs : sep ≠ []) (hl : sep.getLast hs ∉ sep.dropLast)
    (ha : ¬ sep <:+: a) : ¬ sep <:+: a ++ sep.dropLast := by
  intro h
  obtain ⟨u, v, huv⟩ := h
  obtain ⟨a', ha', -⟩ | ⟨c', hc', hd⟩ := List.append_eq_append_iff.1 huv
  · exact ha ⟨u, a', ha'.symm⟩
  · obtain rfl | ⟨c'', x, rfl⟩ := List.eq_nil_or_concat c'
    · exact ha ⟨u, [], by rw [hc', List.append_nil, List.append_nil]⟩
    · -- the last character of the occurrence is in the next separator
      have hx : sep.getLast hs = x := by
        have hlast := congrArg List.getLast? hc'
        rw [List.concat_eq_append, ← List.append_assoc, List.getLast?_concat,
          List.getLast?_append_of_ne_nil _ hs, List.getLast?_eq_some_getLast hs] at hlast
        exact Option.some.inj hlast
      rw [hx, hd] at hl
      simp at hl

/-- A text without separators is one piece. -/
theorem split_eq_self (hs : ¬ sep <:+: s) : split s sep = [s] := by
  have hfrom : ∀ cur, splitFrom sep 0 cur s = [cur ++ s] := by
    induction s with
    | nil => intro cur; rw [splitFrom, List.append_nil]
    | cons c s ih =>
      intro cur
      rw [List.infix_cons_iff, not_or] at hs
      rw [splitFrom_step hs.1, ih hs.2, List.append_assoc, List.singleton_append]
  exact hfrom []

/-! ## `strip` and `int` -/

def spaces : List Char :=
  ['\t', '\n', '\x0b', '\x0c', '\r', '\x1c', '\x1d', '\x1e', '\x1f', ' ', '\x85', '\xa0',
    '\u1680', '\u2000', '\u2001', '\u2002', '\u2003', '\u2004', '\u2005', '\u2006', '\u2007',
    '\u2008', '\u2009', '\u200a', '\u2028', '\u2029', '\u202f', '\u205f', '\u3000']

def isSpace (c : Char) : Bool := spaces.contains c

/-- `s.strip()`. -/
def strip (s : List Char) : List Char := ((s.dropWhile isSpace).reverse.dropWhile isSpace).reverse

/-- A text between two other characters stays when whitespace around it is stripped. -/
theorem strip_append {ws ws' : List Char} {c c' : Char} (hws : ∀ x ∈ ws, isSpace x = true)
    (hws' : ∀ x ∈ ws', isSpace x = true) (hc : isSpace c = false) (hc' : isSpace c' = false)
    (s : List Char) : strip (ws ++ (c :: (s ++ [c']) ++ ws')) = c :: (s ++ [c']) := by
  have hrev : ∀ x ∈ ws'.reverse, isSpace x = true := fun x hx => hws' x (List.mem_reverse.1 hx)
  have hends : (c :: (s ++ [c']) ++ ws').reverse =
      ws'.reverse ++ (c' :: (c :: s).reverse) := by
    rw [List.reverse_append, ← List.cons_append, List.reverse_append, List.reverse_singleton,
      List.singleton_append]
  unfold strip
  rw [List.dropWhile_append_of_pos hws, List.cons_append, List.dropWhile_cons_of_neg (by simp [hc]),
    ← List.cons_append, hends, List.dropWhile_append_of_pos hrev,
    List.dropWhile_cons_of_neg (by simp [hc']), List.reverse_cons, List.reverse_reverse,
    List.cons_append]

/-- Digits, with single underscores between them. -/
def intDigits : List Char → Option (List Char)
  | [] => none
  | [c] => if c.isDigit then some [c] else none
  | c :: c' :: s =>
    if c.isDigit then
      if c' = '_' then (intDigits s).map (c :: ·) else (intDigits (c' :: s)).map (c :: ·)
    else none

/-- `int(s)`, for ASCII digits. -/
def parseInt (s : List Char) : Option Int :=
  match strip s with
  | '-' :: t => (intDigits t).map fun ds => -(Nat.ofDigitChars 10 ds 0 : Int)
  | '+' :: t => (intDigits t).map fun ds => (Nat.ofDigitChars 10 ds 0 : Int)
  | t => (intDigits t).map fun ds => (Nat.ofDigitChars 10 ds 0 : Int)

theorem intDigits_eq_some (hs : s ≠ []) (h : ∀ c ∈ s, c.isDigit = true) : intDigits s = some s := by
  induction s with
  | nil => exact absurd rfl hs
  | cons c s ih =>
    have hc := h c List.mem_cons_self
    cases s with
    | nil => rw [intDigits, if_pos hc]
    | cons c' s =>
      have hu : c' ≠ '_' := by
        rintro rfl
        exact absurd (h '_' (by simp)) (by decide)
      rw [intDigits, if_pos hc, if_neg hu,
        ih (List.cons_ne_nil _ _) fun x hx => h x (List.mem_cons_of_mem c hx)]
      rfl

theorem isSpace_digit {c : Char} (hc : c.isDigit = true) : isSpace c = false := by
  have hall : spaces.all (fun x => !x.isDigit) = true := by decide
  unfold isSpace
  rw [List.contains_eq_mem, decide_eq_false_iff_not]
  intro h
  have := List.all_eq_true.1 hall c h
  rw [hc] at this
  cases this

theorem dropWhile_digits (h : ∀ c ∈ s, c.isDigit = true) : s.dropWhile isSpace = s := by
  cases s with
  | nil => rfl
  | cons c s =>
    exact List.dropWhile_cons_of_neg (by simp [isSpace_digit (h c List.mem_cons_self)])

theorem strip_digits (h : ∀ c ∈ s, c.isDigit = true) : strip s = s := by
  unfold strip
  rw [dropWhile_digits h, dropWhile_digits fun c hc => h c (List.mem_reverse.1 hc),
    List.reverse_reverse]

theorem intDigits_toDigits (n : Nat) :
    (intDigits (Nat.toDigits 10 n)).map (fun ds => (Nat.ofDigitChars 10 ds 0 : Int)) = some (n : Int) := by
  have hd : ∀ c ∈ Nat.toDigits 10 n, c.isDigit = true := fun _ hc =>
    Nat.isDigit_of_mem_toDigits (by decide) (by decide) hc
  have hn := Nat.ofDigitChars_toDigits (b := 10) (n := n) (by decide) (by decide)
  rw [intDigits_eq_some Nat.toDigits_ne_nil hd, Option.map_some, hn]

/-- A number is read back from its digits. -/
theorem parseInt_toDigits (n : Nat) : parseInt (Nat.toDigits 10 n) = some (n : Int) := by
  have hd : ∀ c ∈ Nat.toDigits 10 n, c.isDigit = true := fun _ hc =>
    Nat.isDigit_of_mem_toDigits (by decide) (by decide) hc
  unfold parseInt
  rw [strip_digits hd]
  split
  · next heq => exact absurd (hd '-' (by rw [heq]; exact List.mem_cons_self)) (by decide)
  · next heq => exact absurd (hd '+' (by rw [heq]; exact List.mem_cons_self)) (by decide)
  · exact intDigits_toDigits n

/-- A negative number is read back from its sign and its digits. -/
theorem parseInt_neg_toDigits (n : Nat) : parseInt ('-' :: Nat.toDigits 10 n) = some (-n : Int) := by
  have hd : ∀ c ∈ Nat.toDigits 10 n, c.isDigit = true := fun _ hc =>
    Nat.isDigit_of_mem_toDigits (by decide) (by decide) hc
  have hstrip : strip ('-' :: Nat.toDigits 10 n) = '-' :: Nat.toDigits 10 n := by
    have hrev : ∀ c ∈ (Nat.toDigits 10 n).reverse, c.isDigit = true := fun c hc =>
      hd c (List.mem_reverse.1 hc)
    obtain ⟨c, ds, he⟩ := List.exists_cons_of_ne_nil (l := (Nat.toDigits 10 n).reverse)
      (fun h => Nat.toDigits_ne_nil (List.reverse_eq_nil_iff.1 h))
    have hc : isSpace c = false := isSpace_digit (hrev c (he ▸ List.mem_cons_self))
    unfold strip
    rw [List.dropWhile_cons_of_neg (by decide), List.reverse_cons, he, List.cons_append,
      List.dropWhile_cons_of_neg (by simp [hc]), ← List.cons_append, ← he, ← List.reverse_cons,
      List.reverse_reverse]
  have hdigits := intDigits_toDigits n
  unfold parseInt
  rw [hstrip]
  show (intDigits (Nat.toDigits 10 n)).map (fun ds => -(Nat.ofDigitChars 10 ds 0 : Int)) = _
  rw [Option.map_eq_some_iff] at hdigits ⊢
  obtain ⟨ds, hds, hn⟩ := hdigits
  exact ⟨ds, hds, by rw [hn]⟩

/-! ## Lines -/

def lineBreaks : List Char :=
  ['\n', '\r', '\x0b', '\x0c', '\x1c', '\x1d', '\x1e', '\x85', '\u2028', '\u2029']

def isLineBreak (c : Char) : Bool := lineBreaks.contains c

/-- `splitlines` with the line so far. `\r\n` is one break. -/
def splitlinesFrom (cur : List Char) : List Char → List (List Char)
  | [] => if cur = [] then [] else [cur]
  | c :: s =>
    if c = '\r' ∧ s.head? = some '\n' then splitlinesFrom cur s
    else if isLineBreak c then cur :: splitlinesFrom [] s
    else splitlinesFrom (cur ++ [c]) s

/-- `s.splitlines()`. -/
def splitlines (s : List Char) : List (List Char) := splitlinesFrom [] s

/-- What a text file reads as: `\r\n` and `\r` are newlines. -/
def readText : List Char → List Char
  | [] => []
  | c :: s =>
    if c = '\r' then if s.head? = some '\n' then readText s else '\n' :: readText s
    else c :: readText s

theorem readText_eq_self (h : '\r' ∉ s) : readText s = s := by
  induction s with
  | nil => rfl
  | cons c s ih =>
    rw [List.mem_cons, not_or] at h
    rw [readText, if_neg (Ne.symm h.1), ih h.2]

theorem readText_append (h : '\r' ∉ t) : readText (t ++ s) = t ++ readText s := by
  induction t with
  | nil => rfl
  | cons c t ih =>
    rw [List.mem_cons, not_or] at h
    rw [List.cons_append, readText, if_neg (Ne.symm h.1), ih h.2, List.cons_append]

theorem no_cr_readText (s : List Char) : '\r' ∉ readText s := by
  induction s with
  | nil => exact List.not_mem_nil
  | cons c s ih =>
    rw [readText]
    split
    · split
      · exact ih
      · exact List.not_mem_cons_of_ne_of_not_mem (by decide) ih
    · next hc => exact List.not_mem_cons_of_ne_of_not_mem (Ne.symm hc) ih

/-- A newline is read as one, whatever stands before it. -/
theorem readText_append_newline (a : List Char) : ∃ y, readText (a ++ '\n' :: s) = y ++ '\n' :: readText s := by
  induction a with
  | nil => exact ⟨[], rfl⟩
  | cons c a ih =>
    obtain ⟨y, hy⟩ := ih
    rw [List.cons_append, readText, hy]
    split
    · split
      · exact ⟨y, rfl⟩
      · exact ⟨'\n' :: y, rfl⟩
    · exact ⟨c :: y, rfl⟩

theorem splitlines_readText (s : List Char) : splitlines (readText s) = splitlines s := by
  have hfrom : ∀ cur, splitlinesFrom cur (readText s) = splitlinesFrom cur s := by
    induction s with
    | nil => intro cur; rfl
    | cons c s ih =>
      intro cur
      rw [readText, splitlinesFrom]
      by_cases hr : c = '\r'
      · subst hr
        by_cases hn : s.head? = some '\n'
        · rw [if_pos rfl, if_pos hn, if_pos ⟨rfl, hn⟩, ih]
        · rw [if_pos rfl, if_neg hn, if_neg fun h => hn h.2, if_pos (by decide), splitlinesFrom,
            if_neg fun h => absurd h.1 (by decide), if_pos (by decide), ih]
      · rw [if_neg hr, if_neg fun h => hr h.1, splitlinesFrom, if_neg fun h => hr h.1]
        split <;> rw [ih]
  exact hfrom []

/-- A text without line breaks. -/
def NoBreak (s : List Char) : Prop := ∀ c ∈ s, isLineBreak c = false

theorem NoBreak.no_cr (h : NoBreak s) : '\r' ∉ s := by
  intro hm
  exact absurd (h _ hm) (by decide)

/-- Induction over the lines. -/
theorem line_induction {motive : List Char → Prop} (last : ∀ w, NoBreak w → motive w)
    (line : ∀ w c s, NoBreak w → isLineBreak c = true → motive s → motive (w ++ c :: s))
    (s : List Char) : motive s := by
  have hall : ∀ w, NoBreak w → motive (w ++ s) := by
    induction s with
    | nil =>
      intro w hw
      rw [List.append_nil]
      exact last w hw
    | cons c s ih =>
      intro w hw
      cases hc : isLineBreak c with
      | true => exact line w c s hw hc (ih [] (fun _ h => absurd h List.not_mem_nil))
      | false =>
        have h := ih (w ++ [c]) ?_
        · rwa [List.append_assoc, List.singleton_append] at h
        · intro x hx
          rw [List.mem_append, List.mem_singleton] at hx
          obtain hx | rfl := hx
          · exact hw x hx
          · exact hc
  exact hall [] (fun _ h => absurd h List.not_mem_nil)

theorem splitlinesFrom_noBreak (h : NoBreak t) :
    splitlinesFrom cur (t ++ s) = splitlinesFrom (cur ++ t) s := by
  induction t generalizing cur with
  | nil => rw [List.nil_append, List.append_nil]
  | cons c t ih =>
    have hc := h c List.mem_cons_self
    have hr : c ≠ '\r' := by
      rintro rfl
      exact absurd hc (by decide)
    rw [List.cons_append, splitlinesFrom, if_neg fun hx => hr hx.1, if_neg (by simp [hc]),
      ih fun x hx => h x (List.mem_cons_of_mem c hx), List.append_assoc, List.singleton_append]

theorem splitlines_noBreak (h : NoBreak t) : splitlines t = if t = [] then [] else [t] := by
  have hfrom : splitlinesFrom [] (t ++ []) = splitlinesFrom ([] ++ t) [] := splitlinesFrom_noBreak h
  rw [List.append_nil, List.nil_append] at hfrom
  exact hfrom

/-- A text up to its first line break is its first line. -/
theorem splitlines_append {c : Char} (h : NoBreak t) (hc : isLineBreak c = true) (hr : c ≠ '\r') :
    splitlines (t ++ c :: s) = t :: splitlines s := by
  unfold splitlines
  rw [splitlinesFrom_noBreak h, splitlinesFrom, if_neg fun hx => hr hx.1, if_pos hc, List.nil_append]

end Python
