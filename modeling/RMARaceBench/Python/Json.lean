import Mathlib.Data.List.Basic
import Mathlib.Data.Nat.Digits.Defs

/-!
# JSON texts

`json.loads(s, strict=False)` of Python. `Reads d t j`: the text `t` is scanned to the value `j` by any scanner
that may nest `d` values, whatever stands behind it.

* `Reads.str`, `Reads.nat`, `Reads.arr`, `Reads.obj`: texts of values from texts of their parts.
* `loads_eq`: a text that reads as a value is loaded.
-/

set_option autoImplicit false

namespace Python

inductive Json
  | null
  | bool (b : Bool)
  | int (n : Int)
  | float (literal : List Char)
  | str (s : List Char)
  | arr (items : List Json)
  | obj (members : List (List Char × Json))

namespace Json

/-! ## The scanner -/

def isWs (c : Char) : Bool := c = ' ' || c = '\t' || c = '\n' || c = '\r'

def skipWs (s : List Char) : List Char := s.dropWhile isWs

def hexValue (c : Char) : Option Nat :=
  if c.isDigit then some (c.toNat - '0'.toNat)
  else if 'a' ≤ c ∧ c ≤ 'f' then some (c.toNat - 'a'.toNat + 10)
  else if 'A' ≤ c ∧ c ≤ 'F' then some (c.toNat - 'A'.toNat + 10)
  else none

/-- The four digits behind `\u`. -/
def hex4 (a b c d : Char) : Option Nat := do
  let a ← hexValue a
  let b ← hexValue b
  let c ← hexValue c
  let d ← hexValue d
  some (((a * 16 + b) * 16 + c) * 16 + d)

/-- The character of an escape with one letter. -/
def escape : Char → Option Char
  | '"' => some '"'
  | '\\' => some '\\'
  | '/' => some '/'
  | 'b' => some '\x08'
  | 'f' => some '\x0c'
  | 'n' => some '\n'
  | 'r' => some '\r'
  | 't' => some '\t'
  | _ => none

def push (c : Char) (p : List Char × List Char) : List Char × List Char := (c :: p.1, p.2)

/-- The rest of a string behind its opening quote. Without `strict`, control characters may stand in it.
Surrogates that are not a pair are no characters here. -/
def scanString : List Char → Option (List Char × List Char)
  | [] => none
  | c :: s =>
    if c = '"' then some ([], s)
    else if c = '\\' then
      match s with
      | 'u' :: h1 :: h2 :: h3 :: h4 :: s =>
        match hex4 h1 h2 h3 h4 with
        | none => none
        | some n =>
          if 0xd800 ≤ n ∧ n < 0xdc00 then
            match s with
            | '\\' :: 'u' :: l1 :: l2 :: l3 :: l4 :: s =>
              match hex4 l1 l2 l3 l4 with
              | none => none
              | some m =>
                if 0xdc00 ≤ m ∧ m < 0xe000 then
                  (scanString s).map
                    (push (Char.ofNat (0x10000 + (n - 0xd800) * 0x400 + (m - 0xdc00))))
                else none
            | _ => none
          else if 0xdc00 ≤ n ∧ n < 0xe000 then none
          else (scanString s).map (push (Char.ofNat n))
      | e :: s =>
        match escape e with
        | none => none
        | some x => (scanString s).map (push x)
      | [] => none
    else (scanString s).map (push c)

def digits (s : List Char) : List Char := s.takeWhile Char.isDigit

/-- `(\.[0-9]+)?`. -/
def fraction : List Char → List Char
  | '.' :: s => if digits s = [] then [] else '.' :: digits s
  | _ => []

/-- `([eE][-+]?[0-9]+)?`. -/
def exponent : List Char → List Char
  | c :: s =>
    if c = 'e' ∨ c = 'E' then
      match s with
      | '-' :: s => if digits s = [] then [] else c :: '-' :: digits s
      | '+' :: s => if digits s = [] then [] else c :: '+' :: digits s
      | s => if digits s = [] then [] else c :: digits s
    else []
  | [] => []

/-- `0|[1-9][0-9]*`. -/
def integer : List Char → List Char
  | '0' :: _ => ['0']
  | s => digits s

def scanNatural (negative : Bool) (s : List Char) : Option (Json × List Char) :=
  let ds := integer s
  if ds = [] then none
  else
    let n : Int := Nat.ofDigitChars 10 ds 0
    let s := s.drop ds.length
    let frac := fraction s
    let s := s.drop frac.length
    let exp := exponent s
    let s := s.drop exp.length
    if frac = [] ∧ exp = [] then some (.int (if negative then -n else n), s)
    else some (.float ((if negative then ['-'] else []) ++ ds ++ frac ++ exp), s)

/-- Constants and numbers. -/
def scanAtom : List Char → Option (Json × List Char)
  | 'n' :: 'u' :: 'l' :: 'l' :: s => some (.null, s)
  | 't' :: 'r' :: 'u' :: 'e' :: s => some (.bool true, s)
  | 'f' :: 'a' :: 'l' :: 's' :: 'e' :: s => some (.bool false, s)
  | 'N' :: 'a' :: 'N' :: s => some (.float "NaN".toList, s)
  | 'I' :: 'n' :: 'f' :: 'i' :: 'n' :: 'i' :: 't' :: 'y' :: s => some (.float "Infinity".toList, s)
  | '-' :: 'I' :: 'n' :: 'f' :: 'i' :: 'n' :: 'i' :: 't' :: 'y' :: s =>
    some (.float "-Infinity".toList, s)
  | '-' :: s => scanNatural true s
  | s => scanNatural false s

/-- The items of an array, with a scanner for values. -/
def scanItems (value : List Char → Option (Json × List Char)) :
    Nat → List Char → Option (List Json × List Char)
  | 0, _ => none
  | n + 1, s =>
    match value s with
    | none => none
    | some (v, s) =>
      match skipWs s with
      | ']' :: s => some ([v], s)
      | ',' :: s => (scanItems value n (skipWs s)).map fun p => (v :: p.1, p.2)
      | _ => none

/-- The members of an object, with a scanner for values. -/
def scanMembers (value : List Char → Option (Json × List Char)) :
    Nat → List Char → Option (List (List Char × Json) × List Char)
  | 0, _ => none
  | n + 1, s =>
    match s with
    | '"' :: s =>
      match scanString s with
      | none => none
      | some (key, s) =>
        match skipWs s with
        | ':' :: s =>
          match value (skipWs s) with
          | none => none
          | some (v, s) =>
            match skipWs s with
            | '}' :: s => some ([(key, v)], s)
            | ',' :: s => (scanMembers value n (skipWs s)).map fun p => ((key, v) :: p.1, p.2)
            | _ => none
        | _ => none
    | _ => none

/-- A value at the start of a text; `fuel` bounds how deep values are nested. -/
def scanValue : Nat → List Char → Option (Json × List Char)
  | 0, _ => none
  | fuel + 1, s =>
    match s with
    | '"' :: s => (scanString s).map fun p => (.str p.1, p.2)
    | '{' :: s =>
      match skipWs s with
      | '}' :: s => some (.obj [], s)
      | s => (scanMembers (scanValue fuel) s.length s).map fun p => (.obj p.1, p.2)
    | '[' :: s =>
      match skipWs s with
      | ']' :: s => some (.arr [], s)
      | s => (scanItems (scanValue fuel) s.length s).map fun p => (.arr p.1, p.2)
    | s => scanAtom s

/-- `json.loads(s, strict=False)`. -/
def loads (s : List Char) : Option Json :=
  match scanValue (s.length + 1) (skipWs s) with
  | some (v, s) => if skipWs s = [] then some v else none
  | none => none

/-- `d[key]` for a loaded object: the last member with the key counts. -/
def getItem (key : List Char) : Json → Option Json
  | .obj members => (members.reverse.find? fun m => m.1 = key).map Prod.snd
  | _ => none

/-! ## Whitespace -/

theorem skipWs_append {ws : List Char} (h : ∀ c ∈ ws, isWs c = true) (s : List Char) :
    skipWs (ws ++ s) = skipWs s := by
  unfold skipWs
  rw [List.dropWhile_append_of_pos h]

/-- A text that does not start with whitespace. -/
def Solid (s : List Char) : Prop := ∀ c ∈ s.head?, isWs c = false

theorem Solid.skipWs {s : List Char} (h : Solid s) : skipWs s = s := by
  cases s with
  | nil => rfl
  | cons c s => exact List.dropWhile_cons_of_neg (by simp [h c rfl])

/-! ## Strings and numbers -/

theorem scanString_cons {c : Char} (h : c ≠ '"' ∧ c ≠ '\\') (s : List Char) :
    scanString (c :: s) = (scanString s).map (push c) := by
  rw [scanString.eq_def]
  dsimp only
  rw [if_neg h.1, if_neg h.2]

/-- A string without quotes and backslashes ends at the next quote. -/
theorem scanString_append {t : List Char} (h : ∀ c ∈ t, c ≠ '"' ∧ c ≠ '\\') (s : List Char) :
    scanString (t ++ '"' :: s) = some (t, s) := by
  induction t with
  | nil =>
    rw [List.nil_append, scanString.eq_def]
    exact if_pos rfl
  | cons c t ih =>
    rw [List.cons_append, scanString_cons (h c List.mem_cons_self),
      ih fun x hx => h x (List.mem_cons_of_mem c hx)]
    rfl

/-- What may stand behind a number. -/
def Stops (s : List Char) : Prop := ∀ c ∈ s.head?, c.isDigit = false ∧ c ≠ '.' ∧ c ≠ 'e' ∧ c ≠ 'E'

theorem digits_append {ds s : List Char} (hd : ∀ c ∈ ds, c.isDigit = true) (hs : Stops s) :
    digits (ds ++ s) = ds := by
  unfold digits
  rw [List.takeWhile_append_of_pos hd]
  cases s with
  | nil => simp
  | cons c s => rw [List.takeWhile_cons_of_neg (by simp [(hs c rfl).1]), List.append_nil]

theorem Stops.fraction {s : List Char} (h : Stops s) : fraction s = [] := by
  cases s with
  | nil => rfl
  | cons c s =>
    unfold Json.fraction
    split
    · next heq => exact absurd (List.cons_eq_cons.1 heq).1 (h c rfl).2.1
    · rfl

theorem Stops.exponent {s : List Char} (h : Stops s) : exponent s = [] := by
  cases s with
  | nil => rfl
  | cons c s =>
    obtain ⟨-, -, he, hE⟩ := h c rfl
    rw [Json.exponent.eq_def]
    exact if_neg (not_or.2 ⟨he, hE⟩)

/-- A number other than 0 is not written with a leading 0. -/
theorem toDigits_head {n : Nat} (hn : n ≠ 0) : ∃ c ds, Nat.toDigits 10 n = c :: ds ∧ c ≠ '0' := by
  induction n using Nat.strongRecOn with
  | ind n ih =>
    by_cases h : n < 10
    · exact ⟨n.digitChar, [], Nat.toDigits_of_lt_base h, fun he => hn (Nat.digitChar_eq_zero.1 he)⟩
    · obtain ⟨c, ds, he, hc⟩ := ih (n / 10) (by omega) (by omega)
      rw [Nat.toDigits_of_base_le (by decide) (by omega), he]
      exact ⟨c, ds ++ [(n % 10).digitChar], rfl, hc⟩

theorem toDigits_isDigit (n : Nat) : ∀ c ∈ Nat.toDigits 10 n, c.isDigit = true := fun _ hc =>
  Nat.isDigit_of_mem_toDigits (by decide) (by decide) hc

theorem integer_append (n : Nat) {s : List Char} (hs : Stops s) :
    integer (Nat.toDigits 10 n ++ s) = Nat.toDigits 10 n := by
  by_cases hn : n = 0
  · subst hn
    rw [Nat.toDigits_zero]
    rfl
  · have hd := digits_append (toDigits_isDigit n) hs
    obtain ⟨c, ds, he, hc⟩ := toDigits_head hn
    rw [he, List.cons_append] at hd ⊢
    unfold integer
    split
    · next heq => exact absurd (List.cons_eq_cons.1 heq).1 hc
    · exact hd

theorem scanNatural_toDigits (n : Nat) {s : List Char} (hs : Stops s) :
    scanNatural false (Nat.toDigits 10 n ++ s) = some (.int n, s) := by
  unfold scanNatural
  rw [integer_append n hs, if_neg Nat.toDigits_ne_nil, List.drop_left]
  simp only [hs.fraction, List.length_nil, List.drop_zero, hs.exponent, and_self, if_true,
    Bool.false_eq_true, if_false, Nat.ofDigitChars_toDigits (b := 10) (n := n) (by decide) (by decide)]

/-- A digit starts a number. -/
theorem scanValue_digit {c : Char} (hc : c.isDigit = true) (fuel : Nat) (s : List Char) :
    scanValue (fuel + 1) (c :: s) = scanNatural false (c :: s) := by
  have hne : ∀ x : Char, x.isDigit = false → c ≠ x := by
    rintro x hx rfl
    rw [hc] at hx
    cases hx
  have hatom : scanAtom (c :: s) = scanNatural false (c :: s) := by
    unfold scanAtom
    split
    · next heq => exact absurd (List.cons_eq_cons.1 heq).1 (hne _ rfl)
    · next heq => exact absurd (List.cons_eq_cons.1 heq).1 (hne _ rfl)
    · next heq => exact absurd (List.cons_eq_cons.1 heq).1 (hne _ rfl)
    · next heq => exact absurd (List.cons_eq_cons.1 heq).1 (hne _ rfl)
    · next heq => exact absurd (List.cons_eq_cons.1 heq).1 (hne _ rfl)
    · next heq => exact absurd (List.cons_eq_cons.1 heq).1 (hne _ rfl)
    · next heq => exact absurd (List.cons_eq_cons.1 heq).1 (hne _ rfl)
    · rfl
  unfold scanValue
  split
  · next heq => exact absurd (List.cons_eq_cons.1 heq).1 (hne _ rfl)
  · next heq => exact absurd (List.cons_eq_cons.1 heq).1 (hne _ rfl)
  · next heq => exact absurd (List.cons_eq_cons.1 heq).1 (hne _ rfl)
  · exact hatom

/-! ## Texts of values -/

/-- A text of a value: it starts with the value and is scanned to it, whatever stands behind it. -/
structure Reads (d : Nat) (t : List Char) (j : Json) : Prop where
  ne_nil : t ≠ []
  start : ∀ c ∈ t.head?, isWs c = false ∧ c ≠ ']'
  scan : ∀ fuel s, d ≤ fuel → Stops s → scanValue fuel (t ++ s) = some (j, s)

theorem Reads.start_append {d : Nat} {t : List Char} {j : Json} (h : Reads d t j) (s : List Char) :
    ∀ c ∈ (t ++ s).head?, isWs c = false ∧ c ≠ ']' := by
  obtain ⟨c, t', rfl⟩ := List.exists_cons_of_ne_nil h.ne_nil
  exact h.start

theorem Reads.noSkip {d : Nat} {t : List Char} {j : Json} (h : Reads d t j) (s : List Char) :
    skipWs (t ++ s) = t ++ s :=
  Solid.skipWs fun c hc => (h.start_append s c hc).1

theorem Reads.mono {d d' : Nat} {t : List Char} {j : Json} (h : Reads d t j) (hd : d ≤ d') :
    Reads d' t j :=
  ⟨h.ne_nil, h.start, fun fuel s hf => h.scan fuel s (Nat.le_trans hd hf)⟩

theorem Reads.str {t : List Char} (h : ∀ c ∈ t, c ≠ '"' ∧ c ≠ '\\') :
    Reads 1 ('"' :: (t ++ ['"'])) (.str t) where
  ne_nil := List.cons_ne_nil _ _
  start := by
    intro c hc
    cases hc
    decide
  scan := by
    intro fuel s hf _
    obtain ⟨n, rfl⟩ : ∃ n, fuel = n + 1 := ⟨fuel - 1, by omega⟩
    rw [List.cons_append, List.append_assoc, List.singleton_append]
    show (scanString (t ++ '"' :: s)).map _ = _
    rw [scanString_append h]
    rfl

theorem Reads.nat (n : Nat) : Reads 1 (Nat.toDigits 10 n) (.int n) where
  ne_nil := Nat.toDigits_ne_nil
  start := by
    intro c hc
    have hd := toDigits_isDigit n c (List.mem_of_mem_head? hc)
    unfold isWs
    simp only [Bool.or_eq_false_iff, decide_eq_false_iff_not]
    refine ⟨⟨⟨⟨?_, ?_⟩, ?_⟩, ?_⟩, ?_⟩ <;> (rintro rfl; cases hd)
  scan := by
    intro fuel s hf hs
    obtain ⟨m, rfl⟩ : ∃ m, fuel = m + 1 := ⟨fuel - 1, by omega⟩
    obtain ⟨c, ds, he⟩ := List.exists_cons_of_ne_nil (Nat.toDigits_ne_nil (n := n) (b := 10))
    have hc : c.isDigit = true := toDigits_isDigit n c (he ▸ List.mem_cons_self)
    have hscan := scanNatural_toDigits n hs
    rw [he, List.cons_append] at hscan ⊢
    rw [scanValue_digit hc, hscan]

/-! ### Arrays -/

theorem Stops.cons {c : Char} (h : c.isDigit = false ∧ c ≠ '.' ∧ c ≠ 'e' ∧ c ≠ 'E')
    (s : List Char) : Stops (c :: s) := by
  intro x hx
  obtain rfl := Option.some.inj hx
  exact h

/-- The items of an array behind its bracket. -/
def itemsText (t : List Char) : List (List Char) → List Char
  | [] => t ++ [']']
  | t' :: ts => t ++ ',' :: itemsText t' ts

theorem length_itemsText (t : List Char) (ts : List (List Char)) :
    ts.length < (itemsText t ts).length := by
  induction ts generalizing t with
  | nil => simp [itemsText]
  | cons t' ts ih =>
    have := ih t'
    simp only [itemsText, List.length_append, List.length_cons]
    omega

theorem Reads.noSkip_items {d : Nat} {t : List Char} {j : Json} (h : Reads d t j)
    (ts : List (List Char)) (s : List Char) :
    skipWs (itemsText t ts ++ s) = itemsText t ts ++ s ∧
      ∀ c ∈ (itemsText t ts ++ s).head?, c ≠ ']' := by
  obtain ⟨x, hx⟩ : ∃ x, itemsText t ts ++ s = t ++ x := by
    cases ts with
    | nil => exact ⟨_, by rw [itemsText, List.append_assoc]⟩
    | cons t' ts => exact ⟨_, by rw [itemsText, List.append_assoc]⟩
  rw [hx]
  exact ⟨h.noSkip x, fun c hc => (h.start_append x c hc).2⟩

theorem scanItems_itemsText {d fuel : Nat} (hf : d ≤ fuel) {t : List Char} {ts : List (List Char)}
    {j : Json} {js : List Json} (h : Reads d t j) (hs : List.Forall₂ (Reads d) ts js)
    {n : Nat} (hn : ts.length < n) (s : List Char) :
    scanItems (scanValue fuel) n (itemsText t ts ++ s) = some (j :: js, s) := by
  induction hs generalizing t j n with
  | nil =>
    obtain ⟨n, rfl⟩ : ∃ m, n = m + 1 := ⟨n - 1, by simp at hn; omega⟩
    rw [itemsText, List.append_assoc, List.singleton_append, scanItems,
      h.scan fuel _ hf (.cons (by decide) s)]
    rfl
  | @cons t' j' ts js h' hs ih =>
    obtain ⟨n, rfl⟩ : ∃ m, n = m + 1 := ⟨n - 1, by simp at hn; omega⟩
    have hrest := ih h' (show ts.length < n by simpa using hn)
    rw [itemsText, List.append_assoc, List.cons_append, scanItems,
      h.scan fuel _ hf (.cons (by decide) _)]
    show (scanItems (scanValue fuel) n (skipWs (itemsText t' ts ++ s))).map _ = _
    rw [(h'.noSkip_items ts s).1, hrest]
    rfl

theorem scanValue_array {n : Nat} {s : List Char} (hs : skipWs s = s)
    (hne : ∀ c ∈ s.head?, c ≠ ']') :
    scanValue (n + 1) ('[' :: s) =
      (scanItems (scanValue n) s.length s).map fun p => (.arr p.1, p.2) := by
  show (match skipWs s with
    | ']' :: s => some (Json.arr [], s)
    | s => (scanItems (scanValue n) s.length s).map
        fun p : List Json × List Char => (Json.arr p.1, p.2)) = _
  rw [hs]
  split
  · exact absurd rfl (hne ']' rfl)
  · rfl

/-- An array of values. -/
theorem Reads.arr {d : Nat} {t : List Char} {ts : List (List Char)} {j : Json} {js : List Json}
    (h : Reads d t j) (hs : List.Forall₂ (Reads d) ts js) :
    Reads (d + 1) ('[' :: itemsText t ts) (.arr (j :: js)) where
  ne_nil := List.cons_ne_nil _ _
  start := by
    intro c hc
    cases hc
    decide
  scan := by
    intro fuel s hf _
    obtain ⟨n, rfl⟩ : ∃ n, fuel = n + 1 := ⟨fuel - 1, by omega⟩
    have hscan := scanItems_itemsText (show d ≤ n by omega) h hs
      (show ts.length < (itemsText t ts ++ s).length by
        have := length_itemsText t ts
        rw [List.length_append]
        omega) s
    obtain ⟨hws, hne⟩ := h.noSkip_items ts s
    rw [List.cons_append, scanValue_array hws hne, hscan]
    rfl

/-! ### Objects -/

/-- The members of an object, each after the whitespace `ws`, and the whitespace `close` before the brace. -/
def membersText (ws close : List Char) (m : List Char × List Char) :
    List (List Char × List Char) → List Char
  | [] => '"' :: (m.1 ++ '"' :: ':' :: ' ' :: (m.2 ++ (close ++ ['}'])))
  | m' :: ms => '"' :: (m.1 ++ '"' :: ':' :: ' ' :: (m.2 ++ ',' :: (ws ++ membersText ws close m' ms)))

/-- A member: a key without quotes and backslashes, and the text of its value. -/
structure ReadsMember (d : Nat) (m : List Char × List Char) (x : List Char × Json) : Prop where
  key : m.1 = x.1
  plain : ∀ c ∈ m.1, c ≠ '"' ∧ c ≠ '\\'
  value : Reads d m.2 x.2

theorem length_membersText (ws close : List Char) (m : List Char × List Char)
    (ms : List (List Char × List Char)) : ms.length < (membersText ws close m ms).length := by
  induction ms generalizing m with
  | nil => simp [membersText]
  | cons m' ms ih =>
    have := ih m'
    simp only [membersText, List.length_append, List.length_cons]
    omega

theorem membersText_cons (ws close : List Char) (m : List Char × List Char)
    (ms : List (List Char × List Char)) : ∃ s, membersText ws close m ms = '"' :: s := by
  cases ms with
  | nil => exact ⟨_, rfl⟩
  | cons m' ms => exact ⟨_, rfl⟩

theorem membersText_concat (ws close : List Char) (m : List Char × List Char)
    (ms : List (List Char × List Char)) : ∃ s, membersText ws close m ms = s ++ ['}'] := by
  induction ms generalizing m with
  | nil =>
    refine ⟨'"' :: (m.1 ++ '"' :: ':' :: ' ' :: (m.2 ++ close)), ?_⟩
    simp only [membersText, List.cons_append, List.append_assoc]
  | cons m' ms ih =>
    obtain ⟨s, hs⟩ := ih m'
    refine ⟨'"' :: (m.1 ++ '"' :: ':' :: ' ' :: (m.2 ++ ',' :: (ws ++ s))), ?_⟩
    simp only [membersText, hs, List.cons_append, List.append_assoc]

theorem stops_ws {ws : List Char} (h : ∀ c ∈ ws, isWs c = true) {s : List Char} (hs : Stops s) :
    Stops (ws ++ s) := by
  cases ws with
  | nil => exact hs
  | cons c ws =>
    have hc := h c List.mem_cons_self
    unfold isWs at hc
    simp only [Bool.or_eq_true, decide_eq_true_eq] at hc
    refine .cons ?_ _
    obtain ((rfl | rfl) | rfl) | rfl := hc <;> decide

theorem scanMembers_cons {value : List Char → Option (Json × List Char)} {n : Nat}
    {key : List Char} (hk : ∀ c ∈ key, c ≠ '"' ∧ c ≠ '\\') {s s' : List Char} {j : Json}
    (hv : value (skipWs (' ' :: s)) = some (j, s')) :
    scanMembers value (n + 1) ('"' :: (key ++ '"' :: ':' :: ' ' :: s)) =
      match skipWs s' with
      | '}' :: s => some ([(key, j)], s)
      | ',' :: s => (scanMembers value n (skipWs s)).map fun p => ((key, j) :: p.1, p.2)
      | _ => none := by
  rw [scanMembers, scanString_append hk]
  show (match value (skipWs (' ' :: s)) with
    | none => none
    | some (v, s) => _) = _
  rw [hv]

theorem scanMembers_membersText {d fuel : Nat} (hf : d ≤ fuel) {ws close : List Char}
    (hws : ∀ c ∈ ws, isWs c = true) (hclose : ∀ c ∈ close, isWs c = true)
    {m : List Char × List Char} {ms : List (List Char × List Char)} {x : List Char × Json}
    {xs : List (List Char × Json)} (h : ReadsMember d m x)
    (hs : List.Forall₂ (ReadsMember d) ms xs) {n : Nat} (hn : ms.length < n) (s : List Char) :
    scanMembers (scanValue fuel) n (membersText ws close m ms ++ s) = some (x :: xs, s) := by
  have hvalue : ∀ {m : List Char × List Char} {x : List Char × Json}, ReadsMember d m x →
      ∀ s, Stops s → scanValue fuel (skipWs (' ' :: (m.2 ++ s))) = some (x.2, s) := by
    intro m x h s hs
    rw [show skipWs (' ' :: (m.2 ++ s)) = m.2 ++ s from h.value.noSkip s]
    exact h.value.scan fuel s hf hs
  have hx : ∀ {m : List Char × List Char} {x : List Char × Json}, ReadsMember d m x →
      (m.1, x.2) = x := fun h => Prod.ext h.key rfl
  induction hs generalizing m x n with
  | nil =>
    obtain ⟨n, rfl⟩ : ∃ m, n = m + 1 := ⟨n - 1, by simp at hn; omega⟩
    have hstop : Stops (close ++ '}' :: s) := stops_ws hclose (.cons (by decide) s)
    have hv := hvalue h _ hstop
    simp only [membersText, List.cons_append, List.append_assoc, List.nil_append]
    rw [scanMembers_cons h.plain hv, skipWs_append hclose, hx h]
    rfl
  | @cons m' x' ms xs h' hs ih =>
    obtain ⟨n, rfl⟩ : ∃ m, n = m + 1 := ⟨n - 1, by simp at hn; omega⟩
    have hv := hvalue h (',' :: (ws ++ (membersText ws close m' ms ++ s))) (.cons (by decide) _)
    have hrest := ih h' (show ms.length < n by simpa using hn)
    simp only [membersText, List.cons_append, List.append_assoc]
    rw [scanMembers_cons h.plain hv, hx h]
    show (scanMembers (scanValue fuel) n (skipWs (ws ++ (membersText ws close m' ms ++ s)))).map _ = _
    obtain ⟨t, ht⟩ := membersText_cons ws close m' ms
    rw [skipWs_append hws, show skipWs (membersText ws close m' ms ++ s) =
      membersText ws close m' ms ++ s by rw [ht]; rfl, hrest]
    rfl

/-- An object of members. -/
theorem Reads.obj {d : Nat} {ws close : List Char} (hws : ∀ c ∈ ws, isWs c = true)
    (hclose : ∀ c ∈ close, isWs c = true) {m : List Char × List Char}
    {ms : List (List Char × List Char)} {x : List Char × Json} {xs : List (List Char × Json)}
    (h : ReadsMember d m x) (hs : List.Forall₂ (ReadsMember d) ms xs) :
    Reads (d + 1) ('{' :: (ws ++ membersText ws close m ms)) (.obj (x :: xs)) where
  ne_nil := List.cons_ne_nil _ _
  start := by
    intro c hc
    cases hc
    decide
  scan := by
    intro fuel s hf _
    obtain ⟨n, rfl⟩ : ∃ n, fuel = n + 1 := ⟨fuel - 1, by omega⟩
    have hscan := scanMembers_membersText (show d ≤ n by omega) hws hclose h hs
      (show ms.length < (membersText ws close m ms ++ s).length by
        have := length_membersText ws close m ms
        rw [List.length_append]
        omega) s
    obtain ⟨t, ht⟩ := membersText_cons ws close m ms
    rw [List.cons_append, List.append_assoc]
    rw [ht, List.cons_append] at hscan ⊢
    show (match skipWs (ws ++ '"' :: (t ++ s)) with
      | '}' :: s => some (Json.obj [], s)
      | s => (scanMembers (scanValue n) s.length s).map
          fun p : List (List Char × Json) × List Char => (Json.obj p.1, p.2)) = _
    rw [skipWs_append hws]
    show (scanMembers (scanValue n) ('"' :: (t ++ s)).length ('"' :: (t ++ s))).map _ = _
    rw [hscan]
    rfl

/-! ## Loading -/

theorem loads_eq {d : Nat} {t : List Char} {j : Json} (h : Reads d t j) (hd : d ≤ t.length + 1) :
    loads t = some j := by
  have hscan := h.scan (t.length + 1) [] hd (fun c hc => by cases hc)
  rw [List.append_nil] at hscan
  unfold loads
  rw [← List.append_nil t, h.noSkip, List.append_nil, hscan]
  rfl

end Json

end Python
