import RMARaceBench.Generator.Labels
import RMARaceBench.Generator.Tokens

/-!
# The statement at a line

`performs`: the statement that a text begins with performs an operation, by a call of its function or by a
plain load or store. It is decided up to the end of the statement (`performs_append`).
-/

set_option autoImplicit false

namespace Generator

/-! ## Words -/

/-- The word so far, if there is one. -/
def flush (cur : Text) : List Text := if cur = [] then [] else [cur]

def wordsFrom (cur : Text) : Text → List Text
  | [] => flush cur
  | c :: s =>
    if isWord c then wordsFrom (cur ++ [c]) s
    else if isSpace c then flush cur ++ wordsFrom [] s
    else flush cur ++ [c] :: wordsFrom [] s

/-- The words of a text and its other characters one by one, without the blanks. -/
def words (s : Text) : List Text := wordsFrom [] s

theorem wordsFrom_append {c : Char} (hc : isWord c = false) (cur u v : Text) :
    wordsFrom cur (u ++ c :: v) = wordsFrom cur u ++ words (c :: v) := by
  induction u generalizing cur with
  | nil =>
    simp only [List.nil_append, words, wordsFrom, hc, Bool.false_eq_true, if_false]
    split
    · rfl
    · rfl
  | cons d u ih =>
    rw [List.cons_append, wordsFrom, wordsFrom]
    split
    · exact ih (cur ++ [d])
    · split
      · rw [ih, List.append_assoc]
      · rw [ih, List.append_assoc, List.cons_append]

/-- A character that is in no word separates the words. -/
theorem words_append {c : Char} (hc : isWord c = false) (u v : Text) :
    words (u ++ c :: v) = words u ++ words (c :: v) :=
  wordsFrom_append hc [] u v

theorem words_punct {c : Char} (hw : isWord c = false) (hs : isSpace c = false) (v : Text) :
    words (c :: v) = [c] :: words v := by
  unfold words
  rw [wordsFrom, if_neg (by simp [hw]), if_neg (by simp [hs])]
  rfl

theorem words_eq_nil {s : Text} (h : ∀ c ∈ s, isSpace c = true) : words s = [] := by
  induction s with
  | nil => rfl
  | cons c s ih =>
    have hs := h c List.mem_cons_self
    have hw := not_isWord_of_isSpace hs
    have hrest := ih fun d hd => h d (List.mem_cons_of_mem c hd)
    unfold words at hrest ⊢
    rw [wordsFrom, if_neg (by simp [hw]), if_pos hs, hrest]
    rfl

/-- What stands between two braces is among the words. -/
theorem mem_words_of_braces {w u : Text} (hw : words w = [w]) (h : '\x7b' :: (w ++ ['\x7d']) <:+: u) :
    w ∈ words u := by
  obtain ⟨x, y, rfl⟩ := h
  have hu : x ++ '\x7b' :: (w ++ ['\x7d']) ++ y = x ++ '\x7b' :: (w ++ '\x7d' :: y) := by
    simp only [List.append_assoc, List.cons_append, List.nil_append]
  rw [hu, words_append (by decide), words_punct (by decide) (by decide), words_append (by decide), hw]
  simp

/-! ## Statements -/

/-- The words up to the first parenthesis or the end of the statement. -/
def callHead (ts : List Text) : List Text := ts.takeWhile fun t => t ≠ ['('] ∧ t ≠ [';']

/-- `f(…)` or `x = f(…)`. -/
def calls (f : Text) (ts : List Text) : Bool :=
  ts[(callHead ts).length]? = some ['('] ∧
    (callHead ts = [f] ∨ [['='], f].isSuffixOf (callHead ts) = true)

/-- The words of the first statement. -/
def statement (ts : List Text) : List Text := ts.takeWhile fun t => t ≠ [';']

def isName (t : Text) : Bool := t.all isWord && !t.head?.any Char.isDigit

/-- `x = …`, `*x = …` or `x[i] = …`. -/
def assigns : List Text → Bool
  | ['*'] :: ts => assigns ts
  | w :: ['='] :: _ => isName w
  | w :: ['['] :: _ :: [']'] :: ['='] :: _ => isName w
  | _ => false

/-- An assignment without a call. -/
def stores (ts : List Text) : Bool := !(statement ts).contains ['('] && assigns (statement ts)

/-- A variable that is printed, or an assignment that reads one. -/
def loads (ts : List Text) : Bool :=
  calls "printf".toList ts ||
    (stores ts && ((statement ts).dropWhile fun t => t ≠ ['=']).any isName)

/-- The statement at the begin of `ts` performs the operation. -/
def performs (op : Operation) (ts : List Text) : Bool :=
  if op.callname = "LOAD" then loads ts
  else if op.callname = "STORE" then stores ts
  else calls op.callname.toList ts

theorem takeWhile_append_of_mem {p : Text → Bool} {t : Text} {ts : List Text} (ht : t ∈ ts)
    (hp : p t = false) (rest : List Text) :
    (ts ++ rest).takeWhile p = ts.takeWhile p ∧ (ts.takeWhile p).length < ts.length := by
  induction ts with
  | nil => exact absurd ht List.not_mem_nil
  | cons u ts ih =>
    cases hu : p u with
    | false =>
      rw [List.cons_append, List.takeWhile_cons_of_neg (by simp [hu]),
        List.takeWhile_cons_of_neg (by simp [hu])]
      exact ⟨rfl, Nat.succ_pos _⟩
    | true =>
      have hmem : t ∈ ts := by
        obtain rfl | hm := List.mem_cons.1 ht
        · rw [hu] at hp
          cases hp
        · exact hm
      obtain ⟨heq, hlt⟩ := ih hmem
      rw [List.cons_append, List.takeWhile_cons_of_pos hu, List.takeWhile_cons_of_pos hu, heq]
      exact ⟨rfl, Nat.succ_lt_succ hlt⟩

/-- What a statement performs is decided before what follows it. -/
theorem performs_append (op : Operation) {ts : List Text} (h : [';'] ∈ ts) (rest : List Text) :
    performs op (ts ++ rest) = performs op ts := by
  obtain ⟨hhead, hlt⟩ := takeWhile_append_of_mem (p := fun t => t ≠ ['('] ∧ t ≠ [';']) h (by decide) rest
  obtain ⟨hstmt, -⟩ := takeWhile_append_of_mem (p := fun t => t ≠ [';']) h (by decide) rest
  have hcalls : ∀ f, calls f (ts ++ rest) = calls f ts := by
    intro f
    unfold calls callHead
    rw [hhead, List.getElem?_append_left hlt]
  have hstatement : statement (ts ++ rest) = statement ts := hstmt
  unfold performs loads stores
  rw [hcalls, hcalls, hstatement]

end Generator
