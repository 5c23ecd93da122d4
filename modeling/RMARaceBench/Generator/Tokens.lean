import RMARaceBench.Generator.Replace

/-!
# Operation codes as C tokens

`lex` reads the tokens of a text. A token of several punctuation characters is the sequence of its
characters, a number with a point or a signed exponent that of its parts. A text with a comment or an
unfinished literal is not a sequence of tokens.

`Code` is what an operation's code can be: items that spell tokens and blanks, with the `&` that takes
an address told from the other ones, so spaced that `lex` reads them again (`Code.lex_text`).
-/

set_option autoImplicit false

namespace Generator

/-! ## Characters

A quantifier over the characters of a text is decided over the text, not over all characters. -/

instance (priority := high) decidableForallText (s : Text) (p : Char → Prop) [DecidablePred p] :
    Decidable (∀ c ∈ s, p c) := List.decidableBAll p s

instance (priority := high) decidableExistsText (s : Text) (p : Char → Prop) [DecidablePred p] :
    Decidable (∃ c ∈ s, p c) := List.decidableBEx p s

instance (priority := high) decidableForallHead (o : Option Char) (p : Char → Prop)
    [DecidablePred p] : Decidable (∀ c ∈ o, p c) :=
  match o with
  | none => .isTrue nofun
  | some c => decidable_of_iff (p c) ⟨fun h _ hd => Option.some.inj hd ▸ h, fun h => h c rfl⟩

/-- Identifiers and numbers are runs of these. -/
def isWord (c : Char) : Bool := c.isAlphanum || c == '_' || 127 < c.toNat

def isSpace (c : Char) : Bool := [' ', '\t', '\n', '\r', '\x0b', '\x0c'].contains c

def isQuote (c : Char) : Bool := c == '"' || c == '\''

def isPunct (c : Char) : Bool := !(isWord c || isSpace c || isQuote c)

theorem not_isWord_of_isSpace {c : Char} (h : isSpace c = true) : isWord c = false := by
  simp only [isSpace, List.contains_eq_mem, List.mem_cons, List.not_mem_nil, or_false,
    decide_eq_true_eq] at h
  rcases h with rfl | rfl | rfl | rfl | rfl | rfl <;> decide

theorem not_isSpace_of_isWord {c : Char} (h : isWord c = true) : isSpace c = false := by
  cases hs : isSpace c with
  | false => rfl
  | true => rw [not_isWord_of_isSpace hs] at h; cases h

theorem not_isWord_of_isQuote {c : Char} (h : isQuote c = true) : isWord c = false := by
  simp only [isQuote, Bool.or_eq_true, beq_iff_eq] at h
  rcases h with rfl | rfl <;> decide

theorem not_isSpace_of_isQuote {c : Char} (h : isQuote c = true) : isSpace c = false := by
  simp only [isQuote, Bool.or_eq_true, beq_iff_eq] at h
  rcases h with rfl | rfl <;> decide

theorem isPunct_iff {c : Char} :
    isPunct c = true ↔ isWord c = false ∧ isSpace c = false ∧ isQuote c = false := by
  simp [isPunct, and_assoc]

/-! ## Lexing -/

inductive Lexeme
  | word (w : Text)
  /-- A string literal is only its quotes. -/
  | lit (quote : Char) (s : Text)
  | punct (c : Char)
  deriving DecidableEq, Repr

/-- What a literal shows of its body. -/
def shown (quote : Char) (s : Text) : Text := if quote == '"' then [] else s

/-- The character in front of a word, which it begins if `joins`. -/
def addWord (c : Char) (joins : Bool) : List Lexeme → List Lexeme
  | .word w :: ls => if joins then .word (c :: w) :: ls else .word [c] :: .word w :: ls
  | ls => .word [c] :: ls

/-- The character in front of the rest of a literal's body. -/
def addLit (c : Char) : List Lexeme → List Lexeme
  | .lit quote s :: ls => .lit quote (shown quote (c :: s)) :: ls
  | ls => ls

inductive Mode
  | code
  | literal (quote : Char) (escaped : Bool)

def lex : Mode → Text → Option (List Lexeme)
  | .code, [] => some []
  | .literal _ _, [] => none
  | .code, c :: s =>
    if isWord c then (lex .code s).map (addWord c (s.head?.any isWord))
    else if isSpace c then lex .code s
    else if isQuote c then lex (.literal c false) s
    -- a comment begins
    else if c == '/' && s.head?.any fun d => d == '/' || d == '*' then none
    else (lex .code s).map (.punct c :: ·)
  | .literal quote true, c :: s => (lex (.literal quote false) s).map (addLit c)
  | .literal quote false, c :: s =>
    if c == quote then (lex .code s).map (.lit quote [] :: ·)
    else (lex (.literal quote (c == '\\')) s).map (addLit c)

/-! ## Items -/

/-- The body of a literal: no quote but an escaped one, and the last character is not an open escape. -/
def isBody (quote : Char) : Bool → Text → Bool
  | escaped, [] => !escaped
  | true, _ :: s => isBody quote false s
  | false, c :: s => c != quote && isBody quote (c == '\\') s

/-- An identifier or a number. -/
structure Word where
  text : Text
  nonempty : text ≠ []
  isWord : ∀ c ∈ text, isWord c = true

/-- A string literal or a character constant. -/
structure Literal where
  quote : Char
  body : Text
  isQuote : isQuote quote = true
  isBody : isBody quote false body = true

inductive Token
  | word (w : Word)
  | lit (l : Literal)
  /-- `&`, which takes an address or does not. -/
  | amp (address : Bool)
  | punct (c : Char) (isPunct : isPunct c = true) (notAmp : c ≠ '&')

inductive Item
  | token (t : Token)
  | space (c : Char) (isSpace : isSpace c = true)

namespace Token

def text : Token → Text
  | word w => w.text
  | lit l => l.quote :: (l.body ++ [l.quote])
  | amp _ => ['&']
  | punct c _ _ => [c]

def lexeme : Token → Lexeme
  | word w => .word w.text
  | lit l => .lit l.quote (shown l.quote l.body)
  | amp _ => .punct '&'
  | punct c _ _ => .punct c

end Token

namespace Item

def text : Item → Text
  | token t => t.text
  | space c _ => [c]

def token? : Item → Option Token
  | token t => some t
  | space _ _ => none

/-- Two items next to each other that the lexer reads apart. -/
def Apart : Item → Item → Prop
  | token (.word _), token (.word _) => False
  | token (.punct c _ _), token (.punct d _ _) => c = '/' → d ≠ '/' ∧ d ≠ '*'
  | _, _ => True

instance (p q : Item) : Decidable (p.Apart q) :=
  match p, q with
  | token (.word _), token (.word _) => .isFalse id
  | token (.punct c _ _), token (.punct d _ _) =>
    inferInstanceAs (Decidable (c = '/' → d ≠ '/' ∧ d ≠ '*'))
  | token (.word _), token (.lit _) | token (.word _), token (.amp _)
  | token (.word _), token (.punct _ _ _) | token (.word _), space _ _
  | token (.punct _ _ _), token (.word _) | token (.punct _ _ _), token (.lit _)
  | token (.punct _ _ _), token (.amp _) | token (.punct _ _ _), space _ _
  | token (.lit _), _ | token (.amp _), _ | space _ _, _ => .isTrue trivial

end Item

def spell (ps : List Item) : Text := ps.flatMap Item.text

def tokens (ps : List Item) : List Token := ps.filterMap Item.token?

/-- The code of an operation. -/
structure Code where
  items : List Item
  apart : items.IsChain Item.Apart

namespace Code

def text (c : Code) : Text := spell c.items

def tokens (c : Code) : List Token := Generator.tokens c.items

end Code

/-! ## Beginnings of texts -/

/-- The text does not go on a word. -/
def Barrier (s : Text) : Prop := ∀ c ∈ s.head?, isWord c = false

theorem barrier_nil : Barrier [] := nofun

theorem barrier_cons {c : Char} {s : Text} : Barrier (c :: s) ↔ isWord c = false := by
  simp [Barrier]

theorem Barrier.any {s : Text} (h : Barrier s) : s.head?.any isWord = false := by
  cases s with
  | nil => rfl
  | cons c s => exact h c rfl

theorem Barrier.not_mem {s old : Text} (h : Barrier s) (ho : ∀ c ∈ old, isWord c = true) :
    ∀ c ∈ s.head?, c ∉ old := by
  intro c hc hm
  have hw := ho c hm
  rw [h c hc] at hw
  cases hw

theorem Barrier.congr {s t : Text} (h : Barrier s) (ht : t.head? = s.head?) : Barrier t := by
  rw [Barrier, ht]
  exact h

/-! ## What the lexer reads -/

theorem lex_space {c : Char} (h : isSpace c = true) (s : Text) : lex .code (c :: s) = lex .code s := by
  rw [lex, if_neg (by simp [not_isWord_of_isSpace h]), if_pos h]

theorem lex_punct {c : Char} (h : isPunct c = true) {s : Text}
    (hs : c = '/' → ∀ d ∈ s.head?, d ≠ '/' ∧ d ≠ '*') :
    lex .code (c :: s) = (lex .code s).map (.punct c :: ·) := by
  obtain ⟨hw, hsp, hq⟩ := isPunct_iff.1 h
  rw [lex, if_neg (by simp [hw]), if_neg (by simp [hsp]), if_neg (by simp [hq]), if_neg]
  intro hc
  rw [Bool.and_eq_true, beq_iff_eq, Option.any_eq_true] at hc
  obtain ⟨hc, d, hd, hdc⟩ := hc
  obtain ⟨h1, h2⟩ := hs hc d hd
  simp [h1, h2] at hdc

theorem lex_comment {s : Text} {d : Char} (hd : s.head? = some d) (h : d = '/' ∨ d = '*') :
    lex .code ('/' :: s) = none := by
  rw [lex, if_neg (by decide), if_neg (by decide), if_neg (by decide), if_pos]
  rcases h with rfl | rfl <;> simp [hd]

theorem addWord_false (c : Char) (ls : List Lexeme) : addWord c false ls = .word [c] :: ls := by
  cases ls with
  | nil => rfl
  | cons l ls => cases l <;> rfl

theorem lex_word {x : Text} (hne : x ≠ []) (hx : ∀ c ∈ x, isWord c = true) {s : Text} (hs : Barrier s) :
    lex .code (x ++ s) = (lex .code s).map (.word x :: ·) := by
  induction x with
  | nil => exact absurd rfl hne
  | cons c x ih =>
    rw [List.cons_append, lex, if_pos (hx c List.mem_cons_self)]
    cases x with
    | nil =>
      rw [List.nil_append, hs.any]
      exact congrArg (Option.map · _) (funext (addWord_false c))
    | cons d x =>
      have hd : isWord d = true := hx d (by simp)
      rw [ih (by simp) fun c hc => hx c (List.mem_cons_of_mem _ hc), Option.map_map]
      simp only [List.cons_append, List.head?_cons, Option.any_some, hd]
      rfl

theorem addLit_lit (c quote : Char) (s : Text) (ls : List Lexeme) :
    addLit c (.lit quote (shown quote s) :: ls) = .lit quote (shown quote (c :: s)) :: ls := by
  simp only [addLit, shown]
  split <;> rfl

theorem lex_body {quote : Char} {escaped : Bool} {s : Text} (h : isBody quote escaped s = true)
    (t : Text) : lex (.literal quote escaped) (s ++ quote :: t) =
      (lex .code t).map (.lit quote (shown quote s) :: ·) := by
  have hadd : ∀ c s, (addLit c ∘ fun ls => Lexeme.lit quote (shown quote s) :: ls) =
      fun ls => .lit quote (shown quote (c :: s)) :: ls :=
    fun c s => funext fun ls => addLit_lit c quote s ls
  induction s generalizing escaped with
  | nil =>
    cases escaped with
    | true => cases h
    | false =>
      have : shown quote [] = [] := ite_self _
      rw [List.nil_append, lex, if_pos (beq_self_eq_true _), this]
  | cons c s ih =>
    cases escaped with
    | true =>
      rw [List.cons_append, lex, ih h, Option.map_map, hadd]
    | false =>
      rw [isBody, Bool.and_eq_true, bne_iff_ne] at h
      rw [List.cons_append, lex, if_neg (by simpa using h.1), ih h.2, Option.map_map, hadd]

theorem lex_lit {quote : Char} (hq : isQuote quote = true) {s : Text}
    (h : isBody quote false s = true) (t : Text) : lex .code (quote :: (s ++ quote :: t)) =
      (lex .code t).map (.lit quote (shown quote s) :: ·) := by
  rw [lex, if_neg (by simp [not_isWord_of_isQuote hq]), if_neg (by simp [not_isSpace_of_isQuote hq]),
    if_pos hq, lex_body h]

/-! ## Replacement in bodies -/

theorem isBody_append_of_plain {quote : Char} {w : Text} (hne : w ≠ []) (hq : quote ∉ w)
    (he : '\\' ∉ w) (escaped : Bool) (s : Text) :
    isBody quote escaped (w ++ s) = isBody quote false s := by
  induction w generalizing escaped with
  | nil => exact absurd rfl hne
  | cons c w ih =>
    rw [List.mem_cons, not_or] at hq he
    have hstep : isBody quote escaped (c :: (w ++ s)) = isBody quote false (w ++ s) := by
      cases escaped with
      | true => rfl
      | false =>
        have h1 : (c != quote) = true := bne_iff_ne.2 (Ne.symm hq.1)
        have h2 : (c == '\\') = false := beq_false_of_ne (Ne.symm he.1)
        rw [isBody, h1, h2, Bool.true_and]
    rw [List.cons_append, hstep]
    cases w with
    | nil => rfl
    | cons d w => exact ih (by simp) hq.2 he.2 false

theorem isBody_append_mono {quote : Char} {s t : Text}
    (h : ∀ escaped, isBody quote escaped s = true → isBody quote escaped t = true) (a : Text)
    (escaped : Bool) (ha : isBody quote escaped (a ++ s) = true) :
    isBody quote escaped (a ++ t) = true := by
  induction a generalizing escaped with
  | nil => exact h escaped ha
  | cons c a ih =>
    cases escaped with
    | true => exact ih false ha
    | false =>
      rw [List.cons_append, isBody, Bool.and_eq_true] at ha ⊢
      exact ⟨ha.1, ih _ ha.2⟩

theorem isBody_replace {quote : Char} {old new : Text} (ho : old ≠ []) (hn : new ≠ [])
    (hold : quote ∉ old ∧ '\\' ∉ old) (hnew : quote ∉ new ∧ '\\' ∉ new) {s : Text}
    (h : isBody quote false s = true) : isBody quote false (s.replace old new) = true := by
  refine Text.replace_cases (motive := fun s t => ∀ escaped, isBody quote escaped s = true →
    isBody quote escaped t = true) ho (fun _ _ h => h) ?_ s false h
  intro a b b' ih escaped hs
  refine isBody_append_mono (fun escaped hb => ?_) a escaped hs
  rw [isBody_append_of_plain ho hold.1 hold.2] at hb
  rw [isBody_append_of_plain hn hnew.1 hnew.2]
  exact ih false hb

end Generator
