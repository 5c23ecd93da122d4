import RMARaceBench.Generator.MacroSteps

/-!
# When the macros rewrite the intended identifiers

A code fits a macro (`Macro.Fits`) when its words, literals and `&` keep clear of what the replacements
cannot tell apart. Codes that fit are rewritten as expected and no others are
(`Macro.Sound.rewrites_iff`): the proof goes over the items and compares the first token of what the
lexer reads with the expected one.
-/

set_option autoImplicit false

namespace Generator

open Text

/-! ## Aliases -/

section Aliases

variable {xs : List Text} (hne : ∀ x ∈ xs, x ≠ []) (hword : ∀ x ∈ xs, ∀ c ∈ x, isWord c = true)

theorem suffix_word : ∀ c ∈ suffix, isWord c = true := by decide

include hne hword in
theorem aliasAll_barrier {t : Text} (ht : Barrier t) (a : Text) :
    aliasAll xs (a ++ t) = aliasAll xs a ++ aliasAll xs t ∧ (aliasAll xs t).head? = t.head? := by
  induction xs generalizing a t with
  | nil => exact ⟨rfl, rfl⟩
  | cons x xs ih =>
    have hends := ht.not_mem (hword x List.mem_cons_self)
    have hx := hne x List.mem_cons_self
    have hhead := head?_replace_of_ends (x ++ suffix) hx hends
    have h := ih (fun y hy => hne y (List.mem_cons_of_mem _ hy))
      (fun y hy => hword y (List.mem_cons_of_mem _ hy)) (ht.congr hhead)
      (replace a x (x ++ suffix))
    change aliasAll xs (replace (a ++ t) x _) = aliasAll xs (replace a x _) ++ _ ∧ _
    rw [replace_append_of_ends hx hends, h.1]
    exact ⟨rfl, h.2.trans hhead⟩

include hne hword in
theorem aliasAll_cons {c : Char} (hc : isWord c = false) (s : Text) :
    aliasAll xs (c :: s) = c :: aliasAll xs s := by
  induction xs generalizing s with
  | nil => rfl
  | cons x xs ih =>
    have hx := not_mem_word hc (hword x List.mem_cons_self)
    have h := replace_append_cons (a := []) (b := s) (x ++ suffix) hx (hne x List.mem_cons_self)
    change aliasAll xs (replace (c :: s) x _) = c :: aliasAll xs (replace s x _)
    rw [← ih (fun y hy => hne y (List.mem_cons_of_mem _ hy))
      (fun y hy => hword y (List.mem_cons_of_mem _ hy))]
    exact congrArg _ h

include hne hword in
theorem aliasAll_word {a : Text} (ha : ∀ c ∈ a, isWord c = true) :
    ∀ c ∈ aliasAll xs a, isWord c = true := by
  induction xs generalizing a with
  | nil => exact ha
  | cons x xs ih =>
    refine ih (fun y hy => hne y (List.mem_cons_of_mem _ hy))
      (fun y hy => hword y (List.mem_cons_of_mem _ hy)) ?_
    refine all_replace (hne x List.mem_cons_self) (fun c hc => ?_) ha
    rcases List.mem_append.1 hc with hc | hc
    · exact hword x List.mem_cons_self c hc
    · exact suffix_word c hc

include hne in
theorem count_aliasAll {c : Char} (hc : c ∉ suffix) (a : Text) :
    (aliasAll xs a).count c = a.count c := by
  induction xs generalizing a with
  | nil => rfl
  | cons x xs ih =>
    have hcount : (x ++ suffix).count c = x.count c := by
      rw [List.count_append, List.count_eq_zero_of_not_mem hc, Nat.add_zero]
    exact (ih (fun y hy => hne y (List.mem_cons_of_mem _ hy)) _).trans
      (count_replace (hne x List.mem_cons_self) hcount a)

include hne in
theorem le_length_aliasAll (a : Text) : a.length ≤ (aliasAll xs a).length := by
  induction xs generalizing a with
  | nil => exact Nat.le_refl _
  | cons x xs ih =>
    have h : (a.length : Int) ≤ (replace a x (x ++ suffix)).length :=
      le_measure_replace (m := fun s => s.length) (hne x List.mem_cons_self) (by simp)
        (by rw [List.length_append]; omega) a
    have := ih (fun y hy => hne y (List.mem_cons_of_mem _ hy)) (replace a x (x ++ suffix))
    change _ ≤ (aliasAll xs (replace a x (x ++ suffix))).length
    omega

include hne in
theorem aliasAll_eq_self_iff {a : Text} : aliasAll xs a = a ↔ ∀ x ∈ xs, ¬ x <:+: a := by
  induction xs generalizing a with
  | nil => exact ⟨fun _ => nofun, fun _ => rfl⟩
  | cons x xs ih =>
    have hx := hne x List.mem_cons_self
    have hne' : ∀ y ∈ xs, y ≠ [] := fun y hy => hne y (List.mem_cons_of_mem _ hy)
    rw [List.forall_mem_cons, ← ih hne']
    change aliasAll xs (replace a x (x ++ suffix)) = a ↔ _
    by_cases h : x <:+: a
    · refine iff_of_false (fun heq => ?_) fun hf => hf.1 h
      have hs : 0 < suffix.length := by decide
      have hlt : (a.length : Int) < (replace a x (x ++ suffix)).length :=
        lt_measure_replace (m := fun s => s.length) hx (by simp)
          (by rw [List.length_append]; omega) h
      have hle := le_length_aliasAll hne' (replace a x (x ++ suffix))
      rw [heq] at hle
      omega
    · rw [replace_eq_self _ h]
      exact ⟨fun heq => ⟨h, heq⟩, fun hf => hf.2⟩

end Aliases

/-! ## Where the code fits -/

namespace Macro

variable {m : Macro}

def IsName (m : Macro) (w : Text) : Prop := ∃ d ∈ m.derefs, d.name = w

/-- A variable's name is part of the word. -/
def HasName (m : Macro) (w : Text) : Prop := ∃ d ∈ m.derefs, d.name <:+: w

def HasAlias (m : Macro) (w : Text) : Prop := ∃ x ∈ m.aliases, x <:+: w

/-- The next token is a variable. -/
def NextIsName (m : Macro) : List Token → Prop
  | .word w :: _ => m.IsName w.text
  | _ => False

/-- What an item must keep clear of, the items `ps` behind it. -/
def FitsAt (m : Macro) : Item → List Item → Prop
  | .token (.word w), ps =>
    (m.IsName w.text ∨ ¬ m.HasName w.text ∧ (m.IsBase w.text ∨ ¬ m.HasAlias w.text)) ∧
      ¬ m.Glued (spell ps)
  | .token (.lit l), _ => l.quote = '"' ∨ ¬ m.HasName l.body ∧ ¬ m.HasAlias l.body
  | .token (.amp address), ps =>
    m.Begins (spell ps) ↔ address = true ∧ m.NextIsName (tokens ps)
  | .token (.punct c _ _), ps => c = '/' → ¬ m.Begins (spell ps)
  | .space _ _, _ => True

/-- The condition on a code: each of its words is a variable, or no variable's name is part of it, nor an
alias that it is not itself; a character constant has neither in it; a `&` stands directly in front
of a variable just where it takes its address, and then not directly behind a word; no `/` stands
directly in front of a variable. -/
def Fits (m : Macro) : List Item → Prop
  | [] => True
  | p :: ps => m.FitsAt p ps ∧ Fits m ps

instance (w : Text) : Decidable (m.IsName w) := inferInstanceAs (Decidable (∃ d ∈ _, _))

instance (w : Text) : Decidable (m.HasName w) := inferInstanceAs (Decidable (∃ d ∈ _, _))

instance (w : Text) : Decidable (m.HasAlias w) := inferInstanceAs (Decidable (∃ x ∈ _, _))

instance (t : Text) : Decidable (m.Glued t) := inferInstanceAs (Decidable (∃ d ∈ _, _))

instance (t : Text) : Decidable (m.Begins t) := inferInstanceAs (Decidable (∃ d ∈ _, _))

instance : (ts : List Token) → Decidable (m.NextIsName ts)
  | .word w :: _ => inferInstanceAs (Decidable (m.IsName w.text))
  | [] | .lit _ :: _ | .amp _ :: _ | .punct _ _ _ :: _ => .isFalse nofun

instance : (p : Item) → (ps : List Item) → Decidable (m.FitsAt p ps)
  | .token (.word w), _ => inferInstanceAs (Decidable ((m.IsName w.text ∨ _ ∧ (_ ∨ _)) ∧ ¬ m.Glued _))
  | .token (.lit _), _ => inferInstanceAs (Decidable (_ = _ ∨ ¬ m.HasName _ ∧ ¬ m.HasAlias _))
  | .token (.amp _), _ => inferInstanceAs (Decidable (m.Begins _ ↔ _ = true ∧ m.NextIsName _))
  | .token (.punct _ _ _), _ => inferInstanceAs (Decidable (_ = _ → ¬ m.Begins _))
  | .space _ _, _ => .isTrue trivial

instance instDecidableFits : (ps : List Item) → Decidable (m.Fits ps)
  | [] => .isTrue trivial
  | _ :: ps =>
    have := instDecidableFits ps
    inferInstanceAs (Decidable (_ ∧ m.Fits ps))

theorem nextIsName_iff {ts : List Token} :
    m.NextIsName ts ↔ ∃ w ts', ts = .word w :: ts' ∧ m.IsName w.text := by
  constructor
  · intro h
    match ts, h with
    | .word w :: ts, h => exact ⟨w, ts, rfl, h⟩
  · intro ⟨w, ts', h, hw⟩
    subst h
    exact hw

theorem pointer?_of_isName {w : Text} (h : m.IsName w) :
    ∃ d ∈ m.derefs, d.name = w ∧ m.pointer? w = some (m.target d.pointer) := by
  obtain ⟨d, hd, hn⟩ := h
  have hsome : (m.derefs.find? fun d => d.name == w).isSome := by
    rw [List.find?_isSome]
    exact ⟨d, hd, beq_iff_eq.2 hn⟩
  obtain ⟨d', hd'⟩ := Option.isSome_iff_exists.1 hsome
  refine ⟨d', List.mem_of_find?_eq_some hd', ?_, by rw [pointer?, hd']; rfl⟩
  have := List.find?_some hd'
  exact beq_iff_eq.1 this

theorem pointer?_of_not_isName {w : Text} (h : ¬ m.IsName w) : m.pointer? w = none := by
  rw [pointer?, Option.map_eq_none_iff, List.find?_eq_none]
  intro d hd hn
  exact h ⟨d, hd, beq_iff_eq.1 hn⟩

theorem expected_cons (t : Token) (ts : List Token)
    (h : ¬ (∃ w ts', t = .amp true ∧ ts = .word w :: ts' ∧ m.IsName w.text)) :
    m.expected (t :: ts) = m.rewrite t ++ m.expected ts := by
  cases t with
  | word w => rfl
  | lit l => rfl
  | punct c h₁ h₂ => rfl
  | amp address =>
    cases address with
    | false => rfl
    | true =>
      cases ts with
      | nil => rfl
      | cons t ts =>
        cases t with
        | lit l => rfl
        | punct c h₁ h₂ => rfl
        | amp address => rfl
        | word w =>
          have hw : ¬ m.IsName w.text := fun hw => h ⟨w, ts, rfl, rfl, hw⟩
          have hword : m.expected (.word w :: ts) = m.rewrite (.word w) ++ m.expected ts := rfl
          rw [expected, hword, rewrite, pointer?_of_not_isName hw]
          rfl

/-- A `&` stays or gives way to the pointer. -/
theorem expected_amp (address : Bool) (ts : List Token) :
    (¬ (address = true ∧ m.NextIsName ts) ∧
      m.expected (.amp address :: ts) = .punct '&' :: m.expected ts) ∨
    (address = true ∧ m.NextIsName ts ∧ ∃ W ls, m.expected (.amp address :: ts) = .word W :: ls) := by
  by_cases h : address = true ∧ m.NextIsName ts
  · obtain ⟨rfl, h⟩ := h
    obtain ⟨w, ts', rfl, hw⟩ := nextIsName_iff.1 h
    obtain ⟨d, -, -, hp⟩ := pointer?_of_isName hw
    refine .inr ⟨rfl, h, m.target d.pointer, m.expected ts', ?_⟩
    rw [expected, hp]
  · refine .inl ⟨h, ?_⟩
    rw [expected_cons]
    · rfl
    · rintro ⟨w, ts', ht, hts, hw⟩
      cases ht
      exact h ⟨rfl, nextIsName_iff.2 ⟨w, ts', hts, hw⟩⟩

theorem expected_address {d : Deref} {w : Word} (hp : m.pointer? w.text = some (m.target d.pointer))
    (ts : List Token) :
    m.expected (.amp true :: .word w :: ts) = .word (m.target d.pointer) :: m.expected ts := by
  rw [expected, hp]

theorem expected_name {d : Deref} {w : Word} (hp : m.pointer? w.text = some (m.target d.pointer))
    (ts : List Token) : m.expected (.word w :: ts) =
      .punct '*' :: .word (m.target d.pointer) :: m.expected ts := by
  rw [expected_cons _ _ (by nofun), rewrite, hp]
  rfl

theorem expected_other {w : Word} (hw : ¬ m.IsName w.text) (ts : List Token) :
    m.expected (.word w :: ts) = .word (m.other w.text) :: m.expected ts := by
  rw [expected_cons _ _ (by nofun), rewrite, pointer?_of_not_isName hw]
  rfl

theorem count_target {c : Char} (hc : c ∉ suffix) (p : Text) :
    (m.target p).count c = p.count c := by
  unfold target
  split
  · rw [List.count_append, List.count_eq_zero_of_not_mem hc, Nat.add_zero]
  · rfl

theorem count_other {c : Char} (hc : c ∉ suffix) (w : Text) : (m.other w).count c = w.count c := by
  unfold other
  split
  · rw [List.count_append, List.count_eq_zero_of_not_mem hc, Nat.add_zero]
  · rfl

end Macro

/-! ## The first token -/

theorem lex_punct_head {c : Char} (hc : isPunct c = true) {s : Text} {ls : List Lexeme}
    (h : lex .code (c :: s) = some ls) : ∃ ls', ls = .punct c :: ls' ∧ lex .code s = some ls' := by
  obtain ⟨hw, hs, hq⟩ := isPunct_iff.1 hc
  rw [lex, if_neg (by simp [hw]), if_neg (by simp [hs]), if_neg (by simp [hq])] at h
  split at h
  · cases h
  · obtain ⟨ls', hls, rfl⟩ := Option.map_eq_some_iff.1 h
    exact ⟨ls', rfl, hls⟩

theorem lex_word_head {x : Text} (hne : x ≠ []) (hx : ∀ c ∈ x, isWord c = true) {s : Text}
    (hs : Barrier s) {l : Lexeme} {ls : List Lexeme} (h : lex .code (x ++ s) = some (l :: ls)) :
    l = .word x := by
  rw [lex_word hne hx hs] at h
  obtain ⟨ls', -, heq⟩ := Option.map_eq_some_iff.1 h
  cases heq
  rfl

/-- The word in front of a text and the rest. -/
theorem exists_word_append (s : Text) :
    ∃ x t, s = x ++ t ∧ (∀ c ∈ x, isWord c = true) ∧ Barrier t ∧
      ∀ u, u <+: s → (∀ c ∈ u, isWord c = true) → u <+: x := by
  induction s with
  | nil => exact ⟨[], [], rfl, nofun, barrier_nil, fun u hu _ => hu⟩
  | cons c s ih =>
    obtain ⟨x, t, rfl, hx, ht, hmax⟩ := ih
    cases hc : isWord c with
    | false =>
      refine ⟨[], c :: (x ++ t), rfl, nofun, barrier_cons.2 hc, fun u hu hw => ?_⟩
      cases u with
      | nil => exact List.prefix_refl _
      | cons d u =>
        obtain ⟨rfl, -⟩ := List.cons_prefix_cons.1 hu
        rw [hw d List.mem_cons_self] at hc
        cases hc
    | true =>
      refine ⟨c :: x, t, rfl, List.forall_mem_cons.2 ⟨hc, hx⟩, ht, fun u hu hw => ?_⟩
      cases u with
      | nil => exact List.nil_prefix
      | cons d u =>
        obtain ⟨rfl, hu'⟩ := List.cons_prefix_cons.1 hu
        exact List.cons_prefix_cons.2 ⟨rfl, hmax u hu' fun c hc => hw c (List.mem_cons_of_mem _ hc)⟩

namespace Macro.Sound

variable {m : Macro} (hm : m.Sound)
include hm

/-- A text that begins with word characters has a word in front behind the aliases, too. -/
theorem lex_aliasAll_word {u s : Text} (hne : u ≠ []) (hu : ∀ c ∈ u, isWord c = true) (hs : u <+: s)
    {l : Lexeme} {ls : List Lexeme} (h : lex .code (aliasAll m.aliases s) = some (l :: ls)) :
    ∃ W, l = .word W ∧ ∀ c, c ∉ suffix → u.count c ≤ W.count c := by
  obtain ⟨x, t, rfl, hx, ht, hmax⟩ := exists_word_append s
  have hux := hmax u hs hu
  have hlen := le_length_aliasAll hm.alias_ne x
  have hxne : aliasAll m.aliases x ≠ [] := by
    intro h0
    have := List.length_pos_iff.2 hne
    have := hux.length_le
    rw [h0] at hlen
    simp only [List.length_nil] at hlen
    omega
  have hb := aliasAll_barrier hm.alias_ne hm.alias_word ht x
  rw [hb.1] at h
  refine ⟨_, lex_word_head hxne (aliasAll_word hm.alias_ne hm.alias_word hx) (ht.congr hb.2) h,
    fun c hc => ?_⟩
  rw [count_aliasAll hm.alias_ne hc]
  exact hux.sublist.count_le c

/-- A word with a pointer glued to it is another word. -/
theorem not_word_of_led {w t : Text} (hw : ∀ c ∈ w, isWord c = true) (ht : m.Led t) {W : Text}
    (hW : ∀ c, c ∉ suffix → W.count c = w.count c) (ls : List Lexeme) :
    lex .code (aliasAll m.aliases (w ++ t)) ≠ some (.word W :: ls) := by
  intro h
  obtain ⟨g, e, z, rfl, hg⟩ := ht
  obtain ⟨c, hc, hs⟩ := hg.grow
  have hpre : w ++ (g ++ [e]) <+: w ++ (g ++ e :: z) := ⟨z, by simp⟩
  have hall : ∀ c ∈ w ++ (g ++ [e]), isWord c = true := by
    intro c hc
    rcases List.mem_append.1 hc with hc | hc
    · exact hw c hc
    · exact hg.word c hc
  obtain ⟨W', heq, hle⟩ := hm.lex_aliasAll_word (by simp) hall hpre h
  cases heq
  have hle := hle c hs
  have := List.count_pos_iff.2 hc
  rw [hW c hs, List.count_append] at hle
  omega

/-- A word that has been cut is another word. -/
theorem not_word_of_cut {w s : Text} (hw : ∀ c ∈ w, isWord c = true) (hcut : Cut w s) {W : Text}
    (hW : ∀ c, c ∉ suffix → W.count c = w.count c) (ls : List Lexeme) :
    lex .code (aliasAll m.aliases s) ≠ some (.word W :: ls) := by
  intro h
  obtain ⟨a, r, z, rfl, rfl, c, hc, hs⟩ := hcut
  have hb := aliasAll_barrier hm.alias_ne hm.alias_word (t := '*' :: z) (barrier_cons.2 (by decide)) a
  have hstar := aliasAll_cons hm.alias_ne hm.alias_word (c := '*') (by decide) z
  rw [hb.1, hstar] at h
  by_cases hne : aliasAll m.aliases a = []
  · rw [hne, List.nil_append] at h
    obtain ⟨ls', heq, -⟩ := lex_punct_head (by decide) h
    cases heq
  · have ha : ∀ c ∈ a, isWord c = true := fun c hc => hw c (List.mem_append_left _ hc)
    have heq := lex_word_head hne (aliasAll_word hm.alias_ne hm.alias_word ha)
      (barrier_cons.2 (by decide)) h
    cases heq
    have hcount := hW c hs
    have := List.count_pos_iff.2 hc
    rw [count_aliasAll hm.alias_ne hs, List.count_append] at hcount
    omega

end Macro.Sound

end Generator
