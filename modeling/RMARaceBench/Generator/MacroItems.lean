import RMARaceBench.Generator.MacroRewrite

/-!
# A macro on the items of a code

The step of `Macro.Sound.rewrites_iff` for each kind of item: the lexer reads the expected token in
front of the expected rest just when the item fits. A literal is unchanged only without occurrences,
since every pass adds to the `*` without the `&` of a text or to its length (`run_eq_self_iff`).
-/

set_option autoImplicit false

namespace Generator

open Text

/-! ## Literals -/

/-- The `*` without the `&` of a text: no pass makes less of them. -/
def stars (s : Text) : Int := s.count '*' - s.count '&'

theorem stars_append (a b : Text) : stars (a ++ b) = stars a + stars b := by
  simp only [stars, List.count_append]
  omega

theorem stars_of_word {w : Text} (hw : ∀ c ∈ w, isWord c = true) : stars w = 0 := by
  rw [stars, List.count_eq_zero_of_not_mem (not_mem_word (by decide) hw),
    List.count_eq_zero_of_not_mem (not_mem_word (by decide) hw)]
  rfl

theorem stars_star (w : Text) : stars ('*' :: w) = 1 + stars w := stars_append ['*'] w

theorem stars_amp (w : Text) : stars ('&' :: w) = -1 + stars w := stars_append ['&'] w

namespace Macro.Sound

variable {m : Macro} (hm : m.Sound)
include hm

theorem stars_run {d : Deref} (hd : d ∈ m.derefs) (s : Text) :
    stars s ≤ stars (d.run s) ∧ (d.name <:+: s → stars s < stars (d.run s)) := by
  have hn := stars_of_word (hm.name_word d hd)
  have hp := stars_of_word (hm.pointer_word d hd)
  have hne := hm.name_ne d hd
  have hamp : stars ('&' :: d.name) < stars d.pointer := by
    rw [stars_amp]
    omega
  have hstar : stars d.name < stars ('*' :: d.pointer) := by
    rw [stars_star]
    omega
  have h₁ := le_measure_replace (by simp) stars_append (Int.le_of_lt hamp) s
  have h₂ := le_measure_replace hne stars_append (Int.le_of_lt hstar)
    (replace s ('&' :: d.name) d.pointer)
  refine ⟨Int.le_trans h₁ h₂, fun h => ?_⟩
  by_cases ha : '&' :: d.name <:+: s
  · exact Int.lt_of_lt_of_le (lt_measure_replace (by simp) stars_append hamp ha) h₂
  · have h₃ := lt_measure_replace hne stars_append hstar h
    rw [Deref.run, replace_eq_self _ ha]
    exact h₃

theorem stars_derefAll {ds : List Deref} (hds : ds.Sublist m.derefs) (s : Text) :
    stars s ≤ stars (derefAll ds s) := by
  induction ds generalizing s with
  | nil => exact Int.le_refl _
  | cons d ds ih =>
    exact Int.le_trans (hm.stars_run (hds.subset List.mem_cons_self) s).1
      (ih ((List.sublist_cons_self d ds).trans hds) (d.run s))

theorem lt_stars_derefAll {ds : List Deref} (hds : ds.Sublist m.derefs) {s : Text}
    (h : ∃ d ∈ ds, d.name <:+: s) : stars s < stars (derefAll ds s) := by
  induction ds with
  | nil => obtain ⟨d, hd, -⟩ := h; cases hd
  | cons d ds ih =>
    have hd := hds.subset List.mem_cons_self
    have hds' := (List.sublist_cons_self d ds).trans hds
    by_cases hn : d.name <:+: s
    · exact Int.lt_of_lt_of_le ((hm.stars_run hd s).2 hn) (hm.stars_derefAll hds' _)
    · have hamp : ¬ '&' :: d.name <:+: s := fun h => hn ((List.suffix_cons _ _).isInfix.trans h)
      have hself : d.run s = s := by rw [Deref.run, replace_eq_self _ hamp, replace_eq_self _ hn]
      have hrest : ∃ d' ∈ ds, d'.name <:+: s := by
        obtain ⟨d', hd', hs⟩ := h
        refine ⟨d', (List.mem_cons.1 hd').resolve_left fun heq => hn ?_, hs⟩
        rwa [← heq]
      change stars s < stars (derefAll ds (d.run s))
      rw [hself]
      exact ih hds' hrest

omit hm in
theorem derefAll_eq_self {s : Text} (h : ¬ m.HasName s) : derefAll m.derefs s = s := by
  have hall : ∀ d ∈ m.derefs, d.run s = s := by
    intro d hd
    have hn : ¬ d.name <:+: s := fun hn => h ⟨d, hd, hn⟩
    have hamp : ¬ '&' :: d.name <:+: s := fun h => hn ((List.suffix_cons _ _).isInfix.trans h)
    rw [Deref.run, replace_eq_self _ hamp, replace_eq_self _ hn]
  have hfold : ∀ ds : List Deref, (∀ d ∈ ds, d.run s = s) → derefAll ds s = s := by
    intro ds hds
    induction ds with
    | nil => rfl
    | cons d ds ih =>
      change derefAll ds (d.run s) = s
      rw [hds d List.mem_cons_self]
      exact ih fun d' hd' => hds d' (List.mem_cons_of_mem _ hd')
  exact hfold m.derefs hall

/-- A text that the macro leaves alone. -/
theorem run_eq_self_iff {s : Text} : m.run s = s ↔ ¬ m.HasName s ∧ ¬ m.HasAlias s := by
  have halias : aliasAll m.aliases s = s ↔ ¬ m.HasAlias s := by
    rw [aliasAll_eq_self_iff hm.alias_ne]
    exact ⟨fun h ⟨x, hx, hs⟩ => h x hx hs, fun h x hx hs => h ⟨x, hx, hs⟩⟩
  constructor
  · intro h
    have hname : ¬ m.HasName s := by
      intro hn
      have hlt := hm.lt_stars_derefAll (List.Sublist.refl _) hn
      have hstars : stars (m.run s) = stars (derefAll m.derefs s) := by
        unfold stars run
        rw [count_aliasAll hm.alias_ne (by decide), count_aliasAll hm.alias_ne (by decide)]
      rw [h] at hstars
      omega
    refine ⟨hname, halias.1 ?_⟩
    rwa [run, derefAll_eq_self hname] at h
  · intro h
    rw [run, derefAll_eq_self h.1]
    exact halias.2 h.2

/-- The macro keeps the body of a literal a body. -/
theorem isBody_run {quote : Char} (hq : isQuote quote = true) {s : Text}
    (h : isBody quote false s = true) : isBody quote false (m.run s) = true := by
  have hquote : isWord quote = false := not_isWord_of_isQuote hq
  have hword : ∀ {w : Text}, (∀ c ∈ w, isWord c = true) → quote ∉ w ∧ '\\' ∉ w := fun hw =>
    ⟨not_mem_word hquote hw, not_mem_word (by decide) hw⟩
  have hcons : ∀ {c : Char} {w : Text}, isQuote c = false → c ≠ '\\' → (∀ c ∈ w, isWord c = true) →
      quote ∉ c :: w ∧ '\\' ∉ c :: w := by
    intro c w hc hb hw
    have hqc : quote ≠ c := fun h => by rw [← h, hq] at hc; cases hc
    exact ⟨fun h => (List.mem_cons.1 h).elim hqc (hword hw).1,
      fun h => (List.mem_cons.1 h).elim (Ne.symm hb) (hword hw).2⟩
  have hderef : ∀ ds : List Deref, ds.Sublist m.derefs → ∀ s, isBody quote false s = true →
      isBody quote false (derefAll ds s) = true := by
    intro ds hds
    induction ds with
    | nil => exact fun s h => h
    | cons d ds ih =>
      intro s h
      have hd := hds.subset List.mem_cons_self
      have hn := hm.name_word d hd
      have hp := hm.pointer_word d hd
      refine ih ((List.sublist_cons_self d ds).trans hds) _ ?_
      refine isBody_replace (hm.name_ne d hd) (by simp) (hword hn) (hcons (by decide) (by decide) hp) ?_
      exact isBody_replace (by simp) (hm.pointer_ne hd) (hcons (by decide) (by decide) hn) (hword hp) h
  have halias : ∀ xs : List Text, xs.Sublist m.aliases → ∀ s, isBody quote false s = true →
      isBody quote false (aliasAll xs s) = true := by
    intro xs hxs
    induction xs with
    | nil => exact fun s h => h
    | cons x xs ih =>
      intro s h
      have hx := hxs.subset List.mem_cons_self
      refine ih ((List.sublist_cons_self x xs).trans hxs) _ ?_
      refine isBody_replace (hm.alias_ne x hx) (fun h => hm.alias_ne x hx (List.append_eq_nil_iff.1 h).1)
        (hword (hm.alias_word x hx)) (hword fun c hc => ?_) h
      exact (List.mem_append.1 hc).elim (hm.alias_word x hx c) (suffix_word c)
  exact halias _ (List.Sublist.refl _) _ (hderef _ (List.Sublist.refl _) s h)

/-! ## One item -/

/-- A character that no word has splits a text, but for `&`. -/
theorem run_append_cons {c : Char} (hc : isWord c = false) (hamp : c ≠ '&') (a b : Text) :
    m.run (a ++ c :: b) = m.run a ++ c :: m.run b := by
  have hderef : ∀ ds : List Deref, ds.Sublist m.derefs → ∀ a b,
      derefAll ds (a ++ c :: b) = derefAll ds a ++ c :: derefAll ds b := by
    intro ds hds
    induction ds with
    | nil => exact fun a b => rfl
    | cons d ds ih =>
      intro a b
      have hd := hds.subset List.mem_cons_self
      change derefAll ds (d.run (a ++ c :: b)) = _
      rw [Deref.run_append_cons hamp (not_mem_word hc (hm.name_word d hd)) (hm.name_ne d hd)]
      exact ih ((List.sublist_cons_self d ds).trans hds) _ _
  rw [run, hderef _ (List.Sublist.refl _),
    (aliasAll_barrier hm.alias_ne hm.alias_word (barrier_cons.2 hc) _).1,
    aliasAll_cons hm.alias_ne hm.alias_word hc]
  rfl

theorem run_cons_of_not_word {c : Char} (hc : isWord c = false) {s : Text}
    (hs : c = '&' → ¬ m.Begins s) : m.run (c :: s) = c :: m.run s := by
  rw [run, hm.derefAll_cons (List.Sublist.refl _) hc fun h d hd hp => hs h ⟨d, hd, hp⟩,
    aliasAll_cons hm.alias_ne hm.alias_word hc]
  rfl

theorem rewrites_space {c : Char} (hc : isSpace c = true) (ps : List Item) :
    lex .code (m.run (spell (.space c hc :: ps))) = lex .code (m.run (spell ps)) := by
  have hamp : c ≠ '&' := by
    intro h
    rw [h] at hc
    cases hc
  change lex .code (m.run (c :: spell ps)) = _
  rw [hm.run_cons_of_not_word (not_isWord_of_isSpace hc) fun h => absurd h hamp, lex_space hc]

theorem rewrites_lit (l : Literal) (ps : List Item) :
    lex .code (m.run (spell (.token (.lit l) :: ps))) = some (m.expected (tokens (.token (.lit l) :: ps))) ↔
      m.FitsAt (.token (.lit l)) ps ∧ lex .code (m.run (spell ps)) = some (m.expected (tokens ps)) := by
  have hq := not_isWord_of_isQuote l.isQuote
  have hamp : l.quote ≠ '&' := by
    intro h
    have := l.isQuote
    rw [h] at this
    cases this
  have htext : spell (.token (.lit l) :: ps) = l.quote :: (l.body ++ l.quote :: spell ps) := by
    simp [spell, Item.text, Token.text]
  have hexp : m.expected (tokens (.token (.lit l) :: ps)) =
      .lit l.quote (shown l.quote l.body) :: m.expected (tokens ps) := by
    change m.expected (.lit l :: tokens ps) = _
    rw [expected_cons _ _ (by nofun)]
    rfl
  have hfits : shown l.quote (m.run l.body) = shown l.quote l.body ↔
      m.FitsAt (.token (.lit l)) ps := by
    change _ ↔ l.quote = '"' ∨ ¬ m.HasName l.body ∧ ¬ m.HasAlias l.body
    rw [← hm.run_eq_self_iff]
    by_cases h : l.quote = '"' <;> simp [shown, h]
  rw [htext, hexp, hm.run_cons_of_not_word hq fun h => absurd h hamp, hm.run_append_cons hq hamp,
    lex_lit l.isQuote (hm.isBody_run l.isQuote l.isBody), ← hfits]
  cases lex .code (m.run (spell ps)) with
  | none => simp
  | some ls => simp

omit hm in
theorem barrier_spell {p : Item} {ps : List Item} (hp : ∀ w, p ≠ .token (.word w)) :
    Barrier (spell (p :: ps)) := by
  cases p with
  | space c hc => exact barrier_cons.2 (not_isWord_of_isSpace hc)
  | token t =>
    cases t with
    | word w => exact absurd rfl (hp w)
    | lit l => exact barrier_cons.2 (not_isWord_of_isQuote l.isQuote)
    | amp address => exact barrier_cons.2 (by decide)
    | punct c hc hamp => exact barrier_cons.2 (isPunct_iff.1 hc).1

omit hm in
/-- Behind a word comes no word. -/
theorem barrier_of_apart {w : Word} {ps : List Item}
    (h : (Item.token (.word w) :: ps).IsChain Item.Apart) : Barrier (spell ps) := by
  cases ps with
  | nil => exact barrier_nil
  | cons p ps =>
    refine barrier_spell fun w' hp => ?_
    rw [List.isChain_cons_cons, hp] at h
    exact h.1

/-- A variable's name in front belongs to a word. -/
theorem word_of_begins {ps : List Item} (hps : ps.IsChain Item.Apart) (h : m.Begins (spell ps)) :
    ∃ w ps', ps = .token (.word w) :: ps' ∧ ∃ d ∈ m.derefs, d.name <+: w.text := by
  obtain ⟨d, hd, hp⟩ := h
  obtain ⟨c, o, ho⟩ := List.exists_cons_of_ne_nil (hm.name_ne d hd)
  cases ps with
  | nil =>
    rw [ho] at hp
    exact absurd (List.prefix_nil.1 hp) (by simp)
  | cons p ps =>
    by_cases hw : ∃ w, p = .token (.word w)
    · obtain ⟨w, rfl⟩ := hw
      refine ⟨w, ps, rfl, d, hd, ?_⟩
      change d.name <+: w.text ++ spell ps at hp
      have hb := barrier_of_apart hps
      cases hs : spell ps with
      | nil => rwa [hs, List.append_nil] at hp
      | cons c' t =>
        rw [hs] at hp hb
        exact (prefix_append_cons (not_mem_word (hb c' rfl) (hm.name_word d hd))).1 hp
    · have hb : Barrier (spell (p :: ps)) := barrier_spell fun w hp => hw ⟨w, hp⟩
      obtain ⟨t, ht⟩ := hp
      rw [← ht, ho, List.cons_append, barrier_cons] at hb
      have := hm.name_word d hd c (by rw [ho]; exact List.mem_cons_self)
      rw [hb] at this
      cases this

/-- No comment begins behind a `/` that fits. -/
theorem no_comment {ps : List Item} (hps : ps.IsChain Item.Apart)
    (hnext : ∀ d h₁ h₂ ps', ps = .token (.punct d h₁ h₂) :: ps' → d ≠ '/' ∧ d ≠ '*')
    (hb : ¬ m.Begins (spell ps))
    (h : lex .code (m.run (spell ps)) = some (m.expected (tokens ps))) :
    ∀ d ∈ (m.run (spell ps)).head?, d ≠ '/' ∧ d ≠ '*' := by
  intro d hd
  obtain ⟨u, hu⟩ : ∃ u, m.run (spell ps) = d :: u := by
    cases hrun : m.run (spell ps) with
    | nil => rw [hrun] at hd; cases hd
    | cons d' u =>
      rw [hrun] at hd
      cases hd
      exact ⟨u, rfl⟩
  by_contra hcomment
  have hpunct : isPunct d = true := by
    rw [not_and_or, not_not, not_not] at hcomment
    rcases hcomment with rfl | rfl <;> decide
  cases ps with
  | nil =>
    rw [hu] at h
    obtain ⟨ls, heq, -⟩ := lex_punct_head hpunct h
    cases heq
  | cons p ps =>
    cases p with
    | space c hc =>
      have hrun := hm.run_cons_of_not_word (not_isWord_of_isSpace hc) (s := spell ps) fun h => by
        rw [h] at hc
        cases hc
      have hdc : c = d := (List.cons_eq_cons.1 (hrun.symm.trans hu)).1
      rw [← hdc, isPunct_iff, hc] at hpunct
      cases hpunct.2.1
    | token t =>
      rw [hu] at h
      obtain ⟨ls, heq, -⟩ := lex_punct_head hpunct h
      change m.expected (t :: tokens ps) = _ at heq
      cases t with
      | lit l =>
        rw [expected_cons _ _ (by nofun)] at heq
        cases heq
      | punct c h₁ h₂ =>
        rw [expected_cons _ _ (by nofun)] at heq
        cases heq
        exact hcomment (hnext d h₁ h₂ ps rfl)
      | amp address =>
        rcases expected_amp (m := m) address (tokens ps) with ⟨-, h'⟩ | ⟨-, -, W, ls', h'⟩
        · rw [h'] at heq
          cases heq
          exact hcomment (by decide)
        · rw [h'] at heq
          cases heq
      | word w =>
        have hw : ¬ m.IsName w.text := by
          intro ⟨d', hd', hn⟩
          exact hb ⟨d', hd', hn ▸ List.prefix_append _ _⟩
        rw [expected_other hw] at heq
        cases heq

theorem rewrites_punct {c : Char} {h₁ : isPunct c = true} {h₂ : c ≠ '&'} {ps : List Item}
    (hps : (Item.token (.punct c h₁ h₂) :: ps).IsChain Item.Apart) :
    lex .code (m.run (spell (.token (.punct c h₁ h₂) :: ps))) =
        some (m.expected (tokens (.token (.punct c h₁ h₂) :: ps))) ↔
      m.FitsAt (.token (.punct c h₁ h₂)) ps ∧
        lex .code (m.run (spell ps)) = some (m.expected (tokens ps)) := by
  have hrun : m.run (spell (.token (.punct c h₁ h₂) :: ps)) = c :: m.run (spell ps) :=
    hm.run_cons_of_not_word (isPunct_iff.1 h₁).1 fun h => absurd h h₂
  have hexp : m.expected (tokens (.token (.punct c h₁ h₂) :: ps)) =
      .punct c :: m.expected (tokens ps) := expected_cons _ _ (by nofun)
  rw [hrun, hexp]
  constructor
  · intro h
    obtain ⟨ls, heq, hls⟩ := lex_punct_head h₁ h
    cases heq
    refine ⟨fun hc hb => ?_, hls⟩
    subst hc
    -- a comment begins
    obtain ⟨d, hd, y, hy⟩ := hb
    obtain ⟨z, hz⟩ := hm.derefAll_begins (List.Sublist.refl _) hd y
    have hstar : m.run (spell ps) = '*' :: aliasAll m.aliases z := by
      rw [run, ← hy, hz, aliasAll_cons hm.alias_ne hm.alias_word (by decide)]
    rw [lex_comment (d := '*') (by rw [hstar]; rfl) (.inr rfl)] at h
    cases h
  · intro ⟨hfit, h⟩
    have hnext : c = '/' → ∀ d h₁ h₂ ps', ps = .token (.punct d h₁ h₂) :: ps' → d ≠ '/' ∧ d ≠ '*' := by
      intro hc d h₃ h₄ ps' hp
      rw [hp, List.isChain_cons_cons] at hps
      exact hps.1 hc
    rw [lex_punct h₁ fun hc => hm.no_comment hps.of_cons (hnext hc) (hfit hc) h, h]
    rfl

theorem rewrites_amp {address : Bool} {ps : List Item}
    (hps : (Item.token (.amp address) :: ps).IsChain Item.Apart) :
    lex .code (m.run (spell (.token (.amp address) :: ps))) =
        some (m.expected (tokens (.token (.amp address) :: ps))) ↔
      m.FitsAt (.token (.amp address)) ps ∧
        lex .code (m.run (spell ps)) = some (m.expected (tokens ps)) := by
  change lex .code (m.run ('&' :: spell ps)) = some (m.expected (.amp address :: tokens ps)) ↔
    (m.Begins (spell ps) ↔ address = true ∧ m.NextIsName (tokens ps)) ∧ _
  by_cases hb : m.Begins (spell ps)
  · obtain ⟨w, ps', rfl, -⟩ := hm.word_of_begins hps.of_cons hb
    have hbar := barrier_of_apart hps.of_cons
    have hnext : m.NextIsName (tokens (.token (.word w) :: ps')) ↔ m.IsName w.text := Iff.rfl
    by_cases hname : address = true ∧ m.IsName w.text
    · obtain ⟨rfl, hw⟩ := hname
      obtain ⟨d, hd, hn, hp⟩ := pointer?_of_isName hw
      have haddr := hm.derefAll_address (List.Sublist.refl _) hd (.inl hbar)
      have hderef := hm.derefAll_name (List.Sublist.refl _) hd (.inl hbar)
      have hrun : m.run ('&' :: spell (.token (.word w) :: ps')) =
          aliasAll m.aliases (derefAll m.derefs (d.pointer ++ spell ps')) := by
        change aliasAll m.aliases (derefAll m.derefs ('&' :: (w.text ++ spell ps'))) = _
        rw [← hn, haddr]
      have hrun' : m.run (spell (.token (.word w) :: ps')) =
          '*' :: aliasAll m.aliases (derefAll m.derefs (d.pointer ++ spell ps')) := by
        change aliasAll m.aliases (derefAll m.derefs (w.text ++ spell ps')) = _
        rw [← hn, hderef, aliasAll_cons hm.alias_ne hm.alias_word (by decide)]
      have hstar := lex_punct (c := '*') (by decide)
        (s := aliasAll m.aliases (derefAll m.derefs (d.pointer ++ spell ps')))
        fun h => absurd h (by decide)
      change _ = some (m.expected (.amp true :: .word w :: tokens ps')) ↔
        _ ∧ _ = some (m.expected (.word w :: tokens ps'))
      rw [hrun, hrun', expected_address hp, expected_name hp, hstar]
      cases lex .code (aliasAll m.aliases (derefAll m.derefs (d.pointer ++ spell ps'))) with
      | none => simp
      | some ls => simp [hb, hnext, hw]
    · refine iff_of_false (fun h => ?_) fun hf => hname ?_
      · rcases expected_amp (m := m) address (tokens (.token (.word w) :: ps')) with ⟨-, h'⟩ | ⟨h', hn, -⟩
        · obtain ⟨d, hd, y, hy⟩ := hb
          obtain ⟨g, e, z, hz, hg⟩ := hm.led_derefAll (List.Sublist.refl _) hd y
          rw [h', ← hy, run, hz] at h
          obtain ⟨W, hW, -⟩ := hm.lex_aliasAll_word (u := g ++ [e]) (by simp) hg.word ⟨z, by simp⟩ h
          cases hW
        · exact hname ⟨h', hnext.1 hn⟩
      · have := hf.1.1 hb
        exact ⟨this.1, hnext.1 this.2⟩
  · rw [hm.run_cons_of_not_word (by decide) fun _ => hb, lex_punct (by decide) (fun h => absurd h (by decide))]
    rcases expected_amp (m := m) address (tokens ps) with ⟨hno, h'⟩ | ⟨ha, hn, W, ls, h'⟩
    · rw [h']
      cases lex .code (m.run (spell ps)) with
      | none => simp
      | some ls =>
        simp only [Option.map_some, Option.some.injEq, List.cons.injEq, true_and]
        exact ⟨fun h => ⟨iff_of_false hb hno, h⟩, fun h => h.2⟩
    · rw [h']
      refine iff_of_false (fun h => ?_) fun hf => hb (hf.1.2 ⟨ha, hn⟩)
      obtain ⟨ls', -, heq⟩ := Option.map_eq_some_iff.1 h
      cases heq

omit hm in
theorem amp_not_mem (w : Word) : '&' ∉ w.text := not_mem_word (by decide) w.isWord

/-- Behind a word to which no variable is glued the text goes on as it would alone. -/
theorem lex_alone {w : Text} (hw : ∀ c ∈ w, isWord c = true) (hne : w ≠ []) {s : Text}
    (hs : Barrier s) (hg : ¬ m.Glued s) :
    lex .code (aliasAll m.aliases (w ++ derefAll m.derefs s)) =
      (lex .code (m.run s)).map (.word (aliasAll m.aliases w) :: ·) := by
  have hbar : Barrier (derefAll m.derefs s) := by
    cases s with
    | nil =>
      rw [derefAll_eq_self fun ⟨d, hd, h⟩ => hm.name_ne d hd (List.infix_nil.1 h)]
      exact barrier_nil
    | cons c s =>
      rw [hm.derefAll_cons (List.Sublist.refl _) (hs c rfl) fun hc d hd h =>
        hg ⟨d, hd, List.cons_prefix_cons.2 ⟨hc.symm, h⟩⟩]
      exact barrier_cons.2 (hs c rfl)
  have hb := aliasAll_barrier hm.alias_ne hm.alias_word hbar w
  have hlen := le_length_aliasAll hm.alias_ne w
  have hne' : aliasAll m.aliases w ≠ [] := by
    intro h
    rw [h, List.length_nil, Nat.le_zero, List.length_eq_zero_iff] at hlen
    exact hne hlen
  rw [hb.1, lex_word hne' (aliasAll_word hm.alias_ne hm.alias_word hw) (hbar.congr hb.2)]
  rfl

theorem aliasAll_other {w : Text} :
    aliasAll m.aliases w = m.other w ↔ m.IsBase w ∨ ¬ m.HasAlias w := by
  unfold other
  by_cases hw : m.IsBase w
  · rw [if_pos hw]
    exact iff_of_true (hm.alias_self w hw.1) (.inl hw)
  · rw [if_neg hw, aliasAll_eq_self_iff hm.alias_ne]
    constructor
    · exact fun h => .inr fun ⟨x, hx, hs⟩ => h x hx hs
    · exact fun h x hx hs => (h.resolve_left hw) ⟨x, hx, hs⟩

theorem led_of_glued {s : Text} (hg : m.Glued s) : m.Led (derefAll m.derefs s) := by
  obtain ⟨d, hd, y, rfl⟩ := hg
  exact hm.led_derefAll (List.Sublist.refl _) hd y

theorem rewrites_word {w : Word} {ps : List Item}
    (hps : (Item.token (.word w) :: ps).IsChain Item.Apart) :
    lex .code (m.run (spell (.token (.word w) :: ps))) =
        some (m.expected (tokens (.token (.word w) :: ps))) ↔
      m.FitsAt (.token (.word w)) ps ∧
        lex .code (m.run (spell ps)) = some (m.expected (tokens ps)) := by
  have hbar := barrier_of_apart hps
  have hamp := amp_not_mem w
  change lex .code (aliasAll m.aliases (derefAll m.derefs (w.text ++ spell ps))) =
      some (m.expected (.word w :: tokens ps)) ↔
    ((m.IsName w.text ∨ ¬ m.HasName w.text ∧ (m.IsBase w.text ∨ ¬ m.HasAlias w.text)) ∧
      ¬ m.Glued (spell ps)) ∧ _
  by_cases hname : m.IsName w.text
  · obtain ⟨d, hd, hn, hp⟩ := pointer?_of_isName hname
    have hpne := hm.pointer_ne hd
    have hpw := hm.pointer_word d hd
    have hfront := hm.derefAll_append_pointer (List.Sublist.refl _) hd (.inl hbar)
    rw [expected_name hp, ← hn, hm.derefAll_name (List.Sublist.refl _) hd (.inl hbar), hfront,
      aliasAll_cons hm.alias_ne hm.alias_word (by decide),
      lex_punct (by decide) fun h => absurd h (by decide)]
    by_cases hg : m.Glued (spell ps)
    · refine iff_of_false (fun h => ?_) fun hf => hf.1.2 hg
      obtain ⟨ls, hls, heq⟩ := Option.map_eq_some_iff.1 h
      cases heq
      exact hm.not_word_of_led hpw (hm.led_of_glued hg) (fun c hc => count_target hc _) _ hls
    · rw [hm.lex_alone hpw hpne hbar hg, hm.alias_pointer d hd]
      cases lex .code (m.run (spell ps)) with
      | none => simp
      | some ls => simp [hn, hname, hg]
  · rw [expected_other hname]
    have hcount : ∀ c, c ∉ suffix → (m.other w.text).count c = w.text.count c :=
      fun c hc => count_other hc _
    by_cases hhas : m.HasName w.text
    · refine iff_of_false (fun h => ?_) fun hf => (hf.1.1.resolve_left hname).1 hhas
      exact hm.not_word_of_cut w.isWord
        (hm.derefAll_append_cut (List.Sublist.refl _) hamp (.inl hbar) hhas) hcount _ h
    · by_cases hg : m.Glued (spell ps)
      · refine iff_of_false (fun h => ?_) fun hf => hf.1.2 hg
        rcases hm.derefAll_append (List.Sublist.refl _) hamp (.inl hbar) with h' | h'
        · rw [h'] at h
          exact hm.not_word_of_led w.isWord (hm.led_of_glued hg) hcount _ h
        · exact hm.not_word_of_cut w.isWord h' hcount _ h
      · have hclear : ∀ d ∈ m.derefs, ¬ d.name <:+: w.text := fun d hd h => hhas ⟨d, hd, h⟩
        have hfree : ∀ d ∈ m.derefs, ¬ '&' :: d.name <+: spell ps := fun d hd h => hg ⟨d, hd, h⟩
        rw [hm.derefAll_append_word (List.Sublist.refl _) hamp hclear hbar hfree,
          hm.lex_alone w.isWord w.nonempty hbar hg]
        have halias := hm.aliasAll_other (w := w.text)
        cases lex .code (m.run (spell ps)) with
        | none => simp
        | some ls => simp [hname, hhas, hg, halias]

/-- **A code is rewritten as expected just when it fits.** -/
theorem rewrites_iff (c : Code) : m.Rewrites c ↔ m.Fits c.items := by
  obtain ⟨ps, hps⟩ := c
  change lex .code (m.run (spell ps)) = some (m.expected (tokens ps)) ↔ m.Fits ps
  induction ps with
  | nil =>
    have hnil : m.run (spell []) = [] := (hm.run_eq_self_iff (s := [])).2
      ⟨fun ⟨d, hd, h⟩ => hm.name_ne d hd (List.infix_nil.1 h),
        fun ⟨x, hx, h⟩ => hm.alias_ne x hx (List.infix_nil.1 h)⟩
    rw [hnil]
    exact iff_of_true rfl trivial
  | cons p ps ih =>
    have ih := ih hps.of_cons
    cases p with
    | space c hc =>
      rw [hm.rewrites_space hc]
      exact ih.trans ⟨fun h => ⟨trivial, h⟩, fun h => h.2⟩
    | token t =>
      cases t with
      | word w => exact (hm.rewrites_word hps).trans (and_congr_right fun _ => ih)
      | lit l => exact (hm.rewrites_lit l ps).trans (and_congr_right fun _ => ih)
      | amp address => exact (hm.rewrites_amp hps).trans (and_congr_right fun _ => ih)
      | punct c h₁ h₂ => exact (hm.rewrites_punct hps).trans (and_congr_right fun _ => ih)

end Macro.Sound

/-! ## No macro -/

namespace Macro

/-- The macro without replacements. -/
def idle : Macro := ⟨[], []⟩

theorem idle_sound : idle.Sound where
  name_ne := nofun
  name_word := nofun
  pointer_word := nofun
  nodup := List.nodup_nil
  name_head := nofun
  pointer_head := nofun
  front := ⟨nofun, nofun, nofun⟩
  lead := nofun
  alias_ne := nofun
  alias_word := nofun
  alias_self := nofun
  alias_pointer := nofun

theorem not_nextIsName_idle (ts : List Token) : ¬ idle.NextIsName ts := by
  intro h
  obtain ⟨w, ts', -, d, hd, -⟩ := nextIsName_iff.1 h
  cases hd

theorem fits_idle (ps : List Item) : idle.Fits ps := by
  induction ps with
  | nil => trivial
  | cons p ps ih =>
    refine ⟨?_, ih⟩
    have hname : ∀ w, ¬ idle.HasName w := fun w ⟨d, hd, _⟩ => by cases hd
    have halias : ∀ w, ¬ idle.HasAlias w := fun w ⟨x, hx, _⟩ => by cases hx
    cases p with
    | space c hc => trivial
    | token t =>
      cases t with
      | word w => exact ⟨.inr ⟨hname _, .inr (halias _)⟩, fun ⟨d, hd, _⟩ => by cases hd⟩
      | lit l => exact .inr ⟨hname _, halias _⟩
      | amp address => exact iff_of_false (fun ⟨d, hd, _⟩ => by cases hd) fun h => not_nextIsName_idle _ h.2
      | punct c h₁ h₂ => exact fun _ ⟨d, hd, _⟩ => by cases hd

theorem expected_idle (ts : List Token) : idle.expected ts = ts.map Token.lexeme := by
  induction ts with
  | nil => rfl
  | cons t ts ih =>
    rw [expected_cons, ih, List.map_cons]
    · cases t <;> rfl
    · intro ⟨w, ts', _, _, d, hd, _⟩
      cases hd

end Macro

/-- The text of a code is read as its tokens. -/
theorem Code.lex_text (c : Code) : lex .code c.text = some (c.tokens.map Token.lexeme) := by
  have h := (Macro.idle_sound.rewrites_iff c).2 (Macro.fits_idle _)
  rw [Macro.Rewrites, Macro.expected_idle] at h
  exact h

end Generator
