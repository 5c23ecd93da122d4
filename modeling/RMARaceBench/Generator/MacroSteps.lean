import RMARaceBench.Generator.Macros

/-!
# What the passes of a macro do

The replacements of a macro on a text that begins with a word, a `&` or another character
(`derefAll_cons`, `derefAll_append`, `derefAll_name`, `derefAll_address`). A word that a variable's name is
part of, or that a pointer has been glued to, is not left alone: the first name in it is cut off behind
a `*` (`Cut`).
-/

set_option autoImplicit false

namespace Generator

open Text

/-! ## The tables -/

/-- `g` in front of what no name contains: an occurrence of a name that begins in front of `g` ends in
front of `g`'s end, and what it takes of a word has a character that the alias suffix has not. -/
structure IsFront (ds : List Deref) (g : Text) : Prop where
  short : ∀ d ∈ ds, g.length < d.name.length
  clear : ∀ d ∈ ds, ∀ d' ∈ ds, ¬ d.name <:+: d'.pointer ++ g
  cut : ∀ d ∈ ds, ∃ c ∈ d.name.take (d.name.length - g.length), c ∉ suffix

/-- The beginning of a pointer up to its first character that no name contains. -/
structure IsLead (ds : List Deref) (g : Text) (e : Char) : Prop where
  front : IsFront ds g
  edge : ∀ d ∈ ds, e ∉ d.name
  word : ∀ c ∈ g ++ [e], isWord c = true
  grow : ∃ c ∈ g ++ [e], c ∉ suffix

/-- The names and pointers keep apart. -/
structure DerefsSound (ds : List Deref) : Prop where
  name_ne : ∀ d ∈ ds, d.name ≠ []
  name_word : ∀ d ∈ ds, ∀ c ∈ d.name, isWord c = true
  pointer_word : ∀ d ∈ ds, ∀ c ∈ d.pointer, isWord c = true
  nodup : ds.Nodup
  name_head : ∀ d ∈ ds, ∀ d' ∈ ds, d ≠ d' → ∀ c ∈ d.name.head?, c ∉ d'.name
  pointer_head : ∀ d ∈ ds, ∀ d' ∈ ds, d ≠ d' → ∀ c ∈ d.pointer.head?, c ∉ d'.name
  front : IsFront ds []
  lead : ∀ d ∈ ds, ∃ g e, g ++ [e] <+: d.pointer ∧ IsLead ds g e

namespace Macro

/-- The tables of a macro fit each other. -/
structure Sound (m : Macro) : Prop extends DerefsSound m.derefs where
  alias_ne : ∀ x ∈ m.aliases, x ≠ []
  alias_word : ∀ x ∈ m.aliases, ∀ c ∈ x, isWord c = true
  alias_self : ∀ x ∈ m.aliases, aliasAll m.aliases x = x ++ suffix
  alias_pointer : ∀ d ∈ m.derefs, aliasAll m.aliases d.pointer = m.target d.pointer

/-- A pointer stands in front. -/
def Led (m : Macro) (t : Text) : Prop := ∃ g e z, t = g ++ e :: z ∧ IsLead m.derefs g e

/-- A `&` and a variable stand in front. -/
def Glued (m : Macro) (t : Text) : Prop := ∃ d ∈ m.derefs, '&' :: d.name <+: t

/-- A variable's name stands in front. -/
def Begins (m : Macro) (t : Text) : Prop := ∃ d ∈ m.derefs, d.name <+: t

end Macro

/-- `s` begins with the word `w`, cut off behind a part of it. -/
def Cut (w s : Text) : Prop := ∃ a r z, w = a ++ r ∧ s = a ++ '*' :: z ∧ ∃ c ∈ r, c ∉ suffix

theorem not_mem_word {c : Char} (hc : isWord c = false) {w : Text} (hw : ∀ c ∈ w, isWord c = true) :
    c ∉ w := by
  intro h
  have := hw c h
  rw [hc] at this
  cases this

/-! ## One variable -/

namespace Deref

variable {d : Deref}

@[simp] theorem run_nil : d.run [] = [] := rfl

theorem run_append_cons {c : Char} (hc : c ≠ '&') (hn : c ∉ d.name) (hne : d.name ≠ []) (a b : Text) :
    d.run (a ++ c :: b) = d.run a ++ c :: d.run b := by
  have hc' : c ∉ '&' :: d.name := by
    rw [List.mem_cons, not_or]
    exact ⟨hc, hn⟩
  rw [run, replace_append_cons _ hc' (by simp), replace_append_cons _ hn hne]
  rfl

theorem run_of_no_amp {a : Text} (ha : '&' ∉ a) :
    d.run a = replace a d.name ('*' :: d.pointer) := by
  have h := replace_append_of_head d.pointer (o := d.name) ha []
  rw [List.append_nil] at h
  rw [run, h, replace_nil, List.append_nil]

theorem run_eq_self {a : Text} (ha : '&' ∉ a) (hn : ¬ d.name <:+: a) : d.run a = a := by
  rw [run_of_no_amp ha, replace_eq_self _ hn]

/-- A `&` that no variable follows stays. -/
theorem run_amp {x : Text} (hx : ¬ d.name <+: x) (hne : d.name ≠ []) (hn : '&' ∉ d.name) :
    d.run ('&' :: x) = '&' :: d.run x := by
  have h1 : replace ('&' :: x) ('&' :: d.name) d.pointer =
      '&' :: replace x ('&' :: d.name) d.pointer := by
    refine replace_cons_of_ne fun h => hx ?_
    exact (List.cons_prefix_cons.1 h).2
  have h2 := replace_append_cons (a := []) (b := replace x ('&' :: d.name) d.pointer)
    ('*' :: d.pointer) hn hne
  rw [run, h1]
  exact h2

/-- A text that begins with the name of another variable keeps it. -/
theorem run_append_of_head {w : Text} (hamp : '&' ∉ w) (hne : d.name ≠ [])
    (hh : ∀ c ∈ d.name.head?, c ∉ w) (t : Text) : d.run (w ++ t) = w ++ d.run t := by
  obtain ⟨c, o, ho⟩ := List.exists_cons_of_ne_nil hne
  have hc : c ∉ w := hh c (by rw [ho]; rfl)
  rw [run, run, replace_append_of_head _ hamp, ho, replace_append_of_head _ hc]

/-- The text begins with a variable that the pass does not replace in front only where it began with
it before. -/
theorem prefix_of_prefix_run {u x : Text} (hstar : '*' ∉ u) (hp : ∀ c ∈ d.pointer.head?, c ∉ u)
    (hne : d.pointer ≠ []) (h : u <+: d.run x) : u <+: x := by
  refine prefix_of_prefix_replace hp hne (prefix_of_prefix_replace (fun c hc => ?_) (by simp) h)
  rw [List.head?_cons, Option.mem_def, Option.some.injEq] at hc
  rwa [← hc]

end Deref

/-! ## Sound tables -/

namespace Macro.Sound

variable {m : Macro} (hm : m.Sound)
include hm

theorem amp_not_mem_name {d : Deref} (hd : d ∈ m.derefs) : '&' ∉ d.name :=
  not_mem_word (by decide) (hm.name_word d hd)

theorem amp_not_mem_pointer {d : Deref} (hd : d ∈ m.derefs) : '&' ∉ d.pointer :=
  not_mem_word (by decide) (hm.pointer_word d hd)

theorem pointer_ne {d : Deref} (hd : d ∈ m.derefs) : d.pointer ≠ [] := by
  obtain ⟨g, e, hp, -⟩ := hm.lead d hd
  intro h
  rw [h, List.prefix_nil] at hp
  simp at hp

/-- A character that no word has passes through. -/
theorem run_cons {d : Deref} (hd : d ∈ m.derefs) {c : Char} (hc : isWord c = false) {x : Text}
    (hx : c = '&' → ¬ d.name <+: x) : d.run (c :: x) = c :: d.run x := by
  have hne := hm.name_ne d hd
  by_cases h : c = '&'
  · subst h
    exact Deref.run_amp (hx rfl) hne (hm.amp_not_mem_name hd)
  · have hn := not_mem_word hc (hm.name_word d hd)
    exact Deref.run_append_cons h hn hne [] x

theorem begins_of_run {d : Deref} (hd : d ∈ m.derefs) {d' : Deref} (hd' : d' ∈ m.derefs)
    (hne : d ≠ d') {x : Text} (h : d'.name <+: d.run x) : d'.name <+: x := by
  refine Deref.prefix_of_prefix_run ?_ (hm.pointer_head d hd d' hd' hne) (hm.pointer_ne hd) h
  exact not_mem_word (by decide) (hm.name_word d' hd')

/-- A pointer in front stays there. -/
theorem run_lead {d : Deref} (hd : d ∈ m.derefs) {g : Text} {e : Char} (hg : IsLead m.derefs g e) (z : Text) :
    d.run (g ++ e :: z) = g ++ e :: d.run z := by
  have hamp : ∀ c ∈ g ++ [e], c ≠ '&' := by
    intro c hc h
    have := hg.word c hc
    rw [h] at this
    cases this
  have hgn : ¬ d.name <:+: g := fun h =>
    hg.front.clear d hd d hd (h.trans (List.suffix_append _ _).isInfix)
  rw [Deref.run_append_cons (hamp e (by simp)) (hg.edge d hd) (hm.name_ne d hd),
    Deref.run_eq_self (fun h => hamp '&' (List.mem_append_left _ h) rfl) hgn]

/-- The pass of the variable that is glued to a `&` leaves its pointer in front. -/
theorem led_run {d : Deref} (hd : d ∈ m.derefs) (y : Text) : m.Led (d.run ('&' :: (d.name ++ y))) := by
  obtain ⟨g, e, ⟨r, hp⟩, hg⟩ := hm.lead d hd
  have hgn : ¬ d.name <:+: g := fun h =>
    hg.front.clear d hd d hd (h.trans (List.suffix_append _ _).isInfix)
  refine ⟨g, e, replace (r ++ replace y ('&' :: d.name) d.pointer) d.name ('*' :: d.pointer), ?_, hg⟩
  rw [Deref.run, ← List.cons_append, replace_old_append (by simp), ← hp, List.append_assoc,
    List.append_assoc, List.singleton_append, replace_append_cons _ (hg.edge d hd) (hm.name_ne d hd),
    replace_eq_self _ hgn]

/-- Behind the first half of a pass, names that reach beyond `w` are over before `g` is. -/
theorem replace_front {d : Deref} (hd : d ∈ m.derefs) {t : Text} (ht : Barrier t ∨ m.Led t) :
    ∃ g t', replace t ('&' :: d.name) d.pointer = g ++ t' ∧ IsFront m.derefs g ∧
      ∀ c ∈ t'.head?, ∀ d ∈ m.derefs, c ∉ d.name := by
  rcases ht with ht | ⟨g, e, z, rfl, hg⟩
  · by_cases h : '&' :: d.name <+: t
    · obtain ⟨y, rfl⟩ := h
      obtain ⟨g, e, ⟨r, hp⟩, hg⟩ := hm.lead d hd
      refine ⟨g, e :: (r ++ replace y ('&' :: d.name) d.pointer), ?_, hg.front, ?_⟩
      · rw [replace_old_append (by simp), ← hp]
        simp
      · intro c hc d hd
        obtain rfl : e = c := by simpa using hc
        exact hg.edge d hd
    · refine ⟨[], replace t ('&' :: d.name) d.pointer, rfl, hm.front, fun c hc d' hd' => ?_⟩
      cases t with
      | nil => cases hc
      | cons x t =>
        rw [replace_cons_of_ne h] at hc
        obtain rfl : x = c := by simpa using hc
        exact not_mem_word (ht x rfl) (hm.name_word d' hd')
  · have hgamp : '&' ∉ g ++ [e] := not_mem_word (by decide) hg.word
    refine ⟨g, e :: replace z ('&' :: d.name) d.pointer, ?_, hg.front, ?_⟩
    · have h := replace_append_of_head d.pointer (o := d.name) hgamp z
      rw [List.append_assoc, List.append_assoc] at h
      exact h
    · intro c hc d hd
      obtain rfl : e = c := by simpa using hc
      exact hg.edge d hd

theorem run_open {d : Deref} (hd : d ∈ m.derefs) {t : Text} (ht : Barrier t ∨ m.Led t) :
    Barrier (d.run t) ∨ m.Led (d.run t) := by
  rcases ht with ht | ⟨g, e, z, rfl, hg⟩
  · cases t with
    | nil => exact .inl barrier_nil
    | cons c x =>
      by_cases h : c = '&' ∧ d.name <+: x
      · obtain ⟨rfl, y, rfl⟩ := h
        exact .inr (hm.led_run hd y)
      · rw [hm.run_cons hd (ht c rfl) (not_and.1 h)]
        exact .inl (barrier_cons.2 (ht c rfl))
  · rw [hm.run_lead hd hg]
    exact .inr ⟨g, e, _, rfl, hg⟩

end Macro.Sound

/-! ## Words in front -/

theorem cut_of_occurs {n p w g : Text} (hg : g.length < n.length)
    (hcut : ∃ c ∈ n.take (n.length - g.length), c ∉ suffix) (h : n <:+: w ++ g) (y : Text) :
    Cut w (replace (w ++ g) n ('*' :: p) ++ y) := by
  have hne : n ≠ [] := by
    intro hn
    rw [hn] at hg
    cases hg
  obtain ⟨a, b, hab, hr⟩ := replace_first ('*' :: p) hne h
  have hlen := congrArg List.length hab
  simp only [List.length_append] at hlen
  have haw : a <+: w :=
    List.prefix_of_prefix_length_le ⟨n ++ b, hab.symm⟩ (List.prefix_append w g) (by omega)
  obtain ⟨r, rfl⟩ := haw
  rw [List.append_assoc, List.append_cancel_left_eq] at hab
  have hnrg : n.take (n.length - g.length) <+: r ++ g := by
    rw [hab]
    exact (List.take_prefix _ _).trans (List.prefix_append n b)
  have hnr : n.take (n.length - g.length) <+: r := by
    refine List.prefix_of_prefix_length_le hnrg (List.prefix_append r g) ?_
    simp only [List.length_append] at hlen
    rw [List.length_take]
    omega
  obtain ⟨c, hc, hs⟩ := hcut
  refine ⟨a, r, p ++ (replace b n ('*' :: p) ++ y), rfl, ?_, c, hnr.subset hc, hs⟩
  rw [hr]
  simp

namespace Macro.Sound

variable {m : Macro} (hm : m.Sound)
include hm

theorem cut_run {d : Deref} (hd : d ∈ m.derefs) {w s : Text} (hw : '&' ∉ w) (h : Cut w s) :
    Cut w (d.run s) := by
  obtain ⟨a, r, z, rfl, rfl, hr⟩ := h
  have hstar : '*' ∉ d.name := not_mem_word (by decide) (hm.name_word d hd)
  have ha : '&' ∉ a := fun h => hw (List.mem_append_left _ h)
  rw [Deref.run_append_cons (by decide) hstar (hm.name_ne d hd)]
  by_cases hn : d.name <:+: a
  · obtain ⟨a₁, b, rfl, h⟩ := replace_first ('*' :: d.pointer) (hm.name_ne d hd) hn
    obtain ⟨c, hc, hs⟩ := hr
    rw [Deref.run_of_no_amp ha, h]
    refine ⟨a₁, d.name ++ (b ++ r),
      d.pointer ++ (replace b d.name ('*' :: d.pointer) ++ '*' :: d.run z), ?_, ?_, c, ?_, hs⟩
    · simp
    · simp
    · exact List.mem_append_right _ (List.mem_append_right _ hc)
  · rw [Deref.run_eq_self ha hn]
    exact ⟨a, r, _, rfl, rfl, hr⟩

/-- A pass leaves a word in front alone, or cuts it. -/
theorem run_append {d : Deref} (hd : d ∈ m.derefs) {w t : Text} (hw : '&' ∉ w)
    (ht : Barrier t ∨ m.Led t) : d.run (w ++ t) = w ++ d.run t ∨ Cut w (d.run (w ++ t)) := by
  obtain ⟨g, t', h₁, hg, hend⟩ := hm.replace_front hd ht
  have hne := hm.name_ne d hd
  have hends : ∀ c ∈ t'.head?, c ∉ d.name := fun c hc => hend c hc d hd
  have hgn : ¬ d.name <:+: g := fun h =>
    hg.clear d hd d hd (h.trans (List.suffix_append _ _).isInfix)
  rw [Deref.run, Deref.run, replace_append_of_head _ hw, h₁, replace_prefix_of_ends hne hends hgn,
    ← List.append_assoc, replace_append_of_ends hne hends]
  by_cases h : d.name <:+: w ++ g
  · exact .inr (cut_of_occurs (hg.short d hd) (hg.cut d hd) h _)
  · rw [replace_eq_self _ h, List.append_assoc]
    exact .inl rfl

/-- A pointer in front of anything that goes on is left alone. -/
theorem run_pointer_append {d d' : Deref} (hd : d ∈ m.derefs) (hd' : d' ∈ m.derefs) {t : Text}
    (ht : Barrier t ∨ m.Led t) : d.run (d'.pointer ++ t) = d'.pointer ++ d.run t := by
  obtain ⟨g, t', h₁, hg, hend⟩ := hm.replace_front hd ht
  have hne := hm.name_ne d hd
  have hends : ∀ c ∈ t'.head?, c ∉ d.name := fun c hc => hend c hc d hd
  have hgn : ¬ d.name <:+: g := fun h =>
    hg.clear d hd d hd (h.trans (List.suffix_append _ _).isInfix)
  rw [Deref.run, Deref.run, replace_append_of_head _ (hm.amp_not_mem_pointer hd'), h₁,
    replace_prefix_of_ends hne hends hgn, ← List.append_assoc,
    replace_prefix_of_ends hne hends (hg.clear d hd d' hd'), List.append_assoc]

/-- A word without the name that no variable is glued to is left alone. -/
theorem run_word_append {d : Deref} (hd : d ∈ m.derefs) {w t : Text} (hw : '&' ∉ w)
    (hn : ¬ d.name <:+: w) (ht : Barrier t) (hg : ¬ '&' :: d.name <+: t) :
    d.run (w ++ t) = w ++ d.run t := by
  have hends : ∀ c ∈ (replace t ('&' :: d.name) d.pointer).head?, c ∉ d.name := by
    intro c hc
    cases t with
    | nil => cases hc
    | cons x t =>
      rw [replace_cons_of_ne hg] at hc
      obtain rfl : x = c := by simpa using hc
      exact not_mem_word (ht x rfl) (hm.name_word d hd)
  rw [Deref.run, Deref.run, replace_append_of_head _ hw, replace_prefix_of_ends (hm.name_ne d hd) hends hn]

/-- A word with the name is cut. -/
theorem run_name_append {d : Deref} (hd : d ∈ m.derefs) {w t : Text} (hw : '&' ∉ w)
    (hn : d.name <:+: w) (ht : Barrier t ∨ m.Led t) : Cut w (d.run (w ++ t)) := by
  obtain ⟨g, t', h₁, hg, hend⟩ := hm.replace_front hd ht
  have hends : ∀ c ∈ t'.head?, c ∉ d.name := fun c hc => hend c hc d hd
  rw [Deref.run, replace_append_of_head _ hw, h₁, ← List.append_assoc,
    replace_append_of_ends (hm.name_ne d hd) hends]
  exact cut_of_occurs (hg.short d hd) (hg.cut d hd) (hn.trans (List.prefix_append _ _).isInfix) _

/-- The pass of a variable that stands in front. -/
theorem run_name {d : Deref} (hd : d ∈ m.derefs) (t : Text) :
    d.run (d.name ++ t) = '*' :: (d.pointer ++ d.run t) := by
  rw [Deref.run, replace_append_of_head _ (hm.amp_not_mem_name hd), replace_old_append (hm.name_ne d hd)]
  rfl

theorem run_address {d : Deref} (hd : d ∈ m.derefs) (t : Text) :
    d.run ('&' :: (d.name ++ t)) = d.run (d.pointer ++ t) := by
  rw [Deref.run, Deref.run, ← List.cons_append, replace_old_append (by simp),
    replace_append_of_head _ (hm.amp_not_mem_pointer hd)]

/-- The passes of other variables leave a variable in front alone. -/
theorem run_name_of_ne {d d' : Deref} (hd : d ∈ m.derefs) (hd' : d' ∈ m.derefs) (hne : d ≠ d')
    (t : Text) : d.run (d'.name ++ t) = d'.name ++ d.run t :=
  Deref.run_append_of_head (hm.amp_not_mem_name hd') (hm.name_ne d hd) (hm.name_head d hd d' hd' hne) t

theorem run_address_of_ne {d d' : Deref} (hd : d ∈ m.derefs) (hd' : d' ∈ m.derefs) (hne : d ≠ d')
    (t : Text) : d.run ('&' :: (d'.name ++ t)) = '&' :: (d'.name ++ d.run t) := by
  rw [hm.run_cons hd (by decide) (fun _ h => ?_), hm.run_name_of_ne hd hd' hne]
  obtain ⟨c, o, ho⟩ := List.exists_cons_of_ne_nil (hm.name_ne d hd)
  obtain ⟨c', o', ho'⟩ := List.exists_cons_of_ne_nil (hm.name_ne d' hd')
  rw [ho, ho', List.cons_append, List.cons_prefix_cons] at h
  refine hm.name_head d hd d' hd' hne c (by rw [ho]; rfl) ?_
  rw [ho', h.1]
  exact List.mem_cons_self

/-! ## All variables -/

theorem derefAll_cons {ds : List Deref} (hds : ds.Sublist m.derefs) {c : Char} (hc : isWord c = false)
    {x : Text} (hx : c = '&' → ∀ d ∈ ds, ¬ d.name <+: x) :
    derefAll ds (c :: x) = c :: derefAll ds x := by
  induction ds generalizing x with
  | nil => rfl
  | cons d ds ih =>
    have hd : d ∈ m.derefs := hds.subset List.mem_cons_self
    have hnot : d ∉ ds := (List.nodup_cons.1 (hds.nodup hm.nodup)).1
    change derefAll ds (d.run (c :: x)) = c :: derefAll ds (d.run x)
    rw [hm.run_cons hd hc fun h => hx h d List.mem_cons_self]
    refine ih ((List.sublist_cons_self d ds).trans hds) fun h d' hd' hp => ?_
    have hne : d ≠ d' := fun h => hnot (h ▸ hd')
    exact hx h d' (List.mem_cons_of_mem _ hd')
      (hm.begins_of_run hd (hds.subset (List.mem_cons_of_mem _ hd')) hne hp)

theorem derefAll_led {ds : List Deref} (hds : ds.Sublist m.derefs) {t : Text} (ht : m.Led t) :
    m.Led (derefAll ds t) := by
  induction ds generalizing t with
  | nil => exact ht
  | cons d ds ih =>
    obtain ⟨g, e, z, rfl, hg⟩ := ht
    have hd : d ∈ m.derefs := hds.subset List.mem_cons_self
    exact ih ((List.sublist_cons_self d ds).trans hds) ⟨g, e, d.run z, hm.run_lead hd hg z, hg⟩

theorem derefAll_cut {ds : List Deref} (hds : ds.Sublist m.derefs) {w s : Text} (hw : '&' ∉ w)
    (h : Cut w s) : Cut w (derefAll ds s) := by
  induction ds generalizing s with
  | nil => exact h
  | cons d ds ih =>
    exact ih ((List.sublist_cons_self d ds).trans hds)
      (hm.cut_run (hds.subset List.mem_cons_self) hw h)

theorem derefAll_append {ds : List Deref} (hds : ds.Sublist m.derefs) {w t : Text} (hw : '&' ∉ w)
    (ht : Barrier t ∨ m.Led t) :
    derefAll ds (w ++ t) = w ++ derefAll ds t ∨ Cut w (derefAll ds (w ++ t)) := by
  induction ds generalizing t with
  | nil => exact .inl rfl
  | cons d ds ih =>
    have hd : d ∈ m.derefs := hds.subset List.mem_cons_self
    have hds' := (List.sublist_cons_self d ds).trans hds
    rcases hm.run_append hd hw ht with h | h
    · change derefAll ds (d.run (w ++ t)) = _ ∨ Cut w (derefAll ds (d.run (w ++ t)))
      rw [h]
      exact ih hds' (hm.run_open hd ht)
    · exact .inr (hm.derefAll_cut hds' hw h)

theorem derefAll_append_cut {ds : List Deref} (hds : ds.Sublist m.derefs) {w t : Text} (hw : '&' ∉ w)
    (ht : Barrier t ∨ m.Led t) (hn : ∃ d ∈ ds, d.name <:+: w) : Cut w (derefAll ds (w ++ t)) := by
  induction ds generalizing t with
  | nil => obtain ⟨d, hd, -⟩ := hn; cases hd
  | cons d ds ih =>
    have hd : d ∈ m.derefs := hds.subset List.mem_cons_self
    have hds' := (List.sublist_cons_self d ds).trans hds
    change Cut w (derefAll ds (d.run (w ++ t)))
    by_cases hdn : d.name <:+: w
    · exact hm.derefAll_cut hds' hw (hm.run_name_append hd hw hdn ht)
    · obtain ⟨d', hd', hn'⟩ := hn
      have hmem : d' ∈ ds := by
        refine (List.mem_cons.1 hd').resolve_left fun h => hdn ?_
        rwa [← h]
      rcases hm.run_append hd hw ht with h | h
      · rw [h]
        exact ih hds' (hm.run_open hd ht) ⟨d', hmem, hn'⟩
      · exact hm.derefAll_cut hds' hw h

theorem derefAll_append_pointer {ds : List Deref} (hds : ds.Sublist m.derefs) {d : Deref} (hd : d ∈ m.derefs)
    {t : Text} (ht : Barrier t ∨ m.Led t) :
    derefAll ds (d.pointer ++ t) = d.pointer ++ derefAll ds t := by
  induction ds generalizing t with
  | nil => rfl
  | cons d' ds ih =>
    have hd' : d' ∈ m.derefs := hds.subset List.mem_cons_self
    change derefAll ds (d'.run (d.pointer ++ t)) = d.pointer ++ derefAll ds (d'.run t)
    rw [hm.run_pointer_append hd' hd ht]
    exact ih ((List.sublist_cons_self d' ds).trans hds) (hm.run_open hd' ht)

theorem derefAll_append_word {ds : List Deref} (hds : ds.Sublist m.derefs) {w t : Text} (hw : '&' ∉ w)
    (hn : ∀ d ∈ ds, ¬ d.name <:+: w) (ht : Barrier t) (hg : ∀ d ∈ ds, ¬ '&' :: d.name <+: t) :
    derefAll ds (w ++ t) = w ++ derefAll ds t := by
  induction ds generalizing t with
  | nil => rfl
  | cons d ds ih =>
    have hd : d ∈ m.derefs := hds.subset List.mem_cons_self
    have hnot : d ∉ ds := (List.nodup_cons.1 (hds.nodup hm.nodup)).1
    change derefAll ds (d.run (w ++ t)) = w ++ derefAll ds (d.run t)
    rw [hm.run_word_append hd hw (hn d List.mem_cons_self) ht (hg d List.mem_cons_self)]
    cases t with
    | nil =>
      exact ih ((List.sublist_cons_self d ds).trans hds) (fun d' h => hn d' (List.mem_cons_of_mem _ h))
        barrier_nil fun _ _ h => by simp at h
    | cons c x =>
      have hcx : d.run (c :: x) = c :: d.run x := by
        refine hm.run_cons hd (ht c rfl) fun hc hp => hg d List.mem_cons_self ?_
        rw [hc, List.cons_prefix_cons]
        exact ⟨rfl, hp⟩
      rw [hcx]
      refine ih ((List.sublist_cons_self d ds).trans hds)
        (fun d' h => hn d' (List.mem_cons_of_mem _ h)) (barrier_cons.2 (ht c rfl)) fun d' hd' hp => ?_
      rw [List.cons_prefix_cons] at hp
      have hne : d ≠ d' := fun h => hnot (h ▸ hd')
      have hx := hm.begins_of_run hd (hds.subset (List.mem_cons_of_mem _ hd')) hne hp.2
      exact hg d' (List.mem_cons_of_mem _ hd') (List.cons_prefix_cons.2 ⟨hp.1, hx⟩)

theorem derefAll_open {ds : List Deref} (hds : ds ⊆ m.derefs) {t : Text} (ht : Barrier t ∨ m.Led t) :
    Barrier (derefAll ds t) ∨ m.Led (derefAll ds t) := by
  induction ds generalizing t with
  | nil => exact ht
  | cons d ds ih =>
    exact ih (List.subset_of_cons_subset hds) (hm.run_open (hds List.mem_cons_self) ht)

/-! ### A variable in front -/

/-- The other variables leave the name of `d` in front alone. -/
theorem derefAll_others {ds : List Deref} (hds : ds ⊆ m.derefs) {d : Deref} (hd : d ∈ m.derefs)
    (hnot : d ∉ ds) (t : Text) : derefAll ds (d.name ++ t) = d.name ++ derefAll ds t := by
  induction ds generalizing t with
  | nil => rfl
  | cons d' ds ih =>
    obtain ⟨hne, hnot⟩ := List.ne_and_not_mem_of_not_mem_cons hnot
    change derefAll ds (d'.run (d.name ++ t)) = d.name ++ derefAll ds (d'.run t)
    rw [hm.run_name_of_ne (hds List.mem_cons_self) hd hne.symm]
    exact ih (List.subset_of_cons_subset hds) hnot _

theorem derefAll_others_address {ds : List Deref} (hds : ds ⊆ m.derefs) {d : Deref} (hd : d ∈ m.derefs)
    (hnot : d ∉ ds) (t : Text) :
    derefAll ds ('&' :: (d.name ++ t)) = '&' :: (d.name ++ derefAll ds t) := by
  induction ds generalizing t with
  | nil => rfl
  | cons d' ds ih =>
    obtain ⟨hne, hnot⟩ := List.ne_and_not_mem_of_not_mem_cons hnot
    change derefAll ds (d'.run ('&' :: (d.name ++ t))) = '&' :: (d.name ++ derefAll ds (d'.run t))
    rw [hm.run_address_of_ne (hds List.mem_cons_self) hd hne.symm]
    exact ih (List.subset_of_cons_subset hds) hnot _

omit hm in
/-- The passes before that of `d`, and those behind it. -/
theorem exists_split {ds : List Deref} (hds : ds.Sublist m.derefs) {d : Deref} (hd : d ∈ ds) :
    ∃ ds₁ ds₂, ds₁.Sublist m.derefs ∧ d ∉ ds₁ ∧ ds₂.Sublist m.derefs ∧
      ∀ x, derefAll ds x = derefAll ds₂ (d.run (derefAll ds₁ x)) := by
  obtain ⟨ds₁, ds₂, rfl, hnot⟩ := List.eq_append_cons_of_mem hd
  refine ⟨ds₁, ds₂, (List.sublist_append_left _ _).trans hds, hnot, ?_, fun x => ?_⟩
  · exact ((List.sublist_cons_self d ds₂).trans (List.sublist_append_right _ _)).trans hds
  · rw [derefAll, List.foldl_append]
    rfl

/-- A variable in front becomes the dereferenced pointer. -/
theorem derefAll_name {ds : List Deref} (hds : ds.Sublist m.derefs) {d : Deref} (hd : d ∈ ds) {t : Text}
    (ht : Barrier t ∨ m.Led t) :
    derefAll ds (d.name ++ t) = '*' :: derefAll ds (d.pointer ++ t) := by
  have hdm := hds.subset hd
  obtain ⟨ds₁, ds₂, h₁, hnot, h₂, hsplit⟩ := exists_split hds hd
  calc derefAll ds (d.name ++ t)
      = derefAll ds₂ ('*' :: (d.pointer ++ d.run (derefAll ds₁ t))) := by
        rw [hsplit, hm.derefAll_others h₁.subset hdm hnot, hm.run_name hdm]
    _ = '*' :: derefAll ds₂ (d.pointer ++ d.run (derefAll ds₁ t)) :=
        hm.derefAll_cons h₂ (by decide) fun h => absurd h (by decide)
    _ = '*' :: derefAll ds (d.pointer ++ t) := by
        rw [hsplit, hm.derefAll_append_pointer h₁ hdm ht,
          hm.run_pointer_append hdm hdm (hm.derefAll_open h₁.subset ht)]

/-- The address of a variable in front becomes the pointer. -/
theorem derefAll_address {ds : List Deref} (hds : ds.Sublist m.derefs) {d : Deref} (hd : d ∈ ds) {t : Text}
    (ht : Barrier t ∨ m.Led t) :
    derefAll ds ('&' :: (d.name ++ t)) = derefAll ds (d.pointer ++ t) := by
  have hdm := hds.subset hd
  obtain ⟨ds₁, ds₂, h₁, hnot, -, hsplit⟩ := exists_split hds hd
  rw [hsplit, hsplit, hm.derefAll_others_address h₁.subset hdm hnot, hm.run_address hdm,
    hm.derefAll_append_pointer h₁ hdm ht]

/-- Whatever goes on behind it, the address of a variable leaves a pointer in front. -/
theorem led_derefAll {ds : List Deref} (hds : ds.Sublist m.derefs) {d : Deref} (hd : d ∈ ds) (y : Text) :
    m.Led (derefAll ds ('&' :: (d.name ++ y))) := by
  have hdm := hds.subset hd
  obtain ⟨ds₁, ds₂, h₁, hnot, h₂, hsplit⟩ := exists_split hds hd
  rw [hsplit, hm.derefAll_others_address h₁.subset hdm hnot]
  exact hm.derefAll_led h₂ (hm.led_run hdm _)

theorem derefAll_begins {ds : List Deref} (hds : ds.Sublist m.derefs) {d : Deref} (hd : d ∈ ds) (y : Text) :
    ∃ z, derefAll ds (d.name ++ y) = '*' :: z := by
  have hdm := hds.subset hd
  obtain ⟨ds₁, ds₂, h₁, hnot, h₂, hsplit⟩ := exists_split hds hd
  rw [hsplit, hm.derefAll_others h₁.subset hdm hnot, hm.run_name hdm]
  exact ⟨_, hm.derefAll_cons h₂ (by decide) fun h => absurd h (by decide)⟩

end Macro.Sound

end Generator
