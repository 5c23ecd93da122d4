import RMARaceBench.Generator.Text

/-!
# What replacement does to a text

A replacement copies the text up to the first occurrence and goes on behind it (`replace_first`), which
carries the inductions over replaced texts (`replace_cases`). A character that the old text does not
begin with, or does not have at all, bounds what a replacement can touch.
-/

set_option autoImplicit false

namespace Generator.Text

variable {old new : Text}

@[simp] theorem replace_nil : replace [] old new = [] := rfl

theorem replace_cons_of_ne {c : Char} {s : Text} (h : ¬ old <+: c :: s) :
    replace (c :: s) old new = c :: replace s old new := by
  rw [replace, replaceFrom, if_neg (by rwa [List.isPrefixOf_iff_prefix])]
  rfl

theorem replaceFrom_length_append (a s : Text) :
    replaceFrom old new a.length (a ++ s) = replace s old new := by
  induction a with
  | nil => rfl
  | cons c a ih => exact ih

theorem replace_old_append (ho : old ≠ []) (s : Text) :
    replace (old ++ s) old new = new ++ replace s old new := by
  obtain ⟨c, o, rfl⟩ := List.exists_cons_of_ne_nil ho
  rw [replace, List.cons_append, replaceFrom,
    if_pos (List.isPrefixOf_iff_prefix.2 ⟨s, List.cons_append⟩), List.length_cons,
    Nat.add_sub_cancel, replaceFrom_length_append]

/-- Without the first character of `old` there is no occurrence. -/
theorem replace_append_of_head (new : Text) {c : Char} {o w : Text} (hc : c ∉ w) (s : Text) :
    replace (w ++ s) (c :: o) new = w ++ replace s (c :: o) new := by
  induction w with
  | nil => rfl
  | cons d w ih =>
    rw [List.mem_cons, not_or] at hc
    obtain ⟨hd, hw⟩ := hc
    rw [List.cons_append, replace_cons_of_ne, ih hw, List.cons_append]
    intro h
    exact hd (List.cons_prefix_cons.1 h).1

/-- Only a character of `old` lets an occurrence reach from `x` into `t`. -/
theorem replace_append_of_ends {x t : Text} (ho : old ≠ []) (ht : ∀ c ∈ t.head?, c ∉ old) :
    replace (x ++ t) old new = replace x old new ++ replace t old new := by
  cases t with
  | nil => simp
  | cons c t =>
    have hc := ht c rfl
    have h := replace_append_cons (a := []) (b := t) new hc ho
    rw [replace_append_cons new hc ho, ← List.nil_append (c :: t), h]
    rfl

theorem head?_replace_of_ends (new : Text) {t : Text} (ho : old ≠ []) (ht : ∀ c ∈ t.head?, c ∉ old) :
    (replace t old new).head? = t.head? := by
  cases t with
  | nil => rfl
  | cons c t =>
    have h := replace_append_cons (a := []) (b := t) new (ht c rfl) ho
    rw [← List.nil_append (c :: t), h]
    rfl

theorem replace_prefix_of_ends {x t : Text} (ho : old ≠ []) (ht : ∀ c ∈ t.head?, c ∉ old)
    (hx : ¬ old <:+: x) : replace (x ++ t) old new = x ++ replace t old new := by
  rw [replace_append_of_ends ho ht, replace_eq_self new hx]

/-- A text that `new` cannot begin in stands in front only where it stood before. -/
theorem prefix_of_prefix_replace {u : Text} (hnew : ∀ c ∈ new.head?, c ∉ u) (hne : new ≠ [])
    {s : Text} (h : u <+: replace s old new) : u <+: s := by
  induction u generalizing s with
  | nil => exact List.nil_prefix
  | cons d u ih =>
    cases s with
    | nil => simp at h
    | cons c s =>
      by_cases hp : old <+: c :: s
      · rw [replace, replaceFrom, if_pos (List.isPrefixOf_iff_prefix.2 hp)] at h
        obtain ⟨n, new', rfl⟩ := List.exists_cons_of_ne_nil hne
        rw [List.cons_append, List.cons_prefix_cons] at h
        exact absurd (List.mem_cons.2 (.inl h.1.symm)) (hnew n rfl)
      · rw [replace_cons_of_ne hp, List.cons_prefix_cons] at h
        rw [List.cons_prefix_cons]
        refine ⟨h.1, ih (fun x hx hu => ?_) h.2⟩
        exact hnew x hx (List.mem_cons_of_mem _ hu)

/-- The text up to the first occurrence is copied. -/
theorem replace_first (new : Text) (ho : old ≠ []) {s : Text} (h : old <:+: s) :
    ∃ a b, s = a ++ (old ++ b) ∧ replace s old new = a ++ (new ++ replace b old new) := by
  induction s with
  | nil => exact absurd (List.infix_nil.1 h) ho
  | cons c s ih =>
    by_cases hp : old <+: c :: s
    · obtain ⟨b, hb⟩ := hp
      refine ⟨[], b, hb.symm, ?_⟩
      rw [← hb, replace_old_append ho]
      rfl
    · obtain ⟨a, b, hs, hr⟩ := ih ((List.infix_cons_iff.1 h).resolve_left hp)
      refine ⟨c :: a, b, by rw [hs, List.cons_append], ?_⟩
      rw [replace_cons_of_ne hp, hr, List.cons_append]

/-- Induction over the occurrences. -/
theorem replace_cases {motive : Text → Text → Prop} (ho : old ≠ [])
    (keep : ∀ s, motive s s)
    (step : ∀ a b b', motive b b' → motive (a ++ (old ++ b)) (a ++ (new ++ b'))) (s : Text) :
    motive s (replace s old new) := by
  induction hn : s.length using Nat.strongRecOn generalizing s with
  | ind n ih =>
    by_cases h : old <:+: s
    · obtain ⟨a, b, rfl, hr⟩ := replace_first new ho h
      rw [hr]
      refine step a b _ (ih b.length ?_ b rfl)
      have := List.length_pos_iff.2 ho
      simp only [List.length_append] at hn
      omega
    · rw [replace_eq_self new h]
      exact keep s

theorem count_replace (ho : old ≠ []) {c : Char} (h : new.count c = old.count c) (s : Text) :
    (replace s old new).count c = s.count c := by
  refine replace_cases (motive := fun s s' => s'.count c = s.count c) ho (fun _ => rfl) ?_ s
  intro a b b' ih
  simp only [List.count_append, ih, h]

theorem all_replace (ho : old ≠ []) {p : Char → Prop} (hnew : ∀ c ∈ new, p c) {s : Text}
    (hs : ∀ c ∈ s, p c) : ∀ c ∈ replace s old new, p c := by
  refine replace_cases (motive := fun s s' => (∀ c ∈ s, p c) → ∀ c ∈ s', p c) ho (fun _ h => h) ?_ s hs
  intro a b b' ih h c hc
  simp only [List.mem_append] at hc
  rcases hc with hc | hc | hc
  · exact h c (List.mem_append_left _ hc)
  · exact hnew c hc
  · exact ih (fun c hc => h c (List.mem_append_right _ (List.mem_append_right _ hc))) c hc

/-- What every replacement makes larger in an additive measure, a text with occurrences sees. -/
theorem le_measure_replace (ho : old ≠ []) {m : Text → Int} (hm : ∀ a b, m (a ++ b) = m a + m b)
    (h : m old ≤ m new) (s : Text) : m s ≤ m (replace s old new) := by
  refine replace_cases (motive := fun s s' => m s ≤ m s') ho (fun _ => Int.le_refl _) ?_ s
  intro a b b' ih
  simp only [hm]
  omega

theorem lt_measure_replace (ho : old ≠ []) {m : Text → Int} (hm : ∀ a b, m (a ++ b) = m a + m b)
    (h : m old < m new) {s : Text} (hs : old <:+: s) : m s < m (replace s old new) := by
  obtain ⟨a, b, rfl, hr⟩ := replace_first new ho hs
  have hb := le_measure_replace ho hm (Int.le_of_lt h) b
  rw [hr]
  simp only [hm]
  omega

end Generator.Text
