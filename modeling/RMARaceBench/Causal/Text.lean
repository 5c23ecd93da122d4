import RMARaceBench.Causal.Must

/-!
# Texts

A text is the list of statements of one actor, its step at position `k` computed from the statement
there. Rounds of a collective operation are numbered by the statements that stand before them
(`countBefore`). An event is settled with a text when none of the statements it conflicts with may be
concurrent to it (`Settled`); a system of texts (`Hosts`) and transfers whose accesses are settled has
no race (`Hosts.raceFree`).
-/

set_option autoImplicit false

namespace Causal

namespace Text

variable {σ : Type}

/-- How many statements with `p` stand before position `k`. -/
def countBefore (text : List σ) (k : Nat) (p : σ → Bool) : Nat := (text.take k).countP p

/-- The positions before `k` of the statements with `p`. -/
def before (text : List σ) (k : Nat) (p : σ → Bool) : List Nat :=
  (List.range k).filter fun j => text[j]?.any p

variable {text : List σ} {p : σ → Bool} {j k : Nat}

theorem mem_before : j ∈ before text k p ↔ j < k ∧ ∃ s, text[j]? = some s ∧ p s = true := by
  simp [before, Option.any_eq_true]

theorem mem_before_of {s : σ} (hj : text[j]? = some s) (hs : p s = true) (hjk : j < k) :
    j ∈ before text k p :=
  mem_before.2 ⟨hjk, s, hj, hs⟩

theorem countBefore_succ {s : σ} (hk : text[k]? = some s) (hs : p s = true) :
    countBefore text (k + 1) p = countBefore text k p + 1 := by
  simp [countBefore, List.take_add_one, hk, hs]

theorem countBefore_mono (text : List σ) (p : σ → Bool) (h : j ≤ k) :
    countBefore text j p ≤ countBefore text k p :=
  (List.take_sublist_take_left h).countP_le

/-- Before two positions with `p` stand different numbers of such positions. -/
theorem countBefore_inj {s s' : σ} (hj : text[j]? = some s) (hs : p s = true)
    (hk : text[k]? = some s') (hs' : p s' = true) (h : countBefore text j p = countBefore text k p) :
    j = k := by
  have hj' := countBefore_succ hj hs
  have hk' := countBefore_succ hk hs'
  rcases Nat.lt_trichotomy j k with hlt | he | hlt
  · have := countBefore_mono text p (show j + 1 ≤ k from hlt)
    omega
  · exact he
  · have := countBefore_mono text p (show k + 1 ≤ j from hlt)
    omega

/-- A statement of a text stands in its first or in its second part. -/
theorem append_cases {A B : List σ} {s : σ} (h : (A ++ B)[k]? = some s) :
    A[k]? = some s ∨ ∃ j, k = A.length + j ∧ B[j]? = some s := by
  by_cases hk : k < A.length
  · rw [List.getElem?_append_left hk] at h
    exact .inl h
  · rw [List.getElem?_append_right (Nat.le_of_not_lt hk)] at h
    exact .inr ⟨k - A.length, by omega, h⟩

/-- The statements that `f` picks out of a text, with their positions. -/
theorem mem_picked {β : Type} {f : σ → Option β} {b : β} :
    (k, b) ∈ text.zipIdx.filterMap (fun p => (f p.1).map (p.2, ·)) ↔
      ∃ s, text[k]? = some s ∧ f s = some b := by
  simp only [List.mem_filterMap, Option.map_eq_some_iff, Prod.mk.injEq]
  constructor
  · rintro ⟨⟨s, j⟩, hs, b', hf, rfl, rfl⟩
    exact ⟨s, List.mem_zipIdx_iff_getElem?.1 hs, hf⟩
  · rintro ⟨s, hs, hf⟩
    exact ⟨(s, k), List.mem_zipIdx_iff_getElem?.2 hs, b, hf, rfl, rfl⟩

theorem getElem?_right {A B : List σ} (j : Nat) : (A ++ B)[A.length + j]? = B[j]? := by
  rw [List.getElem?_append_right (Nat.le_add_right _ _), Nat.add_sub_cancel_left]

/-- What stands before a position inside the second part of a text. -/
theorem countBefore_append_right {A B : List σ} :
    countBefore (A ++ B) (A.length + k) p = A.countP p + countBefore B k p := by
  simp only [countBefore, List.take_length_add_append, List.countP_append]

/-- The one element with `q` of a list. -/
theorem at_of_split {q : σ → Prop} {pre post : List σ} {x y : σ} {e : Nat}
    (hpre : ∀ z ∈ pre, ¬ q z) (hpost : ∀ z ∈ post, ¬ q z) (h : (pre ++ x :: post)[e]? = some y)
    (hy : q y) : e = pre.length ∧ y = x := by
  rcases Nat.lt_trichotomy e pre.length with hlt | rfl | hlt
  · rw [List.getElem?_append_left hlt] at h
    exact absurd hy (hpre y (List.mem_of_getElem? h))
  · simp only [List.getElem?_append_right (Nat.le_refl _), Nat.sub_self, List.getElem?_cons_zero,
      Option.some.injEq] at h
    exact ⟨rfl, h.symm⟩
  · rw [List.getElem?_append_right (Nat.le_of_lt hlt),
      show e - pre.length = (e - pre.length - 1) + 1 by omega, List.getElem?_cons_succ] at h
    exact absurd hy (hpost y (List.mem_of_getElem? h))

/-- The statements of a text at the positions `lo .. hi - 1`. -/
def slice (text : List σ) (lo hi : Nat) : List σ := (text.take hi).drop lo

theorem mem_slice {lo hi i : Nat} {s : σ} (hs : text[i]? = some s) (hlo : lo ≤ i) (hhi : i < hi) :
    s ∈ slice text lo hi := by
  refine List.mem_iff_getElem?.2 ⟨i - lo, ?_⟩
  rw [slice, List.getElem?_drop, show lo + (i - lo) = i by omega, List.getElem?_take_of_lt hhi, hs]

end Text

namespace System

variable {A M T K σ : Type} [DecidableEq A] {S : System A M T K} {x : Event A} {a : A}
  {text : List σ} {k : Nat}

/-- The event `x` is ordered with the statements with `p` of the text of `a`: none of them stands in
the window of statements that may be concurrent to `x`. -/
def Settled (S : System A M T K) (text : List σ) (x : Event A) (a : A) (p : σ → Prop) : Prop :=
  ∃ lo hi, Window S x a lo hi ∧ ∀ s ∈ Text.slice text lo hi, ¬ p s

namespace Settled

variable {p q : σ → Prop}

theorem mono (h : Settled S text x a p) (hq : ∀ s, q s → p s) : Settled S text x a q := by
  obtain ⟨lo, hi, hw, hp⟩ := h
  exact ⟨lo, hi, hw, fun s hs hqs => hp s hs (hq s hqs)⟩

/-- The statements up to one that precedes `x` and from the next one on. -/
theorem around (hb : Must S (a, k) x) (ha : Must S x (a, k + 1)) : Settled S text x a p := by
  refine ⟨k + 1, k + 1, .of_ends hb ha, fun s hs => ?_⟩
  simp [Text.slice] at hs

/-- The statements from one on that follows `x`, when those before it are not with `p`. -/
theorem after (ha : Must S x (a, k)) (hp : ∀ s ∈ text.take k, ¬ p s) : Settled S text x a p :=
  ⟨0, k, ⟨fun _ hi => absurd hi (Nat.not_lt_zero _), fun _ hi => ha.order_right hi⟩, by
    simpa [Text.slice] using hp⟩

end Settled

/-- The steps of the actors with `host` are computed from texts, and `acc a s` are the accesses of
the statement `s` there. -/
def Hosts (S : System A M T K) (host : A → Prop) (text : A → List σ) (acc : A → σ → List M) : Prop :=
  ∀ a i s, host a → S.step (a, i) = some s → ∃ st, (text a)[i]? = some st ∧ s.accs = acc a st

section
variable {host : A → Prop} {texts : A → List σ} {acc : A → σ → List M} {conf : M → M → Prop}

omit [DecidableEq A] in
theorem Hosts.accesses (hH : S.Hosts host texts acc) {i : Nat} {m : M} (ha : host a)
    (h : S.Accesses (a, i) m) : ∃ st, (texts a)[i]? = some st ∧ m ∈ acc a st := by
  obtain ⟨s, hs, hm⟩ := h
  obtain ⟨st, hst, hacc⟩ := hH a i s ha hs
  exact ⟨st, hst, hacc ▸ hm⟩

/-- Beyond the end of a text there are no steps to be ordered. -/
theorem Hosts.must_beyond (hH : S.Hosts host texts acc) (ha : host a) {i : Nat}
    (hi : (texts a).length ≤ i) : Must S x (a, i) := by
  intro h hr hmem
  obtain ⟨s, hs⟩ := Run.step_of_mem hr hmem
  obtain ⟨st, hst, -⟩ := hH a i s ha hs
  rw [List.getElem?_eq_none hi] at hst
  cases hst

theorem Hosts.before (hH : S.Hosts host texts acc) (ha : host a) {p : σ → Prop}
    (hb : Must S (a, k) x) (hp : ∀ s ∈ (texts a).drop (k + 1), ¬ p s) :
    Settled S (texts a) x a p := by
  refine ⟨k + 1, (texts a).length, .of_ends hb (hH.must_beyond ha (Nat.le_refl _)), ?_⟩
  simpa [Text.slice] using hp

theorem Hosts.none (hH : S.Hosts host texts acc) (ha : host a) {p : σ → Prop}
    (hp : ∀ s ∈ texts a, ¬ p s) : Settled S (texts a) x a p :=
  .after (hH.must_beyond ha (Nat.le_refl _)) fun s hs => hp s (List.mem_of_mem_take hs)

/-- **Race freedom of texts with transfers**: neither hosts nor the other actors conflict among each
other, and every access of another actor is settled with the conflicting statements of every host. -/
theorem Hosts.raceFree (hH : S.Hosts host texts acc) (hsymm : ∀ m m', conf m m' → conf m' m)
    (hhost : ∀ a b, a ≠ b → host a → host b → ∀ s s', ∀ m ∈ acc a s, ∀ m' ∈ acc b s', ¬ conf m m')
    (hother : ∀ a b, a ≠ b → ¬ host a → ¬ host b → ∀ i j m m', S.Accesses (a, i) m →
      S.Accesses (b, j) m' → ¬ conf m m')
    (hset : ∀ a b j m, host a → ¬ host b → S.Accesses (b, j) m →
      Settled S (texts a) (b, j) a fun s => ∃ m' ∈ acc a s, conf m' m) : S.RaceFree conf := by
  have hmixed : ∀ a b, host a → ¬ host b → S.Apart conf a b := by
    intro a b ha hb h hr i j hi hj m m' hm hm' hmm
    obtain ⟨st, hst, hacc⟩ := hH.accesses ha hm
    obtain ⟨lo, hi', hw, hno⟩ := hset a b j m' ha hb hm'
    refine hw.ordered hr hj hi ?_
    by_contra hin
    exact hno st (Text.mem_slice hst (by omega) (by omega)) ⟨m, hacc, hmm⟩
  refine raceFree_of_apart fun a b hab => ?_
  by_cases ha : host a <;> by_cases hb : host b
  · refine Apart.of_disjoint fun i j m m' hm hm' => ?_
    obtain ⟨s, -, hs⟩ := hH.accesses ha hm
    obtain ⟨s', -, hs'⟩ := hH.accesses hb hm'
    exact hhost a b hab ha hb s s' m hs m' hs'
  · exact hmixed a b ha hb
  · exact Apart.symm hsymm (hmixed b a hb ha)
  · exact Apart.of_disjoint (hother a b hab ha hb)

end

end System

end Causal
