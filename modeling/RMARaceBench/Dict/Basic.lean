import Mathlib.Data.List.Nodup
import Mathlib.Data.List.Perm.Basic

/-!
# Dictionaries that keep the order of insertion

`d.set k v` overwrites the value of a key in place and appends a new key, as `d[k] = v` does in Python.
-/

set_option autoImplicit false

structure Dict (κ ν : Type) where
  items : List (κ × ν)
  nodup : (items.map Prod.fst).Nodup

namespace Dict

variable {κ ν : Type}

def empty : Dict κ ν := ⟨[], List.nodup_nil⟩

def keys (d : Dict κ ν) : List κ := d.items.map Prod.fst

variable [DecidableEq κ]

def getItems : List (κ × ν) → κ → Option ν
  | [], _ => none
  | x :: l, k => if x.1 = k then some x.2 else getItems l k

def setItems : List (κ × ν) → κ → ν → List (κ × ν)
  | [], k, v => [(k, v)]
  | x :: l, k, v => if x.1 = k then (k, v) :: l else x :: setItems l k v

theorem mem_keys_setItems {l : List (κ × ν)} {k k' : κ} {v : ν} :
    k' ∈ (setItems l k v).map Prod.fst ↔ k' = k ∨ k' ∈ l.map Prod.fst := by
  induction l with
  | nil => simp [setItems]
  | cons x l ih =>
    unfold setItems
    split
    · next h => simp [h]
    · rw [List.map_cons, List.mem_cons, ih, List.map_cons, List.mem_cons]
      tauto

theorem nodup_setItems {l : List (κ × ν)} (h : (l.map Prod.fst).Nodup) (k : κ) (v : ν) :
    ((setItems l k v).map Prod.fst).Nodup := by
  induction l with
  | nil => simp [setItems]
  | cons x l ih =>
    rw [List.map_cons, List.nodup_cons] at h
    unfold setItems
    split
    · next hk => exact List.nodup_cons.2 ⟨hk ▸ h.1, h.2⟩
    · next hk =>
      rw [List.map_cons, List.nodup_cons, mem_keys_setItems, not_or]
      exact ⟨⟨hk, h.1⟩, ih h.2⟩

/-- `d.get(k)`. -/
def get? (d : Dict κ ν) (k : κ) : Option ν := getItems d.items k

/-- `d[k] = v`. -/
def set (d : Dict κ ν) (k : κ) (v : ν) : Dict κ ν := ⟨setItems d.items k v, nodup_setItems d.nodup k v⟩

@[simp] theorem get?_empty (k : κ) : (empty : Dict κ ν).get? k = none := rfl

@[simp] theorem get?_set (d : Dict κ ν) (k k' : κ) (v : ν) :
    (d.set k v).get? k' = if k' = k then some v else d.get? k' := by
  unfold get? set
  show getItems (setItems d.items k v) k' = _
  induction d.items with
  | nil => simp [setItems, getItems, eq_comm]
  | cons x l ih =>
    by_cases hx : x.1 = k
    · rw [setItems, if_pos hx, getItems, getItems, hx]
      by_cases hk : k = k'
      · rw [if_pos hk, if_pos hk.symm]
      · rw [if_neg hk, if_neg hk, if_neg (Ne.symm hk)]
    · rw [setItems, if_neg hx, getItems, getItems, ih]
      by_cases hk : x.1 = k'
      · rw [if_pos hk, if_pos hk, if_neg (hk ▸ hx)]
      · rw [if_neg hk, if_neg hk]

/-- An item is what `get?` finds for its key. -/
theorem mem_items_iff {d : Dict κ ν} {k : κ} {v : ν} : (k, v) ∈ d.items ↔ d.get? k = some v := by
  unfold get?
  obtain ⟨l, h⟩ := d
  show (k, v) ∈ l ↔ getItems l k = some v
  induction l with
  | nil => simp [getItems]
  | cons x l ih =>
    rw [List.map_cons, List.nodup_cons] at h
    rw [List.mem_cons, getItems]
    split
    · next hx =>
      subst hx
      have hl : (x.1, v) ∉ l := fun hm => h.1 (List.mem_map.2 ⟨_, hm, rfl⟩)
      rw [or_iff_left hl, Option.some.injEq]
      constructor
      · intro e
        rw [← e]
      · intro e
        rw [← e]
    · next hx =>
      rw [ih h.2, or_iff_right]
      intro e
      exact hx (by rw [← e])

theorem mem_keys_iff {d : Dict κ ν} {k : κ} : k ∈ d.keys ↔ (d.get? k).isSome = true := by
  unfold keys
  rw [List.mem_map, Option.isSome_iff_exists]
  constructor
  · intro h
    obtain ⟨⟨k, v⟩, hx, rfl⟩ := h
    exact ⟨v, mem_items_iff.1 hx⟩
  · intro h
    obtain ⟨v, hv⟩ := h
    exact ⟨(k, v), mem_items_iff.2 hv, rfl⟩

/-- What a function of the values collects, as a list over the keys. -/
theorem filterMap_items {α : Type} (d : Dict κ ν) (f : ν → Option α) :
    d.items.filterMap (fun x => f x.2) = d.keys.filterMap fun k => (d.get? k).bind f := by
  unfold keys
  rw [List.filterMap_map]
  refine List.filterMap_congr fun x hx => ?_
  rw [Function.comp, mem_items_iff.1 hx, Option.bind_some]

/-- When exactly the keys of a duplicate-free list have a value under `f`, the collected values are those
of the list, in another order. -/
theorem filterMap_items_perm {α : Type} (d : Dict κ ν) (f : ν → Option α) {names : List κ}
    (hn : names.Nodup) (h : ∀ k, ((d.get? k).bind f).isSome = true ↔ k ∈ names) :
    List.Perm (d.items.filterMap fun x => f x.2) (names.filterMap fun k => (d.get? k).bind f) := by
  have hkeys : ∀ k ∈ names, k ∈ d.keys := by
    intro k hk
    rw [mem_keys_iff]
    have := (h k).2 hk
    cases hg : d.get? k with
    | none => simp [hg] at this
    | some v => rfl
  have hperm : List.Perm (d.keys.filter fun k => k ∈ names) names := by
    refine (List.perm_ext_iff_of_nodup (d.nodup.filter _) hn).2 fun k => ?_
    rw [List.mem_filter, decide_eq_true_iff]
    exact ⟨fun hk => hk.2, fun hk => ⟨hkeys k hk, hk⟩⟩
  have hfilter : d.keys.filterMap (fun k => (d.get? k).bind f) =
      (d.keys.filter fun k => k ∈ names).filterMap fun k => (d.get? k).bind f := by
    rw [List.filterMap_filter]
    refine List.filterMap_congr fun k _ => ?_
    by_cases hk : k ∈ names
    · simp [hk]
    · have := mt (h k).1 hk
      simp only [Option.not_isSome_iff_eq_none] at this
      simp [hk, this]
  rw [filterMap_items, hfilter]
  exact hperm.filterMap _

end Dict
