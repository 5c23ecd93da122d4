import RMARaceBench.Generator.MacroItems

/-!
# The aliasing macros of the boilerplates

The macros of both boilerplates rewrite exactly the codes that fit them (`Boilerplate.macros_rewrite_iff`).
The operations with `&value2` do not fit.
-/

set_option autoImplicit false

namespace Generator

namespace Boilerplate

theorem derefs_lead (b : Boilerplate) :
    ∀ d ∈ b.derefs, ∃ g e, g ++ [e] <+: d.pointer ∧ IsLead b.derefs g e := by
  cases b with
  | mpirma =>
    intro d hd
    obtain rfl := List.mem_singleton.1 hd
    refine ⟨[], 'b', by decide, ⟨?_, ?_, ?_⟩, ?_, by decide, by decide⟩ <;> decide +kernel
  | shmem =>
    intro d hd
    rcases List.mem_cons.1 hd with rfl | hd
    · refine ⟨"rem".toList, '_', by decide, ⟨?_, ?_, ?_⟩, ?_, by decide, by decide⟩ <;> decide +kernel
    · obtain rfl := List.mem_singleton.1 hd
      refine ⟨"lbuf".toList, '_', by decide, ⟨?_, ?_, ?_⟩, ?_, by decide, by decide⟩ <;>
        decide +kernel

theorem derefs_sound (b : Boilerplate) : DerefsSound b.derefs where
  name_ne := by cases b <;> decide
  name_word := by cases b <;> decide
  pointer_word := by cases b <;> decide
  nodup := by cases b <;> decide
  name_head := by cases b <;> decide
  pointer_head := by cases b <;> decide
  front := by cases b <;> exact ⟨by decide, by decide +kernel, by decide⟩
  lead := b.derefs_lead

theorem buffers_sound (b : Boilerplate) : b.buffers.Sound where
  toDerefsSound := b.derefs_sound
  alias_ne := nofun
  alias_word := nofun
  alias_self := nofun
  alias_pointer _ _ := rfl

theorem aliased_sound (b : Boilerplate) : b.aliased.Sound where
  toDerefsSound := b.derefs_sound
  alias_ne := by cases b <;> decide
  alias_word := by cases b <;> decide
  alias_self := by cases b <;> decide
  alias_pointer := by cases b <;> decide

/-- The code of an operation fits its macros. -/
def Fits (b : Boilerplate) (op : Operation) (c : Code) : Prop :=
  b.buffers.Fits c.items ∧ (op.name ∈ ["store", "load"] → b.aliased.Fits c.items)

/-- **The macros rewrite the intended identifiers and no others** just in the codes that fit. -/
theorem macros_rewrite_iff (b : Boilerplate) (op : Operation) (c : Code) (hc : op.code.toList = c.text) :
    b.Rewrites op c ↔ b.Fits op c := by
  have hbuffers := b.buffers_sound.rewrites_iff c
  have haliased := b.aliased_sound.rewrites_iff c
  unfold Rewrites Fits
  rw [replaceWithAliases_eq, replaceWithBuffers_eq, hc]
  refine and_congr hbuffers ?_
  by_cases h : op.name ∈ ["store", "load"]
  · simp only [if_pos h]
    exact haliased.trans ⟨fun hf _ => hf, fun hf => hf h⟩
  · simp only [if_neg h]
    exact iff_of_true trivial fun hop => absurd hop h

/-! ## Operations -/

def word (w : String) (hne : w.toList ≠ [] := by decide)
    (hw : ∀ c ∈ w.toList, isWord c = true := by decide) : Item :=
  .token (.word ⟨w.toList, hne, hw⟩)

def blank : Item := .space ' ' rfl

def mark (c : Char) (hc : isPunct c = true := by decide) (hamp : c ≠ '&' := by decide) : Item :=
  .token (.punct c hc hamp)

/-- `value = 42;` -/
def storeCode : Code :=
  ⟨[word "value", blank, mark '=', blank, word "42", mark ';'], by simp [word, blank, mark, Item.Apart]⟩

def localStore : Operation := add "local_store" "store" "STORE" "store" "store" "value = 42;"

theorem localStore_rewrites : Boilerplate.mpirma.Rewrites localStore storeCode :=
  (Boilerplate.macros_rewrite_iff .mpirma localStore storeCode (by decide)).2
    ⟨by decide +kernel, fun _ => by decide +kernel⟩

/-! ## The registered operations -/

def pushWord (c : Char) (hc : isWord c = true) : List Item → List Item
  | .token (.word w) :: ps =>
    .token (.word ⟨c :: w.text, List.cons_ne_nil _ _, List.forall_mem_cons.2 ⟨hc, w.isWord⟩⟩) :: ps
  | ps => .token (.word ⟨[c], List.cons_ne_nil _ _, List.forall_mem_singleton.2 hc⟩) :: ps

/-- The items of a code whose `&` all take addresses. In a literal, the rest of its body comes first. -/
def readItems : Mode → Text → Option (Text × List Item)
  | .code, [] => some ([], [])
  | .literal _ _, [] => none
  | .code, c :: s =>
    if hw : isWord c = true then (readItems .code s).map fun r => ([], pushWord c hw r.2)
    else if hs : isSpace c = true then (readItems .code s).map fun r => ([], .space c hs :: r.2)
    else if hq : isQuote c = true then (readItems (.literal c false) s).bind fun r =>
      if hb : isBody c false r.1 = true then some ([], .token (.lit ⟨c, r.1, hq, hb⟩) :: r.2) else none
    else if hamp : c = '&' then (readItems .code s).map fun r => ([], .token (.amp true) :: r.2)
    else (readItems .code s).map fun r =>
      ([], .token (.punct c (isPunct_iff.2 (by simp [hw, hs, hq])) hamp) :: r.2)
  | .literal quote true, c :: s => (readItems (.literal quote false) s).map fun r => (c :: r.1, r.2)
  | .literal quote false, c :: s =>
    if c == quote then (readItems .code s).map fun r => ([], r.2)
    else (readItems (.literal quote (c == '\\')) s).map fun r => (c :: r.1, r.2)

def operations : Boilerplate → List Operation
  | mpirma => mpirmaOperations
  | shmem => shmemOperations

/-- The operations that use `value2`. -/
def misfits : List String := ["gacc1", "gacc2", "fop1", "fop2", "cas1", "cas2"]

/-- All registered operations but those with `&value2` fit the macros. -/
theorem registered_fit (b : Boilerplate) : ∀ op ∈ b.operations,
    ∃ c : Code, op.code.toList = c.text ∧ (b.Fits op c ↔ op.key ∉ misfits) := by
  have hall : ∀ op ∈ b.operations, ((readItems .code op.code.toList).any fun r =>
      decide (op.code.toList = spell r.2 ∧ r.2.IsChain Item.Apart ∧
        (b.buffers.Fits r.2 ∧ (op.name ∈ ["store", "load"] → b.aliased.Fits r.2) ↔
          op.key ∉ misfits))) = true := by
    cases b
    all_goals
      simp only [operations, mpirmaOperations, shmemOperations, add, List.forall_mem_cons,
        String.toList_append]
      repeat rw [String.toList_ofList]
      decide +kernel
  intro op hop
  obtain ⟨r, -, h⟩ := (Option.any_eq_true _ _).1 (hall op hop)
  obtain ⟨htext, hapart, hfits⟩ := of_decide_eq_true h
  exact ⟨⟨r.2, hapart⟩, htext, hfits⟩

/-- `&value2` becomes `buf2`. -/
theorem fop1_not_rewrites : ¬ ∀ b : Boilerplate, ∀ op ∈ b.operations, ∀ c : Code,
    op.code.toList = c.text → b.Rewrites op c := by
  intro h
  have hmem : mpirmaOperations[14] ∈ operations .mpirma := List.getElem_mem _
  obtain ⟨c, hc, hfit⟩ := registered_fit .mpirma _ hmem
  have hrewrites := (h .mpirma _ hmem c hc).1
  rw [replaceWithBuffers_eq, hc] at hrewrites
  have hbuffers := ((buffers_sound .mpirma).rewrites_iff c).1 hrewrites
  have hname : mpirmaOperations[14].name ∉ ["store", "load"] := by decide
  exact hfit.1 ⟨hbuffers, fun h => absurd h hname⟩ (by decide)

end Boilerplate

end Generator
