import RMARaceBench.Generator.Operations
import RMARaceBench.Generator.Tokens

/-!
# The aliasing macros

`replace_with_buffers` and `replace_with_aliases` of the MPI RMA and the SHMEM boilerplate, and what
they are for (`Macro.expected`): the variable is reached through its pointer, every other identifier is
left alone.
-/

set_option autoImplicit false

namespace Generator

open Text

/-! ## The macros of the boilerplates -/

namespace MPIRMA

def replaceWithBuffers (op : Operation) : Text :=
  replace (replace op.code.toList "&value".toList "buf".toList) "value".toList "*buf".toList

def replaceWithAliases (op : Operation) : Text :=
  if op.name ∈ ["store", "load"] then
    replace (replace (replace (replace op.code.toList
      "&value".toList "buf".toList) "value".toList "*buf".toList)
      "buf".toList "buf_alias".toList) "win_base".toList "win_base_alias".toList
  else
    replace (replace op.code.toList "&value".toList "buf".toList) "value".toList "*buf".toList

end MPIRMA

namespace SHMEM

def replaceWithBuffers (op : Operation) : Text :=
  replace (replace (replace (replace op.code.toList
    "&remote".toList "rem_ptr".toList) "remote".toList "*rem_ptr".toList)
    "&localbuf".toList "lbuf_ptr".toList) "localbuf".toList "*lbuf_ptr".toList

def replaceWithAliases (op : Operation) : Text :=
  if op.name ∈ ["store", "load"] then
    replace (replace (replace (replace (replace (replace op.code.toList
      "&remote".toList "rem_ptr".toList) "remote".toList "*rem_ptr".toList)
      "&localbuf".toList "lbuf_ptr".toList) "localbuf".toList "*lbuf_ptr".toList)
      "rem_ptr".toList "rem_ptr_alias".toList) "lbuf_ptr".toList "lbuf_ptr_alias".toList
  else
    replace (replace (replace (replace op.code.toList
      "&remote".toList "rem_ptr".toList) "remote".toList "*rem_ptr".toList)
      "&localbuf".toList "lbuf_ptr".toList) "localbuf".toList "*lbuf_ptr".toList

end SHMEM

/-! ## Chains of replacements -/

/-- A variable and the pointer through which the macro reaches it. -/
structure Deref where
  name : Text
  pointer : Text
  deriving DecidableEq, Repr

namespace Deref

/-- `.replace('&name', 'pointer').replace('name', '*pointer')` -/
def run (d : Deref) (s : Text) : Text :=
  replace (replace s ('&' :: d.name) d.pointer) d.name ('*' :: d.pointer)

end Deref

def suffix : Text := "_alias".toList

/-- The variables behind pointers and the identifiers with an alias. -/
structure Macro where
  derefs : List Deref
  aliases : List Text
  deriving DecidableEq, Repr

/-- The derefs in their order. -/
def derefAll (ds : List Deref) (s : Text) : Text := ds.foldl (fun s d => d.run s) s

/-- `.replace('x', 'x_alias')`, for the identifiers in their order. -/
def aliasAll (xs : List Text) (s : Text) : Text :=
  xs.foldl (fun s x => replace s x (x ++ suffix)) s

namespace Macro

def run (m : Macro) (s : Text) : Text := aliasAll m.aliases (derefAll m.derefs s)

/-- What stands for the pointer `p`. -/
def target (m : Macro) (p : Text) : Text := if p ∈ m.aliases then p ++ suffix else p

/-- The pointer of the variable `w`. -/
def pointer? (m : Macro) (w : Text) : Option Text :=
  (m.derefs.find? fun d => d.name == w).map fun d => m.target d.pointer

/-- The identifiers of the code that have an alias themselves: `win_base`. -/
def IsBase (m : Macro) (w : Text) : Prop := w ∈ m.aliases ∧ ∀ d ∈ m.derefs, d.pointer ≠ w

instance (m : Macro) (w : Text) : Decidable (m.IsBase w) :=
  inferInstanceAs (Decidable (_ ∧ _))

/-- What stands for an identifier other than the variables. -/
def other (m : Macro) (w : Text) : Text := if m.IsBase w then w ++ suffix else w

/-- The tokens without the address-of in front of them. -/
def rewrite (m : Macro) : Token → List Lexeme
  | .word w => match m.pointer? w.text with
    | some p => [.punct '*', .word p]
    | none => [.word (m.other w.text)]
  | t => [t.lexeme]

/-- The tokens that the macro is to produce. -/
def expected (m : Macro) : List Token → List Lexeme
  | [] => []
  | .amp true :: .word w :: ts => match m.pointer? w.text with
    | some p => .word p :: expected m ts
    | none => .punct '&' :: .word (m.other w.text) :: expected m ts
  | t :: ts => m.rewrite t ++ expected m ts

/-- The macro rewrites the code as it is to. -/
def Rewrites (m : Macro) (c : Code) : Prop :=
  lex .code (m.run c.text) = some (m.expected c.tokens)

end Macro

/-! ## The boilerplates -/

/-- The boilerplates with the macros. -/
inductive Boilerplate
  | mpirma | shmem
  deriving DecidableEq, Repr

namespace Boilerplate

def replaceWithBuffers : Boilerplate → Operation → Text
  | mpirma => MPIRMA.replaceWithBuffers
  | shmem => SHMEM.replaceWithBuffers

def replaceWithAliases : Boilerplate → Operation → Text
  | mpirma => MPIRMA.replaceWithAliases
  | shmem => SHMEM.replaceWithAliases

def derefs : Boilerplate → List Deref
  | mpirma => [⟨"value".toList, "buf".toList⟩]
  | shmem => [⟨"remote".toList, "rem_ptr".toList⟩, ⟨"localbuf".toList, "lbuf_ptr".toList⟩]

def aliases : Boilerplate → List Text
  | mpirma => ["buf".toList, "win_base".toList]
  | shmem => ["rem_ptr".toList, "lbuf_ptr".toList]

/-- What `replace_with_buffers` does. -/
def buffers (b : Boilerplate) : Macro := ⟨b.derefs, []⟩

/-- What `replace_with_aliases` does with loads and stores. -/
def aliased (b : Boilerplate) : Macro := ⟨b.derefs, b.aliases⟩

theorem replaceWithBuffers_eq (b : Boilerplate) (op : Operation) :
    b.replaceWithBuffers op = b.buffers.run op.code.toList := by
  cases b <;> rfl

theorem replaceWithAliases_eq (b : Boilerplate) (op : Operation) :
    b.replaceWithAliases op =
      if op.name ∈ ["store", "load"] then b.aliased.run op.code.toList else b.replaceWithBuffers op := by
  cases b <;> rfl

/-- **The macros rewrite the intended identifiers and no others** in the operation `op` with the code
`c`. -/
def Rewrites (b : Boilerplate) (op : Operation) (c : Code) : Prop :=
  lex .code (b.replaceWithBuffers op) = some (b.buffers.expected c.tokens) ∧
  if op.name ∈ ["store", "load"] then
    lex .code (b.replaceWithAliases op) = some (b.aliased.expected c.tokens)
  else b.replaceWithAliases op = b.replaceWithBuffers op

end Boilerplate

end Generator
