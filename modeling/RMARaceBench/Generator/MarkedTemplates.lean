import RMARaceBench.Generator.Macros
import RMARaceBench.Generator.Written

/-!
# The templates with the default labels

The templates that keep the block `race_labels` of their boilerplate, with what they render behind their
`// CONFLICT` lines when `race` is set.
-/

set_option autoImplicit false

namespace Generator

/-! ## Marked code -/

/-- The two operations of a template. -/
inductive Operand
  | op1 | op2
  deriving DecidableEq, Repr

/-- What a template renders behind a `// CONFLICT` line. -/
inductive Marked
  /-- `{{ op.code }}` -/
  | code (op : Operand)
  /-- `{{ replace_with_aliases(op) }}` -/
  | aliases (b : Boilerplate) (op : Operand)
  /-- `{{ replace_with_buffers(op) }}` -/
  | buffers (b : Boilerplate) (op : Operand)
  /-- The statement itself. -/
  | text (s : String)
  deriving DecidableEq, Repr

def Operand.get (op1 op2 : Operation) : Operand → Operation
  | .op1 => op1
  | .op2 => op2

def Marked.render (op1 op2 : Operation) : Marked → Text
  | code op => (op.get op1 op2).code.toList
  | aliases b op => b.replaceWithAliases (op.get op1 op2)
  | buffers b op => b.replaceWithBuffers (op.get op1 op2)
  | text s => s.toList

/-- The word of the kind between hyphens. -/
def hyphened (k : AccessKind) : Text := '-' :: (k.word ++ ['-'])

/-- A template that keeps the block. Its path under `templates/` is `stem`, the kind between hyphens and
`ending`. -/
structure KeptTemplate where
  stem : String
  kind : Option AccessKind
  ending : String
  model : Model
  marked : List Marked
  deriving DecidableEq, Repr

def codes : List Marked := [.code .op1, .code .op2]

def aliased (b : Boilerplate) : List Marked := [.aliases b .op1, .aliases b .op2]

def buffered (b : Boilerplate) : List Marked := [.buffers b .op1, .buffers b .op2]

/-- The templates whose text has no block `race_labels`. -/
def keptTemplates : List KeptTemplate :=
  [⟨"GASPI/conflict/GASPI-conflict-op1-op2", some .local, "race.c.j2", .GASPI, codes⟩,
    ⟨"GASPI/conflict/GASPI-conflict-op1-op2", some .remote, "race.c.j2", .GASPI, codes⟩,
    ⟨"GASPI/misc/GASPI-misc-op1-op2-aliasing", some .local, "race.c.j2", .GASPI, codes⟩,
    ⟨"GASPI/misc/GASPI-misc-op1-op2-aliasing", some .remote, "race.c.j2", .GASPI, codes⟩,
    ⟨"GASPI/misc/GASPI-misc-op1-op2-deep-nesting", some .local, "race.c.j2", .GASPI,
      [.code .op2,
        .code .op1]⟩,
    ⟨"GASPI/misc/GASPI-misc-op1-op2-deep-nesting", some .remote, "race.c.j2", .GASPI,
      [.code .op2,
        .code .op1]⟩,
    ⟨"GASPI/misc/GASPI-misc-op1-op2-funcpointer", some .remote, "race.c.j2", .GASPI, codes⟩,
    ⟨"GASPI/misc/GASPI-misc-op1-op2-memcpy", some .local, "race.c.j2", .GASPI, codes⟩,
    ⟨"GASPI/misc/GASPI-misc-op1-op2-memcpy", some .remote, "race.c.j2", .GASPI, codes⟩,
    ⟨"GASPI/misc/GASPI-misc-op1-op2-retval", some .local, "race.c.j2", .GASPI, codes⟩,
    ⟨"GASPI/misc/GASPI-misc-op1-op2-retval", some .remote, "race.c.j2", .GASPI, codes⟩,
    ⟨"MPIRMA/conflict/MPI-conflict-op1-op2", some .local, "race.c.j2", .MPIRMA, codes⟩,
    ⟨"MPIRMA/conflict/MPI-conflict-op1-op2", some .remote, "race.c.j2", .MPIRMA, codes⟩,
    ⟨"MPIRMA/misc/MPI-misc-op1-op2-aliasing", some .local, "race.c.j2", .MPIRMA, aliased .mpirma⟩,
    ⟨"MPIRMA/misc/MPI-misc-op1-op2-aliasing", some .remote, "race.c.j2", .MPIRMA, aliased .mpirma⟩,
    ⟨"MPIRMA/misc/MPI-misc-op1-op2-deep-nesting", some .local, "race.c.j2", .MPIRMA, buffered .mpirma⟩,
    ⟨"MPIRMA/misc/MPI-misc-op1-op2-deep-nesting", some .remote, "race.c.j2", .MPIRMA, buffered .mpirma⟩,
    ⟨"MPIRMA/misc/MPI-misc-op1-op2-funcpointer", some .remote, "race.c.j2", .MPIRMA, buffered .mpirma⟩,
    ⟨"MPIRMA/misc/MPI-misc-op1-op2-memcpy", some .local, "race.c.j2", .MPIRMA, aliased .mpirma⟩,
    ⟨"MPIRMA/misc/MPI-misc-op1-op2-memcpy", some .remote, "race.c.j2", .MPIRMA, aliased .mpirma⟩,
    ⟨"MPIRMA/misc/MPI-misc-op1-op2-retval", some .local, "race.c.j2", .MPIRMA, aliased .mpirma⟩,
    ⟨"MPIRMA/misc/MPI-misc-op1-op2-retval", some .remote, "race.c.j2", .MPIRMA, aliased .mpirma⟩,
    ⟨"MPIRMA/sync/MPI-sync-request", some .local, "race.c.j2", .MPIRMA,
      [.text "MPI_Rget(&value, 1, MPI_INT, 1, 0, 1, MPI_INT, win, &req);",
        .text "printf(\"value is %d\\n\", value);"]⟩,
    ⟨"SHMEM/conflict/shmem-conflict-op1-op2", some .local, "race.c.j2", .SHMEM, codes⟩,
    ⟨"SHMEM/conflict/shmem-conflict-op1-op2", some .remote, "race.c.j2", .SHMEM, codes⟩,
    ⟨"SHMEM/misc/shmem-misc-op1-op2-aliasing", some .local, "race.c.j2", .SHMEM, aliased .shmem⟩,
    ⟨"SHMEM/misc/shmem-misc-op1-op2-aliasing", some .remote, "race.c.j2", .SHMEM, aliased .shmem⟩,
    ⟨"SHMEM/misc/shmem-misc-op1-op2-deep-nesting", some .local, "race.c.j2", .SHMEM, buffered .shmem⟩,
    ⟨"SHMEM/misc/shmem-misc-op1-op2-deep-nesting", some .remote, "race.c.j2", .SHMEM, buffered .shmem⟩,
    ⟨"SHMEM/misc/shmem-misc-op1-op2-funcpointer", some .remote, "race.c.j2", .SHMEM, buffered .shmem⟩,
    ⟨"SHMEM/misc/shmem-misc-op1-op2-memcpy", some .local, "race.c.j2", .SHMEM, aliased .shmem⟩,
    ⟨"SHMEM/misc/shmem-misc-op1-op2-memcpy", some .remote, "race.c.j2", .SHMEM, aliased .shmem⟩,
    ⟨"SHMEM/misc/shmem-misc-op1-op2-retval", some .local, "race.c.j2", .SHMEM, aliased .shmem⟩,
    ⟨"SHMEM/misc/shmem-misc-op1-op2-retval", some .remote, "race.c.j2", .SHMEM, aliased .shmem⟩,
    ⟨"SHMEM/old/local/shmem-comb-op1-op2", some .local, "no.c.j2", .SHMEM, []⟩,
    ⟨"SHMEM/old/local/shmem-comb-op1-op2", some .local, "race.c.j2", .SHMEM, codes⟩,
    ⟨"SHMEM/old/remote/shmem_atomic_nbi_remote_race.c.j2", none, "", .SHMEM, []⟩,
    ⟨"SHMEM/old/remote/shmem_atomic_nbi_safe.c.j2", none, "", .SHMEM, []⟩,
    ⟨"SHMEM/old/shmem-lock-put-load", some .remote, "yes.c.j2", .SHMEM,
      [.text "localbuf = 0;",
        .text "localbuf = 1;"]⟩,
    ⟨"SHMEM/old/shmem-quiet-op1-op2", some .remote, "yes.c.j2", .SHMEM, [.code .op1, .code .op1]⟩]

/-! ## Rendering -/

/-- What else a template renders: the text before the block, the text before the first marker and behind
each marked code, and how far the marked code is indented. -/
structure Surroundings where
  header : Text
  no_marker : ¬ beginMarker <:+: header
  no_cr : '\r' ∉ header
  gap : Nat → RenderArgs → Text
  indent : Nat → Nat

/-- The marked codes from the `k`-th on. -/
def Surroundings.body (s : Surroundings) (a : RenderArgs) : Nat → List Text → Text
  | k, [] => s.gap k a
  | k, piece :: pieces =>
    s.gap k a ++ ("// CONFLICT\n".toList ++ (List.replicate (s.indent k) ' ' ++
      (piece ++ s.body a (k + 1) pieces)))

namespace KeptTemplate

/-- `template_file`. -/
def file (t : KeptTemplate) : Text :=
  "templates/".toList ++ (t.stem.toList ++ (t.kind.elim [] hyphened ++ t.ending.toList))

/-- The codes behind the markers. -/
def pieces (t : KeptTemplate) (op1 op2 : Operation) : List Text := t.marked.map (Marked.render op1 op2)

/-- `template.render`, for a racy case. -/
def render (t : KeptTemplate) (s : Surroundings) (op1 op2 : Operation) (a : RenderArgs) : Text :=
  s.header ++ (a.labelComment placeholder1 placeholder2 ++ s.body a 0 (t.pieces op1 op2))

end KeptTemplate

end Generator
