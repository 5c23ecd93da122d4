import RMARaceBench.Generator.Text

/-!
# The name of a generated file

`out_file` and `access_kind` of `render_template`.
-/

set_option autoImplicit false

namespace Generator

/-- `f"{number:03d}"`. -/
def zeroPad3 (number : Nat) : Text :=
  let ds := Nat.toDigits 10 number
  List.replicate (3 - ds.length) '0' ++ ds

/-- `out_file`: the basename of the template with the words `race`, `op1`, `op2` replaced. -/
def outFile (basename : Text) (number : Nat) (name1 name2 : Text) (hasRace : Bool) : Text :=
  zeroPad3 number ++ '-' ::
    ((((basename.replace "race".toList (if hasRace then "yes".toList else "no".toList)).replace
      "op1".toList name1).replace "op2".toList name2).replace ".j2".toList [])

inductive AccessKind
  | local | remote
  deriving DecidableEq, Repr

/-- `access_kind`. A name with neither word leaves the variable unbound, and rendering fails. -/
def accessKind (outFile : Text) : Option AccessKind :=
  if Text.isIn "local".toList outFile then some .local
  else if Text.isIn "remote".toList outFile then some .remote
  else none

end Generator
