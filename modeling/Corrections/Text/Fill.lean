/-
  Filling the holes of a template.

  * `fill hole value s` replaces every occurrence of `hole` in `s` by `value`. Occurrences are taken from
    left to right and do not overlap, and the text put in is not searched again.

  The replacement is textual: it sees the whole template, also what was put into it before.
-/
namespace Corrections.Text

/-- `fill` on characters: `skip` characters still belong to the occurrence found last. -/
def fillFrom (hole value : List Char) : (skip : Nat) → List Char → List Char
  | _, [] => []
  | skip + 1, _ :: rest => fillFrom hole value skip rest
  | 0, c :: rest =>
    if hole.isPrefixOf (c :: rest) then
      value ++ fillFrom hole value (hole.length - 1) rest
    else
      c :: fillFrom hole value 0 rest

/-- `s` with `value` in the place of every `hole`. The hole is not empty. -/
def fill (hole value s : String) : String :=
  String.ofList (fillFrom hole.toList value.toList 0 s.toList)

-- The second of two overlapping occurrences is not one.
example : fillFrom ['_', '_'] ['x'] 0 ['_', '_', '_'] = ['x', '_'] := by decide

end Corrections.Text
