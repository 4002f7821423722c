/-
Replacing every occurrence of a pattern, from the left and without
overlaps.
-/
namespace Datapack.Text

/-- `text` with each occurrence of `pattern` replaced, after `skip`
characters that belong to an occurrence already replaced. The count
replaces a jump, so the recursion is on the text itself. -/
def replaceFrom (pattern replacement : List Char) : Nat → List Char → List Char
  | _, [] => []
  | skip + 1, _ :: rest => replaceFrom pattern replacement skip rest
  | 0, c :: rest =>
    if pattern.isPrefixOf (c :: rest) then
      replacement ++ replaceFrom pattern replacement (pattern.length - 1) rest
    else
      c :: replaceFrom pattern replacement 0 rest

/-- `text` with each occurrence of the non-empty `pattern` replaced. -/
def replaceAll (pattern replacement text : List Char) : List Char :=
  replaceFrom pattern replacement 0 text

end Datapack.Text
