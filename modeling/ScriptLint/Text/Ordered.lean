/-!
# Sets of strings as ordered lists

Where a set of strings is shown, it is shown in increasing order, compared
character by character.
-/

namespace ScriptLint.Text

/-- The strings of a list in increasing order, each of them once. -/
def ordered (xs : List String) : List String :=
  xs.eraseDups.mergeSort fun a b => decide (a ≤ b)

end ScriptLint.Text
