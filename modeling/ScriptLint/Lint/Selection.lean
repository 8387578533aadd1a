import ScriptLint.Lint.WindowAccess
import ScriptLint.Log
import ScriptLint.Text.Ordered

/-!
# The choice of rules

Which rules run is said by tags and codes.  A rule runs if it carries a wanted
tag or its code is included, unless its code is excluded.  A code that no rule
has is reported, and changes nothing.
-/

namespace ScriptLint

/-- All rules, in increasing order of their codes. -/
def Rule.all : List Rule :=
  [WindowAccess.rule]

/-- Which rules are wanted. -/
structure Selection where
  /-- The wanted tags. -/
  tags : List String := []
  /-- The codes of rules that run whatever their tags. -/
  included : List String := []
  /-- The codes of rules that do not run. -/
  excluded : List String := []
deriving DecidableEq, Repr, Inhabited

namespace Selection

/-- The rules that are recommended. -/
def recommended : Selection where
  tags := ["recommended"]

/-- Whether a rule is selected. -/
def selects (s : Selection) (r : Rule) : Bool :=
  !s.excluded.contains r.code && (r.tags.any s.tags.contains || s.included.contains r.code)

/-- The selected rules. -/
def rules (s : Selection) : List Rule :=
  Rule.all.filter s.selects

/-- The codes that no rule has, in increasing order. -/
def unknownCodes (s : Selection) : List String :=
  Text.ordered ((s.included ++ s.excluded).filter fun code =>
    !(Rule.all.map Rule.code).contains code)

/-- Choose the rules. -/
def choose (s : Selection) : Activity (List Rule) := do
  Activity.records (s.unknownCodes.map fun code =>
    ⟨.warning, .rules, s!"Unknown rule code in configuration: {code}"⟩)
  let codes := s.rules.map Rule.code
  let shown := if codes.isEmpty then "(none)" else ", ".intercalate codes
  Activity.debug .rules s!"selected rules: {shown}"
  return s.rules

end Selection

end ScriptLint
