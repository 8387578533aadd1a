/-!
# JSON values

Reports are written as JSON, and settings and snapshots come in as JSON.  The
fields of an object keep their order.  A number with a fraction or an exponent
is no integer, whatever its value, and is kept as it is spelled.
-/

namespace ScriptLint

/-- A JSON value. -/
inductive Json where
  /-- Nothing. -/
  | null
  /-- A truth value. -/
  | bool (value : Bool)
  /-- A number without fraction and exponent. -/
  | integer (value : Int)
  /-- Any other number, as it is spelled. -/
  | decimal (spelling : String)
  /-- A text. -/
  | string (value : String)
  /-- A list. -/
  | array (items : List Json)
  /-- Named values in order. -/
  | object (fields : List (String × Json))
deriving Inhabited

namespace Json

/-- The first field of an object with a name. -/
def field? (name : String) : Json → Option Json
  | .object fields => fields.lookup name
  | _ => none

/-- The items of a list. -/
def items? : Json → Option (List Json)
  | .array items => some items
  | _ => none

/-- The value of a text. -/
def string? : Json → Option String
  | .string value => some value
  | _ => none

/-- The value of an integer. -/
def integer? : Json → Option Int
  | .integer value => some value
  | _ => none

/-- The value of an integer from 0 on. -/
def natural? : Json → Option Nat
  | .integer value => if 0 ≤ value then some value.toNat else none
  | _ => none

/-- A truth value. -/
def bool? : Json → Option Bool
  | .bool value => some value
  | _ => none

/-- The values of a list of texts. -/
def strings? (j : Json) : Option (List String) := do
  (← j.items?).mapM string?

/-- A text or nothing. -/
def ofOption : Option String → Json
  | some value => .string value
  | none => .null

/-- A list of texts. -/
def ofStrings (values : List String) : Json :=
  .array (values.map .string)

end Json

end ScriptLint
