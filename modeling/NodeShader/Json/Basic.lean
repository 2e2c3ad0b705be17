import NodeShader.Number.Literal

/-!
# JSON values

A number is kept as its numeral, so that the reader of a document decides how wide it is and whether
a fraction is allowed. An object keeps its members as they stand, repeated names included.
-/

namespace NodeShader

inductive Json where
  | null
  | bool (b : Bool)
  | number (numeral : String)
  | text (s : String)
  | array (items : List Json)
  | object (members : List (String × Json))
  deriving Repr, Inhabited

namespace Json

/-- The last member with a name. -/
def member? (j : Json) (name : String) : Option Json :=
  match j with
  | .object members => members.reverse.lookup name
  | _ => none

end Json

end NodeShader
