/-!
# JSON values

A value is one of the six kinds of the data format. A number is a decimal fraction, given
by its digits and by how many of them stand after the point. An object keeps its members
in the order in which they are written.
-/

namespace Excerpt

inductive Json where
  | null
  | bool (value : Bool)
  | number (digits : Int) (places : Nat)
  | string (text : String)
  | array (items : List Json)
  | object (members : List (String × Json))
deriving Inhabited

namespace Json

/-- The member with the given name, if the object has one. -/
def member? (name : String) (members : List (String × Json)) : Option Json :=
  members.lookup name

end Json

end Excerpt
