/-!
# JSON values

Values as a reader of JSON sees them, and how records, lists and values that may be missing are
written. A record is an object with all its fields. A variant is its name, or an object with its
name as the only key.
-/

namespace WarGame

/-- A JSON value. -/
inductive Json where
  | null
  | bool (value : Bool)
  | int (value : Int)
  /-- A number that is not written as an integer, as digits and the places after the point. -/
  | decimal (digits : Int) (places : Nat)
  | str (text : String)
  | arr (items : List Json)
  | obj (entries : List (String × Json))
  deriving Repr, Inhabited

namespace Json

/-- A field of a record. -/
structure Field where
  name : String
  nullable : Bool := false
  deriving DecidableEq, Repr

def ofFields (fields : List Field) (values : List Json) : Json :=
  obj ((fields.map Field.name).zip values)

def ofList {α : Type} (write : α → Json) (values : List α) : Json := arr (values.map write)

def ofOption {α : Type} (write : α → Json) : Option α → Json
  | none => null
  | some value => write value

end Json

end WarGame
