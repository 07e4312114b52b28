import WarGame.Json

/-!
# Decoding JSON values

How texts, numbers, lists, records and variants are taken out of JSON is not settled here: it is a
decoder's part, and the readers of the types of a game take the decoder as a parameter. They say
what the values of the fields of a record come to in their order, and what each name of a variant
stands for.

The plain decoder serves to run the readers.
-/

namespace WarGame

namespace Json

/-- What takes values out of JSON. -/
structure Decoder where
  bool : Json → Option Bool
  text : Json → Option String
  uint8 : Json → Option UInt8
  uint32 : Json → Option UInt32
  uint64 : Json → Option UInt64
  int32 : Json → Option Int32
  /-- A value that may be null. -/
  nullable {α : Type} (read : Json → Option α) : Json → Option (Option α)
  /-- A list, with what each item stands for. -/
  list {α : Type} (read : Json → Option α) : Json → Option (List α)
  /-- The values of the fields of a record, in the order of the fields. -/
  record (fields : List Field) : Json → Option (List Json)
  /-- A variant's name and its content. A name that stands alone has none. -/
  variant : Json → Option (String × Option Json)
  /-- The content of a variant that has no fields. -/
  unit : Json → Option Unit
  /-- The values of the fields of a variant, out of its content. -/
  content (fields : List Field) : Json → Option (List Json)

/-! ### Values of fields -/

/-- Reads the values of some fields, all of them in their order. -/
abbrev Row (α : Type) := List Json → Option α

namespace Row

variable {α β : Type}

/-- No field is left. -/
def done (value : α) : Row α
  | [] => some value
  | _ :: _ => none

/-- The next field, and the others with what it stands for. -/
def item (read : Json → Option β) (rest : β → Row α) : Row α
  | [] => none
  | j :: items => (read j).bind fun value => rest value items

@[simp] theorem done_nil (value : α) : done value [] = some value := rfl

@[simp] theorem item_cons (read : Json → Option β) (rest : β → Row α) (j : Json)
    (items : List Json) : item read rest (j :: items) = (read j).bind fun value => rest value items :=
  rfl

end Row

/-! ### Variants -/

/-- Reads what stands beside the name of a variant. -/
abbrev Content (α : Type) := Option Json → Option α

def Content.filled {α : Type} (read : Json → Option α) : Content α := fun content => content.bind read

namespace Decoder

variable {α : Type} (decoder : Decoder)

/-- A name may stand alone, or with nothing as its content. -/
def bare (value : α) : Content α
  | none => some value
  | some content => (decoder.unit content).map fun _ => value

/-- A variant is read by what its name stands for. -/
def choose (variants : List (String × Content α)) (j : Json) : Option α :=
  (decoder.variant j).bind fun (name, content) =>
    (variants.lookup name).bind fun read => read content

/-- Values that are written as their names. -/
def named (values : List α) (name : α → String) : Json → Option α :=
  decoder.choose (values.map fun value => (name value, decoder.bare value))

end Decoder

/-! ### The plain decoder -/

def bool? : Json → Option Bool
  | bool value => some value
  | _ => none

def str? : Json → Option String
  | str text => some text
  | _ => none

/-- An integer from zero on and below a bound. -/
def below? (bound : Nat) : Json → Option (Fin bound)
  | int value => if fits : 0 ≤ value ∧ value.toNat < bound then some ⟨value.toNat, fits.2⟩ else none
  | _ => none

def int32? : Json → Option Int32
  | int value =>
    if Int32.minValue.toInt ≤ value ∧ value ≤ Int32.maxValue.toInt then some (Int32.ofInt value)
    else none
  | _ => none

def nullable? {α : Type} (read : Json → Option α) : Json → Option (Option α)
  | null => some none
  | j => (read j).map some

def list? {α : Type} (read : Json → Option α) : Json → Option (List α)
  | arr items => items.mapM read
  | _ => none

/-- The values that the entries of an object have at a key. -/
def valuesAt (entries : List (String × Json)) (key : String) : List Json :=
  entries.filterMap fun entry => if entry.1 = key then some entry.2 else none

/-- What an object holds for a field. A nullable field may be left out, and none be given twice. -/
def valueOf? (entries : List (String × Json)) (field : Field) : Option Json :=
  match valuesAt entries field.name with
  | [] => if field.nullable then some null else none
  | [item] => some item
  | _ => none

/-- The values of fields in an object or, where they may be listed, in an array. -/
def values? (listed : Bool) (fields : List Field) : Json → Option (List Json)
  | obj entries => fields.mapM (valueOf? entries)
  | arr items => if listed ∧ items.length = fields.length then some items else none
  | _ => none

def variant? : Json → Option (String × Option Json)
  | str name => some (name, none)
  | obj [(name, content)] => some (name, some content)
  | _ => none

def null? : Json → Option Unit
  | null => some ()
  | _ => none

/-- Where a value comes from: from a text, or from a tree of values that stands in memory. -/
inductive Source where
  | text
  | tree
  deriving DecidableEq, Repr

/-- From a text, the fields of a variant are read like those of a record. In a tree they are an
object. -/
def Source.listsContent : Source → Bool
  | text => true
  | tree => false

def Decoder.plain (source : Source) : Decoder where
  bool := bool?
  text := str?
  uint8 j := (j.below? UInt8.size).map UInt8.ofFin
  uint32 j := (j.below? UInt32.size).map UInt32.ofFin
  uint64 j := (j.below? UInt64.size).map UInt64.ofFin
  int32 := int32?
  nullable := nullable?
  list := list?
  record := values? true
  variant := variant?
  unit := null?
  content := values? source.listsContent

end Json

end WarGame
