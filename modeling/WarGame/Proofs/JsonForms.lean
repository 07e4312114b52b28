import WarGame.Proofs.Decoding

/-!
# Forms of JSON values

A form says what the values of a type look like in JSON. From it come the other ways to spell a
value, and the faults for which a value is refused. For each shape of the forms, reading goes on
to give the same value when the spelling varies, and gives nothing when there is a fault.
-/

namespace WarGame

namespace Json

/-- A form of JSON values. -/
inductive Form where
  /-- An integer from the lower bound to the upper one. -/
  | int (low high : Int)
  | bool
  | text
  | nullable (form : Form)
  | list (form : Form)
  /-- Fields, in an object and, where they may be listed, in an array. -/
  | record (listed : Bool) (fields : List (String × Form))
  /-- One of some variants. Those without content are just names. -/
  | choice (variants : List (String × Option Form))

namespace Form

def isNullable : Form → Bool
  | nullable _ => true
  | _ => false

/-- A field of a form, as it is read. -/
def field (part : String × Form) : Field := { name := part.1, nullable := part.2.isNullable }

/-- Names of variants without content. -/
def names (names : List String) : Form := choice (names.map fun name => (name, none))

end Form

/-- One change of the spelling, at any depth. -/
inductive Varies : Form → Json → Json → Prop where
  /-- Keys come in another order. -/
  | reordered {listed : Bool} {fields : List (String × Form)} {entries others : List (String × Json)}
      (order : entries.Perm others) : Varies (.record listed fields) (obj entries) (obj others)
  /-- A key that is no field is added. -/
  | unknown {listed : Bool} {fields : List (String × Form)} {entries : List (String × Json)}
      {key : String} (noField : key ∉ fields.map Prod.fst) (value : Json) :
      Varies (.record listed fields) (obj entries) (obj ((key, value) :: entries))
  /-- A nullable field that is null is left out. -/
  | leftOut {listed : Bool} {fields : List (String × Form)} {entries : List (String × Json)}
      {name : String} {form : Form} (field : (name, .nullable form) ∈ fields) :
      Varies (.record listed fields) (obj ((name, null) :: entries)) (obj entries)
  | inField {listed : Bool} {fields : List (String × Form)} {entries : List (String × Json)}
      {name : String} {form : Form} {item other : Json} (field : (name, form) ∈ fields)
      (varied : Varies form item other) :
      Varies (.record listed fields) (obj ((name, item) :: entries)) (obj ((name, other) :: entries))
  /-- An object is written as the array of its fields in their order. -/
  | asArray {fields : List (String × Form)} {entries : List (String × Json)} {items : List Json}
      (held : List.Forall₂ (Holds entries) (fields.map Form.field) items) :
      Varies (.record true fields) (obj entries) (arr items)
  | inArray {fields : List (String × Form)} {items : List Json} {index : Nat} {name : String}
      {form : Form} {item other : Json} (field : fields[index]? = some (name, form))
      (place : items[index]? = some item) (varied : Varies form item other) :
      Varies (.record true fields) (arr items) (arr (items.set index other))
  | inList {form : Form} {items : List Json} {index : Nat} {item other : Json}
      (place : items[index]? = some item) (varied : Varies form item other) :
      Varies (.list form) (arr items) (arr (items.set index other))
  | inNullable {form : Form} {j k : Json} (varied : Varies form j k) : Varies (.nullable form) j k
  /-- The name of a variant without content becomes a key that holds null. -/
  | keyed {variants : List (String × Option Form)} {name : String}
      (variant : variants.lookup name = some none) :
      Varies (.choice variants) (str name) (obj [(name, null)])
  | inContent {variants : List (String × Option Form)} {name : String} {form : Form}
      {content other : Json} (variant : variants.lookup name = some (some form))
      (varied : Varies form content other) :
      Varies (.choice variants) (obj [(name, content)]) (obj [(name, other)])

/-- What is wrong with a value, at any depth. -/
inductive Faulty : Form → Json → Prop where
  | outOfRange {low high value : Int} (outside : value < low ∨ high < value) :
      Faulty (.int low high) (int value)
  /-- A field that is not nullable is missing. -/
  | missing {listed : Bool} {fields : List (String × Form)} {entries : List (String × Json)}
      {name : String} {form : Form} (field : (name, form) ∈ fields)
      (needed : form.isNullable = false) (absent : name ∉ entries.map Prod.fst) :
      Faulty (.record listed fields) (obj entries)
  | inField {listed : Bool} {fields : List (String × Form)} {entries : List (String × Json)}
      {name : String} {form : Form} {item : Json} (field : (name, form) ∈ fields)
      (given : (name, item) ∈ entries) (faulty : Faulty form item) :
      Faulty (.record listed fields) (obj entries)
  /-- The fields may not be listed. -/
  | unlisted {fields : List (String × Form)} (items : List Json) :
      Faulty (.record false fields) (arr items)
  | wrongLength {listed : Bool} {fields : List (String × Form)} {items : List Json}
      (length : items.length ≠ fields.length) : Faulty (.record listed fields) (arr items)
  | inArray {listed : Bool} {fields : List (String × Form)} {items : List Json} {index : Nat}
      {name : String} {form : Form} {item : Json} (field : fields[index]? = some (name, form))
      (place : items[index]? = some item) (faulty : Faulty form item) :
      Faulty (.record listed fields) (arr items)
  | inList {form : Form} {items : List Json} {item : Json} (member : item ∈ items)
      (faulty : Faulty form item) : Faulty (.list form) (arr items)
  | inNullable {form : Form} {j : Json} (faulty : Faulty form j) : Faulty (.nullable form) j
  | unknownName {variants : List (String × Option Form)} {name : String}
      (unknown : name ∉ variants.map Prod.fst) : Faulty (.choice variants) (str name)
  | unknownKey {variants : List (String × Option Form)} {name : String}
      (unknown : name ∉ variants.map Prod.fst) (content : Json) :
      Faulty (.choice variants) (obj [(name, content)])
  | inContent {variants : List (String × Option Form)} {name : String} {form : Form}
      {content : Json} (variant : variants.lookup name = some (some form))
      (faulty : Faulty form content) : Faulty (.choice variants) (obj [(name, content)])

variable {form : Form} {j k : Json}

theorem Varies.ne_null (varied : Varies form j k) : j ≠ null ∧ k ≠ null := by
  induction varied with
  | inNullable _ ih => exact ih
  | _ => exact ⟨nofun, nofun⟩

theorem Faulty.ne_null (faulty : Faulty form j) : j ≠ null := by
  induction faulty with
  | inNullable _ ih => exact ih
  | _ => nofun

variable {α : Type} {read : Json → Option α}

/-- What is read does not depend on the spelling, and from anything faulty nothing is read. -/
structure Reads (form : Form) (read : Json → Option α) : Prop where
  keeps : ∀ {j k value}, Varies form j k → read j = some value → read k = some value
  refuses : ∀ {j value}, Faulty form j → read j ≠ some value

theorem Reads.map {β : Type} (reads : Reads form read) (f : α → β) :
    Reads form fun j => (read j).map f := by
  constructor
  case keeps =>
    intro j k value varied held
    obtain ⟨inner, found, rfl⟩ := Option.map_eq_some_iff.mp held
    exact Option.map_eq_some_iff.mpr ⟨inner, reads.keeps varied found, rfl⟩
  case refuses =>
    intro j value faulty held
    obtain ⟨inner, found, -⟩ := Option.map_eq_some_iff.mp held
    exact reads.refuses faulty found

/-! ### Items of related lists -/

section Partners

variable {β γ : Type} {old new related : β → γ → Prop} {xs : List β} {ys : List γ} {index : Nat}

theorem forall₂_of_mem (all : List.Forall₂ old xs ys) (keep : ∀ x ∈ xs, ∀ y, old x y → new x y) :
    List.Forall₂ new xs ys :=
  ((List.forall₂_and_left xs ys).mpr ⟨keep, all⟩).imp fun _ y ⟨keep, held⟩ => keep y held

theorem exists_partner (all : List.Forall₂ related xs ys) {x : β} (place : xs[index]? = some x) :
    ∃ y, ys[index]? = some y ∧ related x y := by
  induction all generalizing index with
  | nil => cases place
  | cons first _ ih =>
    cases index with
    | zero =>
      cases place
      exact ⟨_, rfl, first⟩
    | succ index => exact ih place

/-- One item is replaced, and what the others are asked may change as well. -/
theorem forall₂_set (all : List.Forall₂ old xs ys) {z : γ}
    (replaced : ∀ x, xs[index]? = some x → new x z)
    (keep : ∀ place x, place ≠ index → xs[place]? = some x → ∀ y, old x y → new x y) :
    List.Forall₂ new xs (ys.set index z) := by
  induction all generalizing index with
  | nil => exact .nil
  | @cons x y xs _ first rest ih =>
    cases index with
    | zero =>
      refine .cons (replaced x rfl) (forall₂_of_mem rest fun other member => ?_)
      obtain ⟨place, found⟩ := List.mem_iff_getElem?.mp member
      exact keep (place + 1) other (by omega) found
    | succ index =>
      refine .cons (keep 0 x (by omega) rfl y first) (ih replaced fun place other apart => ?_)
      exact keep (place + 1) other (by omega)

end Partners

variable {decoder : Decoder} {source : Source}

/-! ### Integers, truth values and texts -/

theorem reads_int {low high : Int} {number : α → Int}
    (law : ∀ {j value}, read j = some value ↔ j = .int (number value))
    (within : ∀ value, low ≤ number value ∧ number value ≤ high) : Reads (.int low high) read where
  keeps varied := by cases varied
  refuses {_ value} faulty held := by
    have inside := within value
    cases law.mp held
    obtain ⟨outside⟩ := faulty
    omega

theorem reads_bool (read : Json → Option α) : Reads .bool read where
  keeps varied := by cases varied
  refuses faulty := by cases faulty

theorem reads_text (read : Json → Option α) : Reads .text read where
  keeps varied := by cases varied
  refuses faulty := by cases faulty

section Documented

variable (documented : decoder.Documented source)

include documented

theorem reads_uint8 : Reads (.int 0 255) decoder.uint8 :=
  reads_int documented.uint8 fun number => by
    have small := number.toNat_lt
    omega

theorem reads_uint32 : Reads (.int 0 4294967295) decoder.uint32 :=
  reads_int documented.uint32 fun number => by
    have small := number.toNat_lt
    omega

theorem reads_uint64 : Reads (.int 0 18446744073709551615) decoder.uint64 :=
  reads_int documented.uint64 fun number => by
    have small := number.toNat_lt
    omega

theorem reads_int32 : Reads (.int (-2147483648) 2147483647) decoder.int32 :=
  reads_int documented.int32 fun number => ⟨number.minValue_le_toInt, number.toInt_le⟩

/-! ### Values that may be null -/

theorem nullable_eq_some_iff (present : j ≠ null) {value : Option α} :
    decoder.nullable read j = some value ↔ ∃ inner, read j = some inner ∧ some inner = value := by
  rw [documented.present present, Option.map_eq_some_iff]

theorem Reads.nullable (reads : Reads form read) :
    Reads (.nullable form) (decoder.nullable read) := by
  constructor
  case keeps =>
    intro j k value varied held
    cases varied with
    | inNullable varied =>
      have ⟨first, second⟩ := varied.ne_null
      obtain ⟨inner, found, rfl⟩ := (nullable_eq_some_iff documented first).mp held
      exact (nullable_eq_some_iff documented second).mpr ⟨inner, reads.keeps varied found, rfl⟩
  case refuses =>
    intro j value faulty held
    cases faulty with
    | inNullable faulty =>
      obtain ⟨inner, found, -⟩ := (nullable_eq_some_iff documented faulty.ne_null).mp held
      exact reads.refuses faulty found

theorem nullable_ofOption {write : α → Json} (again : ∀ value, read (write value) = some value)
    (present : ∀ value, write value ≠ null) (value : Option α) :
    decoder.nullable read (ofOption write value) = some value := by
  cases value with
  | none => exact documented.absent
  | some inner =>
    exact (nullable_eq_some_iff documented (present inner)).mpr ⟨inner, again inner, rfl⟩

/-! ### Lists -/

theorem Reads.list (reads : Reads form read) : Reads (.list form) (decoder.list read) := by
  constructor
  case keeps =>
    intro j k values varied held
    obtain ⟨items, rfl, all⟩ := documented.list.mp held
    cases varied with
    | inList place varied =>
      obtain ⟨value, found, held⟩ := exists_partner all place
      refine documented.list.mpr ⟨_, rfl, .flip (forall₂_set all.flip ?_ fun _ _ _ _ _ held => held)⟩
      intro other same
      cases found.symm.trans same
      exact reads.keeps varied held
  case refuses =>
    intro j values faulty held
    obtain ⟨items, rfl, all⟩ := documented.list.mp held
    cases faulty with
    | inList member faulty =>
      obtain ⟨index, place⟩ := List.mem_iff_getElem?.mp member
      obtain ⟨value, -, held⟩ := exists_partner all place
      exact reads.refuses faulty held

theorem list_ofList {write : α → Json} (again : ∀ value, read (write value) = some value)
    (values : List α) : decoder.list read (ofList write values) = some values := by
  refine documented.list.mpr ⟨_, rfl, ?_⟩
  rw [List.forall₂_map_left_iff, List.forall₂_same]
  exact fun value _ => again value

end Documented

end Json

end WarGame
