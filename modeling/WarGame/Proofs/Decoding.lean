import Mathlib
import WarGame.Json.Decoder

/-!
# What a decoder is documented to do

The laws under which the readers of the types of a game are looked at, one for every shape that a
decoder takes out of JSON. They leave open how it goes about it. A value that is read from a text
and one that is taken from a tree differ in one point, the content of a variant with fields.

The plain decoder keeps the laws.
-/

namespace WarGame

namespace Json

/-- An object holds an item for a field: once at its key, or null where a nullable field has no
key. -/
def Holds (entries : List (String × Json)) (field : Field) (item : Json) : Prop :=
  valuesAt entries field.name = [item] ∨
    valuesAt entries field.name = [] ∧ field.nullable = true ∧ item = null

/-- Some fields are read from the entries of an object, whose other keys do not count. Where they
may be listed, an array has a value for every field in the order of their declaration. -/
structure ReadsFields (listed : Bool) (read : List Field → Json → Option (List Json)) : Prop where
  object : ∀ {fields entries items}, read fields (obj entries) = some items ↔
    List.Forall₂ (Holds entries) fields items
  array : ∀ {fields found items}, read fields (arr found) = some items ↔
    listed = true ∧ found.length = fields.length ∧ items = found

/-- What is documented of a decoder that takes values from a source. -/
structure Decoder.Documented (decoder : Decoder) (source : Source) : Prop where
  bool : ∀ {value}, decoder.bool (.bool value) = some value
  text : ∀ {text}, decoder.text (.str text) = some text
  /-- A number is read where it is written as an integer and in the range of the type. -/
  uint8 : ∀ {j number}, decoder.uint8 j = some number ↔ j = .int number.toNat
  uint32 : ∀ {j number}, decoder.uint32 j = some number ↔ j = .int number.toNat
  uint64 : ∀ {j number}, decoder.uint64 j = some number ↔ j = .int number.toNat
  int32 : ∀ {j number}, decoder.int32 j = some number ↔ j = .int number.toInt
  /-- Null stands for no value, and anything else for a value. -/
  absent : ∀ {α : Type} {read : Json → Option α}, decoder.nullable read .null = some none
  present : ∀ {α : Type} {read : Json → Option α} {j}, j ≠ .null →
    decoder.nullable read j = (read j).map some
  /-- The items of an array, each of which stands for a value. -/
  list : ∀ {α : Type} {read : Json → Option α} {j values}, decoder.list read j = some values ↔
    ∃ items, j = .arr items ∧ List.Forall₂ (fun item value => read item = some value) items values
  record : ReadsFields true decoder.record
  /-- A variant is its name, or an object with its name as the only key. -/
  name : ∀ {name}, decoder.variant (.str name) = some (name, none)
  keyed : ∀ {name content}, decoder.variant (.obj [(name, content)]) = some (name, some content)
  /-- The content of a variant without fields may be null. -/
  unit : decoder.unit .null = some ()
  /-- In a tree of values the content of a variant with fields is an object. -/
  content : ReadsFields source.listsContent decoder.content

/-! ### Entries of an object -/

variable {entries others : List (String × Json)} {key : String} {item value : Json} {field : Field}

theorem mem_valuesAt : item ∈ valuesAt entries key ↔ (key, item) ∈ entries := by
  simp [valuesAt]

theorem valuesAt_cons_self : valuesAt ((key, value) :: entries) key = value :: valuesAt entries key :=
  List.filterMap_cons_some (if_pos rfl)

theorem valuesAt_cons_of_ne {other : String} (apart : other ≠ key) :
    valuesAt ((other, value) :: entries) key = valuesAt entries key :=
  List.filterMap_cons_none (if_neg apart)

theorem valuesAt_eq_nil : valuesAt entries key = [] ↔ key ∉ entries.map Prod.fst := by
  simp [List.eq_nil_iff_forall_not_mem, mem_valuesAt]

theorem holds_cons_of_ne (apart : key ≠ field.name) :
    Holds ((key, value) :: entries) field item ↔ Holds entries field item := by
  rw [Holds, Holds, valuesAt_cons_of_ne apart]

theorem holds_cons_self : Holds ((field.name, value) :: entries) field item ↔
    valuesAt entries field.name = [] ∧ item = value := by
  rw [Holds, valuesAt_cons_self]
  simp [and_comm, eq_comm (a := item)]

theorem Holds.perm (order : entries.Perm others) (holds : Holds entries field item) :
    Holds others field item := by
  have same : (valuesAt entries field.name).Perm (valuesAt others field.name) := order.filterMap _
  obtain once | ⟨missing, null⟩ := holds
  · rw [once] at same
    exact .inl (List.perm_singleton.mp same.symm)
  · rw [missing] at same
    exact .inr ⟨same.nil_eq.symm, null⟩

/-- What is given at the key of a field is what the object holds. -/
theorem Holds.eq_of_mem (holds : Holds entries field item) (given : (field.name, value) ∈ entries) :
    value = item := by
  have member := mem_valuesAt.mpr given
  obtain once | ⟨missing, -⟩ := holds
  · rw [once] at member
    exact List.mem_singleton.mp member
  · rw [missing] at member
    cases member

/-! ### The plain decoder -/

theorem below?_eq_some {bound : Nat} {index : Fin bound} {j : Json} :
    j.below? bound = some index ↔ j = .int index.val := by
  cases j with
  | int value =>
    simp only [below?, int.injEq]
    split
    · next fits =>
      rw [Option.some.injEq, Fin.ext_iff]
      change value.toNat = index.val ↔ value = index.val
      omega
    · next unfit =>
      refine iff_of_false nofun fun same => unfit ?_
      have small := index.isLt
      omega
  | _ => simp [below?]

/-- A word is read where the number below its bound is. -/
theorem map_below?_eq_some {α : Type} {bound : Nat} (word : Fin bound → α) (index : α → Fin bound)
    (inverse : ∀ number value, word number = value ↔ number = index value) {j : Json} {value : α} :
    (j.below? bound).map word = some value ↔ j = .int (index value).val := by
  simp only [Option.map_eq_some_iff, inverse, exists_eq_right, below?_eq_some]

theorem int32?_eq_some {number : Int32} {j : Json} :
    j.int32? = some number ↔ j = .int number.toInt := by
  cases j with
  | int value =>
    rw [int.injEq]
    constructor
    · intro read
      obtain ⟨⟨low, high⟩, same⟩ := Option.ite_none_right_eq_some.mp read
      rw [← Option.some.inj same]
      exact (Int32.toInt_ofInt_of_le low (high.trans_lt (by decide))).symm
    · rintro rfl
      refine Option.ite_none_right_eq_some.mpr ⟨⟨number.minValue_le_toInt, number.toInt_le⟩, ?_⟩
      rw [Int32.ofInt_toInt]
  | _ => simp [int32?]

theorem mapM_eq_some_iff {α β : Type} {f : α → Option β} {xs : List α} {ys : List β} :
    xs.mapM f = some ys ↔ List.Forall₂ (fun x y => f x = some y) xs ys := by
  induction xs generalizing ys with
  | nil => cases ys <;> simp
  | cons x xs ih =>
    rw [List.forall₂_cons_left_iff, List.mapM_cons]
    simp only [Option.bind_eq_bind, Option.pure_def, Option.bind_eq_some_iff, Option.some.injEq, ih,
      eq_comm (a := ys), exists_and_left]

theorem list?_eq_some_iff {α : Type} {read : Json → Option α} {j : Json} {values : List α} :
    j.list? read = some values ↔
      ∃ items, j = arr items ∧ List.Forall₂ (fun item value => read item = some value) items values := by
  cases j with
  | arr items => simp [list?, mapM_eq_some_iff]
  | _ => simp [list?]

theorem valueOf?_eq_some_iff : valueOf? entries field = some item ↔ Holds entries field item := by
  unfold valueOf? Holds
  split
  · next missing => simp [missing, eq_comm (a := item)]
  · next once => simp [once]
  · next unheld many => exact iff_of_false nofun (not_or.mpr ⟨many item, fun held => unheld held.1⟩)

theorem readsFields_values? (listed : Bool) : ReadsFields listed (values? listed) where
  object := by
    intro fields entries items
    simp only [values?, mapM_eq_some_iff, valueOf?_eq_some_iff]
  array := by
    intro fields found items
    rw [values?, Option.ite_none_right_eq_some, and_assoc, Option.some.injEq, eq_comm (a := items)]

theorem plain_documented (source : Source) : (Decoder.plain source).Documented source where
  bool := rfl
  text := rfl
  uint8 := map_below?_eq_some UInt8.ofFin UInt8.toFin fun _ _ =>
    ⟨by rintro rfl; rfl, by rintro rfl; rfl⟩
  uint32 := map_below?_eq_some UInt32.ofFin UInt32.toFin fun _ _ =>
    ⟨by rintro rfl; rfl, by rintro rfl; rfl⟩
  uint64 := map_below?_eq_some UInt64.ofFin UInt64.toFin fun _ _ =>
    ⟨by rintro rfl; rfl, by rintro rfl; rfl⟩
  int32 := int32?_eq_some
  absent := rfl
  present {_ _ j} present := by
    cases j with
    | null => exact absurd rfl present
    | _ => rfl
  list := list?_eq_some_iff
  record := readsFields_values? true
  name := rfl
  keyed := rfl
  unit := rfl
  content := readsFields_values? source.listsContent

end Json

end WarGame
