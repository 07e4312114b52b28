import WarGame.Proofs.JsonForms

/-!
# Records and variants in their forms

A record is as good as its fields, and a variant as good as its content: where the fields and the
content are read in every spelling and refused with any fault, so is the whole.
-/

namespace WarGame

namespace Json

variable {α β : Type} {form : Form} {parts : List (String × Form)}

/-! ### The values of fields -/

/-- The values of fields are read each in the form of its field. -/
structure ReadsRow (parts : List (String × Form)) (row : Row α) : Prop where
  keeps : ∀ {index : Nat} {name : String} {form : Form} {items : List Json} {item other : Json}
    {value : α}, parts[index]? = some (name, form) → items[index]? = some item →
      Varies form item other → row items = some value → row (items.set index other) = some value
  refuses : ∀ {index : Nat} {name : String} {form : Form} {items : List Json} {item : Json}
    {value : α}, parts[index]? = some (name, form) → items[index]? = some item →
      Faulty form item → row items ≠ some value

theorem ReadsRow.done (value : α) : ReadsRow [] (.done value) where
  keeps := nofun
  refuses := nofun

theorem ReadsRow.item {name : String} {read : Json → Option β} {rest : β → Row α}
    (first : Reads form read) (others : ∀ value, ReadsRow parts (rest value)) :
    ReadsRow ((name, form) :: parts) (.item read rest) := by
  constructor
  case keeps =>
    intro index _ _ items item other value field place varied held
    cases items with
    | nil => cases place
    | cons j items =>
      obtain ⟨inner, found, more⟩ := Option.bind_eq_some_iff.mp held
      cases index with
      | zero =>
        cases field
        cases place
        exact Option.bind_eq_some_iff.mpr ⟨inner, first.keeps varied found, more⟩
      | succ index =>
        have still := (others inner).keeps field place varied more
        exact Option.bind_eq_some_iff.mpr ⟨inner, found, still⟩
  case refuses =>
    intro index _ _ items item value field place faulty held
    cases items with
    | nil => cases place
    | cons j items =>
      obtain ⟨inner, found, more⟩ := Option.bind_eq_some_iff.mp held
      cases index with
      | zero =>
        cases field
        cases place
        exact first.refuses faulty found
      | succ index => exact (others inner).refuses field place faulty more

/-! ### Records -/

section Records

variable {listed : Bool} {read : List Field → Json → Option (List Json)}
  {entries : List (String × Json)} {items : List Json} {row : Row α}

theorem field_name_ne (distinct : (parts.map Prod.fst).Nodup) {index place : Nat} {name : String}
    (found : parts[index]? = some (name, form)) (apart : place ≠ index) {field : Field}
    (other : (parts.map Form.field)[place]? = some field) : name ≠ field.name := by
  rintro rfl
  rw [List.getElem?_map, Option.map_eq_some_iff] at other
  obtain ⟨part, known, rfl⟩ := other
  have first : (parts.map Prod.fst)[index]? = some part.1 := by
    rw [List.getElem?_map, found]
    rfl
  have second : (parts.map Prod.fst)[place]? = some part.1 := by
    rw [List.getElem?_map, known]
    rfl
  obtain ⟨bound, -⟩ := List.getElem?_eq_some_iff.mp second
  exact apart ((List.getElem?_inj bound distinct).mp (second.trans first.symm))

theorem exists_place {name : String} (field : (name, form) ∈ parts) :
    ∃ index : Nat, parts[index]? = some (name, form) ∧
      (parts.map Form.field)[index]? = some (Form.field (name, form)) := by
  obtain ⟨index, found⟩ := List.mem_iff_getElem?.mp field
  exact ⟨index, found, by rw [List.getElem?_map, found, Option.map_some]⟩

/-! ### What an object holds, as its spelling varies -/

theorem held_with {key : String} (noField : key ∉ parts.map Prod.fst) (value : Json)
    (held : List.Forall₂ (Holds entries) (parts.map Form.field) items) :
    List.Forall₂ (Holds ((key, value) :: entries)) (parts.map Form.field) items := by
  refine forall₂_of_mem held fun field member item holds => (holds_cons_of_ne ?_).mpr holds
  obtain ⟨part, known, rfl⟩ := List.mem_map.mp member
  exact (ne_of_mem_of_not_mem (List.mem_map_of_mem known) noField).symm

/-- Without its key, a field that is null holds null all the same. -/
theorem held_without {name : String} (nullable : (name, .nullable form) ∈ parts)
    (distinct : (parts.map Prod.fst).Nodup)
    (held : List.Forall₂ (Holds ((name, null) :: entries)) (parts.map Form.field) items) :
    List.Forall₂ (Holds entries) (parts.map Form.field) items := by
  refine forall₂_of_mem held fun field member item holds => ?_
  by_cases same : name = field.name
  · obtain ⟨part, known, rfl⟩ := List.mem_map.mp member
    cases List.inj_on_of_nodup_map distinct nullable known same
    obtain ⟨missing, rfl⟩ := holds_cons_self.mp holds
    exact .inr ⟨missing, rfl, rfl⟩
  · exact (holds_cons_of_ne same).mp holds

theorem held_replaced {name : String} {item : Json} (distinct : (parts.map Prod.fst).Nodup)
    (held : List.Forall₂ (Holds ((name, item) :: entries)) (parts.map Form.field) items)
    (field : (name, form) ∈ parts) (other : Json) :
    ∃ index : Nat, parts[index]? = some (name, form) ∧ items[index]? = some item ∧
      List.Forall₂ (Holds ((name, other) :: entries)) (parts.map Form.field)
        (items.set index other) := by
  obtain ⟨index, found, place⟩ := exists_place field
  obtain ⟨value, known, holds⟩ := exists_partner held place
  obtain ⟨missing, rfl⟩ := holds_cons_self.mp holds
  refine ⟨index, found, known, forall₂_set held (fun field same => ?_) ?_⟩
  · cases place.symm.trans same
    exact holds_cons_self.mpr ⟨missing, rfl⟩
  · intro place field apart same item holds
    have differs := field_name_ne distinct found apart same
    rw [holds_cons_of_ne differs] at holds ⊢
    exact holds

theorem Reads.record (reading : ReadsFields listed read) (distinct : (parts.map Prod.fst).Nodup)
    (each : ReadsRow parts row) :
    Reads (.record listed parts) fun j => (read (parts.map Form.field) j).bind row := by
  constructor
  case keeps =>
    intro j k value varied held
    obtain ⟨items, taken, meant⟩ := Option.bind_eq_some_iff.mp held
    rw [Option.bind_eq_some_iff]
    cases varied with
    | reordered order =>
      have held := (reading.object.mp taken).imp fun _ _ holds => holds.perm order
      exact ⟨items, reading.object.mpr held, meant⟩
    | unknown noField value =>
      have held := held_with noField value (reading.object.mp taken)
      exact ⟨items, reading.object.mpr held, meant⟩
    | leftOut field =>
      have held := held_without field distinct (reading.object.mp taken)
      exact ⟨items, reading.object.mpr held, meant⟩
    | inField field varied =>
      obtain ⟨index, found, place, held⟩ := held_replaced distinct (reading.object.mp taken) field _
      exact ⟨_, reading.object.mpr held, each.keeps found place varied meant⟩
    | asArray listed =>
      cases (reading.object.mpr listed).symm.trans taken
      exact ⟨_, reading.array.mpr ⟨rfl, listed.length_eq.symm, rfl⟩, meant⟩
    | inArray field place varied =>
      obtain ⟨allowed, length, rfl⟩ := reading.array.mp taken
      refine ⟨_, reading.array.mpr ⟨allowed, ?_, rfl⟩, each.keeps field place varied meant⟩
      rw [List.length_set, length]
  case refuses =>
    intro j value faulty held
    obtain ⟨items, taken, meant⟩ := Option.bind_eq_some_iff.mp held
    cases faulty with
    | missing field needed absent =>
      obtain ⟨index, -, place⟩ := exists_place field
      obtain ⟨item, -, once | ⟨-, nullable, -⟩⟩ := exists_partner (reading.object.mp taken) place
      · cases (valuesAt_eq_nil.mpr absent).symm.trans once
      · cases needed.symm.trans nullable
    | inField field given faulty =>
      obtain ⟨index, found, place⟩ := exists_place field
      obtain ⟨item, known, holds⟩ := exists_partner (reading.object.mp taken) place
      cases holds.eq_of_mem given
      exact each.refuses found known faulty meant
    | unlisted => cases (reading.array.mp taken).1
    | wrongLength length =>
      obtain ⟨-, same, -⟩ := reading.array.mp taken
      rw [List.length_map] at same
      exact length same
    | inArray field place faulty =>
      obtain ⟨-, -, rfl⟩ := reading.array.mp taken
      exact each.refuses field place faulty meant

/-- An object that gives every field its value once holds the values. -/
theorem forall₂_holds {fields : List Field} {values : List Json}
    (distinct : (fields.map Field.name).Nodup) (length : fields.length = values.length) :
    List.Forall₂ (Holds ((fields.map Field.name).zip values)) fields values := by
  induction fields generalizing values with
  | nil =>
    cases List.length_eq_zero_iff.mp length.symm
    exact .nil
  | cons field fields ih =>
    obtain ⟨value, values, rfl⟩ := List.exists_cons_of_length_eq_add_one length.symm
    obtain ⟨fresh, distinct⟩ := List.nodup_cons.mp distinct
    have length := Nat.succ.inj length
    have absent : field.name ∉ ((fields.map Field.name).zip values).map Prod.fst := by
      rwa [List.map_fst_zip (by rw [List.length_map, length])]
    rw [List.map_cons, List.zip_cons_cons]
    refine .cons (holds_cons_self.mpr ⟨valuesAt_eq_nil.mpr absent, rfl⟩)
      (forall₂_of_mem (ih distinct length) fun other member item holds => ?_)
    have apart := ne_of_mem_of_not_mem (List.mem_map_of_mem member) fresh
    exact (holds_cons_of_ne apart.symm).mpr holds

theorem ReadsFields.bind_ofFields (reading : ReadsFields listed read) {fields : List Field}
    {values : List Json} (distinct : (fields.map Field.name).Nodup)
    (length : fields.length = values.length) :
    (read fields (ofFields fields values)).bind row = row values := by
  rw [ofFields, reading.object.mpr (forall₂_holds distinct length), Option.bind_some]

end Records

/-! ### Variants -/

section Variants

variable {decoder : Decoder} {source : Source} {variants : List (String × Option Form)}
  {contents : List (String × Content α)} {name : String}

/-- What stands beside a name is read in its form. -/
inductive ReadsContent (decoder : Decoder) : String × Option Form → String × Content α → Prop where
  | bare (name : String) (value : α) : ReadsContent decoder (name, none) (name, decoder.bare value)
  | filled {form : Form} {read : Json → Option α} (name : String) (reads : Reads form read) :
      ReadsContent decoder (name, some form) (name, .filled read)

theorem ReadsContent.name_eq {variant : String × Option Form} {content : String × Content α}
    (reading : ReadsContent decoder variant content) : variant.1 = content.1 := by
  cases reading <;> rfl

theorem exists_content (all : List.Forall₂ (ReadsContent decoder) variants contents)
    {shape : Option Form} (known : variants.lookup name = some shape) :
    ∃ content, contents.lookup name = some content ∧
      ReadsContent decoder (name, shape) (name, content) := by
  induction all with
  | nil => cases known
  | @cons variant content _ _ first _ ih =>
    obtain ⟨other, _⟩ := variant
    obtain ⟨_, read⟩ := content
    cases first.name_eq
    by_cases same : name = other
    · subst same
      rw [List.lookup_cons_self] at known
      cases known
      exact ⟨read, List.lookup_cons_self, first⟩
    · rw [List.lookup_cons, beq_false_of_ne same] at known ⊢
      exact ih known

theorem lookup_unknown (all : List.Forall₂ (ReadsContent decoder) variants contents)
    (unknown : name ∉ variants.map Prod.fst) : contents.lookup name = none := by
  have names : variants.map Prod.fst = contents.map Prod.fst := by
    rw [← List.forall₂_eq_eq_eq, List.forall₂_map_left_iff, List.forall₂_map_right_iff]
    exact all.imp fun _ _ reading => reading.name_eq
  rw [names] at unknown
  refine List.lookup_eq_none_iff.mpr fun content member => bne_iff_ne.mpr ?_
  exact (ne_of_mem_of_not_mem (List.mem_map_of_mem member) unknown).symm

variable (documented : decoder.Documented source)

include documented

theorem choose_str : decoder.choose contents (str name) =
    (contents.lookup name).bind fun read => read none := by
  rw [Decoder.choose, documented.name, Option.bind_some]

theorem choose_keyed {content : Json} : decoder.choose contents (obj [(name, content)]) =
    (contents.lookup name).bind fun read => read (some content) := by
  rw [Decoder.choose, documented.keyed, Option.bind_some]

theorem Reads.choose (each : List.Forall₂ (ReadsContent decoder) variants contents) :
    Reads (.choice variants) (decoder.choose contents) := by
  constructor
  case keeps =>
    intro j k value varied held
    cases varied with
    | keyed variant =>
      obtain ⟨content, found, reading⟩ := exists_content each variant
      rw [choose_str documented, found] at held
      rw [choose_keyed documented, found]
      cases reading with
      | bare _ value =>
        cases held
        exact Option.map_eq_some_iff.mpr ⟨(), documented.unit, rfl⟩
    | inContent variant varied =>
      obtain ⟨content, found, reading⟩ := exists_content each variant
      rw [choose_keyed documented, found] at held ⊢
      cases reading with
      | filled _ reads => exact reads.keeps varied held
  case refuses =>
    intro j value faulty held
    cases faulty with
    | unknownName unknown =>
      rw [choose_str documented, lookup_unknown each unknown] at held
      cases held
    | unknownKey unknown =>
      rw [choose_keyed documented, lookup_unknown each unknown] at held
      cases held
    | inContent variant faulty =>
      obtain ⟨content, found, reading⟩ := exists_content each variant
      rw [choose_keyed documented, found] at held
      cases reading with
      | filled _ reads => exact reads.refuses faulty held

theorem Reads.named (values : List α) (name : α → String) :
    Reads (.names (values.map name)) (decoder.named values name) := by
  refine .choose documented ?_
  rw [List.map_map, List.forall₂_map_left_iff, List.forall₂_map_right_iff, List.forall₂_same]
  exact fun value _ => .bare (name value) value

theorem named_str {values : List α} {name : α → String} (distinct : (values.map name).Nodup)
    {value : α} (member : value ∈ values) :
    decoder.named values name (str (name value)) = some value := by
  rw [Decoder.named, choose_str documented]
  induction values with
  | nil => cases member
  | cons other values ih =>
    rw [List.map_cons, List.lookup_cons]
    by_cases same : name value = name other
    · cases List.inj_on_of_nodup_map distinct member List.mem_cons_self same
      rw [beq_self_eq_true]
      rfl
    · have later := (List.mem_cons.mp member).resolve_left fun equal => same (congrArg name equal)
      rw [beq_false_of_ne same]
      exact ih (List.nodup_cons.mp distinct).2 later

end Variants

end Json

end WarGame
