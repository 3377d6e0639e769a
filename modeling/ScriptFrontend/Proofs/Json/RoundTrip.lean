import ScriptFrontend.Json.Codec
import ScriptFrontend.Proofs.Line.Dotted

/-!
# What is stored can be read back

Trees and their parts are stored as JSON in one form and read from several, which differ in how the
fields of a record are given and in what may be left out. Whatever is stored is read back as it was.
So a value that was read from another form, with fields in an array, fields left out or lines with
leading zeros, is settled after it has been stored once.
-/

namespace ScriptFrontend

open Json

/-! ## Lines -/

namespace Line

/-- A line has numbers, and each of them is a positive number of 32 bits. -/
structure Valid (l : Line) : Prop where
  ne_nil : l.numbers ≠ []
  one_le : ∀ n ∈ l.numbers, 1 ≤ n
  le_max : ∀ n ∈ l.numbers, n ≤ 4294967295

theorem valid (l : Line) : l.Valid where
  ne_nil := by simp [numbers]
  one_le := by simpa [numbers] using fun c _ => c.one_le
  le_max := by simpa [numbers] using fun c _ => c.le_max

theorem ofJson?_toJson (l : Line) : ofJson? l.toJson = some l := by
  rw [toJson, ofJson?, ofDotted_dotted]
  rfl

theorem ofJson?_eq_some_iff {j : Json} {l : Line} :
    ofJson? j = some l ↔ ∃ text, j = .str text ∧ ofDotted text = .ok l := by
  cases j with
  | str text =>
    cases read : ofDotted text <;> simp [ofJson?, Except.toOption, read]
  | _ => simp [ofJson?]

end Line

namespace Child

mutual

/-- The lines of the tokens of a child, from left to right. -/
def lines : Child → List Line
  | .token t => [t.line]
  | .tree _ cs => linesIn cs

def linesIn : List Child → List Line
  | [] => []
  | c :: cs => c.lines ++ linesIn cs

end

end Child

def Tree.lines (t : Tree) : List Line := Child.linesIn t.children

/-! ## Values read back -/

theorem optional?_columnToJson (column : Option UInt32) :
    optional? word? (some (columnToJson column)) = some column := by
  cases column with
  | none => rfl
  | some n =>
    show (ofNat n.toNat).word?.map some = some (some n)
    rw [Json.word?_ofNat, Option.map_some]

theorem Token.ofJson?_toJson (t : Token) : ofJson? t.toJson = some t := by
  rw [toJson, ofJson?, if_pos]
  · simp only [field?_cons_self, field?_cons_of_ne, ne_eq, String.reduceEq, not_false_eq_true]
    simp [ofFields?, text?, Line.ofJson?_toJson, optional?_columnToJson]
  · rfl

theorem Position.ofJson?_toJson (p : Position) : ofJson? p.toJson = some p := by
  rw [toJson, ofJson?, if_pos]
  · simp only [field?_cons_self, field?_cons_of_ne, ne_eq, String.reduceEq, not_false_eq_true]
    rw [ofFields?, Option.bind_some, Option.bind_some, Line.ofJson?_toJson, word?_ofNat,
      optional?_columnToJson]
    rfl
  · rfl

theorem Child.allOfFields?_children (items : List Json) (fields : List (String × Json)) :
    allOfFields? (("children", .arr items) :: fields) = allOfJson? items := by
  rw [allOfFields?, if_pos rfl]

theorem Child.allOfFields?_of_ne {key : String} (ne : key ≠ "children") (value : Json)
    (fields : List (String × Json)) :
    allOfFields? ((key, value) :: fields) = allOfFields? fields := by
  rw [allOfFields?.eq_def]
  exact if_neg ne

theorem Tree.ofJson?_obj (tag : String) (items : List Json) :
    ofJson? (.obj [("data", .str tag), ("children", .arr items)])
      = (Child.allOfJson? items).map (⟨tag, ·⟩) := by
  rw [ofJson?, if_pos, field?_cons_self, Child.allOfFields?_of_ne (by decide),
    Child.allOfFields?_children]
  · cases Child.allOfJson? items <;> rfl
  · rfl

theorem Child.ofJson?_token (j : Json) :
    ofJson? (.obj [("Token", j)]) = (Token.ofJson? j).map .token := by
  rw [ofJson?, if_pos rfl]

theorem Child.ofJson?_tree (j : Json) :
    ofJson? (.obj [("Tree", j)]) = (Tree.ofJson? j).map .ofTree := by
  rw [ofJson?, if_neg (by decide), if_pos rfl]

theorem Child.allOfJson?_cons (item : Json) (items : List Json) :
    allOfJson? (item :: items)
      = (Child.ofJson? item).bind fun child => (allOfJson? items).map (child :: ·) := by
  rw [allOfJson?]
  cases Child.ofJson? item <;> cases allOfJson? items <;> rfl

theorem Child.ofJson?_toJson_token (t : Token) : ofJson? (toJson (.token t)) = some (.token t) := by
  rw [toJson, ofJson?_token, Token.ofJson?_toJson, Option.map_some]

theorem Child.ofJson?_toJson_tree (tag : String) {cs : List Child}
    (read : allOfJson? (allToJson cs) = some cs) :
    ofJson? (toJson (.tree tag cs)) = some (.tree tag cs) := by
  rw [toJson, ofJson?_tree, Tree.ofJson?_obj, read]
  rfl

theorem Child.allOfJson?_allToJson (cs : List Child) : allOfJson? (allToJson cs) = some cs := by
  induction cs using forest_induction with
  | nil => rfl
  | token t rest ih =>
    rw [allToJson, allOfJson?_cons, ofJson?_toJson_token, ih]
    rfl
  | tree tag inner rest readInner ih =>
    rw [allToJson, allOfJson?_cons, ofJson?_toJson_tree tag readInner, ih]
    rfl

theorem Child.ofJson?_toJson (c : Child) : ofJson? c.toJson = some c := by
  cases c with
  | token t => exact ofJson?_toJson_token t
  | tree tag cs => exact ofJson?_toJson_tree tag (allOfJson?_allToJson cs)

theorem Tree.ofJson?_toJson (t : Tree) : ofJson? t.toJson = some t := by
  rw [toJson, ofJson?_obj, Child.allOfJson?_allToJson, Option.map_some]

/-! ## Forms that are read -/

/-- The values that a JSON value gives for the fields of a record. An object gives each field at most
once and in any order, leaves some out and has others besides. An array gives all of them in order. -/
def Json.Gives (keys : List String) : Json → List (Option Json) → Prop
  | .obj fields, values =>
    (∀ key ∈ keys, (fields.map Prod.fst).count key ≤ 1) ∧ values = keys.map (field? fields)
  | .arr items, values => items.length = keys.length ∧ values = items.map some
  | _, _ => False

theorem Json.hasOnce_iff {keys : List String} {fields : List (String × Json)} :
    hasOnce keys fields ↔ ∀ key ∈ keys, (fields.map Prod.fst).count key ≤ 1 := by
  simp [hasOnce]

theorem Json.text?_eq_some_iff {j : Json} {text : String} : j.text? = some text ↔ j = .str text := by
  cases j <;> simp [text?]

theorem Token.ofFields?_eq_some_iff {kind value line column endColumn : Option Json} {t : Token} :
    ofFields? kind value line column endColumn = some t ↔
      kind = some (.str t.kind) ∧ value = some (.str t.value) ∧
        (∃ text, line = some (.str text) ∧ Line.ofDotted text = .ok t.line) ∧
        optional? word? column = some t.column ∧ optional? word? endColumn = some t.endColumn := by
  simp only [ofFields?, Option.bind_eq_bind, Option.bind_eq_some_iff, Option.pure_def,
    Option.some.injEq, text?_eq_some_iff, Line.ofJson?_eq_some_iff]
  constructor
  · rintro ⟨_, ⟨_, rfl, rfl⟩, _, ⟨_, rfl, rfl⟩, _, ⟨_, rfl, text, rfl, read⟩, _, first, _, last, rfl⟩
    exact ⟨rfl, rfl, ⟨text, rfl, read⟩, first, last⟩
  · rintro ⟨rfl, rfl, ⟨text, rfl, read⟩, first, last⟩
    exact ⟨_, ⟨_, rfl, rfl⟩, _, ⟨_, rfl, rfl⟩, _, ⟨_, rfl, text, rfl, read⟩, _, first, _, last, rfl⟩

/-- A token is read from what gives its kind, its value and the text of its line, and columns or
nothing or null in their place. -/
theorem Token.ofJson?_eq_some_iff {j : Json} {t : Token} :
    ofJson? j = some t ↔ ∃ text column endColumn,
      j.Gives keys [some (.str t.kind), some (.str t.value), some (.str text), column, endColumn] ∧
        Line.ofDotted text = .ok t.line ∧ optional? word? column = some t.column ∧
        optional? word? endColumn = some t.endColumn := by
  cases j with
  | obj fields =>
    rw [ofJson?, Option.ite_none_right_eq_some, hasOnce_iff, ofFields?_eq_some_iff]
    simp only [Gives, keys, List.map_cons, List.map_nil, List.cons.injEq]
    grind
  | arr items =>
    rcases items with _ | ⟨a, _ | ⟨b, _ | ⟨c, _ | ⟨d, _ | ⟨e, _ | ⟨f, rest⟩⟩⟩⟩⟩⟩ <;>
      simp only [ofJson?, Gives, keys, List.length_cons, List.length_nil, List.map_cons, List.map_nil,
        ofFields?_eq_some_iff, List.cons.injEq]
    all_goals grind
  | _ => simp [ofJson?, Gives]

theorem Position.ofFields?_eq_some_iff {line column endColumn : Option Json} {p : Position} :
    ofFields? line column endColumn = some p ↔
      (∃ text, line = some (.str text) ∧ Line.ofDotted text = .ok p.line) ∧
        column.bind word? = some p.column ∧ optional? word? endColumn = some p.endColumn := by
  simp only [ofFields?, Option.bind_eq_bind, Option.bind_eq_some_iff, Option.pure_def,
    Option.some.injEq, Line.ofJson?_eq_some_iff]
  constructor
  · rintro ⟨_, ⟨_, rfl, text, rfl, read⟩, _, first, _, last, rfl⟩
    exact ⟨⟨text, rfl, read⟩, first, last⟩
  · rintro ⟨⟨text, rfl, read⟩, first, last⟩
    exact ⟨_, ⟨_, rfl, text, rfl, read⟩, _, first, _, last, rfl⟩

/-- Of the columns of a position only the last may be missing. -/
theorem Position.ofJson?_eq_some_iff {j : Json} {p : Position} :
    ofJson? j = some p ↔ ∃ text column endColumn,
      j.Gives keys [some (.str text), column, endColumn] ∧ Line.ofDotted text = .ok p.line ∧
        column.bind word? = some p.column ∧ optional? word? endColumn = some p.endColumn := by
  cases j with
  | obj fields =>
    rw [ofJson?, Option.ite_none_right_eq_some, hasOnce_iff, ofFields?_eq_some_iff]
    simp only [Gives, keys, List.map_cons, List.map_nil, List.cons.injEq]
    grind
  | arr items =>
    rcases items with _ | ⟨a, _ | ⟨b, _ | ⟨c, _ | ⟨d, rest⟩⟩⟩⟩ <;>
      simp only [ofJson?, Gives, keys, List.length_cons, List.length_nil, List.map_cons, List.map_nil,
        ofFields?_eq_some_iff, List.cons.injEq]
    all_goals grind
  | _ => simp [ofJson?, Gives]

theorem Child.allOfFields?_eq_some_iff {fields : List (String × Json)} {cs : List Child} :
    allOfFields? fields = some cs ↔
      ∃ items, field? fields "children" = some (.arr items) ∧ allOfJson? items = some cs := by
  induction fields with
  | nil => simp [allOfFields?, field?]
  | cons entry fields ih =>
    obtain ⟨key, value⟩ := entry
    by_cases here : key = "children"
    · subst here
      cases value <;> simp [allOfFields?]
    · rw [allOfFields?_of_ne here, field?_cons_of_ne (Ne.symm here), ih]

theorem Child.allOfJson?_eq_some_iff {items : List Json} {cs : List Child} :
    allOfJson? items = some cs ↔ items.map ofJson? = cs.map some := by
  induction items generalizing cs with
  | nil => cases cs <;> simp [allOfJson?]
  | cons item items ih =>
    rw [allOfJson?_cons]
    cases cs <;> simp [Option.bind_eq_some_iff, ih]

/-- A tree is read from what gives its tag and an array to read its children from. -/
theorem Tree.ofJson?_eq_some_iff {j : Json} {t : Tree} :
    ofJson? j = some t ↔ ∃ items, j.Gives keys [some (.str t.tag), some (.arr items)] ∧
      items.map Child.ofJson? = t.children.map some := by
  simp only [← Child.allOfJson?_eq_some_iff]
  cases j with
  | obj fields =>
    obtain ⟨tag, cs⟩ := t
    simp only [ofJson?, Option.ite_none_right_eq_some, hasOnce_iff, Option.bind_eq_bind,
      Option.bind_eq_some_iff, Option.pure_def, Option.some.injEq, Tree.mk.injEq, text?_eq_some_iff,
      Child.allOfFields?_eq_some_iff, Gives, keys, List.map_cons, List.map_nil, List.cons.injEq]
    grind
  | arr items =>
    obtain ⟨tag, cs⟩ := t
    rw [ofJson?.eq_def]
    rcases items with _ | ⟨a, _ | ⟨b, _ | ⟨c, rest⟩⟩⟩
    case cons.cons.nil =>
      cases a <;> cases b <;> simp [Gives, keys, Option.bind_eq_some_iff]
      grind
    all_goals simp [Gives, keys]
  | _ => simp [ofJson?, Gives]

/-- A child is read from an object with one field, whose key tells which kind of child it is. -/
theorem Child.ofJson?_eq_some_iff {j : Json} {c : Child} :
    ofJson? j = some c ↔
      (∃ value t, j = .obj [("Token", value)] ∧ Token.ofJson? value = some t ∧ c = .token t) ∨
        ∃ value t, j = .obj [("Tree", value)] ∧ Tree.ofJson? value = some t ∧ c = .ofTree t := by
  constructor
  · intro read
    unfold ofJson? at read
    split at read
    · rename_i key value
      split at read
      · rename_i isToken
        obtain ⟨t, accepted, rfl⟩ := Option.map_eq_some_iff.1 read
        exact .inl ⟨value, t, by rw [isToken], accepted, rfl⟩
      · obtain ⟨isTree, read⟩ := Option.ite_none_right_eq_some.1 read
        obtain ⟨t, accepted, rfl⟩ := Option.map_eq_some_iff.1 read
        exact .inr ⟨value, t, by rw [isTree], accepted, rfl⟩
    · cases read
  · rintro (⟨value, t, rfl, read, rfl⟩ | ⟨value, t, rfl, read, rfl⟩)
    · rw [ofJson?_token, read, Option.map_some]
    · rw [ofJson?_tree, read, Option.map_some]

/-! ## All stored forms -/

/-- What is stored is read back. What was read from any form is read back once it has been stored,
and all of its lines are valid. -/
structure Json.Faithful {α : Type} (toJson : α → Json) (ofJson? : Json → Option α)
    (lines : α → List Line) : Prop where
  read_stored : ∀ a, ofJson? (toJson a) = some a
  stored_read : ∀ j a, ofJson? j = some a → ofJson? (toJson a) = ofJson? j
  valid_of_read : ∀ j a, ofJson? j = some a → ∀ l ∈ lines a, l.Valid

/-- The form that a value was read from plays no part in what is stored of it. -/
theorem Json.faithful_of_read_stored {α : Type} {toJson : α → Json} {ofJson? : Json → Option α}
    (lines : α → List Line) (read : ∀ a, ofJson? (toJson a) = some a) :
    Faithful toJson ofJson? lines where
  read_stored := read
  stored_read := fun _ a accepted => (read a).trans accepted.symm
  valid_of_read := fun _ _ _ l _ => l.valid

/-- Whatever a stored program is made of is stored faithfully. -/
theorem Json.syntax_faithful :
    Faithful Tree.toJson Tree.ofJson? Tree.lines ∧
      Faithful Child.toJson Child.ofJson? Child.lines ∧
      Faithful Token.toJson Token.ofJson? (fun t => [t.line]) ∧
      Faithful Line.toJson Line.ofJson? (fun l => [l]) ∧
      Faithful Position.toJson Position.ofJson? (fun p => [p.line]) := by
  refine ⟨?trees, ?children, ?tokens, ?lines, ?positions⟩
  case trees => exact faithful_of_read_stored _ Tree.ofJson?_toJson
  case children => exact faithful_of_read_stored _ Child.ofJson?_toJson
  case tokens => exact faithful_of_read_stored _ Token.ofJson?_toJson
  case lines => exact faithful_of_read_stored _ Line.ofJson?_toJson
  case positions => exact faithful_of_read_stored _ Position.ofJson?_toJson

end ScriptFrontend
