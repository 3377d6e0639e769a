import ScriptFrontend.Text.Template

/-!
# What filling a template does

A placeholder whose key holds no brace overlaps no other such placeholder, so a template falls apart
into bound placeholders and single characters in one way only. Filling is what this division says:
every bound placeholder turns into its value, every other character stays, and all of it keeps its
order. The scan does not look for such keys; it takes all up to the next closing brace for one, and
goes back behind the opening brace when that key is not bound, as a key with a brace never is.
-/

namespace ScriptFrontend.Text

/-! ## Placeholders -/

/-- A part of a template: a character that stays, or a placeholder and the value that is put in. -/
inductive Piece
  | kept (c : Char)
  | filled (key value : String)

def Piece.source : Piece → List Char
  | .kept c => [c]
  | .filled key _ => '\x7b' :: (key.toList ++ ['\x7d'])

def Piece.result : Piece → List Char
  | .kept c => [c]
  | .filled _ value => value.toList

theorem Piece.source_ne_nil (piece : Piece) : piece.source ≠ [] := by
  cases piece <;> simp [source]

theorem flatMap_source_eq_nil_iff {pieces : List Piece} :
    pieces.flatMap Piece.source = [] ↔ pieces = [] := by
  cases pieces with
  | nil => simp
  | cons piece pieces => simp [piece.source_ne_nil]

/-- A bound placeholder with what comes before and after it in a text. Of several values for one key
the first counts. -/
structure PlaceholderAt (values : List (String × String)) (text before : List Char)
    (key value : String) (after : List Char) : Prop where
  text_eq : text = before ++ '\x7b' :: (key.toList ++ '\x7d' :: after)
  unopened : '\x7b' ∉ key.toList
  unclosed : '\x7d' ∉ key.toList
  bound : values.lookup key = some value

/-- The pieces of a text; the placeholders among them are the bound placeholders of the text, each
of them at its place. -/
structure Divides (values : List (String × String)) (text : List Char) (pieces : List Piece) :
    Prop where
  text_eq : text = pieces.flatMap Piece.source
  placeholderAt_iff : ∀ before key value after, PlaceholderAt values text before key value after ↔
    ∃ ps qs, pieces = ps ++ .filled key value :: qs ∧ before = ps.flatMap Piece.source ∧
      after = qs.flatMap Piece.source

/-- Values as `fillChars` takes them. -/
def chars (values : List (String × String)) : List (List Char × List Char) :=
  values.map fun (key, value) => (key.toList, value.toList)

theorem lookup_chars (values : List (String × String)) (key : String) :
    (chars values).lookup key.toList = (values.lookup key).map String.toList := by
  induction values with
  | nil => rfl
  | cons pair values ih =>
    obtain ⟨key', value⟩ := pair
    have same : (key.toList == key'.toList) = (key == key') := by
      rw [Bool.eq_iff_iff, beq_iff_eq, beq_iff_eq, String.toList_inj]
    rw [chars, List.map_cons, List.lookup_cons, List.lookup_cons, same]
    cases key == key' with
    | true => rfl
    | false => exact ih

theorem placeholder?_eq_some_iff {values : List (List Char × List Char)}
    {text value rest : List Char} :
    placeholder? values text = some (value, rest) ↔
      ∃ key, text = key ++ '\x7d' :: rest ∧ '\x7d' ∉ key ∧ values.lookup key = some value := by
  constructor
  · intro h
    have apart := List.takeWhile_append_dropWhile (p := (· != '\x7d')) (l := text)
    have unclosed : '\x7d' ∉ text.takeWhile (· != '\x7d') := by
      intro mem
      have := List.all_eq_true.1 List.all_takeWhile _ mem
      contradiction
    rw [placeholder?] at h
    split at h
    · cases h
    · rename_i c tail drop
      obtain ⟨value', bound, same⟩ := Option.map_eq_some_iff.1 h
      cases same
      have closing : c = '\x7d' := by
        have stops := List.head?_dropWhile_not (· != '\x7d') text
        rw [drop] at stops
        simpa using stops
      rw [drop, closing] at apart
      exact ⟨_, apart.symm, unclosed, bound⟩
  · rintro ⟨key, rfl, unclosed, bound⟩
    have passes : ∀ c ∈ key, (c != '\x7d') = true := by
      intro c mem
      rw [bne_iff_ne]
      rintro rfl
      exact unclosed mem
    rw [placeholder?, List.dropWhile_append_of_pos passes, List.takeWhile_append_of_pos passes]
    simp [bound]

section Placeholders

variable {values : List (String × String)} {text before after rest : List Char}
  {key value key' value' : String}

namespace PlaceholderAt

theorem placeholder?_eq (h : PlaceholderAt values ('\x7b' :: text) [] key value after) :
    placeholder? (chars values) text = some (value.toList, after) := by
  refine placeholder?_eq_some_iff.2 ⟨key.toList, (List.cons.inj h.text_eq).2, h.unclosed, ?_⟩
  rw [lookup_chars, h.bound, Option.map_some]

theorem append (h : PlaceholderAt values text before key value after) (front : List Char) :
    PlaceholderAt values (front ++ text) (front ++ before) key value after where
  text_eq := by rw [h.text_eq, List.append_assoc]
  unopened := h.unopened
  unclosed := h.unclosed
  bound := h.bound

theorem of_append {front : List Char}
    (h : PlaceholderAt values (front ++ text) (front ++ before) key value after) :
    PlaceholderAt values text before key value after where
  text_eq := List.append_cancel_left (h.text_eq.trans (List.append_assoc ..))
  unopened := h.unopened
  unclosed := h.unclosed
  bound := h.bound

theorem head_eq {c : Char} (h : PlaceholderAt values (c :: text) [] key value after) : c = '\x7b' :=
  (List.cons.inj h.text_eq).1

/-- At most one bound placeholder opens with the first character of a text. -/
theorem unique (h : PlaceholderAt values text [] key value rest)
    (h' : PlaceholderAt values text [] key' value' after) :
    key' = key ∧ value' = value ∧ after = rest := by
  have text_eq := h.text_eq
  subst text_eq
  have same := h'.placeholder?_eq
  rw [h.placeholder?_eq, Option.some.injEq, Prod.mk.injEq] at same
  obtain ⟨-, rfl⟩ := same
  have keys := (List.cons.inj h'.text_eq).2
  obtain rfl := String.toList_inj.1 (List.append_cancel_right keys)
  exact ⟨rfl, Option.some.inj (h'.bound.symm.trans h.bound), rfl⟩

/-- A later placeholder opens behind the closing brace of the first, since the key has no brace. -/
theorem exists_between {c : Char} (h : PlaceholderAt values text [] key value rest)
    (later : PlaceholderAt values text (c :: before) key' value' after) :
    ∃ between, c :: before = (Piece.filled key value).source ++ between := by
  obtain ⟨head, same⟩ := List.cons.inj (h.text_eq.symm.trans later.text_eq)
  -- The later brace opens behind the key or within it; the key has none.
  rcases List.append_eq_append_iff.1 same with ⟨between, rfl, tail⟩ | ⟨within, keys, tail⟩
  · cases between with
    | nil =>
      have := (List.cons.inj tail).1
      contradiction
    | cons d between =>
      obtain ⟨rfl, -⟩ := List.cons.inj tail
      exact ⟨between, by simp [Piece.source, ← head]⟩
  · cases within with
    | nil =>
      have := (List.cons.inj tail).1
      contradiction
    | cons d within =>
      obtain ⟨rfl, -⟩ := List.cons.inj tail
      exact absurd (keys ▸ List.mem_append_right _ List.mem_cons_self) h.unopened

end PlaceholderAt

/-- With keys that hold no opening brace, whatever the scan takes for a bound placeholder is one. -/
theorem exists_placeholderAt (plain : ∀ pair ∈ values, '\x7b' ∉ pair.1.toList) {found : List Char}
    (h : placeholder? (chars values) text = some (found, rest)) :
    ∃ key value, value.toList = found ∧
      PlaceholderAt values ('\x7b' :: text) [] key value rest := by
  obtain ⟨cs, rfl, unclosed, bound⟩ := placeholder?_eq_some_iff.1 h
  rw [← String.toList_ofList (l := cs)] at unclosed bound ⊢
  rw [lookup_chars, Option.map_eq_some_iff] at bound
  obtain ⟨value, bound, rfl⟩ := bound
  obtain ⟨ps, qs, eq, -⟩ := List.lookup_eq_some_iff.1 bound
  have known : (_, value) ∈ values := eq ▸ List.mem_append_right _ List.mem_cons_self
  exact ⟨_, value, rfl, rfl, plain _ known, unclosed, bound⟩

/-! ## Division -/

namespace Divides

variable {pieces : List Piece}

theorem nil : Divides values [] [] where
  text_eq := rfl
  placeholderAt_iff := by
    intro before key value after
    constructor
    · intro h
      have := h.text_eq
      simp at this
    · rintro ⟨ps, qs, eq, -, -⟩
      simp at eq

/-- A piece can be put in front of a division if it is a placeholder just when the longer text opens
with one, and no other placeholder opens within it. -/
theorem cons (h : Divides values rest pieces) {piece : Piece}
    (opens : ∀ key value after, PlaceholderAt values (piece.source ++ rest) [] key value after ↔
      piece = .filled key value ∧ after = rest)
    (skips : ∀ c before key value after,
      PlaceholderAt values (piece.source ++ rest) (c :: before) key value after →
        ∃ between, c :: before = piece.source ++ between) :
    Divides values (piece.source ++ rest) (piece :: pieces) where
  text_eq := by rw [List.flatMap_cons, ← h.text_eq]
  placeholderAt_iff := by
    intro before key value after
    constructor
    · intro found
      cases before with
      | nil =>
        obtain ⟨rfl, rfl⟩ := (opens key value after).1 found
        exact ⟨[], pieces, rfl, rfl, h.text_eq⟩
      | cons c before =>
        obtain ⟨between, eq⟩ := skips c before key value after found
        rw [eq] at found ⊢
        obtain ⟨ps, qs, rfl, rfl, rfl⟩ := (h.placeholderAt_iff ..).1 found.of_append
        exact ⟨piece :: ps, qs, rfl, rfl, rfl⟩
    · rintro ⟨ps, qs, eq, rfl, rfl⟩
      cases ps with
      | nil =>
        obtain ⟨rfl, rfl⟩ := List.cons.inj eq
        exact (opens key value _).2 ⟨rfl, h.text_eq.symm⟩
      | cons p ps =>
        obtain ⟨rfl, rfl⟩ := List.cons.inj eq
        exact ((h.placeholderAt_iff ..).2 ⟨ps, qs, rfl, rfl, rfl⟩).append piece.source

theorem eq_filled_iff {piece : Piece} (h : Divides values text (piece :: pieces)) :
    piece = .filled key value ↔ ∃ after, PlaceholderAt values text [] key value after := by
  constructor
  · rintro rfl
    exact ⟨_, (h.placeholderAt_iff ..).2 ⟨[], pieces, rfl, rfl, rfl⟩⟩
  · rintro ⟨after, found⟩
    obtain ⟨ps, qs, eq, none, -⟩ := (h.placeholderAt_iff ..).1 found
    rw [flatMap_source_eq_nil_iff.1 none.symm] at eq
    exact (List.cons.inj eq).1

theorem tail {piece : Piece} (h : Divides values (piece.source ++ rest) (piece :: pieces)) :
    Divides values rest pieces where
  text_eq := List.append_cancel_left h.text_eq
  placeholderAt_iff := by
    intro before key value after
    constructor
    · intro found
      obtain ⟨ps, qs, eq, front, behind⟩ :=
        (h.placeholderAt_iff ..).1 (found.append piece.source)
      cases ps with
      | nil => exact absurd (List.append_eq_nil_iff.1 front).1 piece.source_ne_nil
      | cons p ps =>
        obtain ⟨rfl, rfl⟩ := List.cons.inj eq
        exact ⟨ps, qs, rfl, List.append_cancel_left front, behind⟩
    · rintro ⟨ps, qs, rfl, rfl, rfl⟩
      have found := (h.placeholderAt_iff (piece.source ++ ps.flatMap Piece.source) ..).2
        ⟨piece :: ps, qs, rfl, rfl, rfl⟩
      exact found.of_append

/-- A text divides in one way only: whether it opens with a placeholder settles its first piece. -/
theorem unique {ps qs : List Piece} (h : Divides values text ps) (h' : Divides values text qs) :
    ps = qs := by
  induction ps generalizing text qs with
  | nil =>
    have none : qs.flatMap Piece.source = [] := h'.text_eq.symm.trans h.text_eq
    exact (flatMap_source_eq_nil_iff.1 none).symm
  | cons p ps ih =>
    cases qs with
    | nil =>
      have none : (p :: ps).flatMap Piece.source = [] := h.text_eq.symm.trans h'.text_eq
      exact flatMap_source_eq_nil_iff.1 none
    | cons q qs =>
      have same : p = q := by
        cases p with
        | filled key value => exact (h'.eq_filled_iff.2 (h.eq_filled_iff.1 rfl)).symm
        | kept c =>
          cases q with
          | filled key value => exact h.eq_filled_iff.2 (h'.eq_filled_iff.1 rfl)
          | kept d =>
            have chars := h.text_eq.symm.trans h'.text_eq
            rw [(List.cons.inj chars).1]
      subst same
      have text_eq : text = p.source ++ ps.flatMap Piece.source := h.text_eq
      subst text_eq
      rw [ih h.tail h'.tail]

theorem kept (h : Divides values rest pieces) {c : Char}
    (lone : ∀ key value after, ¬ PlaceholderAt values (c :: rest) [] key value after) :
    Divides values (c :: rest) (.kept c :: pieces) := by
  change Divides values ((Piece.kept c).source ++ rest) (.kept c :: pieces)
  refine h.cons ?_ ?_
  · intro key value after
    constructor
    · intro found
      exact absurd found (lone key value after)
    · rintro ⟨eq, -⟩
      cases eq
  · intro d before key value after found
    obtain ⟨rfl, -⟩ := List.cons.inj found.text_eq
    exact ⟨before, rfl⟩

theorem filled (h : Divides values rest pieces)
    (front : PlaceholderAt values text [] key value rest) :
    Divides values text (.filled key value :: pieces) := by
  have text_eq : text = (Piece.filled key value).source ++ rest := by
    simp [front.text_eq, Piece.source]
  subst text_eq
  refine h.cons ?_ ?_
  · intro key' value' after
    constructor
    · intro found
      obtain ⟨rfl, rfl, rfl⟩ := front.unique found
      exact ⟨rfl, rfl⟩
    · rintro ⟨eq, rfl⟩
      cases eq
      exact front
  · intro c before key' value' after found
    exact front.exists_between found

end Divides

theorem exists_divides (plain : ∀ pair ∈ values, '\x7b' ∉ pair.1.toList) (text : List Char) :
    ∃ pieces, Divides values text pieces ∧
      fillChars (chars values) text = pieces.flatMap Piece.result := by
  -- The cases are those of the scan: the end, a bound placeholder, a brace that opens none, and
  -- any other character.
  fun_induction fillChars (chars values) text with
  | case1 => exact ⟨[], .nil, rfl⟩
  | case2 text found rest placeholder ih =>
    obtain ⟨pieces, divides, result⟩ := ih
    obtain ⟨key, value, rfl, front⟩ := exists_placeholderAt plain placeholder
    exact ⟨_, divides.filled front, by rw [result]; rfl⟩
  | case3 text none ih =>
    obtain ⟨pieces, divides, result⟩ := ih
    refine ⟨_, divides.kept ?_, by rw [result]; rfl⟩
    intro key value after found
    rw [found.placeholder?_eq] at none
    cases none
  | case4 c text other ih =>
    obtain ⟨pieces, divides, result⟩ := ih
    refine ⟨_, divides.kept ?_, by rw [result]; rfl⟩
    intro key value after found
    exact other found.head_eq

end Placeholders

/-- Filling a template with values for keys without opening braces. The template divides in exactly
one way into single characters and placeholders, where the placeholders are all that it has with a
key that holds no brace and is bound, each with the first value for its key. The result is the
characters, as they are, and the values, as they are, in the order of the pieces. -/
theorem fill_in_place {values : List (String × String)}
    (plain : ∀ pair ∈ values, '\x7b' ∉ pair.1.toList) (template : String) :
    ∃ pieces, (∀ ps, Divides values template.toList ps ↔ ps = pieces) ∧
      (fill values template).toList = pieces.flatMap Piece.result := by
  obtain ⟨pieces, divides, result⟩ := exists_divides plain template.toList
  refine ⟨pieces, fun ps => ⟨fun other => other.unique divides, ?_⟩, ?_⟩
  · rintro rfl
    exact divides
  · rw [fill, String.toList_ofList]
    exact result

/-- A second value for one key, and a value that looks like a placeholder. -/
def nestedValues : List (String × String) := [("a", "\x7bb\x7d"), ("b", "x"), ("a", "y")]

/-- A template with an opening brace in front of a placeholder, a placeholder within braces, and an
opening brace that nothing closes. -/
def nestedTemplate : String := "\x7b\x7ba\x7d\x7bc\x7bb\x7d\x7d\x7ba"

theorem fill_in_place_nested :
    (∀ pair ∈ nestedValues, '\x7b' ∉ pair.1.toList) ∧
      fill nestedValues nestedTemplate = "\x7b\x7bb\x7d\x7bcx\x7d\x7ba" ∧
      ∃ ps qs, Divides nestedValues nestedTemplate.toList (ps ++ .filled "b" "x" :: qs) ∧
        ps.flatMap Piece.source = "\x7b\x7ba\x7d\x7bc".toList ∧
        (fill nestedValues nestedTemplate).toList
          = (ps ++ .filled "b" "x" :: qs).flatMap Piece.result := by
  have plain : ∀ pair ∈ nestedValues, '\x7b' ∉ pair.1.toList := by decide
  obtain ⟨pieces, divides, result⟩ := fill_in_place plain nestedTemplate
  replace divides := (divides pieces).2 rfl
  have inner : PlaceholderAt nestedValues nestedTemplate.toList "\x7b\x7ba\x7d\x7bc".toList "b" "x"
      "\x7d\x7ba".toList := ⟨by decide, by decide, by decide, by decide⟩
  obtain ⟨ps, qs, rfl, before, -⟩ := (divides.placeholderAt_iff ..).1 inner
  exact ⟨plain, by cbv, ps, qs, divides, before.symm, result⟩

/-! ## From the front -/

theorem fillChars_append (values : List (List Char × List Char)) {front : List Char}
    (plain : '\x7b' ∉ front) (text : List Char) :
    fillChars values (front ++ text) = front ++ fillChars values text := by
  induction front with
  | nil => rfl
  | cons c front ih =>
    rw [List.mem_cons, not_or] at plain
    rw [List.cons_append, fillChars, if_neg (Ne.symm plain.1), ih plain.2, List.cons_append]

theorem fillChars_placeholder {values : List (List Char × List Char)} {text value rest : List Char}
    (found : placeholder? values text = some (value, rest)) :
    fillChars values ('\x7b' :: text) = value ++ fillChars values rest := by
  rw [fillChars, if_pos rfl]
  split
  · rename_i same
    rw [found] at same
    cases same
    rfl
  · rename_i none
    rw [found] at none
    cases none

theorem toList_fill (values : List (String × String)) (template : String) :
    (fill values template).toList = fillChars (chars values) template.toList := by
  rw [fill, String.toList_ofList]
  rfl

theorem fill_of_plain {values : List (String × String)} {template : String}
    (plain : '\x7b' ∉ template.toList) : fill values template = template := by
  have kept := fillChars_append (chars values) plain []
  rw [fillChars, List.append_nil] at kept
  rw [← String.toList_inj, toList_fill, kept]

/-- The first placeholder of a template is filled in, and filling goes on behind it. -/
theorem fill_append_placeholder {values : List (String × String)} {front key value : String}
    (plain : '\x7b' ∉ front.toList) (unclosed : '\x7d' ∉ key.toList)
    (bound : values.lookup key = some value) (rest : String) :
    fill values (front ++ "\x7b" ++ key ++ "\x7d" ++ rest) = front ++ value ++ fill values rest := by
  have found : placeholder? (chars values) (key.toList ++ '\x7d' :: rest.toList)
      = some (value.toList, rest.toList) := by
    refine placeholder?_eq_some_iff.2 ⟨key.toList, rfl, unclosed, ?_⟩
    rw [lookup_chars, bound, Option.map_some]
  have spelt : (front ++ "\x7b" ++ key ++ "\x7d" ++ rest).toList
      = front.toList ++ '\x7b' :: (key.toList ++ '\x7d' :: rest.toList) := by simp
  rw [← String.toList_inj, toList_fill, spelt, fillChars_append _ plain, fillChars_placeholder found]
  simp [toList_fill]

end ScriptFrontend.Text
