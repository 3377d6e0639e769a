import ScriptFrontend.Text.Blank

/-!
# Words and ends of a line

Trimming and splitting are computed by runs over the whole text. Here they are read as places in the
text: a word stands between blanks or the ends of the text, and a text that ends in a mark has
nothing but blanks after it.
-/

namespace ScriptFrontend.Text

/-! ## Trimming -/

/-- A text has a mark at its end, blanks aside, and `before` in front of it. -/
def EndsIn (mark : Char) (text before : List Char) : Prop :=
  ∃ blanks, text = before ++ mark :: blanks ∧ ∀ c ∈ blanks, isBlank c

theorem trimEnd_append_of_blank {blanks : List Char} (h : ∀ c ∈ blanks, isBlank c)
    (cs : List Char) : trimEnd (cs ++ blanks) = trimEnd cs := by
  rw [trimEnd, List.reverse_append, List.dropWhile_append_of_pos (by simpa using h), trimEnd]

theorem trimEnd_concat {c : Char} (solid : isBlank c = false) (cs : List Char) :
    trimEnd (cs ++ [c]) = cs ++ [c] := by
  rw [trimEnd, List.reverse_append, List.reverse_singleton, List.singleton_append,
    List.dropWhile_cons_of_neg (by simp [solid]), List.reverse_cons, List.reverse_reverse]

/-- Trimming stops at the last character that is not blank. -/
theorem trimEnd_append (cs ds : List Char) :
    trimEnd (cs ++ ds) = if trimEnd ds = [] then trimEnd cs else cs ++ trimEnd ds := by
  simp only [trimEnd, List.reverse_append, List.dropWhile_append, List.isEmpty_iff,
    List.reverse_eq_nil_iff]
  split
  · rfl
  · rw [List.reverse_append, List.reverse_reverse]

theorem trimEnd_of_blank {blanks : List Char} (h : ∀ c ∈ blanks, isBlank c) :
    trimEnd blanks = [] := trimEnd_append_of_blank h []

/-- What trimming takes away. -/
theorem exists_blanks (text : List Char) :
    ∃ blanks, text = trimEnd text ++ blanks ∧ ∀ c ∈ blanks, isBlank c := by
  refine ⟨(text.reverse.takeWhile isBlank).reverse, ?_, ?_⟩
  · rw [trimEnd, ← List.reverse_append, List.takeWhile_append_dropWhile, List.reverse_reverse]
  · intro c mem
    exact List.all_eq_true.1 List.all_takeWhile c (List.mem_reverse.1 mem)

theorem endsIn_iff {mark : Char} (solid : isBlank mark = false) {text before : List Char} :
    EndsIn mark text before ↔ trimEnd text = before ++ [mark] := by
  constructor
  · rintro ⟨blanks, rfl, blank⟩
    have apart : before ++ mark :: blanks = before ++ [mark] ++ blanks := by simp
    rw [apart, trimEnd_append_of_blank blank, trimEnd_concat solid]
  · intro trimmed
    obtain ⟨blanks, eq, blank⟩ := exists_blanks text
    rw [trimmed, List.append_assoc, List.singleton_append] at eq
    exact ⟨blanks, eq, blank⟩

/-- A text with blanks around it ends as it does without them. -/
theorem endsIn_surrounded_iff {mark : Char} (solid : isBlank mark = false) {u v : List Char}
    (blank : ∀ c ∈ u, isBlank c) (blank' : ∀ c ∈ v, isBlank c) {text before : List Char} :
    EndsIn mark (u ++ text ++ v) before ↔ ∃ inner, before = u ++ inner ∧ EndsIn mark text inner := by
  simp only [endsIn_iff solid]
  rw [trimEnd_append_of_blank blank', trimEnd_append, trimEnd_of_blank blank]
  split
  · rename_i trimmed
    simp [trimmed]
  · rename_i kept
    constructor
    · intro same
      have last : (trimEnd text).getLast? = some mark := by
        have whole := congrArg List.getLast? same
        rwa [List.getLast?_append, List.getLast?_eq_some_getLast kept, Option.some_or,
          ← List.getLast?_eq_some_getLast kept, List.getLast?_concat] at whole
      obtain ⟨inner, trimmed⟩ := List.getLast?_eq_some_iff.1 last
      rw [trimmed, ← List.append_assoc] at same
      exact ⟨inner, (List.append_cancel_right same).symm, trimmed⟩
    · intro ⟨inner, front, trimmed⟩
      rw [front, trimmed, List.append_assoc]

/-! ## Words -/

/-- A word of a text, between what comes before it and what comes after it: a run of characters that
are not blank, with blanks or the ends of the text around it. -/
structure WordAt (text before word after : List Char) : Prop where
  text_eq : text = before ++ (word ++ after)
  ne_nil : word ≠ []
  solid : ∀ c ∈ word, isBlank c = false
  opens : ∀ c, before.getLast? = some c → isBlank c
  closes : ∀ c, after.head? = some c → isBlank c

/-- The first word of a text. -/
structure FirstWordAt (text before word after : List Char) : Prop
    extends WordAt text before word after where
  blank : ∀ c ∈ before, isBlank c

theorem words_nil : words [] = [] := rfl

theorem words_append_cons {c : Char} (blank : isBlank c) (cs ds : List Char) :
    words (cs ++ c :: ds) = words cs ++ words ds := by
  rw [words, List.splitOnP_append_cons cs ds blank, List.filter_append]
  rfl

theorem words_cons {c : Char} (blank : isBlank c) (cs : List Char) : words (c :: cs) = words cs :=
  words_append_cons blank [] cs

theorem words_append_of_blank {blanks : List Char} (h : ∀ c ∈ blanks, isBlank c)
    (cs : List Char) : words (blanks ++ cs) = words cs := by
  induction blanks with
  | nil => rfl
  | cons c blanks ih =>
    rw [List.cons_append, words_cons (h c List.mem_cons_self)]
    exact ih fun d mem => h d (List.mem_cons_of_mem c mem)

theorem words_surrounded {u v : List Char} (blank : ∀ c ∈ u, isBlank c)
    (blank' : ∀ c ∈ v, isBlank c) (cs : List Char) : words (u ++ cs ++ v) = words cs := by
  rw [List.append_assoc, words_append_of_blank blank]
  cases v with
  | nil => rw [List.append_nil]
  | cons c v =>
    have none := words_append_of_blank (fun d mem => blank' d (List.mem_cons_of_mem c mem)) []
    rw [List.append_nil] at none
    rw [words_append_cons (blank' c List.mem_cons_self), none, words_nil, List.append_nil]

theorem words_of_solid {word : List Char} (ne_nil : word ≠ [])
    (solid : ∀ c ∈ word, isBlank c = false) : words word = [word] := by
  rw [words, List.splitOnP_eq_singleton solid]
  simpa using ne_nil

namespace WordAt

variable {text before word after : List Char}

theorem words_append (h : WordAt text before word after) :
    words (word ++ after) = word :: words after := by
  cases after with
  | nil => rw [List.append_nil, words_of_solid h.ne_nil h.solid, words_nil]
  | cons c after =>
    have blank := h.closes c rfl
    rw [words_append_cons blank, words_of_solid h.ne_nil h.solid, words_cons blank,
      List.singleton_append]

theorem mem_words (h : WordAt text before word after) : word ∈ words text := by
  rw [h.text_eq]
  cases last : before.getLast? with
  | none =>
    rw [List.getLast?_eq_none_iff.1 last, List.nil_append, h.words_append]
    exact List.mem_cons_self
  | some c =>
    obtain ⟨cs, rfl⟩ := List.getLast?_eq_some_iff.1 last
    rw [List.append_assoc, List.singleton_append, words_append_cons (h.opens c last),
      h.words_append]
    exact List.mem_append_right _ List.mem_cons_self

/-- A word of what comes after a word is a word of the text. -/
theorem of_after {between later rest : List Char} (h : WordAt text before word after)
    (next : WordAt after between later rest) :
    WordAt text (before ++ word ++ between) later rest where
  text_eq := by simp [h.text_eq, next.text_eq]
  ne_nil := next.ne_nil
  solid := next.solid
  opens := by
    -- The later word does not begin where the earlier one ends, since a blank stands there.
    have separated : between ≠ [] := by
      rintro rfl
      obtain ⟨c, cs, rfl⟩ := List.exists_cons_of_ne_nil next.ne_nil
      have blank := h.closes c (by simp [next.text_eq])
      rw [next.solid c List.mem_cons_self] at blank
      contradiction
    intro c last
    rw [List.getLast?_append, List.getLast?_eq_some_getLast separated, Option.some_or] at last
    exact next.opens c (List.getLast?_eq_some_getLast separated ▸ last)
  closes := next.closes

end WordAt

theorem FirstWordAt.words_eq {text before word after : List Char}
    (h : FirstWordAt text before word after) : words text = word :: words after := by
  rw [h.text_eq, words_append_of_blank h.blank, h.words_append]

/-- The first word goes from the first character that is not blank to the next blank. -/
theorem firstWordAt_append {blanks : List Char} (blank : ∀ c ∈ blanks, isBlank c) {first : Char}
    (solid : isBlank first = false) (rest : List Char) :
    FirstWordAt (blanks ++ first :: rest) blanks ((first :: rest).takeWhile (!isBlank ·))
      ((first :: rest).dropWhile (!isBlank ·)) where
  text_eq := by rw [List.takeWhile_append_dropWhile]
  ne_nil := by simp [solid]
  solid := by
    intro c mem
    simpa using List.all_eq_true.1 List.all_takeWhile c mem
  opens := fun c last => blank c (List.mem_of_getLast? last)
  closes := by
    intro c head
    have stops := List.head?_dropWhile_not (!isBlank ·) (first :: rest)
    rw [head] at stops
    simpa using stops
  blank := blank

/-- A text is blank, or it has a first word. -/
theorem exists_firstWordAt (text : List Char) :
    (∀ c ∈ text, isBlank c) ∨ ∃ before word after, FirstWordAt text before word after := by
  have apart := List.takeWhile_append_dropWhile (p := isBlank) (l := text)
  have blank (c : Char) (mem : c ∈ text.takeWhile isBlank) : isBlank c :=
    List.all_eq_true.1 List.all_takeWhile c mem
  cases start : text.dropWhile isBlank with
  | nil =>
    rw [start, List.append_nil] at apart
    rw [apart] at blank
    exact .inl blank
  | cons first rest =>
    have solid : isBlank first = false := by
      have stops := List.head?_dropWhile_not isBlank text
      rw [start] at stops
      simpa using stops
    have word := firstWordAt_append blank solid rest
    rw [← start, apart] at word
    exact .inr ⟨_, _, _, word⟩

theorem words_eq_cons_iff {text word : List Char} {rest : List (List Char)} :
    words text = word :: rest ↔
      ∃ before after, FirstWordAt text before word after ∧ words after = rest := by
  constructor
  · intro eq
    rcases exists_firstWordAt text with blank | ⟨before, first, after, h⟩
    · have none := words_append_of_blank blank []
      rw [List.append_nil, words_nil, eq] at none
      contradiction
    · rw [h.words_eq] at eq
      obtain ⟨rfl, rfl⟩ := List.cons.inj eq
      exact ⟨before, after, h, rfl⟩
  · rintro ⟨before, after, h, rfl⟩
    exact h.words_eq

theorem mem_words_iff {text word : List Char} :
    word ∈ words text ↔ ∃ before after, WordAt text before word after := by
  constructor
  · intro mem
    generalize eq : words text = ws at mem
    induction ws generalizing text with
    | nil => cases mem
    | cons first rest ih =>
      obtain ⟨before, after, h, later⟩ := words_eq_cons_iff.1 eq
      cases mem with
      | head => exact ⟨before, after, h.toWordAt⟩
      | tail _ mem =>
        obtain ⟨between, behind, next⟩ := ih later mem
        exact ⟨_, behind, h.of_after next⟩
  · rintro ⟨before, after, h⟩
    exact h.mem_words

end ScriptFrontend.Text
