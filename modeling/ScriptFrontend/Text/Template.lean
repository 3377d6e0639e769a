/-!
# Filling in templates

A placeholder is a key between braces. Filling a template puts the value that is bound to the key
in its place. What has been put in is not looked at again, so a value may hold braces of its own. A
brace that opens no bound placeholder stays as it is, and the scan goes on right behind it.
-/

namespace ScriptFrontend.Text

/-- The value of the placeholder whose opening brace stands before a text, and the text after its
closing brace. Of several values for one key the first counts. -/
def placeholder? (values : List (List Char × List Char)) (text : List Char) :
    Option (List Char × List Char) :=
  match text.dropWhile (· != '\x7d') with
  | [] => none
  | _ :: rest => (values.lookup (text.takeWhile (· != '\x7d'))).map (·, rest)

theorem length_placeholder?_lt {values : List (List Char × List Char)}
    {text value rest : List Char} (h : placeholder? values text = some (value, rest)) :
    rest.length < text.length := by
  unfold placeholder? at h
  split at h
  · simp at h
  · rename_i tail drop
    obtain ⟨_, _, eq⟩ := Option.map_eq_some_iff.1 h
    obtain ⟨rfl, rfl⟩ := Prod.mk.inj eq
    have := (List.dropWhile_sublist (· != '\x7d') (l := text)).length_le
    simp [drop] at this
    omega

/-- A template with its bound placeholders filled in. -/
def fillChars (values : List (List Char × List Char)) : List Char → List Char
  | [] => []
  | c :: text =>
    if c = '\x7b' then
      match _h : placeholder? values text with
      | some (value, rest) => value ++ fillChars values rest
      | none => c :: fillChars values text
    else c :: fillChars values text
termination_by text => text.length
decreasing_by
  · have := length_placeholder?_lt ‹_›
    simp
    omega
  · simp
  · simp

/-- `fillChars` on strings. -/
def fill (values : List (String × String)) (template : String) : String :=
  String.ofList (fillChars (values.map fun (key, value) => (key.toList, value.toList))
    template.toList)

end ScriptFrontend.Text
