import ScriptFrontend.Line.Basic

/-!
# Line identifiers as text

A line identifier is written as its components in decimal with dots between them. Reading is
strict about what a component is (ASCII digits only, no sign, not empty, within range) and lenient
in one point: leading zeros are allowed, and are not kept.
-/

namespace ScriptFrontend

/-- The component that a run of ASCII digits stands for. -/
def Component.ofDigits? (digits : List Char) : Option Component :=
  if digits ≠ [] ∧ digits.all Char.isDigit then ofNat? (Nat.ofDigitChars 10 digits 0) else none

theorem Component.ofDigits?_toDigits (c : Component) :
    ofDigits? (Nat.toDigits 10 c.val) = some c := by
  have digits : (Nat.toDigits 10 c.val).all Char.isDigit = true :=
    List.all_eq_true.2 fun _ h => Nat.isDigit_of_mem_toDigits (by decide) (by decide) h
  have nonempty : Nat.toDigits 10 c.val ≠ [] := Nat.toDigits_ne_nil
  rw [ofDigits?, if_pos ⟨nonempty, digits⟩,
    Nat.ofDigitChars_toDigits (by decide) (by decide), ofNat?_val]

namespace Line

/-- The dotted text of a line. -/
def dotted (l : Line) : String := ".".intercalate (l.parts.map fun c => toString c.val)

instance : ToString Line := ⟨dotted⟩

/-- Reads a dotted text; of several bad components the first is reported. -/
def ofDotted (text : String) : Except LineError Line :=
  if text = "" then .error .empty
  else
    match text.toList.splitOn '.' with
    | [] => .error .empty
    | source :: suffixes => do
      let source ← component source
      let suffixes ← suffixes.mapM component
      return ⟨source, suffixes⟩
where
  component (piece : List Char) : Except LineError Component :=
    match Component.ofDigits? piece with
    | some c => .ok c
    | none => .error (.invalidComponent (String.ofList piece))

end Line

end ScriptFrontend
