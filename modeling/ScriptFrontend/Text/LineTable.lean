/-!
# Lines of a source text

A line table holds the byte offset at which each line of a text starts. Lines are numbered from 1
and end before their newline; a carriage return in front of the newline belongs to the line ending
too. A text has one line more than it has newlines.

Offsets count the bytes of the text's UTF-8 form. A table may be applied to another text than the
one it was made from; then a range may reach past the end of that text or start or stop inside one
of its characters, and there is no line to be had.
-/

namespace ScriptFrontend.Text

/-- The text after the first bytes, unless they stop inside a character or past the end. -/
def dropBytes? : List Char → Nat → Option (List Char)
  | cs, 0 => some cs
  | [], _ + 1 => none
  | c :: cs, n + 1 => if c.utf8Size ≤ n + 1 then dropBytes? cs (n + 1 - c.utf8Size) else none

/-- The text of the first bytes, unless they stop inside a character or past the end. -/
def takeBytes? : List Char → Nat → Option (List Char)
  | _, 0 => some []
  | [], _ + 1 => none
  | c :: cs, n + 1 =>
    if c.utf8Size ≤ n + 1 then (takeBytes? cs (n + 1 - c.utf8Size)).map (c :: ·) else none

/-- The text between two byte offsets. -/
def slice? (cs : List Char) (start stop : Nat) : Option (List Char) :=
  if stop < start then none else (dropBytes? cs start).bind (takeBytes? · (stop - start))

/-- A line without the carriage return of its line ending. -/
def dropCarriageReturn (cs : List Char) : List Char :=
  if cs.getLast? = some '\r' then cs.dropLast else cs

/-- The offsets after each newline of a text that starts at `offset`. -/
def startsAfter (offset : Nat) : List Char → List Nat
  | [] => []
  | c :: cs =>
    let next := offset + c.utf8Size
    if c = '\n' then next :: startsAfter next cs else startsAfter next cs

/-- Where the lines of a text start, in bytes. -/
structure LineTable where
  starts : List Nat

namespace LineTable

def ofSource (source : String) : LineTable := ⟨0 :: startsAfter 0 source.toList⟩

def count (m : LineTable) : Nat := m.starts.length

/-- The text of a line, without its line ending. -/
def line? (m : LineTable) (source : String) : Nat → Option String
  | 0 => none
  | index + 1 => do
    let start ← m.starts[index]?
    let stop := match m.starts[index + 1]? with
      | some next => next - 1
      | none => source.utf8ByteSize
    let line ← slice? source.toList start stop
    return String.ofList (dropCarriageReturn line)

end LineTable

/-- The text of a numbered line of a source, which is empty for a line that does not exist. -/
def lineOf (source : String) (number : Nat) : String :=
  ((LineTable.ofSource source).line? source number).getD ""

/-- The character at a column; columns count from 1. -/
def charAt? (line : String) : Nat → Option Char
  | 0 => none
  | index + 1 => line.toList[index]?

theorem count_startsAfter (offset : Nat) (cs : List Char) :
    (startsAfter offset cs).length = cs.count '\n' := by
  induction cs generalizing offset with
  | nil => rfl
  | cons c cs ih => by_cases h : c = '\n' <;> simp [startsAfter, h, ih]

end ScriptFrontend.Text
