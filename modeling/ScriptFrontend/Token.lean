import ScriptFrontend.Line.Dotted

/-!
# Tokens

A token is a piece of program text with its kind, its line and, when it was read from source, the
columns that it spans. A token that a compiler pass made up knows its line alone.
-/

namespace ScriptFrontend

/-- A piece of program text with its place. -/
structure Token where
  kind : String
  value : String
  line : Line
  column : Option UInt32
  endColumn : Option UInt32
deriving DecidableEq

/-- A token that stands for no text of the source. -/
def Token.synthetic (kind value : String) (line : Line) : Token := ⟨kind, value, line, none, none⟩

end ScriptFrontend
