/-!
# Paths of source files

Reports name a file relative to a directory when the file is inside it. Paths are compared step by
step: repeated slashes and `.` steps do not count, `..` is a step like any other, and a leading
slash or a leading `.` is a step of its own. What is shown is the rest of the path as it was
written, from its first step to its last.
-/

namespace ScriptFrontend

/-- How a path begins, if not with a name. -/
inductive PathStart
  | root
  | here
deriving DecidableEq

/-- A path as written: its beginning, and what stands between its slashes after that. -/
structure SourcePath where
  start : Option PathStart
  pieces : List (List Char)
deriving DecidableEq

namespace SourcePath

/-- Takes a path apart; a dot at the start counts only if it stands alone there. -/
def ofChars : List Char → SourcePath
  | '/' :: rest => ⟨some .root, rest.splitOn '/'⟩
  | ['.'] => ⟨some .here, [[]]⟩
  | '.' :: '/' :: rest => ⟨some .here, [] :: rest.splitOn '/'⟩
  | cs => ⟨none, cs.splitOn '/'⟩

def ofString (s : String) : SourcePath := ofChars s.toList

/-- Whether a piece is no step: nothing at all between two slashes, or a dot. -/
def isIdle (piece : List Char) : Bool := piece == [] || piece == ['.']

/-- The names that a path goes through, `..` among them. -/
def names (p : SourcePath) : List (List Char) := p.pieces.filter (!isIdle ·)

/-- The pieces after the given number of names. -/
def dropNames : Nat → List (List Char) → List (List Char)
  | 0, pieces => pieces
  | _, [] => []
  | n + 1, piece :: pieces => if isIdle piece then dropNames (n + 1) pieces else dropNames n pieces

/-- The text of pieces from their first name to their last. -/
def trimmed (pieces : List (List Char)) : List Char :=
  ['/'].intercalate (dropIdleEnd (pieces.dropWhile isIdle))
where
  dropIdleEnd (pieces : List (List Char)) : List (List Char) :=
    (pieces.reverse.dropWhile isIdle).reverse

/-- The text of a whole path, without idle pieces at its end. -/
def text (p : SourcePath) : List Char :=
  start ++ ['/'].intercalate (trimmed.dropIdleEnd p.pieces)
where
  start : List Char :=
    match p.start with
    | some .root => ['/']
    | some .here => ['.']
    | none => []

/-- The path from a directory to a path inside it, as written. Every path is inside the empty
directory. -/
def below? (directory path : SourcePath) : Option (List Char) :=
  let count := directory.names.length
  if directory.start = none ∧ count = 0 then some path.text
  else if directory.start = path.start ∧ directory.names = path.names.take count then
    some (trimmed (dropNames count path.pieces))
  else none

/-- How a path is shown to a user who works in a directory. -/
def shownIn (directory path : String) : String :=
  match (ofString directory).below? (ofString path) with
  | some rest => String.ofList rest
  | none => path

example : shownIn "/stories" "/stories//a/./b.story/" = "a/./b.story" := by decide +kernel

example : shownIn "/stories" "/storiesque/a" = "/storiesque/a" := by decide +kernel

example : shownIn "" "./a//" = "./a" := by decide +kernel

end SourcePath

end ScriptFrontend
