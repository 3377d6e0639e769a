/-!
# Edit distance

The edit distance of two words is the least number of single characters to insert, delete or
replace that turns one into the other. It is computed row by row: the row of a beginning of the
first word holds its distances to all beginnings of the second, shortest first.
-/

namespace ScriptFrontend.Text

/-- The rest of a row, from the character that it adds, the rest of the second word, the part of
the row above that starts one place to the left, and the cell to the left. -/
def cells (x : Char) : List Char → List Nat → Nat → List Nat
  | y :: ys, corner :: above :: row, left =>
    let cell := min (min (above + 1) (left + 1)) (corner + if x = y then 0 else 1)
    cell :: cells x ys (above :: row) cell
  | _, _, _ => []

/-- The row after `row`, for a first word that is longer by `x`. -/
def nextRow (ys : List Char) (row : List Nat) (x : Char) : List Nat :=
  let first := row.headD 0 + 1
  first :: cells x ys row first

/-- The edit distance: the last cell of the last row. -/
def distance (xs ys : List Char) : Nat :=
  (xs.foldl (nextRow ys) (List.range (ys.length + 1))).getLastD 0

def editDistance (a b : String) : Nat := distance a.toList b.toList

/-- How far from a keyword a word may be and still pass for a misspelling of it. -/
def tolerance (length : Nat) : Nat := if length ≤ 2 then 0 else if length ≤ 5 then 1 else 2

/-- Whether a word is a keyword with a slip or two. Words of fewer than three characters never
are, and neither is the keyword itself; where the lengths alone differ by too much the distance is
not computed. -/
def isMisspelling (word keyword : String) : Bool :=
  let limit := tolerance keyword.length
  word != keyword && 3 ≤ word.length &&
    max word.length keyword.length - min word.length keyword.length ≤ limit &&
    editDistance word keyword ≤ limit

end ScriptFrontend.Text
