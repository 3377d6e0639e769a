/-!
# JSON values

A number is kept as the digits that it was written with and the place of its decimal point, so that
a whole number can be told from one that was written with a fraction. The fields of an object keep
their order.
-/

namespace ScriptFrontend

/-- A JSON value. -/
inductive Json
  | null
  | bool (value : Bool)
  /-- The number `digits` times ten to the power of minus `places`. -/
  | num (digits : Int) (places : Nat)
  | str (value : String)
  | arr (items : List Json)
  | obj (fields : List (String × Json))

namespace Json

def ofNat (n : Nat) : Json := .num n 0

/-- An absent value is written as null. -/
def ofOption {α : Type} (encode : α → Json) : Option α → Json
  | none => .null
  | some a => encode a

/-- A value under a key of an object. -/
def field? (fields : List (String × Json)) (key : String) : Option Json := fields.lookup key

/-- Whether an object has none of these keys twice. -/
def hasOnce (keys : List String) (fields : List (String × Json)) : Bool :=
  keys.all fun key => (fields.map Prod.fst).count key ≤ 1

def text? : Json → Option String
  | .str s => some s
  | _ => none

/-- A 32-bit number, written without a fraction. -/
def word? : Json → Option UInt32
  | .num digits 0 =>
    if 0 ≤ digits ∧ digits < 4294967296 then some (.ofNat digits.toNat) else none
  | _ => none

/-- An optional value, which is absent if its field is missing or null. -/
def optional? {α : Type} (decode : Json → Option α) : Option Json → Option (Option α)
  | none => some none
  | some .null => some none
  | some j => (decode j).map some

@[simp] theorem field?_cons_self (key : String) (value : Json) (fields : List (String × Json)) :
    field? ((key, value) :: fields) key = some value := by
  simp [field?]

@[simp] theorem field?_cons_of_ne {key other : String} (ne : key ≠ other) (value : Json)
    (fields : List (String × Json)) :
    field? ((other, value) :: fields) key = field? fields key := by
  rw [field?, List.lookup_cons, beq_false_of_ne ne]
  rfl

theorem word?_ofNat (n : UInt32) : (ofNat n.toNat).word? = some n := by
  have := n.toNat_lt
  rw [ofNat, word?, if_pos ⟨by omega, by omega⟩]
  simp

end Json

end ScriptFrontend
