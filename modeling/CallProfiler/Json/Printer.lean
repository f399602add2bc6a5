import CallProfiler.Decimal.Shortest
import CallProfiler.Json.Quoted

/-!
# Writing documents

A document is written piece by piece, either without any blanks or with one line for every value and
indentation; its text is all pieces one after the other.
-/

namespace CallProfiler.Json

/-- Where blanks are put. -/
inductive Layout where
  | compact
  | indented
  deriving DecidableEq

/-- The start of a new line at a depth of nesting. -/
def Layout.newLine : Layout → Nat → List Char
  | compact, _ => []
  | indented, depth => '\n' :: List.replicate (2 * depth) ' '

/-- What stands between a name and its value. -/
def Layout.colon : Layout → List Char
  | compact => [':']
  | indented => [':', ' ']

/-- Numbers are written positionally from `0.00001` up to 16 digits in front of the point. -/
def decimalStyle : Decimal.Style := ⟨16, -4⟩

/-- The text of a number with decimals; what is no number is written as a missing value. -/
def decimalText (x : Float) : String :=
  match Decimal.Binary.ofBits x.toBits with
  | .finite negative 0 _ => if negative then "-0.0" else "0.0"
  | .finite negative magnitude exponent =>
    let (digits, e) := Decimal.shortest magnitude exponent
    (if negative then "-" else "") ++ Decimal.render decimalStyle digits e
  | _ => "null"

mutual

/-- The pieces of a document at a depth of nesting. -/
def pieces (layout : Layout) (depth : Nat) : Json → List (List Char)
  | integer n => [(toString n).toList]
  | decimal x => [(decimalText x).toList]
  | text s => [quoted s.toList]
  | list [] => [['[', ']']]
  | list (first :: rest) =>
    ['['] :: layout.newLine (depth + 1) :: pieces layout (depth + 1) first ++
      (morePieces layout depth rest ++ [layout.newLine depth, [']']])
  | record [] => [['\x7b', '\x7d']]
  | record ((name, value) :: rest) =>
    ['\x7b'] :: layout.newLine (depth + 1) :: quoted name.toList :: layout.colon ::
      pieces layout (depth + 1) value ++
      (moreFieldPieces layout depth rest ++ [layout.newLine depth, ['\x7d']])

/-- The pieces of the other values of a list. -/
def morePieces (layout : Layout) (depth : Nat) : List Json → List (List Char)
  | [] => []
  | value :: rest =>
    [','] :: layout.newLine (depth + 1) :: pieces layout (depth + 1) value ++
      morePieces layout depth rest

/-- The pieces of the other fields of a record. -/
def moreFieldPieces (layout : Layout) (depth : Nat) : List (String × Json) → List (List Char)
  | [] => []
  | (name, value) :: rest =>
    [','] :: layout.newLine (depth + 1) :: quoted name.toList :: layout.colon ::
      pieces layout (depth + 1) value ++ moreFieldPieces layout depth rest

end

/-- The text of a document. -/
def print (layout : Layout) (j : Json) : List Char := (j.pieces layout 0).flatten

end CallProfiler.Json
