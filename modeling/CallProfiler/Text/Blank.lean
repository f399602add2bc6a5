import CallProfiler.Instances

/-!
# Blanks

The characters with the white-space property, and what texts have to do with them: trimming both
ends and splitting into words.  Texts are lists of characters here.
-/

namespace CallProfiler.Text

/-- The characters with the white-space property. -/
def isBlank (c : Char) : Bool :=
  let n := c.toNat
  (9 ≤ n && n ≤ 13) || n = 0x20 || n = 0x85 || n = 0xA0 || n = 0x1680 ||
    (0x2000 ≤ n && n ≤ 0x200A) || n = 0x2028 || n = 0x2029 || n = 0x202F || n = 0x205F || n = 0x3000

/-- Drops the blanks at both ends. -/
def trim (s : List Char) : List Char :=
  ((s.dropWhile isBlank).reverse.dropWhile isBlank).reverse

/-- The maximal runs without a separator, between separators; the first run may be empty. -/
def splitOn (separator : Char → Bool) : List Char → List (List Char)
  | [] => [[]]
  | c :: rest =>
    if separator c then [] :: splitOn separator rest
    else
      match splitOn separator rest with
      | [] => [[c]]
      | run :: runs => (c :: run) :: runs

/-- The words of a text: its maximal runs of characters that are not blank. -/
def words (s : List Char) : List (List Char) := (splitOn isBlank s).filter (!·.isEmpty)

/-- The lines of a text. -/
def lines (s : List Char) : List (List Char) := splitOn (· = '\n') s

/-- The text in front of the first `c` and the text behind it. -/
def cutAt (c : Char) : List Char → Option (List Char × List Char)
  | [] => none
  | d :: rest => if d = c then some ([], rest) else (cutAt c rest).map fun (a, b) => (d :: a, b)

end CallProfiler.Text
