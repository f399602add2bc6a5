import CallProfiler.Text.Blank

/-!
# Names from symbols

A symbol of the scheme read here holds the parts of a path, each behind its length, between `_ZN` and
`E`.  The last part may be a hash, which is left out; punctuation is written between dollar signs.
Symbols of any other form are names already.
-/

namespace CallProfiler.Symbol

/-- The characters behind the opening of a symbol. -/
def openSymbol? : List Char → Option (List Char)
  | '_' :: 'Z' :: 'N' :: rest => some rest
  | 'Z' :: 'N' :: rest => some rest
  | '_' :: '_' :: 'Z' :: 'N' :: rest => some rest
  | _ => none

/-- The number at the front, which fits in 64 bits, and the rest. -/
def lengthOf? (s : List Char) : Option (Nat × List Char) :=
  let (digits, rest) := s.span Char.isDigit
  let n := digits.foldl (fun n c => n * 10 + (c.toNat - 48)) 0
  if digits ≠ [] ∧ n < 2 ^ 64 then some (n, rest) else none

/-- The parts of a path up to its end, and what follows; at most `fuel` parts. -/
def pathParts? : Nat → List Char → Option (List (List Char) × List Char)
  | 0, _ => none
  | fuel + 1, s =>
    match s with
    | 'E' :: rest => some ([], rest)
    | s =>
      match lengthOf? s with
      | none => none
      | some (n, rest) =>
        let part := rest.take n
        if part.length < n then none
        else (pathParts? fuel (rest.drop n)).map fun (parts, rest) => (part :: parts, rest)

def isHexDigit (c : Char) : Bool :=
  c.isDigit || ('a' ≤ c && c ≤ 'f') || ('A' ≤ c && c ≤ 'F')

/-- The hash that tells versions of one function apart. -/
def isHash : List Char → Bool
  | 'h' :: digits => digits.all isHexDigit
  | _ => false

/-- What a name between dollar signs stands for. -/
def punctuation? (name : List Char) : Option Char :=
  match name with
  | ['S', 'P'] => some '@'
  | ['B', 'P'] => some '*'
  | ['R', 'F'] => some '&'
  | ['L', 'T'] => some '<'
  | ['G', 'T'] => some '>'
  | ['L', 'P'] => some '('
  | ['R', 'P'] => some ')'
  | ['C'] => some ','
  | 'u' :: digits =>
    let n := digits.foldl (fun n c =>
      n * 16 + (if c.isDigit then c.toNat - 48 else c.toNat - 87)) 0
    if digits ≠ [] ∧ digits.all (fun c => c.isDigit || ('a' ≤ c && c ≤ 'f')) ∧ n.isValidChar ∧
        32 ≤ n ∧ ¬ (127 ≤ n ∧ n ≤ 159) then
      some (Char.ofNat n)
    else none
  | _ => none

/-- A part of a path as it is read; from an escape that means nothing it is kept. -/
def readPart : Nat → List Char → List Char
  | 0, s => s
  | fuel + 1, s =>
    match s with
    | [] => []
    | '.' :: '.' :: rest => ':' :: ':' :: readPart fuel rest
    | '.' :: rest => '.' :: readPart fuel rest
    | '$' :: rest =>
      match Text.cutAt '$' rest with
      | none => s
      | some (name, after) =>
        match punctuation? name with
        | none => s
        | some c => c :: readPart fuel after
    | c :: rest => c :: readPart fuel rest

/-- An escape at the front of a part has an underscore before it. -/
def namePart (s : List Char) : List Char :=
  let s :=
    match s with
    | '_' :: '$' :: rest => '$' :: rest
    | s => s
  readPart s.length s

/-- The parts that are read: all but a hash at the end. -/
def namedParts : List (List Char) → List (List Char)
  | [] => []
  | [part] => if isHash part then [] else [part]
  | part :: rest => part :: namedParts rest

/-- Drops the mark of a symbol that was renamed when modules were joined. -/
def dropModuleMark (s : List Char) : List Char :=
  let mark := ".llvm.".toList
  let cut := (List.range (s.length + 1)).find? fun i => mark.isPrefixOf (s.drop i)
  match cut with
  | none => s
  | some i =>
    let isMark (c : Char) : Bool := c.isDigit || ('A' ≤ c && c ≤ 'F') || c = '@'
    if (s.drop (i + mark.length)).all isMark then s.take i else s

/-- What may follow a path: nothing, or words behind points. -/
def isEnding (s : List Char) : Bool :=
  match s with
  | [] => true
  | c :: _ => c = '.' && s.all fun c => 33 ≤ c.toNat && c.toNat ≤ 126

/-- The name in a symbol, if it is of this form. -/
def demangle? (symbol : String) : Option String :=
  let s := dropModuleMark symbol.toList
  match openSymbol? s with
  | none => none
  | some inner =>
    if inner.any (127 < ·.toNat) then none
    else
      match pathParts? (inner.length + 1) inner with
      | none => none
      | some (parts, ending) =>
        if isEnding ending then
          some ("::".intercalate ((namedParts parts).map fun p => String.ofList (namePart p)) ++
            String.ofList ending)
        else none

/-- The name in a symbol, or the symbol without its module mark. -/
def demangle (symbol : String) : String :=
  (demangle? symbol).getD (String.ofList (dropModuleMark symbol.toList))

end CallProfiler.Symbol
