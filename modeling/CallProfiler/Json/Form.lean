import CallProfiler.Json.Skip

/-!
# Forms of types

A form says how the values of a type are written as documents and how they are read back.  Records
are read from fields in any order, of which unknown ones are skipped and none may be missing or come
twice, or from a list of the values in the order of the fields.
-/

namespace CallProfiler.Json

/-- The fault of a value of the wrong kind: the value must at least be well formed as far as its kind
shows. -/
def refusal (s : List Char) : Fault :=
  let checked : Except Fault Unit :=
    match s with
    | [] => .error .truncated
    | c :: rest =>
      if c = '[' ∨ c = '\x7b' then .ok ()
      else if c = '"' then (readText rest).map fun _ => ()
      else if startsNumber c then (readNumber s).map fun _ => ()
      else (skipScalar s).map fun _ => ()
  match checked with
  | .error e => e
  | .ok () => .mismatched

/-- Reads an integer within bounds. -/
def readInteger (low high : Int) : Reader Int := fun s =>
  let s := skipBlanks s
  if s.head?.any startsNumber then
    match readNumber s with
    | .error e => .error e
    | .ok (.integer n, rest) => if low ≤ n ∧ n ≤ high then .ok (n, rest) else .error .mismatched
    | .ok (.fraction, _) => .error .mismatched
  else .error (refusal s)

/-- The next value of a list, if there is one: goes up to it, behind the comma. -/
def nextItem (first : Bool) (s : List Char) : Except Fault (Option (List Char)) :=
  match skipBlanks s with
  | [] => .error .truncated
  | c :: rest =>
    if c = ']' then .ok none
    else if first then .ok (some (c :: rest))
    else if c = ',' then
      match skipBlanks rest with
      | [] => .error .truncated
      | d :: rest => if d = ']' then .error .malformed else .ok (some (d :: rest))
    else .error .malformed

/-- The next name in a record, if there is one, and what follows it. -/
def nextName (first : Bool) (s : List Char) : Except Fault (Option (List Char × List Char)) :=
  match skipBlanks s with
  | [] => .error .truncated
  | c :: rest =>
    if c = '\x7d' then .ok none
    else if first then (readName (c :: rest)).map some
    else if c = ',' then (readName rest).map some
    else .error .malformed

/-- How a type is written and read. -/
structure Form (α : Type) where
  read : Reader α
  write : α → Json

namespace Form

variable {α β : Type}

/-- Integers within bounds. -/
def integer (low high : Int) : Form Int := ⟨readInteger low high, .integer⟩

/-- The form of a type whose values correspond to those of another. -/
def map (form : Form α) (f : α → β) (g : β → α) : Form β where
  read s := (form.read s).map fun (v, rest) => (f v, rest)
  write v := form.write (g v)

/-- Natural numbers of so many bits. -/
def natural (bits : Nat) : Form Nat := (integer 0 (2 ^ bits - 1)).map Int.toNat Int.ofNat

def uint64 : Form UInt64 := (natural 64).map UInt64.ofNat UInt64.toNat

/-- Integers of 64 bits with a sign. -/
def int64 : Form Int := integer (-2 ^ 63) (2 ^ 63 - 1)

/-- Reads the values of a list in front of its closing bracket; each takes a character or more, so
the text itself counts them. -/
def readItems (form : Form α) : List Char → Bool → List α → Reader (List α)
  | [], _, _, _ => .error .truncated
  | _ :: fuel, first, done, s =>
    match nextItem first s with
    | .error e => .error e
    | .ok none => .ok (done.reverse, s)
    | .ok (some s) =>
      match form.read s with
      | .error e => .error e
      | .ok (v, s) => readItems form fuel false (v :: done) s

/-- Lists of values. -/
def list (form : Form α) : Form (List α) where
  read s :=
    match skipBlanks s with
    | '[' :: rest =>
      match readItems form rest true [] rest with
      | .error e => .error e
      | .ok (items, rest) => (skipMark ']' rest).map (items, ·)
    | s => .error (refusal s)
  write items := .list (items.map form.write)

/-- Values known by their names, each of which may also be the only field of a record without a
value. -/
def choice [DecidableEq α] (names : List (String × α)) : Form α where
  read s :=
    let named (name : List Char) : Except Fault α :=
      match names.lookup (String.ofList name) with
      | some v => .ok v
      | none => .error .mismatched
    match skipBlanks s with
    | [] => .error .truncated
    | '"' :: rest => do
      let (name, rest) ← readText rest
      return (← named name, rest)
    | '\x7b' :: rest => do
      let rest := skipBlanks rest
      if rest.head? ≠ some '"' then throw (refusal rest)
      let (name, rest) ← readText (rest.drop 1)
      let v ← named name
      let rest := skipBlanks (← skipMark ':' rest)
      if rest.head? ≠ some 'n' then throw (refusal rest)
      let rest ← skipWord ['n', 'u', 'l', 'l'] rest
      return (v, ← skipMark '\x7d' rest)
    | _ => .error .malformed
  write v := .text (((names.find? fun (_, w) => w = v).map (·.1)).getD "")

end Form

/-- The fields of a record, whose values together are a value of the type. -/
inductive Fields : Type → Type 1 where
  | done : Fields Unit
  | field {α β : Type} (name : String) (form : Form α) (rest : Fields β) : Fields (α × β)

namespace Fields

/-- The values of the fields read so far. -/
def Slots : {ρ : Type} → Fields ρ → Type
  | _, .done => Unit
  | _, @field α _ _ _ rest => Option α × rest.Slots

/-- No field has been read. -/
def unread : {ρ : Type} → (f : Fields ρ) → f.Slots
  | _, .done => ()
  | _, .field _ _ rest => (none, rest.unread)

/-- Reads the value behind a name into its slot, or skips it if the name is unknown. -/
def accept : {ρ : Type} → (f : Fields ρ) → List Char → f.Slots → Reader f.Slots
  | _, .done, _, _ => fun s => do
    let rest ← skipMark ':' s
    return ((), ← skipValue rest)
  | _, @field α _ name form rest, key, slots => fun s =>
    let (slot, slots) : Option α × rest.Slots := slots
    if key = name.toList then do
      if slot.isSome then throw .mismatched
      let (v, s) ← form.read (← skipMark ':' s)
      return ((some v, slots), s)
    else do
      let (slots, s) ← rest.accept key slots s
      return ((slot, slots), s)

/-- The values of all fields, if none is missing. -/
def complete? : {ρ : Type} → (f : Fields ρ) → f.Slots → Option ρ
  | _, .done, _ => some ()
  | _, @field α _ _ _ rest, slots =>
    let (slot, slots) : Option α × rest.Slots := slots
    match slot, rest.complete? slots with
    | some v, some vs => some (v, vs)
    | _, _ => none

/-- Reads named values in front of the closing bracket; each takes a character or more, so the text
itself counts them. -/
def readNamed {ρ : Type} (f : Fields ρ) : List Char → Bool → f.Slots → Reader f.Slots
  | [], _, _, _ => .error .truncated
  | _ :: fuel, first, slots, s =>
    match nextName first s with
    | .error e => .error e
    | .ok none => .ok (slots, s)
    | .ok (some (key, s)) =>
      match f.accept key slots s with
      | .error e => .error e
      | .ok (slots, s) => readNamed f fuel false slots s

/-- Reads the values of all fields in their order. -/
def readListed : {ρ : Type} → Fields ρ → Bool → Reader ρ
  | _, .done, _ => fun s => .ok ((), s)
  | _, .field _ form rest, first => fun s => do
    match ← nextItem first s with
    | none => throw .mismatched
    | some s =>
      let (v, s) ← form.read s
      let (vs, s) ← rest.readListed false s
      return ((v, vs), s)

/-- The fields with their values. -/
def write : {ρ : Type} → Fields ρ → ρ → List (String × Json)
  | _, .done, _ => []
  | _, .field name form rest, (v, vs) => (name, form.write v) :: rest.write vs

end Fields

namespace Form

/-- Records with given fields. -/
def record {ρ : Type} (f : Fields ρ) : Form ρ where
  read s :=
    match skipBlanks s with
    | '[' :: rest => do
      let (v, rest) ← f.readListed true rest
      return (v, ← skipMark ']' rest)
    | '\x7b' :: rest => do
      let (slots, rest) ← f.readNamed rest true f.unread rest
      match f.complete? slots with
      | none => throw .mismatched
      | some v => return (v, ← skipMark '\x7d' rest)
    | s => .error (refusal s)
  write v := .record (f.write v)

/-- Reads a text that is one document and nothing else. -/
def parse {α : Type} (form : Form α) (s : List Char) : Except Fault α :=
  match form.read s with
  | .error e => .error e
  | .ok (v, rest) => if skipBlanks rest = [] then .ok v else .error .malformed

end Form

end CallProfiler.Json
