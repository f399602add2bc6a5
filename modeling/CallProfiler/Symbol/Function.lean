import CallProfiler.Symbol.CompileUnit
import CallProfiler.Symbol.Demangle
import CallProfiler.Symbol.Frame

/-!
# Functions of a compile unit

Below the root of a unit stand its functions, and below a function the calls that were inlined into
it, which may hold inlined calls themselves.  An address lies in one function and, at every depth, in
at most one inlined call.
-/

namespace CallProfiler.Symbol

/-- Among ranges that start at or before an address the last one, if it holds the address.  Of ranges
that start together the later one in the list is the last. -/
def holding? {α : Type} (address : Nat) (ranges : List (Memory.Range × α)) : Option α :=
  let last := ranges.foldl (fun best (range, a) =>
    if range.start ≤ address ∧ best.all fun (b : Memory.Range × α) => b.1.start ≤ range.start then
      some (range, a)
    else best) none
  (last.filter fun (range, _) => address < range.finish).map (·.2)

namespace CompileUnit

/-- How many entries may complete one another. -/
def mostOrigins : Nat := 16

/-- The name of an entry that completes another one: its linkage name, or its name, or that of the
entry which it completes.  Nothing outside if an entry cannot be read. -/
def originName? (u : CompileUnit) : Nat → Value → Option (Option (List UInt8))
  | 0, _ => some none
  | fuel + 1, .entry offset => do
    let e ← u.entryAt? offset
    match e.values.findSome? fun (which, v) => if which = .linkageName then v.text? else none with
    | some name => return some name
    | none =>
      match e.last? .name Value.text? with
      | some name => return some name
      | none =>
        match e.last? .origin some with
        | none => return none
        | some origin => u.originName? fuel origin
  | _ + 1, _ => some none

/-- A name as its values are read one after the other: a linkage name counts always, others while
there is no name. -/
def nameOnto? (u : CompileUnit) (name : Option (List UInt8)) :
    Attribute × Value → Option (Option (List UInt8))
  | (.linkageName, v) => some (v.text?.or name)
  | (.name, v) => some (name.or v.text?)
  | (.origin, v) => if name.isSome then some name else u.originName? mostOrigins v
  | _ => some name

/-- The name of the entry of a function or of an inlined call. -/
def nameOf? (u : CompileUnit) (e : Entry) : Option (Option (List UInt8)) :=
  e.values.foldlM u.nameOnto? none

/-- The number of the language whose symbols are decoded. -/
def decodedLanguage : Nat := 0x1C

/-- A name as it is shown.  Symbols are decoded in units of the language that has them, and in units
of unknown language. -/
def shownName (u : CompileUnit) (name : List UInt8) : String :=
  let symbol := Text.lossy name
  if u.language.all (· = decodedLanguage) then (demangle? symbol).getD symbol else symbol

/-- A call that was inlined. -/
structure InlinedCall where
  name : Option (List UInt8)
  range : Option Memory.Range
  /-- How many inlined calls it lies in. -/
  depth : Nat
  /-- The number of the file that it was written in. -/
  file : Option Nat
  line : Option Nat
  deriving DecidableEq

/-- The inlined call of an entry; file and line zero stand for none. -/
def inlinedCall? (u : CompileUnit) (depth : Nat) (e : Entry) : Option InlinedCall :=
  (u.nameOf? e).map fun name =>
    { name, depth, range := e.range? u.frame.addressSize
      file := (e.values.reverse.findSome? fun (which, v) =>
        if which = .callFile then v.constant?.filter (· ≠ 0) else none)
      line := ((e.last? .callLine some).bind Value.constant?).bind fun n =>
        if n % 2 ^ 32 = 0 then none else some (n % 2 ^ 32) }

/-- The inlined calls among entries that follow the entry of a function.  Of every open entry it is
kept how many inlined calls its children lie in; nothing for a function of its own, whose calls do
not count.  Nothing outside if the entries end before the function does. -/
def inlinedCalls? (u : CompileUnit) : List (Option Nat) → List (Option Entry) →
    Option (List InlinedCall)
  | [], _ => some []
  | _ :: _, [] => none
  | _ :: outer, none :: rest => u.inlinedCalls? outer rest
  | level :: outer, some e :: rest =>
    let below :=
      match e.tag with
      | .function => none
      | .inlinedCall => level.map (· + 1)
      | .other => level
    let levels := if e.hasChildren then below :: level :: outer else level :: outer
    match level, e.tag with
    | some depth, .inlinedCall => do
      let call ← u.inlinedCall? depth e
      return call :: (← u.inlinedCalls? levels rest)
    | _, _ => u.inlinedCalls? levels rest

/-- A function with its name and the calls inlined into it. -/
structure Function where
  name : Option (List UInt8)
  calls : List InlinedCall
  deriving DecidableEq

/-- The functions with addresses, each with its entry and the entries that follow. -/
def functionEntries (u : CompileUnit) :
    List (Option Entry) → List (Memory.Range × Entry × List (Option Entry))
  | [] => []
  | none :: rest => u.functionEntries rest
  | some e :: rest =>
    match e.tag, e.range? u.frame.addressSize with
    | .function, some range => (range, e, rest) :: u.functionEntries rest
    | _, _ => u.functionEntries rest

/-- The function that starts with an entry. -/
def function? (u : CompileUnit) (e : Entry) (rest : List (Option Entry)) : Option Function := do
  return ⟨← u.nameOf? e, ← u.inlinedCalls? (if e.hasChildren then [some 0] else []) rest⟩

/-- The inlined call at an address and a depth. -/
def callAt? (calls : List InlinedCall) (address depth : Nat) : Option InlinedCall :=
  holding? address (calls.filterMap fun c =>
    if c.depth = depth then c.range.map fun range => (range, c) else none)

/-- The inlined calls at an address from the outermost inwards, as deep as there is one. -/
def callsAt (calls : List InlinedCall) (address : Nat) : List InlinedCall :=
  (((List.range calls.length).map (callAt? calls address)).takeWhile Option.isSome).filterMap id

/-- The place of the code at an address. -/
def placeAt? (u : CompileUnit) (address : Nat) : Option Place :=
  match u.lines with
  | .table table => do
    let s ← holding? address (table.sequences.map fun s => (s.range, s))
    let row ← (s.rows.filter (·.address ≤ address)).getLast?
    return ⟨table.path? row.file, if row.line = 0 then none else some row.line⟩
  | _ => none

/-- Where an inlined call was written. -/
def callPlace (u : CompileUnit) (c : InlinedCall) : Place := ⟨c.file.bind u.path?, c.line⟩

/-- The frames of a function at an address, the innermost first: each but the first lies where the
one before was called.  Functions without a name are left out. -/
def frames (u : CompileUnit) (f : Function) (place : Option Place) (address : Nat) : List Frame :=
  let calls := (callsAt f.calls address).reverse
  let names := calls.map (·.name) ++ [f.name]
  let places := place :: calls.map fun c => some (u.callPlace c)
  (names.zip places).filterMap fun (name, place) =>
    name.map fun name => ⟨u.shownName name, place⟩

/-- What a unit knows about an address: nothing if there is neither a function nor a place.  The
inner list is empty for a place without a function. -/
def framesAt? (u : CompileUnit) (address : Nat) : Option (List Frame) :=
  match u.entries, u.lines with
  | none, _ => some []
  | _, .unreadable => some []
  | some entries, _ =>
    let place := u.placeAt? address
    match holding? address (u.functionEntries entries) with
    | some (e, rest) =>
      match u.function? e rest with
      | none => some []
      | some f => some (u.frames f place address)
    | none => place.map fun _ => []

end CompileUnit

end CallProfiler.Symbol
