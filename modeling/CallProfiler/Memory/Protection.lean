/-!
# Page protection

What may be done with a page, and its three-character text.
-/

namespace CallProfiler.Memory

/-- What may be done with a page. -/
structure Protection where
  read : Bool
  write : Bool
  execute : Bool
  deriving DecidableEq

namespace Protection

/-- Everything is allowed. -/
def all : Protection := ⟨true, true, true⟩

/-- Three characters, a dash for what is not allowed. -/
def text (p : Protection) : String :=
  String.ofList [if p.read then 'r' else '-', if p.write then 'w' else '-',
    if p.execute then 'x' else '-']

/-- What a text allows that names each right by its letter. -/
def ofLetters (s : String) : Protection :=
  ⟨s.contains 'r', s.contains 'w', s.contains 'x'⟩

end Protection

end CallProfiler.Memory
