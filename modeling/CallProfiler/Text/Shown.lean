/-!
# Values shown as records

Values are shown for inspection as nested records: `Name { field: value, .. }`, `Name(value)` or a
plain word.  Quoted texts escape quotes, backslashes and what cannot be printed.
-/

namespace CallProfiler.Text

/-- A value as it is shown for inspection. -/
inductive Shown where
  | word (text : String)
  | call (name : String) (arguments : List Shown)
  | record (name : String) (fields : List (String × Shown)) (complete : Bool)

namespace Shown

mutual

/-- The text of a shown value. -/
def render : Shown → String
  | word text => text
  | call name arguments => name ++ "(" ++ renderArguments arguments ++ ")"
  | record name [] true => name
  | record name [] false => name ++ " \x7b .. \x7d"
  | record name fields true => name ++ " \x7b " ++ renderFields fields ++ " \x7d"
  | record name fields false => name ++ " \x7b " ++ renderFields fields ++ ", .. \x7d"

/-- Arguments with commas between them. -/
def renderArguments : List Shown → String
  | [] => ""
  | [v] => v.render
  | v :: rest => v.render ++ ", " ++ renderArguments rest

/-- Fields with commas between them. -/
def renderFields : List (String × Shown) → String
  | [] => ""
  | [(name, v)] => name ++ ": " ++ v.render
  | (name, v) :: rest => name ++ ": " ++ v.render ++ ", " ++ renderFields rest

end

/-- A value that may be missing. -/
def optional (v : Option Shown) : Shown :=
  match v with
  | none => word "None"
  | some v => call "Some" [v]

end Shown

end CallProfiler.Text
