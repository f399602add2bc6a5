import CallProfiler.Decimal.Fixed
import CallProfiler.Profile.Hotspot

/-!
# The table of hotspots

One line per function under a header and a rule; columns are padded to fixed widths, counted in
characters.
-/

namespace CallProfiler.Report

open Profile

/-- Fills a text up on the right. -/
def padRight (width : Nat) (s : String) : String :=
  s ++ String.ofList (List.replicate (width - s.length) ' ')

/-- Fills a text up on the left. -/
def padLeft (width : Nat) (s : String) : String :=
  String.ofList (List.replicate (width - s.length) ' ') ++ s

/-- Characters of the name column. -/
def nameWidth : Nat := 32

/-- A name cut to its column, with a mark if anything is cut off. -/
def fitName (name : String) : String :=
  if nameWidth < name.length then String.ofList (name.toList.take (nameWidth - 1)) ++ "…" else name

/-- A line of the table. -/
def tableLine (name calls share exclusive inclusive longest : String) : String :=
  s!"{padRight nameWidth name} {padLeft 10 calls} {padLeft 7 share} {padLeft 14 exclusive} " ++
    s!"{padLeft 14 inclusive} {padLeft 12 longest}\n"

def tableHeader : String :=
  tableLine "FUNCTION" "CALLS" "EXCL%" "EXCLUSIVE" "INCLUSIVE" "MAX" ++
    String.ofList (List.replicate 94 '─') ++ "\n"

/-- The line of a hotspot; shares have one decimal. -/
def hotspotLine (h : Hotspot) : String :=
  let s := h.statistics
  tableLine (fitName h.displayName) (toString s.timesCalled)
    (padLeft 6 (Decimal.fixed 1 h.percentage) ++ "%") (toString s.exclusiveTime)
    (toString s.inclusiveTime) (toString s.maxCallTime)

/-- The table of the first `top` hotspots, with a count of the others. -/
def table (hotspots : List Hotspot) (top : Nat) : String :=
  tableHeader ++ String.join ((hotspots.take top).map hotspotLine) ++
    (if top < hotspots.length then s!"... {hotspots.length - top} more\n" else "")

end CallProfiler.Report
