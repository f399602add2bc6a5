import CallProfiler.Profile.Statistics

/-!
# Call trees

A node holds the statistics of one function as reached through one chain of callers.  Nodes are
numbered in order of creation; a node's callees are linked by address, in ascending order.
Main operations: `CallTree.entry` finds or makes a node, `CallTree.find?` follows a path,
`CallTree.merge` adds the nodes of another tree path by path, and `CallTree.totals` sums per function.
-/

namespace CallProfiler.Profile

/-- Numbers of nodes by callee, in ascending order of callees. -/
abbrev Links := List (UInt64 × Nat)

namespace Links

/-- The node linked under a callee. -/
def find? (callee : UInt64) : Links → Option Nat
  | [] => none
  | (c, id) :: rest => if c = callee then some id else find? callee rest

/-- Links a node under a callee, in its place. -/
def insert (callee : UInt64) (id : Nat) : Links → Links
  | [] => [(callee, id)]
  | (c, i) :: rest =>
    if callee < c then (callee, id) :: (c, i) :: rest
    else if c = callee then (c, id) :: rest
    else (c, i) :: insert callee id rest

end Links

/-- A function reached through one chain of callers. -/
structure CallNode where
  callee : UInt64
  statistics : Statistics
  callees : Links
  deriving DecidableEq

/-- Nodes by number, and the links to those without a caller. -/
structure CallTree where
  nodes : Array CallNode
  roots : Links
  deriving DecidableEq

/-- A call tree as a tree: a node with its subtrees, in ascending order of callees. -/
inductive CallBranch where
  | node (callee : UInt64) (statistics : Statistics) (callees : List CallBranch)

namespace CallTree

def empty : CallTree := ⟨#[], []⟩

/-- The number of nodes. -/
def size (t : CallTree) : Nat := t.nodes.size

/-- The node with a number. -/
def node? (t : CallTree) (id : Nat) : Option CallNode := t.nodes[id]?

/-- The links from a node, or to the roots. -/
def linksOf (t : CallTree) : Option Nat → Links
  | none => t.roots
  | some id => (t.nodes[id]?.map (·.callees)).getD []

/-- Replaces the statistics of a node by a function of them. -/
def modifyStatistics (t : CallTree) (id : Nat) (f : Statistics → Statistics) : CallTree :=
  { t with nodes := t.nodes.modify id fun n => { n with statistics := f n.statistics } }

/-- Links a node under a parent, or as a root. -/
def link (t : CallTree) (parent : Option Nat) (callee : UInt64) (id : Nat) : CallTree :=
  match parent with
  | none => { t with roots := t.roots.insert callee id }
  | some p => { t with nodes := t.nodes.modify p fun n => { n with callees := n.callees.insert callee id } }

/-- The node of a callee under a parent, or of a root; it is made if there is none. -/
def entry (t : CallTree) (parent : Option Nat) (callee : UInt64) : Nat × CallTree :=
  match (t.linksOf parent).find? callee with
  | some id => (id, t)
  | none =>
    let id := t.size
    (id, { t with nodes := t.nodes.push ⟨callee, .zero, []⟩ }.link parent callee id)

/-- The number of the node that a path leads to from a parent, the path counting from there. -/
def follow? (t : CallTree) : Option Nat → List UInt64 → Option Nat
  | parent, [] => parent
  | parent, callee :: rest =>
    match (t.linksOf parent).find? callee with
    | none => none
    | some id => follow? t (some id) rest

/-- The node that a path leads to from the roots. -/
def find? (t : CallTree) (path : List UInt64) : Option CallNode :=
  (t.follow? none path).bind t.node?

/-- Makes the nodes along a path below a parent and gives the last. -/
def entryPath (t : CallTree) : Option Nat → List UInt64 → Option Nat × CallTree
  | parent, [] => (parent, t)
  | parent, callee :: rest =>
    let (id, t) := t.entry parent callee
    entryPath t (some id) rest

/-- The branch below a node.  A link is followed if it leads to a node with a larger number, which
every link does that an operation makes. -/
def branch (t : CallTree) (callee : UInt64) (id : Nat) : CallBranch :=
  .node callee ((t.nodes[id]?.map (·.statistics)).getD .zero)
    ((t.linksOf (some id)).filterMap fun (c, child) =>
      if _forward : id < child ∧ child < t.size then some (branch t c child) else none)
termination_by t.size - id
decreasing_by omega

/-- The branches below the roots. -/
def branches (t : CallTree) : List CallBranch := t.roots.map fun (c, id) => t.branch c id

mutual

/-- Adds a branch below a parent: its node first, then the branches below it from the last to the
first. -/
def mergeBranch (parent : Option Nat) : CallBranch → CallTree → CallTree
  | .node callee statistics callees, t =>
    let (id, t) := t.entry parent callee
    mergeBranches (some id) callees (t.modifyStatistics id (·.merge statistics))

/-- Adds branches below a parent, the last one first. -/
def mergeBranches (parent : Option Nat) : List CallBranch → CallTree → CallTree
  | [], t => t
  | b :: rest, t => mergeBranch parent b (mergeBranches parent rest t)

end

/-- Adds every node of another tree onto the node with the same path here. -/
def merge (t other : CallTree) : CallTree := mergeBranches none other.branches t

end CallTree

/-- Statistics by callee, in ascending order of callees. -/
abbrev Totals := List (UInt64 × Statistics)

/-- Adds statistics to those of a callee. -/
def Totals.add (callee : UInt64) (s : Statistics) : Totals → Totals
  | [] => [(callee, Statistics.zero.merge s)]
  | (c, u) :: rest =>
    if callee < c then (callee, Statistics.zero.merge s) :: (c, u) :: rest
    else if c = callee then (c, u.merge s) :: rest
    else (c, u) :: add callee s rest

/-- Statistics of every function, whatever path it was reached by. -/
def CallTree.totals (t : CallTree) : Totals :=
  t.nodes.foldl (fun totals n => Totals.add n.callee n.statistics totals) []

namespace CallBranch

mutual

/-- The nodes of a branch, each before those below it, with their depths. -/
def preorder (depth : Nat) : CallBranch → List (Nat × UInt64 × Statistics)
  | .node callee statistics callees => (depth, callee, statistics) :: preorderList (depth + 1) callees

/-- The nodes of branches in order. -/
def preorderList (depth : Nat) : List CallBranch → List (Nat × UInt64 × Statistics)
  | [] => []
  | b :: rest => preorder depth b ++ preorderList depth rest

end

end CallBranch

end CallProfiler.Profile
