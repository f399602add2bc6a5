import CallProfiler.Proofs.CallTree.Branches
import CallProfiler.Proofs.Json.Documents
import CallProfiler.Proofs.Text.Hex
import CallProfiler.Report.Export
import CallProfiler.Text.Integer

/-!
# Reading a report

A report is read from the document that its text holds, strictly: every record must have its own
fields, in their order, and nothing else.  What is read is what was written.

**Main statements.**
* `Entry.readAll?_callDocuments`: the entries of branches.
* `Contents.read?_exportText`: all of a report.
-/

namespace CallProfiler.Report

open Profile Json

/-! ## What a report holds -/

/-- What the report says of a call and of those made by it. -/
inductive Entry where
  | call (address : UInt64) (name : Option String) (statistics : Statistics) (callees : List Entry)

/-- What the report says of a function. -/
structure Ranking where
  address : UInt64
  name : Option String
  statistics : Statistics
  percentage : String
  deriving DecidableEq

/-- All of a report. -/
structure Contents where
  overhead : Overhead
  threads : List (UInt64 × List Entry)
  hotspots : List Ranking

/-! ## Readers -/

/-- An integer of any size. -/
def readInteger? : Value → Option Int
  | .plain spelling =>
    match spelling.toList with
    | '-' :: digits => (Text.readDigits? digits).map fun n : Nat => -(n : Int)
    | digits => (Text.readDigits? digits).map fun n : Nat => (n : Int)
  | _ => none

def readNatural? (v : Value) : Option Nat := ((readInteger? v).filter (0 ≤ ·)).map Int.toNat

/-- The number of a thread. -/
def readThread? (v : Value) : Option UInt64 := ((readNatural? v).filter (· < 2 ^ 64)).map UInt64.ofNat

/-- An address, written in hexadecimal. -/
def readAddress? : Value → Option UInt64
  | .text s =>
    match s.toList with
    | '0' :: 'x' :: digits => (Text.readHex digits).toOption.map UInt64.ofNat
    | _ => none
  | _ => none

def readOverhead? : Value → Option Overhead
  | .record [("inner", inner), ("outer", outer)] => do
    return ⟨← readInteger? inner, ← readInteger? outer⟩
  | _ => none

def readStatistics? : Value → Option Statistics
  | .record [("times_called", calls), ("max_reentrance", reentrance), ("inclusive_time", inclusive),
      ("exclusive_time", exclusive), ("max_call_time", longest)] => do
    return ⟨← readNatural? calls, ← readNatural? reentrance, ← readInteger? inclusive,
      ← readInteger? exclusive, ← readInteger? longest⟩
  | _ => none

mutual

/-- An entry, of which the name and the callees can be left out. -/
def Entry.read? : Value → Option Entry
  | .record [("address", address), ("statistics", statistics)] => do
    return .call (← readAddress? address) none (← readStatistics? statistics) []
  | .record [("address", address), ("name", .text name), ("statistics", statistics)] => do
    return .call (← readAddress? address) (some name) (← readStatistics? statistics) []
  | .record [("address", address), ("statistics", statistics), ("callees", .list callees)] => do
    return .call (← readAddress? address) none (← readStatistics? statistics) (← Entry.readAll? callees)
  | .record [("address", address), ("name", .text name), ("statistics", statistics),
      ("callees", .list callees)] => do
    return .call (← readAddress? address) (some name) (← readStatistics? statistics)
      (← Entry.readAll? callees)
  | _ => none

def Entry.readAll? : List Value → Option (List Entry)
  | [] => some []
  | v :: rest => do
    return (← Entry.read? v) :: (← Entry.readAll? rest)

end

def readThreadEntries? : Value → Option (UInt64 × List Entry)
  | .record [("thread_id", thread), ("calls", .list calls)] => do
    return (← readThread? thread, ← Entry.readAll? calls)
  | _ => none

def Ranking.read? : Value → Option Ranking
  | .record [("address", address), ("statistics", statistics), ("percentage", .plain percentage)] => do
    return ⟨← readAddress? address, none, ← readStatistics? statistics, percentage⟩
  | .record [("address", address), ("name", .text name), ("statistics", statistics),
      ("percentage", .plain percentage)] => do
    return ⟨← readAddress? address, some name, ← readStatistics? statistics, percentage⟩
  | _ => none

def Contents.ofValue? : Value → Option Contents
  | .record [("overhead", overhead), ("threads", .list threads), ("hotspots", .list hotspots)] => do
    return ⟨← readOverhead? overhead, ← threads.mapM readThreadEntries?, ← hotspots.mapM Ranking.read?⟩
  | _ => none

/-- Reads a text that is one document and a new line. -/
def Contents.read? (text : List Char) : Option Contents :=
  if text.getLast? = some '\n' then (Value.parse text.dropLast).toOption.bind Contents.ofValue? else none

/-! ## What is written is read -/

theorem readDigits?_toDigits
    (n : Nat) :
    Text.readDigits? (Nat.toDigits 10 n) = some n := by
  have hdigits : (Nat.toDigits 10 n).all Char.isDigit = true := by
    rw [List.all_eq_true]
    exact fun _ => Nat.isDigit_of_mem_toDigits (by decide) (Nat.le_refl 10)
  rw [Text.readDigits?, if_pos ⟨Nat.toDigits_ne_nil, hdigits⟩]
  exact congrArg some (valueOf_toDigits n)

theorem readInteger?_content
    (n : Int) :
    readInteger? (content (.integer n)) = some n := by
  simp only [content, readInteger?, toList_toString_int]
  by_cases hneg : n < 0
  · have hvalue : -(n.natAbs : Int) = n := by omega
    simp only [if_pos hneg, readDigits?_toDigits, Option.map_some, hvalue]
  · obtain ⟨c, more, hfirst, hc⟩ := head_toDigits n.natAbs
    have hvalue : (n.natAbs : Int) = n := by omega
    rw [if_neg hneg]
    split
    next heq =>
      rw [hfirst] at heq
      exact absurd (List.cons.inj heq).1 (ne_minus_of_isDigit hc)
    next =>
      rw [readDigits?_toDigits, Option.map_some, hvalue]

theorem readNatural?_content
    (n : Nat) :
    readNatural? (content (.integer n)) = some n := by
  simp [readNatural?, readInteger?_content, Option.filter]

theorem readThread?_content
    (thread : UInt64) :
    readThread? (content (.integer thread.toNat)) = some thread := by
  have hlt := thread.toNat_lt
  simp [readThread?, readNatural?_content, Option.filter, hlt]

theorem readAddress?_addressText
    (address : UInt64) :
    readAddress? (.text (addressText address)) = some address := by
  have htext : (addressText address).toList = '0' :: 'x' :: Text.hexDigits address.toNat := by
    simp [addressText, Text.hex]
  simp only [readAddress?, htext, Text.readHex_hexDigits address.toNat_lt, Except.toOption,
    Option.map_some, UInt64.ofNat_toNat]

theorem readOverhead?_content
    (o : Overhead) :
    readOverhead? (content (Overhead.form.write o)) = some o := by
  have hwrite : Overhead.form.write o =
      .record [("inner", .integer o.inner), ("outer", .integer o.outer)] := rfl
  simp only [hwrite, content_record, members, readOverhead?, readInteger?_content]
  rfl

theorem readStatistics?_content
    (s : Statistics) :
    readStatistics? (content (Statistics.form.write s)) = some s := by
  have hwrite : Statistics.form.write s =
      .record [("times_called", .integer (s.timesCalled : Nat)),
        ("max_reentrance", .integer (s.maxReentrance : Nat)), ("inclusive_time", .integer s.inclusiveTime),
        ("exclusive_time", .integer s.exclusiveTime), ("max_call_time", .integer s.maxCallTime)] := rfl
  simp only [hwrite, content_record, members, readStatistics?, readInteger?_content,
    readNatural?_content]
  rfl

mutual

/-- The entry of a branch. -/
def Entry.ofBranch (names : Names) : CallBranch → Entry
  | .node callee statistics callees =>
    .call callee (names callee) statistics (Entry.ofBranches names callees)

def Entry.ofBranches (names : Names) : List CallBranch → List Entry
  | [] => []
  | b :: rest => Entry.ofBranch names b :: Entry.ofBranches names rest

end

mutual

/-- A branch is read as it was written. -/
theorem Entry.read?_callDocument
    (names : Names) :
    ∀ b : CallBranch, Entry.read? (content (callDocument names b)) = some (Entry.ofBranch names b)
  | .node callee statistics callees => by
      have hcallees := Entry.readAll?_callDocuments names callees
      rw [callDocument, functionFields, Entry.ofBranch]
      cases callees with
      | nil =>
          rw [callDocuments, Entry.ofBranches]
          cases names callee <;>
            simp only [List.cons_append, List.nil_append, content_record, content_text, members,
              Entry.read?, readAddress?_addressText, readStatistics?_content] <;>
            rfl
      | cons b rest =>
          rw [callDocuments] at hcallees ⊢
          cases names callee <;>
            simp only [List.cons_append, List.nil_append, content_record, content_text, content_list,
              members, Entry.read?, readAddress?_addressText, readStatistics?_content, hcallees] <;>
            rfl

/-- **The entries of branches** are read as they were written. -/
theorem Entry.readAll?_callDocuments
    (names : Names) :
    ∀ branches : List CallBranch,
      Entry.readAll? (contents (callDocuments names branches)) = some (Entry.ofBranches names branches)
  | [] => by
      rw [callDocuments, contents, Entry.readAll?, Entry.ofBranches]
  | b :: rest => by
      rw [callDocuments, contents, Entry.readAll?, Entry.ofBranches, Entry.read?_callDocument names b,
        Entry.readAll?_callDocuments names rest]
      rfl

end

/-- What a report holds of a hotspot. -/
def Ranking.of (names : Names) (h : Hotspot) : Ranking :=
  ⟨h.address, names h.address, h.statistics, decimalText h.percentage⟩

/-- What the report on an analysis holds. -/
def Contents.of (names : Names) (a : Analysis) : Contents where
  overhead := a.overhead
  threads := a.threads.map fun t => (t.1, Entry.ofBranches names t.2.tree.branches)
  hotspots := (Hotspot.ofTree a.merged).map (Ranking.of names)

theorem readThreadEntries?_content
    (names : Names) (thread : UInt64) (t : CallTree) :
    readThreadEntries? (content (threadDocument names thread t)) =
      some (thread, Entry.ofBranches names t.branches) := by
  have hcalls := Entry.readAll?_callDocuments names t.branches
  simp only [threadDocument, content_record, content_list, members, readThreadEntries?,
    readThread?_content, hcalls]
  rfl

theorem Ranking.read?_content
    (names : Names) (h : Hotspot) :
    Ranking.read? (content (hotspotDocument names h)) = some (Ranking.of names h) := by
  rw [hotspotDocument, functionFields, Ranking.of]
  cases names h.address <;>
    simp only [List.cons_append, List.nil_append, content_record, content_text, content_decimal, members,
      Ranking.read?, readAddress?_addressText, readStatistics?_content] <;>
    rfl

/-- A list whose values are read as they were written. -/
theorem mapM_contents
    {α β : Type} {read : Value → Option β} {write : α → Json} {f : α → β}
    (h : ∀ x, read (content (write x)) = some (f x))
    (l : List α) :
    (contents (l.map write)).mapM read = some (l.map f) := by
  induction l with
  | nil =>
      rfl
  | cons x rest ih =>
      rw [List.map_cons, contents, List.mapM_cons, h, ih]
      rfl

theorem Contents.ofValue?_content
    (names : Names) (a : Analysis) :
    Contents.ofValue? (content (document names a)) = some (Contents.of names a) := by
  have hthreads := mapM_contents (fun t : UInt64 × ThreadProfile =>
    readThreadEntries?_content names t.1 t.2.tree) a.threads
  have hhotspots := mapM_contents (Ranking.read?_content names) (Hotspot.ofTree a.merged)
  simp only [document, content_record, content_list, members, Contents.ofValue?,
    readOverhead?_content, hthreads, hhotspots]
  rfl

/-- **All of a report** is read as it was written. -/
theorem Contents.read?_exportText
    (names : Names) (a : Analysis) :
    Contents.read? (exportText names a) = some (Contents.of names a) := by
  have hparse := Value.parse_print (document names a) .indented
  rw [Contents.read?, exportText, List.getLast?_concat, if_pos rfl, List.dropLast_concat, hparse]
  exact Contents.ofValue?_content names a

/-! ## The nodes that entries stand for -/

/-- What an entry says of its node, with the addresses from the outermost entry down to its own. -/
structure Line where
  path : List UInt64
  name : Option String
  statistics : Statistics
  deriving DecidableEq

namespace Entry

def address : Entry → UInt64
  | .call address _ _ _ => address

def callees : Entry → List Entry
  | .call _ _ _ callees => callees

mutual

/-- The lines of an entry and of those below it. -/
def lines (callers : List UInt64) : Entry → List Line
  | .call address name statistics callees =>
    ⟨callers ++ [address], name, statistics⟩ :: allLines (callers ++ [address]) callees

def allLines (callers : List UInt64) : List Entry → List Line
  | [] => []
  | e :: rest => lines callers e ++ allLines callers rest

end

/-- Siblings stand in ascending order of their addresses, at every depth. -/
inductive Ascending : List Entry → Prop
  | intro {entries : List Entry} :
      entries.Pairwise (fun e e' => e.address < e'.address) →
      (∀ e ∈ entries, Ascending e.callees) →
      Ascending entries

mutual

theorem lines_ofBranch
    (names : Names) :
    ∀ (b : CallBranch) (callers : List UInt64),
      (ofBranch names b).lines callers =
        (b.listing callers).map fun l => ⟨l.1, l.1.getLast?.bind names, l.2⟩
  | .node callee statistics callees, callers => by
      rw [ofBranch, lines, CallBranch.listing, allLines_ofBranches names callees, List.map_cons,
        List.getLast?_concat]
      rfl

theorem allLines_ofBranches
    (names : Names) :
    ∀ (branches : List CallBranch) (callers : List UInt64),
      allLines callers (ofBranches names branches) =
        (CallBranch.listingAll callers branches).map fun l => ⟨l.1, l.1.getLast?.bind names, l.2⟩
  | [], _ => rfl
  | b :: rest, callers => by
      rw [ofBranches, allLines, CallBranch.listingAll, lines_ofBranch names b,
        allLines_ofBranches names rest, List.map_append]

end

theorem ofBranches_eq_map
    (names : Names) (branches : List CallBranch) :
    ofBranches names branches = branches.map (ofBranch names) := by
  induction branches with
  | nil => rfl
  | cons b rest ih => rw [ofBranches, ih, List.map_cons]

theorem ascending_ofBranches
    (names : Names) {branches : List CallBranch}
    (h : CallBranch.Ascending branches) :
    Ascending (ofBranches names branches) := by
  induction h with
  | @intro branches hsiblings _ ih =>
      rw [ofBranches_eq_map]
      refine Ascending.intro ?_ ?_
      · refine List.pairwise_map.2 (hsiblings.imp ?_)
        rintro ⟨callee, _, _⟩ ⟨callee', _, _⟩ hlt
        exact hlt
      · intro e he
        obtain ⟨b, hb, rfl⟩ := List.mem_map.1 he
        have hbelow := ih b hb
        cases b
        exact hbelow

/-- The paths and statistics that entries hold are those of the branches. -/
theorem map_allLines_ofBranches
    (names : Names) (branches : List CallBranch) :
    (allLines [] (ofBranches names branches)).map (fun l => (l.path, l.statistics)) =
      CallBranch.listingAll [] branches := by
  rw [allLines_ofBranches, List.map_map]
  exact List.map_id _

end Entry

end CallProfiler.Report
