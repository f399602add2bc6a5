import CallProfiler.Json.Form
import CallProfiler.Proofs.Json.Scalars

/-!
# The text of a document

The pieces that a document is written in, one after the other, are its text.  In either layout a list
or record is its parts between brackets, with commas between them and blanks only where readers skip
them.

**Main statements.**
* `spelled_list_cons`, `spelled_record_cons`: the text of a list or record by its parts.
* `nextItem_more`, `nextItem_end`: what a reader finds behind a value of a list.
* `nextName_more`, `nextName_end`: what it finds behind a value of a record.
-/

namespace CallProfiler.Json

/-! ## Texts by parts -/

/-- The text of a document at a depth of nesting. -/
def spelled (layout : Layout) (depth : Nat) (j : Json) : List Char := (j.pieces layout depth).flatten

/-- The text of the other values of a list. -/
def spelledItems (layout : Layout) (depth : Nat) (items : List Json) : List Char :=
  (morePieces layout depth items).flatten

/-- The text of the other fields of a record. -/
def spelledFields (layout : Layout) (depth : Nat) (fields : List (String × Json)) : List Char :=
  (moreFieldPieces layout depth fields).flatten

/-- The text of a name with its value. -/
def spelledField (layout : Layout) (depth : Nat) (name : String) (value : Json) : List Char :=
  quoted name.toList ++ (layout.colon ++ spelled layout depth value)

variable {layout : Layout} {depth : Nat}

theorem spelled_integer
    (n : Int) :
    spelled layout depth (.integer n) = (toString n).toList := by
  simp [spelled, pieces]

theorem spelled_decimal
    (x : Float) :
    spelled layout depth (.decimal x) = (decimalText x).toList := by
  simp [spelled, pieces]

theorem spelled_text
    (s : String) :
    spelled layout depth (.text s) = quoted s.toList := by
  simp [spelled, pieces]

theorem spelled_list_nil :
    spelled layout depth (.list []) = ['[', ']'] := by
  simp [spelled, pieces]

theorem spelled_list_cons
    (first : Json) (rest : List Json) :
    spelled layout depth (.list (first :: rest)) =
      '[' :: (layout.newLine (depth + 1) ++ (spelled layout (depth + 1) first ++
        (spelledItems layout depth rest ++ (layout.newLine depth ++ [']'])))) := by
  simp [spelled, spelledItems, pieces]

theorem spelledItems_nil :
    spelledItems layout depth [] = [] := by
  simp [spelledItems, morePieces]

theorem spelledItems_cons
    (value : Json) (rest : List Json) :
    spelledItems layout depth (value :: rest) =
      ',' :: (layout.newLine (depth + 1) ++ (spelled layout (depth + 1) value ++
        spelledItems layout depth rest)) := by
  simp [spelledItems, spelled, morePieces]

theorem spelled_record_nil :
    spelled layout depth (.record []) = ['\x7b', '\x7d'] := by
  simp [spelled, pieces]

theorem spelled_record_cons
    (name : String) (value : Json) (rest : List (String × Json)) :
    spelled layout depth (.record ((name, value) :: rest)) =
      '\x7b' :: (layout.newLine (depth + 1) ++ (spelledField layout (depth + 1) name value ++
        (spelledFields layout depth rest ++ (layout.newLine depth ++ ['\x7d'])))) := by
  simp [spelled, spelledFields, spelledField, pieces]

theorem spelledFields_nil :
    spelledFields layout depth [] = [] := by
  simp [spelledFields, moreFieldPieces]

theorem spelledFields_cons
    (name : String) (value : Json) (rest : List (String × Json)) :
    spelledFields layout depth ((name, value) :: rest) =
      ',' :: (layout.newLine (depth + 1) ++ (spelledField layout (depth + 1) name value ++
        spelledFields layout depth rest)) := by
  simp [spelledFields, spelledField, spelled, moreFieldPieces]

/-! ## Blanks -/

/-- Only blanks. -/
def Blank (s : List Char) : Prop := ∀ c ∈ s, isBlank c = true

theorem blank_nil :
    Blank [] := by
  simp [Blank]

theorem blank_newLine
    (layout : Layout) (depth : Nat) :
    Blank (layout.newLine depth) := by
  intro c hc
  cases layout with
  | compact =>
      cases hc
  | indented =>
      rcases List.mem_cons.1 hc with rfl | hc
      · rfl
      · rw [List.eq_of_mem_replicate hc]
        rfl

/-- Behind a name comes a colon, and then blanks at most. -/
theorem exists_colon
    (layout : Layout) :
    ∃ blanks, layout.colon = ':' :: blanks ∧ Blank blanks := by
  cases layout with
  | compact => exact ⟨[], rfl, blank_nil⟩
  | indented => exact ⟨[' '], rfl, by simp [Blank, isBlank]⟩

theorem skipBlanks_append
    {blanks : List Char}
    (h : Blank blanks)
    (s : List Char) :
    skipBlanks (blanks ++ s) = skipBlanks s :=
  List.dropWhile_append_of_pos h

theorem skipBlanks_cons
    {c : Char}
    (h : isBlank c = false)
    (s : List Char) :
    skipBlanks (c :: s) = c :: s := by
  simp [skipBlanks, h]

/-- Up to the first character that is no blank. -/
theorem skipBlanks_append_cons
    {blanks : List Char} {c : Char}
    (h : Blank blanks)
    (hc : isBlank c = false)
    (s : List Char) :
    skipBlanks (blanks ++ c :: s) = c :: s := by
  rw [skipBlanks_append h, skipBlanks_cons hc]

theorem skipMark_append
    {blanks : List Char}
    (h : Blank blanks)
    (mark : Char)
    (hmark : isBlank mark = false)
    (s : List Char) :
    skipMark mark (blanks ++ mark :: s) = .ok s := by
  simp [skipMark, skipBlanks_append_cons h hmark]

/-- A blank continues no number. -/
theorem ends_append
    {blanks : List Char}
    (h : Blank blanks)
    {rest : List Char}
    (hrest : Ends rest) :
    Ends (blanks ++ rest) := by
  cases blanks with
  | nil =>
      exact hrest
  | cons c more =>
      have hc : isBlank c = true := h c List.mem_cons_self
      simp only [isBlank, Bool.or_eq_true, decide_eq_true_eq] at hc
      rcases hc with ((rfl | rfl) | rfl) | rfl <;>
        exact ends_cons (by decide) (by decide) (by decide) _

/-! ## The first character -/

/-- What a document can start with: neither a blank nor a closing bracket. -/
def Starts (c : Char) : Prop := isBlank c = false ∧ c ≠ ']' ∧ c ≠ '\x7d'

theorem starts_of_startsNumber
    {c : Char}
    (h : startsNumber c = true) :
    Starts c := by
  simp only [startsNumber, isDigit, Bool.or_eq_true, Bool.and_eq_true, decide_eq_true_eq] at h
  have hne : ∀ d : Char, d ≠ '-' → ¬ (48 ≤ d.toNat ∧ d.toNat ≤ 57) → c ≠ d := by
    rintro d hminus hdigit rfl
    exact h.elim hminus hdigit
  have hblank : isBlank c = false := by
    simp only [isBlank, Bool.or_eq_false_iff, decide_eq_false_iff_not]
    exact ⟨⟨⟨hne _ (by decide) (by decide), hne _ (by decide) (by decide)⟩,
      hne _ (by decide) (by decide)⟩, hne _ (by decide) (by decide)⟩
  exact ⟨hblank, hne _ (by decide) (by decide), hne _ (by decide) (by decide)⟩

/-! ## Between the values of a list -/

/-- The first value of a list. -/
theorem nextItem_first
    {blanks : List Char} {c : Char}
    (h : Blank blanks)
    (hc : Starts c)
    (s : List Char) :
    nextItem true (blanks ++ c :: s) = .ok (some (c :: s)) := by
  simp [nextItem, skipBlanks_append_cons h hc.1, hc.2.1]

/-- Another value, behind its comma. -/
theorem nextItem_more
    {blanks : List Char} {c : Char}
    (h : Blank blanks)
    (hc : Starts c)
    (s : List Char) :
    nextItem false (',' :: (blanks ++ c :: s)) = .ok (some (c :: s)) := by
  have hcomma : skipBlanks (',' :: (blanks ++ c :: s)) = ',' :: (blanks ++ c :: s) :=
    skipBlanks_cons (by decide) _
  simp [nextItem, hcomma, skipBlanks_append_cons h hc.1, hc.2.1]

/-- No other value. -/
theorem nextItem_end
    {blanks : List Char}
    (h : Blank blanks)
    (first : Bool) (s : List Char) :
    nextItem first (blanks ++ ']' :: s) = .ok none := by
  have hbracket : skipBlanks (blanks ++ ']' :: s) = ']' :: s :=
    skipBlanks_append_cons h (by decide) s
  simp [nextItem, hbracket]

/-! ## Between the fields of a record -/

theorem readName_quoted
    {blanks : List Char}
    (h : Blank blanks)
    (name s : List Char) :
    readName (blanks ++ (quoted name ++ s)) = .ok (name, s) := by
  have hquote : skipBlanks (blanks ++ (quoted name ++ s)) = '"' :: (name.flatMap escape ++ '"' :: s) := by
    have hopen : quoted name ++ s = '"' :: (name.flatMap escape ++ '"' :: s) := by
      simp [quoted]
    rw [hopen, skipBlanks_append_cons h (by decide)]
  simp [readName, hquote, readText_escape]

/-- The name of the first field. -/
theorem nextName_first
    {blanks : List Char}
    (h : Blank blanks)
    (name s : List Char) :
    nextName true (blanks ++ (quoted name ++ s)) = .ok (some (name, s)) := by
  have hopen : quoted name ++ s = '"' :: (name.flatMap escape ++ '"' :: s) := by
    simp [quoted]
  have hread := readName_quoted blank_nil name s
  rw [List.nil_append, hopen] at hread
  have hquote : skipBlanks (blanks ++ (quoted name ++ s)) = '"' :: (name.flatMap escape ++ '"' :: s) := by
    rw [hopen, skipBlanks_append_cons h (by decide)]
  simp [nextName, hquote, hread, Except.map]

/-- The name of another field, behind its comma. -/
theorem nextName_more
    {blanks : List Char}
    (h : Blank blanks)
    (name s : List Char) :
    nextName false (',' :: (blanks ++ (quoted name ++ s))) = .ok (some (name, s)) := by
  have hcomma : skipBlanks (',' :: (blanks ++ (quoted name ++ s))) =
      ',' :: (blanks ++ (quoted name ++ s)) :=
    skipBlanks_cons (by decide) _
  simp [nextName, hcomma, readName_quoted h name s, Except.map]

/-- No other field. -/
theorem nextName_end
    {blanks : List Char}
    (h : Blank blanks)
    (first : Bool) (s : List Char) :
    nextName first (blanks ++ '\x7d' :: s) = .ok none := by
  have hbracket : skipBlanks (blanks ++ '\x7d' :: s) = '\x7d' :: s :=
    skipBlanks_append_cons h (by decide) s
  simp [nextName, hbracket]

/-! ## What follows a value -/

theorem ends_items
    (layout : Layout) (depth : Nat) (items : List Json) (s : List Char) :
    Ends (spelledItems layout depth items ++ (layout.newLine depth ++ ']' :: s)) := by
  cases items with
  | nil =>
      rw [spelledItems_nil]
      exact ends_append (blank_newLine layout depth)
        (ends_cons (by decide) (by decide) (by decide) _)
  | cons value rest =>
      rw [spelledItems_cons]
      exact ends_cons (by decide) (by decide) (by decide) _

theorem ends_fields
    (layout : Layout) (depth : Nat) (fields : List (String × Json)) (s : List Char) :
    Ends (spelledFields layout depth fields ++ (layout.newLine depth ++ '\x7d' :: s)) := by
  cases fields with
  | nil =>
      rw [spelledFields_nil]
      exact ends_append (blank_newLine layout depth)
        (ends_cons (by decide) (by decide) (by decide) _)
  | cons field rest =>
      rw [spelledFields_cons]
      exact ends_cons (by decide) (by decide) (by decide) _

end CallProfiler.Json
