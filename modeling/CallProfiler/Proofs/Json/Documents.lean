import CallProfiler.Proofs.Json.Decimals
import CallProfiler.Proofs.Json.Spelling

/-!
# Any document is read as it was written

A reader that expects no particular type takes one document from the front of a text and gives its
texts, its lists and its records, and the spelling of everything else.  It finds exactly what was
written, in either layout.

**Main statements.**
* `readValue_spelled`: one document in front of other text.
* `Value.parse_print`: a text that is one document.
-/

namespace CallProfiler.Json

/-- A document as it is read: numbers and words are known by their spelling. -/
inductive Value where
  | plain (spelling : String)
  | text (s : String)
  | list (items : List Value)
  | record (fields : List (String × Value))

mutual

/-- Reads one value behind blanks, in at most so many steps. -/
def readValue : Nat → Reader Value
  | 0, _ => .error .truncated
  | fuel + 1, s =>
    match skipBlanks s with
    | '"' :: rest => (readText rest).map fun (s, rest) => (.text (String.ofList s), rest)
    | '[' :: rest => (readValues fuel true rest).map fun (items, rest) => (.list items, rest)
    | '\x7b' :: rest => (readMembers fuel true rest).map fun (fields, rest) => (.record fields, rest)
    | s => (skipScalar s).map fun rest => (.plain (String.ofList (s.take (s.length - rest.length))), rest)

/-- Reads the values of a list up to its closing bracket. -/
def readValues : Nat → Bool → Reader (List Value)
  | 0, _, _ => .error .truncated
  | fuel + 1, first, s =>
    match nextItem first s with
    | .error e => .error e
    | .ok none => (skipMark ']' s).map ([], ·)
    | .ok (some s) =>
      match readValue fuel s with
      | .error e => .error e
      | .ok (value, s) => (readValues fuel false s).map fun (items, s) => (value :: items, s)

/-- Reads the fields of a record up to its closing bracket. -/
def readMembers : Nat → Bool → Reader (List (String × Value))
  | 0, _, _ => .error .truncated
  | fuel + 1, first, s =>
    match nextName first s with
    | .error e => .error e
    | .ok none => (skipMark '\x7d' s).map ([], ·)
    | .ok (some (name, s)) =>
      match skipMark ':' s with
      | .error e => .error e
      | .ok s =>
        match readValue fuel s with
        | .error e => .error e
        | .ok (value, s) =>
          (readMembers fuel false s).map fun (fields, s) => ((String.ofList name, value) :: fields, s)

end

/-- Reads a text that is one document, without anything behind it. -/
def Value.parse (s : List Char) : Except Fault Value :=
  match readValue s.length s with
  | .error e => .error e
  | .ok (value, []) => .ok value
  | .ok (_, _ :: _) => .error .malformed

mutual

/-- What there is to read in a document. -/
def content : Json → Value
  | integer n => .plain (toString n)
  | decimal x => .plain (decimalText x)
  | text s => .text s
  | list items => .list (contents items)
  | record fields => .record (members fields)

def contents : List Json → List Value
  | [] => []
  | value :: rest => content value :: contents rest

def members : List (String × Json) → List (String × Value)
  | [] => []
  | (name, value) :: rest => (name, content value) :: members rest

end

theorem content_decimal
    (x : Float) :
    content (.decimal x) = .plain (decimalText x) := by
  rw [content]

theorem content_text
    (s : String) :
    content (.text s) = .text s := by
  rw [content]

theorem content_list
    (items : List Json) :
    content (.list items) = .list (contents items) := by
  rw [content]

theorem content_record
    (fields : List (String × Json)) :
    content (.record fields) = .record (members fields) := by
  rw [content]

/-! ## The first character of a document -/

theorem IsPlain.exists_starts
    {text : List Char}
    (h : IsPlain text) :
    ∃ c more, text = c :: more ∧ Starts c := by
  obtain ⟨c, more, rfl, hc⟩ := h.starts
  refine ⟨c, more, rfl, ?_⟩
  rcases hc with hc | rfl
  · exact starts_of_startsNumber hc
  · exact ⟨by decide, by decide, by decide⟩

theorem exists_starts
    (layout : Layout) (depth : Nat) (j : Json) :
    ∃ c more, spelled layout depth j = c :: more ∧ Starts c := by
  cases j with
  | integer n =>
      rw [spelled_integer]
      exact (isPlain_integer n).exists_starts
  | decimal x =>
      rw [spelled_decimal]
      exact (isPlain_decimalText x).exists_starts
  | text s =>
      exact ⟨'"', _, spelled_text s, by decide, by decide, by decide⟩
  | list items =>
      cases items with
      | nil => exact ⟨'[', _, spelled_list_nil, by decide, by decide, by decide⟩
      | cons first rest => exact ⟨'[', _, spelled_list_cons first rest, by decide, by decide, by decide⟩
  | record fields =>
      cases fields with
      | nil => exact ⟨'\x7b', _, spelled_record_nil, by decide, by decide, by decide⟩
      | cons field rest => exact ⟨'\x7b', _, spelled_record_cons _ _ rest, by decide, by decide, by decide⟩

/-! ## One step of the reader -/

variable {fuel : Nat} {layout : Layout} {depth : Nat}

/-- A value that is no text and has no parts is found by its spelling. -/
theorem readValue_plain
    {text blanks rest : List Char}
    (h : IsPlain text)
    (hblanks : Blank blanks)
    (hrest : Ends rest) :
    readValue (fuel + 1) (blanks ++ (text ++ rest)) = .ok (.plain (String.ofList text), rest) := by
  have hskip := h.skips hrest
  obtain ⟨c, more, rfl, hc⟩ := h.starts
  have hstarts : isBlank c = false ∧ c ≠ '"' ∧ c ≠ '[' ∧ c ≠ '\x7b' := by
    rcases hc with hc | rfl
    · refine ⟨(starts_of_startsNumber hc).1, ?_, ?_, ?_⟩ <;>
        rintro rfl <;> exact absurd hc (by decide)
    · decide
  rw [List.cons_append] at hskip
  rw [readValue, List.cons_append, skipBlanks_append_cons hblanks hstarts.1]
  split
  next heq => exact absurd (List.cons.inj heq).1 hstarts.2.1
  next heq => exact absurd (List.cons.inj heq).1 hstarts.2.2.1
  next heq => exact absurd (List.cons.inj heq).1 hstarts.2.2.2
  next =>
    have htake : (c :: (more ++ rest)).take ((c :: (more ++ rest)).length - rest.length) = c :: more := by
      rw [← List.cons_append, List.length_append, Nat.add_sub_cancel, List.take_left]
    rw [hskip]
    simp only [Except.map, htake]

theorem readValues_end
    {blanks : List Char}
    (h : Blank blanks)
    (first : Bool) (rest : List Char) :
    readValues (fuel + 1) first (blanks ++ ']' :: rest) = .ok ([], rest) := by
  rw [readValues, nextItem_end h, skipMark_append h _ (by decide)]
  rfl

theorem readMembers_end
    {blanks : List Char}
    (h : Blank blanks)
    (first : Bool) (rest : List Char) :
    readMembers (fuel + 1) first (blanks ++ '\x7d' :: rest) = .ok ([], rest) := by
  rw [readMembers, nextName_end h, skipMark_append h _ (by decide)]
  rfl

/-- A value of a list in front of the others. -/
theorem readValues_next
    {first : Bool} {s s' s'' rest : List Char} {value : Value} {items : List Value}
    (hitem : nextItem first s = .ok (some s'))
    (hvalue : readValue fuel s' = .ok (value, s''))
    (hothers : readValues fuel false s'' = .ok (items, rest)) :
    readValues (fuel + 1) first s = .ok (value :: items, rest) := by
  rw [readValues, hitem]
  simp only [hvalue, hothers, Except.map]

/-- A field of a record in front of the others. -/
theorem readMembers_next
    {first : Bool} {s s' s'' s''' rest : List Char} {name : String} {value : Value}
    {fields : List (String × Value)}
    (hname : nextName first s = .ok (some (name.toList, s')))
    (hcolon : skipMark ':' s' = .ok s'')
    (hvalue : readValue fuel s'' = .ok (value, s'''))
    (hothers : readMembers fuel false s''' = .ok (fields, rest)) :
    readMembers (fuel + 1) first s = .ok ((name, value) :: fields, rest) := by
  rw [readMembers, hname]
  simp only [hcolon, hvalue, hothers, Except.map, String.ofList_toList]

/-! ## Documents -/

/-- The reader finds what was written in every value that takes no more characters than steps. -/
def ReadsValues (fuel : Nat) : Prop :=
  ∀ (j : Json) (layout : Layout) (depth : Nat) {blanks rest : List Char},
    Blank blanks → Ends rest → (spelled layout depth j).length ≤ fuel →
    readValue fuel (blanks ++ (spelled layout depth j ++ rest)) = .ok (content j, rest)

/-- It finds the values of a list, from one that is next. -/
def ReadsItems (fuel : Nat) : Prop :=
  ∀ (value : Json) (others : List Json) (layout : Layout) (depth : Nat) {first : Bool} {s rest : List Char},
    nextItem first s = .ok (some (spelled layout (depth + 1) value ++
      (spelledItems layout depth others ++ (layout.newLine depth ++ ']' :: rest)))) →
    (spelled layout (depth + 1) value).length + (spelledItems layout depth others).length < fuel →
    readValues fuel first s = .ok (contents (value :: others), rest)

/-- It finds the fields of a record, from one that is next. -/
def ReadsFields (fuel : Nat) : Prop :=
  ∀ (name : String) (value : Json) (others : List (String × Json)) (layout : Layout) (depth : Nat)
    {first : Bool} {s rest : List Char},
    nextName first s = .ok (some (name.toList, layout.colon ++ (spelled layout (depth + 1) value ++
      (spelledFields layout depth others ++ (layout.newLine depth ++ '\x7d' :: rest))))) →
    (spelled layout (depth + 1) value).length + (spelledFields layout depth others).length < fuel →
    readMembers fuel first s = .ok (members ((name, value) :: others), rest)

theorem ReadsItems.succ
    (hvalues : ReadsValues fuel)
    (hitems : ReadsItems fuel) :
    ReadsItems (fuel + 1) := by
  intro value others layout depth first s rest hitem hlength
  have hread := hvalues value layout (depth + 1) blank_nil (ends_items layout depth others rest) (by omega)
  refine readValues_next hitem hread ?_
  cases others with
  | nil =>
      obtain ⟨c, more, hfirst, -⟩ := exists_starts layout (depth + 1) value
      rw [hfirst, List.length_cons] at hlength
      obtain ⟨fuel, rfl⟩ := Nat.exists_eq_succ_of_ne_zero (show fuel ≠ 0 by omega)
      rw [spelledItems_nil, List.nil_append]
      exact readValues_end (blank_newLine layout depth) false rest
  | cons next others =>
      obtain ⟨c, more, hfirst, hstarts⟩ := exists_starts layout (depth + 1) next
      rw [spelledItems_cons] at hlength ⊢
      simp only [List.length_cons, List.length_append] at hlength
      apply hitems next others layout depth
      · simp only [List.cons_append, List.append_assoc, hfirst]
        exact nextItem_more (blank_newLine layout (depth + 1)) hstarts _
      · omega

theorem ReadsFields.succ
    (hvalues : ReadsValues fuel)
    (hfields : ReadsFields fuel) :
    ReadsFields (fuel + 1) := by
  intro name value others layout depth first s rest hname hlength
  obtain ⟨blanks, hcolon, hblanks⟩ := exists_colon layout
  have hread := hvalues value layout (depth + 1) hblanks (ends_fields layout depth others rest) (by omega)
  rw [hcolon] at hname
  refine readMembers_next hname (skipMark_append blank_nil _ (by decide) _) hread ?_
  cases others with
  | nil =>
      obtain ⟨c, more, hfirst, -⟩ := exists_starts layout (depth + 1) value
      rw [hfirst, List.length_cons] at hlength
      obtain ⟨fuel, rfl⟩ := Nat.exists_eq_succ_of_ne_zero (show fuel ≠ 0 by omega)
      rw [spelledFields_nil, List.nil_append]
      exact readMembers_end (blank_newLine layout depth) false rest
  | cons next others =>
      obtain ⟨name, value⟩ := next
      rw [spelledFields_cons] at hlength ⊢
      simp only [spelledField, List.length_cons, List.length_append] at hlength
      apply hfields name value others layout depth
      · simp only [spelledField, List.cons_append, List.append_assoc]
        exact nextName_more (blank_newLine layout (depth + 1)) name.toList _
      · omega

/-- A list behind its opening bracket. -/
theorem ReadsItems.list
    (hitems : ReadsItems fuel)
    (items : List Json) (layout : Layout) (depth : Nat) {blanks : List Char} (rest : List Char)
    (hblanks : Blank blanks)
    (hlength : (spelled layout depth (.list items)).length ≤ fuel + 1) :
    readValue (fuel + 1) (blanks ++ (spelled layout depth (.list items) ++ rest)) =
      .ok (content (.list items), rest) := by
  have hopen : ∀ s, readValues fuel true s = .ok (contents items, rest) →
      readValue (fuel + 1) (blanks ++ '[' :: s) = .ok (content (.list items), rest) := by
    intro s hs
    rw [readValue, skipBlanks_append_cons hblanks (by decide)]
    simp only [hs, Except.map, content]
  cases items with
  | nil =>
      rw [spelled_list_nil] at hlength ⊢
      simp only [List.length_cons, List.length_nil] at hlength
      obtain ⟨fuel, rfl⟩ := Nat.exists_eq_succ_of_ne_zero (show fuel ≠ 0 by omega)
      exact hopen _ (readValues_end blank_nil true rest)
  | cons value others =>
      obtain ⟨c, more, hfirst, hstarts⟩ := exists_starts layout (depth + 1) value
      rw [spelled_list_cons] at hlength ⊢
      simp only [List.length_cons, List.length_append] at hlength
      simp only [List.cons_append, List.append_assoc, List.nil_append]
      apply hopen
      apply hitems value others layout depth
      · rw [hfirst]
        exact nextItem_first (blank_newLine layout (depth + 1)) hstarts _
      · omega

/-- A record behind its opening bracket. -/
theorem ReadsFields.record
    (hfields : ReadsFields fuel)
    (fields : List (String × Json)) (layout : Layout) (depth : Nat) {blanks : List Char}
    (rest : List Char)
    (hblanks : Blank blanks)
    (hlength : (spelled layout depth (.record fields)).length ≤ fuel + 1) :
    readValue (fuel + 1) (blanks ++ (spelled layout depth (.record fields) ++ rest)) =
      .ok (content (.record fields), rest) := by
  have hopen : ∀ s, readMembers fuel true s = .ok (members fields, rest) →
      readValue (fuel + 1) (blanks ++ '\x7b' :: s) = .ok (content (.record fields), rest) := by
    intro s hs
    rw [readValue, skipBlanks_append_cons hblanks (by decide)]
    simp only [hs, Except.map, content]
  cases fields with
  | nil =>
      rw [spelled_record_nil] at hlength ⊢
      simp only [List.length_cons, List.length_nil] at hlength
      obtain ⟨fuel, rfl⟩ := Nat.exists_eq_succ_of_ne_zero (show fuel ≠ 0 by omega)
      exact hopen _ (readMembers_end blank_nil true rest)
  | cons field others =>
      obtain ⟨name, value⟩ := field
      rw [spelled_record_cons] at hlength ⊢
      simp only [spelledField, List.length_cons, List.length_append] at hlength
      simp only [spelledField, List.cons_append, List.append_assoc, List.nil_append]
      apply hopen
      apply hfields name value others layout depth
      · exact nextName_first (blank_newLine layout (depth + 1)) name.toList _
      · omega

theorem ReadsValues.succ
    (hitems : ReadsItems fuel)
    (hfields : ReadsFields fuel) :
    ReadsValues (fuel + 1) := by
  intro j layout depth blanks rest hblanks hrest hlength
  cases j with
  | integer n =>
      rw [spelled_integer, readValue_plain (isPlain_integer n) hblanks hrest, content,
        String.ofList_toList]
  | decimal x =>
      rw [spelled_decimal, readValue_plain (isPlain_decimalText x) hblanks hrest, content,
        String.ofList_toList]
  | text s =>
      have hopen : quoted s.toList ++ rest = '"' :: (s.toList.flatMap escape ++ '"' :: rest) := by
        simp [quoted]
      rw [spelled_text, hopen, readValue, skipBlanks_append_cons hblanks (by decide)]
      simp only [readText_escape, Except.map, content, String.ofList_toList]
  | list items =>
      exact hitems.list items layout depth rest hblanks hlength
  | record fields =>
      exact hfields.record fields layout depth rest hblanks hlength

/-- By the number of steps: a value, the values of a list and the fields of a record together. -/
theorem reads
    (fuel : Nat) :
    ReadsValues fuel ∧ ReadsItems fuel ∧ ReadsFields fuel := by
  induction fuel with
  | zero =>
      refine ⟨?_, ?_, ?_⟩
      · intro j layout depth blanks rest _ _ hlength
        obtain ⟨c, more, hfirst, -⟩ := exists_starts layout depth j
        rw [hfirst] at hlength
        exact absurd hlength (Nat.not_succ_le_zero _)
      · exact fun _ _ _ _ _ _ _ _ hlength => absurd hlength (Nat.not_lt_zero _)
      · exact fun _ _ _ _ _ _ _ _ _ hlength => absurd hlength (Nat.not_lt_zero _)
  | succ fuel ih =>
      obtain ⟨hvalues, hitems, hfields⟩ := ih
      exact ⟨.succ hitems hfields, hitems.succ hvalues, hfields.succ hvalues⟩

/-- **A document** in front of other text that does not continue a number is read as it was written. -/
theorem readValue_spelled
    (j : Json) (layout : Layout) (depth : Nat) {blanks rest : List Char}
    (hblanks : Blank blanks)
    (hrest : Ends rest)
    (hfuel : (spelled layout depth j).length ≤ fuel) :
    readValue fuel (blanks ++ (spelled layout depth j ++ rest)) = .ok (content j, rest) :=
  (reads fuel).1 j layout depth hblanks hrest hfuel

/-- **A text that is one document** is read to its end. -/
theorem Value.parse_print
    (j : Json) (layout : Layout) :
    Value.parse (j.print layout) = .ok (content j) := by
  have hread := readValue_spelled j layout 0 blank_nil ends_nil (Nat.le_refl _)
  rw [List.nil_append, List.append_nil] at hread
  change Value.parse (spelled layout 0 j) = .ok (content j)
  simp only [Value.parse, hread]

end CallProfiler.Json
