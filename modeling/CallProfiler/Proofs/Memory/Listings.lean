import CallProfiler.Memory.Listing
import CallProfiler.Proofs.Text.Hex
import CallProfiler.Proofs.Text.Words
import Mathlib.Data.List.Basic

/-!
# Listings are read as they are printed

A listing is printed line by line, a mapping in columns with blanks between them.  Reading it finds the
columns as the words of a line, so the last column, a path that may hold blanks, is cut behind its first
word; and it reads addresses as numbers that may have a plus sign, so a line that starts with such a range
is taken for a mapping.  Of everything else that is printed nothing is lost, and other lines are passed
over.

**Main statements.**
* `ListedMapping.parseListingLine_line`: the line of a mapping.
* `isSome_parseListingLine_iff`: what other lines are taken for mappings.
* `listings_are_read_back`: what a listing is read as, and when it is what was printed.
* `listing_misread`: a path with a blank in it, and a range with signs.
-/

namespace CallProfiler.Memory

open Text

/-! ## What is printed -/

/-- What a listing tells about a mapping. -/
structure ListedMapping where
  range : Range
  protection : Protection
  shared : Bool
  offset : Nat
  major : Nat
  minor : Nat
  inode : Nat
  path : Option String

/-- How a line is laid out: the least numbers of digits, and the blanks in front of the path. -/
structure Columns where
  address : Nat
  offset : Nat
  device : Nat
  gap : Nat

/-- A number with zeros in front up to a width. -/
def hexColumn (width n : Nat) : List Char := (hexDigits n).leftpad width '0'

namespace ListedMapping

/-- The range as it is printed. -/
def addresses (m : ListedMapping) (width : Nat) : List Char :=
  hexColumn width m.range.start ++ '-' :: hexColumn width m.range.finish

/-- The permissions as they are printed. -/
def permissions (m : ListedMapping) : List Char :=
  m.protection.text.toList ++ [if m.shared then 's' else 'p']

/-- The device as it is printed. -/
def device (m : ListedMapping) (width : Nat) : List Char :=
  hexColumn width m.major ++ ':' :: hexColumn width m.minor

/-- What follows the number of the file: its path, if there is one, behind blanks. -/
def ending (m : ListedMapping) (gap : Nat) : List Char :=
  match m.path with
  | none => List.replicate gap ' '
  | some path => ' ' :: (List.replicate gap ' ' ++ path.toList)

/-- The line of a mapping. -/
def line (m : ListedMapping) (c : Columns) : List Char :=
  m.addresses c.address ++ ' ' :: (m.permissions ++ ' ' :: (hexColumn c.offset m.offset ++
    ' ' :: (m.device c.device ++ ' ' :: ((toString m.inode).toList ++ m.ending c.gap))))

/-- What a listing is meant to tell about the mapping. -/
def entry (m : ListedMapping) : ListingEntry := ⟨m.range, m.protection, m.path⟩

/-- A path up to its first blank. -/
def cutPath (path : String) : String := String.ofList (path.toList.takeWhile (!isBlank ·))

/-- What is read about the mapping. -/
def readEntry (m : ListedMapping) : ListingEntry := ⟨m.range, m.protection, m.path.map cutPath⟩

/-- A mapping that can be listed: the addresses are in order and have 64 bits, and a path is some text in
one line with no blanks around it. -/
structure Fits (m : ListedMapping) : Prop where
  ordered : m.range.start ≤ m.range.finish
  bounded : m.range.finish < addressLimit
  named : ∀ path ∈ m.path, path.toList ≠ []
  bare : ∀ path ∈ m.path, Bare path.toList
  whole : ∀ path ∈ m.path, '\n' ∉ path.toList

instance (m : ListedMapping) : Decidable m.Fits :=
  decidable_of_iff
    (m.range.start ≤ m.range.finish ∧ m.range.finish < addressLimit ∧
      (∀ path ∈ m.path, path.toList ≠ []) ∧ (∀ path ∈ m.path, Bare path.toList) ∧
      ∀ path ∈ m.path, '\n' ∉ path.toList)
    ⟨fun ⟨ordered, bounded, named, bare, whole⟩ => ⟨ordered, bounded, named, bare, whole⟩,
      fun h => ⟨h.ordered, h.bounded, h.named, h.bare, h.whole⟩⟩

end ListedMapping

/-- A range of hexadecimal numbers. -/
def IsRange (w : List Char) : Prop :=
  ∃ start finish m n, w = start ++ '-' :: finish ∧ Numeral start m ∧ Numeral finish n

/-- A line that does not start with a range of hexadecimal numbers. -/
structure Alien (line : List Char) : Prop where
  whole : '\n' ∉ line
  other : ∀ w more, Consists (w :: more) line → ¬ IsRange w

/-- A line of a listing. -/
inductive Row where
  | mapping (columns : Columns) (mapping : ListedMapping)
  | other (line : List Char)

namespace Row

def line : Row → List Char
  | mapping c m => m.line c
  | other line => line

/-- What the line is meant to tell. -/
def entry? : Row → Option ListingEntry
  | mapping _ m => some m.entry
  | other _ => none

/-- What the line is read as. -/
def readEntry? : Row → Option ListingEntry
  | mapping _ m => some m.readEntry
  | other _ => none

/-- A mapping that can be listed, or a line of another form. -/
def Proper : Row → Prop
  | mapping _ m => m.Fits
  | other line => Alien line

end Row

/-- Lines with ends of lines between them; a last end of line has an empty line behind it. -/
def joinLines : List (List Char) → List Char
  | [] => []
  | [line] => line
  | line :: next :: rest => line ++ '\n' :: joinLines (next :: rest)

/-- The text of a listing. -/
def listing (rows : List Row) : String := String.ofList (joinLines (rows.map Row.line))

/-- A number as it is read: a plus sign may stand in front of it. -/
def ReadsNumber (s : List Char) : Prop :=
  ∃ n < 2 ^ 64, Numeral s n ∨ ∃ digits, s = '+' :: digits ∧ Numeral digits n

/-- The line starts with a range of numbers of 64 bits, one of them with a plus sign, and goes on behind
it. -/
def StartsSigned (line : List Char) : Prop :=
  ∃ start finish permissions more, Consists ((start ++ '-' :: finish) :: permissions :: more) line ∧
    ReadsNumber start ∧ ReadsNumber finish ∧ '+' ∈ start ++ finish

/-! ## Columns -/

theorem isWord_of_alphabet
    {w : List Char}
    (hnonempty : w ≠ [])
    (h : ∀ c ∈ w, c ∈ hexAlphabet) :
    IsWord w := by
  have hsolid : ∀ c ∈ hexAlphabet, isBlank c = false := forall_mem_hexAlphabet (by decide)
  exact ⟨hnonempty, fun c hc => hsolid c (h c hc)⟩

theorem isWord_toDigits
    {base : Nat}
    (hlarge : 1 < base)
    (hsmall : base ≤ 16)
    (n : Nat) :
    IsWord (Nat.toDigits base n) :=
  isWord_of_alphabet Nat.toDigits_ne_nil (mem_hexAlphabet_of_mem_toDigits hlarge hsmall n)

theorem isWord_hexColumn
    (width n : Nat) :
    IsWord (hexColumn width n) := by
  have hdigits : IsWord (Nat.toDigits 16 n) := isWord_toDigits (by decide) (by decide) n
  refine ⟨by simp [hexColumn, List.leftpad, hexDigits], fun c hc => ?_⟩
  rcases List.mem_append.1 hc with hc | hc
  · rw [(List.mem_replicate.1 hc).2]
    decide
  · exact hdigits.solid c hc

theorem numeral_hexColumn
    (width : Nat) {n : Nat}
    (h : n < 2 ^ 64) :
    Numeral (hexColumn width n) n :=
  (numeral_hexDigits h).zeros _

/-- Two words with a mark between them are one word. -/
theorem isWord_marked
    {a b : List Char} {mark : Char}
    (ha : IsWord a)
    (hmark : isBlank mark = false)
    (hb : IsWord b) :
    IsWord (a ++ mark :: b) := by
  refine ⟨by simp, fun c hc => ?_⟩
  rcases List.mem_append.1 hc with hc | hc
  · exact ha.solid c hc
  · rcases List.mem_cons.1 hc with rfl | hc
    · exact hmark
    · exact hb.solid c hc

theorem parted_blank
    (rest : List Char) :
    Parted (' ' :: rest) := by
  rintro _ ⟨⟩
  decide

theorem blanks_replicate
    (count : Nat) :
    Blanks (List.replicate count ' ') := by
  intro c hc
  rw [(List.mem_replicate.1 hc).2]
  decide

namespace ListedMapping

variable (m : ListedMapping) (c : Columns)

theorem isWord_addresses
    (width : Nat) :
    IsWord (m.addresses width) :=
  isWord_marked (isWord_hexColumn width _) (by decide) (isWord_hexColumn width _)

theorem isWord_device
    (width : Nat) :
    IsWord (m.device width) :=
  isWord_marked (isWord_hexColumn width _) (by decide) (isWord_hexColumn width _)

theorem isWord_inode :
    IsWord (toString m.inode).toList := by
  rw [Json.toList_toString_nat]
  exact isWord_toDigits (by decide) (by decide) m.inode

theorem permissions_eq :
    m.permissions = [if m.protection.read then 'r' else '-', if m.protection.write then 'w' else '-',
      if m.protection.execute then 'x' else '-', if m.shared then 's' else 'p'] := by
  simp [permissions, Protection.text]

theorem isWord_permissions :
    IsWord m.permissions := by
  rw [permissions_eq]
  refine ⟨List.cons_ne_nil _ _, ?_⟩
  simp only [List.forall_mem_cons]
  refine ⟨?_, ?_, ?_, ?_, by simp⟩ <;> split <;> decide

/-- The permissions are read as the protection. -/
theorem listedProtection_permissions :
    listedProtection m.permissions = m.protection := by
  have hread : ∀ read write execute shared : Bool,
      listedProtection [if read then 'r' else '-', if write then 'w' else '-',
        if execute then 'x' else '-', if shared then 's' else 'p'] = ⟨read, write, execute⟩ := by
    decide
  rw [permissions_eq]
  exact hread _ _ _ _

theorem parted_ending :
    Parted (m.ending c.gap) := by
  unfold ending
  split
  next =>
    exact fun d hd => blanks_replicate c.gap d (List.mem_of_mem_head? hd)
  next path =>
    exact parted_blank _

theorem words_ending :
    words (m.ending c.gap) = m.path.elim [] fun path => words path.toList := by
  unfold ending
  split
  next hnone =>
    have hblank := words_blanks_append (blanks_replicate c.gap) []
    rw [List.append_nil] at hblank
    rw [hblank, hnone]
    rfl
  next path hpath =>
    rw [words_cons_of_blank (by decide), words_blanks_append (blanks_replicate c.gap), hpath]
    rfl

/-- **The columns of a line** are its words, and those of the path. -/
theorem words_line :
    words (m.line c) =
      m.addresses c.address :: m.permissions :: hexColumn c.offset m.offset :: m.device c.device ::
        (toString m.inode).toList :: m.path.elim [] fun path => words path.toList := by
  have hcolumn {w : List Char} (h : IsWord w) (rest : List Char) :
      words (w ++ ' ' :: rest) = w :: words rest := by
    rw [words_word_append h (parted_blank rest), words_cons_of_blank (by decide)]
  rw [line, hcolumn (m.isWord_addresses _), hcolumn m.isWord_permissions,
    hcolumn (isWord_hexColumn _ _), hcolumn (m.isWord_device _),
    words_word_append m.isWord_inode (m.parted_ending c), words_ending]

end ListedMapping

/-! ## Reading a line -/

/-- A text is cut at the first mark. -/
theorem cutAt_eq_some_iff
    {mark : Char} {s a b : List Char} :
    cutAt mark s = some (a, b) ↔ s = a ++ mark :: b ∧ mark ∉ a := by
  induction s generalizing a with
  | nil =>
      simp [cutAt]
  | cons c rest ih =>
      unfold cutAt
      split
      next hmark =>
        cases a with
        | nil =>
            simp [hmark]
        | cons d a =>
            simp only [Option.some.injEq, Prod.mk.injEq, List.cons_append, List.cons.injEq,
              List.mem_cons, not_or]
            constructor
            · rintro ⟨⟨⟩, -⟩
            · rintro ⟨⟨rfl, -⟩, hother, -⟩
              exact absurd hmark.symm hother
      next hother =>
        rw [Option.map_eq_some_iff]
        constructor
        · rintro ⟨⟨front, back⟩, hcut, hpair⟩
          obtain ⟨rfl, rfl⟩ := Prod.mk.inj hpair
          obtain ⟨rfl, hfront⟩ := ih.1 hcut
          exact ⟨rfl, List.not_mem_cons_of_ne_of_not_mem (Ne.symm hother) hfront⟩
        · rintro ⟨hsame, hnone⟩
          cases a with
          | nil =>
              exact absurd (List.cons.inj hsame).1 hother
          | cons d a =>
              obtain ⟨rfl, rfl⟩ := List.cons.inj hsame
              exact ⟨(a, b), ih.2 ⟨rfl, List.not_mem_of_not_mem_cons hnone⟩, rfl⟩

theorem readsNumber_iff
    {s : List Char} :
    ReadsNumber s ↔ ∃ n, readHex s = .ok n := by
  simp only [ReadsNumber, readHex_eq_ok_iff]

namespace ListedMapping

variable {m : ListedMapping}

theorem getElem?_words_path
    (h : m.Fits) :
    ((m.path.elim [] fun path => words path.toList)[0]?).map String.ofList = m.path.map cutPath := by
  cases hpath : m.path with
  | none =>
      rfl
  | some path =>
      obtain ⟨c, rest, hsome⟩ := List.exists_cons_of_ne_nil (h.named path hpath)
      have hc := (h.bare path hpath).first c (by rw [hsome]; rfl)
      rw [Option.elim_some, hsome, words_cons_of_not_blank hc, ← hsome]
      rfl

/-- **The line of a mapping** is read as the mapping, with its path up to the first blank. -/
theorem parseListingLine_line
    (h : m.Fits)
    (c : Columns) :
    parseListingLine (m.line c) = some m.readEntry := by
  have hfinish : m.range.finish < 2 ^ 64 := h.bounded
  have hstart : m.range.start < 2 ^ 64 := Nat.lt_of_le_of_lt h.ordered hfinish
  have hcut : cutAt '-' (m.addresses c.address) =
      some (hexColumn c.address m.range.start, hexColumn c.address m.range.finish) :=
    cutAt_eq_some_iff.2 ⟨rfl, (numeral_hexColumn _ hstart).notMem (by decide)⟩
  have hreadStart := readHex_eq_ok_iff.2 ⟨hstart, .inl (numeral_hexColumn c.address hstart)⟩
  have hreadFinish := readHex_eq_ok_iff.2 ⟨hfinish, .inl (numeral_hexColumn c.address hfinish)⟩
  have hpath := getElem?_words_path h
  unfold parseListingLine
  rw [words_line]
  simp only [hcut, hreadStart, hreadFinish, listedProtection_permissions, List.getElem?_cons_succ, hpath]
  rfl

end ListedMapping

/-- **What is taken for a mapping**: a line that starts with a range of numbers and goes on behind it. -/
theorem isSome_parseListingLine_iff
    {line : List Char} :
    (parseListingLine line).isSome = true ↔
      ∃ start finish permissions more, Consists ((start ++ '-' :: finish) :: permissions :: more) line ∧
        ReadsNumber start ∧ ReadsNumber finish := by
  simp only [readsNumber_iff]
  constructor
  · intro h
    unfold parseListingLine at h
    split at h
    next addresses permissions more hwords =>
      split at h
      next =>
        cases h
      next start finish hcut =>
        split at h
        next m n hstart hfinish =>
          obtain ⟨rfl, -⟩ := cutAt_eq_some_iff.1 hcut
          exact ⟨start, finish, permissions, more, words_eq_iff.1 hwords, ⟨m, hstart⟩, ⟨n, hfinish⟩⟩
        next =>
          cases h
    next =>
      cases h
  · rintro ⟨start, finish, permissions, more, hwords, ⟨m, hstart⟩, ⟨n, hfinish⟩⟩
    have hcut : cutAt '-' (start ++ '-' :: finish) = some (start, finish) := by
      refine cutAt_eq_some_iff.2 ⟨rfl, ?_⟩
      obtain ⟨-, hnumeral | ⟨digits, rfl, hnumeral⟩⟩ := readHex_eq_ok_iff.1 hstart
      · exact hnumeral.notMem (by decide)
      · exact List.not_mem_cons_of_ne_of_not_mem (by decide) (hnumeral.notMem (by decide))
    unfold parseListingLine
    rw [words_eq_iff.2 hwords]
    simp only [hcut, hstart, hfinish]
    rfl

/-- Of the lines that do not start with a range, those with a sign in front of a number are taken for
mappings. -/
theorem Alien.parseListingLine_eq_none_iff
    {line : List Char}
    (h : Alien line) :
    parseListingLine line = none ↔ ¬ StartsSigned line := by
  rw [← Option.not_isSome_iff_eq_none, isSome_parseListingLine_iff, not_iff_not]
  constructor
  · rintro ⟨start, finish, permissions, more, hwords, hstart, hfinish⟩
    refine ⟨start, finish, permissions, more, hwords, hstart, hfinish, ?_⟩
    obtain ⟨m, -, hm | ⟨digits, rfl, hm⟩⟩ := hstart
    · obtain ⟨n, -, hn | ⟨digits, rfl, hn⟩⟩ := hfinish
      · exact absurd ⟨_, _, m, n, rfl, hm, hn⟩ (h.other _ _ hwords)
      · simp
    · simp
  · rintro ⟨start, finish, permissions, more, hwords, hstart, hfinish, -⟩
    exact ⟨start, finish, permissions, more, hwords, hstart, hfinish⟩

/-! ## Reading a listing -/

theorem newline_notMem
    {w : List Char}
    (h : IsWord w) :
    '\n' ∉ w :=
  fun hmem => absurd (h.solid _ hmem) (by decide)

/-- A mapping is listed in one line. -/
theorem ListedMapping.Fits.newline_notMem_line
    {m : ListedMapping}
    (h : m.Fits)
    (c : Columns) :
    '\n' ∉ m.line c := by
  have hending : '\n' ∉ m.ending c.gap := by
    unfold ListedMapping.ending
    split
    next =>
      simp
    next path hpath =>
      simpa using h.whole path hpath
  have haddresses := newline_notMem (m.isWord_addresses c.address)
  have hpermissions := newline_notMem m.isWord_permissions
  have hoffset := newline_notMem (isWord_hexColumn c.offset m.offset)
  have hdevice := newline_notMem (m.isWord_device c.device)
  have hinode := newline_notMem m.isWord_inode
  simp only [ListedMapping.line, List.mem_append, List.mem_cons, not_or]
  exact ⟨haddresses, by decide, hpermissions, by decide, hoffset, by decide, hdevice, by decide, hinode,
    hending⟩

theorem Row.Proper.newline_notMem_line
    {r : Row}
    (h : r.Proper) :
    '\n' ∉ r.line := by
  cases r with
  | mapping c m =>
      exact ListedMapping.Fits.newline_notMem_line h c
  | other line =>
      exact Alien.whole h

/-- The lines that were joined are read one by one. -/
theorem filterMap_lines_joinLines
    {ls : List (List Char)}
    (h : ∀ l ∈ ls, '\n' ∉ l) :
    (lines (joinLines ls)).filterMap parseListingLine = ls.filterMap parseListingLine := by
  induction ls with
  | nil =>
      rfl
  | cons l rest ih =>
      obtain ⟨hl, hrest⟩ := List.forall_mem_cons.1 h
      cases rest with
      | nil =>
          rw [joinLines, lines_of_notMem hl]
      | cons next rest =>
          rw [joinLines, lines_append_cons hl, List.filterMap_cons, List.filterMap_cons, ih hrest]

/-- A listing is read row by row. -/
theorem parseListing_listing
    {rows : List Row}
    (h : ∀ r ∈ rows, r.Proper) :
    parseListing (listing rows) = rows.filterMap fun r => parseListingLine r.line := by
  have hwhole : ∀ l ∈ rows.map Row.line, '\n' ∉ l := by
    intro l hl
    obtain ⟨r, hr, rfl⟩ := List.mem_map.1 hl
    exact (h r hr).newline_notMem_line
  rw [parseListing, listing, String.toList_ofList, filterMap_lines_joinLines hwhole, List.filterMap_map]
  rfl

/-- Where one function finds everything that another does, they find the same only if they agree. -/
theorem eq_of_filterMap_eq
    {α β : Type} {f g : α → Option β} {l : List α}
    (hfinds : ∀ x ∈ l, (f x).isSome = true → (g x).isSome = true)
    (h : l.filterMap f = l.filterMap g) :
    ∀ x ∈ l, f x = g x := by
  induction l with
  | nil =>
      simp
  | cons x rest ih =>
      obtain ⟨hx, hrest⟩ := List.forall_mem_cons.1 hfinds
      have hfewer : (rest.filterMap f).length ≤ (rest.filterMap g).length := by
        rw [List.length_filterMap_eq_countP, List.length_filterMap_eq_countP]
        exact List.countP_mono_left hrest
      rw [List.filterMap_cons, List.filterMap_cons] at h
      cases hf : f x with
      | none =>
          cases hg : g x with
          | none =>
              rw [hf, hg] at h
              exact List.forall_mem_cons.2 ⟨hf.trans hg.symm, ih hrest h⟩
          | some b =>
              -- one more is found here, and no fewer behind it
              rw [hf, hg] at h
              have hlength := congrArg List.length h
              simp only [List.length_cons] at hlength
              omega
      | some a =>
          obtain ⟨b, hg⟩ := Option.isSome_iff_exists.1 (hx (by rw [hf]; rfl))
          rw [hf, hg] at h
          obtain ⟨rfl, htail⟩ := List.cons.inj h
          exact List.forall_mem_cons.2 ⟨hf.trans hg.symm, ih hrest htail⟩

theorem Row.Proper.parseListingLine_eq
    {r : Row}
    (h : r.Proper)
    (hplain : ∀ line, r = .other line → ¬ StartsSigned line) :
    parseListingLine r.line = r.readEntry? := by
  cases r with
  | mapping c m =>
      exact ListedMapping.parseListingLine_line h c
  | other line =>
      exact (Alien.parseListingLine_eq_none_iff h).2 (hplain line rfl)

theorem ListedMapping.readEntry_eq_entry_iff
    {m : ListedMapping}
    (h : m.Fits) :
    m.readEntry = m.entry ↔ ∀ path ∈ m.path, IsWord path.toList := by
  have hcut {path : String} (hpath : path ∈ m.path) : cutPath path = path ↔ IsWord path.toList := by
    rw [← String.toList_inj, cutPath, String.toList_ofList, List.takeWhile_eq_self_iff]
    constructor
    · exact fun hsolid => ⟨h.named path hpath, fun c hc => by simpa using hsolid c hc⟩
    · exact fun hword c hc => by simp [hword.solid c hc]
  simp only [readEntry, entry, ListingEntry.mk.injEq, true_and]
  cases hpath : m.path with
  | none =>
      simp
  | some path =>
      rw [Option.map_some, Option.some.injEq, hcut hpath]
      simp

/-- **Listings are read back.**  The rows of a listing are mappings, in any layout, with any path that is
some text in one line with no blanks around it, and lines that do not start with a range of hexadecimal
numbers.  If none of these starts with a range of numbers with a plus sign, what is read are the mappings in
their order, with their ranges, protections and paths, each path up to its first blank.  And it is just what
was printed if and only if no other line starts like that and no path has a blank in it. -/
theorem listings_are_read_back
    (rows : List Row)
    (h : ∀ r ∈ rows, r.Proper) :
    ((∀ line, .other line ∈ rows → ¬ StartsSigned line) →
      parseListing (listing rows) = rows.filterMap Row.readEntry?) ∧
    (parseListing (listing rows) = rows.filterMap Row.entry? ↔
      (∀ line, .other line ∈ rows → ¬ StartsSigned line) ∧
        ∀ c m, .mapping c m ∈ rows → ∀ path ∈ m.path, IsWord path.toList) := by
  rw [parseListing_listing h]
  have hread (hplain : ∀ line, .other line ∈ rows → ¬ StartsSigned line) :
      ∀ r ∈ rows, parseListingLine r.line = r.readEntry? :=
    fun r hr => (h r hr).parseListingLine_eq fun line hline => hplain line (hline ▸ hr)
  refine ⟨fun hplain => List.filterMap_congr (hread hplain), ?_, ?_⟩
  · intro hsame
    have hrows : ∀ r ∈ rows, r.entry? = parseListingLine r.line := by
      refine eq_of_filterMap_eq (fun r hr hsome => ?_) hsame.symm
      cases r with
      | mapping c m =>
          rw [Row.line, ListedMapping.parseListingLine_line (h _ hr)]
          rfl
      | other line =>
          cases hsome
    refine ⟨fun line hline => ?_, fun c m hm => ?_⟩
    · exact (Alien.parseListingLine_eq_none_iff (h _ hline)).1 (hrows _ hline).symm
    · have hentry := hrows _ hm
      rw [Row.line, ListedMapping.parseListingLine_line (h _ hm)] at hentry
      exact (ListedMapping.readEntry_eq_entry_iff (h _ hm)).1 (Option.some.inj hentry).symm
  · rintro ⟨hplain, hwords⟩
    refine List.filterMap_congr fun r hr => (hread hplain r hr).trans ?_
    cases r with
    | mapping c m =>
        exact congrArg some ((ListedMapping.readEntry_eq_entry_iff (h _ hr)).2 (hwords c m hr))
    | other line =>
        rfl

/-- What a range is made of. -/
theorem IsRange.spelled
    {w : List Char}
    (h : IsRange w) :
    '-' ∈ w ∧ ∀ c ∈ w, c = '-' ∨ c ∈ hexAlphabet := by
  obtain ⟨start, finish, m, n, rfl, hstart, hfinish⟩ := h
  refine ⟨by simp, fun c hc => ?_⟩
  rcases List.mem_append.1 hc with hc | hc
  · exact .inr (hstart.digits c hc)
  · exact (List.mem_cons.1 hc).imp_right (hfinish.digits c)

theorem alien_of_words
    {line w : List Char} {more : List (List Char)}
    (hwhole : '\n' ∉ line)
    (hwords : words line = w :: more)
    (hother : '-' ∉ w ∨ ∃ c ∈ w, c ≠ '-' ∧ c ∉ hexAlphabet) :
    Alien line := by
  refine ⟨hwhole, fun w' more' hconsists hrange => ?_⟩
  rw [words_eq_iff.2 hconsists] at hwords
  obtain ⟨rfl, rfl⟩ := List.cons.inj hwords
  obtain ⟨hmark, hdigits⟩ := hrange.spelled
  obtain hnone | ⟨c, hc, hplain, hodd⟩ := hother
  · exact hnone hmark
  · exact (hdigits c hc).elim hplain hodd

/-- Two mappings with another line between them. -/
theorem listings_are_read_back_garbage :
    let rows : List Row := [
      .mapping ⟨8, 8, 2, 1⟩ ⟨⟨0x1000, 0x3000⟩, ⟨true, false, true⟩, false, 0x2000, 8, 1, 1234,
        some "/usr/bin/app"⟩,
      .other "garbage line".toList,
      .mapping ⟨8, 8, 2, 0⟩ ⟨⟨0x7ffd1e2f0000, 0x7ffd1e2f0000⟩, ⟨true, true, false⟩, true, 0, 0, 0, 0, none⟩]
    (∀ r ∈ rows, r.Proper) ∧
      listing rows = "00001000-00003000 r-xp 00002000 08:01 1234  /usr/bin/app\ngarbage line\n" ++
        "7ffd1e2f0000-7ffd1e2f0000 rw-s 00000000 00:00 0" ∧
      parseListing (listing rows) = [⟨⟨0x1000, 0x3000⟩, ⟨true, false, true⟩, some "/usr/bin/app"⟩,
        ⟨⟨0x7ffd1e2f0000, 0x7ffd1e2f0000⟩, ⟨true, true, false⟩, none⟩] := by
  intro rows
  have hwords : words "garbage line".toList = ["garbage".toList, "line".toList] := by
    decide
  have hgarbage : Alien "garbage line".toList := alien_of_words (by decide) hwords (.inl (by decide))
  have hproper : ∀ r ∈ rows, r.Proper := by
    simp only [rows, List.forall_mem_cons]
    refine ⟨?_, hgarbage, ?_, by simp⟩
    · show ListedMapping.Fits _
      decide
    · show ListedMapping.Fits _
      decide
  have hplain : ∀ line, .other line ∈ rows → ¬ StartsSigned line := by
    intro line hline
    obtain rfl : line = "garbage line".toList := by
      simpa [rows] using hline
    exact hgarbage.parseListingLine_eq_none_iff.1 (by decide)
  have hwords : ∀ c m, .mapping c m ∈ rows → ∀ path ∈ m.path, IsWord path.toList := by
    intro c m hm
    simp only [rows, List.mem_cons, Row.mapping.injEq, reduceCtorEq, List.not_mem_nil, false_or,
      or_false] at hm
    obtain ⟨rfl, rfl⟩ | ⟨rfl, rfl⟩ := hm
    · rintro _ ⟨⟩
      decide
    · rintro _ ⟨⟩
  exact ⟨hproper, by cbv, ((listings_are_read_back rows hproper).2.2 ⟨hplain, hwords⟩).trans rfl⟩

/-- A path that goes on behind a blank is cut there, and a line that starts with a range of numbers with
signs is taken for a mapping. -/
theorem listing_misread :
    let rows : List Row := [
      .mapping ⟨8, 8, 2, 0⟩ ⟨⟨0x1000, 0x2000⟩, ⟨true, false, false⟩, false, 0, 8, 1, 12, some "/tmp/a b"⟩,
      .other "+3000-+4000 ---p".toList]
    (∀ r ∈ rows, r.Proper) ∧
      listing rows = "00001000-00002000 r--p 00000000 08:01 12 /tmp/a b\n+3000-+4000 ---p" ∧
      rows.filterMap Row.entry? = [⟨⟨0x1000, 0x2000⟩, ⟨true, false, false⟩, some "/tmp/a b"⟩] ∧
      parseListing (listing rows) = [⟨⟨0x1000, 0x2000⟩, ⟨true, false, false⟩, some "/tmp/a"⟩,
        ⟨⟨0x3000, 0x4000⟩, ⟨false, false, false⟩, none⟩] := by
  intro rows
  refine ⟨?_, by cbv, rfl, by cbv⟩
  simp only [rows, List.forall_mem_cons]
  refine ⟨?_, ?_, by simp⟩
  · show ListedMapping.Fits _
    decide
  · have hwords : words "+3000-+4000 ---p".toList = ["+3000-+4000".toList, "---p".toList] := by
      decide
    exact alien_of_words (by decide) hwords (.inr ⟨'+', by decide, by decide, by decide⟩)

end CallProfiler.Memory
