import CallProfiler.Text.Blank
import Mathlib.Data.List.TakeWhile

/-!
# Trimmed texts, words and lines

Texts are trimmed and cut by scans.  What a scan finds is told here by how the text is put together: a
trimmed text with blanks around it, words with blanks between them, lines with ends of lines between them.

**Main statements.**
* `trim_eq_iff`: what is left when both ends are trimmed.
* `words_eq_iff`: the words of a text.
* `lines_append_cons`: the first line of a text.
-/

namespace CallProfiler.Text

/-- Nothing but blanks. -/
def Blanks (s : List Char) : Prop := ∀ c ∈ s, isBlank c = true

/-- No blank at either end. -/
structure Bare (s : List Char) : Prop where
  first : ∀ c ∈ s.head?, isBlank c = false
  last : ∀ c ∈ s.getLast?, isBlank c = false

theorem all_not_isBlank_iff
    {c? : Option Char} :
    c?.all (!isBlank ·) = true ↔ ∀ c ∈ c?, isBlank c = false := by
  simp [Option.all_eq_true]

instance (s : List Char) : Decidable (Bare s) :=
  decidable_of_iff (s.head?.all (!isBlank ·) = true ∧ s.getLast?.all (!isBlank ·) = true)
    ⟨fun ⟨first, last⟩ => ⟨all_not_isBlank_iff.1 first, all_not_isBlank_iff.1 last⟩,
      fun h => ⟨all_not_isBlank_iff.2 h.first, all_not_isBlank_iff.2 h.last⟩⟩

/-- A text and the blanks around it. -/
def Encloses (s middle : List Char) : Prop :=
  Bare middle ∧ ∃ before after, Blanks before ∧ Blanks after ∧ s = before ++ (middle ++ after)

/-- A word: no blank in it. -/
structure IsWord (w : List Char) : Prop where
  nonempty : w ≠ []
  solid : ∀ c ∈ w, isBlank c = false

instance (w : List Char) : Decidable (IsWord w) :=
  decidable_of_iff (w ≠ [] ∧ w.all (!isBlank ·) = true)
    ⟨fun ⟨nonempty, solid⟩ => ⟨nonempty, by simpa using solid⟩,
      fun h => ⟨h.nonempty, by simpa using h.solid⟩⟩

/-- What may follow a word: nothing, or a blank. -/
def Parted (rest : List Char) : Prop := ∀ c ∈ rest.head?, isBlank c = true

/-- A text consists of words, with blanks between them and maybe around them. -/
inductive Consists : List (List Char) → List Char → Prop where
  | blank
      {s : List Char}
      (hblanks : Blanks s) :
      Consists [] s
  | word
      {gap w rest : List Char} {more : List (List Char)}
      (hblanks : Blanks gap)
      (hword : IsWord w)
      (hparted : Parted rest)
      (hrest : Consists more rest) :
      Consists (w :: more) (gap ++ (w ++ rest))

/-! ## Blanks at the ends -/

theorem blanks_takeWhile
    (s : List Char) :
    Blanks (s.takeWhile isBlank) :=
  fun _ hc => List.mem_takeWhile_imp hc

theorem head?_dropWhile_isBlank
    (s : List Char) :
    ∀ c ∈ (s.dropWhile isBlank).head?, isBlank c = false := by
  intro c hc
  have hhead := List.head?_dropWhile_not isBlank s
  rw [Option.mem_def.1 hc] at hhead
  exact hhead

theorem dropWhile_blanks_append
    {gap rest : List Char}
    (hgap : Blanks gap)
    (hrest : ∀ c ∈ rest.head?, isBlank c = false) :
    (gap ++ rest).dropWhile isBlank = rest := by
  rw [List.dropWhile_append_of_pos hgap]
  cases rest with
  | nil =>
      rfl
  | cons c rest =>
      exact List.dropWhile_cons_of_neg (by simp [hrest c rfl])

theorem Blanks.trim_eq
    {s : List Char}
    (h : Blanks s) :
    trim s = [] := by
  have hnone : (s ++ []).dropWhile isBlank = [] := dropWhile_blanks_append h (by simp)
  rw [List.append_nil] at hnone
  rw [trim, hnone]
  rfl

/-- What is left has blanks around it. -/
theorem encloses_trim
    (s : List Char) :
    Encloses s (trim s) := by
  let core := s.dropWhile isBlank
  let after := (core.reverse.takeWhile isBlank).reverse
  have hcore : trim s ++ after = core := by
    rw [trim, ← List.reverse_append, List.takeWhile_append_dropWhile, List.reverse_reverse]
  refine ⟨⟨?_, ?_⟩, s.takeWhile isBlank, after, blanks_takeWhile s, ?_, ?_⟩
  · intro c hc
    refine head?_dropWhile_isBlank s c ?_
    rw [← show trim s ++ after = s.dropWhile isBlank from hcore, List.head?_append,
      Option.mem_def.1 hc]
    rfl
  · intro c hc
    rw [trim, List.getLast?_reverse] at hc
    exact head?_dropWhile_isBlank _ c hc
  · intro c hc
    exact blanks_takeWhile _ c (List.mem_reverse.1 hc)
  · rw [hcore, List.takeWhile_append_dropWhile]

/-- **Trimmed**, a text is what stands between the blanks at its ends. -/
theorem trim_eq_iff
    {s middle : List Char} :
    trim s = middle ↔ Encloses s middle := by
  constructor
  · rintro rfl
    exact encloses_trim s
  · rintro ⟨⟨hfirst, hlast⟩, before, after, hbefore, hafter, rfl⟩
    cases hmiddle : middle with
    | nil =>
        refine Blanks.trim_eq fun c hc => ?_
        rcases List.mem_append.1 hc with hc | hc
        · exact hbefore c hc
        · exact hafter c hc
    | cons c rest =>
        rw [← hmiddle]
        have hback : after.reverse ++ middle.reverse = (middle ++ after).reverse :=
          List.reverse_append.symm
        rw [trim, dropWhile_blanks_append hbefore, ← hback,
          dropWhile_blanks_append, List.reverse_reverse]
        · exact fun c hc => hafter c (List.mem_reverse.1 hc)
        · rw [List.head?_reverse]
          exact hlast
        · rw [hmiddle] at hfirst ⊢
          exact hfirst

/-! ## Splitting -/

variable {separator : Char → Bool} {s t : List Char} {c : Char}

theorem splitOn_of_none
    (h : ∀ d ∈ s, separator d = false) :
    splitOn separator s = [s] := by
  induction s with
  | nil =>
      rfl
  | cons d rest ih =>
      obtain ⟨hd, hrest⟩ := List.forall_mem_cons.1 h
      simp [splitOn, hd, ih hrest]

/-- The first run ends at the first separator. -/
theorem splitOn_append_cons
    (h : ∀ d ∈ s, separator d = false)
    (hc : separator c = true) :
    splitOn separator (s ++ c :: t) = s :: splitOn separator t := by
  induction s with
  | nil =>
      simp [splitOn, hc]
  | cons d rest ih =>
      obtain ⟨hd, hrest⟩ := List.forall_mem_cons.1 h
      simp [splitOn, hd, ih hrest]

theorem newline_separates
    (h : '\n' ∉ s) :
    ∀ d ∈ s, decide (d = '\n') = false :=
  fun _ hd => decide_eq_false fun hsame => h (hsame ▸ hd)

/-- A text with no end of line in it is one line. -/
theorem lines_of_notMem
    (h : '\n' ∉ s) :
    lines s = [s] :=
  splitOn_of_none (newline_separates h)

/-- **The first line** ends where the next one starts. -/
theorem lines_append_cons
    (h : '\n' ∉ s)
    (t : List Char) :
    lines (s ++ '\n' :: t) = s :: lines t :=
  splitOn_append_cons (newline_separates h) (decide_eq_true rfl)

/-! ## Words -/

theorem words_cons_of_blank
    (hc : isBlank c = true)
    (s : List Char) :
    words (c :: s) = words s := by
  simp [words, splitOn, hc]

theorem words_blanks_append
    {gap : List Char}
    (h : Blanks gap)
    (s : List Char) :
    words (gap ++ s) = words s := by
  induction gap with
  | nil =>
      rfl
  | cons c rest ih =>
      obtain ⟨hc, hrest⟩ := List.forall_mem_cons.1 h
      rw [List.cons_append, words_cons_of_blank hc, ih hrest]

theorem words_word_append
    {w rest : List Char}
    (hword : IsWord w)
    (hparted : Parted rest) :
    words (w ++ rest) = w :: words rest := by
  have hkept (more : List (List Char)) :
      (w :: more).filter (!·.isEmpty) = w :: more.filter (!·.isEmpty) :=
    List.filter_cons_of_pos (by simp [hword.nonempty])
  cases rest with
  | nil =>
      rw [List.append_nil, words, splitOn_of_none hword.solid, hkept]
      rfl
  | cons c rest =>
      have hc := hparted c rfl
      rw [words_cons_of_blank hc, words, splitOn_append_cons hword.solid hc, hkept]
      rfl

theorem isWord_takeWhile
    (hc : isBlank c = false)
    (rest : List Char) :
    IsWord ((c :: rest).takeWhile (!isBlank ·)) where
  nonempty := by
    simp [hc]
  solid d hd := by
    simpa using List.mem_takeWhile_imp hd

theorem parted_dropWhile
    (s : List Char) :
    Parted (s.dropWhile (!isBlank ·)) := by
  intro d hd
  have hhead := List.head?_dropWhile_not (!isBlank ·) s
  rw [Option.mem_def.1 hd] at hhead
  simpa using hhead

/-- The first word of a text that starts with one. -/
theorem words_cons_of_not_blank
    (hc : isBlank c = false)
    (rest : List Char) :
    words (c :: rest) =
      (c :: rest).takeWhile (!isBlank ·) :: words ((c :: rest).dropWhile (!isBlank ·)) := by
  rw [← words_word_append (isWord_takeWhile hc rest) (parted_dropWhile _),
    List.takeWhile_append_dropWhile]

/-- A text is blank, or starts with a word behind blanks. -/
theorem blanks_or_word
    (s : List Char) :
    Blanks s ∨ ∃ gap w rest, s = gap ++ (w ++ rest) ∧ Blanks gap ∧ IsWord w ∧ Parted rest := by
  have hs : s.takeWhile isBlank ++ s.dropWhile isBlank = s := List.takeWhile_append_dropWhile
  have hfirst := head?_dropWhile_isBlank s
  cases hcore : s.dropWhile isBlank with
  | nil =>
      left
      rw [← hs, hcore, List.append_nil]
      exact blanks_takeWhile s
  | cons c rest =>
      right
      rw [hcore] at hs hfirst
      refine ⟨_, _, _, ?_, blanks_takeWhile s, isWord_takeWhile (hfirst c rfl) rest,
        parted_dropWhile (c :: rest)⟩
      rw [List.takeWhile_append_dropWhile, hs]

theorem consists_words
    (s : List Char) :
    Consists (words s) s := by
  induction hlength : s.length using Nat.strongRecOn generalizing s with
  | _ n ih =>
      rcases blanks_or_word s with hblanks | ⟨gap, w, rest, rfl, hgap, hword, hparted⟩
      · have hnone := words_blanks_append hblanks []
        rw [List.append_nil] at hnone
        rw [hnone]
        exact .blank hblanks
      · have hshorter : rest.length < n := by
          have hpos := List.length_pos_iff.2 hword.nonempty
          rw [← hlength, List.length_append, List.length_append]
          omega
        rw [words_blanks_append hgap, words_word_append hword hparted]
        exact .word hgap hword hparted (ih _ hshorter rest rfl)

/-- **The words of a text** are what it consists of. -/
theorem words_eq_iff
    {ws : List (List Char)} :
    words s = ws ↔ Consists ws s := by
  constructor
  · rintro rfl
    exact consists_words s
  · intro h
    induction h with
    | blank hblanks =>
        have hnone := words_blanks_append hblanks []
        rwa [List.append_nil] at hnone
    | word hblanks hword hparted hrest ih =>
        rw [words_blanks_append hblanks, words_word_append hword hparted, ih]

end CallProfiler.Text
