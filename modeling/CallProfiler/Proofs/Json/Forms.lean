import CallProfiler.Proofs.Json.Spelling

/-!
# Values are read as they were written

A form is faithful if it reads every value from the front of its own text, whatever the layout, the
blanks in front and the text behind, and takes exactly that text.  Lists and records of faithful forms
are faithful, so a whole document gives back the value it was written for.

**Main statements.**
* `faithful_uint64`: numbers of 64 bits.
* `Faithful.map`, `Faithful.list`, `Faithful.record`: other values by their parts.
* `Faithful.parse_print`: a document on its own.
-/

namespace CallProfiler.Json

/-- Whatever is written in a form is read back. -/
structure Form.Faithful {α : Type} (form : Form α) : Prop where
  starts : ∀ (v : α) (layout : Layout) (depth : Nat),
    ∃ c more, spelled layout depth (form.write v) = c :: more ∧ Starts c
  reads : ∀ (v : α) (layout : Layout) (depth : Nat) {blanks rest : List Char},
    Blank blanks → Ends rest →
    form.read (blanks ++ (spelled layout depth (form.write v) ++ rest)) = .ok (v, rest)

namespace Form

variable {α β : Type}

/-! ## Numbers -/

theorem readInteger_toString
    {low high n : Int} {blanks rest : List Char}
    (hlow : low ≤ n ∧ -2 ^ 63 ≤ n)
    (hhigh : n ≤ high ∧ n < 2 ^ 64)
    (hblanks : Blank blanks)
    (hrest : Ends rest) :
    readInteger low high (blanks ++ ((toString n).toList ++ rest)) = .ok (n, rest) := by
  obtain ⟨c, more, hfirst, hc⟩ := head_toString_int n
  have hskip : skipBlanks (blanks ++ ((toString n).toList ++ rest)) = (toString n).toList ++ rest := by
    rw [hfirst]
    exact skipBlanks_append_cons hblanks (starts_of_startsNumber hc).1 _
  have hstarts : ((toString n).toList ++ rest).head?.any startsNumber = true := by
    rw [hfirst]
    exact hc
  unfold readInteger
  simp only [hskip, hstarts, readNumber_toString hlow.2 hhigh.2 hrest, if_true]
  rw [if_pos ⟨hlow.1, hhigh.1⟩]

/-- **Numbers of 64 bits** are read as they were written. -/
theorem faithful_uint64 :
    uint64.Faithful where
  starts := by
    intro v layout depth
    obtain ⟨c, more, hfirst, hc⟩ := head_toString_int (v.toNat : Int)
    exact ⟨c, more, (spelled_integer _).trans hfirst, starts_of_startsNumber hc⟩
  reads := by
    intro v layout depth blanks rest hblanks hrest
    have hlt := v.toNat_lt
    have hread : readInteger 0 (2 ^ 64 - 1) (blanks ++ ((toString (v.toNat : Int)).toList ++ rest)) =
        .ok ((v.toNat : Int), rest) :=
      readInteger_toString ⟨by omega, by omega⟩ ⟨by omega, by omega⟩ hblanks hrest
    have hwrite : uint64.write v = .integer v.toNat := rfl
    have hvalue : UInt64.ofNat (Int.toNat (v.toNat : Int)) = v := by simp
    rw [hwrite, spelled_integer]
    simp only [uint64, natural, integer, Form.map, hread, Except.map, hvalue]

theorem Faithful.map
    {form : Form α} {f : α → β} {g : β → α}
    (h : form.Faithful)
    (hback : ∀ v, f (g v) = v) :
    (form.map f g).Faithful where
  starts := fun v layout depth => h.starts (g v) layout depth
  reads := by
    intro v layout depth blanks rest hblanks hrest
    have hread := h.reads (g v) layout depth hblanks hrest
    simp only [Form.map, hread, Except.map, hback]

/-! ## Lists -/

/-- The other values of a list are read onto those read before, the text counting them. -/
theorem Faithful.readItems_more
    {form : Form α}
    (h : form.Faithful)
    (layout : Layout) (depth : Nat) (items done : List α) (rest fuel : List Char)
    (hfuel : items.length < fuel.length) :
    form.readItems fuel false done
        (spelledItems layout depth (items.map form.write) ++ (layout.newLine depth ++ ']' :: rest)) =
      .ok (done.reverse ++ items, layout.newLine depth ++ ']' :: rest) := by
  induction items generalizing done fuel with
  | nil =>
      obtain _ | ⟨c, fuel⟩ := fuel
      · simp at hfuel
      · rw [List.map_nil, spelledItems_nil, List.nil_append, readItems,
          nextItem_end (blank_newLine layout depth)]
        simp
  | cons v items ih =>
      obtain _ | ⟨c, fuel⟩ := fuel
      · simp at hfuel
      · obtain ⟨first, more, hfirst, hstarts⟩ := h.starts v layout (depth + 1)
        have hread := h.reads v layout (depth + 1) blank_nil
          (ends_items layout depth (items.map form.write) rest)
        rw [List.nil_append, hfirst] at hread
        rw [List.map_cons, spelledItems_cons, List.cons_append, List.append_assoc, List.append_assoc,
          hfirst, readItems]
        rw [List.cons_append, nextItem_more (blank_newLine layout (depth + 1)) hstarts]
        rw [List.cons_append] at hread
        simp only [hread]
        rw [ih (v :: done) fuel (by simpa using hfuel)]
        simp

/-- All values of a list, of which there is one at least. -/
theorem Faithful.readItems_first
    {form : Form α}
    (h : form.Faithful)
    (layout : Layout) (depth : Nat) (v : α) (items : List α) (rest fuel : List Char)
    (hfuel : items.length + 1 < fuel.length) :
    form.readItems fuel true []
        (layout.newLine (depth + 1) ++ (spelled layout (depth + 1) (form.write v) ++
          (spelledItems layout depth (items.map form.write) ++ (layout.newLine depth ++ ']' :: rest)))) =
      .ok (v :: items, layout.newLine depth ++ ']' :: rest) := by
  obtain _ | ⟨c, fuel⟩ := fuel
  · simp at hfuel
  · obtain ⟨first, more, hfirst, hstarts⟩ := h.starts v layout (depth + 1)
    have hread := h.reads v layout (depth + 1) blank_nil
      (ends_items layout depth (items.map form.write) rest)
    rw [List.nil_append, hfirst, List.cons_append] at hread
    rw [hfirst, List.cons_append, readItems, nextItem_first (blank_newLine layout (depth + 1)) hstarts]
    simp only [hread]
    rw [h.readItems_more layout depth items [v] rest fuel (by simpa using hfuel)]
    simp

theorem length_le_spelledItems
    (layout : Layout) (depth : Nat) (items : List Json) :
    items.length ≤ (spelledItems layout depth items).length := by
  induction items with
  | nil =>
      exact Nat.zero_le _
  | cons value rest ih =>
      rw [spelledItems_cons]
      simp only [List.length_cons, List.length_append]
      omega

/-- **Lists** of faithful values. -/
theorem Faithful.list
    {form : Form α}
    (h : form.Faithful) :
    form.list.Faithful where
  starts := by
    intro items layout depth
    cases items with
    | nil => exact ⟨_, _, spelled_list_nil, by decide, by decide, by decide⟩
    | cons v items => exact ⟨_, _, spelled_list_cons _ _, by decide, by decide, by decide⟩
  reads := by
    intro items layout depth blanks rest hblanks hrest
    cases items with
    | nil =>
        have hspelled : spelled layout depth (form.list.write []) = ['[', ']'] := spelled_list_nil
        have hend := nextItem_end blank_nil true rest
        have hmark := skipMark_append blank_nil ']' (by decide) rest
        rw [List.nil_append] at hend hmark
        rw [hspelled]
        simp only [Form.list, List.cons_append, List.nil_append,
          skipBlanks_append_cons hblanks (show isBlank '[' = false by decide), readItems, hend,
          List.reverse_nil, hmark, Except.map]
    | cons v items =>
        have hspelled : spelled layout depth (.list (form.write v :: items.map form.write)) = _ :=
          spelled_list_cons (form.write v) (items.map form.write)
        have hwrite : form.list.write (v :: items) = .list (form.write v :: items.map form.write) := rfl
        have hlength := length_le_spelledItems layout depth (items.map form.write)
        have hitems := h.readItems_first layout depth v items rest
          (layout.newLine (depth + 1) ++ (spelled layout (depth + 1) (form.write v) ++
            (spelledItems layout depth (items.map form.write) ++ (layout.newLine depth ++ ']' :: rest))))
          (by
            obtain ⟨first, more, hfirst, -⟩ := h.starts v layout (depth + 1)
            simp only [List.length_map] at hlength
            simp only [hfirst, List.length_append, List.length_cons]
            omega)
        have hmark := skipMark_append (blank_newLine layout depth) ']' (by decide) rest
        rw [hwrite, hspelled]
        simp only [Form.list, List.cons_append, List.append_assoc, List.nil_append,
          skipBlanks_append_cons hblanks (show isBlank '[' = false by decide), hitems, hmark, Except.map]

end Form

/-! ## Records -/

namespace Fields

variable {ρ : Type}

/-- All fields have faithful forms. -/
def Faithful : {ρ : Type} → Fields ρ → Prop
  | _, .done => True
  | _, .field _ form rest => form.Faithful ∧ rest.Faithful

/-- The names of the fields. -/
def names : {ρ : Type} → Fields ρ → List String
  | _, .done => []
  | _, .field name _ rest => name :: rest.names

/-- The slots when the first fields have been read. -/
def filled : {ρ : Type} → (f : Fields ρ) → Nat → ρ → f.Slots
  | _, .done, _, _ => ()
  | _, .field _ _ rest, 0, _ => (none, rest.unread)
  | _, .field _ _ rest, count + 1, (v, vs) => (some v, rest.filled count vs)

theorem filled_zero
    (f : Fields ρ) (v : ρ) :
    f.filled 0 v = f.unread := by
  cases f <;> rfl

theorem map_fst_write
    (f : Fields ρ) (v : ρ) :
    (f.write v).map (·.1) = f.names := by
  induction f with
  | done => rfl
  | field name form rest ih => exact congrArg (name :: ·) (ih v.2)

theorem complete?_filled
    (f : Fields ρ) (v : ρ) :
    f.complete? (f.filled f.names.length v) = some v := by
  induction f with
  | done =>
      rfl
  | field name form rest ih =>
      obtain ⟨v, vs⟩ := v
      simp only [names, List.length_cons, filled, complete?, ih vs]

/-- The next field is read into its slot. -/
theorem accept_filled
    {f : Fields ρ} {v : ρ} {count : Nat} {name : String} {value : Json}
    (h : f.Faithful)
    (hnames : f.names.Nodup)
    (hfield : (f.write v)[count]? = some (name, value))
    (layout : Layout) (depth : Nat) {rest : List Char}
    (hrest : Ends rest) :
    f.accept name.toList (f.filled count v)
        (layout.colon ++ (spelled layout depth value ++ rest)) =
      .ok (f.filled (count + 1) v, rest) := by
  obtain ⟨blanks, hcolon, hblanks⟩ := exists_colon layout
  induction f generalizing count with
  | done =>
      simp [write] at hfield
  | field own form others ih =>
      obtain ⟨v, vs⟩ := v
      obtain ⟨hfresh, hothers⟩ := List.nodup_cons.1 hnames
      cases count with
      | zero =>
          have hown : own = name ∧ form.write v = value := by
            simpa [write] using hfield
          obtain ⟨rfl, rfl⟩ := hown
          have hread := h.1.reads v layout depth hblanks hrest
          have hmark : skipMark ':' (layout.colon ++ (spelled layout depth (form.write v) ++ rest)) =
              .ok (blanks ++ (spelled layout depth (form.write v) ++ rest)) := by
            rw [hcolon]
            exact skipMark_append blank_nil ':' (by decide) _
          simp only [accept, filled, filled_zero, if_true, hmark, hread, bind, Except.bind,
            Option.isSome_none, Bool.false_eq_true, if_false, pure, Except.pure]
      | succ count =>
          have hfield' : (others.write vs)[count]? = some (name, value) := hfield
          have hmem : name ∈ others.names := by
            have hthere := List.mem_map_of_mem (f := (·.1)) (List.mem_of_getElem? hfield')
            rwa [map_fst_write] at hthere
          have hother : name.toList ≠ own.toList := by
            intro heq
            rw [String.toList_inj] at heq
            exact hfresh (heq ▸ hmem)
          simp only [accept, filled, hother, if_false, ih h.2 hothers hfield', bind, Except.bind,
            pure, Except.pure]

theorem drop_of_getElem?
    {α : Type} {l : List α} {count : Nat} {x : α}
    (h : l[count]? = some x) :
    l.drop count = x :: l.drop (count + 1) := by
  obtain ⟨hlt, rfl⟩ := List.getElem?_eq_some_iff.1 h
  exact List.drop_eq_getElem_cons hlt

/-- The other fields are read, the text counting them. -/
theorem readNamed_more
    {f : Fields ρ} {v : ρ}
    (h : f.Faithful)
    (hnames : f.names.Nodup)
    (layout : Layout) (depth : Nat) (rest fuel : List Char) (count : Nat)
    (hcount : count ≤ f.names.length)
    (hfuel : f.names.length - count < fuel.length) :
    f.readNamed fuel false (f.filled count v)
        (spelledFields layout depth ((f.write v).drop count) ++ (layout.newLine depth ++ '\x7d' :: rest)) =
      .ok (f.filled f.names.length v, layout.newLine depth ++ '\x7d' :: rest) := by
  have hlength : (f.write v).length = f.names.length := by
    rw [← map_fst_write f v, List.length_map]
  induction fuel generalizing count with
  | nil =>
      simp at hfuel
  | cons c fuel ih =>
      cases hfield : (f.write v)[count]? with
      | none =>
          have hlast : count = f.names.length := by
            have hle := List.getElem?_eq_none_iff.1 hfield
            omega
          rw [List.drop_eq_nil_of_le (by omega), spelledFields_nil, List.nil_append, readNamed,
            nextName_end (blank_newLine layout depth), hlast]
      | some field =>
          obtain ⟨name, value⟩ := field
          have hlt : count < f.names.length := by
            have hlt := (List.getElem?_eq_some_iff.1 hfield).1
            omega
          have haccept := accept_filled h hnames hfield layout (depth + 1)
            (ends_fields layout depth ((f.write v).drop (count + 1)) rest)
          rw [drop_of_getElem? hfield, spelledFields_cons, List.cons_append, List.append_assoc,
            List.append_assoc, spelledField, List.append_assoc, readNamed,
            nextName_more (blank_newLine layout (depth + 1)), List.append_assoc]
          simp only [haccept]
          exact ih (count + 1) (by omega) (by simp only [List.length_cons] at hfuel; omega)

/-- All fields, of which there is one at least. -/
theorem readNamed_first
    {f : Fields ρ} {v : ρ} {name : String} {value : Json} {others : List (String × Json)}
    (h : f.Faithful)
    (hnames : f.names.Nodup)
    (hwrite : f.write v = (name, value) :: others)
    (layout : Layout) (depth : Nat) (rest fuel : List Char)
    (hfuel : f.names.length < fuel.length) :
    f.readNamed fuel true f.unread
        (layout.newLine (depth + 1) ++ (spelledField layout (depth + 1) name value ++
          (spelledFields layout depth others ++ (layout.newLine depth ++ '\x7d' :: rest)))) =
      .ok (f.filled f.names.length v, layout.newLine depth ++ '\x7d' :: rest) := by
  have hlength : (f.write v).length = f.names.length := by
    rw [← map_fst_write f v, List.length_map]
  obtain _ | ⟨c, fuel⟩ := fuel
  · simp at hfuel
  · have hfield : (f.write v)[0]? = some (name, value) := by
      rw [hwrite]
      rfl
    have hothers : (f.write v).drop (0 + 1) = others := by
      rw [hwrite]
      rfl
    have hsome : 0 + 1 ≤ f.names.length := by
      rw [← hlength, hwrite, List.length_cons]
      omega
    have haccept := accept_filled h hnames hfield layout (depth + 1)
      (ends_fields layout depth others rest)
    have hmore := readNamed_more (v := v) h hnames layout depth rest fuel (0 + 1)
      hsome (by simp only [List.length_cons] at hfuel; omega)
    rw [hothers] at hmore
    rw [spelledField, List.append_assoc, readNamed, nextName_first (blank_newLine layout (depth + 1)),
      List.append_assoc]
    rw [filled_zero] at haccept
    simp only [haccept]
    exact hmore

theorem length_le_spelledFields
    (layout : Layout) (depth : Nat) (fields : List (String × Json)) :
    fields.length ≤ (spelledFields layout depth fields).length := by
  induction fields with
  | nil =>
      exact Nat.zero_le _
  | cons field rest ih =>
      rw [spelledFields_cons]
      simp only [List.length_cons, List.length_append]
      omega

end Fields

namespace Form

variable {ρ α : Type}

/-- **Records** of faithful values under distinct names. -/
theorem faithful_record
    {f : Fields ρ}
    (h : f.Faithful)
    (hnames : f.names.Nodup) :
    (record f).Faithful where
  starts := by
    intro v layout depth
    change ∃ c more, spelled layout depth (.record (f.write v)) = c :: more ∧ Starts c
    cases f.write v with
    | nil => exact ⟨_, _, spelled_record_nil, by decide, by decide, by decide⟩
    | cons field others => exact ⟨_, _, spelled_record_cons _ _ _, by decide, by decide, by decide⟩
  reads := by
    intro v layout depth blanks rest hblanks hrest
    have hcomplete := f.complete?_filled v
    have hlength : (f.write v).length = f.names.length := by
      rw [← Fields.map_fst_write f v, List.length_map]
    change (record f).read (blanks ++ (spelled layout depth (.record (f.write v)) ++ rest)) = .ok (v, rest)
    cases hwrite : f.write v with
    | nil =>
        have hnone : f.names.length = 0 := by
          rw [← hlength, hwrite]
          rfl
        have hend := nextName_end blank_nil true rest
        have hmark := skipMark_append blank_nil '\x7d' (by decide) rest
        rw [List.nil_append] at hend hmark
        rw [hnone, Fields.filled_zero] at hcomplete
        rw [spelled_record_nil]
        simp only [record, List.cons_append, List.nil_append,
          skipBlanks_append_cons hblanks (show isBlank '\x7b' = false by decide), Fields.readNamed, hend,
          bind, Except.bind, hcomplete, hmark, pure, Except.pure]
    | cons field others =>
        obtain ⟨name, value⟩ := field
        have hothers := Fields.length_le_spelledFields layout depth others
        have hnamed := Fields.readNamed_first h hnames hwrite layout depth rest
          (layout.newLine (depth + 1) ++ (spelledField layout (depth + 1) name value ++
            (spelledFields layout depth others ++ (layout.newLine depth ++ '\x7d' :: rest))))
          (by
            rw [hwrite] at hlength
            simp only [List.length_cons] at hlength
            simp only [spelledField, quoted, List.length_append, List.length_cons]
            omega)
        have hmark := skipMark_append (blank_newLine layout depth) '\x7d' (by decide) rest
        rw [spelled_record_cons]
        simp only [record, List.cons_append, List.append_assoc, List.nil_append,
          skipBlanks_append_cons hblanks (show isBlank '\x7b' = false by decide), hnamed,
          bind, Except.bind, hcomplete, hmark, pure, Except.pure]

/-- **A document** on its own gives back the value it was written for. -/
theorem Faithful.parse_print
    {form : Form α}
    (h : form.Faithful)
    (layout : Layout) (v : α) :
    form.parse ((form.write v).print layout) = .ok v := by
  have hread := h.reads v layout 0 blank_nil ends_nil
  rw [List.nil_append, List.append_nil] at hread
  change form.parse (spelled layout 0 (form.write v)) = .ok v
  simp only [parse, hread]
  rfl

end Form

end CallProfiler.Json
