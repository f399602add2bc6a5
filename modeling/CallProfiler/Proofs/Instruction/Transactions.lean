import CallProfiler.Instruction.Decode

/-!
# Which branches have narrow displacements

In 64-bit code the operand-size prefix has no part in the displacements of calls and jumps.  The one
displacement that it narrows to two bytes is that of the instruction that starts a transaction, and
no entry of the opcode maps gives such a displacement to another instruction.

**Main statements.**
* `marked_readOpcode`: the statement for every entry that opcode bytes select.
-/

namespace CallProfiler.Instruction

/-- A displacement as wide as the operands belongs to the start of a transaction. -/
def Form.Marked (f : Form) : Prop := f.immediate = .transactionTarget → f.flow = .transaction

namespace Entry

/-- All forms that an entry can select are marked. -/
def Marked : Entry → Prop
  | .invalid => True
  | .plain form => form.Marked
  | .withOperand select => ∀ m form, select m = some form → form.Marked

@[simp] theorem marked_invalid : Entry.invalid.Marked := trivial

@[simp] theorem marked_plain
    {form : Form} :
    (Entry.plain form).Marked ↔ (form.immediate = .transactionTarget → form.flow = .transaction) :=
  Iff.rfl

@[simp] theorem marked_withOperand
    {select : OperandByte → Option Form} :
    (Entry.withOperand select).Marked ↔
      ∀ m form, select m = some form → form.immediate = .transactionTarget → form.flow = .transaction :=
  Iff.rfl

@[simp] theorem Marked.ite
    {c : Prop} [Decidable c] {e e' : Entry}
    (h : e.Marked)
    (h' : e'.Marked) :
    (if c then e else e').Marked := by
  split
  · exact h
  · exact h'

variable {immediate : Immediate}

@[simp] theorem marked_simple
    (himm : immediate ≠ .transactionTarget) :
    (simple immediate).Marked := fun h => absurd h himm

@[simp] theorem marked_taking
    {takes : Takes}
    (himm : immediate ≠ .transactionTarget) :
    (taking takes immediate).Marked := by
  intro m form hform
  simp only at hform
  split at hform
  · cases hform
    exact fun h => absurd h himm
  · cases hform

@[simp] theorem marked_general
    (himm : immediate ≠ .transactionTarget) :
    (general immediate).Marked := by
  intro m form hform
  cases hform
  exact fun h => absurd h himm

@[simp] theorem marked_selected
    {s : Selector} {a b c d : Takes}
    (himm : immediate ≠ .transactionTarget) :
    (selected s a b c d immediate).Marked := by
  exact Marked.ite marked_invalid (marked_taking himm)

@[simp] theorem marked_narrow
    {mode : Mode} {e : Entry}
    (h : e.Marked) :
    (narrow mode e).Marked := by
  exact Marked.ite marked_invalid h

end Entry

/-! ## The opcode maps -/

namespace Opcode

variable (mode : Mode) (p : Prefixes) (s : Selector) (opcode : Nat)

theorem marked_arithmetic : (arithmetic mode opcode).Marked := by
  unfold arithmetic
  split <;> simp

theorem marked_immediateArithmetic
    {immediate : Immediate} (himm : immediate ≠ .transactionTarget) :
    (immediateArithmetic immediate).Marked := by
  unfold immediateArithmetic
  simp only [Entry.marked_withOperand]
  grind

theorem marked_stackAndPort : (stackAndPort mode opcode).Marked := by
  unfold stackAndPort
  split <;> simp

theorem marked_move : (move mode opcode).Marked := by
  unfold move
  split <;> simp [marked_immediateArithmetic]

theorem marked_exchange : (exchange mode p opcode).Marked := by
  unfold exchange
  split <;> simp

theorem marked_string : (string opcode).Marked := by
  unfold string
  split <;> simp

theorem marked_returnAndInterrupt : (returnAndInterrupt mode opcode).Marked := by
  unfold returnAndInterrupt
  split <;> simp <;> grind

theorem marked_shift : (shift mode opcode).Marked := by
  unfold shift
  split <;> simp

theorem marked_branch : (branch mode opcode).Marked := by
  unfold branch
  split <;> simp

theorem marked_flagAndUnary : (flagAndUnary opcode).Marked := by
  unfold flagAndUnary unary indirect
  split <;> simp <;> grind

theorem marked_floating : (floating opcode).Marked := by
  unfold floating
  simp only [Entry.marked_withOperand]
  grind

theorem marked_descriptor : (descriptor mode s).Marked := by
  unfold descriptor only
  simp only [Entry.marked_withOperand]
  grind

theorem marked_systemRegister
    {value : Nat} {form : Form}
    (h : systemRegister mode s value = some form) :
    form.immediate = .transactionTarget → form.flow = .transaction := by
  unfold systemRegister only at h
  simp only at h
  grind

theorem marked_system : (system mode s).Marked := by
  unfold system only
  simp only [Entry.marked_withOperand]
  grind [marked_systemRegister]

theorem marked_state : (state mode s).Marked := by
  unfold state
  simp only [Entry.marked_withOperand]
  grind

theorem marked_pairExchange : (pairExchange mode s).Marked := by
  unfold pairExchange only
  simp only [Entry.marked_withOperand]
  grind

theorem marked_controlRegister : (controlRegister p).Marked := by
  unfold controlRegister
  simp

theorem marked_debugRegister : (debugRegister p).Marked := by
  unfold debugRegister
  simp

theorem marked_cipher : (cipher opcode s).Marked := by
  unfold cipher only
  simp only [Entry.marked_withOperand]
  grind

theorem marked_access : (access mode s opcode).Marked := by
  unfold access
  split <;> simp [marked_descriptor, marked_system]

theorem marked_moveAndHint : (moveAndHint s opcode).Marked := by
  unfold moveAndHint
  split <;> simp

theorem marked_controlAndConvert : (controlAndConvert p opcode).Marked := by
  unfold controlAndConvert
  split <;> simp [marked_controlRegister, marked_debugRegister]

theorem marked_counter : (counter s opcode).Marked := by
  unfold counter
  split <;> simp

theorem marked_vectorArithmetic : (vectorArithmetic s opcode).Marked := by
  unfold vectorArithmetic
  split
  case h_19 =>
    split <;> simp
  all_goals simp
  all_goals grind

theorem marked_bitTest : (bitTest mode s opcode).Marked := by
  unfold bitTest
  split <;> simp [marked_cipher, marked_state]

theorem marked_bitScan : (bitScan s opcode).Marked := by
  unfold bitScan
  split <;> simp

theorem marked_element : (element mode s opcode).Marked := by
  unfold element
  split <;> simp [marked_pairExchange]

theorem marked_packed : (packed s opcode).Marked := by
  unfold packed
  split <;> simp

theorem marked_twoByte : (twoByte mode p opcode).Marked := by
  unfold twoByte
  refine .ite (marked_access ..) <| .ite (marked_moveAndHint ..) <|
    .ite (marked_controlAndConvert ..) <| .ite (marked_counter ..) <| .ite ?_ <|
    .ite (marked_vectorArithmetic ..) <| .ite ?_ <| .ite ?_ <| .ite (marked_bitTest ..) <|
    .ite (marked_bitScan ..) <| .ite (marked_element ..) (marked_packed ..)
  all_goals simp

theorem marked_vectorExtended : (vectorExtended mode s opcode).Marked := by
  unfold vectorExtended
  refine .ite (by simp) (.ite ?_ ?_)
  · split <;> simp
  · split
    case h_11 =>
      simp
      grind
    all_goals simp

theorem marked_vectorImmediate : (vectorImmediate s opcode).Marked := by
  unfold vectorImmediate
  simp only
  split <;> simp

theorem marked_oneByte : (oneByte mode p opcode).Marked := by
  unfold oneByte
  refine .ite (marked_arithmetic ..) <| .ite ?_ <| .ite (marked_stackAndPort ..) <| .ite ?_ <|
    .ite (marked_move ..) <| .ite (marked_exchange ..) <| .ite (marked_string ..) <| .ite ?_ <|
    .ite ?_ <| .ite (marked_returnAndInterrupt ..) <| .ite (marked_shift ..) <|
    .ite (marked_floating opcode) <| .ite (marked_branch ..) (marked_flagAndUnary ..)
  all_goals simp

end Opcode

/-- Every instruction that the opcode maps know is marked. -/
theorem marked_readOpcode
    {mode : Mode} {p : Prefixes} {bytes rest : List UInt8} {entry : Entry} {size : Nat}
    (h : readOpcode mode p bytes = some (entry, size, rest)) :
    entry.Marked := by
  unfold readOpcode at h
  split at h
  · cases h
  · split at h
    · cases h
    · cases h
      exact Opcode.marked_vectorExtended ..
    · cases h
      exact Opcode.marked_vectorImmediate ..
    · cases h
    · cases h
    · cases h
      exact Opcode.marked_twoByte ..
  · cases h
    exact Opcode.marked_oneByte ..

end CallProfiler.Instruction
