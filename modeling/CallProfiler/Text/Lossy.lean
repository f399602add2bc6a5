import CallProfiler.Instances

/-!
# Texts from any bytes

Bytes that encode no character are read as replacement characters: one for every longest run that
starts like a character and breaks off.
-/

namespace CallProfiler.Text

/-- Stands where bytes encode nothing. -/
def replacement : Char := '\ufffd'

/-- What a first byte asks for: how many bytes follow, and the bounds of the next one. -/
structure Lead where
  followers : Nat
  least : Nat
  greatest : Nat
  deriving DecidableEq

/-- What the first byte of a character of several bytes asks for. -/
def Lead.ofByte? (b : UInt8) : Option Lead :=
  let n := b.toNat
  if 0xC2 ≤ n ∧ n ≤ 0xDF then some ⟨1, 0x80, 0xBF⟩
  else if n = 0xE0 then some ⟨2, 0xA0, 0xBF⟩
  else if n = 0xED then some ⟨2, 0x80, 0x9F⟩
  else if 0xE1 ≤ n ∧ n ≤ 0xEF then some ⟨2, 0x80, 0xBF⟩
  else if n = 0xF0 then some ⟨3, 0x90, 0xBF⟩
  else if 0xF1 ≤ n ∧ n ≤ 0xF3 then some ⟨3, 0x80, 0xBF⟩
  else if n = 0xF4 then some ⟨3, 0x80, 0x8F⟩
  else none

/-- The bytes that follow a first byte as it asks for; fewer where a byte does not fit. -/
def Lead.taken (lead : Lead) : List UInt8 → List UInt8
  | [] => []
  | b :: rest =>
    if lead.least ≤ b.toNat ∧ b.toNat ≤ lead.greatest then
      b :: (rest.take (lead.followers - 1)).takeWhile fun b => 0x80 ≤ b && b < 0xC0
    else []

/-- The character of a first byte and the bytes that follow it. -/
def charOfBytes (first : UInt8) (followers : List UInt8) : Char :=
  let bits := first.toNat % 2 ^ (6 - followers.length)
  Char.ofNat (followers.foldl (fun n b => n * 64 + b.toNat % 64) bits)

/-- The characters of at most `fuel` runs. -/
def lossyChars : Nat → List UInt8 → List Char
  | 0, _ => []
  | _, [] => []
  | fuel + 1, b :: rest =>
    if b < 0x80 then Char.ofNat b.toNat :: lossyChars fuel rest
    else
      match Lead.ofByte? b with
      | none => replacement :: lossyChars fuel rest
      | some lead =>
        let taken := lead.taken rest
        (if taken.length = lead.followers then charOfBytes b taken else replacement) ::
          lossyChars fuel (rest.drop taken.length)

/-- The text that bytes encode, with replacements. -/
def lossy (bytes : List UInt8) : String := String.ofList (lossyChars bytes.length bytes)

end CallProfiler.Text
