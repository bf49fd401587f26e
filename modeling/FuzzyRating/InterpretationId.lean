/-!
Identifiers of interpretations: the 64-bit FNV-1a hash of the name's bytes.
-/

namespace FuzzyRating

/-- A 64-bit identifier computed from an interpretation's name. -/
structure InterpretationId where
  value : UInt64
  deriving DecidableEq, Repr

namespace InterpretationId

/-- One step of FNV-1a: mix in a byte, then multiply by the prime. -/
def mix (hash : UInt64) (byte : UInt8) : UInt64 :=
  (hash ^^^ byte.toUInt64) * 0x100000001b3

def ofName (name : String) : InterpretationId :=
  ⟨name.toUTF8.data.toList.foldl mix 0xcbf29ce484222325⟩

/-- Sixteen lower-case hexadecimal digits. -/
def hex (id : InterpretationId) : String :=
  let digits := Nat.toDigits 16 id.value.toNat
  String.ofList (List.replicate (16 - digits.length) '0' ++ digits)

/-- The form shown to users, `InterpretationId(cbf29ce484222325)`. -/
def text (id : InterpretationId) : String :=
  "InterpretationId(" ++ id.hex ++ ")"

end InterpretationId

end FuzzyRating
