/-!
The characters that bytes stand for: UTF-8, and the one-byte Windows encoding of western
languages for files that are not UTF-8.
-/

namespace SattLine.Text

/-- A byte that has no character, and its place in the file. -/
structure Undecodable where
  byte : UInt8
  position : Nat
  deriving DecidableEq, Repr

/-- The characters of the bytes from 0x80 to 0x9F; zero where there is none. -/
def windowsHighCodes : Array Nat := #[
  0x20AC, 0, 0x201A, 0x0192, 0x201E, 0x2026, 0x2020, 0x2021,
  0x02C6, 0x2030, 0x0160, 0x2039, 0x0152, 0, 0x017D, 0,
  0, 0x2018, 0x2019, 0x201C, 0x201D, 0x2022, 0x2013, 0x2014,
  0x02DC, 0x2122, 0x0161, 0x203A, 0x0153, 0, 0x017E, 0x0178]

/-- The character of a byte in the Windows encoding. Outside the stretch above, the byte is
the character's number. -/
def windowsChar? (byte : UInt8) : Option Char :=
  if byte < 0x80 || 0xA0 ≤ byte then some (Char.ofNat byte.toNat)
  else
    match windowsHighCodes[byte.toNat - 0x80]? with
    | some 0 => none
    | some code => some (Char.ofNat code)
    | none => none

/-- Decodes bytes of which the first stands at the given position. -/
def windowsChars (position : Nat) : List UInt8 → Except Undecodable (List Char)
  | [] => .ok []
  | byte :: rest =>
    match windowsChar? byte with
    | none => .error ⟨byte, position⟩
    | some c => do return c :: (← windowsChars (position + 1) rest)

def ofWindows (bytes : ByteArray) : Except Undecodable String :=
  (windowsChars 0 bytes.toList).map String.ofList

/-- UTF-8 if the bytes are valid UTF-8, the Windows encoding otherwise. -/
def ofBytes (bytes : ByteArray) : Except Undecodable String :=
  match String.fromUTF8? bytes with
  | some text => .ok text
  | none => ofWindows bytes

end SattLine.Text
