/-!
# UTF-8

Bytes are read in pieces and decoded as they come. A piece may end inside a character, and the
characters before it are known all the same. No further piece is read once what is known is enough,
so the bytes behind may be anything.
-/

namespace CnfSolver.Text

def isContinuation (b : UInt8) : Bool := 0x80 ≤ b && b ≤ 0xBF

/-- The byte `b` can follow `a` at the start of a code point of three or four bytes. The narrower
ranges leave out numbers above the last code point and encodings longer than need be. -/
def canFollow (a b : UInt8) : Bool :=
  isContinuation b && (a != 0xE0 || 0xA0 ≤ b) && (a != 0xF0 || 0x90 ≤ b) &&
    (a != 0xF4 || b ≤ 0x8F)

/-- Bytes that begin the encoding of a code point and do not end it. Only where it ends is it known
to be a surrogate, which is no character. -/
def isUnfinished : List UInt8 → Bool
  | [a] => 0xC2 ≤ a && a ≤ 0xF4
  | [a, b] => 0xE0 ≤ a && a ≤ 0xF4 && canFollow a b
  | [a, b, c] => 0xF0 ≤ a && a ≤ 0xF4 && canFollow a b && isContinuation c
  | _ => false

/-- The characters that some bytes encode, and whether the bytes end inside one more. -/
structure Decoded where
  text : List Char
  isCut : Bool
  deriving DecidableEq, Repr

/-- The characters before the last `n` bytes, if these begin one more. -/
def decodeCut? (bytes : ByteArray) (n : Nat) : Option Decoded :=
  let start := bytes.size - n
  if isUnfinished (bytes.data.toList.drop start) then
    (String.fromUTF8? (bytes.extract 0 start)).map fun s => ⟨s.toList, true⟩
  else none

def decode? (bytes : ByteArray) : Option Decoded :=
  match String.fromUTF8? bytes with
  | some s => some ⟨s.toList, false⟩
  | none => [1, 2, 3].findSome? (decodeCut? bytes)

def pieceSize : Nat := 8192

def decodePieces? (bytes : ByteArray) (n : Nat) : Option Decoded :=
  decode? (bytes.extract 0 (n * pieceSize))

/-- Whether no piece is read behind those that decode to this. -/
def isLast (isEnough : List Char → Bool) : Option Decoded → Bool
  | some decoded => isEnough decoded.text
  | none => true

/-- How many pieces are read. The last one may be shorter, and all are read if none is enough. -/
def piecesRead (isEnough : List Char → Bool) (bytes : ByteArray) : Nat :=
  let count := bytes.size / pieceSize + 1
  ((List.range count).find? fun n => isLast isEnough (decodePieces? bytes n)).getD count

/-- The text that bytes hold, as far as it is read. At the end of the bytes no character may be
unfinished, unless that end does not matter any more. -/
def read? (isEnough : List Char → Bool) (bytes : ByteArray) : Option (List Char) :=
  (decodePieces? bytes (piecesRead isEnough bytes)).bind fun decoded =>
    if decoded.isCut && !isEnough decoded.text then none else some decoded.text

end CnfSolver.Text
