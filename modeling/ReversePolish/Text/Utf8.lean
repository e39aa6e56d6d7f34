import ReversePolish.Number.Decimal
import ReversePolish.Text.Quoted

/-!
Bytes as text in UTF-8.

Decoding cuts the bytes into pieces. A piece is a character, or the longest beginning of one that
the next byte, or the end of the bytes, cuts short; a byte that no character begins with is a
piece by itself.
-/

namespace ReversePolish.Utf8

inductive Reason
  | start
  | continuation
  | ending
  deriving DecidableEq

def Reason.text : Reason → String
  | .start => "invalid start byte"
  | .continuation => "invalid continuation byte"
  | .ending => "unexpected end of data"

inductive Piece
  | char (c : Char) (size : Nat)
  | bad (reason : Reason) (size : Nat)

def Piece.size : Piece → Nat
  | .char _ size => size
  | .bad _ size => size

/-- What a first byte says: its bits, the bounds of the second byte, and how many bytes follow. -/
structure Lead where
  bits : Nat
  low : Nat
  high : Nat
  follow : Nat

def lead? (b : Nat) : Option Lead :=
  if b < 0x80 then some ⟨b, 0x80, 0xbf, 0⟩
  else if b < 0xc2 then none
  else if b < 0xe0 then some ⟨b - 0xc0, 0x80, 0xbf, 1⟩
  else if b = 0xe0 then some ⟨0, 0xa0, 0xbf, 2⟩
  else if b = 0xed then some ⟨0xd, 0x80, 0x9f, 2⟩
  else if b < 0xf0 then some ⟨b - 0xe0, 0x80, 0xbf, 2⟩
  else if b = 0xf0 then some ⟨0, 0x90, 0xbf, 3⟩
  else if b < 0xf4 then some ⟨b - 0xf0, 0x80, 0xbf, 3⟩
  else if b = 0xf4 then some ⟨4, 0x80, 0x8f, 3⟩
  else none

/-- Reads `follow` more bytes after `size` that were good; the next has to lie within the bounds. -/
def takePiece (bits low high : Nat) : (follow size : Nat) → List UInt8 → Piece
  | 0, size, _ => .char (Char.ofNat bits) size
  | _ + 1, size, [] => .bad .ending size
  | follow + 1, size, b :: bs =>
    if low ≤ b.toNat && b.toNat ≤ high then
      takePiece (64 * bits + (b.toNat - 0x80)) 0x80 0xbf follow (size + 1) bs
    else .bad .continuation size

def firstPiece (b : UInt8) (rest : List UInt8) : Piece :=
  match lead? b.toNat with
  | some l => takePiece l.bits l.low l.high l.follow 1 rest
  | none => .bad .start 1

def pieces : List UInt8 → List Piece
  | [] => []
  | b :: rest =>
    let piece := firstPiece b rest
    piece :: pieces (rest.drop (piece.size - 1))
termination_by bytes => bytes.length
decreasing_by simp only [List.length_drop, List.length_cons]; omega

/-- The text of bytes, with one replacement character for each piece that is none. -/
def decodeLossy (bytes : List UInt8) : String :=
  String.ofList ((pieces bytes).map fun
    | .char c _ => c
    | .bad _ _ => Char.ofNat 0xfffd)

/-- A piece that is no character: its first byte, where it starts and ends, and what is wrong. -/
structure Fault where
  byte : UInt8
  start : Nat
  stop : Nat
  reason : Reason

def Fault.message (f : Fault) : String :=
  let byte := String.ofList (Text.hexDigits 2 f.byte.toNat)
  let place :=
    if f.stop = f.start + 1 then "byte 0x" ++ byte ++ " in position " ++ Decimal.ofNat f.start
    else "bytes in position " ++ Decimal.ofNat f.start ++ "-" ++ Decimal.ofNat (f.stop - 1)
  "'utf-8' codec can't decode " ++ place ++ ": " ++ f.reason.text

/-- The characters of pieces that start at index `pos` of the bytes. -/
def characters (bytes : List UInt8) (pos : Nat) : List Piece → Except Fault (List Char)
  | [] => .ok []
  | .char c size :: rest => do
    let cs ← characters bytes (pos + size) rest
    .ok (c :: cs)
  | .bad reason size :: _ => .error ⟨bytes.getD pos 0, pos, pos + size, reason⟩

def decode (bytes : List UInt8) : Except Fault (List Char) := characters bytes 0 (pieces bytes)

def encode (s : String) : List UInt8 := s.toList.flatMap String.utf8EncodeChar

end ReversePolish.Utf8
