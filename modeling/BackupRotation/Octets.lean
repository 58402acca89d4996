import BackupRotation.Text.Digits
import BackupRotation.Text.Shown
/-! File names and file contents: text, or bytes that are no text in UTF-8. -/
namespace BackupRotation

inductive Octets where
  | text (s : String)
  | raw (bytes : List UInt8)
  deriving DecidableEq, Repr, Inhabited

namespace Octets

def shape? (lead : UInt8) : Option (Nat × UInt8 × UInt8) :=
  if 0xC2 ≤ lead ∧ lead ≤ 0xDF then some (1, 0x80, 0xBF)
  else if lead = 0xE0 then some (2, 0xA0, 0xBF)
  else if lead = 0xED then some (2, 0x80, 0x9F)
  else if 0xE1 ≤ lead ∧ lead ≤ 0xEF then some (2, 0x80, 0xBF)
  else if lead = 0xF0 then some (3, 0x90, 0xBF)
  else if 0xF1 ≤ lead ∧ lead ≤ 0xF3 then some (3, 0x80, 0xBF)
  else if lead = 0xF4 then some (3, 0x80, 0x8F)
  else none

inductive Piece where
  | char (c : Char)
  | broken (bytes : List UInt8)
  deriving DecidableEq, Repr

def follow : (count : Nat) → (low high : UInt8) → List UInt8 → List UInt8
  | count + 1, low, high, b :: bs =>
    if low ≤ b ∧ b ≤ high then b :: follow count 0x80 0xBF bs else []
  | _, _, _, _ => []

def codePoint (lead : UInt8) (following : List UInt8) : Nat :=
  following.foldl (fun n b => n * 64 + (b.toNat - 0x80))
    (lead.toNat % Nat.pow 2 (6 - following.length))

def pieceAt (b : UInt8) (bs : List UInt8) : Piece × Nat :=
  if b < 0x80 then (.char (Char.ofNat b.toNat), 0)
  else
    match shape? b with
    | none => (.broken [b], 0)
    | some (count, low, high) =>
      let following := follow count low high bs
      if following.length = count then (.char (Char.ofNat (codePoint b following)), count)
      else (.broken (b :: following), following.length)

def piecesAfter : (skip : Nat) → List UInt8 → List Piece
  | _, [] => []
  | skip + 1, _ :: bs => piecesAfter skip bs
  | 0, b :: bs =>
    let (piece, more) := pieceAt b bs
    piece :: piecesAfter more bs

def pieces (bs : List UInt8) : List Piece := piecesAfter 0 bs

def char? : Piece → Option Char
  | .char c => some c
  | .broken _ => none

def ofBytes (bs : List UInt8) : Octets :=
  match (pieces bs).mapM char? with
  | some cs => text (String.ofList cs)
  | none => raw bs

def toBytes : Octets → List UInt8
  | text s => s.toUTF8.toList
  | raw bs => bs

def size : Octets → Nat
  | text s => s.utf8ByteSize
  | raw bs => bs.length

def text? : Octets → Option String
  | text s => some s
  | raw _ => none

def shown : Octets → String
  | text s => s
  | raw bs => String.ofList ((pieces bs).map fun p => (char? p).getD '\uFFFD')

def hexByte (b : UInt8) : List Char :=
  [b.toNat / 16, b.toNat % 16].map fun d => (Text.hexChar d).toUpper

def quotedChar (c : Char) : List Char :=
  match c with
  | '\x00' => ['\\', '0']
  | '\t' => ['\\', 't']
  | '\n' => ['\\', 'n']
  | '\r' => ['\\', 'r']
  | '"' => ['\\', '"']
  | '\\' => ['\\', '\\']
  | c =>
    if Text.isShown c then [c]
    else '\\' :: 'u' :: '\x7b' :: Nat.toDigits 16 c.toNat ++ ['\x7d']

def quotedPiece : Piece → List Char
  | .char c => quotedChar c
  | .broken bs => bs.flatMap fun b => '\\' :: 'x' :: hexByte b

def quoted (o : Octets) : String :=
  String.ofList ('"' :: (pieces o.toBytes).flatMap quotedPiece ++ ['"'])

example :
    (ofBytes [0x61, 0xE2, 0x82, 0x62]).shown = "a\uFFFDb" ∧
      (ofBytes [0x61, 0xFF]).quoted = "\"a\\xFF\"" := by decide +kernel

end Octets
end BackupRotation
