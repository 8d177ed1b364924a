import LetLang.Text.Quoted

/-!
# Texts as octets

Files hold text in UTF-8. Decoding takes one octet at a time and knows, inside a character,
how many octets are owed and between which bounds the next one lies. The first octet that
cannot continue a character ends the decoding, and so does the end of the file inside a
character. Line ends are newlines, carriage returns, or both in a row.
-/

namespace LetLang
namespace Octets

/-- A character of which some octets have been read. -/
structure Partial where
  /-- The place of the first octet. -/
  start : Nat
  /-- The first octet. -/
  lead : Nat
  /-- How many octets have been read. -/
  used : Nat
  /-- How many octets are owed beyond the next one. -/
  owed : Nat
  /-- The least next octet. -/
  low : Nat
  /-- The greatest next octet. -/
  high : Nat
  /-- The bits read so far. -/
  bits : Nat

/-- Why a sequence of octets is no text. -/
inductive Reason
  | startByte
  | continuationByte
  | endOfData
deriving DecidableEq, Repr

/-- Octets that are no character: where they start, the first of them, how many they are,
and why. -/
structure Damage where
  start : Nat
  lead : Nat
  used : Nat
  reason : Reason
deriving DecidableEq, Repr

/-- The character that an octet above ASCII starts, if any. -/
def open? (start lead : Nat) : Option Partial :=
  let make (owed low high bits : Nat) : Option Partial :=
    some ⟨start, lead, 1, owed, low, high, bits⟩
  if lead < 0xC2 then none
  else if lead < 0xE0 then make 0 0x80 0xBF (lead % 0x20)
  else if lead = 0xE0 then make 1 0xA0 0xBF 0
  else if lead = 0xED then make 1 0x80 0x9F 0x0D
  else if lead < 0xF0 then make 1 0x80 0xBF (lead % 0x10)
  else if lead = 0xF0 then make 2 0x90 0xBF 0
  else if lead < 0xF4 then make 2 0x80 0xBF (lead % 0x08)
  else if lead = 0xF4 then make 2 0x80 0x8F 4
  else none

/-- Decodes the octets from that place on, in the middle of a character if one is given. -/
def decodeFrom (place : Nat) : Option Partial → List UInt8 → Except Damage (List Char)
  | none, [] => .ok []
  | some p, [] => .error ⟨p.start, p.lead, p.used, .endOfData⟩
  | none, b :: bs =>
    let n := b.toNat
    if n < 0x80 then do
      return Char.ofNat n :: (← decodeFrom (place + 1) none bs)
    else
      match open? place n with
      | none => .error ⟨place, n, 1, .startByte⟩
      | some p => decodeFrom (place + 1) (some p) bs
  | some p, b :: bs =>
    let n := b.toNat
    if p.low ≤ n ∧ n ≤ p.high then
      let bits := p.bits * 0x40 + n % 0x40
      match p.owed with
      | 0 => do return Char.ofNat bits :: (← decodeFrom (place + 1) none bs)
      | owed + 1 =>
          decodeFrom (place + 1)
            (some ⟨p.start, p.lead, p.used + 1, owed, 0x80, 0xBF, bits⟩) bs
    else
      .error ⟨p.start, p.lead, p.used, .continuationByte⟩

/-- Makes every line end a newline. -/
def unifyNewlines : List Char → List Char
  | '\r' :: '\n' :: cs => '\n' :: unifyNewlines cs
  | '\r' :: cs => '\n' :: unifyNewlines cs
  | c :: cs => c :: unifyNewlines cs
  | [] => []

/-- The text that octets stand for. -/
def decode (octets : List UInt8) : Except Damage String := do
  return String.ofList (unifyNewlines (← decodeFrom 0 none octets))

/-- The words for a reason. -/
def Reason.text : Reason → String
  | .startByte => "invalid start byte"
  | .continuationByte => "invalid continuation byte"
  | .endOfData => "unexpected end of data"

/-- Which octets are damaged, and why. -/
def Damage.description (d : Damage) : String :=
  let which :=
    if d.used = 1 then
      "byte 0x" ++ String.ofList (Text.hexadecimal 2 d.lead) ++
        " in position " ++ toString d.start
    else
      "bytes in position " ++ toString d.start ++ "-" ++ toString (d.start + d.used - 1)
  "UnicodeDecodeError: 'utf-8' codec can't decode " ++ which ++ ": " ++ d.reason.text

end Octets
end LetLang
