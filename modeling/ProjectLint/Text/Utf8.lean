/-
Bytes of a file and the text they spell. Each longest start of a character that the bytes do not
complete is read as one replacement character, so every sequence of bytes is some text.
-/

namespace ProjectLint

abbrev Bytes := List UInt8

namespace Text
namespace Utf8

structure Pending where
  bits : Nat
  owed : Nat
  low : Nat
  high : Nat

def Pending.ofLead (b : Nat) : Option Pending :=
  if 0xC2 ≤ b ∧ b ≤ 0xDF then some ⟨b - 0xC0, 1, 0x80, 0xBF⟩
  else if b = 0xE0 then some ⟨0, 2, 0xA0, 0xBF⟩
  else if b = 0xED then some ⟨0xD, 2, 0x80, 0x9F⟩
  else if 0xE1 ≤ b ∧ b ≤ 0xEF then some ⟨b - 0xE0, 2, 0x80, 0xBF⟩
  else if b = 0xF0 then some ⟨0, 3, 0x90, 0xBF⟩
  else if 0xF1 ≤ b ∧ b ≤ 0xF3 then some ⟨b - 0xF0, 3, 0x80, 0xBF⟩
  else if b = 0xF4 then some ⟨4, 3, 0x80, 0x8F⟩
  else none

def replacement : Char := Char.ofNat 0xFFFD

def begin (b : Nat) : List Char × Option Pending :=
  if b < 0x80 then ([Char.ofNat b], none)
  else
    match Pending.ofLead b with
    | some pending => ([], some pending)
    | none => ([replacement], none)

def decodeFrom : Option Pending → Bytes → List Char
  | none, [] => []
  | some _, [] => [replacement]
  | none, b :: bs =>
      let (spelled, pending) := begin b.toNat
      spelled ++ decodeFrom pending bs
  | some p, b :: bs =>
      if p.low ≤ b.toNat ∧ b.toNat ≤ p.high then
        let bits := p.bits * 64 + (b.toNat - 0x80)
        if p.owed ≤ 1 then Char.ofNat bits :: decodeFrom none bs
        else decodeFrom (some ⟨bits, p.owed - 1, 0x80, 0xBF⟩) bs
      else
        let (spelled, pending) := begin b.toNat
        replacement :: spelled ++ decodeFrom pending bs

def decode (bytes : Bytes) : String :=
  String.ofList (decodeFrom none bytes)

end Utf8
end Text
end ProjectLint
