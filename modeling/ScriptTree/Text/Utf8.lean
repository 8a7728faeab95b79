/-! Validation of UTF-8.

A byte sequence is read one scalar value at a time. The lead byte fixes the ranges from which the
bytes after it must come: the second byte of some leads has a narrower range, which keeps out
overlong forms, surrogates and values past U+10FFFF. The first byte out of its range ends the
longest prefix of a well-formed sequence, and a fault counts the bytes of that prefix; when the text
ends first, the sequence is incomplete. -/
namespace ScriptTree.Utf8

/-- Why bytes are not UTF-8: the bytes before `validUpTo` are, and there a sequence is broken off
after `length` bytes, or the input ends inside it. -/
structure Fault where
  validUpTo : Nat
  length : Option Nat
deriving DecidableEq, Repr

namespace Fault

def message (fault : Fault) : String :=
  match fault.length with
  | some n => s!"invalid utf-8 sequence of {n} bytes from index {fault.validUpTo}"
  | none => s!"incomplete utf-8 byte sequence from index {fault.validUpTo}"

end Fault

/-- The bytes allowed after a lead byte, lowest and highest of each place; `none` if no sequence
starts with the byte. -/
def followers (lead : UInt8) : Option (List (UInt8 × UInt8)) :=
  if lead < 0x80 then some []
  else if lead < 0xC2 then none
  else if lead < 0xE0 then some [(0x80, 0xBF)]
  else if lead == 0xE0 then some [(0xA0, 0xBF), (0x80, 0xBF)]
  else if lead == 0xED then some [(0x80, 0x9F), (0x80, 0xBF)]
  else if lead < 0xF0 then some [(0x80, 0xBF), (0x80, 0xBF)]
  else if lead == 0xF0 then some [(0x90, 0xBF), (0x80, 0xBF), (0x80, 0xBF)]
  else if lead < 0xF4 then some [(0x80, 0xBF), (0x80, 0xBF), (0x80, 0xBF)]
  else if lead == 0xF4 then some [(0x80, 0x8F), (0x80, 0xBF), (0x80, 0xBF)]
  else none

/-- Looks for a fault in `bytes`. A sequence that started at `start` has `taken` bytes behind it and
still needs the places of `pending`; with none pending, the next byte leads. -/
def scan (start taken : Nat) (pending : List (UInt8 × UInt8)) : List UInt8 → Option Fault
  | [] => if pending.isEmpty then none else some ⟨start, none⟩
  | b :: bytes =>
    match pending with
    | [] =>
      match followers b with
      | some ranges => scan (start + taken) 1 ranges bytes
      | none => some ⟨start + taken, some 1⟩
    | (low, high) :: rest =>
      if low ≤ b && b ≤ high then scan start (taken + 1) rest bytes else some ⟨start, some taken⟩

/-- The first fault of a byte sequence, if it is not UTF-8. -/
def fault? (bytes : ByteArray) : Option Fault := scan 0 0 [] bytes.toList

/-- The text that the bytes encode. -/
def decode (bytes : ByteArray) : Except Fault String :=
  match fault? bytes with
  | some fault => .error fault
  | none => .ok ((String.fromUTF8? bytes).getD "")

end ScriptTree.Utf8
