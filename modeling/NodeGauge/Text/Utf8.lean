/-
  NodeGauge.Text.Utf8 — UTF-8, read strictly: no form longer than needed, no surrogate,
  nothing above U+10FFFF, no byte out of place.
-/

import NodeGauge.Text

namespace NodeGauge

abbrev Bytes := List UInt8

namespace Text

def isContinuation (b : UInt8) : Bool := 0x80 ≤ b && b < 0xC0

/-- The six bits a continuation byte carries. -/
def low6 (b : UInt8) : Nat := b.toNat % 64

def decodeCodes : Bytes → Option (List Nat)
  | [] => some []
  | b :: r =>
    if b < 0x80 then (decodeCodes r).map (b.toNat :: ·)
    else match r with
      | [] => none
      | b1 :: r1 =>
        if 0xC2 ≤ b ∧ b < 0xE0 ∧ isContinuation b1 then
          (decodeCodes r1).map ((b.toNat % 32 * 64 + low6 b1) :: ·)
        else match r1 with
          | [] => none
          | b2 :: r2 =>
            let c := (b.toNat % 16 * 64 + low6 b1) * 64 + low6 b2
            if 0xE0 ≤ b ∧ b < 0xF0 ∧ isContinuation b1 ∧ isContinuation b2 ∧ 0x800 ≤ c ∧ ¬(0xD800 ≤ c ∧ c < 0xE000) then
              (decodeCodes r2).map (c :: ·)
            else match r2 with
              | [] => none
              | b3 :: r3 =>
                let d := ((b.toNat % 8 * 64 + low6 b1) * 64 + low6 b2) * 64 + low6 b3
                if 0xF0 ≤ b ∧ b < 0xF5 ∧ isContinuation b1 ∧ isContinuation b2 ∧ isContinuation b3 ∧
                    0x10000 ≤ d ∧ d < 0x110000 then
                  (decodeCodes r3).map (d :: ·)
                else none

def ofUtf8? (bs : Bytes) : Option Text := (decodeCodes bs).map Text.mk

def encodeCode (c : Nat) : Bytes :=
  let tail := fun k : Nat => UInt8.ofNat (0x80 + c >>> (6 * k) % 64)
  if c < 0x80 then [UInt8.ofNat c]
  else if c < 0x800 then [UInt8.ofNat (0xC0 + c / 64), tail 0]
  else if c < 0x10000 then [UInt8.ofNat (0xE0 + c / 4096), tail 1, tail 0]
  else [UInt8.ofNat (0xF0 + c / 262144), tail 2, tail 1, tail 0]

def isSurrogate (c : Nat) : Bool := 0xD800 ≤ c && c < 0xE000

def toUtf8 (t : Text) : Bytes := t.codes.flatMap encodeCode

end Text

end NodeGauge
