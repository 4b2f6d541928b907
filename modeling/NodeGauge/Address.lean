/-
  NodeGauge.Address — account addresses: 160 bits, spelled as 40 hexadecimal digits. In
  the checksummed spelling a letter is a capital where the digest of the lower-case
  digits has a digit of 8 or more at its place.
-/

import NodeGauge.Keccak
import NodeGauge.Json

namespace NodeGauge

namespace Hex

def value? (c : Nat) : Option Nat :=
  if 48 ≤ c ∧ c ≤ 57 then some (c - 48)
  else if 97 ≤ c ∧ c ≤ 102 then some (c - 87)
  else if 65 ≤ c ∧ c ≤ 70 then some (c - 55)
  else none

def code (d : Nat) : Nat := if d < 10 then 48 + d else 87 + d

def capital (d : Nat) : Nat := if d < 10 then 48 + d else 55 + d

/-- The lowest `width` hexadecimal digits of a number, the highest first. -/
def digits (width n : Nat) : List Nat := (List.range width).reverse.map fun i => n >>> (4 * i) % 16

def allDigits (n : Nat) : List Nat := digits (n.log2 / 4 + 1) n

def number (ds : List Nat) : Nat := ds.foldl (fun n d => 16 * n + d) 0

def ofByte (b : UInt8) : List Nat := [b.toNat / 16, b.toNat % 16]

def ofBytes (bs : Bytes) : List Nat := bs.flatMap ofByte

def pairs : List Nat → Bytes
  | a :: b :: r => UInt8.ofNat (16 * a + b) :: pairs r
  | _ => []

def text (ds : List Nat) : Text := ⟨ds.map code⟩

end Hex

structure Address where
  toNat : Nat
  lt : toNat < 1 <<< 160
  deriving DecidableEq, Repr

namespace Address

instance : Inhabited Address := ⟨⟨0, by decide⟩⟩

def ofNat (n : Nat) : Address := ⟨n % 1 <<< 160, Nat.mod_lt _ (by decide)⟩

def digits (a : Address) : List Nat := Hex.digits 40 a.toNat

def bytes (a : Address) : Bytes := Hex.pairs a.digits

def checksummedCodes (a : Address) : List Nat :=
  let digest := Hex.ofBytes (Keccak.digest (a.digits.map fun d => UInt8.ofNat (Hex.code d)))
  a.digits.zipWith (fun d h => if 8 ≤ h then Hex.capital d else Hex.code d) digest

def text (a : Address) : Text := "0x" ++ ⟨a.checksummedCodes⟩

def withoutMark : List Nat → List Nat
  | 48 :: 120 :: r => r
  | 48 :: 88 :: r => r
  | r => r

/-- Any spelling: 40 digits in any case, with or without `0x`. -/
def ofText? (t : Text) : Option Address :=
  let cs := withoutMark t.codes
  if cs.length = 40 then (cs.mapM Hex.value?).map fun ds => ofNat (Hex.number ds) else none

def ofChecksummed? (t : Text) : Option Address :=
  match ofText? t with
  | some a => if a.text = t then some a else none
  | none => none

/-- The address a document's value spells; an integer must have 40 digits of its own. -/
def ofJson : Json → Except Fault Address
  | .text t => match ofText? t with
    | some a => .ok a
    | none => .error .notAddress
  | .int n => ofInteger n
  | .bool b => ofInteger (if b then 1 else 0)
  | _ => .error .wrongKind
where
  ofInteger (n : Int) : Except Fault Address :=
    if (Hex.allDigits n.toNat).length = 40 then .ok (ofNat n.toNat) else .error .notAddress

end Address

end NodeGauge
