/-
  NodeGauge.Text.Case — lower-casing of a text. A code point has one lower-case form,
  with two exceptions: capital I with a dot becomes two code points, and a capital sigma
  at the end of a word becomes the final sigma.
-/

import NodeGauge.Text
import NodeGauge.Text.CaseData

namespace NodeGauge.Text

def inRanges (ranges : Array (Nat × Nat)) (c : Nat) : Bool := ranges.any fun r => r.1 ≤ c && c ≤ r.2

def isAsciiUpper (c : Nat) : Bool := 65 ≤ c && c ≤ 90

def isAsciiLower (c : Nat) : Bool := 97 ≤ c && c ≤ 122

def isCased (c : Nat) : Bool := if c < 0x80 then isAsciiUpper c || isAsciiLower c else inRanges casedRanges c

def isIgnorable (c : Nat) : Bool := inRanges ignorableRanges c

def lowerCode (c : Nat) : List Nat :=
  if c < 0x80 then [if isAsciiUpper c then c + 32 else c]
  else if c = 0x130 then [0x69, 0x307]
  else match lowerRanges.find? (·.holds c) with
    | some r => [(c + r.shift).toNat]
    | none => [c]

/-- Is the nearest code point that is not ignorable a cased one? -/
def meetsCased (codes : List Nat) : Bool := ((codes.dropWhile isIgnorable).head?.map isCased).getD false

/-- A sigma is final after a cased code point and with none after it; `before` is the
    text in front of it from its end. -/
def isFinalSigma (before after : List Nat) : Bool := meetsCased before && !meetsCased after

def lowerFrom : (before rest : List Nat) → List Nat
  | _, [] => []
  | before, c :: rest =>
    (if c = 0x3A3 then [if isFinalSigma before rest then 0x3C2 else 0x3C3] else lowerCode c) ++ lowerFrom (c :: before) rest

def lower (t : Text) : Text := ⟨lowerFrom [] t.codes⟩

end NodeGauge.Text
