/-
  NodeGauge.Json.Reader — reading a JSON text. Besides the standard it takes `NaN`,
  `Infinity` and `-Infinity` for numbers and the escape of a lone surrogate. A number
  without fraction and exponent is an integer, any other the nearest double. Of a key
  that comes more than once the last value counts, at the first one's place. Of two
  faults in a text the first one counts.
-/

import NodeGauge.Double.Decimal
import NodeGauge.Json
import NodeGauge.Text.Utf8

namespace NodeGauge.Json.Reader

def isSpace (c : Nat) : Bool := c == 32 || c == 9 || c == 10 || c == 13

def skip (cs : List Nat) : List Nat := cs.dropWhile isSpace

def isDigit (c : Nat) : Bool := 48 ≤ c && c ≤ 57

def after? (word : String) (cs : List Nat) : Option (List Nat) :=
  let w := (Text.ofString word).codes
  if w.isPrefixOf cs then some (cs.drop w.length) else none

/-! ## Strings -/

def hexValue? (c : Nat) : Option Nat :=
  if 48 ≤ c ∧ c ≤ 57 then some (c - 48)
  else if 97 ≤ c ∧ c ≤ 102 then some (c - 87)
  else if 65 ≤ c ∧ c ≤ 70 then some (c - 55)
  else none

def hex4? (a b c d : Nat) : Option Nat := do
  return ((← hexValue? a) * 16 + (← hexValue? b)) * 256 + (← hexValue? c) * 16 + (← hexValue? d)

def escaped? (c : Nat) : Option Nat :=
  [(34, 34), (92, 92), (47, 47), (98, 8), (102, 12), (110, 10), (114, 13), (116, 9)].find? (·.1 == c) |>.map (·.2)

def isHigh (c : Nat) : Bool := 0xD800 ≤ c && c < 0xDC00

def isLow (c : Nat) : Bool := 0xDC00 ≤ c && c < 0xE000

/-- Escapes of a high and a low surrogate, one behind the other, are one character. -/
def joinPairs : List (Bool × Nat) → List Nat
  | (true, h) :: (true, l) :: r =>
    if isHigh h && isLow l then (0x10000 + (h - 0xD800) * 0x400 + (l - 0xDC00)) :: joinPairs r
    else h :: joinPairs ((true, l) :: r)
  | (_, c) :: r => c :: joinPairs r
  | [] => []

/-- The code points up to the closing quote, each with whether a numeric escape spelled
    it, and the rest behind the quote. A raw control character ends no string. -/
def stringUnits : List Nat → Option (List (Bool × Nat) × List Nat)
  | [] => none
  | 34 :: r => some ([], r)
  | 92 :: 117 :: a :: b :: c :: d :: r => do
    let v ← hex4? a b c d
    let (us, rest) ← stringUnits r
    return ((true, v) :: us, rest)
  | 92 :: e :: r => do
    let v ← escaped? e
    let (us, rest) ← stringUnits r
    return ((false, v) :: us, rest)
  | c :: r =>
    if c < 32 ∨ c = 92 then none
    else do
      let (us, rest) ← stringUnits r
      return ((false, c) :: us, rest)

def string? (cs : List Nat) : Option (Text × List Nat) := (stringUnits cs).map fun p => (⟨joinPairs p.1⟩, p.2)

/-! ## Numbers -/

def valueOf (ds : List Nat) : Nat := ds.foldl (fun n c => 10 * n + (c - 48)) 0

/-- A point and its digits; without a digit the point is not taken. -/
def fraction (cs : List Nat) : List Nat × List Nat :=
  match cs with
  | 46 :: r => match r.takeWhile isDigit with
    | [] => ([], cs)
    | ds => (ds, r.dropWhile isDigit)
  | _ => ([], cs)

def exponentSign : List Nat → Bool × List Nat
  | 43 :: r => (false, r)
  | 45 :: r => (true, r)
  | r => (false, r)

/-- The letter e, a sign and digits; without a digit nothing is taken. -/
def exponent (cs : List Nat) : Option Int × List Nat :=
  match cs with
  | c :: r =>
    if c = 101 ∨ c = 69 then
      let (neg, r1) := exponentSign r
      match r1.takeWhile isDigit with
      | [] => (none, cs)
      | ds => (some (if neg then -(valueOf ds : Int) else valueOf ds), r1.dropWhile isDigit)
    else (none, cs)
  | [] => (none, cs)

def wholeDigits (cs : List Nat) : List Nat × List Nat :=
  match cs with
  | 48 :: r => ([48], r)
  | _ => (cs.takeWhile isDigit, cs.dropWhile isDigit)

/-- The number whose sign has been read. An integer of too many digits is no fault of the
    form, but it has no value. -/
def number (neg : Bool) (cs : List Nat) : Except Fault (Json × List Nat) :=
  let (whole, r0) := wholeDigits cs
  if whole.isEmpty then .error .notJson
  else
    let (frac, r1) := fraction r0
    let (exp, r2) := exponent r1
    if frac.isEmpty ∧ exp.isNone then
      if maxDigits < whole.length then .error .notInteger
      else .ok (.int (if neg then -(valueOf whole : Int) else valueOf whole), r2)
    else
      .ok (.double (Double.ofDecimal neg (valueOf (whole ++ frac)) (exp.getD 0 - frac.length)), r2)

/-! ## Values -/

def scalar (cs : List Nat) : Except Fault (Json × List Nat) :=
  match cs with
  | 34 :: r => match string? r with
    | some (t, rest) => .ok (.text t, rest)
    | none => .error .notJson
  | 45 :: r => match after? "Infinity" r with
    | some rest => .ok (.double (Double.inf true), rest)
    | none => number true r
  | _ =>
    match after? "null" cs, after? "true" cs, after? "false" cs, after? "NaN" cs, after? "Infinity" cs with
    | some r, _, _, _, _ => .ok (.null, r)
    | _, some r, _, _, _ => .ok (.bool true, r)
    | _, _, some r, _, _ => .ok (.bool false, r)
    | _, _, _, some r, _ => .ok (.double .nan, r)
    | _, _, _, _, some r => .ok (.double (Double.inf false), r)
    | _, _, _, _, _ => number false cs

mutual

/-- A value with the rest behind it. Each call takes a character or hands on to one that
    does, so twice the length of the text is `fuel` enough. -/
def value : (fuel : Nat) → List Nat → Except Fault (Json × List Nat)
  | 0, _ => .error .notJson
  | fuel + 1, cs =>
    match cs with
    | 91 :: r => match skip r with
      | 93 :: rest => .ok (.list [], rest)
      | r1 => (items fuel r1).map fun p => (.list p.1, p.2)
    | 123 :: r => match skip r with
      | 125 :: rest => .ok (.object [], rest)
      | r1 => (members fuel [] r1).map fun p => (.object p.1, p.2)
    | _ => scalar cs

def items : (fuel : Nat) → List Nat → Except Fault (List Json × List Nat)
  | 0, _ => .error .notJson
  | fuel + 1, cs => do
    let (v, r) ← value fuel cs
    match skip r with
    | 93 :: rest => return ([v], rest)
    | 44 :: r1 =>
      let (vs, rest) ← items fuel (skip r1)
      return (v :: vs, rest)
    | _ => .error .notJson

/-- The members up to the closing brace, put behind those in `acc`. -/
def members : (fuel : Nat) → (acc : List (Text × Json)) → List Nat → Except Fault (List (Text × Json) × List Nat)
  | 0, _, _ => .error .notJson
  | fuel + 1, acc, cs =>
    match cs with
    | 34 :: r => match string? r with
      | none => .error .notJson
      | some (key, r1) => match skip r1 with
        | 58 :: r2 => do
          let (v, r3) ← value fuel (skip r2)
          let acc := Table.put acc key v
          match skip r3 with
          | 125 :: rest => return (acc, rest)
          | 44 :: r4 => members fuel acc (skip r4)
          | _ => .error .notJson
        | _ => .error .notJson
    | _ => .error .notJson

end

end Reader

def parse (t : Text) : Except Fault Json :=
  match Reader.value (2 * t.codes.length + 2) (Reader.skip t.codes) with
  | .ok (v, rest) => if (Reader.skip rest).isEmpty then .ok v else .error .notJson
  | .error f => .error f

/-- The value of the bytes of a file. Brackets may nest to any depth: unlike the limit on
    digits (`maxDigits`), the depth at which the stack of an interpreter ends is not modelled. -/
def ofBytes (bs : Bytes) : Except Fault Json :=
  match Text.ofUtf8? bs with
  | none => .error .notUtf8
  | some t => parse t

end NodeGauge.Json
