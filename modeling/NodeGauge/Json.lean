/-
  NodeGauge.Json — the values of a JSON document and how the exporter reads them. An
  integer is exact at any size and apart from a double; an object keeps the order of
  its keys and holds each once.

  The readers take what the documents may hold for an integer, a truth value, a text or
  an address, and fail by the cause that says what they met instead.
-/

import NodeGauge.Double
import NodeGauge.Fault
import NodeGauge.Text.Case
import NodeGauge.Text.Digit

namespace NodeGauge

abbrev Table (κ ν : Type) := List (κ × ν)

namespace Table

variable {κ ν : Type} [DecidableEq κ]

/-- A key that is there keeps its place and takes the new value. -/
def put (t : Table κ ν) (k : κ) (v : ν) : Table κ ν :=
  match t with
  | [] => [(k, v)]
  | (j, w) :: r => if j = k then (k, v) :: r else (j, w) :: put r k v

def get? (t : Table κ ν) (k : κ) : Option ν := (t.find? (·.1 = k)).map (·.2)

def keys (t : Table κ ν) : List κ := t.map (·.1)

end Table

inductive Json where
  | null
  | bool (b : Bool)
  | int (n : Int)
  | double (x : Double)
  | text (t : Text)
  | list (items : List Json)
  | object (members : List (Text × Json))
  deriving Inhabited

namespace Json

/-! ## Integers -/

/-- The value of digits of which single underscores may stand between two; `none` if
    they are not such. `acc` is the value so far, `digitDue` tells whether a digit must come. -/
def readDigits : (acc : Nat) → (digitDue : Bool) → List Nat → Option Nat
  | acc, due, [] => if due then none else some acc
  | acc, due, c :: r =>
    match Text.digitValue? c with
    | some d => readDigits (10 * acc + d) false r
    | none => if c = 95 ∧ due = false then readDigits acc true r else none

def trim (cs : List Nat) : List Nat := ((cs.dropWhile Text.isBlank).reverse.dropWhile Text.isBlank).reverse

/-- The most digits an integer is read from, zeros in front included. -/
def maxDigits : Nat := 4300

def magnitude? (cs : List Nat) : Option Nat :=
  if maxDigits < (cs.filter (· != 95)).length then none else readDigits 0 true cs

/-- The integer a text spells: blanks around it, one sign at most, decimal digits of any
    script with single underscores between them. -/
def integerOfText? (t : Text) : Option Int :=
  match trim t.codes with
  | 43 :: r => (magnitude? r).map Int.ofNat
  | 45 :: r => (magnitude? r).map fun n => -(n : Int)
  | r => (magnitude? r).map Int.ofNat

def integerOfDouble : Double → Except Fault Int
  | .nan => .error .notInteger
  | .num s r _ => if r = infRank then .error .infinite else .ok (Double.truncate s r)

def toInt : Json → Except Fault Int
  | int n => .ok n
  | bool b => .ok (if b then 1 else 0)
  | double x => integerOfDouble x
  | text t => match integerOfText? t with
    | some n => .ok n
    | none => .error .notInteger
  | null | list _ | object _ => .error .wrongKind

/-! ## Other scalars -/

def truth : Json → Bool
  | null => false
  | bool b => b
  | int n => n != 0
  | double x => !x.isZero
  | text t => !t.isEmpty
  | list xs => !xs.isEmpty
  | object ms => !ms.isEmpty

def isNull : Json → Bool
  | null => true
  | _ => false

def lowered : Json → Except Fault Text
  | text t => .ok t.lower
  | _ => .error .noMembers

/-! ## Members -/

def member (j : Json) (key : Text) : Except Fault Json :=
  match j with
  | object ms => match Table.get? ms key with
    | some v => .ok v
    | none => .error (.missingKey key)
  | _ => .error .wrongKind

def memberD (j : Json) (key : Text) (default : Json) : Except Fault Json :=
  match j with
  | object ms => .ok ((Table.get? ms key).getD default)
  | _ => .error .noMembers

def entries : Json → Except Fault (List (Text × Json))
  | object ms => .ok ms
  | _ => .error .noMembers

/-- What stands in a value, in order: the items of a list, the keys of an object, the
    characters of a text. -/
def elements : Json → Except Fault (List Json)
  | list xs => .ok xs
  | object ms => .ok (ms.map fun m => .text m.1)
  | text t => .ok (t.characters.map .text)
  | _ => .error .wrongKind

end Json

end NodeGauge
