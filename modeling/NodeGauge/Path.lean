/-
  NodeGauge.Path — the names of a path and what a system does not take for a name. A
  surrogate from U+DC80 to U+DCFF stands for a byte of its own, any other has no bytes.
-/

import NodeGauge.Fault
import NodeGauge.Text.Utf8

namespace NodeGauge.Path

/-- The names between the slashes of a path, empty ones too. -/
def split (path : Text) : List Text := path.codes.foldr put [Text.empty]
where
  put (c : Nat) : List Text → List Text
    | [] => [⟨[c]⟩]
    | n :: rest => if c = 47 then Text.empty :: n :: rest else ⟨c :: n.codes⟩ :: rest

def join : List Text → Text
  | [] => Text.empty
  | [n] => n
  | n :: rest => n ++ "/" ++ join rest

def stays (name : Text) : Bool := name.isEmpty || name == "."

def isByteEscape (c : Nat) : Bool := 0xDC80 ≤ c && c ≤ 0xDCFF

def bytes (t : Text) : Bytes :=
  t.codes.flatMap fun c => if isByteEscape c then [UInt8.ofNat (c - 0xDC00)] else Text.encodeCode c

def fault? (name : Text) : Option FileFault :=
  if name.codes.any fun c => Text.isSurrogate c && !isByteEscape c then some .unencodable
  else if name.codes.contains 0 then some .nulInPath
  else none

end NodeGauge.Path
