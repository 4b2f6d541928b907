/-
  NodeGauge.Text — a text as the documents give it. The documents may spell a lone
  surrogate (U+D800 to U+DFFF) by its escape, so a text is the list of its code points
  and not a `String`: nothing a document holds is lost on the way to the output.
-/

namespace NodeGauge

structure Text where
  codes : List Nat
  deriving DecidableEq, Inhabited, Repr

namespace Text

def ofString (s : String) : Text := ⟨s.toList.map Char.toNat⟩

instance : Coe String Text := ⟨ofString⟩

def append (s t : Text) : Text := ⟨s.codes ++ t.codes⟩

instance : Append Text := ⟨append⟩

def empty : Text := ⟨[]⟩

def isEmpty (t : Text) : Bool := t.codes.isEmpty

def startsWith (t start : Text) : Bool := start.codes.isPrefixOf t.codes

def endsWith (t tail : Text) : Bool := tail.codes.isSuffixOf t.codes

def concat (ts : List Text) : Text := ⟨ts.flatMap codes⟩

def characters (t : Text) : List Text := t.codes.map fun c => ⟨[c]⟩

/-- Decimal digits of a natural number, none in front that could be left out. -/
def ofNat (n : Nat) : Text := ⟨(Nat.toDigits 10 n).map Char.toNat⟩

def ofInt : Int → Text
  | .ofNat n => ofNat n
  | .negSucc n => ofString "-" ++ ofNat (n + 1)

/-- A lone surrogate has no character; U+FFFD stands for it. -/
def toString (t : Text) : String :=
  String.ofList (t.codes.map fun c => if c.isValidChar then Char.ofNat c else '\ufffd')

end Text

end NodeGauge
