/-
  NodeGauge.FileTree — files in memory, read by path as a system reads them. A place is
  the list of names that lead to it from the working directory, the innermost first; the
  places above the working directory are named by `..` alone, and those below the root
  end in `/`. A path is walked name by name, and only through directories.
-/

import NodeGauge.Path

namespace NodeGauge

namespace FileTree

inductive Entry where
  | directory
  | file (content : Bytes)
  deriving DecidableEq

abbrev Place := List Text

end FileTree

abbrev FileTree := FileTree.Place → Option FileTree.Entry

namespace FileTree

/-- The root, the working directory and those above it, with nothing in them that is known. -/
def empty : FileTree := fun p => if p = (["/"] : Place) ∨ p.all (· = "..") then some .directory else none

/-! ## Places -/

def start (path : Text) : Place := if path.startsWith "/" then ["/"] else []

def above : Place → Place
  | [] => [".."]
  | n :: up => if n = "/" then [n] else if n = ".." then n :: n :: up else up

def enter (here : Place) (name : Text) : Place :=
  if Path.stays name then here else if name = ".." then above here else name :: here

def trail (here : Place) : (names : List Text) → List Place
  | [] => []
  | n :: rest => enter here n :: trail (enter here n) rest

/-! ## Putting -/

/-- Sets the entry of a place, or removes it; below a file nothing stays. -/
def set (t : FileTree) (p : Place) : Option Entry → FileTree
  | none => fun q => if p.isSuffixOf q then none else t q
  | some (.file b) => fun q => if q = p then some (.file b) else if p.isSuffixOf q then none else t q
  | some .directory => fun q => if q = p then some .directory else t q

/-- Puts an entry at a path, or removes what is there. Of the places on the way to an entry
    directories are made. -/
def put (t : FileTree) (path : Text) (e : Option Entry) : FileTree :=
  match (trail (start path) (Path.split path)).reverse with
  | [] => t
  | p :: way =>
    let t := if e.isSome then way.foldr (fun q t => t.set q (some .directory)) t else t
    t.set p e

/-! ## Reading -/

def walk (t : FileTree) : (here : Place) → (names : List Text) → Except FileFault Entry
  | here, [] => match t here with
    | some e => .ok e
    | none => .error .missing
  | here, n :: rest => match t here with
    | none => .error .missing
    | some (.file _) => .error .notDirectory
    | some .directory => if 255 < (Path.bytes n).length then .error .nameTooLong else walk t (enter here n) rest

def entryAt (t : FileTree) (path : Text) : Except FileFault Entry :=
  match Path.fault? path with
  | some f => .error f
  | none =>
    if path.isEmpty then .error .missing
    else if 4096 ≤ (Path.bytes path).length then .error .nameTooLong
    else walk t (start path) (Path.split path)

def read (t : FileTree) (path : Text) : Except FileFault Bytes :=
  match entryAt t path with
  | .ok (.file b) => .ok b
  | .ok .directory => .error .directory
  | .error f => .error f

end FileTree

end NodeGauge
