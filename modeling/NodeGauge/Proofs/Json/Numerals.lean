/-
  NodeGauge.Proofs.Json.Numerals — the texts that are read as integers: blanks around one
  sign at most and decimal digits with single underscores between them. They and no others
  are read, as the number their digits stand for, at any size (`toIntIn_text_iff`). The
  number of digits can be limited; the documents are read with a limit
  (`toIntIn_maxDigits`).
-/

import Mathlib.Data.List.TakeWhile
import Mathlib.Data.Nat.Digits.Defs
import NodeGauge.Json

namespace NodeGauge.Json

/-! ## Integers under a limit -/

/-- The value of digits and underscores, if there are no more digits than the limit. -/
def magnitudeIn? (limit : Option Nat) (cs : List Nat) : Option Nat :=
  if limit.any (· < (cs.filter (· != 95)).length) then none else readDigits 0 true cs

/-- The integer a text spells, by the value of its digits. -/
def integerOfTextBy (magnitude : List Nat → Option Nat) (t : Text) : Option Int :=
  match trim t.codes with
  | 43 :: r => (magnitude r).map Int.ofNat
  | 45 :: r => (magnitude r).map fun n => -(n : Int)
  | r => (magnitude r).map Int.ofNat

def integerOfTextIn? (limit : Option Nat) : Text → Option Int := integerOfTextBy (magnitudeIn? limit)

/-- The integer of a value, where a text has no more digits than the limit. -/
def toIntIn (limit : Option Nat) : Json → Except Fault Int
  | text t => match integerOfTextIn? limit t with
    | some n => .ok n
    | none => .error .notInteger
  | j => j.toInt

theorem magnitudeIn_maxDigits : magnitudeIn? (some maxDigits) = magnitude? := by
  funext cs
  simp [magnitudeIn?, magnitude?]

theorem integerOfTextIn_maxDigits : integerOfTextIn? (some maxDigits) = integerOfText? :=
  congrArg integerOfTextBy magnitudeIn_maxDigits

theorem toIntIn_maxDigits : toIntIn (some maxDigits) = toInt := by
  funext j
  cases j with
  | text t => cases h : integerOfText? t <;> simp [toIntIn, toInt, integerOfTextIn_maxDigits, h]
  | _ => rfl

/-! ## Digits with underscores -/

/-- Codes of decimal digits, of which single underscores may stand between two, and the
    digits. -/
inductive Numeral : List Nat → List Nat → Prop where
  | last {c d : Nat} (h : Text.digitValue? c = some d) : Numeral [c] [d]
  | digit {c d : Nat} {cs ds : List Nat} (h : Text.digitValue? c = some d) (rest : Numeral cs ds) :
    Numeral (c :: cs) (d :: ds)
  | underscore {c d : Nat} {cs ds : List Nat} (h : Text.digitValue? c = some d) (rest : Numeral cs ds) :
    Numeral (c :: 95 :: cs) (d :: ds)

/-- The number that digits stand for behind those of `acc`. -/
def valueFrom (acc : Nat) (ds : List Nat) : Nat := ds.foldl (fun n d => 10 * n + d) acc

variable {c d acc : Nat} {cs ds : List Nat} {due : Bool}

theorem digitValue?_ascii (h : c < 0x80) : Text.digitValue? c = if 48 ≤ c ∧ c ≤ 57 then some (c - 48) else none :=
  if_pos h

theorem ne_of_digitValue? {k : Nat} (h : Text.digitValue? c = some d) (hk : Text.digitValue? k = none) : c ≠ k := by
  rintro rfl
  cases h.symm.trans hk

/-- No digit of any script is blank. -/
theorem not_isBlank_of_digit (h : Text.digitValue? c = some d) : Text.isBlank c = false := by
  unfold Text.digitValue? at h
  split at h
  · split at h
    · next hc =>
      have hascii : ∀ c < 58, 48 ≤ c → Text.isBlank c = false := by decide
      exact hascii c (by omega) hc.1
    · cases h
  · obtain ⟨z, hz, -⟩ := Option.map_eq_some_iff.mp h
    have hmem := List.mem_of_find?_eq_some hz
    have hrange := List.find?_some hz
    have hscripts : ∀ z ∈ Text.zeros, ∀ k < 10, Text.isBlank (z + k) = false := by decide
    simp only [Bool.and_eq_true, decide_eq_true_iff] at hrange
    have hplace := hscripts z hmem (c - z) (by omega)
    rwa [show z + (c - z) = c by omega] at hplace

theorem Numeral.readDigits_eq (h : Numeral cs ds) (acc : Nat) (due : Bool) :
    readDigits acc due cs = some (valueFrom acc ds) := by
  induction h generalizing acc due with
  | last h => simp [readDigits, h, valueFrom]
  | digit h _ ih => simp [readDigits, h, ih, valueFrom]
  | underscore h _ ih =>
    have hmark : Text.digitValue? 95 = none := by decide
    simp [readDigits, h, hmark, ih, valueFrom]

/-- What is read are such digits, where one must come first, or nothing is left. -/
theorem numeral_of_readDigits {n : Nat} (h : readDigits acc due cs = some n) :
    cs = [] ∧ due = false ∧ n = acc ∨ (∃ ds, Numeral cs ds ∧ n = valueFrom acc ds) ∨
      ∃ rest ds, due = false ∧ cs = 95 :: rest ∧ Numeral rest ds ∧ n = valueFrom acc ds := by
  induction cs generalizing acc due with
  | nil =>
    cases due with
    | true => cases h
    | false => exact Or.inl ⟨rfl, rfl, (Option.some.inj h).symm⟩
  | cons c cs ih =>
    refine Or.inr ?_
    unfold readDigits at h
    cases hd : Text.digitValue? c with
    | some d =>
      rw [hd] at h
      rcases ih h with ⟨rfl, -, rfl⟩ | ⟨ds, hcs, rfl⟩ | ⟨rest, ds, -, rfl, hrest, rfl⟩
      · exact Or.inl ⟨[d], .last hd, rfl⟩
      · exact Or.inl ⟨d :: ds, .digit hd hcs, rfl⟩
      · exact Or.inl ⟨d :: ds, .underscore hd hrest, rfl⟩
    | none =>
      rw [hd] at h
      dsimp only at h
      split at h
      · next hmark =>
        obtain ⟨rfl, rfl⟩ := hmark
        rcases ih h with ⟨-, hdue, -⟩ | ⟨ds, hcs, rfl⟩ | ⟨_, _, hdue, -⟩
        · cases hdue
        · exact Or.inr ⟨cs, ds, rfl, rfl, hcs, rfl⟩
        · cases hdue
      · cases h

theorem readDigits_iff {n : Nat} : readDigits 0 true cs = some n ↔ ∃ ds, Numeral cs ds ∧ n = valueFrom 0 ds := by
  constructor
  · intro h
    rcases numeral_of_readDigits h with ⟨-, hdue, -⟩ | h | ⟨_, _, hdue, -⟩
    · cases hdue
    · exact h
    · cases hdue
  · rintro ⟨ds, h, rfl⟩
    exact h.readDigits_eq 0 true

theorem Numeral.length_eq (h : Numeral cs ds) : (cs.filter (· != 95)).length = ds.length := by
  have hmark : Text.digitValue? 95 = none := by decide
  induction h with
  | last h => simp [ne_of_digitValue? h hmark]
  | digit h _ ih => simp [ne_of_digitValue? h hmark, ih]
  | underscore h _ ih => simp [ne_of_digitValue? h hmark, ih]

theorem magnitudeIn?_iff {limit : Option Nat} {n : Nat} :
    magnitudeIn? limit cs = some n ↔ ∃ ds, Numeral cs ds ∧ (∀ m ∈ limit, ds.length ≤ m) ∧ n = valueFrom 0 ds := by
  unfold magnitudeIn?
  constructor
  · intro h
    split at h
    · cases h
    · next hlimit =>
      obtain ⟨ds, hcs, rfl⟩ := readDigits_iff.mp h
      refine ⟨ds, hcs, fun m hm => ?_, rfl⟩
      obtain rfl : limit = some m := hm
      simpa [hcs.length_eq] using hlimit
  · rintro ⟨ds, hcs, hlimit, rfl⟩
    rw [if_neg, hcs.readDigits_eq]
    cases limit with
    | none => simp
    | some m => simpa [hcs.length_eq] using hlimit m rfl

/-! ## Blanks and signs -/

def Blanks (cs : List Nat) : Prop := ∀ c ∈ cs, Text.isBlank c = true

theorem dropWhile_blanks {xs ys : List Nat} (hxs : Blanks xs) (hys : ∀ c ∈ ys.head?, Text.isBlank c = false) :
    (xs ++ ys).dropWhile Text.isBlank = ys := by
  rw [List.dropWhile_append_of_pos hxs]
  cases ys with
  | nil => rfl
  | cons y ys => exact List.dropWhile_cons_of_neg (by simp [hys y rfl])

/-- Blanks at both ends of what neither begins nor ends with one. -/
theorem trim_eq {front mid back : List Nat} (hfront : Blanks front) (hback : Blanks back) (hne : mid ≠ [])
    (hhead : ∀ c ∈ mid.head?, Text.isBlank c = false) (hlast : ∀ c ∈ mid.getLast?, Text.isBlank c = false) :
    trim (front ++ mid ++ back) = mid := by
  have hleft : (front ++ (mid ++ back)).dropWhile Text.isBlank = mid ++ back := by
    refine dropWhile_blanks hfront fun c hc => hhead c ?_
    obtain ⟨m, ms, rfl⟩ := List.exists_cons_of_ne_nil hne
    exact hc
  have hright : (back.reverse ++ mid.reverse).dropWhile Text.isBlank = mid.reverse := by
    refine dropWhile_blanks (fun c hc => hback c (List.mem_reverse.mp hc)) fun c hc => hlast c ?_
    rwa [List.head?_reverse] at hc
  rw [trim, List.append_assoc, hleft, List.reverse_append, hright, List.reverse_reverse]

theorem exists_trim (cs : List Nat) : ∃ front back, Blanks front ∧ Blanks back ∧ cs = front ++ trim cs ++ back := by
  have hblanks : ∀ xs : List Nat, Blanks (xs.takeWhile Text.isBlank) := fun xs c hc => List.mem_takeWhile_imp hc
  refine ⟨cs.takeWhile Text.isBlank, ((cs.dropWhile Text.isBlank).reverse.takeWhile Text.isBlank).reverse,
    hblanks cs, fun c hc => hblanks _ c (List.mem_reverse.mp hc), ?_⟩
  rw [trim, List.append_assoc, ← List.reverse_append, List.takeWhile_append_dropWhile, List.reverse_reverse,
    List.takeWhile_append_dropWhile]

/-- The sign in front of a number's digits. -/
inductive Sign : List Nat → Nat → Int → Prop where
  | none (n : Nat) : Sign [] n n
  | plus (n : Nat) : Sign [43] n n
  | minus (n : Nat) : Sign [45] n (-n)

/-! ## Texts -/

/-- The text spells the integer, with no more digits than the limit. -/
def Spells (limit : Option Nat) (t : Text) (n : Int) : Prop :=
  ∃ front sign cs ds back, t.codes = front ++ (sign ++ cs) ++ back ∧ Blanks front ∧ Blanks back ∧ Numeral cs ds ∧
    (∀ m ∈ limit, ds.length ≤ m) ∧ Sign sign (valueFrom 0 ds) n

theorem Numeral.head (h : Numeral cs ds) : ∃ c d rest, cs = c :: rest ∧ Text.digitValue? c = some d := by
  cases h with
  | last h => exact ⟨_, _, _, rfl, h⟩
  | digit h _ => exact ⟨_, _, _, rfl, h⟩
  | underscore h _ => exact ⟨_, _, _, rfl, h⟩

theorem Numeral.getLast (h : Numeral cs ds) : ∃ c d, cs.getLast? = some c ∧ Text.digitValue? c = some d := by
  induction h with
  | last h => exact ⟨_, _, rfl, h⟩
  | digit _ _ ih =>
    obtain ⟨c, d, hc, hd⟩ := ih
    exact ⟨c, d, by simp [List.getLast?_cons, hc], hd⟩
  | underscore _ _ ih =>
    obtain ⟨c, d, hc, hd⟩ := ih
    exact ⟨c, d, by simp [List.getLast?_cons, hc], hd⟩

/-- Neither a sign nor a digit is blank. -/
theorem trim_numeral {front sign back : List Nat} {m : Nat} {n : Int} (hfront : Blanks front) (hback : Blanks back)
    (hcs : Numeral cs ds) (hsign : Sign sign m n) : trim (front ++ (sign ++ cs) ++ back) = sign ++ cs := by
  obtain ⟨c, d, rest, rfl, hd⟩ := hcs.head
  obtain ⟨c', d', hlast, hd'⟩ := hcs.getLast
  refine trim_eq hfront hback (by simp) ?_ ?_
  · intro k hk
    cases hsign with
    | none =>
      cases hk
      exact not_isBlank_of_digit hd
    | plus =>
      cases hk
      rfl
    | minus =>
      cases hk
      rfl
  · intro k hk
    rw [List.getLast?_append, hlast] at hk
    cases hk
    exact not_isBlank_of_digit hd'

theorem integerOfTextIn?_iff {limit : Option Nat} {t : Text} {n : Int} :
    integerOfTextIn? limit t = some n ↔ Spells limit t n := by
  constructor
  · intro h
    obtain ⟨front, back, hfront, hback, hcodes⟩ := exists_trim t.codes
    unfold integerOfTextIn? integerOfTextBy at h
    split at h
    · next r htrim =>
      obtain ⟨m, hm, rfl⟩ := Option.map_eq_some_iff.mp h
      obtain ⟨ds, hr, hlimit, rfl⟩ := magnitudeIn?_iff.mp hm
      exact ⟨front, [43], r, ds, back, by rw [hcodes, htrim]; rfl, hfront, hback, hr, hlimit, .plus _⟩
    · next r htrim =>
      obtain ⟨_, hm, rfl⟩ := Option.map_eq_some_iff.mp h
      obtain ⟨m, hm, heq⟩ := Option.bind_eq_some_iff.mp hm
      obtain ⟨ds, hr, hlimit, rfl⟩ := magnitudeIn?_iff.mp hm
      cases heq
      exact ⟨front, [45], r, ds, back, by rw [hcodes, htrim]; rfl, hfront, hback, hr, hlimit, .minus _⟩
    · next htrim =>
      obtain ⟨m, hm, rfl⟩ := Option.map_eq_some_iff.mp h
      obtain ⟨ds, hr, hlimit, rfl⟩ := magnitudeIn?_iff.mp hm
      exact ⟨front, [], _, ds, back, hcodes, hfront, hback, hr, hlimit, .none _⟩
  · rintro ⟨front, sign, cs, ds, back, hcodes, hfront, hback, hcs, hlimit, hsign⟩
    have hm : magnitudeIn? limit cs = some (valueFrom 0 ds) := magnitudeIn?_iff.mpr ⟨ds, hcs, hlimit, rfl⟩
    unfold integerOfTextIn? integerOfTextBy
    rw [hcodes, trim_numeral hfront hback hcs hsign]
    cases hsign with
    | none =>
      -- A digit is no sign, so all of it is digits.
      obtain ⟨c, d, rest, rfl, hd⟩ := hcs.head
      have hplus : c ≠ 43 := ne_of_digitValue? hd (by decide)
      have hminus : c ≠ 45 := ne_of_digitValue? hd (by decide)
      simp [hplus, hminus, hm]
    | plus => simp [hm]
    | minus => simp [hm]

theorem toIntIn_text_iff {limit : Option Nat} {t : Text} {n : Int} :
    toIntIn limit (.text t) = .ok n ↔ Spells limit t n := by
  rw [← integerOfTextIn?_iff, toIntIn]
  cases integerOfTextIn? limit t <;> simp

/-- One sign, and underscores only between digits. -/
example : (toIntIn none (.text " -0_07\n")).toOption = some (-7) ∧ (toIntIn none (.text "+-7")).toOption = none ∧
    (toIntIn none (.text "7_")).toOption = none := by
  decide +kernel

/-! ## The digits of an integer -/

theorem numeral_of_isDigit {xs : List Char} (hne : xs ≠ []) (h : ∀ c ∈ xs, c.isDigit = true) :
    Numeral (xs.map Char.toNat) (xs.map fun c => c.toNat - 48) := by
  have hdigit : ∀ c : Char, c.isDigit = true → Text.digitValue? c.toNat = some (c.toNat - 48) := by
    intro c hc
    obtain ⟨hlow, hhigh⟩ : 48 ≤ c.toNat ∧ c.toNat ≤ 57 := Char.isDigit_iff_toNat.mp hc
    rw [digitValue?_ascii (by omega), if_pos ⟨hlow, hhigh⟩]
  induction xs with
  | nil => exact absurd rfl hne
  | cons c xs ih =>
    rw [List.forall_mem_cons] at h
    cases xs with
    | nil => exact .last (hdigit c h.1)
    | cons c' xs => exact .digit (hdigit c h.1) (ih (List.cons_ne_nil _ _) h.2)

/-- The digits of a number, with its sign if it is below zero. -/
theorem spells_ofInt {limit : Option Nat} {n : Int} (h : ∀ m ∈ limit, 0 < m ∧ n.natAbs < 10 ^ m) :
    Spells limit (Text.ofInt n) n := by
  have hnumeral : ∀ k : Nat, Numeral (Text.ofNat k).codes ((Nat.toDigits 10 k).map fun c => c.toNat - 48) := fun k =>
    numeral_of_isDigit Nat.toDigits_ne_nil fun c hc => Nat.isDigit_of_mem_toDigits (by decide) (by decide) hc
  have hvalue : ∀ k : Nat, valueFrom 0 ((Nat.toDigits 10 k).map fun c => c.toNat - 48) = k := by
    intro k
    rw [valueFrom, List.foldl_map]
    exact Nat.ofDigitChars_ten_toDigits
  have hlength : ∀ m ∈ limit, ((Nat.toDigits 10 n.natAbs).map fun c => c.toNat - 48).length ≤ m := by
    intro m hm
    rw [List.length_map]
    exact Nat.toDigits_length 10 n.natAbs m (h m hm).1 (h m hm).2
  have hnone : Blanks [] := nofun
  cases n with
  | ofNat k =>
    refine ⟨[], [], _, _, [], (List.append_nil _).symm, hnone, hnone, hnumeral k, hlength, ?_⟩
    rw [hvalue]
    exact .none k
  | negSucc k =>
    refine ⟨[], [45], _, _, [], (List.append_nil _).symm, hnone, hnone, hnumeral (k + 1), hlength, ?_⟩
    rw [hvalue]
    exact .minus (k + 1)

end NodeGauge.Json
