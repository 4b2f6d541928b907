/-
  NodeGauge.Proofs.Address.Spelling — the spellings of an address and of a text in ASCII.
  A text is read as an address where its digits, behind `0x` or not, are those of the
  address in either case (`ofText?_iff`), so two texts are read as one address just where
  they spell the same (`sameAddress_iff`). Two texts in ASCII have one lower case just
  where their letters are the same (`lower_eq_iff`).
-/

import Mathlib.Data.List.Induction
import NodeGauge.Proofs.Address

namespace NodeGauge

/-! ## Letters -/

namespace Text

/-- A letter of ASCII in lower case, all else as it is. -/
def small (c : Nat) : Nat := if 65 ≤ c ∧ c ≤ 90 then c + 32 else c

def Ascii (t : Text) : Prop := ∀ c ∈ t.codes, c < 128

instance : DecidablePred Ascii := fun t => inferInstanceAs (Decidable (∀ c ∈ t.codes, c < 128))

/-- Texts in ASCII that differ in the case of their letters at most. -/
structure SameLetters (t t' : Text) : Prop where
  left : t.Ascii
  right : t'.Ascii
  letters : t.codes.map small = t'.codes.map small

theorem lowerFrom_ascii (before : List Nat) {cs : List Nat} (h : ∀ c ∈ cs, c < 128) :
    lowerFrom before cs = cs.map small := by
  induction cs generalizing before with
  | nil => rfl
  | cons c rest ih =>
    rw [List.forall_mem_cons] at h
    have hsigma : c ≠ 0x3A3 := by omega
    have hcode : lowerCode c = [small c] := by
      simp [lowerCode, small, isAsciiUpper, h.1]
    rw [lowerFrom, if_neg hsigma, ih (c :: before) h.2, hcode, List.singleton_append, List.map_cons]

theorem lower_ascii {t : Text} (h : t.Ascii) : t.lower = ⟨t.codes.map small⟩ :=
  congrArg Text.mk (lowerFrom_ascii [] h)

theorem lower_eq_iff {t t' : Text} (h : t.Ascii) (h' : t'.Ascii) : t.lower = t'.lower ↔ SameLetters t t' := by
  rw [lower_ascii h, lower_ascii h', Text.mk.injEq]
  exact ⟨fun hl => ⟨h, h', hl⟩, fun hs => hs.letters⟩

end Text

open Text (small)

/-! ## Digits -/

namespace Hex

def IsDigit (c : Nat) : Prop := 48 ≤ c ∧ c ≤ 57 ∨ 65 ≤ c ∧ c ≤ 70 ∨ 97 ≤ c ∧ c ≤ 102

theorem isDigit_iff {c : Nat} : IsDigit c ↔ ∃ d < 16, small c = code d := by
  unfold IsDigit small code
  constructor
  · intro h
    refine ⟨if c ≤ 57 then c - 48 else if c ≤ 70 then c - 55 else c - 87, ?_, ?_⟩
    · split_ifs <;> omega
    · split_ifs <;> omega
  · rintro ⟨d, hd, h⟩
    split_ifs at h <;> omega

theorem value?_iff {c d : Nat} : value? c = some d ↔ d < 16 ∧ small c = code d := by
  unfold value? small code
  constructor
  · intro h
    split_ifs at h <;> cases h <;> split_ifs <;> omega
  · rintro ⟨hd, h⟩
    split_ifs at h ⊢ <;> first | omega | (congr 1; omega)

theorem mapM_value?_iff {cs ds : List Nat} :
    cs.mapM value? = some ds ↔ (∀ d ∈ ds, d < 16) ∧ cs.map small = ds.map code := by
  induction cs generalizing ds with
  | nil => cases ds <;> simp
  | cons c rest ih =>
    cases ds with
    | nil => simp [List.mapM_cons, Option.bind_eq_some_iff]
    | cons d ds =>
      simp only [List.mapM_cons, Option.bind_eq_bind, Option.bind_eq_some_iff, Option.pure_def, Option.some.injEq,
        List.cons.injEq, ih, value?_iff, List.map_cons, List.forall_mem_cons]
      constructor
      · rintro ⟨_, ⟨hd, hc⟩, _, ⟨hds, hrest⟩, rfl, rfl⟩
        exact ⟨⟨hd, hds⟩, hc, hrest⟩
      · rintro ⟨⟨hd, hds⟩, hc, hrest⟩
        exact ⟨d, ⟨hd, hc⟩, ds, ⟨hds, hrest⟩, rfl, rfl⟩

theorem number_concat (ds : List Nat) (d : Nat) : number (ds ++ [d]) = 16 * number ds + d := by
  simp [number]

theorem number_lt {ds : List Nat} (h : ∀ d ∈ ds, d < 16) : number ds < 16 ^ ds.length := by
  induction ds using List.reverseRecOn with
  | nil => decide
  | append_singleton ds d ih =>
    simp only [List.forall_mem_append, List.forall_mem_singleton] at h
    have hlt := ih h.1
    rw [number_concat, List.length_append, List.length_singleton, Nat.pow_succ]
    omega

theorem number_inj {ds ds' : List Nat} (hl : ds'.length = ds.length) (h : ∀ d ∈ ds, d < 16) (h' : ∀ d ∈ ds', d < 16)
    (heq : number ds' = number ds) : ds' = ds := by
  induction ds using List.reverseRecOn generalizing ds' with
  | nil => exact List.length_eq_zero_iff.mp hl
  | append_singleton ds d ih =>
    rcases List.eq_nil_or_concat ds' with rfl | ⟨ds', d', rfl⟩
    · simp at hl
    · rw [List.concat_eq_append] at hl h' heq ⊢
      simp only [List.forall_mem_append, List.forall_mem_singleton, number_concat, List.length_append,
        List.length_singleton] at h h' heq hl
      obtain rfl : d' = d := by omega
      rw [ih (by omega) h.1 h'.1 (by omega)]

/-- The digits of a number are the ones it is of. -/
theorem digits_number {ds : List Nat} (h : ∀ d ∈ ds, d < 16) : digits ds.length (number ds) = ds := by
  refine number_inj (length_digits _ _) h (fun d => digits_lt) ?_
  rw [number_digits, Nat.mod_eq_of_lt (number_lt h)]

end Hex

/-! ## Addresses -/

namespace Address

/-- The text is these 40 hexadecimal digits, alone or behind `0x` or `0X`. -/
structure Spells (t : Text) (cs : List Nat) : Prop where
  length : cs.length = 40
  digits : ∀ c ∈ cs, Hex.IsDigit c
  marked : t.codes = cs ∨ t.codes = 48 :: 120 :: cs ∨ t.codes = 48 :: 88 :: cs

/-- Both are 40 hexadecimal digits, the same ones but for the case of the letters. -/
def SameAddress (t t' : Text) : Prop :=
  ∃ cs cs', Spells t cs ∧ Spells t' cs' ∧ cs.map small = cs'.map small

theorem Spells.withoutMark {t : Text} {cs : List Nat} (h : Spells t cs) : withoutMark t.codes = cs := by
  have hplain : Address.withoutMark cs = cs := by
    unfold Address.withoutMark
    split
    · exact absurd (h.digits 120 (by simp)) (by unfold Hex.IsDigit; omega)
    · exact absurd (h.digits 88 (by simp)) (by unfold Hex.IsDigit; omega)
    · rfl
  rcases h.marked with hc | hc | hc <;> rw [hc]
  · exact hplain
  · rfl
  · rfl

theorem marked (cs : List Nat) :
    cs = withoutMark cs ∨ cs = 48 :: 120 :: withoutMark cs ∨ cs = 48 :: 88 :: withoutMark cs := by
  unfold withoutMark
  split <;> simp

theorem digits_ofNat {ds : List Nat} (hlength : ds.length = 40) (h : ∀ d ∈ ds, d < 16) :
    (ofNat (Hex.number ds)).digits = ds := by
  have hlt : Hex.number ds < 1 <<< 160 := by
    have hp : (16 : Nat) ^ 40 = 1 <<< 160 := by decide
    rw [← hp, ← hlength]
    exact Hex.number_lt h
  show Hex.digits 40 (Hex.number ds % 1 <<< 160) = ds
  rw [Nat.mod_eq_of_lt hlt, ← hlength, Hex.digits_number h]

/-- A text is read as an address where it spells the address's digits. -/
theorem ofText?_iff {t : Text} {a : Address} :
    ofText? t = some a ↔ ∃ cs, Spells t cs ∧ cs.map small = a.digits.map Hex.code := by
  have hdigits : ∀ d ∈ a.digits, d < 16 := fun d => Hex.digits_lt
  constructor
  · intro h
    obtain ⟨hlength, hvalues⟩ : (withoutMark t.codes).length = 40 ∧
        ((withoutMark t.codes).mapM Hex.value?).map (fun ds => ofNat (Hex.number ds)) = some a :=
      Option.ite_none_right_eq_some.mp h
    obtain ⟨ds, hds, rfl⟩ := Option.map_eq_some_iff.mp hvalues
    obtain ⟨hlt, hcodes⟩ := Hex.mapM_value?_iff.mp hds
    refine ⟨withoutMark t.codes, ⟨hlength, fun c hc => ?_, marked t.codes⟩, ?_⟩
    · have hsmall : small c ∈ ds.map Hex.code := hcodes ▸ List.mem_map_of_mem hc
      obtain ⟨d, hd, hcode⟩ := List.mem_map.mp hsmall
      exact Hex.isDigit_iff.mpr ⟨d, hlt d hd, hcode.symm⟩
    · have hcount : ds.length = 40 := by simpa [hlength] using (congrArg List.length hcodes).symm
      rw [hcodes, digits_ofNat hcount hlt]
  · rintro ⟨cs, hs, hcodes⟩
    have hds : cs.mapM Hex.value? = some a.digits := Hex.mapM_value?_iff.mpr ⟨hdigits, hcodes⟩
    unfold ofText?
    simp only [hs.withoutMark, hs.length, if_true, hds, Option.map_some, ofNat_number]

theorem sameAddress_iff {t t' : Text} : SameAddress t t' ↔ ∃ a, ofText? t = some a ∧ ofText? t' = some a := by
  constructor
  · rintro ⟨cs, cs', hs, hs', heq⟩
    choose! d hd hcode using fun c hc => Hex.isDigit_iff.mp (hs.digits c hc)
    have hcodes : cs.map small = (cs.map d).map Hex.code := by
      rw [List.map_map]
      exact List.map_congr_left hcode
    have hlt : ∀ e ∈ cs.map d, e < 16 := by
      intro e he
      obtain ⟨c, hc, rfl⟩ := List.mem_map.mp he
      exact hd c hc
    have hdigits : (ofNat (Hex.number (cs.map d))).digits = cs.map d := digits_ofNat (by simp [hs.length]) hlt
    refine ⟨ofNat (Hex.number (cs.map d)), ofText?_iff.mpr ⟨cs, hs, ?_⟩, ofText?_iff.mpr ⟨cs', hs', ?_⟩⟩
    · rw [hdigits, hcodes]
    · rw [hdigits, ← heq, hcodes]
  · rintro ⟨a, h, h'⟩
    obtain ⟨cs, hs, hcodes⟩ := ofText?_iff.mp h
    obtain ⟨cs', hs', hcodes'⟩ := ofText?_iff.mp h'
    exact ⟨cs, cs', hs, hs', hcodes.trans hcodes'.symm⟩

end Address

end NodeGauge
