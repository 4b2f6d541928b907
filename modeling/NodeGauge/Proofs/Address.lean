/-
  NodeGauge.Proofs.Address — the checksummed spelling of an address reads back as the
  address (`ofText?_text`), and where no other spelling is taken, this one is
  (`ofChecksummed?_text`). Capitals and small letters have one value each, so nothing
  counts of the digest but how long it is.
-/

import Mathlib.Algebra.Order.Ring.Int
import NodeGauge.Address

namespace NodeGauge

namespace Hex

theorem value?_code {d : Nat} (h : d < 16) : value? (code d) = some d := by
  unfold value? code
  by_cases h10 : d < 10
  · rw [if_pos h10, if_pos (by omega)]
    congr 1
    omega
  · rw [if_neg h10, if_neg (by omega), if_pos (by omega)]
    congr 1
    omega

theorem value?_capital {d : Nat} (h : d < 16) : value? (capital d) = some d := by
  unfold value? capital
  by_cases h10 : d < 10
  · rw [if_pos h10, if_pos (by omega)]
    congr 1
    omega
  · rw [if_neg h10, if_neg (by omega), if_neg (by omega), if_pos (by omega)]
    congr 1
    omega

theorem length_digits (width n : Nat) : (digits width n).length = width := by
  simp [digits]

theorem digits_lt {width n d : Nat} (h : d ∈ digits width n) : d < 16 := by
  unfold digits at h
  obtain ⟨i, -, rfl⟩ := List.mem_map.mp h
  exact Nat.mod_lt _ (by decide)

theorem digits_succ (width n : Nat) : digits (width + 1) n = n >>> (4 * width) % 16 :: digits width n := by
  unfold digits
  rw [List.range_succ, List.reverse_append, List.reverse_singleton, List.singleton_append, List.map_cons]

theorem foldl_digits (width n acc : Nat) :
    (digits width n).foldl (fun n d => 16 * n + d) acc = acc * 16 ^ width + n % 16 ^ width := by
  induction width generalizing acc with
  | zero => simp [digits, Nat.mod_one]
  | succ width ih =>
    have hp : (2 : Nat) ^ (4 * width) = 16 ^ width := Nat.pow_mul 2 4 width
    rw [digits_succ, List.foldl_cons, ih, Nat.shiftRight_eq_div_pow, hp, Nat.mod_pow_succ, Nat.pow_succ]
    have hm : acc * (16 ^ width * 16) = 16 * acc * 16 ^ width := by
      rw [Nat.mul_comm (16 ^ width), ← Nat.mul_assoc, Nat.mul_comm acc]
    rw [hm, Nat.add_mul, Nat.mul_comm (n / 16 ^ width % 16)]
    omega

/-- Digits tell a number as far as they go. -/
theorem number_digits (width n : Nat) : number (digits width n) = n % 16 ^ width := by
  unfold number
  rw [foldl_digits, Nat.zero_mul, Nat.zero_add]

theorem length_ofBytes (bs : Bytes) : (ofBytes bs).length = 2 * bs.length := by
  induction bs with
  | nil => rfl
  | cons b r ih =>
    have h : (ofBytes (b :: r)).length = (ofBytes r).length + 2 := rfl
    rw [h, ih, List.length_cons]
    omega

end Hex

theorem Keccak.length_digest (bs : Bytes) : (Keccak.digest bs).length = 32 := by
  unfold Keccak.digest Keccak.bytesOfWord
  simp only [List.length_flatMap, List.length_map, List.length_range]
  rfl

namespace Address

/-- Digits that are no letters are spelled alike in either case. -/
theorem zipWith_decimal {ds hs : List Nat} (hl : ds.length ≤ hs.length) (hd : ∀ d ∈ ds, d < 10) :
    ds.zipWith (fun d h => if 8 ≤ h then Hex.capital d else Hex.code d) hs = ds.map Hex.code := by
  induction ds generalizing hs with
  | nil => rfl
  | cons d ds ih =>
    cases hs with
    | nil => simp at hl
    | cons h hs =>
      have hc : Hex.capital d = Hex.code d := by
        have hd10 := hd d (List.mem_cons_self ..)
        unfold Hex.capital Hex.code
        rw [if_pos hd10, if_pos hd10]
      rw [List.zipWith_cons_cons, List.map_cons, hc, ite_self,
        ih (by simpa using hl) fun e he => hd e (List.mem_cons_of_mem d he)]

/-- Digits of which each is a capital or not read back. -/
theorem mapM_value?_zipWith {ds hs : List Nat} (hl : ds.length ≤ hs.length) (hd : ∀ d ∈ ds, d < 16) :
    (ds.zipWith (fun d h => if 8 ≤ h then Hex.capital d else Hex.code d) hs).mapM Hex.value? = some ds := by
  induction ds generalizing hs with
  | nil => rfl
  | cons d ds ih =>
    cases hs with
    | nil => simp at hl
    | cons h hs =>
      have hv : Hex.value? (if 8 ≤ h then Hex.capital d else Hex.code d) = some d := by
        split
        · exact Hex.value?_capital (hd d (List.mem_cons_self ..))
        · exact Hex.value?_code (hd d (List.mem_cons_self ..))
      have hr : (ds.zipWith (fun d h => if 8 ≤ h then Hex.capital d else Hex.code d) hs).mapM Hex.value? = some ds :=
        ih (by simpa using hl) fun e he => hd e (List.mem_cons_of_mem d he)
      rw [List.zipWith_cons_cons, List.mapM_cons, hv, hr]
      rfl

variable (a : Address)

theorem digest_long : a.digits.length ≤
    (Hex.ofBytes (Keccak.digest (a.digits.map fun d => UInt8.ofNat (Hex.code d)))).length := by
  unfold digits
  rw [Hex.length_ofBytes, Keccak.length_digest, Hex.length_digits]
  decide

theorem text_of_decimal {a : Address} (h : ∀ d ∈ a.digits, d < 10) : a.text = "0x" ++ Hex.text a.digits := by
  have hc : a.checksummedCodes = a.digits.map Hex.code := zipWith_decimal (digest_long a) h
  unfold text Hex.text
  rw [hc]

theorem length_checksummedCodes : a.checksummedCodes.length = 40 := by
  have h := digest_long a
  unfold checksummedCodes
  rw [List.length_zipWith, Nat.min_eq_left h]
  exact Hex.length_digits 40 a.toNat

theorem ofNat_number : ofNat (Hex.number a.digits) = a := by
  obtain ⟨n, hn⟩ := a
  unfold ofNat digits
  rw [Hex.number_digits]
  congr 1
  have hp : (16 : Nat) ^ 40 = 1 <<< 160 := by decide
  rw [hp, Nat.mod_mod, Nat.mod_eq_of_lt hn]

theorem ofText?_text : ofText? a.text = some a := by
  have hc : withoutMark a.text.codes = a.checksummedCodes := rfl
  have hm : a.checksummedCodes.mapM Hex.value? = some a.digits :=
    mapM_value?_zipWith (digest_long a) fun _ => Hex.digits_lt
  unfold ofText?
  simp only [hc, length_checksummedCodes, if_true, hm, Option.map_some, ofNat_number]

theorem ofChecksummed?_text : ofChecksummed? a.text = some a := by
  unfold ofChecksummed?
  rw [ofText?_text]
  simp

end Address

end NodeGauge
