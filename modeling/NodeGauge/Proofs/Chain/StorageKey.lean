/-
  NodeGauge.Proofs.Chain.StorageKey — what is hashed for the registry's keys. The packing
  keeps no lengths, but the label, the 20 bytes of the address and the 32 bytes of the
  bucket are each of one length (`claimsPreimage_packed`), and the bytes of a number give
  it back, the highest first (`number_word`, `Address.number_bytes`). So two keys of claims
  hash the same bytes for one node and one bucket only, and the key of a contract never
  hashes what a key of claims does (`claims_preimages_apart`).
-/

import NodeGauge.Chain
import NodeGauge.Proofs.Address.Spelling

namespace NodeGauge

/-! ## Bytes of digits -/

namespace Hex

theorem length_pairs : ∀ ds, (pairs ds).length = ds.length / 2
  | [] => rfl
  | [_] => by simp [pairs]
  | a :: b :: rest => by
    simp only [pairs, List.length_cons, length_pairs rest]
    omega

theorem pairs_append : ∀ {ds} (es), ds.length % 2 = 0 → pairs (ds ++ es) = pairs ds ++ pairs es
  | [], _, _ => rfl
  | [_], _, h => by simp at h
  | a :: b :: rest, es, h => by
    have heven : rest.length % 2 = 0 := by
      simp only [List.length_cons] at h
      omega
    simp only [List.cons_append, pairs, pairs_append es heven]

theorem pairs_ofBytes (bs : Bytes) : pairs (ofBytes bs) = bs := by
  induction bs with
  | nil => rfl
  | cons b rest ih =>
    have hbyte : UInt8.ofNat (16 * (b.toNat / 16) + b.toNat % 16) = b := by
      rw [Nat.div_add_mod]
      exact UInt8.ofNat_toNat
    show UInt8.ofNat (16 * (b.toNat / 16) + b.toNat % 16) :: pairs (ofBytes rest) = b :: rest
    rw [hbyte, ih]

end Hex

namespace Chain

theorem foldl_pairs : ∀ {ds} (n : Nat), ds.length % 2 = 0 → (∀ d ∈ ds, d < 16) →
    (Hex.pairs ds).foldl (fun n b => 256 * n + b.toNat) n = ds.foldl (fun n d => 16 * n + d) n
  | [], _, _, _ => rfl
  | [_], _, heven, _ => by simp at heven
  | a :: b :: rest, n, heven, hd => by
    have ha := hd a (by simp)
    have hb := hd b (by simp)
    have hrest : rest.length % 2 = 0 := by
      simp only [List.length_cons] at heven
      omega
    have hbyte : (UInt8.ofNat (16 * a + b)).toNat = 16 * a + b := UInt8.toNat_ofNat_of_lt (by simp only [UInt8.size]; omega)
    have hstep : 256 * n + (16 * a + b) = 16 * (16 * n + a) + b := by omega
    simp only [Hex.pairs, List.foldl_cons, hbyte, hstep]
    exact foldl_pairs _ hrest fun d hmem => hd d (by simp [hmem])

/-- Two digits make one byte, so the bytes are of the number that the digits are of. -/
theorem number_pairs {ds : List Nat} (heven : ds.length % 2 = 0) (hd : ∀ d ∈ ds, d < 16) :
    number (Hex.pairs ds) = Hex.number ds :=
  foldl_pairs 0 heven hd

theorem length_word (n : Nat) : (word n).length = 32 := by
  unfold word
  rw [Hex.length_pairs, Hex.length_digits]

theorem number_word {n : Nat} (h : n < 2 ^ 256) : number (word n) = n := by
  unfold word
  rw [number_pairs (by rw [Hex.length_digits]) fun d => Hex.digits_lt, Hex.number_digits]
  have hp : (16 : Nat) ^ 64 = 2 ^ 256 := by decide
  rw [hp, Nat.mod_eq_of_lt h]

end Chain

namespace Address

variable (a : Address)

theorem length_bytes : a.bytes.length = 20 := by
  unfold bytes digits
  rw [Hex.length_pairs, Hex.length_digits]

theorem number_bytes : Chain.number a.bytes = a.toNat := by
  unfold bytes digits
  rw [Chain.number_pairs (by rw [Hex.length_digits]) fun d => Hex.digits_lt, Hex.number_digits]
  have hp : (16 : Nat) ^ 40 = 1 <<< 160 := by decide
  rw [hp, Nat.mod_eq_of_lt a.lt]

theorem bytes_inj {a b : Address} (h : a.bytes = b.bytes) : a = b := by
  have hn : a.toNat = b.toNat := by rw [← number_bytes a, ← number_bytes b, h]
  cases a
  cases b
  cases hn
  rfl

/-- The checksummed spelling that is read as an address is the address's own. -/
theorem text_of_ofChecksummed? {t : Text} (h : ofChecksummed? t = some a) : a.text = t := by
  unfold ofChecksummed? at h
  split at h
  · rename_i b hb
    split_ifs at h with htext
    cases h
    exact htext
  · cases h

end Address

/-! ## Preimages -/

namespace Chain

/-- A label, 20 bytes of address and 32 bytes of bucket, with nothing between them. -/
theorem claimsPreimage_packed (a : Address) {bucket : Nat} (h : bucket < 2 ^ 256) :
    claimsPreimage a bucket = labelBytes "rewards.interval.claimed" ++ a.bytes ++ word bucket := by
  have hbucket : bucketDigits bucket = Hex.digits 64 bucket := by
    unfold bucketDigits
    rw [if_pos (by rw [Nat.one_shiftLeft]; exact h)]
  have hlabel : (Hex.ofBytes (labelBytes "rewards.interval.claimed")).length % 2 = 0 := by
    rw [Hex.length_ofBytes]
    omega
  have hfront : (Hex.ofBytes (labelBytes "rewards.interval.claimed") ++ a.digits).length % 2 = 0 := by
    have hdigits : a.digits.length = 40 := Hex.length_digits 40 a.toNat
    rw [List.length_append, hdigits]
    omega
  have heven : (Hex.ofBytes (labelBytes "rewards.interval.claimed") ++ a.digits ++ Hex.digits 64 bucket).length % 2 = 0 := by
    rw [List.length_append, Hex.length_digits]
    omega
  unfold claimsPreimage packDigits
  rw [hbucket, if_pos heven, Hex.pairs_append _ hfront, Hex.pairs_append _ hlabel, Hex.pairs_ofBytes]
  rfl

theorem claimsPreimage_inj {a b : Address} {i j : Nat} (hi : i < 2 ^ 256) (hj : j < 2 ^ 256)
    (h : claimsPreimage a i = claimsPreimage b j) : a = b ∧ i = j := by
  rw [claimsPreimage_packed a hi, claimsPreimage_packed b hj] at h
  obtain ⟨hfront, hword⟩ := List.append_inj' h (by rw [length_word, length_word])
  obtain ⟨-, hbytes⟩ := List.append_inj' hfront (by rw [Address.length_bytes, Address.length_bytes])
  refine ⟨Address.bytes_inj hbytes, ?_⟩
  rw [← number_word hi, ← number_word hj, hword]

/-- The labels begin with two different letters, so no contract's name brings them together. -/
theorem claimsPreimage_ne_contractPreimage (a : Address) {bucket : Nat} (h : bucket < 2 ^ 256) (name : String) :
    claimsPreimage a bucket ≠ contractPreimage name := by
  intro heq
  rw [claimsPreimage_packed a h] at heq
  have hclaims : labelBytes "rewards.interval.claimed" = 0x72 :: labelBytes "ewards.interval.claimed" := by decide
  have hcontract : labelBytes "contract.address" = 0x63 :: labelBytes "ontract.address" := by decide
  unfold contractPreimage at heq
  rw [hclaims, hcontract] at heq
  have hhead : (0x72 : UInt8) = 0x63 := (List.cons.inj heq).1
  exact absurd hhead (by decide)

/-- What is hashed for the claims of two nodes, given by their checksummed spellings, in two
    buckets is the same only for one node and one bucket, and is never what is hashed for the
    contract that pays the rewards. -/
theorem claims_preimages_apart {s t : Text} {a b : Address} {i j : Int}
    (hs : Address.ofChecksummed? s = some a) (ht : Address.ofChecksummed? t = some b)
    (hi : 0 ≤ i ∧ i < 2 ^ 256) (hj : 0 ≤ j ∧ j < 2 ^ 256) :
    claimsKey s i = .ok (Keccak.digest (claimsPreimage a i.toNat)) ∧
      rewardsPoolKey = Keccak.digest (contractPreimage "rocketRewardsPool") ∧
      claimsPreimage a i.toNat = labelBytes "rewards.interval.claimed" ++ a.bytes ++ word i.toNat ∧
      (claimsPreimage a i.toNat = claimsPreimage b j.toNat ↔ a.bytes = b.bytes ∧ i = j) ∧
      (a.bytes = b.bytes ↔ s = t) ∧
      claimsPreimage a i.toNat ≠ contractPreimage "rocketRewardsPool" := by
  have hi' : i.toNat < 2 ^ 256 := by omega
  have hj' : j.toNat < 2 ^ 256 := by omega
  have hkey : claimsKey s i = .ok (Keccak.digest (claimsPreimage a i.toNat)) := by
    unfold claimsKey
    rw [hs]
    exact if_neg (by omega)
  refine ⟨hkey, rfl, claimsPreimage_packed a hi', ⟨?_, ?_⟩, ⟨?_, ?_⟩, claimsPreimage_ne_contractPreimage a hi' _⟩
  · intro h
    obtain ⟨rfl, hbucket⟩ := claimsPreimage_inj hi' hj' h
    exact ⟨rfl, by omega⟩
  · rintro ⟨hbytes, rfl⟩
    rw [Address.bytes_inj hbytes]
  · intro hbytes
    obtain rfl := Address.bytes_inj hbytes
    rw [← a.text_of_ofChecksummed? hs, ← a.text_of_ofChecksummed? ht]
  · rintro rfl
    rw [hs] at ht
    cases ht
    rfl

/-- One node in the first bucket and in the last one. -/
theorem claims_preimages_apart_ends : claimsPreimage default 0 ≠ claimsPreimage default (2 ^ 256 - 1) := by
  have hzero : Address.ofChecksummed? (default : Address).text = some default := Address.ofChecksummed?_text _
  have h := claims_preimages_apart (i := 0) (j := 2 ^ 256 - 1) hzero hzero (by decide) (by decide)
  intro heq
  exact absurd (h.2.2.2.1.mp heq).2 (by decide)

end Chain

end NodeGauge
