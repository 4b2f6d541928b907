/-
  NodeGauge.Proofs.Rewards.Boundary — which bitmaps the claims hang on. They are a fold
  over the bitmaps that are read, in order (`claimStatus_answer`), and the fold reads those
  up to the bucket of the reward index itself. That bucket holds an interval unless the
  index ends the one before it. So at such an index, but 0, a bucket without intervals is
  read: what it says does not count, but if it cannot be read the claims cannot either.
  Two chains with the same bitmaps where there are intervals give the same claims just
  where this one fails alike in both (`claimStatus_alike_iff`).
-/

import NodeGauge.Proofs.Chain.Steady
import NodeGauge.Proofs.Cycle.Faults
import NodeGauge.Proofs.Rewards.Readings

namespace NodeGauge.Rewards

open Job

variable {cfg : Settings} {node : Text} {w v : World} {n : Nat}

/-! ## The claims as a fold -/

/-- The claims of `left` buckets from `bucket` on, by what is read of each. -/
def claimsOf (read : Nat → Except Fault Nat) (index : Nat) : (left bucket : Nat) → Except Fault ClaimStatus
  | 0, _ => .ok .empty
  | left + 1, bucket => do
    let word ← read bucket
    return decodeBitmap word bucket index ++ (← claimsOf read index left (bucket + 1))

theorem claimsFrom_answer (index left bucket : Nat) :
    (claimsFrom cfg node index left bucket).answer w = claimsOf (bitmapAt cfg node w) index left bucket := by
  induction left generalizing bucket with
  | zero => rfl
  | succ left ih =>
    have hpure (word : Nat) (rest : ClaimStatus) :
        (pure (decodeBitmap word bucket index ++ rest) : Job ClaimStatus).Straight Looks := trivial
    refine (answer_bind ((claimedBitmap_looks ..).mono seeks_of_looks)
      fun word => straight_bind (claimsFrom_looks ..) (hpure word)).trans ?_
    refine congrArg (Except.bind (bitmapAt cfg node w bucket)) (funext fun word => ?_)
    refine (answer_bind ((claimsFrom_looks ..).mono seeks_of_looks) (hpure word)).trans ?_
    rw [ih]
    rfl

/-- What is read of the registry for a reward index. -/
def claimsAt (read : Nat → Except Fault Nat) (index : Nat) : Except Fault ClaimStatus :=
  if index = 0 then .ok .empty else claimsOf read index (index / 256 + 1) 0

theorem claimStatus_answer (hn : (Chain.Client.rewardIndex cfg.network.storage).answer w = .ok n) :
    (claimStatus cfg node).answer w = claimsAt (bitmapAt cfg node w) n := by
  unfold claimStatus claimsAt
  rw [answer_bind (rewardIndex_seeks _) (claimStatus_rest_looks cfg node), hn]
  show (if n = 0 then pure .empty else claimsFrom cfg node n (n / bucketSize + 1) 0 : Job ClaimStatus).answer w = _
  by_cases h : n = 0
  · rw [if_pos h, if_pos h]
    rfl
  · rw [if_neg h, if_neg h]
    exact claimsFrom_answer ..

/-! ## What the fold hangs on -/

theorem claimsOf_congr {read read' : Nat → Except Fault Nat} {index left bucket : Nat}
    (h : ∀ b, bucket ≤ b → b < bucket + left → read b = read' b) :
    claimsOf read index left bucket = claimsOf read' index left bucket := by
  induction left generalizing bucket with
  | zero => rfl
  | succ left ih =>
    have hfirst := h bucket (Nat.le_refl _) (by omega)
    have hrest : claimsOf read index left (bucket + 1) = claimsOf read' index left (bucket + 1) :=
      ih fun b h1 h2 => h b (by omega) (by omega)
    simp only [claimsOf, hfirst, hrest]

/-- A last bucket without an interval adds nothing, but it is read. -/
theorem claimsOf_last_bare (read : Nat → Except Fault Nat) {index left bucket : Nat} (h : index ≤ 256 * (bucket + left)) :
    claimsOf read index (left + 1) bucket = do
      let s ← claimsOf read index left bucket
      let _ ← read (bucket + left)
      return s := by
  induction left generalizing bucket with
  | zero =>
    have hbare (word : Nat) : decodeBitmap word bucket index = .empty := by
      rw [decodeBitmap_eq, show min 256 (index - 256 * bucket) = 0 by omega, split_zero]
    simp only [claimsOf, Nat.add_zero, hbare]
    cases read bucket <;> rfl
  | succ left ih =>
    have hrest : index ≤ 256 * (bucket + 1 + left) := by omega
    have hplace : bucket + 1 + left = bucket + (left + 1) := by omega
    -- both sides read the first bucket before all others, so its fault is that of both
    rw [claimsOf, ih hrest, hplace]
    conv_rhs => rw [claimsOf]
    cases read bucket with
    | error f => rfl
    | ok word =>
      cases claimsOf read index left (bucket + 1) with
      | error f => rfl
      | ok rest => cases read (bucket + (left + 1)) <;> rfl

theorem claimsOf_bitmapAt_ok_iff (index left : Nat) :
    (∃ s, claimsOf (bitmapAt cfg node w) index left 0 = .ok s) ↔ ∀ b < left, ∃ word, bitmapAt cfg node w b = .ok word := by
  simp only [← claimsFrom_answer, claimsFrom_ok_iff]
  constructor
  · rintro ⟨s, hall, -⟩ b hb
    exact hall b (Nat.zero_le b) (by omega)
  · exact fun hall => ⟨_, fun b _ hb => hall b (by omega), rfl⟩

theorem claimsAt_congr {read read' : Nat → Except Fault Nat} (hn : n = 0 ∨ n % 256 ≠ 0)
    (h : ∀ b, 256 * b < n → read b = read' b) : claimsAt read n = claimsAt read' n := by
  unfold claimsAt
  by_cases h0 : n = 0
  · rw [if_pos h0, if_pos h0]
  · rw [if_neg h0, if_neg h0]
    exact claimsOf_congr fun b _ hb => h b (by omega)

/-- At the end of a bucket the bitmap of the next one is read behind all that count. -/
theorem claimsAt_boundary {read : Nat → Except Fault Nat} (h0 : n ≠ 0) (hn : n % 256 = 0) :
    claimsAt read n = do
      let s ← claimsOf read n (n / 256) 0
      let _ ← read (n / 256)
      return s := by
  unfold claimsAt
  rw [if_neg h0, claimsOf_last_bare read (by omega), Nat.zero_add]

/-- A reading whose value does not count counts by its fault alone. -/
theorem discard_eq_iff {x y : Except Fault Nat} (s : ClaimStatus) :
    (do let _ ← x; return s : Except Fault ClaimStatus) = (do let _ ← y; return s) ↔ ∀ f, x = .error f ↔ y = .error f := by
  cases x <;> cases y <;> simp [Bind.bind, Except.bind, pure, Except.pure, eq_comm]

/-- Two worlds with one reward index, and the same bitmaps where there are intervals, give
    the same claims, or the same fault. The one exception is an index that ends a bucket:
    then all bitmaps with intervals being readable, that of the next bucket must fail in
    both with the same fault, or in neither. -/
theorem claimStatus_alike_iff (hw : (Chain.Client.rewardIndex cfg.network.storage).answer w = .ok n)
    (hv : (Chain.Client.rewardIndex cfg.network.storage).answer v = .ok n)
    (hsame : ∀ b, 256 * b < n → bitmapAt cfg node v b = bitmapAt cfg node w b) :
    (claimStatus cfg node).answer v = (claimStatus cfg node).answer w ↔
      (n ≠ 0 → n % 256 = 0 → (∀ b < n / 256, ∃ word, bitmapAt cfg node w b = .ok word) →
        ∀ f, bitmapAt cfg node v (n / 256) = .error f ↔ bitmapAt cfg node w (n / 256) = .error f) := by
  rw [claimStatus_answer hw, claimStatus_answer hv]
  by_cases hbound : n = 0 ∨ n % 256 ≠ 0
  · have heq := claimsAt_congr hbound hsame
    exact ⟨fun _ h0 hn => absurd hbound (by omega), fun _ => heq⟩
  · have h0 : n ≠ 0 := by omega
    have hn : n % 256 = 0 := by omega
    have hfirst : claimsOf (bitmapAt cfg node v) n (n / 256) 0 = claimsOf (bitmapAt cfg node w) n (n / 256) 0 :=
      claimsOf_congr fun b _ hb => hsame b (by omega)
    have hreads : (∃ s, claimsOf (bitmapAt cfg node w) n (n / 256) 0 = .ok s) ↔
        ∀ b < n / 256, ∃ word, bitmapAt cfg node w b = .ok word := claimsOf_bitmapAt_ok_iff n (n / 256)
    rw [claimsAt_boundary h0 hn, claimsAt_boundary h0 hn, hfirst]
    cases hs : claimsOf (bitmapAt cfg node w) n (n / 256) 0 with
    | error f =>
      refine ⟨fun _ _ _ hall => ?_, fun _ => rfl⟩
      obtain ⟨s, hok⟩ := hreads.mpr hall
      rw [hs] at hok
      cases hok
    | ok s =>
      have hall := hreads.mp ⟨s, hs⟩
      exact (discard_eq_iff s).trans ⟨fun h _ _ _ => h, fun h => h h0 hn hall⟩

/-! ### A bitmap without intervals -/

/-- All reads are answered with the number 256, but for the second bitmap of a node, which
    may have been pruned. -/
def boundaryWorld (pruned : Bool) : World where
  outside := {
    chain := {
      latestBlock := .ok 100
      read := fun _ data _ =>
        if pruned ∧ data = Chain.getUint (Keccak.digest (Chain.claimsPreimage default 1)) then .error "pruned"
        else .ok (Chain.word 256) }
    beacon := Beacon.fineBeacon
    files := fun _ => .error .missing }

theorem claimsKeys_differ :
    Keccak.digest (Chain.claimsPreimage default 0) ≠ Keccak.digest (Chain.claimsPreimage default 1) := by
  decide +kernel

theorem boundaryWorld_index (pruned : Bool) (storage : Address) :
    (Chain.Client.rewardIndex storage).answer (boundaryWorld pruned) = .ok 256 := by
  cases pruned <;> rfl

/-- A node's bitmap is one call to the registry, by the digest of what names it. -/
theorem bitmapAt_text (cfg : Settings) (a : Address) (w : World) (bucket : Nat) :
    bitmapAt cfg a.text w bucket =
      (Chain.Client.numberOf cfg.network.storage (Chain.getUint (Keccak.digest (Chain.claimsPreimage a bucket))) .latest).answer
        w := by
  unfold bitmapAt Chain.Client.claimedBitmap
  rw [Chain.claimsKey_text]
  rfl

theorem boundaryWorld_fine {pruned : Bool} {bucket : Nat} (h : pruned = false ∨ bucket = 0) :
    bitmapAt {} (default : Address).text (boundaryWorld pruned) bucket = .ok 256 := by
  rw [bitmapAt_text]
  have hword : Chain.decodeNumber (Chain.word 256) = .ok 256 := by decide +kernel
  refine Chain.numberOf_answer (if_neg ?_) hword
  rcases h with rfl | rfl
  · rintro ⟨h, -⟩
    cases h
  · rintro ⟨-, hdata⟩
    exact claimsKeys_differ (List.append_cancel_left hdata)

/-- Where an interval is they have the same bitmap. -/
theorem boundaryWorld_alike {b : Nat} (h : 256 * b < 256) :
    bitmapAt {} (default : Address).text (boundaryWorld true) b =
      bitmapAt {} (default : Address).text (boundaryWorld false) b := by
  obtain rfl : b = 0 := by omega
  rw [boundaryWorld_fine (Or.inr rfl), boundaryWorld_fine (Or.inr rfl)]

theorem numberOf_unreachable {contract : Address} {data : Bytes} {block : Chain.BlockTag} {message : Text}
    (h : w.outside.chain.read contract data block = .error message) :
    (Chain.Client.numberOf contract data block).answer w = .error (.unreachable message) := by
  have hsend : (send (.call (.read contract data block))).run w =
      (.ok (.error message), w.after (.call (.read contract data block))) := by
    rw [← h]
    rfl
  show ((((send (.call (.read contract data block))).bind _).bind _).run w).1 = _
  rw [run_bind, run_bind, hsend]
  rfl

theorem boundaryWorld_pruned :
    bitmapAt {} (default : Address).text (boundaryWorld true) 1 = .error (.unreachable "pruned") := by
  rw [bitmapAt_text]
  have hread : (boundaryWorld true).outside.chain.read ({} : Settings).network.storage
      (Chain.getUint (Keccak.digest (Chain.claimsPreimage default 1))) .latest = .error "pruned" := by
    simp only [boundaryWorld, and_self, if_true]
  exact numberOf_unreachable hread

/-- The bitmap of the second bucket fails, where no interval is, and with it the claims of
    the 256 intervals in front of it. -/
theorem bare_bitmap_spoils_claims :
    (∀ pruned, (Chain.Client.rewardIndex ({} : Settings).network.storage).answer (boundaryWorld pruned) = .ok 256) ∧
      (∀ b, 256 * b < 256 → bitmapAt {} (default : Address).text (boundaryWorld true) b =
        bitmapAt {} (default : Address).text (boundaryWorld false) b) ∧
      (∃ s, (claimStatus {} (default : Address).text).answer (boundaryWorld false) = .ok s) ∧
      (claimStatus {} (default : Address).text).answer (boundaryWorld true) = .error (.unreachable "pruned") := by
  refine ⟨fun pruned => boundaryWorld_index pruned _, fun b => boundaryWorld_alike, ?_, ?_⟩
  · rw [claimStatus_answer (boundaryWorld_index false _)]
    exact (claimsOf_bitmapAt_ok_iff 256 2).mpr fun b _ => ⟨256, boundaryWorld_fine (Or.inl rfl)⟩
  · rw [claimStatus_answer (boundaryWorld_index true _), claimsAt_boundary (n := 256) (by omega) (by omega)]
    have hfirst : ∃ s, claimsOf (bitmapAt {} (default : Address).text (boundaryWorld true)) 256 1 0 = .ok s :=
      (claimsOf_bitmapAt_ok_iff 256 1).mpr fun b hb => ⟨256, boundaryWorld_fine (Or.inr (by omega))⟩
    obtain ⟨s, hs⟩ := hfirst
    rw [hs, boundaryWorld_pruned]
    rfl

theorem claimStatus_alike_iff_pruned :
    (claimStatus {} (default : Address).text).answer (boundaryWorld true) ≠
      (claimStatus {} (default : Address).text).answer (boundaryWorld false) := by
  intro heq
  have halike := (claimStatus_alike_iff (boundaryWorld_index false _) (boundaryWorld_index true _)
    fun b => boundaryWorld_alike).mp heq (by omega) (by omega) fun b _ => ⟨256, boundaryWorld_fine (Or.inl rfl)⟩
  have hfine := (halike (.unreachable "pruned")).mp boundaryWorld_pruned
  rw [boundaryWorld_fine (Or.inl rfl)] at hfine
  cases hfine

end NodeGauge.Rewards
