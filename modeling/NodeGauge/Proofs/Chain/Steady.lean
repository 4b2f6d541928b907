/-
  NodeGauge.Proofs.Chain.Steady — a chain that gives every read one answer. What the client
  reads of it is known without any storage key, so no digest is computed.
-/

import NodeGauge.Chain.Client
import NodeGauge.Proofs.Address
import NodeGauge.Proofs.Job.Footprint

namespace NodeGauge.Chain

open Job

/-- Every read is answered by one word, which holds the number and is an address too. -/
structure Steady (c : Chain) (n : Nat) : Prop where
  word : ∃ bytes, (∀ contract data block, c.read contract data block = .ok bytes) ∧
    decodeNumber bytes = .ok n ∧ ∃ a, decodeAddress bytes = .ok a

variable {w : World} {n : Nat}

theorem claimsKey_text (a : Address) (bucket : Nat) :
    claimsKey a.text bucket = .ok (Keccak.digest (claimsPreimage a bucket)) := by
  unfold claimsKey
  rw [Address.ofChecksummed?_text]
  simp only [Int.toNat_natCast]
  exact if_neg (by omega)

theorem run_bytesOf {contract : Address} {data bytes : Bytes} {block : BlockTag}
    (h : w.outside.chain.read contract data block = .ok bytes) :
    (Client.bytesOf contract data block).run w = (.ok bytes, w.after (.call (.read contract data block))) := by
  have hsend : (send (.call (.read contract data block))).run w =
      (.ok (.ok bytes), w.after (.call (.read contract data block))) := by
    rw [← h]
    rfl
  show ((send (.call (.read contract data block))).bind _).run w = _
  rw [run_bind, hsend]
  rfl

theorem numberOf_answer {contract : Address} {data bytes : Bytes} {block : BlockTag}
    (hread : w.outside.chain.read contract data block = .ok bytes) (hn : decodeNumber bytes = .ok n) :
    (Client.numberOf contract data block).answer w = .ok n := by
  show (((Client.bytesOf contract data block).bind fun bytes => Job.ofExcept (decodeNumber bytes)).run w).1 = .ok n
  rw [run_bind, run_bytesOf hread]
  simp only [run_ofExcept, hn]

theorem Steady.numberOf (h : Steady w.outside.chain n) (contract : Address) (data : Bytes) (block : BlockTag) :
    (Client.numberOf contract data block).answer w = .ok n := by
  obtain ⟨bytes, hread, hn, -⟩ := h.word
  exact numberOf_answer (hread ..) hn

theorem Steady.claimedBitmap (h : Steady w.outside.chain n) (storage : Address) (a : Address) (bucket : Nat) :
    (Client.claimedBitmap storage a.text bucket).answer w = .ok n := by
  have hk : Client.claimedBitmap storage a.text bucket =
      Client.numberOf storage (getUint (Keccak.digest (claimsPreimage a bucket))) .latest := by
    unfold Client.claimedBitmap
    rw [claimsKey_text]
    rfl
  rw [hk]
  exact h.numberOf ..

theorem Steady.rewardsPool (h : Steady w.outside.chain n) (storage : Address) :
    ∃ a v, (Client.rewardsPool storage).run w = (.ok a, v) ∧ v.outside = w.outside := by
  obtain ⟨bytes, hread, -, a, ha⟩ := h.word
  have hsend : (send .rewardsPool).run w = (.ok w.memory.rewardsPool, w.after .rewardsPool) := rfl
  show ∃ a v, ((send .rewardsPool).bind _).run w = (.ok a, v) ∧ v.outside = w.outside
  rw [run_bind, hsend]
  cases w.memory.rewardsPool with
  | some kept => exact ⟨kept, _, rfl, rfl⟩
  | none =>
    have hbytes := run_bytesOf (w := w.after .rewardsPool) (hread storage (getAddress rewardsPoolKey) .latest)
    let v := (w.after .rewardsPool).after (.call (.read storage (getAddress rewardsPoolKey) .latest))
    refine ⟨a, v.after (.keepRewardsPool a), ?_, rfl⟩
    show ((Client.bytesOf storage (getAddress rewardsPoolKey) .latest).bind _).run (w.after .rewardsPool) = _
    rw [run_bind, hbytes]
    show ((Job.ofExcept (decodeAddress bytes)).bind fun a => (send (.keepRewardsPool a)).bind fun _ => done a).run v = _
    rw [ha]
    rfl

theorem Steady.rewardIndex (h : Steady w.outside.chain n) (storage : Address) :
    (Client.rewardIndex storage).answer w = .ok n := by
  obtain ⟨a, v, hrun, hv⟩ := h.rewardsPool storage
  show (((Client.rewardsPool storage).bind fun a => Client.numberOf a getRewardIndex .latest).run w).1 = .ok n
  rw [run_bind, hrun]
  rw [← hv] at h
  exact h.numberOf ..

end NodeGauge.Chain
