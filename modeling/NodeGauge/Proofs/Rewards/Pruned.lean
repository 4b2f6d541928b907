/-
  NodeGauge.Proofs.Rewards.Pruned — the rewards unit does not read the tree of an interval
  that the ledger holds and the registry marks as claimed. Replies are admitted that say so
  of the interval and may be any otherwise (`Told`); they may change from one to the next.
  The interval is then on the claimed side of every claim status (`within_claimStatus`), and
  there it is left out, for the ledger holds it: `within_reconcile`.
-/

import NodeGauge.Proofs.Job.Within
import NodeGauge.Proofs.Chain.Steady
import NodeGauge.Proofs.Rewards.Reconcile

namespace NodeGauge

/-! ## Paths -/

theorem Text.append_codes (s t : Text) : (s ++ t).codes = s.codes ++ t.codes := rfl

theorem Text.ofNat_inj {m n : Nat} (h : Text.ofNat m = Text.ofNat n) : m = n := by
  have hchars : Nat.toDigits 10 m = Nat.toDigits 10 n :=
    List.map_injective_iff.mpr (fun _ _ => Char.toNat_inj.mp) (Text.mk.inj h)
  calc m = Nat.ofDigitChars 10 (Nat.toDigits 10 m) 0 := Nat.ofDigitChars_ten_toDigits.symm
    _ = Nat.ofDigitChars 10 (Nat.toDigits 10 n) 0 := by rw [hchars]
    _ = n := Nat.ofDigitChars_ten_toDigits

namespace Rewards

open Job
open NodeGauge.Chain.Client (claimedBitmap)

/-- Each interval has a file of its own. -/
theorem treePath_inj {network dir : Text} {m n : Nat} (h : treePath network dir m = treePath network dir n) :
    m = n := by
  have hcodes := congrArg Text.codes h
  unfold treePath at hcodes
  split at hcodes <;>
    simp only [Text.append_codes, List.append_assoc, List.append_cancel_left_eq, List.append_cancel_right_eq] at hcodes
  · exact Text.ofNat_inj (Text.mk.injEq .. ▸ hcodes)
  · exact Text.ofNat_inj (Text.mk.injEq .. ▸ hcodes)

/-- Where the tree of the interval is looked for. -/
def treeFile (cfg : Settings) (i : Nat) : Text := treePath cfg.network.treeName cfg.treesDir i

/-- Asks that leave a file alone. -/
def Spares (p : Text) : Ask → Prop
  | .file q => q ≠ p
  | _ => True

variable {cfg : Settings} {node : Text} {i : Nat} {p : Text} {A : (q : Ask) → q.Reply → Prop} {α : Type} {w : World}

/-! ## Replies about an interval -/

/-- A reply that says of the interval what is so: the ledger holds it, and its bit is set in
    the bitmap it is in, if that can be read. Of all else it may say anything. -/
def Told (cfg : Settings) (node : Text) (i : Nat) : (q : Ask) → q.Reply → Prop
  | .ledger, l => (i : Int) ∈ l.handled
  | .call (.read contract data block), r => ∀ key bytes word, Chain.claimsKey node (i / 256 : Nat) = .ok key →
    contract = cfg.network.storage → data = Chain.getUint key → block = .latest → r = .ok bytes →
    Chain.decodeNumber bytes = .ok word → bit word (i % 256) = true
  | _, _ => True

/-- Wherever the bitmap of the interval can be read, it is marked as claimed. -/
def Marked (cfg : Settings) (node : Text) (i : Nat) (w : World) : Prop :=
  ∀ word, bitmapAt cfg node w (i / 256) = .ok word → bit word (i % 256) = true

/-- The registry is on the chain. -/
theorem Marked.congr {v : World} (h : Marked cfg node i w) (hchain : v.outside.chain = w.outside.chain) :
    Marked cfg node i v := by
  have hreply : ∀ (q : Ask) (w v : World), (∃ c, q = .call c) → v.outside.chain = w.outside.chain →
      q.reply w = q.reply v ∧ (v.after q).outside.chain = (w.after q).outside.chain := by
    rintro _ w v ⟨c, rfl⟩ hchain
    refine ⟨?_, hchain⟩
    cases c <;> simp only [Ask.reply, hchain]
  have hcalls : (claimedBitmap cfg.network.storage node (i / 256 : Nat)).Uses fun q => ∃ c, q = .call c :=
    uses_bind (uses_ofExcept _) fun _ => (numberOf_straight ⟨_, rfl⟩).uses
  intro word hword
  refine h word ?_
  rw [← hword]
  exact (run_congr hreply hcalls hchain).1

theorem told_reply (hi : (i : Int) ∈ w.memory.ledger.handled) (hm : Marked cfg node i w) (q : Ask) :
    Told cfg node i q (q.reply w) := by
  cases q with
  | ledger => exact hi
  | call c =>
    cases c with
    | latestBlock => trivial
    | read contract data block =>
      rintro key bytes word hkey rfl rfl rfl hread hword
      refine hm word ?_
      have hbitmap : claimedBitmap cfg.network.storage node (i / 256 : Nat) =
          Chain.Client.numberOf cfg.network.storage (Chain.getUint key) .latest := by
        unfold claimedBitmap
        rw [hkey]
        rfl
      rw [bitmapAt, hbitmap]
      exact Chain.numberOf_answer hread hword
  | _ => trivial

/-! ## The claims -/

theorem within_ofExcept {P : Ask → Prop} {Q : Except Fault α → Prop} {r : Except Fault α} (h : Q r) :
    (Job.ofExcept r).Within A P Q := by
  cases r <;> exact h

/-- The bytes are those of an admitted reply. -/
theorem within_bytesOf {P : Ask → Prop} {contract : Address} {data : Bytes} {block : Chain.BlockTag}
    (hP : P (.call (.read contract data block))) : (Chain.Client.bytesOf contract data block).Within A P
      (Gives fun bytes => A (.call (.read contract data block)) (.ok bytes)) := by
  refine ⟨hP, fun r hr => ?_⟩
  cases r with
  | error message => exact gives_error
  | ok bytes => exact gives_ok hr

theorem within_claimedBitmap (bucket : Nat) :
    (claimedBitmap cfg.network.storage node bucket).Within (Told cfg node i) (Spares p)
      (Gives fun word => bucket = i / 256 → bit word (i % 256) = true) := by
  refine within_bind (R := fun key => Chain.claimsKey node bucket = .ok key)
    (within_ofExcept fun key hkey => hkey) (fun key hkey => ?_) fun _ => gives_error
  refine within_bind (within_bytesOf trivial) (fun bytes hbytes => within_ofExcept ?_) fun _ => gives_error
  rintro word hword rfl
  exact hbytes key bytes word hkey rfl rfl rfl rfl hword

/-- The interval is not among those that are not claimed. -/
structure Clear (i : Nat) (s : ClaimStatus) : Prop where
  unclaimed : ∀ j ∈ s.unclaimed, ∃ k : Nat, j = k ∧ k ≠ i
  claimed : ∀ j ∈ s.claimed, ∃ k : Nat, j = k

theorem clear_empty : Clear i .empty :=
  ⟨fun _ hj => (List.not_mem_nil hj).elim, fun _ hj => (List.not_mem_nil hj).elim⟩

theorem Clear.append {s t : ClaimStatus} (hs : Clear i s) (ht : Clear i t) : Clear i (s ++ t) where
  unclaimed j hj := (List.mem_append.mp hj).elim (hs.unclaimed j) (ht.unclaimed j)
  claimed j hj := (List.mem_append.mp hj).elim (hs.claimed j) (ht.claimed j)

theorem clear_decodeBitmap {word bucket : Nat} (h : bucket = i / 256 → bit word (i % 256) = true) (index : Nat) :
    Clear i (decodeBitmap word bucket index) := by
  rw [decodeBitmap_eq]
  constructor
  · intro j hj
    obtain ⟨k, hk, rfl⟩ := List.mem_map.mp hj
    obtain ⟨hrange, hbit⟩ := List.mem_filter.mp hk
    obtain ⟨h1, h2⟩ := List.mem_range'_1.mp hrange
    refine ⟨k, rfl, ?_⟩
    rintro rfl
    have hplace : k - 256 * bucket = k % 256 := by omega
    simp only [hplace, h (by omega), Bool.not_true, Bool.false_eq_true] at hbit
  · intro j hj
    obtain ⟨k, -, rfl⟩ := List.mem_map.mp hj
    exact ⟨k, rfl⟩

theorem within_claimsFrom (index left bucket : Nat) :
    (claimsFrom cfg node index left bucket).Within (Told cfg node i) (Spares p) (Gives (Clear i)) := by
  induction left generalizing bucket with
  | zero => exact gives_ok clear_empty
  | succ left ih =>
    refine within_bind (within_claimedBitmap bucket) (fun word hword => ?_) fun _ => gives_error
    refine within_bind (ih (bucket + 1)) (fun rest hrest => ?_) fun _ => gives_error
    exact gives_ok ((clear_decodeBitmap hword index).append hrest)

theorem within_claimStatus : (claimStatus cfg node).Within (Told cfg node i) (Spares p) (Gives (Clear i)) := by
  have hindex : (Chain.Client.rewardIndex cfg.network.storage).Uses (Spares p) :=
    (straight_bind (rewardsPool_straight trivial trivial fun _ => trivial) fun _ => numberOf_straight trivial).uses
  refine within_bind (R := fun _ => True) ((within_of_uses hindex).mono fun _ _ _ _ => trivial) (fun index _ => ?_)
    fun _ => gives_error
  split
  · exact gives_ok clear_empty
  · exact within_claimsFrom index _ 0

/-! ## The trees -/

theorem resolved_spares {claimed : Bool} {k : Nat} (h : k ≠ i) :
    (resolved cfg node claimed k).Uses (Spares (treeFile cfg i)) := by
  have hpath : Spares (treeFile cfg i) (.file (treePath cfg.network.treeName cfg.treesDir k)) :=
    fun heq => h (treePath_inj heq)
  refine uses_bind (uses_bind (uses_send hpath) fun _ => uses_ofExcept _) fun info => ?_
  split <;> trivial

/-- The ledger that is asked for each interval holds this one, so it is passed over. -/
theorem within_newlyClaimed {intervals : List Int} (h : ∀ j ∈ intervals, ∃ k : Nat, j = k) :
    (newlyClaimed cfg node intervals).Within (Told cfg node i) (Spares (treeFile cfg i)) fun _ => True := by
  induction intervals with
  | nil => trivial
  | cons j rest ih =>
    rw [List.forall_mem_cons] at h
    obtain ⟨⟨k, rfl⟩, hrest⟩ := h
    refine ⟨trivial, fun (l : Ledger) (hl : (i : Int) ∈ l.handled) => ?_⟩
    show (if l.isHandled k then newlyClaimed cfg node rest else (do
      let info ← resolved cfg node true k
      return info :: (← newlyClaimed cfg node rest)) : Job (List IntervalInfo)).Within _ _ _
    split
    · exact ih hrest
    · rename_i hk
      have hne : k ≠ i := by
        rintro rfl
        exact hk (List.contains_iff_mem.mpr hl)
      exact within_seq (within_of_uses (resolved_spares hne)) fun _ => within_seq (ih hrest) fun _ => trivial

theorem unclaimedSums_spares {intervals : List Int} (h : ∀ j ∈ intervals, ∃ k : Nat, j = k ∧ k ≠ i) :
    (unclaimedSums cfg node intervals).Uses (Spares (treeFile cfg i)) := by
  induction intervals with
  | nil => trivial
  | cons j rest ih =>
    rw [List.forall_mem_cons] at h
    obtain ⟨⟨k, rfl, hk⟩, hrest⟩ := h
    exact uses_bind (resolved_spares hk) fun _ => uses_bind (ih hrest) fun _ => trivial

/-- The unit leaves the tree of the interval alone, whatever else it is told. -/
theorem within_reconcile (cfg : Settings) (node : Text) (i : Nat) :
    (reconcile cfg node).Within (Told cfg node i) (Spares (treeFile cfg i)) fun _ => True := by
  refine within_bind within_claimStatus (fun status hclear => ?_) fun _ => trivial
  refine within_seq (within_newlyClaimed hclear.claimed) fun infos => ?_
  refine within_of_uses (uses_bind (unclaimedSums_spares hclear.unclaimed) fun sums => ?_)
  refine uses_bind (latestBlock_straight trivial).uses fun block => uses_bind (uses_send trivial) fun r => ?_
  exact uses_bind (uses_ofExcept r) fun _ => uses_bind (uses_ofExcept _) fun _ =>
    uses_bind (uses_ofExcept _) fun _ => trivial

end Rewards

end NodeGauge
