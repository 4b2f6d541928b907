/-
  NodeGauge.Proofs.Minipool.Batches — the balances of many minipools against those of each.
  A balance only reads the chain, so each comes to what it comes to alone, in whatever
  order those of a batch take turns (`answer_all`). Cutting the minipools into batches
  loses none and keeps their order (`batches_flatten`). So the balances are there when
  each is (`balances_ok_iff`), and what they fail by is the fault of one of them
  (`balances_error`).
-/

import NodeGauge.Proofs.Cycle.Outcome

namespace NodeGauge.Minipool

open Job
open NodeGauge.Cycle (Calls apart_calls batch_calls balancesOf_calls)

variable {α β : Type} {w : World}

/-! ## Reads of the chain -/

/-- What only reads the chain answers behind any job as it would at the start. -/
theorem answer_bind {j : Job α} {f : α → Job β} (hf : ∀ a, (f a).Uses Calls) :
    (j >>= f).answer w = (j.answer w >>= fun a => (f a).answer w) := by
  show ((j.bind f).run w).1 = ((j.run w).1 >>= fun a => (f a).answer w)
  rw [run_bind]
  have hw : (j.run w).2.outside = w.outside := run_outside j w
  generalize j.run w = r at hw ⊢
  obtain ⟨x, v⟩ := r
  cases x with
  | error e => rfl
  | ok a => exact ((apart_calls Calls).answer_congr (hf a) hw).symm

/-- Side by side, each comes to what it comes to alone. -/
theorem answer_all {js : List (Job α)} (h : ∀ j ∈ js, j.Uses Calls) :
    (all js).answer w = .ok (js.map (·.answer w)) := by
  induction js with
  | nil => rfl
  | cons j js ih =>
    obtain ⟨hj, hjs⟩ := List.forall_mem_cons.mp h
    show (both j (all js) _).answer w = _
    refine ((apart_calls Calls).answer_both hj (uses_all hjs) ?_ w).trans ?_
    · intro x xs
      cases xs <;> trivial
    · rw [ih hjs]
      rfl

/-! ## Batches -/

theorem batches_flatten (size : Nat) (xs : List α) : (batches size xs).flatten = xs := by
  fun_induction batches size xs with
  | case1 => rfl
  | case2 x r ih => rw [List.flatten_cons, ih, List.cons_append, List.take_append_drop]

theorem faults_eq_nil_iff {rs : List (Except Fault α)} : faults rs = [] ↔ ∃ as : List α, rs = as.map .ok := by
  induction rs with
  | nil => exact ⟨fun _ => ⟨[], rfl⟩, fun _ => rfl⟩
  | cons r rs ih =>
    cases r with
    | error f =>
      have hcons : faults (.error f :: rs) = f :: faults rs := rfl
      rw [hcons]
      constructor
      · intro h
        cases h
      · intro h
        obtain ⟨as, h⟩ := h
        cases as <;> simp at h
    | ok a =>
      have hskip : faults (.ok a :: rs) = faults rs := rfl
      rw [hskip, ih]
      constructor
      · intro h
        obtain ⟨as, rfl⟩ := h
        exact ⟨a :: as, rfl⟩
      · intro h
        obtain ⟨as, h⟩ := h
        cases as with
        | nil => simp at h
        | cons b as => exact ⟨as, (List.cons.inj h).2⟩

theorem mem_faults_iff {rs : List (Except Fault α)} {f : Fault} : f ∈ faults rs ↔ .error f ∈ rs := by
  simp only [faults, List.mem_filterMap]
  constructor
  · intro h
    obtain ⟨r, hr, hf⟩ := h
    cases r with
    | error e =>
      cases hf
      exact hr
    | ok a => cases hf
  · intro h
    exact ⟨_, h, rfl⟩

/-- What comes to a value for all of them comes to one for each. -/
theorem exists_ok_of_map {xs : List β} {g : β → Except Fault α} {as : List α} (h : xs.map g = as.map .ok) {b : β}
    (hb : b ∈ xs) : ∃ a, g b = .ok a := by
  have hmem : g b ∈ as.map Except.ok := h ▸ List.mem_map_of_mem hb
  obtain ⟨a, -, ha⟩ := List.mem_map.mp hmem
  exact ⟨a, ha.symm⟩

theorem settled_cases (rs : List (Except Fault α)) :
    (∃ as : List α, rs = as.map .ok ∧ settled rs = .ok as) ∨ ∃ f, .error f ∈ rs ∧ settled rs = .error f := by
  unfold settled
  cases hf : ((faults rs).find? (· == .amountOutOfRange) <|> (faults rs).head?) with
  | some f =>
    refine Or.inr ⟨f, mem_faults_iff.mp ?_, rfl⟩
    cases hfind : (faults rs).find? (· == .amountOutOfRange) with
    | some g =>
      rw [hfind] at hf
      cases hf
      exact List.mem_of_find?_eq_some hfind
    | none =>
      rw [hfind] at hf
      exact List.mem_of_mem_head? hf
  | none =>
    have hnil : faults rs = [] := by
      cases hrs : faults rs with
      | nil => rfl
      | cons g gs =>
        rw [hrs] at hf
        cases hfind : List.find? (· == Fault.amountOutOfRange) (g :: gs) <;> rw [hfind] at hf <;> cases hf
    obtain ⟨as, rfl⟩ := faults_eq_nil_iff.mp hnil
    refine Or.inl ⟨as, rfl, ?_⟩
    simp [List.filterMap_map, Except.toOption, Function.comp_def]

/-! ## The balances -/

variable {s : Snapshot} {epoch block : Int}

theorem balancesOf_cons (batch : List Minipool) (rest : List (List Minipool)) :
    (balancesOf s epoch block (batch :: rest)).answer w =
      (do
        let found ← settled (batch.map fun m => (m.balance s epoch block).answer w)
        return found ++ (← (balancesOf s epoch block rest).answer w)) := by
  have hbatch := fun j hj => (batch_calls s epoch block batch j hj).uses
  let more : List BalanceDetails → Job (List BalanceDetails) := fun found => do
    return found ++ (← balancesOf s epoch block rest)
  have hmore : ∀ found, (more found).Uses Calls := fun found =>
    uses_bind (balancesOf_calls s epoch block rest).uses fun _ => trivial
  have hrest : ∀ rs : List (Except Fault BalanceDetails), (ofExcept (settled rs) >>= more).Uses Calls := fun rs =>
    uses_bind (uses_ofExcept (settled rs)) hmore
  have hsettled : ∀ r : Except Fault (List BalanceDetails), (ofExcept r).answer w = r := fun r =>
    congrArg Prod.fst (run_ofExcept r w)
  show (all (batch.map (balance s epoch block)) >>= fun rs => ofExcept (settled rs) >>= more).answer w = _
  rw [answer_bind hrest, answer_all hbatch, List.map_map]
  show (ofExcept (settled _) >>= more).answer w = _
  rw [answer_bind hmore, hsettled]
  congr 1
  funext found
  exact answer_bind fun _ => trivial

/-- One batch after the other: all are there in order, or one of them failed with this. -/
theorem balancesOf_cases (s : Snapshot) (epoch block : Int) (w : World) (bs : List (List Minipool)) :
    (∃ ds : List BalanceDetails, (balancesOf s epoch block bs).answer w = .ok ds ∧
        (bs.flatten.map fun m => (m.balance s epoch block).answer w) = ds.map .ok) ∨
      ∃ f, (balancesOf s epoch block bs).answer w = .error f ∧
        ∃ m ∈ bs.flatten, (m.balance s epoch block).answer w = .error f := by
  induction bs with
  | nil => exact Or.inl ⟨[], rfl, rfl⟩
  | cons batch rest ih =>
    rw [balancesOf_cons, List.flatten_cons]
    rcases settled_cases (batch.map fun m => (m.balance s epoch block).answer w) with ⟨ds, hds, hs⟩ | ⟨f, hf, hs⟩
    · rcases ih with ⟨more, hm, hmore⟩ | ⟨f, hf, m, hm, hmf⟩
      · refine Or.inl ⟨ds ++ more, by rw [hs, hm]; rfl, ?_⟩
        rw [List.map_append, List.map_append, hds, hmore]
      · exact Or.inr ⟨f, by rw [hs, hf]; rfl, m, List.mem_append_right _ hm, hmf⟩
    · obtain ⟨m, hm, hmf⟩ := List.mem_map.mp hf
      exact Or.inr ⟨f, by rw [hs]; rfl, m, List.mem_append_left _ hm, hmf⟩

variable {size : Int} {minipools : List Minipool}

theorem balances_cases (s : Snapshot) (epoch block : Int) (w : World) (minipools : List Minipool) (h : 0 < size) :
    (∃ ds : List BalanceDetails, (balances size s epoch block minipools).answer w = .ok ds ∧
        (minipools.map fun m => (m.balance s epoch block).answer w) = ds.map .ok) ∨
      ∃ f, (balances size s epoch block minipools).answer w = .error f ∧
        ∃ m ∈ minipools, (m.balance s epoch block).answer w = .error f := by
  obtain ⟨n, rfl⟩ : ∃ n : Nat, size = .ofNat (n + 1) := ⟨size.toNat - 1, by simp only [Int.ofNat_eq_natCast]; omega⟩
  have hcases := balancesOf_cases s epoch block w (batches n minipools)
  rw [batches_flatten] at hcases
  exact hcases

/-- Batches of no size are the setting's fault. -/
theorem balances_zero : (balances 0 s epoch block minipools).answer w =
    .error (.badSetting "MINIPOOL_BALANCES_BATCH_SIZE") := rfl

/-- A size below zero leaves nothing to resolve. -/
theorem balances_neg (h : size < 0) : (balances size s epoch block minipools).answer w = .ok [] := by
  cases size with
  | ofNat n => simp only [Int.ofNat_eq_natCast] at h; omega
  | negSucc n => rfl

/-- In batches of some size the balances are told when each of them is. -/
theorem balances_ok_iff :
    (∃ ds, (balances size s epoch block minipools).answer w = .ok ds) ↔
      size ≠ 0 ∧ (0 < size → ∀ m ∈ minipools, ∃ d, (m.balance s epoch block).answer w = .ok d) := by
  rcases Int.lt_trichotomy size 0 with hneg | rfl | hpos
  · simp only [balances_neg hneg, Except.ok.injEq, exists_eq', true_iff]
    exact ⟨by omega, fun hpos => by omega⟩
  · simp [balances_zero]
  · rcases balances_cases s epoch block w minipools hpos with ⟨ds, hds, hall⟩ | ⟨f, hf, m, hm, hmf⟩
    · exact ⟨fun _ => ⟨by omega, fun _ m hm => exists_ok_of_map hall hm⟩, fun _ => ⟨ds, hds⟩⟩
    · constructor
      · intro hok
        obtain ⟨ds, hds⟩ := hok
        cases hf.symm.trans hds
      · intro hok
        obtain ⟨d, hd⟩ := hok.2 hpos m hm
        cases hmf.symm.trans hd

/-- What they fail by is the fault of one of them, or of the size of the batches. -/
theorem balances_error {f : Fault} (hf : (balances size s epoch block minipools).answer w = .error f) :
    (size = 0 ∧ f = .badSetting "MINIPOOL_BALANCES_BATCH_SIZE") ∨
      ∃ m ∈ minipools, (m.balance s epoch block).answer w = .error f := by
  rcases Int.lt_trichotomy size 0 with hneg | rfl | hpos
  · cases (balances_neg hneg).symm.trans hf
  · rw [balances_zero] at hf
    exact Or.inl ⟨rfl, (Except.error.inj hf).symm⟩
  · rcases balances_cases s epoch block w minipools hpos with ⟨ds, hds, -⟩ | ⟨g, hg, hm⟩
    · cases hf.symm.trans hds
    · cases hf.symm.trans hg
      exact Or.inr hm

end NodeGauge.Minipool
