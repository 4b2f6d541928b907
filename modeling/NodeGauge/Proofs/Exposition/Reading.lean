/-
  NodeGauge.Proofs.Exposition.Reading — the text of the metrics read back, line by line. A
  line that begins with `#` is left out, any other is a name, labels in braces if it has
  any, and behind its last blank a number (`readLine`). The text of families whose names
  and labels hold none of the signs between them reads back to their samples
  (`read_render`), if no number's text holds a blank or a line end (`Format.Plain`).

  So the text of any metrics reads back to one sample for each of the twenty fields, each
  under a name and labels of its own (`page_reads_back`).
-/

import NodeGauge.Proofs.Metrics
import NodeGauge.Proofs.Service.Scrapes

namespace NodeGauge.Exposition

/-! ## Reading -/

/-- What the line of a sample says. -/
structure Reading where
  name : Text
  labels : List (Text × Text)
  number : Text
  deriving DecidableEq, Repr

/-- What tells a sample from the others. -/
def Reading.key (r : Reading) : Text × List (Text × Text) := (r.name, r.labels)

/-- What stands in front of the first code like this, and what behind it. -/
def upTo (c : Nat) : List Nat → Option (List Nat × List Nat)
  | [] => none
  | d :: rest => if d = c then some ([], rest) else (upTo c rest).map fun p => (d :: p.1, p.2)

/-- The labels in the pieces between quotes, a comma in front of each and a brace behind them. -/
def readLabels : List (List Nat) → Option (List (Text × Text))
  | [[125]] => some []
  | (44 :: key) :: value :: more =>
    if key.getLast? = some 61 then (readLabels more).map fun ls => (⟨key.dropLast⟩, ⟨value⟩) :: ls else none
  | _ => none

/-- A name, and labels in braces if there are any. -/
def readKey (codes : List Nat) : Option (Text × List (Text × Text)) :=
  match codes.splitOn 34 with
  | [name] => some (⟨name⟩, [])
  | first :: more => do
    let (name, key) ← upTo 123 first
    return (⟨name⟩, ← readLabels ((44 :: key) :: more))
  | [] => none

/-- A name with its labels, and behind the last blank a number. -/
def readLine (line : List Nat) : Option Reading := do
  let (number, front) ← upTo 32 line.reverse
  let (name, labels) ← readKey front.reverse
  return ⟨name, labels, ⟨number.reverse⟩⟩

/-- The lines that say something: neither empty nor a comment. -/
def samplesIn (t : Text) : List (List Nat) :=
  (t.codes.splitOn 10).filter fun line => line ≠ [] ∧ line.head? ≠ some 35

/-- The samples of a text, if each line has the form of one. -/
def read (t : Text) : Option (List Reading) := (samplesIn t).mapM readLine

/-! ## Lines -/

theorem upTo_append {c : Nat} {before : List Nat} (h : c ∉ before) (rest : List Nat) :
    upTo c (before ++ c :: rest) = some (before, rest) := by
  induction before with
  | nil => exact if_pos rfl
  | cons d before ih =>
    rw [List.mem_cons, not_or] at h
    show (if d = c then _ else (upTo c (before ++ c :: rest)).map _) = _
    rw [if_neg (Ne.symm h.1), ih h.2]
    rfl

theorem samplesIn_line {line : List Nat} (h : 10 ∉ line) (rest : List Nat) :
    samplesIn ⟨line ++ 10 :: rest⟩ = (if line ≠ [] ∧ line.head? ≠ some 35 then [line] else []) ++ samplesIn ⟨rest⟩ := by
  unfold samplesIn
  rw [List.splitOn_append_cons_self, List.splitOn_eq_singleton h, List.filter_append]
  simp only [List.filter_cons, List.filter_nil, decide_eq_true_eq]

theorem samplesIn_comment {line : List Nat} (h : 10 ∉ line) (rest : List Nat) :
    samplesIn ⟨35 :: line ++ 10 :: rest⟩ = samplesIn ⟨rest⟩ := by
  rw [samplesIn_line (by simpa using h)]
  rfl

/-! ## Labels -/

/-- The codes of a label behind a comma, and the pieces that its two quotes cut them into. -/
def labelCodes (l : Text × Text) : List Nat := 44 :: l.1.codes ++ 61 :: 34 :: l.2.codes ++ [34]

def labelPieces (l : Text × Text) : List (List Nat) := [44 :: l.1.codes ++ [61], l.2.codes]

/-- Labels whose quotes are only those around the values, on one line. -/
def PlainLabels (ls : List (Text × Text)) : Prop :=
  ∀ l ∈ ls, (∀ c ∈ l.1.codes, c ≠ 10 ∧ c ≠ 34) ∧ ∀ c ∈ l.2.codes, c ≠ 10 ∧ c ≠ 34

theorem splitOn_labels {ls : List (Text × Text)} (hls : PlainLabels ls) :
    (ls.flatMap labelCodes ++ [125]).splitOn 34 = ls.flatMap labelPieces ++ [[125]] := by
  induction ls with
  | nil => rfl
  | cons l ls ih =>
    obtain ⟨⟨hkey, hvalue⟩, hls⟩ := List.forall_mem_cons.mp hls
    have hk : 34 ∉ 44 :: l.1.codes ++ [61] := by
      simp only [List.cons_append, List.mem_cons, List.mem_append, List.not_mem_nil, or_false]
      rintro (h | h | h)
      · cases h
      · exact (hkey 34 h).2 rfl
      · cases h
    have hv : 34 ∉ l.2.codes := fun h => (hvalue 34 h).2 rfl
    have hcodes : (l :: ls).flatMap labelCodes ++ [125] =
        (44 :: l.1.codes ++ [61]) ++ 34 :: (l.2.codes ++ 34 :: (ls.flatMap labelCodes ++ [125])) := by
      simp [labelCodes]
    rw [hcodes, List.splitOn_append_cons_self, List.splitOn_append_cons_self, List.splitOn_eq_singleton hk,
      List.splitOn_eq_singleton hv, ih hls]
    rfl

theorem readLabels_pieces (ls : List (Text × Text)) : readLabels (ls.flatMap labelPieces ++ [[125]]) = some ls := by
  induction ls with
  | nil => rfl
  | cons l ls ih =>
    show (if (l.1.codes ++ [61]).getLast? = some 61 then
      (readLabels (ls.flatMap labelPieces ++ [[125]])).map _ else none) = _
    rw [if_pos (by simp), ih]
    simp

/-- The labels in braces are each behind a comma, but the first. -/
theorem labelsText_codes (l : Text × Text) (ls : List (Text × Text)) :
    (labelsText (l :: ls)).codes = 123 :: (l.1.codes ++ 61 :: 34 :: l.2.codes ++ 34 :: (ls.flatMap labelCodes ++ [125])) := by
  have hconcat : ∀ (x : Text) (xs : List (Text × Text)),
      (Text.concat ((x :: xs.map labelText).intersperse ",")).codes = x.codes ++ xs.flatMap labelCodes := by
    intro x xs
    induction xs generalizing x with
    | nil => simp [Text.concat]
    | cons y xs ih =>
      show x.codes ++ 44 :: (Text.concat ((labelText y :: xs.map labelText).intersperse ",")).codes = _
      rw [ih]
      show x.codes ++ 44 :: ((y.1.codes ++ [61, 34] ++ y.2.codes ++ [34]) ++ xs.flatMap labelCodes) = _
      simp [labelCodes]
  show 123 :: (Text.concat ((labelText l :: ls.map labelText).intersperse ",")).codes ++ [125] = _
  rw [hconcat]
  show 123 :: ((l.1.codes ++ [61, 34] ++ l.2.codes ++ [34]) ++ ls.flatMap labelCodes) ++ [125] = _
  simp

/-! ## Samples -/

/-- No text of a number holds a blank or a line end. -/
def Format.Plain (fmt : Format) : Prop := ∀ d, 32 ∉ (fmt.number d).codes ∧ 10 ∉ (fmt.number d).codes

variable (fmt : Format)

def Sample.reading (s : Sample) : Reading := ⟨s.name, s.labels, fmt.number s.value⟩

/-- The name and the labels hold none of the signs that stand between them. -/
structure Sample.Plain (s : Sample) : Prop where
  name : ∀ c ∈ s.name.codes, 35 < c ∧ c ≠ 123
  named : s.name.codes ≠ []
  labels : PlainLabels s.labels

/-- What stands in front of the number and its blank. -/
def Sample.front (s : Sample) : List Nat := s.name.codes ++ (labelsText s.labels).codes

/-- The line of a sample without its end. -/
def Sample.codes (s : Sample) : List Nat := s.front ++ 32 :: (fmt.number s.value).codes

theorem Sample.line_codes (s : Sample) : (s.line fmt).codes = s.codes fmt ++ [10] := by
  show s.name.codes ++ (labelsText s.labels).codes ++ [32] ++ (fmt.number s.value).codes ++ [10] = _
  simp [Sample.codes, Sample.front]

variable {fmt} {s : Sample}

theorem Sample.Plain.readKey (hs : s.Plain) : readKey s.front = some (s.name, s.labels) := by
  have hquote : 34 ∉ s.name.codes := fun h => absurd (hs.name 34 h).1 (by decide)
  unfold Sample.front Exposition.readKey
  cases hl : s.labels with
  | nil =>
    have hname : s.name.codes ++ (labelsText []).codes = s.name.codes := List.append_nil _
    rw [hname, List.splitOn_eq_singleton hquote]
  | cons l ls =>
    have hplain := hs.labels
    rw [hl] at hplain
    have hbrace : 123 ∉ s.name.codes := fun h => (hs.name 123 h).2 rfl
    -- the first quote comes behind the name, the brace and the first key
    have hkey : 34 ∉ s.name.codes ++ 123 :: (l.1.codes ++ [61]) := by
      have hk : 34 ∉ l.1.codes := fun h => ((hplain l (List.mem_cons_self ..)).1 34 h).2 rfl
      simp [hquote, hk]
    have hvalue : 34 ∉ l.2.codes := fun h => ((hplain l (List.mem_cons_self ..)).2 34 h).2 rfl
    have hfront : s.name.codes ++ (labelsText (l :: ls)).codes = (s.name.codes ++ 123 :: (l.1.codes ++ [61])) ++
        34 :: (l.2.codes ++ 34 :: (ls.flatMap labelCodes ++ [125])) := by
      rw [labelsText_codes]
      simp
    have hlabels := readLabels_pieces (l :: ls)
    simp only [List.flatMap_cons, labelPieces, List.cons_append, List.nil_append] at hlabels
    rw [hfront, List.splitOn_append_cons_self, List.splitOn_append_cons_self, List.splitOn_eq_singleton hkey,
      List.splitOn_eq_singleton hvalue, splitOn_labels fun k hk => hplain k (List.mem_cons_of_mem _ hk)]
    simp only [List.cons_append, List.nil_append, upTo_append hbrace, Option.bind_eq_bind, Option.bind_some, hlabels]
    rfl

theorem Sample.Plain.readLine (hfmt : fmt.Plain) (hs : s.Plain) : readLine (s.codes fmt) = some (s.reading fmt) := by
  have hblank : 32 ∉ (fmt.number s.value).codes.reverse := fun h => (hfmt s.value).1 (List.mem_reverse.mp h)
  have hreverse : (s.codes fmt).reverse = (fmt.number s.value).codes.reverse ++ 32 :: s.front.reverse := by
    simp [Sample.codes]
  unfold Exposition.readLine
  rw [hreverse, upTo_append hblank]
  simp only [Option.bind_eq_bind, Option.bind_some, List.reverse_reverse, hs.readKey]
  rfl

theorem Sample.Plain.no_end (hfmt : fmt.Plain) (hs : s.Plain) : 10 ∉ s.codes fmt := by
  have hname : 10 ∉ s.name.codes := fun h => absurd (hs.name 10 h).1 (by decide)
  have hlabels : 10 ∉ (labelsText s.labels).codes := by
    have hplain := hs.labels
    have hlabel : ∀ l ∈ s.labels, 10 ∉ l.1.codes ∧ 10 ∉ l.2.codes :=
      fun l hl => ⟨fun h => ((hplain l hl).1 10 h).1 rfl, fun h => ((hplain l hl).2 10 h).1 rfl⟩
    cases hl : s.labels with
    | nil => exact List.not_mem_nil
    | cons l ls =>
      rw [hl, List.forall_mem_cons] at hlabel
      rw [labelsText_codes]
      simp only [List.mem_cons, List.mem_append, List.mem_flatMap, labelCodes, List.not_mem_nil, or_false]
      simp only [hlabel.1, false_or, or_false, not_or, not_exists, not_and]
      refine ⟨by decide, by decide, by decide, ?_, by decide⟩
      intro k hk
      simp [hlabel.2 k hk]
  simp [Sample.codes, Sample.front, hname, hlabels, (hfmt s.value).2]

/-! ## Families -/

/-- A family on lines of its own, with plain samples. -/
structure Family.Plain (f : Family) : Prop where
  name : 10 ∉ f.name.codes
  help : 10 ∉ f.help.codes
  samples : ∀ s ∈ f.samples, s.Plain

theorem samplesIn_samples (hfmt : fmt.Plain) {ss : List Sample} (hss : ∀ s ∈ ss, s.Plain) (rest : List Nat) :
    samplesIn ⟨(Text.concat (ss.map (Sample.line fmt))).codes ++ rest⟩ =
      ss.map (Sample.codes fmt) ++ samplesIn ⟨rest⟩ := by
  induction ss with
  | nil => rfl
  | cons s ss ih =>
    obtain ⟨hs, hss⟩ := List.forall_mem_cons.mp hss
    have hcodes : (Text.concat ((s :: ss).map (Sample.line fmt))).codes ++ rest =
        s.codes fmt ++ 10 :: ((Text.concat (ss.map (Sample.line fmt))).codes ++ rest) := by
      show ((s.line fmt).codes ++ (Text.concat (ss.map (Sample.line fmt))).codes) ++ rest = _
      rw [s.line_codes]
      simp
    have hsays : s.codes fmt ≠ [] ∧ (s.codes fmt).head? ≠ some 35 := by
      obtain ⟨c, cs, hname⟩ := List.exists_cons_of_ne_nil hs.named
      have hc := (hs.name c (by simp [hname])).1
      unfold Sample.codes Sample.front
      rw [hname]
      simp only [List.cons_append, List.head?_cons, ne_eq, reduceCtorEq, not_false_eq_true, Option.some.injEq, true_and]
      omega
    rw [hcodes, samplesIn_line (hs.no_end hfmt), if_pos hsays, ih hss]
    rfl

theorem samplesIn_family (hfmt : fmt.Plain) {f : Family} (hf : f.Plain) (rest : List Nat) :
    samplesIn ⟨(f.text fmt).codes ++ rest⟩ = f.samples.map (Sample.codes fmt) ++ samplesIn ⟨rest⟩ := by
  have hcodes : (f.text fmt).codes ++ rest =
      35 :: ((Text.ofString " HELP ").codes ++ f.name.codes ++ 32 :: f.help.codes) ++
        10 :: (35 :: ((Text.ofString " TYPE ").codes ++ f.name.codes ++ (Text.ofString " gauge").codes) ++
          10 :: ((Text.concat (f.samples.map (Sample.line fmt))).codes ++ rest)) := by
    have hhelp : (Text.ofString "# HELP ").codes = 35 :: (Text.ofString " HELP ").codes := by decide
    have hblank : (Text.ofString " ").codes = [32] := by decide
    have htype : (Text.ofString "\n# TYPE ").codes = 10 :: 35 :: (Text.ofString " TYPE ").codes := by decide
    have hgauge : (Text.ofString " gauge\n").codes = (Text.ofString " gauge").codes ++ [10] := by decide
    show (Text.ofString "# HELP ").codes ++ f.name.codes ++ (Text.ofString " ").codes ++ f.help.codes ++
      (Text.ofString "\n# TYPE ").codes ++ f.name.codes ++ (Text.ofString " gauge\n").codes ++
        (Text.concat (f.samples.map (Sample.line fmt))).codes ++ rest = _
    rw [hhelp, hblank, htype, hgauge]
    simp only [List.cons_append, List.append_assoc, List.nil_append]
  have hhelp : 10 ∉ (Text.ofString " HELP ").codes ++ f.name.codes ++ 32 :: f.help.codes := by
    have hmark : 10 ∉ (Text.ofString " HELP ").codes := by decide
    simp [hmark, hf.name, hf.help]
  have htype : 10 ∉ (Text.ofString " TYPE ").codes ++ f.name.codes ++ (Text.ofString " gauge").codes := by
    have hmark : 10 ∉ (Text.ofString " TYPE ").codes := by decide
    have hgauge : 10 ∉ (Text.ofString " gauge").codes := by decide
    simp [hmark, hf.name, hgauge]
  rw [hcodes, samplesIn_comment hhelp, samplesIn_comment htype, samplesIn_samples hfmt hf.samples]

/-- The text of plain families reads back to their samples, in their order. -/
theorem read_render (hfmt : fmt.Plain) {fs : List Family} (hfs : ∀ f ∈ fs, f.Plain) :
    read (render fmt fs) = some ((fs.flatMap Family.samples).map (Sample.reading fmt)) := by
  have hlines : samplesIn (render fmt fs) = (fs.flatMap Family.samples).map (Sample.codes fmt) := by
    unfold render
    induction fs with
    | nil => rfl
    | cons f fs ih =>
      obtain ⟨hf, hfs⟩ := List.forall_mem_cons.mp hfs
      have hrest := ih hfs
      rw [List.flatMap_cons, List.map_append, ← hrest]
      exact samplesIn_family hfmt hf _
  have hread : ∀ s ∈ fs.flatMap Family.samples, Exposition.readLine (s.codes fmt) = some (s.reading fmt) := by
    intro s hs
    obtain ⟨f, hf, hmem⟩ := List.mem_flatMap.mp hs
    exact ((hfs f hf).samples s hmem).readLine hfmt
  unfold read
  rw [hlines, List.mapM_map]
  generalize fs.flatMap Family.samples = ss at hread
  induction ss with
  | nil => rfl
  | cons s ss ih =>
    obtain ⟨hs, hss⟩ := List.forall_mem_cons.mp hread
    have hfirst : (Exposition.readLine ∘ Sample.codes fmt) s = some (s.reading fmt) := hs
    rw [List.mapM_cons, hfirst, ih hss]
    rfl

/-! ## The page -/

open Metrics (Field)

/-- The name and the labels under which a field is shown. -/
def shownAs : Field → Text × List (Text × Text)
  | .totalStakedRpl => (metricName "total_staked_rpl", [])
  | .effectiveStakedRpl => (metricName "effective_staked_rpl", [])
  | .rplCollateral => (metricName "rpl_collateral", [])
  | .cumulativeRplRewards => (metricName "cumulative_rpl_rewards", [])
  | .expectedRplRewards => (metricName "expected_rpl_rewards", [])
  | .rplApr => (metricName "rpl_apr", [])
  | .ethBalance => (metricName "balance", [("Token", "ETH")])
  | .oldRplBalance => (metricName "balance", [("Token", "Legacy RPL")])
  | .newRplBalance => (metricName "balance", [("Token", "New RPL")])
  | .rethBalance => (metricName "balance", [("Token", "rETH")])
  | .activeMinipoolCount => (metricName "active_minipool_count", [])
  | .depositedEth => (metricName "deposited_eth", [])
  | .beaconShare => (metricName "beacon_share", [])
  | .beaconBalance => (metricName "beacon_balance", [])
  | .unclaimedRplRewards => (metricName "unclaimed_rewards", [])
  | .claimedEthRewards => (metricName "claimed_eth_rewards", [])
  | .unclaimedEthRewards => (metricName "unclaimed_eth_rewards", [])
  | .totalEthRewardsSkimmed => (metricName "total_eth_rewards_skimmed", [])
  | .totalEthRewardsShareSkimmed => (metricName "total_eth_rewards_share_skimmed", [])
  | .totalRefundEthSkimmed => (metricName "total_refund_eth_skimmed", [])

/-- The fields in the order they are shown in: the balances are last. -/
def shownOrder : List Field := [
  .totalStakedRpl, .effectiveStakedRpl, .rplCollateral, .cumulativeRplRewards, .expectedRplRewards, .rplApr,
  .activeMinipoolCount, .depositedEth, .beaconShare, .beaconBalance, .unclaimedRplRewards, .claimedEthRewards,
  .unclaimedEthRewards, .totalEthRewardsSkimmed, .totalEthRewardsShareSkimmed, .totalRefundEthSkimmed, .ethBalance,
  .oldRplBalance, .newRplBalance, .rethBalance]

/-- What a field is shown as, and its number. -/
def shown (fmt : Format) (m : Metrics) (f : Field) : Reading :=
  ⟨(shownAs f).1, (shownAs f).2, fmt.number (f.value m)⟩

/-- The name and the label values as one number: numbers are compared faster than texts. -/
def weight (key : Text × List (Text × Text)) : Nat :=
  (key.1.codes ++ key.2.flatMap (·.2.codes)).foldl (fun n c => 256 * n + c) 0

theorem nodup_shownAs : (Field.all.map shownAs).Nodup := by
  have hweights : ((Field.all.map shownAs).map weight).Nodup := by decide +kernel
  exact hweights.of_map

theorem shownAs_injective : Function.Injective shownAs := fun f g h =>
  List.inj_on_of_nodup_map nodup_shownAs f.mem_all g.mem_all h

theorem gauges_name : ∀ g ∈ gauges, ∀ c ∈ (metricName g.name).codes, 35 < c ∧ c ≠ 123 := by decide +kernel

theorem not_mem_ofList {cs : List Char} (h : (cs.all fun c => c.toNat != 10) = true) :
    10 ∉ (Text.ofString (String.ofList cs)).codes := by
  simpa [Text.ofString] using h

theorem gauges_help : ∀ g ∈ gauges, 10 ∉ g.help.codes := by
  simp only [gauges, List.forall_mem_cons, List.not_mem_nil, IsEmpty.forall_iff, implies_true, and_true]
  refine ⟨?_, ?_, ?_, ?_, ?_, ?_, ?_, ?_, ?_, ?_, ?_, ?_, ?_, ?_, ?_, ?_⟩
  all_goals exact not_mem_ofList (by decide)

theorem balance_plain :
    (∀ c ∈ (metricName "balance").codes, 35 < c ∧ c ≠ 123) ∧ 10 ∉ (balanceFamily []).help.codes ∧
      ∀ c ∈ (Text.ofString "Token").codes, c ≠ 10 ∧ c ≠ 34 := by decide

theorem balances_plain : ∀ b ∈ balances, ∀ c ∈ b.1.codes, c ≠ 10 ∧ c ≠ 34 := by decide

theorem collect_plain (m : Metrics) : ∀ f ∈ collect (some m), f.Plain := by
  have hone : ∀ {f : Family}, (∀ c ∈ f.name.codes, 35 < c ∧ c ≠ 123) → 10 ∉ f.name.codes :=
    fun h hmem => absurd (h 10 hmem).1 (by decide)
  refine List.forall_mem_append.mpr ⟨?_, ?_⟩
  · intro f hf
    obtain ⟨g, hg, rfl⟩ := List.mem_map.mp hf
    have hname := gauges_name g hg
    refine ⟨hone hname, gauges_help g hg, ?_⟩
    intro s hs
    cases List.mem_singleton.mp hs
    exact ⟨hname, List.cons_ne_nil _ _, fun l hl => absurd hl List.not_mem_nil⟩
  · intro f hf
    cases List.mem_singleton.mp hf
    obtain ⟨hname, hhelp, htoken⟩ := balance_plain
    refine ⟨hone hname, hhelp, ?_⟩
    intro s hs
    obtain ⟨b, hb, rfl⟩ := List.mem_map.mp hs
    refine ⟨hname, List.cons_ne_nil _ _, ?_⟩
    intro l hl
    cases List.mem_singleton.mp hl
    exact ⟨htoken, balances_plain b hb⟩

theorem collect_readings (m : Metrics) :
    ((collect (some m)).flatMap Family.samples).map (Sample.reading fmt) = shownOrder.map (shown fmt m) := rfl

theorem shownOrder_perm : shownOrder.Perm Field.all := by decide

/-- Whatever metrics are put on show, the page reads back to twenty samples: one for each
    field, under the name and the labels of that field alone and with the text of its own
    number. So two pages alike are of metrics whose fields have the same texts. -/
theorem page_reads_back (hfmt : fmt.Plain) (w : World) (m : Metrics) :
    Function.Injective shownAs ∧
      (∃ readings, read (Service.page fmt (Ask.reply (w.after (.display (some m))) .shown)).body = some readings ∧
        readings.length = 20 ∧ (readings.map Reading.key).Nodup ∧ readings.Perm (Field.all.map (shown fmt m)) ∧
        ∀ f : Field, ⟨(shownAs f).1, (shownAs f).2, fmt.number (f.value m)⟩ ∈ readings) ∧
      ∀ m' : Metrics,
        (Service.page fmt (some m')).body = (Service.page fmt (Ask.reply (w.after (.display (some m))) .shown)).body →
          ∀ f : Field, fmt.number (f.value m') = fmt.number (f.value m) := by
  have hread : ∀ m, read (Service.page fmt (some m)).body = some (shownOrder.map (shown fmt m)) := fun m =>
    (read_render hfmt (collect_plain m)).trans (congrArg some (collect_readings m))
  have hperm : (shownOrder.map (shown fmt m)).Perm (Field.all.map (shown fmt m)) := shownOrder_perm.map _
  refine ⟨shownAs_injective, ⟨_, hread m, rfl, ?_, hperm, ?_⟩, ?_⟩
  · rw [List.map_map]
    exact shownOrder_perm.nodup_iff.mpr Field.nodup_all |>.map shownAs_injective
  · intro f
    exact hperm.mem_iff.mpr (List.mem_map.mpr ⟨f, f.mem_all, rfl⟩)
  · intro m' hpage f
    have hsame : shownOrder.map (shown fmt m') = shownOrder.map (shown fmt m) :=
      Option.some.inj ((hread m').symm.trans ((congrArg read hpage).trans (hread m)))
    have hf : f ∈ shownOrder := shownOrder_perm.mem_iff.mpr f.mem_all
    exact congrArg Reading.number (List.map_inj_left.mp hsame f hf)

/-- A format that is right for 1, 2 and the infinity above. -/
def fewFormat : Format where
  contentType := "text/plain; version=1.0.0; charset=utf-8"
  number d := if d = 1 then "1.0" else if d = 2 then "2.0" else "+Inf"

/-- All is 1 but the rETH of the wallet, which is 2, and the return of RPL, which is infinite. -/
def endless : Metrics := { Service.stale with rethBalance := 2, rplApr := Double.inf false }

theorem fewFormat_plain : fewFormat.Plain := by
  intro d
  unfold fewFormat
  dsimp only
  split
  · decide
  · split <;> decide

/-- The label tells the balances apart, and the texts are those of the numbers. -/
theorem page_reads_back_endless :
    fewFormat.Plain ∧ ∃ readings, read (Service.page fewFormat (some endless)).body = some readings ∧
      readings.length = 20 ∧ ⟨"rocketpool_node_balance", [("Token", "rETH")], "2.0"⟩ ∈ readings ∧
      ⟨"rocketpool_node_balance", [("Token", "ETH")], "1.0"⟩ ∈ readings ∧
      ⟨"rocketpool_node_rpl_apr", [], "+Inf"⟩ ∈ readings := by
  obtain ⟨-, ⟨readings, hread, hlength, -, -, hall⟩, -⟩ := page_reads_back fewFormat_plain Service.staleWorld endless
  have hreth := hall .rethBalance
  have heth := hall .ethBalance
  have hapr := hall .rplApr
  exact ⟨fewFormat_plain, readings, hread, hlength, hreth, heth, hapr⟩

end NodeGauge.Exposition
