import Mathlib.Data.Finset.Card
import TorrentNode.Chain.BlockChain

/-!
# The walk of `calcBlockchain`

Each round numbers a header that had no number, so a walk that was given as many
rounds as there are headers ends at a header with a number, or with an exception.
-/

namespace TorrentNode

namespace BlockChain

theorem deref_of_find {blocks : OrdMap Blob BlockHeader} {k : Blob} {h : BlockHeader}
    (hk : blocks.find? k = some h) : deref blocks k = h := by
  unfold deref; rw [hk]; rfl

/-- The walk stops at a header that has its height. -/
theorem walk_numbered {fuel n : Nat} {w : Walk} {h : BlockHeader}
    (hw : w.blocks.find? w.bh = some h) (hn : h.blockNumber = some n) :
    walk fuel w = (.ok (), w) := by
  cases fuel with
  | zero => rfl
  | succ fuel => rw [walk, deref_of_find hw, hn]

/-- One round of the walk. -/
theorem walk_unnumbered {fuel : Nat} {w : Walk} {h : BlockHeader}
    (hw : w.blocks.find? w.bh = some h) (hn : h.blockNumber = none) :
    walk (fuel + 1) w =
      if h.prevHash.isEmpty then
        (.error (.exception "Empty block hash"),
          { blocks := w.blocks.insert w.bh (h.withNumber (some w.currNum)), bh := w.bh,
            currNum := w.currNum + 1, processedBlocks := w.bh :: w.processedBlocks })
      else match (w.blocks.insert w.bh (h.withNumber (some w.currNum))).find? h.prevHash with
        | none => (.ok (),
          { blocks := w.blocks.insert w.bh (h.withNumber (some w.currNum)), bh := w.bh,
            currNum := w.currNum + 1, processedBlocks := w.bh :: w.processedBlocks })
        | some _ => walk fuel
          { blocks := w.blocks.insert w.bh (h.withNumber (some w.currNum)), bh := h.prevHash,
            currNum := w.currNum + 1, processedBlocks := w.bh :: w.processedBlocks } := by
  have hmod : w.blocks.modify w.bh (fun h => h.withNumber (some w.currNum)) =
      w.blocks.insert w.bh (h.withNumber (some w.currNum)) := by
    unfold OrdMap.modify; rw [hw]
  rewrite [walk, deref_of_find hw, hn, hmod]
  rfl

/-- The header of the block itself, and an unknown parent, end the walk after one round. -/
theorem walk_top (fuel : Nat) {n : Nat} {blocks : OrdMap Blob BlockHeader} {b : BlockHeader}
    (hb : blocks.find? b.hash = some b) (hn : b.blockNumber = none) (hp : b.prevHash ≠ ∅)
    (hpar : b.prevHash ≠ b.hash → ∀ p, blocks.find? b.prevHash = some p →
      p.blockNumber = some n)
    (hself : b.prevHash = b.hash ∨ blocks.find? b.prevHash = none → n = 0) :
    ∃ bh, walk (fuel + 1) { blocks, bh := b.hash, currNum := 0, processedBlocks := [] } =
        (.ok (), { blocks := blocks.insert b.hash (b.withNumber (some 0)), bh, currNum := 1,
                   processedBlocks := [b.hash] }) ∧
      (deref (blocks.insert b.hash (b.withNumber (some 0))) bh).blockNumber = some n := by
  rw [walk_unnumbered hb hn, Blob.isEmpty_eq_false.mpr hp]
  by_cases hs : b.prevHash = b.hash
  · -- the block is its own parent: by then it has number 0
    obtain rfl := hself (Or.inl hs)
    rw [hs, OrdMap.find?_insert_self]
    refine ⟨b.hash, ?_, ?_⟩
    · exact walk_numbered OrdMap.find?_insert_self (BlockHeader.withNumber_blockNumber b (some 0))
    · rw [deref_of_find OrdMap.find?_insert_self]; rfl
  · rw [OrdMap.find?_insert_ne hs]
    cases hf : blocks.find? b.prevHash with
    | none =>
        -- the walk breaks off and stays at the block, which has number 0
        obtain rfl := hself (Or.inr hf)
        refine ⟨b.hash, rfl, ?_⟩
        rw [deref_of_find OrdMap.find?_insert_self]; rfl
    | some p =>
        have hfp : (blocks.insert b.hash (b.withNumber (some 0))).find? b.prevHash = some p := by
          rw [OrdMap.find?_insert_ne hs, hf]
        refine ⟨b.prevHash, ?_, ?_⟩
        · exact walk_numbered hfp (hpar hs p hf)
        · rw [deref_of_find hfp]; exact hpar hs p hf

/-- **The induction over a walk**: what numbering one more header keeps, a walk keeps. -/
theorem walk_keeps {P : OrdMap Blob BlockHeader → Prop}
    (hstep : ∀ {blocks : OrdMap Blob BlockHeader} {k : Blob} {h : BlockHeader} {n : Nat},
      P blocks → blocks.find? k = some h → h.blockNumber = none →
        P (blocks.insert k (h.withNumber (some n)))) :
    ∀ {fuel : Nat} {w : Walk}, P w.blocks → (∃ h, w.blocks.find? w.bh = some h) →
      P (walk fuel w).2.blocks
  | 0, _, hP, _ => hP
  | fuel + 1, w, hP, ⟨h, hw⟩ => by
      cases hn : h.blockNumber with
      | some n => rw [walk_numbered hw hn]; exact hP
      | none =>
          have hP' := hstep (n := w.currNum) hP hw hn
          rw [walk_unnumbered hw hn]
          split
          · exact hP'
          · cases hf : (w.blocks.insert w.bh (h.withNumber (some w.currNum))).find? h.prevHash with
            | none => exact hP'
            | some p => exact walk_keeps hstep hP' ⟨p, hf⟩

/-- The headers among `keys` that have no number. -/
def unnumbered (keys : Finset Blob) (blocks : OrdMap Blob BlockHeader) : Finset Blob :=
  keys.filter (fun k => (blocks.find? k).any (fun h => h.blockNumber.isNone))

theorem mem_unnumbered {keys : Finset Blob} {blocks : OrdMap Blob BlockHeader} {k : Blob} :
    k ∈ unnumbered keys blocks ↔
      k ∈ keys ∧ ∃ h, blocks.find? k = some h ∧ h.blockNumber = none := by
  unfold unnumbered
  rw [Finset.mem_filter, Option.any_eq_true]
  simp [Option.isNone_iff_eq_none]

theorem unnumbered_insert {keys : Finset Blob} {blocks : OrdMap Blob BlockHeader} {k : Blob}
    {h : BlockHeader} {n : Nat} (hk : k ∈ keys) (hf : blocks.find? k = some h)
    (hn : h.blockNumber = none) :
    (unnumbered keys (blocks.insert k (h.withNumber (some n)))).card <
      (unnumbered keys blocks).card := by
  refine Finset.card_lt_card (Finset.ssubset_iff_subset_ne.mpr ⟨?_, ?_⟩)
  · intro j hj
    obtain ⟨hjk, g, hg, hgn⟩ := mem_unnumbered.mp hj
    rw [OrdMap.find?_insert] at hg
    split at hg
    · obtain rfl := Option.some.inj hg
      exact absurd hgn (by simp)
    · exact mem_unnumbered.mpr ⟨hjk, g, hg, hgn⟩
  · intro heq
    have hmem : k ∈ unnumbered keys blocks := mem_unnumbered.mpr ⟨hk, h, hf, hn⟩
    rw [← heq] at hmem
    obtain ⟨_, g, hg, hgn⟩ := mem_unnumbered.mp hmem
    rw [OrdMap.find?_insert_self] at hg
    obtain rfl := Option.some.inj hg
    exact absurd hgn (by simp)

/-- **Enough rounds**: a walk that does not throw ends at a header with a number. -/
theorem walk_ends (keys : Finset Blob) :
    ∀ {fuel : Nat} {w w' : Walk}, (∀ k h, w.blocks.find? k = some h → k ∈ keys) →
      (unnumbered keys w.blocks).card < fuel → (∃ h, w.blocks.find? w.bh = some h) →
      walk fuel w = (.ok (), w') →
        ∃ n, (deref w'.blocks w'.bh).blockNumber = some n
  | 0, _, _, _, hfuel, _, _ => absurd hfuel (Nat.not_lt_zero _)
  | fuel + 1, w, w', hkeys, hfuel, ⟨h, hw⟩, hwalk => by
      cases hn : h.blockNumber with
      | some n =>
          rw [walk_numbered hw hn] at hwalk
          obtain rfl := (Prod.mk.inj hwalk).2
          exact ⟨n, by rw [deref_of_find hw, hn]⟩
      | none =>
          have hless := unnumbered_insert (n := w.currNum) (hkeys _ _ hw) hw hn
          have hkeys' : ∀ k g, (w.blocks.insert w.bh (h.withNumber (some w.currNum))).find? k =
              some g → k ∈ keys := by
            intro k g hg
            rw [OrdMap.find?_insert] at hg
            split at hg
            · rename_i hk; exact hk ▸ hkeys _ _ hw
            · exact hkeys _ _ hg
          rw [walk_unnumbered hw hn] at hwalk
          split at hwalk
          · exact absurd (Prod.mk.inj hwalk).1 (by simp)
          · cases hf : (w.blocks.insert w.bh (h.withNumber (some w.currNum))).find? h.prevHash with
            | none =>
                -- the parent is not known: the walk stands at the header it numbered last
                rw [hf] at hwalk
                obtain rfl := (Prod.mk.inj hwalk).2
                exact ⟨w.currNum, by rw [deref_of_find OrdMap.find?_insert_self]; rfl⟩
            | some p =>
                rw [hf] at hwalk
                exact walk_ends keys hkeys' (Nat.lt_of_lt_of_le hless (Nat.le_of_lt_succ hfuel)) ⟨p, hf⟩ hwalk

/-- The keys of a map. -/
def keysOf (blocks : OrdMap Blob BlockHeader) : Finset Blob :=
  (blocks.entries.map Prod.fst).toFinset

theorem mem_keysOf {blocks : OrdMap Blob BlockHeader} {k : Blob} {h : BlockHeader}
    (hf : blocks.find? k = some h) : k ∈ keysOf blocks := by
  unfold keysOf
  rw [List.mem_toFinset]
  exact List.mem_map.mpr ⟨(k, h), OrdMap.mem_entries.mpr hf, rfl⟩

/-- `calcBlockchain` gives the walk enough rounds. -/
theorem unnumbered_lt (blocks : OrdMap Blob BlockHeader) :
    (unnumbered (keysOf blocks) blocks).card < blocks.entries.length + 1 := by
  have hsub : (unnumbered (keysOf blocks) blocks).card ≤ (keysOf blocks).card :=
    Finset.card_le_card (Finset.filter_subset _ _)
  have hlen : (keysOf blocks).card ≤ (blocks.entries.map Prod.fst).length :=
    List.toFinset_card_le _
  rw [List.length_map] at hlen
  omega

end BlockChain

end TorrentNode
