import TorrentNode.Chain.Rejection

/-!
# The marker of the last state block

`calcBlockchain` raises `lastStateBlock` for each header it numbers, before it compares
the number with the size of the chain. A walk numbers the headers that had no number yet
from the lowest upwards, so the lowest decides: if it does not stand on top of the chain,
the header is rejected, and the marker stays raised all the same.
-/

namespace TorrentNode

namespace BlockChain

/-- `getLastStateBlock`. A marker outside of the chain is undefined behaviour in the source. -/
def getLastStateBlock (c : BlockChain) : Except Err BlockHeader := do
  check (c.lastStateBlock != 0) "Not found state block"
  match c.hashes[c.lastStateBlock]? with
  | none => .error (.std "out_of_range")
  | some ref => pure (deref c.blocks ref)

/--
The lowest header of the walk from `k`, which has come over `behind` (last first), and the
height it is given: one more than that of its parent. A parent that is not stored counts
as high as the walk is long, and one that the walk came over as its place on the walk.
`none` if the walk throws.
-/
def lowest (blocks : OrdMap Blob BlockHeader) : Nat → List Blob → Blob → Option (Nat × Blob)
  | 0, _, _ => none
  | fuel + 1, behind, k =>
    let prevHash := (deref blocks k).prevHash
    if prevHash = ∅ then none
    else if prevHash ∈ k :: behind then some ((k :: behind).reverse.idxOf prevHash + 1, k)
    else match blocks.find? prevHash with
      | none => some (behind.length + 1, k)
      | some p => match p.blockNumber with
        | some n => some (n + 1, k)
        | none => lowest blocks fuel (k :: behind) prevHash

/-! ## The walk and its lowest header -/

/-- The walk has come over `w.processedBlocks`: they have their places for numbers. -/
structure Walked (blocks : OrdMap Blob BlockHeader) (w : Walk) : Prop where
  count : w.currNum = w.processedBlocks.length
  nodup : w.processedBlocks.Nodup
  stored : ∀ k ∈ w.processedBlocks, ∃ h, blocks.find? k = some h
  find : ∀ k, w.blocks.find? k =
    if k ∈ w.processedBlocks then
      (blocks.find? k).map (fun h => h.withNumber (some (w.processedBlocks.reverse.idxOf k)))
    else blocks.find? k

theorem idxOf_reverse_cons {k j : Blob} {l : List Blob} :
    (k :: l).reverse.idxOf j = if j ∈ l then l.reverse.idxOf j else l.length + [k].idxOf j := by
  rw [List.reverse_cons, List.idxOf_append, List.length_reverse]
  simp only [List.mem_reverse, Nat.add_comm]

/-- One round further. -/
theorem Walked.round {blocks : OrdMap Blob BlockHeader} {w : Walk} {h : BlockHeader} {bh : Blob}
    (hw : Walked blocks w) (hk : w.blocks.find? w.bh = some h)
    (hnew : w.bh ∉ w.processedBlocks) :
    Walked blocks
      { blocks := w.blocks.insert w.bh (h.withNumber (some w.currNum)), bh
        currNum := w.currNum + 1, processedBlocks := w.bh :: w.processedBlocks } := by
  have hstored : blocks.find? w.bh = some h := by
    have hfind := hw.find w.bh
    rw [if_neg hnew] at hfind
    exact hfind.symm.trans hk
  refine ⟨?_, ?_, ?_, ?_⟩
  · rw [List.length_cons, hw.count]
  · exact List.nodup_cons.mpr ⟨hnew, hw.nodup⟩
  · intro k hmem
    rcases List.mem_cons.mp hmem with rfl | hmem
    · exact ⟨h, hstored⟩
    · exact hw.stored k hmem
  · intro k
    rw [idxOf_reverse_cons]
    by_cases hkb : k = w.bh
    · subst hkb
      rw [OrdMap.find?_insert_self, if_pos (List.mem_cons_self), if_neg hnew, hstored, hw.count]
      simp
    · rw [OrdMap.find?_insert_ne hkb, hw.find k]
      by_cases hmem : k ∈ w.processedBlocks
      · rw [if_pos hmem, if_pos (List.mem_cons_of_mem _ hmem), if_pos hmem]
      · rw [if_neg hmem, if_neg (by simp [hkb, hmem])]

/-- A header without a number was not come over yet. -/
theorem Walked.unvisited {blocks : OrdMap Blob BlockHeader} {w : Walk} {k : Blob} {h : BlockHeader}
    (hw : Walked blocks w) (hk : w.blocks.find? k = some h) (hn : h.blockNumber = none) :
    k ∉ w.processedBlocks ∧ blocks.find? k = some h := by
  have hfind := hw.find k
  by_cases hmem : k ∈ w.processedBlocks
  · obtain ⟨g, hg⟩ := hw.stored k hmem
    rw [if_pos hmem, hk, hg] at hfind
    rw [Option.some.inj hfind] at hn
    cases hn
  · rw [if_neg hmem] at hfind
    exact ⟨hmem, hfind.symm.trans hk⟩

/-- **A walk ends above its lowest header**, or throws. -/
theorem walk_lowest (blocks : OrdMap Blob BlockHeader) (keys : Finset Blob) :
    ∀ (fuel : Nat) {w : Walk} {h : BlockHeader},
      (∀ k g, w.blocks.find? k = some g → k ∈ keys) →
      (unnumbered keys w.blocks).card ≤ fuel → Walked blocks w →
      w.blocks.find? w.bh = some h → h.blockNumber = none →
        match lowest blocks fuel w.processedBlocks w.bh with
        | none => ∃ e w', walk (fuel + 1) w = (.error e, w')
        | some (m, low) => ∃ w' refs n, walk (fuel + 1) w = (.ok (), w') ∧ Walked blocks w' ∧
            w'.processedBlocks = low :: refs ∧ m + w'.processedBlocks.length = w'.currNum + n + 1 ∧
            (deref w'.blocks w'.bh).blockNumber = some n := by
  intro fuel
  -- By induction on the fuel: each round numbers one header that had no number.
  induction fuel with
  | zero =>
      intro w h hkeys hfuel hw hk hn
      have hmem := mem_unnumbered.mpr ⟨hkeys _ _ hk, h, hk, hn⟩
      have hpos := Finset.card_pos.mpr ⟨_, hmem⟩
      omega
  | succ fuel ih =>
      intro w h hkeys hfuel hw hk hn
      obtain ⟨hnew, hstored⟩ := hw.unvisited hk hn
      have hless := unnumbered_insert (n := w.currNum) (hkeys _ _ hk) hk hn
      rw [lowest, deref_of_find hstored, walk_unnumbered hk hn]
      by_cases hp : h.prevHash = ∅
      · simp only [hp, if_pos, Blob.isEmpty_empty]
        exact ⟨_, _, rfl⟩
      · simp only [Blob.isEmpty_eq_false.mpr hp, if_neg hp, Bool.false_eq_true, if_false]
        have hround := @Walked.round _ _ _ h.prevHash hw hk hnew
        have hfind := hround.find h.prevHash
        by_cases hloop : h.prevHash ∈ w.bh :: w.processedBlocks
        · -- the walk comes back to itself
          obtain ⟨g, hg⟩ := hround.stored _ hloop
          rw [if_pos hloop, hg] at hfind
          simp only [if_pos hloop]
          rw [hfind]
          refine ⟨_, _, (w.bh :: w.processedBlocks).reverse.idxOf h.prevHash,
            walk_numbered hfind rfl, hround, rfl, ?_, ?_⟩
          · simp only [List.length_cons, hw.count]
            omega
          · rw [deref_of_find hfind]
            rfl
        · rw [if_neg hloop] at hfind
          simp only [if_neg hloop]
          cases hpar : blocks.find? h.prevHash with
          | none =>
              rw [hpar] at hfind
              rw [hfind]
              refine ⟨_, _, w.currNum, rfl, hw.round hk hnew, rfl, ?_, ?_⟩
              · simp only [List.length_cons, hw.count]
                omega
              · rw [deref_of_find OrdMap.find?_insert_self]
                rfl
          -- The parent ends the walk if it has a number, else the walk goes on there.
          | some p =>
              rw [hpar] at hfind
              rw [hfind]
              cases hpn : p.blockNumber with
              | some n =>
                  simp only [hpn]
                  refine ⟨_, _, n, walk_numbered hfind hpn, hround, rfl, ?_, ?_⟩
                  · simp only [List.length_cons, hw.count]
                    omega
                  · rw [deref_of_find hfind]
                    exact hpn
              | none =>
                  have hkeys' : ∀ k g, (w.blocks.insert w.bh
                      (h.withNumber (some w.currNum))).find? k = some g → k ∈ keys := by
                    intro k g hg
                    rw [OrdMap.find?_insert] at hg
                    split at hg
                    · rename_i hkb
                      exact hkb ▸ hkeys _ _ hk
                    · exact hkeys _ _ hg
                  simp only [hpn]
                  exact ih hkeys' (Nat.le_of_lt_succ (Nat.lt_of_lt_of_le hless hfuel)) hround hfind
                    hpn

/-! ## The marker and the chain -/

/-- Whether what is stored under `k` is a state block. -/
def stateAt (blocks : OrdMap Blob BlockHeader) (k : Blob) : Option Bool :=
  (blocks.find? k).map BlockHeader.isStateBlock

/-- The marker points at the last state block of the chain, and at genesis if there is none. -/
structure Marked (c : BlockChain) : Prop where
  genesis : ∃ h, c.hashes[0]? = some h ∧ stateAt c.blocks h = some false
  stored : ∀ h ∈ c.hashes, ∃ p, c.blocks.find? h = some p
  below : ∀ (i : Nat) (h : Blob), c.hashes[i]? = some h → stateAt c.blocks h = some true →
    i ≤ c.lastStateBlock
  marked : c.lastStateBlock ≠ 0 →
    ∃ h, c.hashes[c.lastStateBlock]? = some h ∧ stateAt c.blocks h = some true

theorem stateAt_of_find {blocks : OrdMap Blob BlockHeader} {k : Blob} {h : BlockHeader}
    (hk : blocks.find? k = some h) : stateAt blocks k = some h.isStateBlock := by
  rw [stateAt, hk]
  rfl

theorem stateAt_insert_withNumber {blocks : OrdMap Blob BlockHeader} {k j : Blob} {h : BlockHeader}
    {n : Option Nat} (hk : blocks.find? k = some h) :
    stateAt (blocks.insert k (h.withNumber n)) j = stateAt blocks j := by
  by_cases hj : j = k
  · subst hj
    rw [stateAt_of_find OrdMap.find?_insert_self, stateAt_of_find hk]
    rfl
  · rw [stateAt, stateAt, OrdMap.find?_insert_ne hj]

theorem stateAt_modify {blocks : OrdMap Blob BlockHeader} {k j : Blob} {n : Option Nat} :
    stateAt (blocks.modify k (fun h => h.withNumber n)) j = stateAt blocks j := by
  unfold OrdMap.modify
  cases hk : blocks.find? k with
  | none => rfl
  | some h => exact stateAt_insert_withNumber hk

/-- A walk changes numbers only. -/
theorem walk_stateAt {fuel : Nat} {w : Walk} (hw : ∃ h, w.blocks.find? w.bh = some h) (k : Blob) :
    stateAt (walk fuel w).2.blocks k = stateAt w.blocks k := by
  refine walk_keeps (P := fun blocks => stateAt blocks k = stateAt w.blocks k) ?_ rfl hw
  intro blocks j h n hP hj _
  rw [stateAt_insert_withNumber hj, hP]

variable {c : BlockChain}

/-- The marker looks at nothing but the types of the blocks on the chain. -/
theorem Marked.of_stateAt {blocks : OrdMap Blob BlockHeader} (hc : Marked c)
    (h : ∀ k ∈ c.hashes, stateAt blocks k = stateAt c.blocks k) :
    Marked { c with blocks := blocks } := by
  have hmem : ∀ {i : Nat} {k : Blob}, c.hashes[i]? = some k →
      stateAt blocks k = stateAt c.blocks k := fun hi => h _ (List.mem_of_getElem? hi)
  refine ⟨?_, ?_, ?_, ?_⟩
  · obtain ⟨k, hk, hstate⟩ := hc.genesis
    exact ⟨k, hk, (hmem hk).trans hstate⟩
  · intro k hk
    obtain ⟨p, hp⟩ := hc.stored k hk
    have hstate := h k hk
    rw [stateAt_of_find hp, stateAt] at hstate
    obtain ⟨g, hg, -⟩ := Option.map_eq_some_iff.mp hstate
    exact ⟨g, hg⟩
  · intro i k hi hstate
    exact hc.below i k hi ((hmem hi).symm.trans hstate)
  · intro hne
    obtain ⟨k, hk, hstate⟩ := hc.marked hne
    exact ⟨k, hk, (hmem hk).trans hstate⟩

theorem Marked.length_pos (hc : Marked c) : 0 < c.hashes.length := by
  obtain ⟨h, hh, -⟩ := hc.genesis
  exact (List.getElem?_eq_some_iff.mp hh).1

theorem Marked.lt_length (hc : Marked c) : c.lastStateBlock < c.hashes.length := by
  by_cases hzero : c.lastStateBlock = 0
  · rw [hzero]
    exact hc.length_pos
  · obtain ⟨h, hh, -⟩ := hc.marked hzero
    exact (List.getElem?_eq_some_iff.mp hh).1

/-- **One more block on top**, with the marker raised to it if it is a state block. -/
theorem Marked.push {ref : Blob} {state : Bool} (hc : Marked c)
    (hstate : stateAt c.blocks ref = some state) :
    Marked { c with
      hashes := c.hashes ++ [ref]
      lastStateBlock :=
        if state then max c.hashes.length c.lastStateBlock else c.lastStateBlock } := by
  have hlt := hc.lt_length
  refine ⟨?_, ?_, ?_, ?_⟩
  · obtain ⟨h, hh, hg⟩ := hc.genesis
    exact ⟨h, (List.getElem?_append_left hc.length_pos).trans hh, hg⟩
  · intro h hh
    rcases List.mem_append.mp hh with hh | hh
    · exact hc.stored h hh
    · obtain rfl := List.mem_singleton.mp hh
      obtain ⟨p, hp, -⟩ := Option.map_eq_some_iff.mp hstate
      exact ⟨p, hp⟩
  -- No state block stands above the one that is remembered.
  · intro i h hi hh
    change i ≤ if state then _ else _
    by_cases hlast : i < c.hashes.length
    · have hi' : c.hashes[i]? = some h := (List.getElem?_append_left hlast).symm.trans hi
      have hle := hc.below i h hi' hh
      split <;> omega
    · have hlen := (List.getElem?_eq_some_iff.mp hi).1
      rw [List.length_append, List.length_singleton] at hlen
      obtain rfl : i = c.hashes.length := by omega
      rw [List.getElem?_concat_length] at hi
      obtain rfl := Option.some.inj hi
      rw [Option.some.inj (hstate.symm.trans hh), if_pos rfl]
      omega
  -- What is remembered is the new block, or what was remembered before.
  · intro hne
    cases state with
    | true =>
        have hmax : max c.hashes.length c.lastStateBlock = c.hashes.length := by omega
        refine ⟨ref, ?_, hstate⟩
        change (c.hashes ++ [ref])[max c.hashes.length c.lastStateBlock]? = some ref
        rw [hmax, List.getElem?_concat_length]
    | false =>
        obtain ⟨h, hh, hs⟩ := hc.marked hne
        exact ⟨h, (List.getElem?_append_left hlt).trans hh, hs⟩

/-! ## Numbering upwards -/

/-- One round of the second loop, for a header with the number that the walk gave it. -/
theorem renumber_cons {allNum place : Nat} {ref : Blob} {refs : List Blob} {h : BlockHeader}
    (hk : c.blocks.find? ref = some h) (hn : h.blockNumber = some place) :
    renumber allNum (ref :: refs) c =
      if allNum - place = c.hashes.length then
        renumber allNum refs
          { blocks := c.blocks.modify ref (fun h => h.withNumber (some (allNum - place)))
            hashes := c.hashes ++ [ref]
            lastStateBlock :=
              if h.isStateBlock then max (allNum - place) c.lastStateBlock else c.lastStateBlock }
      else
        (none,
          { c with
            blocks := c.blocks.modify ref (fun h => h.withNumber (some (allNum - place)))
            lastStateBlock :=
              if h.isStateBlock then max (allNum - place) c.lastStateBlock
              else c.lastStateBlock }) := by
  rw [renumber]
  simp only [deref_of_find hk, hn, Option.getD_some, ne_eq, ite_not]

/-- **If all numbers fit** the chain grows, and the marker with it. -/
theorem renumber_marked {allNum : Nat} (refs : List Blob) :
    ∀ {c : BlockChain}, refs.Nodup →
      (∀ ref ∈ refs, ∃ h, c.blocks.find? ref = some h ∧
        h.blockNumber = some (refs.reverse.idxOf ref)) →
      allNum + 1 = c.hashes.length + refs.length →
        ∃ c', renumber allNum refs c = (some allNum, c') ∧ (Marked c → Marked c') := by
  induction refs with
  | nil => exact fun _ _ _ => ⟨_, rfl, id⟩
  | cons ref refs ih =>
      intro c hnodup hplaces hall
      obtain ⟨hnew, hnodup⟩ := List.nodup_cons.mp hnodup
      obtain ⟨h, hk, hn⟩ := hplaces ref (List.mem_cons_self)
      rw [idxOf_reverse_cons, if_neg hnew, List.idxOf_cons_self, Nat.add_zero] at hn
      rw [List.length_cons] at hall
      have hfit : allNum - refs.length = c.hashes.length := by omega
      rw [renumber_cons hk hn, if_pos hfit]
      have hplaces' : ∀ j ∈ refs, ∃ g,
          (c.blocks.modify ref (fun h => h.withNumber (some (allNum - refs.length)))).find? j =
            some g ∧ g.blockNumber = some (refs.reverse.idxOf j) := by
        intro j hj
        have hne : j ≠ ref := fun heq => hnew (heq ▸ hj)
        obtain ⟨g, hg, hgn⟩ := hplaces j (List.mem_cons_of_mem _ hj)
        rw [idxOf_reverse_cons, if_pos hj] at hgn
        exact ⟨g, by rw [OrdMap.find?_modify, if_neg hne, hg], hgn⟩
      have hall' : allNum + 1 = (c.hashes ++ [ref]).length + refs.length := by
        rw [List.length_append, List.length_singleton]
        omega
      obtain ⟨c', hc', hmarked⟩ := ih (c := BlockChain.mk _ (c.hashes ++ [ref]) _) hnodup hplaces'
        hall'
      refine ⟨c', hc', fun hc => hmarked ?_⟩
      rw [hfit]
      exact (hc.push (stateAt_of_find hk)).of_stateAt (fun k _ => stateAt_modify)

/-! ## `calcBlockchain` as a whole -/

/-- The lowest header of the walk that `calcBlockchain` makes from `k`. -/
def lowestFrom (c : BlockChain) (k : Blob) : Option (Nat × Blob) :=
  lowest c.blocks c.blocks.entries.length [] k

/-- **The lowest header decides** what `calcBlockchain` does with a header without a number. -/
theorem calcBlockchain_lowest {k : Blob} {h : BlockHeader} (hne : k ≠ ∅)
    (hk : c.blocks.find? k = some h) (hn : h.blockNumber = none) :
    match c.lowestFrom k with
    | none => ∃ e blocks, c.calcBlockchain k = (.error e, { c with blocks := blocks }) ∧
        ∀ j, stateAt blocks j = stateAt c.blocks j
    | some (m, low) =>
      if m = c.hashes.length then
        ∃ n c', c.calcBlockchain k = (.ok (some n), c') ∧ (Marked c → Marked c')
      else ∃ blocks, (∀ j, stateAt blocks j = stateAt c.blocks j) ∧
        c.calcBlockchain k = (.ok none,
          { c with
            blocks := blocks
            lastStateBlock :=
              if stateAt c.blocks low = some true then max m c.lastStateBlock
              else c.lastStateBlock }) := by
  have hwalked : Walked c.blocks
      { blocks := c.blocks, bh := k, currNum := 0, processedBlocks := [] } :=
    ⟨rfl, List.nodup_nil, by simp, by simp⟩
  -- The walk down ends at the lowest header without a number, or fails.
  have hwalk := walk_lowest c.blocks (keysOf c.blocks) c.blocks.entries.length
    (fun k g hg => mem_keysOf hg) (Nat.le_of_lt_succ (unnumbered_lt c.blocks)) hwalked hk hn
  have htypes := fun j => @walk_stateAt (c.blocks.entries.length + 1)
    { blocks := c.blocks, bh := k, currNum := 0, processedBlocks := [] } ⟨h, hk⟩ j
  rw [lowestFrom, calcBlockchain_stored hne hk]
  cases hlow : lowest c.blocks c.blocks.entries.length [] k with
  | none =>
      rw [hlow] at hwalk
      obtain ⟨e, w, hwalk⟩ := hwalk
      rw [hwalk] at htypes ⊢
      exact ⟨e, w.blocks, rfl, htypes⟩
  | some low =>
      obtain ⟨m, low⟩ := low
      rw [hlow] at hwalk
      obtain ⟨w, refs, n, hwalk, hw, hrefs, hnumber, hend⟩ := hwalk
      rw [hwalk] at htypes ⊢
      have hplaces : ∀ ref ∈ w.processedBlocks, ∃ g, w.blocks.find? ref = some g ∧
          g.blockNumber = some (w.processedBlocks.reverse.idxOf ref) := by
        intro ref href
        obtain ⟨g, hg⟩ := hw.stored ref href
        exact ⟨_, by rw [hw.find, if_pos href, hg]; rfl, rfl⟩
      simp only [settle, hend]
      -- Numbered from there, the headers continue the chain, or the first one stops the loop.
      by_cases hfit : m = c.hashes.length
      · rw [if_pos hfit]
        have hlen : w.currNum + n + 1 = ({ c with blocks := w.blocks } : BlockChain).hashes.length +
            w.processedBlocks.length := by
          change _ = c.hashes.length + _
          omega
        obtain ⟨c', hc', hmarked⟩ := renumber_marked w.processedBlocks hw.nodup hplaces hlen
        rw [hc']
        exact ⟨_, c', rfl, fun hc => hmarked (hc.of_stateAt (fun j _ => htypes j))⟩
      · rw [if_neg hfit]
        obtain ⟨g, hg, hgn⟩ := hplaces low (by rw [hrefs]; exact List.mem_cons_self)
        have hnew : low ∉ refs := (List.nodup_cons.mp (hrefs ▸ hw.nodup)).1
        rw [hrefs, idxOf_reverse_cons, if_neg hnew, List.idxOf_cons_self, Nat.add_zero] at hgn
        rw [hrefs, List.length_cons] at hnumber
        have hm : w.currNum + n - refs.length = m := by omega
        rw [hrefs, renumber_cons hg hgn, hm, if_neg hfit]
        refine ⟨w.blocks.modify low (fun h => h.withNumber (some m)), ?_, ?_⟩
        · intro j
          rw [stateAt_modify]
          exact htypes j
        · rw [← htypes low, stateAt_of_find hg]
          cases g.isStateBlock <;> rfl

/-! ## Which blocks are taken -/

/-- The lowest header of the walk from a block that is put in. -/
def lowestOf (c : BlockChain) (b : BlockHeader) : Option (Nat × Blob) :=
  ({ c with blocks := c.blocks.insert b.hash b } : BlockChain).lowestFrom b.hash

/-- New blocks that come with a number, or whose walk has its lowest header on top of the chain. -/
def Fits (c : BlockChain) (b : BlockHeader) : Prop :=
  b.hash ≠ ∅ ∧ c.blocks.find? b.hash = none ∧
    (b.blockNumber ≠ none ∨ ∃ low, c.lowestOf b = some (c.hashes.length, low))

/-- A new header in the map is not on the chain. -/
theorem Marked.insert {b : BlockHeader} (hc : Marked c) (hnew : c.blocks.find? b.hash = none) :
    Marked { c with blocks := c.blocks.insert b.hash b } := by
  refine hc.of_stateAt ?_
  intro k hk
  obtain ⟨p, hp⟩ := hc.stored k hk
  have hne : k ≠ b.hash := by
    intro he
    rw [he, hnew] at hp
    cases hp
  rw [stateAt, stateAt, OrdMap.find?_insert_ne hne]

theorem addBlock_preset_state {b : BlockHeader} {n : Nat} (hne : b.hash ≠ ∅)
    (hnew : c.blocks.find? b.hash = none) (hn : b.blockNumber = some n) :
    (c.addBlock b).2 = { c with blocks := c.blocks.insert b.hash b } := by
  have hstored : (c.blocks.insert b.hash b).find? b.hash = some b := OrdMap.find?_insert_self
  have hnum : (deref (c.blocks.insert b.hash b) b.hash).blockNumber = some n := by
    rw [deref_of_find hstored, hn]
  rw [addBlock_new hne hnew, calcBlockchain_stored hne hstored, walk_numbered hstored hn]
  simp only [settle, hnum, renumber, Nat.zero_add]

/-- **Exactly the blocks that fit** are taken. -/
theorem addBlock_taken_iff {b : BlockHeader} :
    (∃ n, (c.addBlock b).1 = .ok (some n)) ↔ c.Fits b := by
  -- The checks of `addBlock` in their order, and then the walk.
  by_cases hne : b.hash = ∅
  · rw [addBlock_empty hne]
    refine iff_of_false ?_ (fun h => h.1 hne)
    rintro ⟨n, hn⟩
    cases hn
  cases hnew : c.blocks.find? b.hash with
  | some p =>
      rw [addBlock_known hne hnew]
      refine iff_of_false ?_ (fun h => ?_)
      · rintro ⟨n, hn⟩
        cases hn
      · rw [h.2.1] at hnew
        cases hnew
  | none =>
      cases hn : b.blockNumber with
      | some n =>
          refine iff_of_true ⟨n, addBlock_preset hne hnew hn⟩ ⟨hne, hnew, Or.inl ?_⟩
          rw [hn]
          exact Option.some_ne_none n
      | none =>
          have hcalc := calcBlockchain_lowest
            (c := { c with blocks := c.blocks.insert b.hash b }) hne OrdMap.find?_insert_self hn
          have hfits : c.Fits b ↔ ∃ low, c.lowestOf b = some (c.hashes.length, low) := by
            simp [Fits, hne, hnew, hn]
          rw [hfits, addBlock_new hne hnew, lowestOf]
          cases hlow : ({ c with blocks := c.blocks.insert b.hash b } : BlockChain).lowestFrom
              b.hash with
          | none =>
              rw [hlow] at hcalc
              obtain ⟨e, blocks, hcalc, -⟩ := hcalc
              rw [hcalc]
              simp
          | some low =>
              obtain ⟨m, low⟩ := low
              rw [hlow] at hcalc
              by_cases hm : m = c.hashes.length
              · simp only [if_pos hm] at hcalc
                obtain ⟨n, c', hcalc, -⟩ := hcalc
                rw [hcalc, hm]
                exact iff_of_true ⟨n, rfl⟩ ⟨low, rfl⟩
              · simp only [if_neg hm] at hcalc
                obtain ⟨blocks, -, hcalc⟩ := hcalc
                rw [hcalc]
                refine iff_of_false ?_ ?_
                · rintro ⟨n, hn⟩
                  cases hn
                · rintro ⟨low', hlow'⟩
                  exact hm (Prod.mk.inj (Option.some.inj hlow')).1

/-- A block that is taken moves the marker with it. -/
theorem Marked.addBlock {b : BlockHeader} (hc : Marked c) (hfits : c.Fits b) :
    Marked (c.addBlock b).2 := by
  obtain ⟨hne, hnew, hor⟩ := hfits
  cases hn : b.blockNumber with
  | some n =>
      rw [addBlock_preset_state hne hnew hn]
      exact hc.insert hnew
  | none =>
      have hcalc := calcBlockchain_lowest
        (c := { c with blocks := c.blocks.insert b.hash b }) hne OrdMap.find?_insert_self hn
      rcases hor with hpreset | ⟨low, hlow⟩
      · exact absurd hn hpreset
      · rw [lowestOf] at hlow
        rw [hlow] at hcalc
        simp only [if_pos] at hcalc
        obtain ⟨n, c', hcalc, hmarked⟩ := hcalc
        rw [addBlock_new hne hnew, hcalc]
        exact hmarked (hc.insert hnew)

/-! ## Atomicity -/

/-- What `addBlock` promises for a block that it does not take. -/
def Atomic (c : BlockChain) (b : BlockHeader) : Prop :=
  (∀ n, (c.addBlock b).1 ≠ .ok (some n)) → (c.addBlock b).2 = c

theorem atomic_iff {b : BlockHeader} : c.Atomic b ↔ c.Fits b ∨ c.Silent b := by
  by_cases hfits : c.Fits b
  · obtain ⟨n, hn⟩ := addBlock_taken_iff.mpr hfits
    exact iff_of_true (fun hrej => absurd hn (hrej n)) (Or.inl hfits)
  · have hrej : ∀ n, (c.addBlock b).1 ≠ .ok (some n) :=
      fun n hn => hfits (addBlock_taken_iff.mp ⟨n, hn⟩)
    have hsilent := addBlock_rejected hrej
    constructor
    · intro h
      exact Or.inr (hsilent.mp (h hrej))
    · intro hor _
      exact hsilent.mpr (hor.resolve_left hfits)

/-! ## Runs of the chain -/

/-- The calls that change a chain. -/
inductive Call where
  | addBlock (b : BlockHeader)
  | addWithoutCalc (b : BlockHeader)
  | calcBlockchain (k : Blob)
  | clear

/-- The chain behind a call, also one that throws. -/
def Call.run (c : BlockChain) : Call → BlockChain
  | addBlock b => (c.addBlock b).2
  | addWithoutCalc b => (c.addWithoutCalc b).2
  | calcBlockchain k => (c.calcBlockchain k).2
  | clear => c.clear

/-- The calls that leave the marker right. -/
def Call.Keeps (c : BlockChain) : Call → Prop
  | addBlock b => c.Fits b ∨ c.Silent b
  | addWithoutCalc _ => True
  | calcBlockchain k =>
    ∀ h m low, c.blocks.find? k = some h → h.blockNumber = none → c.lowestFrom k = some (m, low) →
      m ≠ c.hashes.length → stateAt c.blocks low = some true → m ≤ c.lastStateBlock
  | clear => c.lastStateBlock = 0

/-- The chains that calls which leave the marker right build. -/
inductive Kept : BlockChain → Prop where
  | new : Kept .new
  | call {c : BlockChain} (call : Call) : Kept c → call.Keeps c → Kept (call.run c)

theorem marked_init {n : Nat} (hn : n = 0) :
    Marked (init { blocks := ∅, hashes := [], lastStateBlock := n }) := by
  subst hn
  refine ⟨⟨_, rfl, rfl⟩, ?_, ?_, fun h => absurd rfl h⟩
  · intro h hh
    obtain rfl := List.mem_singleton.mp hh
    exact ⟨_, OrdMap.find?_insert_self⟩
  · intro i h hi hstate
    have hlen := (List.getElem?_eq_some_iff.mp hi).1
    exact Nat.le_of_lt_succ hlen

theorem Marked.calcBlockchain {k : Blob} (hc : Marked c) (hk : (Call.calcBlockchain k).Keeps c) :
    Marked (c.calcBlockchain k).2 := by
  -- Only the walk from a stored header without a number can touch the chain.
  by_cases hne : k = ∅
  · unfold BlockChain.calcBlockchain
    rw [hne]
    exact hc
  cases hstored : c.blocks.find? k with
  | none =>
      unfold BlockChain.calcBlockchain
      rw [Blob.isEmpty_eq_false.mpr hne, hstored]
      exact hc
  | some h =>
      cases hn : h.blockNumber with
      | some n =>
          rw [calcBlockchain_stored hne hstored, walk_numbered hstored hn]
          simp only [settle, deref_of_find hstored, hn, renumber]
          exact hc
      | none =>
          have hcalc := calcBlockchain_lowest hne hstored hn
          cases hlow : c.lowestFrom k with
          | none =>
              rw [hlow] at hcalc
              obtain ⟨e, blocks, hcalc, htypes⟩ := hcalc
              rw [hcalc]
              exact hc.of_stateAt (fun j _ => htypes j)
          | some low =>
              obtain ⟨m, low⟩ := low
              rw [hlow] at hcalc
              -- A block that does not fit may have raised the mark: `hk` forbids it.
              by_cases hm : m = c.hashes.length
              · simp only [if_pos hm] at hcalc
                obtain ⟨n, c', hcalc, hmarked⟩ := hcalc
                rw [hcalc]
                exact hmarked hc
              · simp only [if_neg hm] at hcalc
                obtain ⟨blocks, htypes, hcalc⟩ := hcalc
                have hsame : (if stateAt c.blocks low = some true then max m c.lastStateBlock
                    else c.lastStateBlock) = c.lastStateBlock := by
                  split
                  · exact Nat.max_eq_right (hk h m low hstored hn hlow hm (by assumption))
                  · rfl
                rw [hcalc, hsame]
                exact hc.of_stateAt (fun j _ => htypes j)

/-- **One call** under the condition leaves the marker right. -/
theorem Marked.call {call : Call} (hc : Marked c) (hkeeps : call.Keeps c) : Marked (call.run c) := by
  cases call with
  | addBlock b =>
      by_cases hfits : c.Fits b
      · exact hc.addBlock hfits
      · have hrej : ∀ n, (c.addBlock b).1 ≠ .ok (some n) :=
          fun n hn => hfits (addBlock_taken_iff.mp ⟨n, hn⟩)
        have hsame := atomic_iff.mpr hkeeps hrej
        rw [Call.run, hsame]
        exact hc
  | addWithoutCalc b =>
      rw [Call.run]
      unfold BlockChain.addWithoutCalc
      by_cases hne : b.hash.isEmpty
      · rw [if_pos hne]
        exact hc
      · rw [if_neg hne]
        cases hnew : c.blocks.find? b.hash with
        | some p => exact hc
        | none => exact hc.insert hnew
  | calcBlockchain k => exact hc.calcBlockchain hkeeps
  | clear => exact marked_init hkeeps

/-- **Every chain** that such calls build has the marker right. -/
theorem Kept.marked (h : Kept c) : Marked c := by
  induction h with
  | new => exact marked_init rfl
  | call call _ hkeeps ih => exact ih.call hkeeps

/-- `getLastStateBlock` gives the highest state block of the chain, if there is one. -/
def LastStateRight (c : BlockChain) : Prop :=
  ∀ (i : Nat) (h : Blob), c.hashes[i]? = some h → (deref c.blocks h).isStateBlock = true →
    (∀ (j : Nat) (h' : Blob), i < j → c.hashes[j]? = some h' →
      (deref c.blocks h').isStateBlock = false) →
    c.getLastStateBlock = .ok (deref c.blocks h)

theorem Marked.stateAt_deref (hc : Marked c) {i : Nat} {h : Blob} (hi : c.hashes[i]? = some h) :
    stateAt c.blocks h = some (deref c.blocks h).isStateBlock := by
  obtain ⟨p, hp⟩ := hc.stored h (List.mem_of_getElem? hi)
  rw [stateAt_of_find hp, deref_of_find hp]

theorem Marked.lastStateRight (hc : Marked c) : c.LastStateRight := by
  intro i h hi hstate hhighest
  have hbelow := hc.below i h hi ((hc.stateAt_deref hi).trans (congrArg some hstate))
  have hpos : i ≠ 0 := by
    intro hzero
    obtain ⟨g, hg, hgs⟩ := hc.genesis
    rw [hzero] at hi
    obtain rfl := Option.some.inj (hi.symm.trans hg)
    rw [hc.stateAt_deref hg, hstate] at hgs
    cases hgs
  obtain ⟨l, hl, hls⟩ := hc.marked (by omega)
  have hlast : c.lastStateBlock = i := by
    by_contra hne
    have hnot := hhighest _ l (by omega) hl
    rw [hc.stateAt_deref hl, hnot] at hls
    cases hls
  rw [hlast] at hl
  obtain rfl := Option.some.inj (hi.symm.trans hl)
  unfold getLastStateBlock
  rw [hlast, hi, show (i != 0) = true from bne_iff_ne.mpr hpos, check_true]
  rfl

/-- **`addBlock` is atomic** exactly for the blocks that fit and for those whose rejection is silent,
and while no call leaves the marker wrong `getLastStateBlock` is right. -/
theorem addBlock_atomic_iff (c : BlockChain) :
    (∀ b : BlockHeader, c.Atomic b ↔ c.Fits b ∨ c.Silent b) ∧ (Kept c → c.LastStateRight) :=
  ⟨fun _ => atomic_iff, fun h => h.marked.lastStateRight⟩

/-! ## A state block beside the top -/

/-- A header of this type, with hashes of one byte repeated. -/
def someBlock (blockType : UInt64) (hash prevHash : UInt8) : BlockHeader :=
  { (default : BlockHeader) with
    blockType
    hash := Blob.replicate 32 hash Blob.hash_fits, prevHash := Blob.replicate 32 prevHash Blob.hash_fits }

/-- A state block and two common blocks above it. -/
def stateAtBottom : BlockChain :=
  [someBlock BLOCK_TYPE_STATE 1 0, someBlock BLOCK_TYPE_COMMON 2 1,
    someBlock BLOCK_TYPE_COMMON 3 2].foldl (fun c b => (c.addBlock b).2) .new

/-- A state block that competes with the top of the chain is refused and moves the marker there. -/
theorem refused_state_block_marks :
    ¬stateAtBottom.Atomic (someBlock BLOCK_TYPE_STATE 4 2) ∧
      ¬(stateAtBottom.addBlock (someBlock BLOCK_TYPE_STATE 4 2)).2.LastStateRight := by
  constructor
  · intro hatomic
    have hrefused : (stateAtBottom.addBlock (someBlock BLOCK_TYPE_STATE 4 2)).1 = .ok none := by
      decide +kernel
    have hsame := hatomic (fun n hn => by rw [hrefused] at hn; cases hn)
    have hmoved : (stateAtBottom.addBlock (someBlock BLOCK_TYPE_STATE 4 2)).2.lastStateBlock ≠
        stateAtBottom.lastStateBlock := by decide +kernel
    exact hmoved (congrArg BlockChain.lastStateBlock hsame)
  · intro hright
    have hlength : (stateAtBottom.addBlock (someBlock BLOCK_TYPE_STATE 4 2)).2.hashes =
        [GENESIS_BLOCK_HASH, Blob.replicate 32 1 Blob.hash_fits, Blob.replicate 32 2 Blob.hash_fits,
          Blob.replicate 32 3 Blob.hash_fits] := by decide +kernel
    have hlast := hright 1 (Blob.replicate 32 1 Blob.hash_fits) (by decide +kernel) (by decide +kernel)
      (by
        intro j h hj hh
        rw [hlength] at hh
        match j, hj with
        | 2, _ => obtain rfl := Option.some.inj hh; decide +kernel
        | 3, _ => obtain rfl := Option.some.inj hh; decide +kernel
        | j + 4, _ => cases hh)
    have hwrong : (stateAtBottom.addBlock (someBlock BLOCK_TYPE_STATE 4 2)).2.getLastStateBlock ≠
        .ok (deref (stateAtBottom.addBlock (someBlock BLOCK_TYPE_STATE 4 2)).2.blocks
          (Blob.replicate 32 1 Blob.hash_fits)) := by decide +kernel
    exact hwrong hlast

/-- The same chain before that. -/
theorem addBlock_atomic_iff_one :
    stateAtBottom.Atomic (someBlock BLOCK_TYPE_COMMON 4 2) ∧ stateAtBottom.LastStateRight := by
  have hfits : ∀ (c : BlockChain) (b : BlockHeader),
      ((c.addBlock b).1.toOption.bind id).isSome = true → c.Fits b := by
    intro c b h
    refine addBlock_taken_iff.mp ?_
    rcases hr : (c.addBlock b).1 with e | _ | n
    · rw [hr] at h
      cases h
    · rw [hr] at h
      cases h
    · exact ⟨n, rfl⟩
  refine ⟨((addBlock_atomic_iff _).1 _).mpr (Or.inr (Or.inr (Or.inr (Or.inr ⟨2, ?_, ?_⟩)))),
    (addBlock_atomic_iff _).2 ?_⟩
  · decide +kernel
  · intro hstate
    cases hstate
  · refine .call (.addBlock _) (.call (.addBlock _) (.call (.addBlock _) .new ?_) ?_) ?_
    · exact Or.inl (hfits _ _ (by decide +kernel))
    · exact Or.inl (hfits _ _ (by decide +kernel))
    · exact Or.inl (hfits _ _ (by decide +kernel))

end BlockChain

end TorrentNode
