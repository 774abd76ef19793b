import TorrentNode.Chain.Walk

/-!
# What `addBlock` does

One equation for each way a call can go. Only the last of them, a block whose
parent has its height, takes the walk of `calcBlockchain` further than an
exception, and there it makes at most two rounds.
-/

namespace TorrentNode

namespace BlockChain

/-- The height that `addBlock` takes the parent to have: an unknown parent, and the block itself,
count as genesis. `none` for a stored parent that has no height yet. -/
def parentHeight (c : BlockChain) (b : BlockHeader) : Option Nat :=
  if b.prevHash = b.hash then some 0
  else match c.blocks.find? b.prevHash with
    | none => some 0
    | some p => p.blockNumber

/-- `lastStateBlock` after a block was numbered. -/
def bump (c : BlockChain) (b : BlockHeader) (n : Nat) : Nat :=
  if b.isStateBlock then max n c.lastStateBlock else c.lastStateBlock

/-- The chain with one more block on top. -/
def extend (c : BlockChain) (b : BlockHeader) (n : Nat) : BlockChain :=
  { blocks := c.blocks.insert b.hash (b.withNumber (some n))
    hashes := c.hashes ++ [b.hash]
    lastStateBlock := bump c b n }

theorem addBlock_empty {c : BlockChain} {b : BlockHeader} (h : b.hash = ∅) :
    c.addBlock b = (.error (.exception "Empty block hash"), c) := by
  unfold addBlock addWithoutCalc; rw [h]; rfl

theorem addBlock_known {c : BlockChain} {b p : BlockHeader} (hne : b.hash ≠ ∅)
    (h : c.blocks.find? b.hash = some p) :
    c.addBlock b =
      (.error (.exception ("Block " ++ toHex b.hash.val ++ " already exist")), c) := by
  unfold addBlock addWithoutCalc
  rw [Blob.isEmpty_eq_false.mpr hne, h]
  rfl

/-- Past the first checks, `addBlock` is `calcBlockchain` on the chain with the header put in. -/
theorem addBlock_new {c : BlockChain} {b : BlockHeader} (hne : b.hash ≠ ∅)
    (h : c.blocks.find? b.hash = none) :
    c.addBlock b =
      match ({ c with blocks := c.blocks.insert b.hash b } : BlockChain).calcBlockchain b.hash with
      | (.ok none, c) => (.ok none, c.removeBlock b)
      | (.ok (some n), c) => (.ok (some n), c)
      | (.error e, c) => (.error e, c.removeBlock b) := by
  unfold addBlock addWithoutCalc
  rw [Blob.isEmpty_eq_false.mpr hne, h]
  rfl

/-- `calcBlockchain` once the header is known to be there. -/
theorem calcBlockchain_stored {c : BlockChain} {k : Blob} {b : BlockHeader} (hne : k ≠ ∅)
    (h : c.blocks.find? k = some b) :
    c.calcBlockchain k = c.settle (walk (c.blocks.entries.length + 1)
      { blocks := c.blocks, bh := k, currNum := 0, processedBlocks := [] }) := by
  unfold calcBlockchain
  rw [Blob.isEmpty_eq_false.mpr hne, h]
  rfl

theorem removeBlock_insert {c : BlockChain} {b h : BlockHeader} {lastState : Nat}
    (hnew : c.blocks.find? b.hash = none) :
    removeBlock { c with blocks := c.blocks.insert b.hash h, lastStateBlock := lastState } b =
      { c with lastStateBlock := lastState } := by
  unfold removeBlock
  rw [OrdMap.erase_insert hnew]

/-- A block without a parent hash is put in, fails the walk and is taken out again. -/
theorem addBlock_noParent {c : BlockChain} {b : BlockHeader} (hne : b.hash ≠ ∅)
    (hnew : c.blocks.find? b.hash = none) (hn : b.blockNumber = none) (hp : b.prevHash = ∅) :
    c.addBlock b = (.error (.exception "Empty block hash"), c) := by
  rw [addBlock_new hne hnew, calcBlockchain_stored hne OrdMap.find?_insert_self,
    walk_unnumbered OrdMap.find?_insert_self hn, hp, Blob.isEmpty_empty, if_pos rfl]
  simp only [settle, OrdMap.insert_insert]
  exact congrArg _ (removeBlock_insert hnew)

/-- The second loop over a walk of one block. -/
theorem renumber_one {c : BlockChain} {blocks : OrdMap Blob BlockHeader} {b : BlockHeader}
    {n : Nat} :
    renumber n [b.hash] { c with blocks := blocks.insert b.hash (b.withNumber (some 0)) } =
      if n = c.hashes.length then
        (some n, { blocks := blocks.insert b.hash (b.withNumber (some n))
                   hashes := c.hashes ++ [b.hash]
                   lastStateBlock := c.bump b n })
      else (none, { c with blocks := blocks.insert b.hash (b.withNumber (some n))
                           lastStateBlock := c.bump b n }) := by
  have hderef : deref (blocks.insert b.hash (b.withNumber (some 0))) b.hash =
      b.withNumber (some 0) := deref_of_find OrdMap.find?_insert_self
  have hmod : (blocks.insert b.hash (b.withNumber (some 0))).modify b.hash
      (fun h => h.withNumber (some n)) = blocks.insert b.hash (b.withNumber (some n)) := by
    unfold OrdMap.modify
    rw [OrdMap.find?_insert_self]
    exact OrdMap.insert_insert
  simp only [renumber, hderef, BlockHeader.withNumber_blockNumber, Option.getD_some, Nat.sub_zero,
    hmod, BlockHeader.withNumber_isStateBlock]
  by_cases htop : n = c.hashes.length
  · rw [if_neg (not_not.mpr htop), if_pos htop]; rfl
  · rw [if_pos htop, if_neg htop]; rfl

/-- **A block whose parent has a height** gets the next one, and stays if that is the top. -/
theorem addBlock_numbered {c : BlockChain} {b : BlockHeader} {n : Nat} (hne : b.hash ≠ ∅)
    (hnew : c.blocks.find? b.hash = none) (hn : b.blockNumber = none) (hp : b.prevHash ≠ ∅)
    (hpar : parentHeight c b = some n) :
    c.addBlock b =
      if n + 1 = c.hashes.length then (.ok (some (n + 1)), c.extend b (n + 1))
      else (.ok none, { c with lastStateBlock := c.bump b (n + 1) }) := by
  have hstored : (c.blocks.insert b.hash b).find? b.hash = some b := OrdMap.find?_insert_self
  obtain ⟨bh, hwalk, hbh⟩ := walk_top (c.blocks.insert b.hash b).entries.length
    (n := n) hstored hn hp
    (by
      intro hs p hf
      rw [OrdMap.find?_insert_ne hs] at hf
      rw [parentHeight, if_neg hs, hf] at hpar
      exact hpar)
    (by
      intro h
      by_cases hs : b.prevHash = b.hash
      · rw [parentHeight, if_pos hs] at hpar
        exact (Option.some.inj hpar).symm
      · rcases h with h | h
        · exact absurd h hs
        · rw [OrdMap.find?_insert_ne hs] at h
          rw [parentHeight, if_neg hs, h] at hpar
          exact (Option.some.inj hpar).symm)
  rw [OrdMap.insert_insert] at hwalk hbh
  rw [addBlock_new hne hnew, calcBlockchain_stored hne hstored, hwalk]
  simp only [settle, hbh, renumber_one, Nat.add_comm 1 n]
  by_cases htop : n + 1 = c.hashes.length
  · rw [if_pos htop, if_pos htop]; rfl
  · rw [if_neg htop, if_neg htop]
    exact congrArg _ (removeBlock_insert hnew)

end BlockChain

end TorrentNode
