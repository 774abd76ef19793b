import TorrentNode.Chain.AddBlock

/-!
# The representation invariant of the chain

`hashes` lists, from genesis up, headers that are stored under their hash with
their height, each the child of the one before. `addBlock` keeps this and takes
exactly the children of the last block, but for one hole: while genesis is alone,
a block with an unknown parent is given height 1 and passes for a child of genesis.
-/

namespace TorrentNode

namespace BlockChain

/-- `hashes` is a chain that starts at genesis and is stored in `blocks`. -/
structure Represents (c : BlockChain) : Prop where
  genesis : c.hashes[0]? = some GENESIS_BLOCK_HASH
  /-- Each reference is to a header stored under its hash, with its height. -/
  stored : ∀ (i : Nat) (h : Blob), c.hashes[i]? = some h →
    ∃ b, c.blocks.find? h = some b ∧ b.hash = h ∧ b.blockNumber = some i
  /-- Each block is the child of the one below it. -/
  linked : ∀ (i : Nat) (h h' : Blob), c.hashes[i]? = some h → c.hashes[i + 1]? = some h' →
    (deref c.blocks h').prevHash = h

/-- Nothing is stored that is not on the chain, and nothing under an empty hash. -/
def Closed (c : BlockChain) : Prop :=
  ∀ (k : Blob) (b : BlockHeader), c.blocks.find? k = some b →
    k ≠ ∅ ∧ ∃ i, c.hashes[i]? = some k ∧ b.blockNumber = some i

/-- `addBlock` returns a number exactly for a new child of the last block, the next height. -/
def AcceptsNext (c : BlockChain) (b : BlockHeader) : Prop :=
  ∀ n, (c.addBlock b).1 = .ok (some n) ↔
    c.blocks.find? b.hash = none ∧ b.prevHash = c.getLastBlock.hash ∧ n = c.countBlocks + 1

/-- What a step of a run may be given for `addBlock` to keep its contract. -/
structure Offered (c : BlockChain) (b : BlockHeader) : Prop where
  hash : b.hash ≠ ∅
  number : b.blockNumber = none
  /-- On top of genesis alone only children of genesis, or blocks refused at once. -/
  child : c.countBlocks = 0 → b.prevHash = GENESIS_BLOCK_HASH ∨ b.prevHash = ∅ ∨
    ∃ p, c.blocks.find? b.hash = some p

/-- The states after calls of `addBlock` on a new chain, each with an argument that `ok` allows. -/
inductive Run (ok : BlockChain → BlockHeader → Prop) : BlockChain → Prop where
  | new : Run ok new
  | add {c : BlockChain} {b : BlockHeader} : Run ok c → ok c b → Run ok (c.addBlock b).2

theorem Represents.length_pos {c : BlockChain} (h : Represents c) : 0 < c.hashes.length := by
  by_contra hz
  have hnil : c.hashes = [] := List.eq_nil_of_length_eq_zero (by omega)
  have := h.genesis
  rw [hnil] at this
  exact absurd this (by simp)

/-- The last block of a chain, and its hash. -/
theorem Represents.last {c : BlockChain} (h : Represents c) :
    ∃ l b, c.hashes[c.countBlocks]? = some l ∧ c.blocks.find? l = some b ∧
      c.getLastBlock = b ∧ b.hash = l ∧ b.blockNumber = some c.countBlocks := by
  have hpos := h.length_pos
  have hlt : c.countBlocks < c.hashes.length := by unfold countBlocks; omega
  have hl : c.hashes[c.countBlocks]? = some c.hashes[c.countBlocks] :=
    List.getElem?_eq_getElem hlt
  obtain ⟨b, hb, hbh, hbn⟩ := h.stored _ _ hl
  refine ⟨_, b, hl, hb, ?_, hbh, hbn⟩
  unfold getLastBlock getBlockByNumber
  have hl' : c.hashes[c.hashes.length - 1]? = some c.hashes[c.countBlocks] := hl
  rw [hl']
  exact deref_of_find hb

theorem represents_new : Represents new := by
  refine ⟨rfl, ?_, ?_⟩
  · intro i h hi
    cases i with
    | zero => exact ⟨genesisBlock, by obtain rfl := Option.some.inj hi; rfl,
        Option.some.inj hi, rfl⟩
    | succ i => exact absurd hi (by simp [new, init])
  · intro i h h' _ hi
    exact absurd hi (by simp [new, init])

theorem closed_new : Closed new := by
  intro k b hk
  have hk' : (OrdMap.insert (∅ : OrdMap Blob BlockHeader) genesisBlock.hash genesisBlock).find? k
      = some b := hk
  rw [OrdMap.find?_insert] at hk'
  split at hk'
  · rename_i hkg
    obtain rfl := Option.some.inj hk'
    subst hkg
    exact ⟨by decide, 0, rfl, rfl⟩
  · exact absurd hk' (by simp)

/-- **One more block keeps the invariant** when its parent is the last one. -/
theorem represents_extend {c : BlockChain} {b : BlockHeader} (h : Represents c)
    (hnew : c.blocks.find? b.hash = none) (hprev : b.prevHash = c.getLastBlock.hash) :
    Represents (c.extend b (c.countBlocks + 1)) := by
  obtain ⟨l, lb, hl, hlb, hlast, hlh, _⟩ := h.last
  have hpos := h.length_pos
  have htop : c.countBlocks + 1 = c.hashes.length := by unfold countBlocks; omega
  -- an old reference is not the new hash, so it still finds its header
  have hold : ∀ {k : Blob} {p : BlockHeader}, c.blocks.find? k = some p →
      (c.extend b (c.countBlocks + 1)).blocks.find? k = some p := by
    intro k p hk
    have hne : k ≠ b.hash := by
      intro he; rw [he, hnew] at hk; exact absurd hk (by simp)
    exact (OrdMap.find?_insert_ne hne).trans hk
  have hself : (c.extend b (c.countBlocks + 1)).blocks.find? b.hash =
      some (b.withNumber (some (c.countBlocks + 1))) := OrdMap.find?_insert_self
  have hget : ∀ {i : Nat} {k : Blob}, (c.hashes ++ [b.hash])[i]? = some k →
      c.hashes[i]? = some k ∨ (i = c.countBlocks + 1 ∧ k = b.hash) := by
    intro i k hi
    rcases Nat.lt_trichotomy i c.hashes.length with hlt | heq | hgt
    · exact Or.inl (by rwa [List.getElem?_append_left hlt] at hi)
    · subst heq
      rw [List.getElem?_concat_length] at hi
      exact Or.inr ⟨htop.symm, (Option.some.inj hi).symm⟩
    · rw [List.getElem?_eq_none (by simp; omega)] at hi
      exact absurd hi (by simp)
  -- The genesis block stays; every place finds its header, and its parent below it.
  refine ⟨?_, ?_, ?_⟩
  · exact (List.getElem?_append_left hpos).trans h.genesis
  · intro i k hi
    rcases hget hi with hi | ⟨rfl, rfl⟩
    · obtain ⟨p, hp, hph, hpn⟩ := h.stored i k hi
      exact ⟨p, hold hp, hph, hpn⟩
    · exact ⟨_, hself, rfl, rfl⟩
  · intro i k k' hi hi'
    rcases hget hi with hi | ⟨rfl, rfl⟩
    · rcases hget hi' with hi' | ⟨heq, rfl⟩
      · obtain ⟨p, hp, _⟩ := h.stored _ _ hi'
        rw [deref_of_find (hold hp), ← deref_of_find hp]
        exact h.linked i k k' hi hi'
      -- The new block stands on the old last one.
      · obtain rfl : i = c.countBlocks := by omega
        obtain rfl : k = l := Option.some.inj (hi.symm.trans hl)
        rw [deref_of_find hself, BlockHeader.withNumber_prevHash, hprev, hlast, hlh]
    · rcases hget hi' with hi' | ⟨heq, _⟩
      · have := (List.getElem?_eq_some_iff.mp hi').1
        omega
      · omega

theorem closed_extend {c : BlockChain} {b : BlockHeader} {n : Nat} (h : Closed c)
    (hne : b.hash ≠ ∅) (hn : n = c.hashes.length) : Closed (c.extend b n) := by
  intro k p hk
  have hk' : (c.blocks.insert b.hash (b.withNumber (some n))).find? k = some p := hk
  rw [OrdMap.find?_insert] at hk'
  split at hk'
  · rename_i hkb
    obtain rfl := Option.some.inj hk'
    refine ⟨hkb ▸ hne, n, ?_, rfl⟩
    rw [hkb, hn]
    exact List.getElem?_concat_length
  · obtain ⟨hk0, i, hi, hp⟩ := h k p hk'
    have hlt := (List.getElem?_eq_some_iff.mp hi).1
    exact ⟨hk0, i, (List.getElem?_append_left hlt).trans hi, hp⟩

/-- Neither part of the invariant looks at the last state block. -/
theorem represents_bump {c : BlockChain} {n : Nat} (h : Represents c) :
    Represents { c with lastStateBlock := n } := ⟨h.genesis, h.stored, h.linked⟩

/-- **The parent of a new block, on a closed chain**: its height says whether it is the last. -/
theorem parentHeight_closed {c : BlockChain} {b : BlockHeader} (h : Represents c) (hc : Closed c)
    (hnew : c.blocks.find? b.hash = none) :
    ∃ n, parentHeight c b = some n ∧
      (b.prevHash = c.getLastBlock.hash → n = c.countBlocks) ∧
      (n + 1 = c.hashes.length → b.prevHash = c.getLastBlock.hash ∨ c.countBlocks = 0) := by
  obtain ⟨l, lb, hl, hlb, hlast, hlh, hln⟩ := h.last
  have hpos := h.length_pos
  unfold parentHeight
  -- A block that is its own parent, or whose parent is missing, counts from zero.
  by_cases hs : b.prevHash = b.hash
  · rw [if_pos hs]
    refine ⟨0, rfl, ?_, ?_⟩
    · intro hp
      rw [← hs, hp, hlast, hlh, hlb] at hnew
      exact absurd hnew (by simp)
    · intro htop; exact Or.inr (by unfold countBlocks; omega)
  · rw [if_neg hs]
    cases hf : c.blocks.find? b.prevHash with
    | none =>
        refine ⟨0, rfl, ?_, ?_⟩
        · intro hp
          rw [hp, hlast, hlh, hlb] at hf
          exact absurd hf (by simp)
        · intro htop; exact Or.inr (by unfold countBlocks; omega)
    | some p =>
        obtain ⟨_, i, hi, hpi⟩ := hc _ p hf
        refine ⟨i, hpi, ?_, ?_⟩
        · intro hp
          rw [hp, hlast, hlh, hlb] at hf
          obtain rfl := Option.some.inj hf
          exact Option.some.inj (hpi.symm.trans hln)
        · intro htop
          left
          obtain rfl : i = c.countBlocks := by unfold countBlocks; omega
          rw [hlast, hlh]
          exact Option.some.inj (hi.symm.trans hl)

/-- **One call under the condition** keeps the invariant and obeys the contract. -/
theorem represents_step {c : BlockChain} {b : BlockHeader} (h : Represents c) (hc : Closed c)
    (ho : Offered c b) :
    (Represents (c.addBlock b).2 ∧ Closed (c.addBlock b).2) ∧ AcceptsNext c b := by
  have hpos := h.length_pos
  have hcount : c.countBlocks + 1 = c.hashes.length := by unfold countBlocks; omega
  obtain ⟨l, lb, hl, hlb, hlast, hlh, _⟩ := h.last
  -- Known and orphaned blocks leave all as it is.
  cases hnew : c.blocks.find? b.hash with
  | some p =>
      rw [addBlock_known ho.hash hnew]
      refine ⟨⟨h, hc⟩, ?_⟩
      intro n
      rw [addBlock_known ho.hash hnew, hnew]
      simp
  | none =>
      by_cases hp : b.prevHash = ∅
      · rw [addBlock_noParent ho.hash hnew ho.number hp]
        refine ⟨⟨h, hc⟩, ?_⟩
        intro n
        rw [addBlock_noParent ho.hash hnew ho.number hp]
        refine ⟨fun he => absurd he (by simp), ?_⟩
        rintro ⟨_, he, _⟩
        -- the last block is stored, so its hash is not empty
        rw [hp, hlast, hlh] at he
        exact absurd he.symm (hc l lb hlb).1
      · obtain ⟨n, hpar, hlastn, htopn⟩ := parentHeight_closed h hc hnew
        have hadd := addBlock_numbered ho.hash hnew ho.number hp hpar
        by_cases htop : n + 1 = c.hashes.length
        · rw [if_pos htop] at hadd
          have hprev : b.prevHash = c.getLastBlock.hash := by
            rcases htopn htop with hprev | hzero
            · exact hprev
            · -- on genesis alone the condition leaves only its children
              rcases ho.child hzero with hg | hg | ⟨p, hg⟩
              · rw [hg, hlast, hlh]
                refine Option.some.inj (h.genesis.symm.trans ?_)
                rw [← hzero]; exact hl
              · exact absurd hg hp
              · rw [hnew] at hg; exact absurd hg (by simp)
          obtain rfl : n = c.countBlocks := by omega
          rw [hadd]
          refine ⟨⟨represents_extend h hnew hprev, closed_extend hc ho.hash htop⟩, ?_⟩
          intro m
          rw [hadd]
          simp [hnew, hprev, eq_comm]
        · rw [if_neg htop] at hadd
          rw [hadd]
          refine ⟨⟨represents_bump h, hc⟩, ?_⟩
          intro m
          rw [hadd]
          refine ⟨fun he => absurd he (by simp), ?_⟩
          rintro ⟨_, hprev, _⟩
          have := hlastn hprev
          omega

/-- A new block with an unknown parent, on genesis alone, is accepted against the contract. -/
theorem not_acceptsNext_of_orphan {c : BlockChain} {b : BlockHeader} (h : Represents c)
    (hc : Closed c) (hne : b.hash ≠ ∅) (hnum : b.blockNumber = none) (ho : ¬Offered c b) :
    ¬AcceptsNext c b := by
  intro hacc
  obtain ⟨l, lb, hl, hlb, hlast, hlh, _⟩ := h.last
  have hpos := h.length_pos
  have hno : ¬(c.countBlocks = 0 → b.prevHash = GENESIS_BLOCK_HASH ∨ b.prevHash = ∅ ∨
      ∃ p, c.blocks.find? b.hash = some p) := fun hchild => ho ⟨hne, hnum, hchild⟩
  push Not at hno
  obtain ⟨hzero, hg, hp, hnew⟩ := hno
  have hnew : c.blocks.find? b.hash = none := Option.eq_none_iff_forall_ne_some.mpr hnew
  have hlg : l = GENESIS_BLOCK_HASH := by
    rw [hzero] at hl
    exact Option.some.inj (hl.symm.trans h.genesis)
  -- only genesis is stored, so the parent is not
  have hpar : parentHeight c b = some 0 := by
    unfold parentHeight
    split
    · rfl
    · cases hf : c.blocks.find? b.prevHash with
      | none => rfl
      | some p =>
          obtain ⟨_, i, hi, _⟩ := hc _ p hf
          have hlt := (List.getElem?_eq_some_iff.mp hi).1
          obtain rfl : i = 0 := by unfold countBlocks at hzero; omega
          exact absurd (Option.some.inj (hi.symm.trans h.genesis)) hg
  have hadd := addBlock_numbered hne hnew hnum hp hpar
  rw [if_pos (by unfold countBlocks at hzero; omega)] at hadd
  obtain ⟨_, hprev, _⟩ := (hacc 1).mp (by rw [hadd])
  rw [hlast, hlh, hlg] at hprev
  exact hg hprev

theorem run_offered {c : BlockChain} (h : Run Offered c) : Represents c ∧ Closed c := by
  induction h with
  | new => exact ⟨represents_new, closed_new⟩
  | add hr ho ih => exact (represents_step ih.1 ih.2 ho).1

/--
**The chain keeps its representation**, and `addBlock` its contract, as long as
no block with an unknown parent is offered on top of genesis alone, and a call
goes wrong exactly when one is.
-/
theorem addBlock_contract {c : BlockChain} (h : Run Offered c) :
    Represents c ∧ ∀ b : BlockHeader, b.hash ≠ ∅ → b.blockNumber = none →
      ((Represents (c.addBlock b).2 ∧ AcceptsNext c b) ↔ Offered c b) := by
  obtain ⟨hrep, hclosed⟩ := run_offered h
  refine ⟨hrep, ?_⟩
  intro b hne hnum
  constructor
  · rintro ⟨_, hacc⟩
    by_contra ho
    exact not_acceptsNext_of_orphan hrep hclosed hne hnum ho hacc
  · intro ho
    have hstep := represents_step hrep hclosed ho
    exact ⟨hstep.1.1, hstep.2⟩

/-- A header with these hashes, out of a file `blk`. -/
def simpleHeader (hash prevHash : UInt8) : BlockHeader :=
  { (default : BlockHeader) with
    blockSize := 120, blockType := BLOCK_TYPE
    hash := Blob.replicate 32 hash Blob.hash_fits, prevHash := Blob.replicate 32 prevHash Blob.hash_fits
    txsHash := Blob.replicate 32 9 Blob.hash_fits
    filePos := { pos := 0, fileNameRelative := ⟨ascii ['b', 'l', 'k'], Blob.blk_fits⟩ } }

/-- The contract after a child of genesis and a child of that. -/
theorem addBlock_contract_two :
    Represents ((new.addBlock (simpleHeader 1 0)).2.addBlock (simpleHeader 2 1)).2 ∧
      AcceptsNext ((new.addBlock (simpleHeader 1 0)).2.addBlock (simpleHeader 2 1)).2
        (simpleHeader 3 7) := by
  have hrun : Run Offered ((new.addBlock (simpleHeader 1 0)).2.addBlock (simpleHeader 2 1)).2 :=
    Run.add
      (Run.add Run.new ⟨by decide, rfl, fun _ => Or.inl (by decide)⟩)
      ⟨by decide, rfl, fun hz => absurd hz (by decide)⟩
  have h := addBlock_contract hrun
  have hoffer : Offered ((new.addBlock (simpleHeader 1 0)).2.addBlock (simpleHeader 2 1)).2
      (simpleHeader 3 7) := ⟨by decide, rfl, fun hz => absurd hz (by decide)⟩
  exact ⟨h.1, ((h.2 _ (by decide) rfl).mpr hoffer).2⟩

/-- On a new chain a block whose parent nobody knows is taken as block 1. -/
theorem addBlock_orphan :
    (new.addBlock (simpleHeader 1 7)).1 = .ok (some 1) ∧
      (simpleHeader 1 7).prevHash ≠ new.getLastBlock.hash ∧
      ¬Represents (new.addBlock (simpleHeader 1 7)).2 ∧ ¬AcceptsNext new (simpleHeader 1 7) := by
  have hadd : (new.addBlock (simpleHeader 1 7)).1 = .ok (some 1) := by decide
  have hprev : (simpleHeader 1 7).prevHash ≠ new.getLastBlock.hash := by decide
  refine ⟨hadd, hprev, ?_, ?_⟩
  · intro hrep
    have hlink := hrep.linked 0 GENESIS_BLOCK_HASH (simpleHeader 1 7).hash (by decide) (by decide)
    exact absurd hlink (by decide)
  · intro hacc
    exact hprev ((hacc 1).mp hadd).2.1

end BlockChain

end TorrentNode
