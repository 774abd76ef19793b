import TorrentNode.Chain.Representation

/-!
# Numbering a chain again

A chain that took its blocks one by one is `extend` folded over their headers.
Given the same headers without heights, `calcBlockchain` walks from the last one
down to genesis and numbers its way back up to the same chain.
-/

namespace TorrentNode

namespace BlockChain

/-- The chain with these headers on top, the lowest first. -/
def grow (c : BlockChain) (hs : List BlockHeader) : BlockChain :=
  hs.foldl (fun c h => c.extend h c.hashes.length) c

theorem grow_cons (c : BlockChain) (h : BlockHeader) (hs : List BlockHeader) :
    c.grow (h :: hs) = (c.extend h c.hashes.length).grow hs := rfl

theorem grow_concat (c : BlockChain) (hs : List BlockHeader) (h : BlockHeader) :
    c.grow (hs ++ [h]) = (c.grow hs).extend h (c.grow hs).hashes.length := List.foldl_append

theorem hashes_grow : ∀ (hs : List BlockHeader) (c : BlockChain),
    (c.grow hs).hashes = c.hashes ++ hs.map BlockHeader.hash
  | [], c => (List.append_nil _).symm
  | h :: hs, c => by
      rw [grow_cons, hashes_grow hs, extend, List.map_cons, List.append_assoc, List.singleton_append]

theorem find?_grow : ∀ {hs : List BlockHeader} {c : BlockChain} {k : Blob},
    k ∉ hs.map BlockHeader.hash → (c.grow hs).blocks.find? k = c.blocks.find? k
  | [], _, _, _ => rfl
  | h :: hs, c, k, hk => by
      rw [List.map_cons, List.mem_cons, not_or] at hk
      rw [grow_cons, find?_grow hk.2]
      exact OrdMap.find?_insert_ne hk.1

/-- What is stored under the hashes of the headers does not matter. -/
theorem grow_congr : ∀ {hs : List BlockHeader} {c c' : BlockChain}, c.hashes = c'.hashes →
    c.lastStateBlock = c'.lastStateBlock →
    (∀ k, k ∉ hs.map BlockHeader.hash → c.blocks.find? k = c'.blocks.find? k) →
    c.grow hs = c'.grow hs
  | [], c, c', hhashes, hlast, hblocks => by
      have heq : c.blocks = c'.blocks := OrdMap.ext (fun k => hblocks k List.not_mem_nil)
      cases c
      cases c'
      cases heq
      cases hhashes
      cases hlast
      rfl
  | h :: hs, c, c', hhashes, hlast, hblocks => by
      rw [grow_cons, grow_cons]
      refine grow_congr ?_ ?_ ?_
      · rw [extend, extend, hhashes]
      · rw [extend, extend, bump, bump, hhashes, hlast]
      · intro k hk
        rw [extend, extend, hhashes, OrdMap.find?_insert, OrdMap.find?_insert]
        by_cases hkh : k = h.hash
        · rw [if_pos hkh, if_pos hkh]
        · rw [if_neg hkh, if_neg hkh]
          refine hblocks k ?_
          rw [List.map_cons, List.mem_cons, not_or]
          exact ⟨hkh, hk⟩

/-! ## Headers that form a chain -/

/-- The hash of the highest header. -/
def tip (hs : List BlockHeader) : Blob := (hs.getLast?.map BlockHeader.hash).getD GENESIS_BLOCK_HASH

/-- Headers from this hash downwards, the parent of each below it, and of the last one genesis. -/
def Descends : Blob → List BlockHeader → Prop
  | k, [] => k = GENESIS_BLOCK_HASH
  | k, h :: hs => h.hash = k ∧ h.prevHash ≠ ∅ ∧ Descends h.prevHash hs

/-- Different headers without heights that form a chain on genesis, the lowest first. -/
structure Lineage (hs : List BlockHeader) : Prop where
  numbers : ∀ h ∈ hs, h.blockNumber = none
  hashes : ∀ h ∈ hs, h.hash ≠ ∅
  nodup : (hs.map BlockHeader.hash).Nodup
  genesis : GENESIS_BLOCK_HASH ∉ hs.map BlockHeader.hash
  descends : Descends (tip hs) hs.reverse

theorem lineage_nil : Lineage [] :=
  { numbers := fun _ h => absurd h List.not_mem_nil, hashes := fun _ h => absurd h List.not_mem_nil
    nodup := List.nodup_nil, genesis := List.not_mem_nil, descends := rfl }

theorem tip_concat (hs : List BlockHeader) (h : BlockHeader) : tip (hs ++ [h]) = h.hash := by
  rw [tip, List.getLast?_concat]
  rfl

/-- The parent is genesis or one of the headers below. -/
theorem Descends.known {k : Blob} {hs : List BlockHeader} (h : Descends k hs) :
    k = GENESIS_BLOCK_HASH ∨ k ∈ hs.map BlockHeader.hash := by
  cases hs with
  | nil => exact .inl h
  | cons b hs => exact .inr (List.mem_cons.mpr (.inl h.1.symm))

/-- A header is not its own parent. -/
theorem Lineage.prevHash_ne {hs : List BlockHeader} {h : BlockHeader} (hl : Lineage (hs ++ [h])) :
    h.prevHash ≠ h.hash := by
  have hdesc := hl.descends
  have hnodup := hl.nodup
  have hgen := hl.genesis
  rw [List.reverse_concat] at hdesc
  rw [List.map_append, List.map_singleton] at hgen hnodup
  intro heq
  rcases hdesc.2.2.known with hg | hin
  · rw [← hg, heq] at hgen
    exact hgen (List.mem_append_right _ (List.mem_singleton_self _))
  · rw [List.map_reverse, List.mem_reverse, heq] at hin
    exact (List.nodup_append.mp hnodup).2.2 _ hin _ (List.mem_singleton_self _) rfl

/-! ## The way down -/

/-- The headers with the numbers that the walk down gives them. -/
def walkDown : Nat → List BlockHeader → OrdMap Blob BlockHeader → OrdMap Blob BlockHeader
  | _, [], blocks => blocks
  | n, h :: hs, blocks => walkDown (n + 1) hs (blocks.insert h.hash (h.withNumber (some n)))

theorem find?_walkDown : ∀ {hs : List BlockHeader} {n : Nat} {blocks : OrdMap Blob BlockHeader}
    {k : Blob}, k ∉ hs.map BlockHeader.hash → (walkDown n hs blocks).find? k = blocks.find? k
  | [], _, _, _, _ => rfl
  | h :: hs, n, blocks, k, hk => by
      rw [List.map_cons, List.mem_cons, not_or] at hk
      rw [walkDown, find?_walkDown hk.2, OrdMap.find?_insert_ne hk.1]

/-- A header is numbered with how many are above it. -/
theorem find?_walkDown_mid {h : BlockHeader} {below : List BlockHeader} :
    ∀ {above : List BlockHeader} {n : Nat} {blocks : OrdMap Blob BlockHeader},
      ((above ++ h :: below).map BlockHeader.hash).Nodup →
      (walkDown n (above ++ h :: below) blocks).find? h.hash =
        some (h.withNumber (some (n + above.length)))
  | [], n, blocks, hnodup => by
      rw [List.nil_append, List.map_cons, List.nodup_cons] at hnodup
      rw [List.nil_append, walkDown, find?_walkDown hnodup.1, OrdMap.find?_insert_self]
      rfl
  | a :: above, n, blocks, hnodup => by
      rw [List.cons_append, List.map_cons, List.nodup_cons] at hnodup
      rw [List.cons_append, walkDown, find?_walkDown_mid hnodup.2, List.length_cons, Nat.add_assoc,
        Nat.add_comm 1]

/-- **The walk comes down to genesis.** -/
theorem walk_down : ∀ {hs : List BlockHeader} {k : Blob} {fuel n : Nat}
    {blocks : OrdMap Blob BlockHeader} {processed : List Blob}, Descends k hs →
    (∀ h ∈ hs, blocks.find? h.hash = some h ∧ h.blockNumber = none) →
    (hs.map BlockHeader.hash).Nodup → GENESIS_BLOCK_HASH ∉ hs.map BlockHeader.hash →
    blocks.find? GENESIS_BLOCK_HASH = some genesisBlock → hs.length ≤ fuel →
    walk fuel { blocks, bh := k, currNum := n, processedBlocks := processed } =
      (.ok (), { blocks := walkDown n hs blocks, bh := GENESIS_BLOCK_HASH, currNum := n + hs.length
                 processedBlocks := (hs.map BlockHeader.hash).reverse ++ processed })
  | [], _, fuel, n, blocks, processed, hdesc, _, _, _, hg, _ => by
      obtain rfl := hdesc
      exact walk_numbered (n := 0) hg rfl
  | h :: hs, _, 0, _, _, _, _, _, _, _, _, hfuel => absurd hfuel (by simp)
  | h :: hs, _, fuel + 1, n, blocks, processed, ⟨rfl, hprev, hdesc⟩, hstored, hnodup, hgen, hg,
      hfuel => by
      rw [List.map_cons, List.nodup_cons] at hnodup
      rw [List.map_cons, List.mem_cons, not_or] at hgen
      obtain ⟨hh, hnum⟩ := hstored h List.mem_cons_self
      have hg' : (blocks.insert h.hash (h.withNumber (some n))).find? GENESIS_BLOCK_HASH =
          some genesisBlock := (OrdMap.find?_insert_ne hgen.1).trans hg
      have hstored' : ∀ x ∈ hs, (blocks.insert h.hash (h.withNumber (some n))).find? x.hash =
          some x ∧ x.blockNumber = none := by
        intro x hx
        have hne : x.hash ≠ h.hash := fun he => hnodup.1 (he ▸ List.mem_map_of_mem hx)
        obtain ⟨hfind, hxnum⟩ := hstored x (List.mem_cons_of_mem _ hx)
        exact ⟨(OrdMap.find?_insert_ne hne).trans hfind, hxnum⟩
      -- The parent is the genesis block or the next header of the list.
      have hparent : ∃ p, (blocks.insert h.hash (h.withNumber (some n))).find? h.prevHash =
          some p := by
        rcases hdesc.known with hk | hk
        · exact ⟨_, hk ▸ hg'⟩
        · obtain ⟨x, hx, hxk⟩ := List.mem_map.mp hk
          exact ⟨x, hxk ▸ (hstored' x hx).1⟩
      obtain ⟨p, hp⟩ := hparent
      have ih := @walk_down hs _ fuel (n + 1) _ (h.hash :: processed) hdesc
        hstored' hnodup.2 hgen.2 hg' (by rw [List.length_cons] at hfuel; omega)
      rw [walk_unnumbered hh hnum, Blob.isEmpty_eq_false.mpr hprev]
      simp only [Bool.false_eq_true, if_false, hp]
      rw [ih, walkDown, List.map_cons, List.reverse_cons, List.append_assoc, List.singleton_append,
        List.length_cons, Nat.add_assoc, Nat.add_comm 1]

/-! ## The way up -/

/-- One header of the way up goes on top of the chain. -/
theorem renumber_extend {c : BlockChain} {h : BlockHeader} {allNum above : Nat} {refs : List Blob}
    (hh : c.blocks.find? h.hash = some (h.withNumber (some above)))
    (htop : c.hashes.length + above = allNum) :
    renumber allNum (h.hash :: refs) c = renumber allNum refs (c.extend h c.hashes.length) := by
  have hnum : allNum - above = c.hashes.length := by omega
  have hmod : c.blocks.modify h.hash (fun b => b.withNumber (some c.hashes.length)) =
      c.blocks.insert h.hash (h.withNumber (some c.hashes.length)) := by
    unfold OrdMap.modify
    rw [hh]
    rfl
  simp only [renumber, deref_of_find hh, BlockHeader.withNumber_blockNumber, Option.getD_some, hnum,
    BlockHeader.withNumber_isStateBlock, hmod, ne_eq, not_true, if_false]
  rfl

/-- **The way up rebuilds the chain**, when each header counts those above it. -/
theorem renumber_up {allNum : Nat} : ∀ {hs : List BlockHeader} {c : BlockChain},
    (∀ h above, (h :: above) <:+ hs →
      c.blocks.find? h.hash = some (h.withNumber (some above.length))) →
    (hs.map BlockHeader.hash).Nodup → c.hashes.length + hs.length = allNum + 1 →
    renumber allNum (hs.map BlockHeader.hash) c = (some allNum, c.grow hs)
  | [], _, _, _, _ => rfl
  | h :: hs, c, hnums, hnodup, hlen => by
      rw [List.map_cons, List.nodup_cons] at hnodup
      rw [List.length_cons] at hlen
      rw [List.map_cons, renumber_extend (hnums h hs List.suffix_rfl) (by omega), grow_cons]
      refine renumber_up ?_ hnodup.2 ?_
      · intro x above hx
        have hne : x.hash ≠ h.hash := fun he =>
          hnodup.1 (he ▸ List.mem_map_of_mem (hx.subset List.mem_cons_self))
        exact (OrdMap.find?_insert_ne hne).trans (hnums x above (hx.trans (List.suffix_cons h hs)))
      · rw [extend, List.length_append, List.length_singleton]
        omega

/-- Different keys of a map are at most as many as its entries. -/
theorem length_le_entries {blocks : OrdMap Blob BlockHeader} {hs : List BlockHeader}
    (hnodup : (hs.map BlockHeader.hash).Nodup)
    (hstored : ∀ h ∈ hs, blocks.find? h.hash = some h) : hs.length ≤ blocks.entries.length := by
  have hsub : hs.map BlockHeader.hash ⊆ blocks.entries.map Prod.fst := by
    intro k hk
    obtain ⟨h, hh, rfl⟩ := List.mem_map.mp hk
    exact List.mem_map.mpr ⟨(h.hash, h), OrdMap.mem_entries.mpr (hstored h hh), rfl⟩
  have hle := (hnodup.subperm hsub).length_le
  rwa [List.length_map, List.length_map] at hle

/-- What `addWithoutCalc` leaves of these headers on a chain without blocks. -/
structure Unnumbered (c : BlockChain) (hs : List BlockHeader) : Prop where
  hashes : c.hashes = [GENESIS_BLOCK_HASH]
  lastStateBlock : c.lastStateBlock = 0
  genesis : c.blocks.find? GENESIS_BLOCK_HASH = some genesisBlock
  stored : ∀ h ∈ hs, c.blocks.find? h.hash = some h
  others : ∀ k, k ≠ GENESIS_BLOCK_HASH → k ∉ hs.map BlockHeader.hash → c.blocks.find? k = none

/-- **Headers in any order become the chain again.** -/
theorem calcBlockchain_lineage {c : BlockChain} {hs : List BlockHeader} (hl : Lineage hs)
    (hc : Unnumbered c hs) :
    c.calcBlockchain (tip hs) = (.ok (some hs.length), new.grow hs) := by
  have htip : tip hs ≠ ∅ ∧ ∃ h, c.blocks.find? (tip hs) = some h := by
    rcases hl.descends.known with hg | hin
    · exact ⟨hg ▸ by decide, _, hg ▸ hc.genesis⟩
    · rw [List.map_reverse, List.mem_reverse] at hin
      obtain ⟨h, hh, hk⟩ := List.mem_map.mp hin
      exact ⟨hk ▸ hl.hashes h hh, h, hk ▸ hc.stored h hh⟩
  obtain ⟨hne', h, hh⟩ := htip
  have hnodup : (hs.reverse.map BlockHeader.hash).Nodup := by
    rw [List.map_reverse, List.nodup_reverse]
    exact hl.nodup
  have hgen : GENESIS_BLOCK_HASH ∉ hs.reverse.map BlockHeader.hash := by
    rw [List.map_reverse, List.mem_reverse]
    exact hl.genesis
  have hfuel : hs.reverse.length ≤ c.blocks.entries.length + 1 := by
    rw [List.length_reverse]
    exact Nat.le_succ_of_le (length_le_entries hl.nodup hc.stored)
  -- Down the lineage, where the headers are numbered from the tip,
  have hwalk := @walk_down _ _ _ 0 _ [] hl.descends
    (fun h hh => ⟨hc.stored h (List.mem_reverse.mp hh), hl.numbers h (List.mem_reverse.mp hh)⟩)
    hnodup hgen hc.genesis hfuel
  have hgenesis : deref (walkDown 0 hs.reverse c.blocks) GENESIS_BLOCK_HASH = genesisBlock :=
    deref_of_find ((find?_walkDown hgen).trans hc.genesis)
  rw [List.map_reverse, List.reverse_reverse, List.append_nil, List.length_reverse,
    Nat.zero_add] at hwalk
  -- and up again, where they are given their heights.
  have hup : renumber hs.length (hs.map BlockHeader.hash)
      { c with blocks := walkDown 0 hs.reverse c.blocks } = (some hs.length,
        BlockChain.grow { c with blocks := walkDown 0 hs.reverse c.blocks } hs) := by
    refine renumber_up ?_ hl.nodup ?_
    · rintro h above ⟨below, rfl⟩
      have hrev : (below ++ h :: above).reverse = above.reverse ++ h :: below.reverse := by simp
      rw [hrev] at hnodup ⊢
      rw [find?_walkDown_mid hnodup, List.length_reverse, Nat.zero_add]
    · rw [hc.hashes, List.length_singleton, Nat.add_comm]
  rw [calcBlockchain_stored hne' hh, hwalk]
  simp only [settle, hgenesis]
  have hzero : genesisBlock.blockNumber = some 0 := rfl
  simp only [hzero, Nat.add_zero, hup]
  refine congrArg _ (grow_congr hc.hashes hc.lastStateBlock ?_)
  intro k hk
  rw [find?_walkDown (by rwa [List.map_reverse, List.mem_reverse])]
  by_cases hkg : k = GENESIS_BLOCK_HASH
  · rw [hkg, hc.genesis]
    rfl
  · have hnew : new.blocks.find? k = none := OrdMap.find?_insert_ne hkg
    rw [hc.others k hkg hk, hnew]

/-! ## Blocks accepted one by one -/

/-- A chain grown out of a lineage. -/
structure Grown (c : BlockChain) (hs : List BlockHeader) : Prop where
  chain : c = new.grow hs
  lineage : Lineage hs
  represents : Represents c
  closed : Closed c

theorem grown_new : Grown new [] :=
  { chain := rfl, lineage := lineage_nil, represents := represents_new, closed := closed_new }

theorem Grown.length {c : BlockChain} {hs : List BlockHeader} (h : Grown c hs) :
    c.hashes.length = hs.length + 1 := by
  rw [h.chain, hashes_grow, List.length_append, List.length_map, Nat.add_comm]
  rfl

/-- The last block of the chain is the highest header. -/
theorem Grown.last {c : BlockChain} {hs : List BlockHeader} (h : Grown c hs) :
    c.getLastBlock.hash = tip hs := by
  obtain ⟨l, b, hl, -, hlast, hbl, -⟩ := h.represents.last
  rw [hlast, hbl]
  have hhashes : c.hashes = GENESIS_BLOCK_HASH :: hs.map BlockHeader.hash := by
    rw [h.chain, hashes_grow]
    rfl
  have hcount : c.countBlocks = hs.length := by rw [countBlocks, h.length, Nat.add_sub_cancel]
  rw [hhashes, hcount] at hl
  rcases List.eq_nil_or_concat hs with rfl | ⟨below, top, rfl⟩
  · exact (Option.some.inj hl).symm
  · rw [List.concat_eq_append] at hl ⊢
    rw [tip_concat]
    simp at hl
    exact hl.symm

/-- **An accepted block** goes on top, as long as the first one is a child of genesis. -/
theorem Grown.accept {c c' : BlockChain} {hs : List BlockHeader} {b : BlockHeader} {n : Nat}
    (h : Grown c hs) (hnum : b.blockNumber = none)
    (hfirst : c.countBlocks = 0 → b.prevHash = GENESIS_BLOCK_HASH)
    (hadd : c.addBlock b = (.ok (some n), c')) : Grown c' (hs ++ [b]) ∧ b.prevHash = tip hs := by
  have hhash : b.hash ≠ ∅ := by
    intro he
    rw [addBlock_empty he] at hadd
    cases hadd
  have hstep := represents_step h.represents h.closed
    ⟨hhash, hnum, fun hzero => .inl (hfirst hzero)⟩
  -- A block that is taken is new and continues the last one.
  obtain ⟨hnew, hprev, hn⟩ := (hstep.2 n).mp (by rw [hadd])
  have hprev' : b.prevHash ≠ ∅ := by
    intro he
    rw [addBlock_noParent hhash hnew hnum he] at hadd
    cases hadd
  have hlen : c.countBlocks + 1 = c.hashes.length := by
    rw [countBlocks, h.length, Nat.add_sub_cancel]
  obtain ⟨m, hpar, hm, -⟩ := parentHeight_closed h.represents h.closed hnew
  rw [addBlock_numbered hhash hnew hnum hprev' hpar, hm hprev, if_pos hlen] at hadd
  cases hadd
  rw [h.last] at hprev
  have hfresh : b.hash ∉ c.hashes := by
    intro hin
    obtain ⟨i, hi⟩ := List.mem_iff_getElem?.mp hin
    obtain ⟨x, hx, -⟩ := h.represents.stored i b.hash hi
    rw [hnew] at hx
    cases hx
  rw [h.chain, hashes_grow] at hfresh
  -- So the lineage with the block at its end is a lineage again.
  refine ⟨⟨?_, ⟨?_, ?_, ?_, ?_, ?_⟩, ?_, ?_⟩, hprev⟩
  · rw [grow_concat, ← h.chain, hlen]
  · intro x hx
    rcases List.mem_append.mp hx with hx | hx
    · exact h.lineage.numbers x hx
    · rwa [List.mem_singleton.mp hx]
  · intro x hx
    rcases List.mem_append.mp hx with hx | hx
    · exact h.lineage.hashes x hx
    · rwa [List.mem_singleton.mp hx]
  · rw [List.map_append, List.map_singleton]
    refine List.nodup_append.mpr ⟨h.lineage.nodup, List.nodup_singleton _, ?_⟩
    rintro x hx y hy rfl
    rw [List.mem_singleton.mp hy] at hx
    exact hfresh (List.mem_append_right _ hx)
  · rw [List.map_append, List.map_singleton, List.mem_append, List.mem_singleton]
    rintro (hg | hg)
    · exact h.lineage.genesis hg
    · exact hfresh (List.mem_append_left _ (hg ▸ List.mem_singleton_self _))
  · rw [tip_concat, List.reverse_concat]
    exact ⟨rfl, hprev', hprev ▸ h.lineage.descends⟩
  · have hrep := hstep.1.1
    rwa [addBlock_numbered hhash hnew hnum hprev' hpar, hm (hprev.trans h.last.symm),
      if_pos hlen] at hrep
  · have hclosed := hstep.1.2
    rwa [addBlock_numbered hhash hnew hnum hprev' hpar, hm (hprev.trans h.last.symm),
      if_pos hlen] at hclosed

end BlockChain

end TorrentNode
