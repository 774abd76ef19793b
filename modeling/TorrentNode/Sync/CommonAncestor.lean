import Mathlib.Logic.Function.Iterate
import TorrentNode.Chain.Representation
import TorrentNode.Sync.ConflictFiles

/-!
# Looking for the fork (`SyncImpl::findCommonAncestor`)

When a block does not fit on the chain, the node asks a server for its blocks from
the node's own height downwards, until one of them has a parent on the node's
chain. A block that is itself on the node's chain is asked for again.
-/

namespace TorrentNode

/-- A server's chain, the blocks with their dumps from genesis up. -/
structure ServerChain where
  blocks : List (BlockHeader × Blob)
  genesis : blocks[0]?.map (fun b => b.1.hash) = some BlockChain.GENESIS_BLOCK_HASH
  linked : ∀ (i : Nat) (b b' : BlockHeader × Blob), blocks[i]? = some b → blocks[i + 1]? = some b' →
    b'.1.prevHash = b.1.hash
  hashed : ∀ b ∈ blocks, b.1.hash ≠ ∅

namespace ServerChain

/-- `getExistingBlock(bh, bi, blockDump)`, answered from the server's chain. -/
def getExistingBlock (srv : ServerChain) (bh : BlockHeader) : Except Err (BlockHeader × Blob) :=
  match bh.blockNumber with
  | none => .error (.exception "Block number not set")
  | some n =>
    match srv.blocks[n]? with
    | none => .error (.exception ("block " ++ toString n ++ " not found"))
    | some (header, dump) =>
      .ok ({ header.withNumber (some n) with
             filePos := { header.filePos with
               fileNameRelative := bh.filePos.fileNameRelative
               pos := bh.filePos.pos } }, dump)

theorem getExistingBlock_ok (srv : ServerChain) {bh : BlockHeader} {n : Nat}
    {b : BlockHeader × Blob} (hn : bh.blockNumber = some n) (hb : srv.blocks[n]? = some b) :
    ∃ bi dump, srv.getExistingBlock bh = .ok (bi, dump) ∧ bi.hash = b.1.hash ∧
      bi.prevHash = b.1.prevHash := by
  simp only [getExistingBlock, hn, hb]
  exact ⟨_, _, rfl, rfl, rfl⟩

end ServerChain

namespace SyncImpl

/-- Where the loop of `findCommonAncestor` is. -/
inductive Search where
  /-- About to ask for the block with this number. -/
  | asking (currentBlockNum : Nat)
  | found (currentBlockNum : Nat) (bi : BlockHeader) (blockDump : Blob)
  | failed (e : Err)
  deriving DecidableEq

/-- A round of the loop with the answer to `getExistingBlock`. -/
def searchAnswer (c : BlockChain) (currentBlockNum : Nat) (bi : BlockHeader) (blockDump : Blob) :
    Except Err Search := do
  let same ← c.getBlock bi.hash
  if same.blockNumber.isSome then pure (.asking currentBlockNum)
  else
    let parent ← c.getBlock bi.prevHash
    if parent.blockNumber.isSome then pure (.found currentBlockNum bi blockDump)
    -- a `size_t`
    else pure (.asking (if currentBlockNum = 0 then 2 ^ 64 - 1 else currentBlockNum - 1))

/-- A round of the loop. -/
def searchRound (c : BlockChain) (srv : ServerChain) : Search → Search
  | .asking currentBlockNum =>
    match srv.getExistingBlock (c.getBlockByNumber currentBlockNum) with
    | .error e => .failed e
    | .ok (bi, blockDump) =>
      match searchAnswer c currentBlockNum bi blockDump with
      | .error e => .failed e
      | .ok s => s
  | s => s

/-- The loop after so many rounds. -/
def search (c : BlockChain) (srv : ServerChain) (rounds : Nat) : Search :=
  (searchRound c srv)^[rounds] (.asking c.countBlocks)

/-- What a server answers to the question for a block by its number; `none` is no answer. -/
abbrev Broadcast : Type := List (Option Blob)

/-- `findCommonAncestor` behind the loop: whether more servers have their block than ours. -/
def vote (c : BlockChain) (answers : Nat → Broadcast) (currentBlockNum : Nat) (bi : BlockHeader)
    (blockDump : Blob) : Option ConflictBlocksInfo :=
  let bh := c.getBlockByNumber currentBlockNum
  let results := (answers currentBlockNum).filterMap id
  let countHashServers := results.countP (fun hash => hash = bi.hash)
  let countHashOur := results.countP (fun hash => hash ≠ bi.hash && hash = bh.hash)
  if countHashServers > countHashOur then
    some { ourConflictedBlock := bh, serverConflictedBlock := bi, blockDump }
  else none

/-- `findCommonAncestor()`, if so many rounds of its loop are enough. -/
def findCommonAncestor (c : BlockChain) (srv : ServerChain) (answers : Nat → Broadcast)
    (rounds : Nat) : Option (Except Err (Option ConflictBlocksInfo)) :=
  match search c srv rounds with
  | .asking _ => none
  | .failed e => some (.error e)
  | .found currentBlockNum bi blockDump => some (.ok (vote c answers currentBlockNum bi blockDump))

/-- The chains have different blocks at this height. -/
def Differ (c : BlockChain) (srv : ServerChain) (i : Nat) : Prop :=
  srv.blocks[i]?.map (fun b => b.1.hash) ≠ c.hashes[i]?

instance (c : BlockChain) (srv : ServerChain) (i : Nat) : Decidable (Differ c srv i) := by
  unfold Differ; infer_instance

/--
Hashes tell blocks apart: a block's hash is taken over its parent's hash too, and
no block has the hash that stands for genesis.
-/
structure NoCollision (c : BlockChain) (srv : ServerChain) : Prop where
  parent : ∀ (i j : Nat) (b : BlockHeader × Blob) (h : Blob), 0 < i → 0 < j →
    srv.blocks[i]? = some b → c.hashes[j]? = some h → b.1.hash = h →
    b.1.prevHash = (BlockChain.deref c.blocks h).prevHash
  genesis : ∀ (i : Nat) (b : BlockHeader × Blob), 0 < i → srv.blocks[i]? = some b →
    b.1.hash ≠ BlockChain.GENESIS_BLOCK_HASH

/-- The search ends, does not ask for genesis, and where the chains differ ends at the fork. -/
structure FindsFork (c : BlockChain) (srv : ServerChain) : Prop where
  ends : ∃ rounds currentBlockNum bi blockDump,
    search c srv rounds = .found currentBlockNum bi blockDump
  positive : ∀ rounds, search c srv rounds ≠ .asking 0
  lowest : (∃ i, i ≤ c.countBlocks ∧ Differ c srv i) →
    ∀ rounds currentBlockNum bi blockDump,
      search c srv rounds = .found currentBlockNum bi blockDump →
      currentBlockNum ≤ c.countBlocks ∧ Differ c srv currentBlockNum ∧
        ∀ i, i < currentBlockNum → ¬ Differ c srv i

variable {c : BlockChain} {srv : ServerChain}

open BlockChain

/-- A header has a number exactly when it is on the chain. -/
theorem isSome_blockNumber_iff (hrep : Represents c) (hclosed : Closed c) {k : Blob} :
    (deref c.blocks k).blockNumber.isSome = true ↔ ∃ j : Nat, c.hashes[j]? = some k := by
  constructor
  · intro h
    cases hf : c.blocks.find? k with
    | none => rw [deref, hf] at h; exact absurd h (by decide)
    | some b =>
        obtain ⟨-, j, hj, -⟩ := hclosed k b hf
        exact ⟨j, hj⟩
  · rintro ⟨j, hj⟩
    obtain ⟨b, hb, -, hn⟩ := hrep.stored j k hj
    rw [deref_of_find hb, hn]
    rfl

/-- A block of the server that is on the chain is there at the same height. -/
theorem same_height (hrep : Represents c) (hcol : NoCollision c srv) :
    ∀ (i j : Nat) (b : BlockHeader × Blob), srv.blocks[i]? = some b →
      c.hashes[j]? = some b.1.hash → i = j
  | 0, j, b, hb, hj => by
      have hgen := srv.genesis
      rw [hb] at hgen
      have hhash : b.1.hash = GENESIS_BLOCK_HASH := Option.some.inj hgen
      rw [hhash] at hj
      -- genesis is stored once, with one number
      obtain ⟨p, hp, -, hn⟩ := hrep.stored j _ hj
      obtain ⟨q, hq, -, hm⟩ := hrep.stored 0 _ hrep.genesis
      obtain rfl := Option.some.inj (hp.symm.trans hq)
      exact Option.some.inj (hm.symm.trans hn)
  | i + 1, 0, b, hb, hj =>
      absurd (Option.some.inj (hj.symm.trans hrep.genesis)) (hcol.genesis _ _ (Nat.succ_pos i) hb)
  | i + 1, j + 1, b, hb, hj => by
      have hi := (List.getElem?_eq_some_iff.mp hb).1
      have hj' := (List.getElem?_eq_some_iff.mp hj).1
      have hpar := hcol.parent _ _ b _ (Nat.succ_pos i) (Nat.succ_pos j) hb hj rfl
      have hb' : srv.blocks[i]? = some srv.blocks[i] := List.getElem?_eq_getElem (by omega)
      have hh' : c.hashes[j]? = some c.hashes[j] := List.getElem?_eq_getElem (by omega)
      rw [hrep.linked j _ _ hh' hj, srv.linked i _ _ hb' hb] at hpar
      have ih := same_height hrep hcol i j srv.blocks[i] hb' (by rw [hpar]; exact hh')
      omega

/-- The block at a height is ours exactly when the chains do not differ there. -/
theorem not_differ_iff (hrep : Represents c) (hcol : NoCollision c srv) {i : Nat}
    {b : BlockHeader × Blob} (hb : srv.blocks[i]? = some b) :
    ¬ Differ c srv i ↔ ∃ j : Nat, c.hashes[j]? = some b.1.hash := by
  unfold Differ
  rw [hb, Option.map_some, Ne, Classical.not_not]
  constructor
  · intro h; exact ⟨i, h.symm⟩
  · rintro ⟨j, hj⟩
    obtain rfl := same_height hrep hcol i j b hb hj
    exact hj.symm

theorem not_differ_zero (hrep : Represents c) : ¬ Differ c srv 0 := by
  unfold Differ
  rw [srv.genesis, hrep.genesis]
  simp

/-- Chains that agree at a height agree below it. -/
theorem not_differ_pred (hrep : Represents c) (hcol : NoCollision c srv) {i : Nat}
    (hi : i + 1 < c.hashes.length) (h : ¬ Differ c srv (i + 1)) : ¬ Differ c srv i := by
  unfold Differ at h ⊢
  rw [Ne, Classical.not_not] at h ⊢
  have hj : c.hashes[i + 1]? = some c.hashes[i + 1] := List.getElem?_eq_getElem hi
  rw [hj] at h
  obtain ⟨b, hb, hbh⟩ := Option.map_eq_some_iff.mp h
  have hlen := (List.getElem?_eq_some_iff.mp hb).1
  have hb' : srv.blocks[i]? = some srv.blocks[i] := List.getElem?_eq_getElem (by omega)
  have hj' : c.hashes[i]? = some c.hashes[i] := List.getElem?_eq_getElem (by omega)
  have hpar := hcol.parent _ _ b _ (Nat.succ_pos i) (Nat.succ_pos i) hb hj hbh
  rw [hrep.linked i _ _ hj' hj, srv.linked i _ _ hb' hb] at hpar
  rw [hb', hj', Option.map_some, hpar]

theorem not_differ_below (hrep : Represents c) (hcol : NoCollision c srv) {i : Nat}
    (hi : i < c.hashes.length) (h : ¬ Differ c srv i) : ∀ j, j ≤ i → ¬ Differ c srv j := by
  induction i with
  | zero =>
      intro j hj
      obtain rfl : j = 0 := by omega
      exact h
  | succ i ih =>
      intro j hj
      rcases Nat.lt_or_ge j (i + 1) with hlt | hge
      · exact ih (by omega) (not_differ_pred hrep hcol hi h) j (by omega)
      · obtain rfl : j = i + 1 := by omega
        exact h

/-- The chain at hand and what a server with a chain at least as long answers. -/
structure Asked (c : BlockChain) (srv : ServerChain) : Prop where
  represents : Represents c
  closed : Closed c
  longer : c.hashes.length ≤ srv.blocks.length
  collision : NoCollision c srv

/-- **A round of the search**: what it does depends on where the chains differ. -/
theorem searchRound_asking (h : Asked c srv) {k : Nat} (hpos : 0 < k) (hk : k ≤ c.countBlocks) :
    (¬ Differ c srv k → searchRound c srv (.asking k) = .asking k) ∧
    (Differ c srv k → ¬ Differ c srv (k - 1) →
      ∃ bi dump, searchRound c srv (.asking k) = .found k bi dump) ∧
    (Differ c srv k → Differ c srv (k - 1) → searchRound c srv (.asking k) = .asking (k - 1)) := by
  have hlen : k < c.hashes.length := by
    have := h.represents.length_pos
    unfold countBlocks at hk
    omega
  have hsrv : k < srv.blocks.length := Nat.lt_of_lt_of_le hlen h.longer
  have hb : srv.blocks[k]? = some srv.blocks[k] := List.getElem?_eq_getElem hsrv
  have hp : srv.blocks[k - 1]? = some srv.blocks[k - 1] := List.getElem?_eq_getElem (by omega)
  have hc : c.hashes[k]? = some c.hashes[k] := List.getElem?_eq_getElem hlen
  obtain ⟨own, hown, -, hnum⟩ := h.represents.stored k _ hc
  have hblock : c.getBlockByNumber k = own := by
    rw [getBlockByNumber, hc]
    exact deref_of_find hown
  have hlink : srv.blocks[k].1.prevHash = srv.blocks[k - 1].1.hash :=
    srv.linked (k - 1) _ _ hp (by rw [show k - 1 + 1 = k by omega]; exact hb)
  have hne : srv.blocks[k].1.hash.isEmpty = false :=
    Blob.isEmpty_eq_false.mpr (srv.hashed _ (List.mem_of_getElem? hb))
  have hne' : srv.blocks[k - 1].1.hash.isEmpty = false :=
    Blob.isEmpty_eq_false.mpr (srv.hashed _ (List.mem_of_getElem? hp))
  -- A block has a number here if and only if both chains have it at this height.
  have hsame := (isSome_blockNumber_iff h.represents h.closed).trans
    (not_differ_iff h.represents h.collision hb).symm
  have hparent := (isSome_blockNumber_iff h.represents h.closed).trans
    (not_differ_iff h.represents h.collision hp).symm
  obtain ⟨bi, dump, hget, hhash, hprev⟩ := srv.getExistingBlock_ok hnum hb
  rw [hlink] at hprev
  -- So the round looks whether the chains differ at `k`, and whether at the height below.
  have hround : searchRound c srv (.asking k) =
      if (deref c.blocks srv.blocks[k].1.hash).blockNumber.isSome then .asking k
      else if (deref c.blocks srv.blocks[k - 1].1.hash).blockNumber.isSome then .found k bi dump
      else .asking (k - 1) := by
    have hanswer : searchAnswer c k bi dump = .ok
        (if (deref c.blocks srv.blocks[k].1.hash).blockNumber.isSome then .asking k
        else if (deref c.blocks srv.blocks[k - 1].1.hash).blockNumber.isSome then .found k bi dump
        else .asking (k - 1)) := by
      rw [searchAnswer, getBlock, getBlock, hhash, hprev, hne, hne',
        if_neg (Nat.pos_iff_ne_zero.mp hpos)]
      show (if (deref c.blocks srv.blocks[k].1.hash).blockNumber.isSome = true then
          Except.ok (Search.asking k)
        else if (deref c.blocks srv.blocks[k - 1].1.hash).blockNumber.isSome = true then
          Except.ok (Search.found k bi dump)
        else Except.ok (Search.asking (k - 1))) = _
      split
      · rfl
      · split <;> rfl
    simp only [searchRound, hblock, hget, hanswer]
  refine ⟨fun hd => ?_, fun hd hd' => ⟨bi, dump, ?_⟩, fun hd hd' => ?_⟩
  · rw [hround, if_pos (hsame.mpr hd)]
  · rw [hround, if_neg (fun he => hsame.mp he hd), if_pos (hparent.mpr hd')]
  · rw [hround, if_neg (fun he => hsame.mp he hd), if_neg (fun he => hparent.mp he hd')]

theorem search_succ (c : BlockChain) (srv : ServerChain) (rounds : Nat) :
    search c srv (rounds + 1) = searchRound c srv (search c srv rounds) :=
  Function.iterate_succ_apply' _ _ _

/-- While the server's block at our height is ours, the search does not get anywhere. -/
theorem search_stays (h : Asked c srv) (hn : 0 < c.countBlocks)
    (hsame : ¬ Differ c srv c.countBlocks) : ∀ rounds, search c srv rounds = .asking c.countBlocks
  | 0 => rfl
  | rounds + 1 => by
      rw [search_succ, search_stays h hn hsame rounds]
      exact (searchRound_asking h hn (Nat.le_refl _)).1 hsame

/-- Down from our height, the search goes on to the lowest height at which the chains differ. -/
theorem search_descends (h : Asked c srv) {f : Nat} (hf : 0 < f)
    (hdiffer : ∀ i, f ≤ i → i ≤ c.countBlocks → Differ c srv i) :
    ∀ rounds, rounds + f ≤ c.countBlocks → search c srv rounds = .asking (c.countBlocks - rounds)
  | 0, _ => rfl
  | rounds + 1, hle => by
      rw [search_succ, search_descends h hf hdiffer rounds (by omega)]
      have hround := (searchRound_asking h (k := c.countBlocks - rounds) (by omega) (by omega)).2.2
      rw [hround (hdiffer _ (by omega) (by omega)) (hdiffer _ (by omega) (by omega)), Nat.sub_sub]

/-- What is found stays found. -/
theorem search_found {rounds k : Nat} {bi : BlockHeader} {dump : Blob}
    (h : search c srv rounds = .found k bi dump) :
    ∀ more, search c srv (rounds + more) = .found k bi dump
  | 0 => h
  | more + 1 => by
      rw [← Nat.add_assoc, search_succ, search_found h more]
      rfl

/-- The lowest height at which the chains differ, when they differ at ours. -/
theorem exists_fork (h : Asked c srv) (hdiff : Differ c srv c.countBlocks) :
    ∃ f, 0 < f ∧ f ≤ c.countBlocks ∧ Differ c srv f ∧ (∀ i, i < f → ¬ Differ c srv i) ∧
      ∀ i, f ≤ i → i ≤ c.countBlocks → Differ c srv i := by
  have hex : ∃ i, Differ c srv i := ⟨_, hdiff⟩
  have hfirst := Nat.find_spec hex
  have hmin : ∀ i, i < Nat.find hex → ¬ Differ c srv i := fun i hi => Nat.find_min hex hi
  have hpos : 0 < Nat.find hex := by
    rcases Nat.eq_zero_or_pos (Nat.find hex) with hz | hpos
    · rw [hz] at hfirst
      exact absurd hfirst (not_differ_zero h.represents)
    · exact hpos
  refine ⟨Nat.find hex, hpos, Nat.find_min' hex hdiff, hfirst, hmin, fun i hi hn => ?_⟩
  by_contra hsame
  have hlen : i < c.hashes.length := by
    have := h.represents.length_pos
    unfold countBlocks at hn
    omega
  exact not_differ_below h.represents h.collision hlen hsame _ hi hfirst

/-- Where the server's block at our height is another than ours, the search finds the fork. -/
theorem findsFork_of_differ (h : Asked c srv) (hdiff : Differ c srv c.countBlocks) :
    FindsFork c srv := by
  obtain ⟨f, hf, hfn, hdf, hbelow, habove⟩ := exists_fork h hdiff
  have hdown := search_descends h hf habove
  obtain ⟨bi, dump, hround⟩ :=
    (searchRound_asking h hf hfn).2.1 hdf (hbelow (f - 1) (by omega))
  have hlast : search c srv (c.countBlocks - f + 1) = .found f bi dump := by
    rw [search_succ, hdown _ (by omega), Nat.sub_sub_self hfn]
    exact hround
  -- every state of the search is one of those on the way down, or the fork
  have hall : ∀ rounds, search c srv rounds = .found f bi dump ∨
      rounds + f ≤ c.countBlocks ∧ search c srv rounds = .asking (c.countBlocks - rounds) := by
    intro rounds
    rcases Nat.lt_or_ge c.countBlocks (rounds + f) with hlt | hle
    · left
      have hmore := search_found hlast (rounds - (c.countBlocks - f + 1))
      rwa [Nat.add_sub_cancel' (by omega)] at hmore
    · exact Or.inr ⟨hle, hdown rounds hle⟩
  refine ⟨⟨_, f, bi, dump, hlast⟩, fun rounds hzero => ?_, fun _ rounds k bi' dump' hfound => ?_⟩
  · rcases hall rounds with hr | ⟨hle, hr⟩
    · rw [hr] at hzero; exact absurd hzero (by simp)
    · rw [hr, Search.asking.injEq] at hzero
      omega
  · rcases hall rounds with hr | ⟨hle, hr⟩
    · rw [hr] at hfound
      cases hfound
      exact ⟨hfn, hdf, hbelow⟩
    · rw [hr] at hfound; exact absurd hfound (by simp)

/-- **A conflict is over our block at the fork**, the lowest height where the chains differ. -/
theorem conflict_at_fork (h : Asked c srv) (hn : 1 ≤ c.countBlocks) {answers : Nat → Broadcast}
    {rounds : Nat} {info : ConflictBlocksInfo}
    (hconf : findCommonAncestor c srv answers rounds = some (.ok (some info))) :
    ∃ f, Differ c srv f ∧ (∀ i, i < f → ¬ Differ c srv i) ∧
      info.ourConflictedBlock = c.getBlockByNumber f := by
  have hdiff : Differ c srv c.countBlocks := by
    by_contra hsame
    rw [findCommonAncestor, search_stays h hn hsame rounds] at hconf
    simp at hconf
  cases hs : search c srv rounds with
  | asking k => rw [findCommonAncestor, hs] at hconf; simp at hconf
  | failed e => rw [findCommonAncestor, hs] at hconf; simp at hconf
  | found k bi dump =>
      rw [findCommonAncestor, hs] at hconf
      simp only [Option.some.injEq, Except.ok.injEq] at hconf
      obtain ⟨-, hdf, hbelow⟩ := (findsFork_of_differ h hdiff).lowest ⟨_, Nat.le_refl _, hdiff⟩
        rounds k bi dump hs
      refine ⟨k, hdf, hbelow, ?_⟩
      rw [vote] at hconf
      split at hconf
      · rw [← Option.some.inj hconf]
      · simp at hconf

/--
**The search finds the fork exactly when the server's block at our height is another
than ours.** When it is ours, the loop asks for it without end.
-/
theorem findsFork_iff (h : Asked c srv) (hn : 1 ≤ c.countBlocks) :
    FindsFork c srv ↔ Differ c srv c.countBlocks := by
  refine ⟨fun hfinds => ?_, findsFork_of_differ h⟩
  by_contra hsame
  obtain ⟨rounds, k, bi, dump, hfound⟩ := hfinds.ends
  rw [search_stays h hn hsame rounds] at hfound
  exact absurd hfound (by simp)

/-- No block of the server's has the hash of genesis, and those that are in both chains have one
parent. -/
theorem noCollision_of_tail
    (hparent : ∀ b ∈ srv.blocks.tail, ∀ h ∈ c.hashes.tail, b.1.hash = h →
      b.1.prevHash = (BlockChain.deref c.blocks h).prevHash)
    (hgenesis : ∀ b ∈ srv.blocks.tail, b.1.hash ≠ BlockChain.GENESIS_BLOCK_HASH) :
    NoCollision c srv where
  parent
    | i + 1, j + 1, b, h, _, _, hb, hh, heq => by
        rw [← List.getElem?_tail] at hb hh
        exact hparent b (List.mem_of_getElem? hb) h (List.mem_of_getElem? hh) heq
  genesis
    | i + 1, b, _, hb => by
        rw [← List.getElem?_tail] at hb
        exact hgenesis b (List.mem_of_getElem? hb)

/-- Three blocks on genesis, each on the one before it. -/
def threeBlocks : BlockChain :=
  (((new.addBlock (simpleHeader 1 0)).2.addBlock (simpleHeader 2 1)).2.addBlock
    (simpleHeader 3 2)).2

theorem run_threeBlocks : Represents threeBlocks ∧ Closed threeBlocks :=
  run_offered (Run.add
    (Run.add
      (Run.add Run.new ⟨by decide, rfl, fun _ => Or.inl (by decide)⟩)
      ⟨by decide, rfl, fun hz => absurd hz (by decide)⟩)
    ⟨by decide, rfl, fun hz => absurd hz (by decide)⟩)

/-- The chain of a server, of blocks with these hashes and the hashes of their parents. -/
def serverBlocks (blocks : List (UInt8 × UInt8)) : List (BlockHeader × Blob) :=
  (genesisBlock, ∅) :: blocks.map (fun b => (simpleHeader b.1 b.2, ∅))

/-- A server that has the first block too, and three others on it. -/
def forkedServer : ServerChain where
  blocks := serverBlocks [(1, 0), (12, 1), (13, 12), (14, 13)]
  genesis := rfl
  linked i b b' hb hb' := by
    match i with
    | 0 | 1 | 2 | 3 => cases hb; cases hb'; rfl
    | i + 4 => simp [serverBlocks] at hb'
  hashed := by decide

theorem asked_forkedServer : Asked threeBlocks forkedServer :=
  ⟨run_threeBlocks.1, run_threeBlocks.2, by decide, noCollision_of_tail (by decide) (by decide)⟩

/-- The chains part at height two, one below the top. -/
theorem findsFork_iff_forked : FindsFork threeBlocks forkedServer ∧
    ∃ bi dump, search threeBlocks forkedServer 2 = .found 2 bi dump :=
  ⟨(findsFork_iff asked_forkedServer (by decide)).mpr (by decide), _, _, rfl⟩

/-- A server that has the same blocks. -/
def sameServer : ServerChain where
  blocks := serverBlocks [(1, 0), (2, 1), (3, 2)]
  genesis := rfl
  linked i b b' hb hb' := by
    match i with
    | 0 | 1 | 2 => cases hb; cases hb'; rfl
    | i + 3 => simp [serverBlocks] at hb'
  hashed := by decide

theorem asked_sameServer : Asked threeBlocks sameServer :=
  ⟨run_threeBlocks.1, run_threeBlocks.2, by decide, noCollision_of_tail (by decide) (by decide)⟩

/-- A server whose block at our height is ours is asked for it for ever. -/
theorem search_endless :
    ¬ ∀ (c : BlockChain) (srv : ServerChain), Asked c srv → 1 ≤ c.countBlocks →
      FindsFork c srv := by
  intro h
  obtain ⟨rounds, k, bi, dump, hfound⟩ := (h _ _ asked_sameServer (by decide)).ends
  rw [search_stays asked_sameServer (by decide) (by decide) rounds] at hfound
  exact absurd hfound (by simp)

end SyncImpl

end TorrentNode
