import TorrentNode.Chain.Regrown
import TorrentNode.Lib.OrdSet
import TorrentNode.Sync.Persistence

/-!
# A node that starts again

The database keeps the headers without their heights, and the hash of the last
one. `initialize` puts the headers into an empty chain in the order of their
bytes and numbers them from the last one down.
-/

namespace TorrentNode

/-! ## What `initialize` reads -/

/-- The headers go into the chain without heights. -/
def loadBlocks : BlockChain → List Blob → Except Err BlockChain
  | blockchain, [] => .ok blockchain
  | blockchain, blockRaw :: blocksRaw => do
    let bh ← BlockHeader.deserialize blockRaw
    let _ ← (blockchain.addWithoutCalc bh).1
    loadBlocks (blockchain.addWithoutCalc bh).2 blocksRaw

/-- The part of `initialize()` that fills the chain. -/
def initializeChain (leveldb : LevelDb) (blockchain : BlockChain) : Except Err BlockChain := do
  let metadata ← leveldb.findBlockMetadata
  let blocksRaw ← leveldb.getAllBlocks
  let blockchain ← loadBlocks blockchain.clear blocksRaw
  if metadata.blockHash.isEmpty then pure blockchain else
    match blockchain.calcBlockchain metadata.blockHash with
    | (.error e, _) => .error e
    | (.ok none, _) => .error (.std "bad_optional_access")
    | (.ok (some _), blockchain) => pure blockchain

/-! ## The headers in the database -/

/-- The key of a block's header. -/
def blockKey (blockHash : Blob) : Bytes := ascii BLOCK_PREFIX.toList ++ blockHash.val

theorem blockKey_inj {a b : Blob} (h : blockKey a = blockKey b) : a = b :=
  Subtype.ext (List.append_cancel_left h)

namespace LevelDb

/-- `getAllBlocks` finds the values under the headers' keys, in some order. -/
theorem getAllBlocks_eq (db : LevelDb) :
    ∃ raws, db.getAllBlocks = .ok raws ∧
      ∀ raw, raw ∈ raws ↔ ∃ k, ascii BLOCK_PREFIX.toList <+: k ∧ db.find? k = some raw := by
  have hscan : db.findKeyInternal (ascii "b_".toList) (ascii "b`".toList) 0 0 (fun e => .ok e.2) =
      .ok ((db.under (ascii BLOCK_PREFIX.toList)).map Prod.snd) :=
    findKeyInternal_under (p := ascii "b".toList) (c := 95) (d := 96) Prod.snd rfl db
  refine ⟨OrdSet.toList (OrdSet.ofList ((db.under (ascii BLOCK_PREFIX.toList)).map Prod.snd)),
    bind_eq_ok.mpr ⟨_, hscan, rfl⟩, ?_⟩
  intro raw
  rw [OrdSet.mem_toList_ofList]
  constructor
  · intro h
    obtain ⟨e, he, rfl⟩ := List.mem_map.mp h
    obtain ⟨hpre, hfind⟩ := OrdMap.mem_under.mp he
    exact ⟨e.1, hpre, hfind⟩
  · rintro ⟨k, hpre, hfind⟩
    exact List.mem_map.mpr ⟨(k, raw), OrdMap.mem_under.mpr ⟨hpre, hfind⟩, rfl⟩

end LevelDb

namespace BlocksMetadata

theorem deserialize_serialize {m : BlocksMetadata} {raw : Blob} (h : m.serialize = .ok raw.val) :
    deserialize raw = .ok m := by
  unfold serialize at h
  obtain ⟨-, h⟩ := check_bind_eq_ok.mp h
  obtain ⟨-, h⟩ := check_bind_eq_ok.mp h
  have hraw : raw.val = serializeString m.blockHash ++ serializeString m.prevBlockHash :=
    (Except.ok.inj h).symm
  have hne : raw.isEmpty = false := by
    rw [Blob.isEmpty_eq_false]
    rintro rfl
    have hlen := congrArg List.length hraw
    rw [List.length_append, length_serializeString] at hlen
    have hzero : (∅ : Blob).val.length = 0 := rfl
    unfold sizeofSizeT at hlen
    omega
  rw [deserialize, hne]
  refine deserializeAll_of_reads ?_
  rw [hraw]
  exact (reads_string m.blockHash).bind (reads_string m.prevBlockHash).map

end BlocksMetadata

/-- The metadata of a chain with these headers. -/
def metadataOf (hs : List BlockHeader) : BlocksMetadata :=
  match hs.getLast? with
  | none => default
  | some h => { blockHash := h.hash, prevBlockHash := h.prevHash }

/-- The database holds these headers, and which of them is the last. -/
structure HasBlocks (db : LevelDb) (hs : List BlockHeader) : Prop where
  saved : ∀ h ∈ hs, ∃ raw : Blob, h.serialize = .ok raw.val ∧ db.find? (blockKey h.hash) = some raw
  only : ∀ (k : Bytes) (raw : Blob), ascii BLOCK_PREFIX.toList <+: k → db.find? k = some raw →
    ∃ h ∈ hs, h.serialize = .ok raw.val
  metadata : db.findBlockMetadata = .ok (metadataOf hs)

theorem hasBlocks_empty : HasBlocks ∅ [] :=
  { saved := fun _ h => absurd h List.not_mem_nil
    only := fun _ _ _ h => absurd h (by simp)
    metadata := rfl }

theorem HasBlocks.congr {db db' : LevelDb} {hs : List BlockHeader} (h : HasBlocks db hs)
    (hblocks : ∀ k, ascii BLOCK_PREFIX.toList <+: k → db'.find? k = db.find? k)
    (hmeta : db'.find? KEY_BLOCK_METADATA = db.find? KEY_BLOCK_METADATA) : HasBlocks db' hs := by
  refine ⟨?_, ?_, ?_⟩
  · intro b hb
    rw [hblocks (blockKey b.hash) (List.prefix_append _ _)]
    exact h.saved b hb
  · intro k raw hk
    rw [hblocks k hk]
    exact h.only k raw hk
  · rw [← h.metadata, LevelDb.findBlockMetadata, LevelDb.findBlockMetadata,
      LevelDb.findOneValueWithoutCheckValue, LevelDb.findOneValueWithoutCheckValue,
      LevelDb.findOneValueInternal, LevelDb.findOneValueInternal, hmeta]

/-- **The headers come back without heights.** -/
theorem loadBlocks_of {hs : List BlockHeader} (hl : BlockChain.Lineage hs) :
    ∀ {raws : List Blob} {c : BlockChain}, (∀ raw ∈ raws, ∃ h ∈ hs, h.serialize = .ok raw.val) →
      (∀ h ∈ hs, c.blocks.find? h.hash = none ∨ c.blocks.find? h.hash = some h) →
      ∃ c', loadBlocks c raws = .ok c' ∧ c'.hashes = c.hashes ∧
        c'.lastStateBlock = c.lastStateBlock ∧
        (∀ k, k ∉ hs.map BlockHeader.hash → c'.blocks.find? k = c.blocks.find? k) ∧
        ∀ h ∈ hs, (c.blocks.find? h.hash = some h ∨ ∃ raw ∈ raws, h.serialize = .ok raw.val) →
          c'.blocks.find? h.hash = some h
  | [], c, _, _ => by
      refine ⟨c, rfl, rfl, rfl, fun _ _ => rfl, ?_⟩
      rintro h _ (hh | ⟨_, hraw, _⟩)
      · exact hh
      · exact absurd hraw List.not_mem_nil
  | raw :: raws, c, hraws, hc => by
      obtain ⟨b, hb, hser⟩ := hraws raw List.mem_cons_self
      have hread : BlockHeader.deserialize raw = .ok b := by
        rw [BlockHeader.deserialize_serialize hser, BlockHeader.withNumber_self (hl.numbers b hb)]
      -- A header is new, or it is there already as it is.
      have hadd : (∃ r, (c.addWithoutCalc b).1 = .ok r) ∧
          (c.addWithoutCalc b).2.hashes = c.hashes ∧
          (c.addWithoutCalc b).2.lastStateBlock = c.lastStateBlock ∧
          ∀ k, (c.addWithoutCalc b).2.blocks.find? k =
            if k = b.hash then some b else c.blocks.find? k := by
        unfold BlockChain.addWithoutCalc
        rw [Blob.isEmpty_eq_false.mpr (hl.hashes b hb)]
        rcases hc b hb with hnone | hsome
        · rw [hnone]
          refine ⟨⟨_, rfl⟩, rfl, rfl, fun k => ?_⟩
          by_cases hk : k = b.hash
          · rw [if_pos hk, hk]
            exact OrdMap.find?_insert_self
          · rw [if_neg hk]
            exact OrdMap.find?_insert_ne hk
        · rw [hsome]
          refine ⟨⟨_, rfl⟩, rfl, rfl, fun k => ?_⟩
          by_cases hk : k = b.hash
          · rw [if_pos hk, hk]
            exact hsome
          · rw [if_neg hk]
            rfl
      obtain ⟨⟨r, hr⟩, hhashes, hlast, hfind⟩ := hadd
      have hsame : ∀ h ∈ hs, h.hash = b.hash → h = b := fun h hh he =>
        List.inj_on_of_nodup_map hl.nodup hh hb he
      have hstep : ∀ h ∈ hs, (c.addWithoutCalc b).2.blocks.find? h.hash = none ∨
          (c.addWithoutCalc b).2.blocks.find? h.hash = some h := by
        intro h hh
        rw [hfind]
        by_cases he : h.hash = b.hash
        · rw [if_pos he, hsame h hh he]
          exact .inr rfl
        · rw [if_neg he]
          exact hc h hh
      -- By induction the other records are loaded behind it.
      obtain ⟨c', hload, hh', hl', hothers, hin⟩ := loadBlocks_of hl
        (fun raw hraw => hraws raw (List.mem_cons_of_mem _ hraw)) hstep
      refine ⟨c', bind_eq_ok.mpr ⟨b, hread, bind_eq_ok.mpr ⟨r, hr, hload⟩⟩, hh'.trans hhashes,
        hl'.trans hlast, ?_, ?_⟩
      · intro k hk
        have hkb : k ≠ b.hash := fun he => hk (he ▸ List.mem_map_of_mem hb)
        rw [hothers k hk, hfind, if_neg hkb]
      · intro h hh hknown
        refine hin h hh ?_
        rw [hfind]
        by_cases he : h.hash = b.hash
        · rw [if_pos he, hsame h hh he]
          exact .inl rfl
        · rw [if_neg he]
          rcases hknown with hknown | ⟨raw', hraw', hser'⟩
          · exact .inl hknown
          · rcases List.mem_cons.mp hraw' with rfl | hraw'
            · -- one record holds one header
              have hread' := BlockHeader.deserialize_serialize hser'
              rw [BlockHeader.withNumber_self (hl.numbers h hh), hread] at hread'
              exact absurd (congrArg BlockHeader.hash (Except.ok.inj hread').symm) he
            · exact .inr ⟨raw', hraw', hser'⟩

/-! ## What is written with a block -/

namespace SyncImpl

/-- The operations of the batch, one for each record. -/
theorem blockBatch_eq {s : SyncImpl} {bh : BlockHeader} {key : UInt64} {element : Blob}
    {batch : Batch} (hmod : s.modules.block) (h : s.blockBatch bh key element = .ok batch) :
    ∃ metadata, ∃ header record : Blob, s.leveldb.findBlockMetadata = .ok metadata ∧
      bh.serialize = .ok header.val ∧ (nextMetadata metadata bh).serialize = .ok record.val ∧
      batch.batch = [.put (blockKey bh.hash) header, .put KEY_BLOCK_METADATA record,
        .put (timelineKey key.toNat) element] := by
  unfold blockBatch at h
  rw [if_pos hmod] at h
  obtain ⟨b₁, h₁, h⟩ := bind_eq_ok.mp h
  obtain ⟨metadata, hmeta, h⟩ := bind_eq_ok.mp h
  obtain ⟨b₂, h₂, h⟩ := bind_eq_ok.mp h
  obtain ⟨k, hk, h⟩ := bind_eq_ok.mp h
  obtain ⟨k₁, hk₁, h₁⟩ := bind_eq_ok.mp h₁
  obtain ⟨header, hheader, rfl⟩ := Batch.addKey_eq_ok h₁
  obtain ⟨record, hrecord, rfl⟩ := Batch.addKey_eq_ok h₂
  have hkey₁ : k₁ = blockKey bh.hash := by
    obtain ⟨a, ha, hk₁⟩ := bind_eq_ok.mp hk₁
    obtain ⟨-, ha⟩ := check_bind_eq_ok.mp ha
    obtain ⟨a', ha', hk₁⟩ := bind_eq_ok.mp hk₁
    obtain ⟨-, ha'⟩ := check_bind_eq_ok.mp ha'
    cases ha
    cases ha'
    cases hk₁
    rfl
  have hkey : k = timelineKey key.toNat := by
    rw [timelineKey, UInt64.ofNat_toNat]
    exact (Except.ok.inj hk).symm
  cases h
  rw [hkey₁, hkey]
  exact ⟨metadata, header, record, hmeta, hheader, hrecord, rfl⟩

/-- The new block's hash is the one that the metadata keeps. -/
theorem nextMetadata_lineage {hs : List BlockHeader} {b : BlockHeader}
    (hl : BlockChain.Lineage (hs ++ [b])) (hprev : b.prevHash = BlockChain.tip hs)
    (hl' : BlockChain.Lineage hs) :
    nextMetadata (metadataOf hs) b = metadataOf (hs ++ [b]) := by
  have hne : (metadataOf hs).prevBlockHash ≠ b.prevHash := by
    rcases List.eq_nil_or_concat hs with rfl | ⟨below, h, rfl⟩
    · have hdesc := hl.descends
      rw [List.reverse_concat] at hdesc
      exact fun he => hdesc.2.1 he.symm
    · rw [List.concat_eq_append] at hprev hl' ⊢
      rw [metadataOf, List.getLast?_concat, hprev, BlockChain.tip_concat]
      exact hl'.prevHash_ne
  rw [nextMetadata, if_neg hne, metadataOf, List.getLast?_concat]

/-- **A block and its header's record** go on top together. -/
theorem hasBlocks_addBatch {s : SyncImpl} {hs : List BlockHeader} {b : BlockHeader} {n : Nat}
    {key : UInt64} {element : Blob} {batch : Batch} (h : HasBlocks s.leveldb hs)
    (hl' : BlockChain.Lineage hs) (hl : BlockChain.Lineage (hs ++ [b]))
    (hprev : b.prevHash = BlockChain.tip hs) (hmod : s.modules.block)
    (hbatch : s.blockBatch (b.withNumber (some n)) key element = .ok batch) :
    HasBlocks (addBatch batch s.leveldb) (hs ++ [b]) := by
  obtain ⟨metadata, header, record, hmeta, hheader, hrecord, hops⟩ := blockBatch_eq hmod hbatch
  rw [h.metadata] at hmeta
  cases hmeta
  have hnext : (metadataOf (hs ++ [b])).serialize = .ok record.val := by
    rw [← nextMetadata_lineage hl hprev hl']
    exact hrecord
  -- the three records have different keys
  have hfind : ∀ k, ¬ ascii BLOCKS_TIMELINE_PREFIX.toList <+: k → (addBatch batch s.leveldb).find? k =
      if k = KEY_BLOCK_METADATA then some record
      else if k = blockKey b.hash then some header else s.leveldb.find? k := by
    intro k hk
    have hkt : k ≠ timelineKey key.toNat := by
      rintro rfl
      exact hk (List.prefix_append _ _)
    rw [addBatch, hops]
    show (((s.leveldb.insert (blockKey b.hash) header).insert KEY_BLOCK_METADATA record).insert
      (timelineKey key.toNat) element).find? k = _
    rw [OrdMap.find?_insert_ne hkt]
    by_cases hkm : k = KEY_BLOCK_METADATA
    · rw [if_pos hkm, hkm]
      exact OrdMap.find?_insert_self
    · rw [if_neg hkm, OrdMap.find?_insert_ne hkm]
      by_cases hkb : k = blockKey b.hash
      · rw [if_pos hkb, hkb]
        exact OrdMap.find?_insert_self
      · rw [if_neg hkb]
        exact OrdMap.find?_insert_ne hkb
  have hblock : ∀ k, ascii BLOCK_PREFIX.toList <+: k → (addBatch batch s.leveldb).find? k =
      if k = blockKey b.hash then some header else s.leveldb.find? k := by
    intro k hk
    have hmeta : k ≠ KEY_BLOCK_METADATA := by
      rintro rfl
      exact absurd hk (by decide)
    rw [hfind k (not_timeline hk (by decide) (by decide)), if_neg hmeta]
  -- Every header is stored, nothing else is, and the record of the chain names its end.
  refine ⟨?_, ?_, ?_⟩
  · intro x hx
    rw [hblock (blockKey x.hash) (List.prefix_append _ _)]
    rcases List.mem_append.mp hx with hx | hx
    · have hne : x.hash ≠ b.hash := by
        have hnodup := hl.nodup
        rw [List.map_append, List.map_singleton] at hnodup
        exact (List.nodup_append.mp hnodup).2.2 _ (List.mem_map_of_mem hx) _
          (List.mem_singleton_self _)
      rw [if_neg (fun he => hne (blockKey_inj he))]
      exact h.saved x hx
    · rw [List.mem_singleton.mp hx, if_pos rfl]
      exact ⟨header, hheader, rfl⟩
  · intro k raw hk hfound
    rw [hblock k hk] at hfound
    by_cases hkb : k = blockKey b.hash
    · rw [if_pos hkb] at hfound
      cases hfound
      exact ⟨b, by simp, hheader⟩
    · rw [if_neg hkb] at hfound
      obtain ⟨x, hx, hser⟩ := h.only k raw hk hfound
      exact ⟨x, List.mem_append_left _ hx, hser⟩
  · have hrecord' : (addBatch batch s.leveldb).find? KEY_BLOCK_METADATA = some record := by
      rw [hfind _ (by decide), if_pos rfl]
    exact (LevelDb.findOneValue_of_find? hrecord').trans
      (BlocksMetadata.deserialize_serialize hnext)

/-! ## Runs -/

/--
The states of a node that began with nothing, took blocks one by one and saved
each when the chain had it. The first block is a child of genesis, and a header
from a source has no height. Everything else in the state may change between.
-/
inductive Stored : SyncImpl → Prop
  | start (s : SyncImpl) : s.modules.block → s.blockchain = .new → s.leveldb = ∅ → Stored s
  | accept {s : SyncImpl} {b : BlockHeader} {n : Nat} {c : BlockChain} (key : UInt64)
      (element : Blob) {batch : Batch} : Stored s → b.blockNumber = none →
      (s.blockchain.countBlocks = 0 → b.prevHash = BlockChain.GENESIS_BLOCK_HASH) →
      s.blockchain.addBlock b = (.ok (some n), c) →
      s.blockBatch (b.withNumber (some n)) key element = .ok batch →
      Stored { s with blockchain := c, leveldb := addBatch batch s.leveldb }
  | others {s : SyncImpl} (s' : SyncImpl) : Stored s → s'.modules = s.modules →
      s'.blockchain = s.blockchain →
      (∀ k, ascii BLOCK_PREFIX.toList <+: k → s'.leveldb.find? k = s.leveldb.find? k) →
      s'.leveldb.find? KEY_BLOCK_METADATA = s.leveldb.find? KEY_BLOCK_METADATA → Stored s'

/-- **The chain and the database hold the same headers.** -/
theorem Stored.hasBlocks {s : SyncImpl} (h : Stored s) :
    s.modules.block ∧ ∃ hs, BlockChain.Grown s.blockchain hs ∧ HasBlocks s.leveldb hs := by
  induction h with
  | start s hmod hchain hdb =>
      rw [hchain, hdb]
      exact ⟨hmod, [], BlockChain.grown_new, hasBlocks_empty⟩
  | accept key element _ hnum hfirst hadd hbatch ih =>
      obtain ⟨hmod, hs, hgrown, hhas⟩ := ih
      obtain ⟨hgrown', hprev⟩ := hgrown.accept hnum hfirst hadd
      exact ⟨hmod, _, hgrown', hasBlocks_addBatch hhas hgrown.lineage hgrown'.lineage hprev hmod hbatch⟩
  | others s' _ hmod hchain hblocks hmeta ih =>
      obtain ⟨hmod', hs, hgrown, hhas⟩ := ih
      rw [hmod, hchain]
      exact ⟨hmod', hs, hgrown, hhas.congr hblocks hmeta⟩

/--
**A node that starts again has the same chain**: the same hashes and heights, as
many blocks and the same last state block. Headers are stored only with the module
for blocks on, which the loop asks for.
-/
theorem restart_reproduces_chain {s : SyncImpl} (h : Stored s) :
    initializeChain s.leveldb .new = .ok s.blockchain := by
  obtain ⟨-, hs, hgrown, hhas⟩ := h.hasBlocks
  obtain ⟨raws, hraws, hmem⟩ := s.leveldb.getAllBlocks_eq
  have hl := hgrown.lineage
  have hvalues : ∀ raw ∈ raws, ∃ h ∈ hs, h.serialize = .ok raw.val := by
    intro raw hraw
    obtain ⟨k, hk, hfind⟩ := (hmem raw).mp hraw
    exact hhas.only k raw hk hfind
  have hempty : ∀ k, k ≠ BlockChain.GENESIS_BLOCK_HASH →
      BlockChain.new.clear.blocks.find? k = none := fun k hk => OrdMap.find?_insert_ne hk
  have hgenesis : ∀ h ∈ hs, h.hash ≠ BlockChain.GENESIS_BLOCK_HASH :=
    fun h hh he => hl.genesis (he ▸ List.mem_map_of_mem hh)
  -- All headers are loaded in some order, and then numbered from the recorded last block.
  obtain ⟨c, hload, hhashes, hlast, hothers, hin⟩ := loadBlocks_of (c := BlockChain.new.clear) hl
    hvalues (fun h hh => .inl (hempty _ (hgenesis h hh)))
  have hloaded : BlockChain.Unnumbered c hs := by
    refine ⟨hhashes, hlast, hothers _ hl.genesis, ?_, ?_⟩
    · intro h hh
      obtain ⟨raw, hser, hfind⟩ := hhas.saved h hh
      exact hin h hh (.inr ⟨raw, (hmem raw).mpr ⟨_, List.prefix_append _ _, hfind⟩, hser⟩)
    · intro k hkg hk
      rw [hothers k hk, hempty k hkg]
  have hcalc := BlockChain.calcBlockchain_lineage hl hloaded
  rw [hgrown.chain]
  refine bind_eq_ok.mpr ⟨_, hhas.metadata, bind_eq_ok.mpr ⟨raws, hraws, bind_eq_ok.mpr ⟨c, hload, ?_⟩⟩⟩
  -- A chain without blocks has no last one to begin from.
  rcases List.eq_nil_or_concat hs with rfl | ⟨below, top, rfl⟩
  · cases raws with
    | nil =>
        cases hload
        rfl
    | cons raw raws =>
        obtain ⟨h, hh, -⟩ := hvalues raw List.mem_cons_self
        exact absurd hh List.not_mem_nil
  · rw [List.concat_eq_append] at hcalc ⊢
    have htop : (metadataOf (below ++ [top])).blockHash = BlockChain.tip (below ++ [top]) := by
      rw [metadataOf, List.getLast?_concat, BlockChain.tip_concat]
    have hne : BlockChain.tip (below ++ [top]) ≠ ∅ := by
      rw [BlockChain.tip_concat]
      exact hl.hashes top (by simp)
    rw [htop, Blob.isEmpty_eq_false.mpr hne, hcalc]
    rfl

/-- What the file source writes behind a block is no record of the chain's. -/
theorem Stored.confirmBlock {s : SyncImpl} (h : Stored s) (fromFile : Bool)
    (filepos : Except Err FilePosition) : Stored (s.confirmBlock fromFile filepos).2 := by
  unfold SyncImpl.confirmBlock
  cases filepos with
  | error e => exact h
  | ok filepos =>
      cases fromFile with
      | false => exact h
      | true =>
          simp only [if_true]
          cases hb : Batch.new.addFileMetadata filepos with
          | error e => exact h
          | ok batch =>
              obtain ⟨name, -, hb⟩ := bind_eq_ok.mp hb
              obtain ⟨key, hkey, hb⟩ := bind_eq_ok.mp hb
              obtain ⟨value, -, rfl⟩ := Batch.addKey_eq_ok hb
              have hother : ∀ k, ¬ ascii FILE_PREFIX.toList <+: k →
                  (addBatch (Batch.new.addKeyInternal key value false) s.leveldb).find? k =
                    s.leveldb.find? k := by
                intro k hk
                rw [find?_addBatch_addKeyInternal, if_neg]
                · rfl
                · rintro rfl
                  exact hk (prefix_of_makeKey hkey)
              refine Stored.others _ h rfl rfl ?_ (hother _ (by decide))
              rintro k ⟨w, rfl⟩
              exact hother _ (by
                rintro ⟨w', hw⟩
                exact absurd (List.cons.inj hw).1 (by decide))

/-- The place of a dump is all that changes in its header. -/
theorem saveTransactions_header {s s' : SyncImpl} {bi bi' : BlockInfo} {dump : Blob} {save : Bool}
    (h : s.saveTransactions bi dump save = .ok (bi', s')) :
    bi'.header.blockNumber = bi.header.blockNumber ∧ bi'.header.prevHash = bi.header.prevHash := by
  unfold saveTransactions at h
  split at h
  · cases h
    exact ⟨rfl, rfl⟩
  · dsimp only at h
    split at h
    · cases h
    · cases h
      exact ⟨rfl, rfl⟩

theorem Stored.acceptBlock {s : SyncImpl} {c : BlockChain} {src : Source} {bi : BlockInfo}
    {num : Nat} (h : Stored s) (hnum : bi.header.blockNumber = none)
    (hfirst : s.blockchain.countBlocks = 0 → bi.header.prevHash = BlockChain.GENESIS_BLOCK_HASH)
    (hadd : s.blockchain.addBlock bi.header = (.ok (some num), c))
    (hround : (SyncImpl.acceptBlock { s with blockchain := c } src bi num).1 = .ok ()) :
    Stored (SyncImpl.acceptBlock { s with blockchain := c } src bi num).2 := by
  unfold SyncImpl.acceptBlock at hround ⊢
  by_cases hzero : num = 0
  · rw [if_pos hzero] at hround
    cases hround
  rw [if_neg hzero] at hround ⊢
  simp only at hround ⊢
  rcases htime : s.timeline.addSimpleBlock (bi.header.withNumber (some num)) with
    ⟨e | ⟨key, element⟩, t⟩
  · simp only [htime] at hround
    cases hround
  simp only [htime] at hround ⊢
  rcases hbatch : s.blockBatch (bi.header.withNumber (some num)) key element with e | batch
  · have hbatch' : ∀ s' : SyncImpl, s'.modules = s.modules → s'.leveldb = s.leveldb →
        s'.blockBatch (bi.header.withNumber (some num)) key element = .error e := by
      intro s' hmod hdb
      rw [← hbatch, blockBatch, blockBatch, hmod, hdb]
    simp only [hbatch', commit] at hround
    cases hround
  · have hbatch' : ∀ s' : SyncImpl, s'.modules = s.modules → s'.leveldb = s.leveldb →
        s'.blockBatch (bi.header.withNumber (some num)) key element = .ok batch := by
      intro s' hmod hdb
      rw [← hbatch, blockBatch, blockBatch, hmod, hdb]
    simp only [hbatch', commit]
    have haccepted := Stored.accept key element h hnum hfirst hadd hbatch
    refine Stored.confirmBlock ?_ _ _
    exact Stored.others _ haccepted rfl rfl (fun _ _ => rfl) rfl

/-- **A round of `process` that goes through** takes the node to another such state. -/
theorem Stored.processBlock {γ : Type} {find : BlockChain → Except Err (Option γ)} {s : SyncImpl}
    {src : Source} {bi : BlockInfo} {dump : Blob} (h : Stored s)
    (hnum : bi.header.blockNumber = none)
    (hfirst : s.blockchain.countBlocks = 0 → bi.header.prevHash = BlockChain.GENESIS_BLOCK_HASH)
    (hround : (SyncImpl.processBlock find s src bi dump).1 = .ok none) :
    Stored (SyncImpl.processBlock find s src bi dump).2 := by
  unfold SyncImpl.processBlock at hround ⊢
  rcases hsave : s.saveTransactions bi dump (s.isSaveBlockToFiles && !src.isNoDefaultSource) with
    e | ⟨bi', s'⟩
  · rw [hsave] at hround
    cases hround
  obtain ⟨files, rfl⟩ := saveTransactions_frame hsave
  obtain ⟨hnum', hprev'⟩ := saveTransactions_header hsave
  simp only [hsave] at hround ⊢
  rcases hadd : s.blockchain.addBlock bi'.header with ⟨e | _ | num, c⟩
  · simp only [hadd] at hround
    cases hround
  · rcases hfind : find c with e | _ | conflict <;> simp only [hadd, hfind] at hround <;> cases hround
  · simp only [hadd] at hround ⊢
    have hstored : Stored { s with files } := h.others _ rfl rfl (fun _ _ => rfl) rfl
    have haccept := @Stored.acceptBlock _ _ src _ _ hstored (hnum'.trans hnum)
      (fun hz => hprev'.trans (hfirst hz)) hadd
    rcases hres : SyncImpl.acceptBlock { s with blockchain := c, files } src bi' num with ⟨e | _, s₁⟩
    · simp only [hres] at hround
      cases hround
    · simp only [hres] at haccept ⊢
      exact haccept trivial

/-- A chain of two blocks, read again. -/
theorem restart_reproduces_two :
    (round (round (fresh false) 1 0) 2 1).blockchain.countBlocks = 2 ∧
      initializeChain (round (round (fresh false) 1 0) 2 1).leveldb .new =
        .ok (round (round (fresh false) 1 0) 2 1).blockchain := by
  have hstart : Stored (fresh false) := Stored.start _ rfl rfl rfl
  have hfirst : Stored (round (fresh false) 1 0) :=
    hstart.processBlock rfl (fun _ => rfl) (by decide +kernel)
  have hsecond : Stored (round (round (fresh false) 1 0) 2 1) :=
    hfirst.processBlock rfl (fun hz => absurd hz (by decide +kernel)) (by decide +kernel)
  exact ⟨by decide +kernel, restart_reproduces_chain hsecond⟩

end SyncImpl

end TorrentNode
