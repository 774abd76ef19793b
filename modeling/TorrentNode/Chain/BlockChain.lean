import TorrentNode.Lib.OrdMap
import TorrentNode.Structs.BlockInfo

/-!
# The in-memory chain (`BlockChain`)

`blocks` owns the headers, `hashes` refers into it by height. A new header gets
its height by walking back over parents that have none yet, numbering them
0, 1, 2, … on the way, and then numbering the walk again from its far end. The
calls change the chain also when they throw, so they return both.
-/

namespace TorrentNode

/-- `BlockChain`: the headers that are known, and those on the chain. -/
structure BlockChain where
  /-- The headers by hash. -/
  blocks : OrdMap Blob BlockHeader
  /-- By height, references into `blocks`: the keys they were taken at. -/
  hashes : List Blob
  lastStateBlock : Nat
  deriving DecidableEq

namespace BlockChain

/-- `GENESIS_BLOCK_HASH`, out of hexadecimal. -/
def GENESIS_BLOCK_HASH : Blob := Blob.replicate 32 0 Blob.hash_fits

/-- The header `initialize` puts first. -/
def genesisBlock : BlockHeader :=
  { (default : BlockHeader) with hash := GENESIS_BLOCK_HASH, blockNumber := some 0 }

/-- `initialize`: genesis alone. -/
def init (c : BlockChain) : BlockChain :=
  { c with
    blocks := c.blocks.insert genesisBlock.hash genesisBlock
    hashes := c.hashes ++ [genesisBlock.hash] }

/-- A new chain. -/
def new : BlockChain := init { blocks := ∅, hashes := [], lastStateBlock := 0 }

/-- `clear()`: it leaves `lastStateBlock` alone. -/
def clear (c : BlockChain) : BlockChain := init { c with blocks := ∅, hashes := [] }

/-- `addWithoutCalc(block)`: whether the block was there already. -/
def addWithoutCalc (c : BlockChain) (block : BlockHeader) : Except Err Bool × BlockChain :=
  if block.hash.isEmpty then (.error (.exception "Empty block hash"), c)
  else match c.blocks.find? block.hash with
    | some _ => (.ok true, c)
    | none => (.ok false, { c with blocks := c.blocks.insert block.hash block })

/-- `removeBlock`: the header is forgotten. -/
def removeBlock (c : BlockChain) (block : BlockHeader) : BlockChain :=
  { c with blocks := c.blocks.erase block.hash }

/-- The header that a reference into `blocks` stands for. -/
def deref (blocks : OrdMap Blob BlockHeader) (ref : Blob) : BlockHeader :=
  (blocks.find? ref).getD default

/-- The variables of the walk in `calcBlockchain`. -/
structure Walk where
  blocks : OrdMap Blob BlockHeader
  /-- The header the walk stands at. -/
  bh : Blob
  currNum : Nat
  /-- Last processed first. -/
  processedBlocks : List Blob

/--
The loop of `calcBlockchain`, back over headers without a number. Each round
numbers one more header, so as many rounds as there are headers are enough.
-/
def walk : Nat → Walk → Except Err Unit × Walk
  | 0, w => (.ok (), w)
  | fuel + 1, w =>
    let bh := deref w.blocks w.bh
    match bh.blockNumber with
    | some _ => (.ok (), w)
    | none =>
      let w : Walk :=
        { w with
          blocks := w.blocks.modify w.bh (fun h => h.withNumber (some w.currNum))
          currNum := w.currNum + 1
          processedBlocks := w.bh :: w.processedBlocks }
      if bh.prevHash.isEmpty then (.error (.exception "Empty block hash"), w)
      else match w.blocks.find? bh.prevHash with
        | none => (.ok (), w)
        | some _ => walk fuel { w with bh := bh.prevHash }

/-- The second loop of `calcBlockchain`: number the walk upwards from its far end. -/
def renumber (allNum : Nat) : List Blob → BlockChain → Option Nat × BlockChain
  | [], c => (some allNum, c)
  | ref :: refs, c =>
    let bh := deref c.blocks ref
    let blockNumber := allNum - bh.blockNumber.getD 0
    let c : BlockChain :=
      { c with
        blocks := c.blocks.modify ref (fun h => h.withNumber (some blockNumber))
        lastStateBlock :=
          if bh.isStateBlock then max blockNumber c.lastStateBlock else c.lastStateBlock }
    if blockNumber ≠ c.hashes.length then (none, c)
    else renumber allNum refs { c with hashes := c.hashes ++ [ref] }

/-- What `calcBlockchain` does behind the walk. -/
def settle (c : BlockChain) : Except Err Unit × Walk → Except Err (Option Nat) × BlockChain
  | (.error e, w) => (.error e, { c with blocks := w.blocks })
  | (.ok (), w) =>
    match (deref w.blocks w.bh).blockNumber with
    | some n =>
      let (num, c) := renumber (w.currNum + n) w.processedBlocks { c with blocks := w.blocks }
      (.ok num, c)
    | none =>
      (.ok (some 0), { c with
        blocks := w.processedBlocks.foldr
          (fun ref bs => bs.modify ref (fun h => h.withNumber none)) w.blocks })

/-- `calcBlockchain(lastHash)`: the height if there is one, and the chain that ends in this hash. -/
def calcBlockchain (c : BlockChain) (lastHash : Blob) : Except Err (Option Nat) × BlockChain :=
  if lastHash.isEmpty then (.error (.exception "Empty block hash"), c)
  else match c.blocks.find? lastHash with
    | none =>
      (.error (.exception ("Hash " ++ toHex lastHash.val ++ " dont append to blockchain")), c)
    | some _ =>
      c.settle (walk (c.blocks.entries.length + 1)
        { blocks := c.blocks, bh := lastHash, currNum := 0, processedBlocks := [] })

/-- `addBlock(block)`: the height of the block, or none when no way leads down from it. -/
def addBlock (c : BlockChain) (block : BlockHeader) : Except Err (Option Nat) × BlockChain :=
  match c.addWithoutCalc block with
  | (.error e, c) => (.error e, c)
  | (.ok true, c) => (.error (.exception ("Block " ++ toHex block.hash.val ++ " already exist")), c)
  | (.ok false, c) =>
    match c.calcBlockchain block.hash with
    | (.ok none, c) => (.ok none, c.removeBlock block)
    | (.ok (some n), c) => (.ok (some n), c)
    | (.error e, c) => (.error e, c.removeBlock block)

/-- `getBlock(hash)`: an empty header where there is none. -/
def getBlock (c : BlockChain) (hash : Blob) : Except Err BlockHeader := do
  check (!hash.isEmpty) "Empty block hash"
  pure (deref c.blocks hash)

/-- `getBlock(blockNumber)`: an empty header where there is none. -/
def getBlockByNumber (c : BlockChain) (blockNumber : Nat) : BlockHeader :=
  match c.hashes[blockNumber]? with
  | none => default
  | some ref => deref c.blocks ref

/-- The height of the chain. -/
def countBlocks (c : BlockChain) : Nat := c.hashes.length - 1

/-- The block on top. -/
def getLastBlock (c : BlockChain) : BlockHeader := c.getBlockByNumber (c.hashes.length - 1)

end BlockChain

end TorrentNode
