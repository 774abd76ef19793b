import TorrentNode.BlockSource.Network
import TorrentNode.Parsing.Transaction

/-!
# Reading blocks (`BlockchainRead.cpp`)

A block is a header of fixed size and the transactions, the last one of which is of
size zero. Transactions may be passed over at the beginning, and reading may stop after
some of them.
-/

namespace TorrentNode

open CursorReader

/-- The header with the size in front of it. -/
def SIMPLE_BLOCK_HEADER_SIZE : Nat := 88

/-- The header of a sign block with the size in front of it. -/
def SIGN_BLOCK_HEADER_SIZE : Nat := 56

/-- The type of a sign block. -/
def SIGN_BLOCK_TYPE : UInt64 := 0x1100111167452301

/-- The type of a block of rejected transactions. -/
def REJECTED_TXS_BLOCK_TYPE : UInt64 := 0x3300111167452301

/-! ## Headers -/

/-- The header behind the size; its hash is that of the dump. -/
def readSimpleBlockHeaderWithoutSize : Deserializer BlockHeader := do
  let blockType ← readInt 8
  let timestamp ← readInt 8
  let prevHash ← readBytes 32
  let txsHash ← readBytes 32
  pure { (default : BlockHeader) with blockType, timestamp, prevHash, txsHash }

/-- The header of a sign block, whose type is checked. -/
def readSignBlockHeaderWithoutSize : Deserializer SignBlockHeader := do
  let blockType ← readInt 8
  lift (check (blockType == SIGN_BLOCK_TYPE) "Incorrect block type")
  let timestamp ← readInt 8
  let prevHash ← readBytes 32
  pure { timestamp, blockSize := 0, hash := ∅, prevHash, filePos := default, senderSign := ∅,
         senderPubkey := ∅, senderAddress := ∅ }

/-! ## Transactions -/

/-- What `readSimpleBlockTxs` is asked for. -/
structure ReadOptions where
  isSaveAllTx : Bool
  isValidate : Bool
  beginTx : UInt64
  countTx : UInt64
  deriving DecidableEq

/-- The helper behind a transaction. -/
def PrevTransactionSignHelper.next (txInfo : TransactionInfo) : PrevTransactionSignHelper :=
  { isFirst := false, isPrevSign := txInfo.isSignBlockTx, prevTxData := txInfo.data }

/-- What the loop of `readSimpleBlockTxs` carries along. -/
structure TxsState where
  txs : List TransactionInfo
  txIndex : Nat
  countSignTxs : Nat
  helper : PrevTransactionSignHelper

/-- Before the first transaction. -/
def TxsState.start : TxsState :=
  { txs := [], txIndex := 0, countSignTxs := 0,
    helper := { isFirst := true, isPrevSign := true, prevTxData := ∅ } }

/-- A transaction in front of its reading. -/
def freshTx (posInFile : UInt64) (cur_pos : Nat) : TransactionInfo :=
  { (default : TransactionInfo) with
    filePos := { pos := UInt64.ofNat cur_pos + posInFile + 8, fileNameRelative := ∅ } }

/-- The rounds of the loop; each moves the cursor. -/
def readTxs (env : ParseEnv) (options : ReadOptions) (posInFile : UInt64) :
    Nat → TxsState → Deserializer TxsState
  | 0, _ => fail (.std "endless")
  | fuel + 1, s => do
    let cur_pos ← position
    let txInfo := freshTx posInFile cur_pos
    let isReadTransaction := decide (options.beginTx.toNat ≤ s.txIndex)
    let (isInitialized, tx_size, txInfo) ← readSimpleTransactionInfo env isReadTransaction
      options.isSaveAllTx s.helper options.isValidate txInfo
    let txInfo := { txInfo with blockIndex := UInt64.ofNat s.txIndex }
    let s := if isInitialized && isReadTransaction then { s with txs := s.txs ++ [txInfo] } else s
    if options.countTx ≠ 0 ∧ options.countTx.toNat ≤ s.txs.length then pure s
    else
      let s : TxsState :=
        { s with
          txIndex := s.txIndex + 1
          countSignTxs := if txInfo.isSignBlockTx then s.countSignTxs + 1 else s.countSignTxs
          helper := .next txInfo }
      if tx_size = 0 then pure s else readTxs env options posInFile fuel s

/-- The signature of a block: the data of its first transaction, if this is one to oneself. -/
def saveSignature (header : BlockHeader) (txs : List TransactionInfo) : Except Err BlockHeader :=
  match txs.head? with
  | none => pure header
  | some tx => do
    let toSelf ← tx.fromAddress.eq tx.toAddress
    pure (if toSelf && tx.value == 0 then { header with signature := tx.data } else header)

/-- The transactions of a block, and what the header takes from them and from the dump. -/
def readSimpleBlockTxs (env : ParseEnv) (options : ReadOptions) (posInFile : UInt64) (raw : Blob)
    (bi : BlockInfo) : Except Err BlockInfo := do
  let begin_txs := SIMPLE_BLOCK_HEADER_SIZE - 8
  let hash := env.get_double_sha256 raw.val
  let txs_hash := env.get_double_sha256 (raw.val.drop begin_txs)
  check (bi.header.txsHash == txs_hash) "Incorrect txs hash"
  let (s, _) ← (readTxs env options posInFile (raw.size + 1) .start).runFrom raw.val begin_txs
  let header := { bi.header with hash }
  let header :=
    if options.countTx = 0 then
      { header with
        countTxs := UInt64.ofNat s.txs.length, countSignTx := UInt64.ofNat s.countSignTxs }
    else header
  let header ← saveSignature header s.txs
  pure { header, txs := s.txs }

/-- The loop of `readSignBlockTxs`. -/
def readSignTxs (env : ParseEnv) : Nat → List SignTransactionInfo →
    Deserializer (List SignTransactionInfo)
  | 0, _ => fail (.std "endless")
  | fuel + 1, txs => do
    let (isInitialized, tx_size, txInfo) ← readSignTransactionInfo env ⟨∅, ∅, ∅, default⟩
    let txs := if isInitialized then txs ++ [txInfo] else txs
    if tx_size = 0 then pure txs else readSignTxs env fuel txs

/-! ## Blocks -/

/-- `parseNextBlockInfo` where it finds a block of transactions. -/
def parseSimpleBlock (env : ParseEnv) (options : ReadOptions) (posInFile : UInt64) (raw : Blob) :
    Except Err BlockInfo := do
  let (header, _) ← readSimpleBlockHeaderWithoutSize.runFrom raw.val 0
  let b ← readSimpleBlockTxs env options posInFile raw { header, txs := [] }
  pure { b with header :=
    { b.header with
      blockSize := UInt64.ofNat raw.size
      filePos := { b.header.filePos with pos := posInFile } } }

/-- A sign block, header and signatures. -/
def parseSignBlock (env : ParseEnv) (posInFile : UInt64) (raw : Blob) :
    Except Err SignBlockInfo := do
  let (header, _) ← readSignBlockHeaderWithoutSize.runFrom raw.val 0
  let (txs, _) ← (readSignTxs env (raw.size + 1) []).runFrom raw.val (SIGN_BLOCK_HEADER_SIZE - 8)
  pure { header :=
           { header with
             hash := env.get_double_sha256 raw.val
             blockSize := UInt64.ofNat raw.size
             filePos := { header.filePos with pos := posInFile } },
         txs }

/-- What a dump is: the type decides who reads it. -/
def parseNextBlockInfo (env : ParseEnv) (options : ReadOptions) (posInFile : UInt64) (raw : Blob) :
    Except Err NextBlockInfo :=
  -- the type is read without a check; a shorter string is taken to have none of the two
  let block_type := UInt64.ofNat (littleEndian (raw.val.take 8))
  if block_type = SIGN_BLOCK_TYPE then (parseSignBlock env posInFile raw).map .sign
  else if block_type = REJECTED_TXS_BLOCK_TYPE then .ok .rejected
  else (parseSimpleBlock env options posInFile raw).map .block

/-! ## What the main worker reads -/

/-- `fillStatusTransaction`, where `status` is what the cache or the database has for a hash. -/
def fillStatusTransaction (status : Blob → Option TransactionStatus) (info : TransactionInfo) :
    TransactionInfo :=
  if info.isStatusNeed then
    match status info.hash with
    | none => info
    | some s => { info with status := some s }
  else info

/-- `getFullBlock(bh, beginTx, countTx)`, where the dump is in the cache or in a file. -/
def getFullBlock (env : ParseEnv) (status : Blob → Option TransactionStatus) (isCached : Bool)
    (dump : Blob) (bh : BlockHeader) (beginTx countTx : UInt64) : Except Err BlockInfo :=
  if bh.blockNumber = some 0 then .ok default else do
    match ← parseNextBlockInfo env ⟨false, isCached, beginTx, countTx⟩ bh.filePos.pos dump with
    | .block bi => do
      let txs ← bi.txs.mapM (fun tx =>
        match bh.blockNumber with
        | none => .error (.std "bad_optional_access")
        | some number =>
          .ok (fillStatusTransaction status { tx with blockNumber := UInt64.ofNat number }))
      pure { header := bh, txs }
    | _ => .error (.std "bad_variant_access")

/-- `getRandomAddresses` of the block that it reads; `shuffled` is what `partial_shuffle` makes of a
list. A first iterator behind the end has no value. -/
def getRandomAddresses (shuffled : Nat → List TransactionInfo → List TransactionInfo)
    (countAddresses : Nat) (bi : BlockInfo) : Option (List Address) :=
  if bi.txs.length < bi.header.countSignTx.toNat then none
  else
    let txs := bi.txs.drop bi.header.countSignTx.toNat
    let middle := min countAddresses txs.length
    some (((shuffled middle txs).take middle).map (fun tx => tx.toAddress))

end TorrentNode
