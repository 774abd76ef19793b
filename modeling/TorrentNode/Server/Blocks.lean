import TorrentNode.Chain.BlockChain
import TorrentNode.Chain.Timeline
import TorrentNode.Structs.SignBlock

/-!
# The signatures that come with a block (`Server.cpp`, `generate_json.cpp`)

`get-block-by-number` and `get-blocks`, both of the type `simple`. The signatures of a
block are in the transactions of the block after it or in a sign block of its own. The
first handler looks for them; the second collects signatures block by block and prints
with each block what it has collected for the next entry.
-/

namespace TorrentNode

/-- A response of the server: `genErrorResponse`, or a result. -/
inductive Response (α : Type) where
  | error (code : Int) (message : String)
  | result (a : α)
  deriving DecidableEq

namespace Response

/-- The same response with another result. -/
def map {α β : Type} (f : α → β) : Response α → Response β
  | error code message => error code message
  | result a => result (f a)

theorem map_eq_result {α β : Type} {f : α → β} {r : Response α} {b : β} :
    r.map f = .result b ↔ ∃ a, r = .result a ∧ f a = b := by
  cases r <;> simp [map]

end Response

/-- The variant of both kinds of signatures. -/
inductive Signs where
  | transactions (txs : List TransactionInfo)
  | signTransactions (txs : List SignTransactionInfo)
  deriving DecidableEq

namespace Signs

/-- A variant that nothing was put into. -/
def unset : Signs := .transactions []

/-- What is put into the array `signatures`, of either kind. -/
def elements : Signs → List (TransactionInfo ⊕ SignTransactionInfo)
  | transactions txs => txs.map .inl
  | signTransactions txs => txs.map .inr

end Signs

/-- `BlockHeader::getBlockType` -/
def BlockHeader.getBlockType (h : BlockHeader) : Except Err String :=
  if h.isStateBlock then .ok "state"
  else if h.isSimpleBlock then .ok "block"
  else if h.isForgingBlock then .ok "forging"
  else .error (.exception ("Unknown block type " ++ toString h.blockType))

/-- `findSignForBlock(hash)`: the sign block that was recorded for a block. -/
def BlocksTimeline.findSignForBlock (t : BlocksTimeline) (hash : Blob) :
    Except Err (Option MinimumSignBlockHeader) :=
  match t.signsParent.find? hash with
  | none => .ok none
  | some found =>
    match t.timeline[found]? with
    | some (.sign element) => .ok (some element)
    | _ => .error (.exception "Incorrect block element")

/-- `getBlock(size_t)` of an `int64_t`; a negative one is beyond every block. -/
def BlockChain.getBlockAt (c : BlockChain) (i : Int) : BlockHeader :=
  if i < 0 then default else c.getBlockByNumber i.toNat

/-! ## Documents -/

/-- The answer to a request for block zero. -/
def zeroBlock {α : Type} : Response α :=
  .error (-32603) "Incorrect block number: 0. Genesis block begin with number 1"

/-- `blockHeaderToJson` of the type `Simple`: the header, and what its array of signatures shows. -/
def blockHeaderToJsonSimple (bh : BlockHeader) (signatures : Signs) :
    Except Err (BlockHeader × Signs) := do
  check bh.blockNumber.isSome "Block header not set"
  let _ ← bh.getBlockType
  pure (bh, signatures)

/-- The loop of `blockHeadersToJson`. -/
def blockHeadersToJsonLoop : List BlockHeader → List Signs →
    Except Err (Response (List (BlockHeader × Signs)))
  | [], _ => .ok (.result [])
  | b :: bh, _ :: signature :: signatures =>
    if b.blockNumber = some 0 then .ok zeroBlock
    else do
      let val ← blockHeaderToJsonSimple b signature
      let vals ← blockHeadersToJsonLoop bh (signature :: signatures)
      pure (vals.map (fun vals => val :: vals))
  | _ :: _, _ => .error (.std "out_of_range")

/-- The headers with their signatures, those behind each taken from the next. -/
def blockHeadersToJson (bh : List BlockHeader) (signatures : List Signs) :
    Except Err (Response (List (BlockHeader × Signs))) := do
  check (bh.length + 1 == signatures.length) "Incorrect signatures vect"
  blockHeadersToJsonLoop bh signatures

/-! ## The handlers -/

/-- What a node answers from when it is asked for blocks. -/
structure BlockServer where
  blockchain : BlockChain
  timeline : BlocksTimeline
  /-- `WorkerMain::getFullBlock`, from a dump in the cache or in a file. -/
  getFullBlock : BlockHeader → UInt64 → UInt64 → Except Err BlockInfo
  /-- `SyncImpl::readSignBlockInfo`, from a file. -/
  readSignBlockInfo : MinimumSignBlockHeader → Except Err SignBlockInfo

/-- More blocks are not sent at a time. -/
def MAX_BATCH_BLOCKS : Int := 1000

/-- The numbers that the loops of `get-blocks` go through. -/
def blockNumbers (isForward : Bool) (countBlocks beginBlock total : Int) : List Int :=
  if !isForward then
    let fromBlock := total - beginBlock
    (List.range (min countBlocks fromBlock).toNat).map (fun j => fromBlock - j)
  else
    (List.range (min (total + 1) (beginBlock + countBlocks) - beginBlock).toNat).map
      (fun j => beginBlock + j)

namespace BlockServer

/-- `SyncImpl::findSignBlock` -/
def findSignBlock (s : BlockServer) (bh : BlockHeader) : Except Err (List SignTransactionInfo) := do
  let signBlockHeader ← s.timeline.findSignForBlock bh.hash
  match signBlockHeader with
  | none => pure []
  | some header => do
    let signBlockInfo ← s.readSignBlockInfo header
    pure signBlockInfo.txs

/-- The sign transactions at the front of a block. -/
def signTransactions (s : BlockServer) (bh : BlockHeader) : Except Err Signs := do
  let bi ← s.getFullBlock bh 0 bh.countSignTx
  pure (.transactions bi.getBlockSignatures)

/-- What a sign block has for a block. -/
def signBlock (s : BlockServer) (bh : BlockHeader) : Except Err Signs := do
  let txs ← s.findSignBlock bh
  pure (.signTransactions txs)

/-- What `get-block-by-number` finds for a block. -/
def blockSigns (s : BlockServer) (bh : BlockHeader) (blockNumber : Nat) : Except Err Signs :=
  let nextBh := s.blockchain.getBlockByNumber (blockNumber + 1)
  if nextBh.blockNumber.isSome && nextBh.countSignTx != 0 then s.signTransactions nextBh
  else s.signBlock bh

/-- `get-block-by-number` -/
def getBlock (s : BlockServer) (number : Nat) : Except Err (Response (BlockHeader × Signs)) :=
  let bh := s.blockchain.getBlockByNumber number
  match bh.blockNumber with
  | none => .ok (.error (-32603) ("block " ++ toString number ++ " not found"))
  | some blockNumber => do
    let signs ← s.blockSigns bh blockNumber
    if blockNumber = 0 then pure zeroBlock
    else do
      let val ← blockHeaderToJsonSimple bh signs
      pure (.result val)

/-- What the lambda `processBlock` of `get-blocks` collects for a block. -/
def collectSigns (s : BlockServer) (bh : BlockHeader) : Except Err Signs :=
  if bh.countSignTx != 0 then s.signTransactions bh else s.signBlock bh

/-- `get-blocks` -/
def getBlocks (s : BlockServer) (isForward : Bool) (countBlocks beginBlock : Int) :
    Except Err (Response (List (BlockHeader × Signs))) :=
  if MAX_BATCH_BLOCKS < countBlocks then .error (.user "Too many blocks")
  -- `bhs.reserve(countBlocks)`
  else if countBlocks < 0 then .error (.std "length_error")
  else do
    let bhs := (blockNumbers isForward countBlocks beginBlock s.blockchain.countBlocks).map
      s.blockchain.getBlockAt
    let signs ← bhs.mapM s.collectSigns
    blockHeadersToJson bhs (signs ++ [.unset])

/-! ## Agreement -/

/-- The headers that `get-blocks` goes through. -/
def headers (s : BlockServer) (isForward : Bool) (countBlocks beginBlock : Int) :
    List BlockHeader :=
  (blockNumbers isForward countBlocks beginBlock s.blockchain.countBlocks).map
    s.blockchain.getBlockAt

/-- The signatures that `get-blocks` attaches to a block are those of `get-block-by-number`. -/
def SignsAgree (s : BlockServer) (isForward : Bool) (countBlocks beginBlock : Int) : Prop :=
  ∀ l, s.getBlocks isForward countBlocks beginBlock = .ok (.result l) →
    ∀ (k : Nat) (i : Int) (e : BlockHeader × Signs),
      (blockNumbers isForward countBlocks beginBlock s.blockchain.countBlocks)[k]? = some i →
      l[k]? = some e → ∀ r, s.getBlock i.toNat = .ok (.result r) → r.2.elements = e.2.elements

/-- What is collected for the block `m` is what belongs to the block `bh`. -/
def SameSigns (s : BlockServer) (bh : BlockHeader) (blockNumber : Nat) (m : BlockHeader) : Prop :=
  ∀ signs signs', s.blockSigns bh blockNumber = .ok signs → s.collectSigns m = .ok signs' →
    signs.elements = signs'.elements

/--
When the next entry of an answer shows what belongs to a block. Behind the last entry
there is nothing to show. An entry with the block after it shows its sign transactions,
which is right; without any it shows its own sign block.
-/
def NextShows (s : BlockServer) (bh : BlockHeader) (blockNumber : Nat) : Option Int → Prop
  | none => ∀ signs, s.blockSigns bh blockNumber = .ok signs → signs.elements = []
  | some j =>
    if j = blockNumber + 1 then
      (s.blockchain.getBlockAt j).countSignTx = 0 →
        ∀ txs txs', s.findSignBlock bh = .ok txs →
          s.findSignBlock (s.blockchain.getBlockAt j) = .ok txs' → txs = txs'
    else s.SameSigns bh blockNumber (s.blockchain.getBlockAt j)

variable {s : BlockServer} {isForward : Bool} {countBlocks beginBlock : Int}

theorem blockHeadersToJsonLoop_ok : ∀ {bh : List BlockHeader} {signatures : List Signs}
    {l : List (BlockHeader × Signs)},
    blockHeadersToJsonLoop bh signatures = .ok (.result l) →
    ∀ (k : Nat) (b : BlockHeader), bh[k]? = some b →
      ∃ n type signature, b.blockNumber = some n ∧ n ≠ 0 ∧ b.getBlockType = .ok type ∧
        signatures[k + 1]? = some signature ∧ l[k]? = some (b, signature)
  | [], _, _, _, k, b, hb => absurd hb (by simp)
  | _ :: _, [], _, h, _, _, _ => absurd h (by simp [blockHeadersToJsonLoop])
  | _ :: _, [_], _, h, _, _, _ => absurd h (by simp [blockHeadersToJsonLoop])
  | b :: bh, _ :: signature :: signatures, l, h, k, b', hb => by
      unfold blockHeadersToJsonLoop at h
      split at h
      · exact absurd h (by simp [zeroBlock])
      · rename_i hzero
        obtain ⟨val, hval, h⟩ := bind_eq_ok.mp h
        obtain ⟨vals, hvals, h⟩ := bind_eq_ok.mp h
        obtain ⟨l', rfl, rfl⟩ := Response.map_eq_result.mp (Except.ok.inj h)
        obtain ⟨hsome, hval⟩ := check_bind_eq_ok.mp hval
        obtain ⟨type, htype, hval⟩ := bind_eq_ok.mp hval
        obtain rfl := Except.ok.inj hval
        cases k with
        | zero =>
            obtain rfl := Option.some.inj hb
            obtain ⟨n, hn⟩ := Option.isSome_iff_exists.mp hsome
            exact ⟨n, type, signature, hn, fun h0 => hzero (h0 ▸ hn), htype, rfl, rfl⟩
        | succ k => exact blockHeadersToJsonLoop_ok hvals k b' hb

/-- **An answer of `get-blocks`** shows with each block what was collected for the next one. -/
theorem getBlocks_ok {l : List (BlockHeader × Signs)}
    (h : s.getBlocks isForward countBlocks beginBlock = .ok (.result l)) {k : Nat}
    {b : BlockHeader} (hb : (s.headers isForward countBlocks beginBlock)[k]? = some b) :
    ∃ n type signature, b.blockNumber = some n ∧ n ≠ 0 ∧ b.getBlockType = .ok type ∧
      l[k]? = some (b, signature) ∧
      match (s.headers isForward countBlocks beginBlock)[k + 1]? with
      | none => signature = .unset
      | some m => s.collectSigns m = .ok signature := by
  unfold getBlocks at h
  split at h
  · exact absurd h (by simp)
  split at h
  · exact absurd h (by simp)
  obtain ⟨signs, hsigns, h⟩ := bind_eq_ok.mp h
  obtain ⟨hlen, h⟩ := check_bind_eq_ok.mp h
  -- What the loop shows for the header at `k` is the entry at `k + 1`.
  obtain ⟨n, type, signature, hn, hzero, htype, hsig, hl⟩ := blockHeadersToJsonLoop_ok h k b hb
  refine ⟨n, type, signature, hn, hzero, htype, hl, ?_⟩
  have hmapM : (s.headers isForward countBlocks beginBlock).map s.collectSigns = signs.map .ok :=
    mapM_eq_ok_iff.mp hsigns
  have hmap : ((s.headers isForward countBlocks beginBlock).map s.collectSigns)[k + 1]? =
      (signs.map .ok)[k + 1]? := by rw [hmapM]
  rw [List.getElem?_map, List.getElem?_map] at hmap
  -- Behind the last header stands the empty entry.
  cases hnext : (s.headers isForward countBlocks beginBlock)[k + 1]? with
  | none =>
      rw [hnext] at hmap
      have hout : signs[k + 1]? = none := Option.map_eq_none_iff.mp hmap.symm
      have hle := List.getElem?_eq_none_iff.mp hout
      rw [List.getElem?_append_right hle] at hsig
      have hmem := List.mem_of_getElem? hsig
      exact List.mem_singleton.mp hmem
  | some m =>
      rw [hnext] at hmap
      obtain ⟨x, hx, hcollect⟩ := Option.map_eq_some_iff.mp hmap.symm
      have hlt := (List.getElem?_eq_some_iff.mp hx).1
      rw [List.getElem?_append_left hlt, hx] at hsig
      obtain rfl := Option.some.inj hsig
      exact hcollect.symm

/-- What `get-block-by-number` answers for a block that `get-blocks` has answered. -/
theorem getBlock_ok_iff {number n : Nat} {type : String}
    (hn : (s.blockchain.getBlockByNumber number).blockNumber = some n) (hzero : n ≠ 0)
    (htype : (s.blockchain.getBlockByNumber number).getBlockType = .ok type)
    {r : BlockHeader × Signs} :
    s.getBlock number = .ok (.result r) ↔ r.1 = s.blockchain.getBlockByNumber number ∧
      s.blockSigns (s.blockchain.getBlockByNumber number) n = .ok r.2 := by
  have hdoc : ∀ signs, blockHeaderToJsonSimple (s.blockchain.getBlockByNumber number) signs =
      .ok (s.blockchain.getBlockByNumber number, signs) := by
    intro signs
    unfold blockHeaderToJsonSimple
    rw [hn, htype]
    rfl
  unfold getBlock
  simp only [hn]
  constructor
  · intro h
    obtain ⟨signs, hsigns, h⟩ := bind_eq_ok.mp h
    rw [if_neg hzero, hdoc] at h
    obtain rfl := Response.result.inj (Except.ok.inj h)
    exact ⟨rfl, hsigns⟩
  · rintro ⟨hfst, hsigns⟩
    refine bind_eq_ok.mpr ⟨r.2, hsigns, ?_⟩
    rw [if_neg hzero, hdoc, ← hfst]
    rfl

theorem elements_signTransactions_inj {txs txs' : List SignTransactionInfo} :
    (Signs.signTransactions txs).elements = (Signs.signTransactions txs').elements ↔ txs = txs' :=
  ⟨fun h => List.map_injective_iff.mpr Sum.inr_injective h, fun h => h ▸ rfl⟩

/-- With the block after it as the next entry, what counts is the sign blocks. -/
theorem sameSigns_next {bh : BlockHeader} {n : Nat}
    (hsome : (s.blockchain.getBlockByNumber (n + 1)).blockNumber.isSome) :
    s.SameSigns bh n (s.blockchain.getBlockByNumber (n + 1)) ↔
      ((s.blockchain.getBlockByNumber (n + 1)).countSignTx = 0 →
        ∀ txs txs', s.findSignBlock bh = .ok txs →
          s.findSignBlock (s.blockchain.getBlockByNumber (n + 1)) = .ok txs' → txs = txs') := by
  unfold SameSigns
  -- Without transactions of its own, the next block has the sign block between the two.
  by_cases hcount : (s.blockchain.getBlockByNumber (n + 1)).countSignTx = 0
  · have hne : ((s.blockchain.getBlockByNumber (n + 1)).countSignTx != 0) = false := by
      rw [hcount]; rfl
    have hown : s.blockSigns bh n = s.signBlock bh := by
      unfold blockSigns
      simp only [hne, Bool.and_false, Bool.false_eq_true, if_false]
    have hnext : s.collectSigns (s.blockchain.getBlockByNumber (n + 1)) =
        s.signBlock (s.blockchain.getBlockByNumber (n + 1)) := by
      unfold collectSigns
      rw [hne, if_neg Bool.false_ne_true]
    rw [hown, hnext]
    constructor
    · intro h _ txs txs' htxs htxs'
      exact elements_signTransactions_inj.mp
        (h _ _ (bind_eq_ok.mpr ⟨txs, htxs, rfl⟩) (bind_eq_ok.mpr ⟨txs', htxs', rfl⟩))
    · intro h signs signs' hsigns hsigns'
      obtain ⟨txs, htxs, hsigns⟩ := bind_eq_ok.mp hsigns
      obtain ⟨txs', htxs', hsigns'⟩ := bind_eq_ok.mp hsigns'
      rw [← Except.ok.inj hsigns, ← Except.ok.inj hsigns', h hcount txs txs' htxs htxs']
  · have hne : ((s.blockchain.getBlockByNumber (n + 1)).countSignTx != 0) = true :=
      bne_iff_ne.mpr hcount
    have hown : s.blockSigns bh n = s.collectSigns (s.blockchain.getBlockByNumber (n + 1)) := by
      unfold blockSigns collectSigns
      simp only [hne, hsome, Bool.and_true, if_true]
    rw [hown]
    refine iff_of_true ?_ (fun h => absurd h hcount)
    intro signs signs' hsigns hsigns'
    rw [Except.ok.inj (hsigns.symm.trans hsigns')]

theorem getBlockAt_of_ne {i : Int} {n : Nat}
    (h : (s.blockchain.getBlockAt i).blockNumber = some n) :
    s.blockchain.getBlockAt i = s.blockchain.getBlockByNumber i.toNat := by
  unfold BlockChain.getBlockAt at h ⊢
  split
  · rename_i hneg
    rw [if_pos hneg] at h
    exact absurd h (by simp)
  · rfl

/--
**The signatures agree exactly if each next entry shows what belongs to the block**
before it in the answer, and nothing belongs to the last one.
-/
theorem signsAgree_iff (s : BlockServer) (isForward : Bool) (countBlocks beginBlock : Int) :
    s.SignsAgree isForward countBlocks beginBlock ↔
      ((∃ l, s.getBlocks isForward countBlocks beginBlock = .ok (.result l)) →
        ∀ (k : Nat) (i : Int) (n : Nat),
          (blockNumbers isForward countBlocks beginBlock s.blockchain.countBlocks)[k]? = some i →
          (s.blockchain.getBlockAt i).blockNumber = some n →
          s.NextShows (s.blockchain.getBlockAt i) n
            (blockNumbers isForward countBlocks beginBlock s.blockchain.countBlocks)[k + 1]?) := by
  -- the headers stand at the places of their numbers
  have hheaders : ∀ k, (s.headers isForward countBlocks beginBlock)[k]? =
      ((blockNumbers isForward countBlocks beginBlock s.blockchain.countBlocks)[k]?).map
        s.blockchain.getBlockAt := fun k => List.getElem?_map
  -- at one place the handlers agree if the next entry shows the right signatures
  have hplace : ∀ l, s.getBlocks isForward countBlocks beginBlock = .ok (.result l) →
      ∀ (k : Nat) (i : Int),
        (blockNumbers isForward countBlocks beginBlock s.blockchain.countBlocks)[k]? = some i →
        ∃ n, (s.blockchain.getBlockAt i).blockNumber = some n ∧
          ((∀ e, l[k]? = some e → ∀ r, s.getBlock i.toNat = .ok (.result r) →
              r.2.elements = e.2.elements) ↔
            s.NextShows (s.blockchain.getBlockAt i) n
              (blockNumbers isForward countBlocks beginBlock s.blockchain.countBlocks)[k + 1]?) := by
    intro l hl k i hi
    obtain ⟨n, type, signature, hn, hzero, htype, he, hnext⟩ := getBlocks_ok hl
      (show (s.headers isForward countBlocks beginBlock)[k]? = some (s.blockchain.getBlockAt i) by
        rw [hheaders, hi]; rfl)
    refine ⟨n, hn, ?_⟩
    have hbh := getBlockAt_of_ne hn
    have hanswer : (∀ e, l[k]? = some e → ∀ r, s.getBlock i.toNat = .ok (.result r) →
        r.2.elements = e.2.elements) ↔
        ∀ signs, s.blockSigns (s.blockchain.getBlockAt i) n = .ok signs →
          signs.elements = signature.elements := by
      rw [hbh] at hn htype ⊢
      constructor
      · intro h signs hsigns
        exact h _ he (s.blockchain.getBlockByNumber i.toNat, signs)
          ((getBlock_ok_iff hn hzero htype).mpr ⟨rfl, hsigns⟩)
      · intro h e he' r hr
        obtain rfl := Option.some.inj (he.symm.trans he')
        exact h _ ((getBlock_ok_iff hn hzero htype).mp hr).2
    rw [hanswer]
    rw [hheaders] at hnext
    cases hj : (blockNumbers isForward countBlocks beginBlock s.blockchain.countBlocks)[k + 1]? with
    | none =>
        rw [hj] at hnext
        obtain rfl : signature = .unset := hnext
        exact Iff.rfl
    | some j =>
        rw [hj] at hnext
        have hcollect : s.collectSigns (s.blockchain.getBlockAt j) = .ok signature := hnext
        have hsame : (∀ signs, s.blockSigns (s.blockchain.getBlockAt i) n = .ok signs →
            signs.elements = signature.elements) ↔
            s.SameSigns (s.blockchain.getBlockAt i) n (s.blockchain.getBlockAt j) := by
          constructor
          · intro h signs signs' hsigns hsigns'
            rw [h signs hsigns, Except.ok.inj (hcollect.symm.trans hsigns')]
          · exact fun h signs hsigns => h signs signature hsigns hcollect
        rw [hsame]
        unfold NextShows
        -- Going up, the next entry is the block above; going down, it is the one below.
        by_cases hahead : j = n + 1
        · obtain ⟨m, _, _, hm, _⟩ := getBlocks_ok hl
            (show (s.headers isForward countBlocks beginBlock)[k + 1]? =
              some (s.blockchain.getBlockAt j) by rw [hheaders, hj]; rfl)
          have hat : s.blockchain.getBlockAt j = s.blockchain.getBlockByNumber (n + 1) := by
            rw [getBlockAt_of_ne hm, hahead]
            rfl
          rw [hat] at hm
          simp only [if_pos hahead, hat]
          exact sameSigns_next (by rw [hm]; rfl)
        · simp only [if_neg hahead]
  constructor
  · rintro h ⟨l, hl⟩ k i n hi hn
    obtain ⟨n', hn', hiff⟩ := hplace l hl k i hi
    obtain rfl := Option.some.inj (hn.symm.trans hn')
    exact hiff.mp (fun e he r hr => h l hl k i e hi he r hr)
  · intro h l hl k i e hi he r hr
    obtain ⟨n, hn, hiff⟩ := hplace l hl k i hi
    exact hiff.mpr (h ⟨l, hl⟩ k i n hi hn) e he r hr

/-! ## Two blocks, the first with a sign block -/

/-- A header of an ordinary block, with hashes of one byte repeated. -/
def commonHeader (hash prevHash : UInt8) : BlockHeader :=
  { (default : BlockHeader) with
    blockType := BLOCK_TYPE_COMMON
    hash := Blob.replicate 32 hash Blob.hash_fits, prevHash := Blob.replicate 32 prevHash Blob.hash_fits }

/-- The sign block of the first block. -/
def firstSign : MinimumSignBlockHeader :=
  { hash := Blob.replicate 32 9 Blob.hash_fits, filePos := default
    prevHash := Blob.replicate 32 1 Blob.hash_fits }

/-- A signature of a block. -/
def signTransactionOf (blockHash : Blob) : SignTransactionInfo :=
  { blockHash, sign := ∅, pubkey := ∅, address := Address.ofBlob (Blob.replicate 25 1 Blob.address_fits) }

/-- A server with two blocks and a sign block between them. -/
def twoBlocks : BlockServer where
  blockchain := ((BlockChain.new.addBlock (commonHeader 1 0)).2.addBlock (commonHeader 2 1)).2
  timeline := .built [.simple (commonHeader 1 0).hash, .sign firstSign, .simple (commonHeader 2 1).hash]
  getFullBlock _ _ _ := .error .stop
  readSignBlockInfo header :=
    .ok { header :=
            { timestamp := 0, blockSize := 1, hash := header.hash, prevHash := header.prevHash
              filePos := header.filePos, senderSign := ∅, senderPubkey := ∅, senderAddress := ∅ }
          txs := [signTransactionOf header.prevHash] }

/-- The sign block of the first block is not shown with it, for there is none of the second. -/
theorem signs_of_next_shown : ¬twoBlocks.SignsAgree true 2 1 := by
  intro h
  have hanswer : twoBlocks.getBlocks true 2 1 = .ok (.result
      [((commonHeader 1 0).withNumber (some 1), .signTransactions []),
        ((commonHeader 2 1).withNumber (some 2), .unset)]) := by decide +kernel
  have hblock : twoBlocks.getBlock 1 = .ok (.result ((commonHeader 1 0).withNumber (some 1),
      .signTransactions [signTransactionOf (commonHeader 1 0).hash])) := by decide +kernel
  exact absurd (h _ hanswer 0 1 _ (by decide) rfl _ hblock) (by decide)

end BlockServer

end TorrentNode
