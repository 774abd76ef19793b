import Mathlib.Data.List.Range
import Mathlib.Order.WithBot
import TorrentNode.BlockSource.Network
import TorrentNode.Chain.Representation
import TorrentNode.Storage.BlockFiles

/-!
# Workers that are behind (`SyncImpl::makeWorkers`)

Each worker has recorded how far it has come. When the program starts, the blocks
behind the lowest of these numbers are fetched once more, out of the block files or
from the servers, and given to the workers that do not have them yet.
-/

namespace TorrentNode

/-- Where blocks that are on the chain already are fetched from. -/
structure BlockSources where
  /-- The block files, by relative name. -/
  files : Blob → Option Bytes
  /-- `parseNextBlockInfo(blockDump, posInFile, …, isSaveAllTx, 0, 0)` -/
  parseNextBlockInfo : UInt64 → Bool → Blob → Except Err NextBlockInfo
  net : Net
  /-- `runOneRequest` for the header of one block: its number and the server. -/
  runOneRequest : Nat → Nat → Blob → Except Err Blob
  isVerifySign : Bool
  saveAllTx : Bool
  scheme : SignatureScheme

namespace BlockSources

/-- The block that the dump is parsed to. -/
def parsedBlock (src : BlockSources) (posInFile : UInt64) (isSaveAllTx : Bool) (blockDump : Blob) :
    Except Err (BlockInfo × Blob) := do
  match ← src.parseNextBlockInfo posInFile isSaveAllTx blockDump with
  | .block bi => pure (bi, blockDump)
  | _ => .error (.exception "Incorrect blockinfo")

/-- What the block file holds at the place of a header. -/
def recordedBlock (src : BlockSources) (bh : BlockHeader) : Except Err (BlockInfo × Blob) := do
  check (!bh.filePos.fileNameRelative.isEmpty) "Incorrect file name"
  match src.files bh.filePos.fileNameRelative with
  | none => .error (.exception "Not opened file")
  | some file => do
    let (nextCurrPos, dump) ← readNextBlockDump file bh.filePos.pos
    check (nextCurrPos != bh.filePos.pos) "Incorrect existing block"
    src.parsedBlock bh.filePos.pos false (dump.getD ∅)

/-- The dump that the servers have under a number. -/
def answeredDump (src : BlockSources) (g : GetNewBlocksFromServer) (blockNumber : Nat) :
    Except Err Blob × GetNewBlocksFromServer :=
  match g.getLastBlock src.net with
  | (.error e, g) => (.error e, g)
  | (.ok lastBlock, g) =>
    match lastBlock.lastBlock, lastBlock.servers with
    | none, _ => (.error (.exception lastBlock.error), g)
    -- there is a server wherever there is a last block
    | some _, [] => (.error (.std "out_of_range"), g)
    | some _, server :: servers =>
      match src.runOneRequest g.asked blockNumber server >>= src.net.messages.parseBlockHeader with
      | .error e => (.error e, g.ask)
      | .ok nextBlockHeader =>
        match g.ask.getBlockDumpWithoutAdvancedLoad src.net nextBlockHeader.hash
            nextBlockHeader.blockSize true false (server :: servers) src.isVerifySign with
        | (.error e, g) => (.error e, g)
        | (.ok dump, g) =>
          let checked : Except Err Blob := do
            let dump ← if src.isVerifySign then
              (src.scheme.checkSignatureBlock dump).map BlockSignatureCheckResult.block else .ok dump
            check (dump.size == nextBlockHeader.blockSize)
              "binaryDump.size() == nextBlockHeader.blockSize"
            pure dump
          (checked, g)

/-- The block that the servers have under the number of a header. -/
def answeredBlock (src : BlockSources) (g : GetNewBlocksFromServer) (bh : BlockHeader) :
    Except Err (BlockInfo × Blob) × GetNewBlocksFromServer :=
  match bh.blockNumber with
  | none => (.error (.exception "Block number not set"), g)
  | some n =>
    let (dump, g) := src.answeredDump g n
    (dump >>= src.parsedBlock bh.filePos.pos src.saveAllTx, g)

/-- The end of `getExistingBlock`: the block gets the place and the number of the header. -/
def placed (bh : BlockHeader) (block : BlockInfo × Blob) : Except Err (BlockInfo × Blob) := do
  let txs ← block.1.txs.mapM (fun tx =>
    match bh.blockNumber with
    | none => .error (.std "bad_optional_access")
    | some n => .ok { tx with
        filePos := { tx.filePos with fileNameRelative := bh.filePos.fileNameRelative }
        blockNumber := UInt64.ofNat n })
  let header := (block.1.saveFilePath bh.filePos.fileNameRelative).header.withNumber bh.blockNumber
  pure ({ header, txs }, block.2)

/-- `FileBlockSource::getExistingBlockS` -/
def getExistingBlockS (src : BlockSources) (bh : BlockHeader) : Except Err (BlockInfo × Blob) :=
  src.recordedBlock bh >>= placed bh

/-- `NetworkBlockSource::getExistingBlock` -/
def getExistingBlock (src : BlockSources) (g : GetNewBlocksFromServer) (bh : BlockHeader) :
    Except Err (BlockInfo × Blob) × GetNewBlocksFromServer :=
  let (block, g) := src.answeredBlock g bh
  (block >>= placed bh, g)

/-- A block out of the files, or else from the servers. -/
def refetch (src : BlockSources) (g : GetNewBlocksFromServer) (bh : BlockHeader) :
    Except Err (BlockInfo × Blob) × GetNewBlocksFromServer :=
  match src.getExistingBlockS bh with
  | .ok block => (.ok block, g)
  | .error _ => src.getExistingBlock g bh

/-! ## What a fetched block is -/

/-- The block that is fetched for a header has its hash: the one in the file if there is one. -/
def Agrees (src : BlockSources) (g : GetNewBlocksFromServer) (bh : BlockHeader) : Prop :=
  match src.recordedBlock bh with
  | .ok block => block.1.header.hash = bh.hash
  | .error _ => ∀ block, (src.answeredBlock g bh).1 = .ok block → block.1.header.hash = bh.hash

theorem placed_ok {bh : BlockHeader} {n : Nat} (hn : bh.blockNumber = some n)
    (block : BlockInfo × Blob) :
    ∃ block', placed bh block = .ok block' ∧ block'.1.header.hash = block.1.header.hash ∧
      block'.1.header.blockNumber = some n := by
  simp only [placed, hn]
  rw [mapM_eq_ok (fun tx _ => rfl)]
  exact ⟨_, rfl, rfl, rfl⟩

theorem refetch_ok {src : BlockSources} {g g' : GetNewBlocksFromServer} {bh : BlockHeader} {n : Nat}
    {block : BlockInfo × Blob} (hn : bh.blockNumber = some n)
    (h : src.refetch g bh = (.ok block, g')) :
    block.1.header.blockNumber = some n ∧ (Agrees src g bh ↔ block.1.header.hash = bh.hash) := by
  unfold refetch getExistingBlockS at h
  unfold Agrees
  cases hfile : src.recordedBlock bh with
  | ok found =>
    obtain ⟨block', hplaced, hhash, hnum⟩ := placed_ok hn found
    simp only [hfile, Bind.bind, Except.bind, hplaced, Prod.mk.injEq, Except.ok.injEq] at h
    obtain ⟨rfl, -⟩ := h
    exact ⟨hnum, by rw [hhash]⟩
  | error e =>
    simp only [hfile, Bind.bind, Except.bind, getExistingBlock, Prod.mk.injEq] at h
    cases hserver : (src.answeredBlock g bh).1 with
    | error e' => simp [hserver] at h
    | ok found =>
      obtain ⟨block', hplaced, hhash, hnum⟩ := placed_ok hn found
      simp only [hserver, hplaced, Except.ok.injEq] at h
      obtain ⟨rfl, -⟩ := h
      refine ⟨hnum, ?_⟩
      rw [hhash]
      constructor
      · intro hall
        exact hall found rfl
      · intro heq b hb
        rw [← Except.ok.inj hb]
        exact heq

end BlockSources

namespace SyncImpl

/-- The workers, with what they have recorded. -/
inductive WorkerKind where
  | cache
  | main (lastSavedBlock : Nat)
  | script (initializeScriptBlockNumber : Nat)
  | nodeTest (initializeScriptBlockNumber : Nat)

/-- A worker, and what it was given. -/
structure Worker where
  kind : WorkerKind
  /-- What it has been given since it was made. -/
  given : List (BlockInfo × Blob)

namespace Worker

/-- `getInitBlockNumber`: the last block that it had worked off when it was made. -/
def getInitBlockNumber (w : Worker) : Option Nat :=
  match w.kind with
  | .cache => none
  | .main n => some n
  | .script n => some n
  | .nodeTest n => some n

/-- It is given a block. -/
def push (w : Worker) (block : BlockInfo × Blob) : Worker :=
  { w with given := w.given ++ [block] }

/-- `process`: the main worker takes only blocks behind its own. -/
def process (w : Worker) (block : BlockInfo × Blob) : Except Err Worker :=
  match w.kind with
  | .main lastSavedBlock =>
    match block.1.header.blockNumber with
    | none => .error (.std "bad_optional_access")
    | some n => .ok (if n > lastSavedBlock then w.push block else w)
  | _ => .ok (w.push block)

/-- The order that `min_element` looks for the least worker in. -/
def before (first second : Worker) : Bool :=
  match first.getInitBlockNumber, second.getInitBlockNumber with
  | none, _ => false
  | some _, none => true
  | some n, some m => n < m

/-- The body of the loop over the workers. -/
def offer (blockNumber : Nat) (block : BlockInfo × Blob) (w : Worker) : Except Err Worker :=
  match w.getInitBlockNumber with
  | none => .ok w
  | some n => if n < blockNumber then w.process block else .ok w

end Worker

/-- `std::min_element` -/
def minElement : List Worker → Option Worker
  | [] => none
  | w :: ws => some (ws.foldl (fun m w => if w.before m then w else m) w)

/-- The loop over these block numbers. -/
def retry (src : BlockSources) (c : BlockChain) : List Nat → List Worker →
    GetNewBlocksFromServer → Except Err (List Worker) × GetNewBlocksFromServer
  | [], workers, g => (.ok workers, g)
  | blockNumber :: rest, workers, g =>
    match src.refetch g (c.getBlockByNumber blockNumber) with
    | (.error e, g) => (.error e, g)
    | (.ok block, g) =>
      match workers.mapM (Worker.offer blockNumber block) with
      | .error e => (.error e, g)
      | .ok workers => retry src c rest workers g

/-- The numbers of the blocks that the workers are given once more. -/
def retryNumbers (c : BlockChain) (workers : List Worker) : List Nat :=
  match (minElement workers).bind Worker.getInitBlockNumber with
  | none => []
  | some n => List.range' (n + 1) (c.countBlocks - n)

/-- Which workers there are, and what each finds recorded in its database. -/
structure WorkerSettings where
  moduleV8 : Bool
  moduleNodeTest : Bool
  leveldbOptScript : Bool
  leveldbOptNodeTest : Bool
  mainBlock : Nat
  scriptBlock : Nat
  nodeStatBlock : Nat

/-- The workers that the settings ask for. -/
def newWorkers (settings : WorkerSettings) : Except Err (List Worker) := do
  check (!settings.moduleV8 || settings.leveldbOptScript) "Leveldb script options not setted"
  check (!settings.moduleNodeTest || settings.leveldbOptNodeTest)
    "Leveldb node test options not setted"
  pure ([⟨.cache, []⟩, ⟨.main settings.mainBlock, []⟩] ++
    (if settings.moduleV8 then [⟨.script settings.scriptBlock, []⟩] else []) ++
    (if settings.moduleNodeTest then [⟨.nodeTest settings.nodeStatBlock, []⟩] else []))

/-- `makeWorkers`: the workers, caught up with the chain. -/
def makeWorkers (src : BlockSources) (c : BlockChain) (settings : WorkerSettings)
    (g : GetNewBlocksFromServer) : Except Err (List Worker) × GetNewBlocksFromServer :=
  match newWorkers settings with
  | .error e => (.error e, g)
  | .ok workers => retry src c (retryNumbers c workers) workers g

/-! ## The least worker -/

/-- How far behind a worker is; one without a number is behind none. -/
def Worker.key (w : Worker) : WithTop Nat :=
  match w.getInitBlockNumber with
  | none => ⊤
  | some n => (n : WithTop Nat)

theorem Worker.before_iff (w m : Worker) : w.before m = true ↔ w.key < m.key := by
  unfold before key
  cases w.getInitBlockNumber with
  | none => simp
  | some n =>
    cases m.getInitBlockNumber with
    | none => simp
    | some k => simp

theorem foldl_before : ∀ (ws : List Worker) (m : Worker),
    (ws.foldl (fun m w => if w.before m then w else m) m = m ∨
      ws.foldl (fun m w => if w.before m then w else m) m ∈ ws) ∧
    (ws.foldl (fun m w => if w.before m then w else m) m).key ≤ m.key ∧
    ∀ w ∈ ws, (ws.foldl (fun m w => if w.before m then w else m) m).key ≤ w.key
  | [], m => ⟨Or.inl rfl, le_refl _, by simp⟩
  | x :: ws, m => by
      rw [List.foldl_cons]
      by_cases hx : x.before m = true
      · rw [if_pos hx]
        obtain ⟨hmem, hle, hall⟩ := foldl_before ws x
        have hlt := (Worker.before_iff x m).mp hx
        refine ⟨Or.inr ?_, hle.trans hlt.le, ?_⟩
        · rcases hmem with heq | hin
          · rw [heq]
            exact List.mem_cons_self
          · exact List.mem_cons_of_mem _ hin
        · intro w hw
          rcases List.mem_cons.mp hw with rfl | hw
          · exact hle
          · exact hall w hw
      · rw [if_neg hx]
        obtain ⟨hmem, hle, hall⟩ := foldl_before ws m
        have hge : m.key ≤ x.key := not_lt.mp (fun hlt => hx ((Worker.before_iff x m).mpr hlt))
        refine ⟨hmem.imp_right (List.mem_cons_of_mem _), hle, ?_⟩
        intro w hw
        rcases List.mem_cons.mp hw with rfl | hw
        · exact hle.trans hge
        · exact hall w hw

/-- The least number is that of a worker. -/
theorem minElement_some {ws : List Worker} {n : Nat}
    (h : (minElement ws).bind Worker.getInitBlockNumber = some n) :
    (∃ m ∈ ws, m.getInitBlockNumber = some n) ∧
      ∀ w ∈ ws, ∀ k, w.getInitBlockNumber = some k → n ≤ k := by
  cases ws with
  | nil => simp [minElement] at h
  | cons x ws =>
    rw [minElement, Option.bind_some] at h
    obtain ⟨hmem, hle, hall⟩ := foldl_before ws x
    set m := ws.foldl (fun m w => if w.before m then w else m) x with hm
    have hleast : ∀ w ∈ x :: ws, m.key ≤ w.key := by
      intro w hw
      rcases List.mem_cons.mp hw with rfl | hw
      · exact hle
      · exact hall w hw
    refine ⟨⟨m, ?_, h⟩, ?_⟩
    · rcases hmem with heq | hin
      · rw [heq]
        exact List.mem_cons_self
      · exact List.mem_cons_of_mem _ hin
    · intro w hw k hk
      have hkey := hleast w hw
      simp only [Worker.key, h, hk] at hkey
      exact WithTop.coe_le_coe.mp hkey

/-- Without a least number no worker has one. -/
theorem minElement_none {ws : List Worker}
    (h : (minElement ws).bind Worker.getInitBlockNumber = none) :
    ∀ w ∈ ws, w.getInitBlockNumber = none := by
  cases ws with
  | nil => simp
  | cons x ws =>
    rw [minElement, Option.bind_some] at h
    obtain ⟨-, hle, hall⟩ := foldl_before ws x
    set m := ws.foldl (fun m w => if w.before m then w else m) x with hm
    intro w hw
    have hkey : m.key ≤ w.key := by
      rcases List.mem_cons.mp hw with rfl | hw
      · exact hle
      · exact hall w hw
    cases hk : w.getInitBlockNumber with
    | none => rfl
    | some k => simp [Worker.key, h, hk] at hkey

/-! ## The loop -/

/-- What a worker takes of the blocks that are fetched. -/
def Worker.wants (w : Worker) (block : BlockInfo × Blob) : Bool :=
  match w.getInitBlockNumber, block.1.header.blockNumber with
  | some n, some blockNumber => n < blockNumber
  | _, _ => false

theorem Worker.offer_eq {n : Nat} {block : BlockInfo × Blob}
    (hn : block.1.header.blockNumber = some n) (w : Worker) :
    w.offer n block = .ok (if w.wants block then w.push block else w) := by
  obtain ⟨kind, given⟩ := w
  cases kind with
  | cache => rfl
  | main k =>
    simp only [offer, process, getInitBlockNumber, wants, hn]
    by_cases hk : k < n <;> simp [hk]
  | script k =>
    simp only [offer, process, getInitBlockNumber, wants, hn]
    by_cases hk : k < n <;> simp [hk]
  | nodeTest k =>
    simp only [offer, process, getInitBlockNumber, wants, hn]
    by_cases hk : k < n <;> simp [hk]

/-- A worker after these blocks have been offered to it. -/
def Worker.after (blocks : List (BlockInfo × Blob)) (w : Worker) : Worker :=
  { w with given := w.given ++ blocks.filter w.wants }

theorem Worker.after_cons (block : BlockInfo × Blob) (blocks : List (BlockInfo × Blob))
    (w : Worker) :
    Worker.after blocks (if w.wants block then w.push block else w) = w.after (block :: blocks) := by
  unfold after
  by_cases hw : w.wants block = true
  · have hsame : (w.push block).wants = w.wants := rfl
    rw [if_pos hw, hsame, List.filter_cons_of_pos hw]
    simp [push]
  · rw [if_neg hw, List.filter_cons_of_neg hw]

/-- The sources have the chain's blocks wherever the loop asks them. -/
def SourcesAgree (src : BlockSources) (c : BlockChain) : List Nat → GetNewBlocksFromServer → Prop
  | [], _ => True
  | n :: rest, g =>
    src.Agrees g (c.getBlockByNumber n) ∧
      SourcesAgree src c rest (src.refetch g (c.getBlockByNumber n)).2

/-- A block with the hash that the chain has at its number. -/
def OnChain (c : BlockChain) (block : BlockInfo × Blob) : Prop :=
  ∀ i, block.1.header.blockNumber = some i → block.1.header.hash = (c.getBlockByNumber i).hash

theorem retry_ok {src : BlockSources} {c : BlockChain} :
    ∀ {ns : List Nat} {ws ws' : List Worker} {g g' : GetNewBlocksFromServer},
    (∀ n ∈ ns, (c.getBlockByNumber n).blockNumber = some n) →
    retry src c ns ws g = (.ok ws', g') →
    ∃ blocks : List (BlockInfo × Blob),
      blocks.map (fun b => b.1.header.blockNumber) = ns.map some ∧
      ws' = ws.map (Worker.after blocks) ∧
      (SourcesAgree src c ns g ↔ ∀ b ∈ blocks, OnChain c b)
  | [], ws, ws', g, g', _, h => by
      obtain ⟨h, -⟩ := Prod.mk.inj h
      refine ⟨[], rfl, ?_, by simp [SourcesAgree]⟩
      have hafter : ∀ w : Worker, Worker.after [] w = w := by
        intro w
        simp [Worker.after]
      rw [← Except.ok.inj h, List.map_congr_left (fun w _ => hafter w), List.map_id']
  | n :: ns, ws, ws', g, g', hnum, h => by
      have hn := hnum n List.mem_cons_self
      cases hfetch : src.refetch g (c.getBlockByNumber n) with
      | mk r g₁ =>
        cases r with
        | error e => simp [retry, hfetch] at h
        | ok block =>
          obtain ⟨hblock, hagrees⟩ := BlockSources.refetch_ok hn hfetch
          simp only [retry, hfetch, mapM_eq_ok (fun w _ => Worker.offer_eq hblock w)] at h
          obtain ⟨blocks, hnumbers, hws, hiff⟩ :=
            retry_ok (fun k hk => hnum k (List.mem_cons_of_mem _ hk)) h
          refine ⟨block :: blocks, by simp [hblock, hnumbers], ?_, ?_⟩
          · rw [hws, List.map_map]
            exact List.map_congr_left (fun w _ => Worker.after_cons block blocks w)
          · have hchain : OnChain c block ↔ block.1.header.hash = (c.getBlockByNumber n).hash := by
              simp [OnChain, hblock]
            rw [SourcesAgree, hfetch, hagrees, hiff, List.forall_mem_cons, hchain]

/-! ## All workers -/

/-- Each worker has been given the blocks behind its number, in order, and they are the chain's. -/
structure CaughtUp (c : BlockChain) (workers : List Worker) : Prop where
  numbers : ∀ w ∈ workers, ∀ n, w.getInitBlockNumber = some n →
    w.given.map (fun b => b.1.header.blockNumber) =
      (List.range' (n + 1) (c.countBlocks - n)).map some
  hashes : ∀ w ∈ workers, ∀ b ∈ w.given, OnChain c b

/-- The block at each height of the chain has this height. -/
def NumberedByHeight (c : BlockChain) : Prop :=
  ∀ n ≤ c.countBlocks, (c.getBlockByNumber n).blockNumber = some n

/-- It has where each reference is to a header of this height, whatever stands below it. -/
theorem numberedByHeight {c : BlockChain}
    (hgenesis : c.hashes[0]? = some BlockChain.GENESIS_BLOCK_HASH)
    (hstored : ∀ (i : Nat) (h : Blob), c.hashes[i]? = some h →
      ∃ b, c.blocks.find? h = some b ∧ b.hash = h ∧ b.blockNumber = some i) :
    NumberedByHeight c := by
  intro n hle
  have hpos : 0 < c.hashes.length := (List.getElem?_eq_some_iff.mp hgenesis).1
  have hlt : n < c.hashes.length := by
    rw [BlockChain.countBlocks] at hle
    omega
  obtain ⟨b, hb, -, hnum⟩ := hstored n _ (List.getElem?_eq_getElem hlt)
  rw [BlockChain.getBlockByNumber, List.getElem?_eq_getElem hlt]
  simp [BlockChain.deref, hb, hnum]

/-- The numbers from the least on, less those that a worker has. -/
theorem filter_range' {n k count : Nat} (h : n ≤ k) :
    (List.range' (n + 1) (count - n)).filter (fun i => decide (k < i)) =
      List.range' (k + 1) (count - k) := by
  by_cases hk : k ≤ count
  · have hsplit : List.range' (n + 1) (count - n) =
        List.range' (n + 1) (k - n) ++ List.range' (k + 1) (count - k) := by
      have happ := List.range'_append_1 (s := n + 1) (m := k - n) (n := count - k)
      rw [show n + 1 + (k - n) = k + 1 by omega, show k - n + (count - k) = count - n by omega] at happ
      exact happ.symm
    have hbelow : (List.range' (n + 1) (k - n)).filter (fun i => decide (k < i)) = [] := by
      rw [List.filter_eq_nil_iff]
      intro i hi
      rw [List.mem_range'_1] at hi
      simp only [decide_eq_true_eq]
      omega
    have habove : (List.range' (k + 1) (count - k)).filter (fun i => decide (k < i)) =
        List.range' (k + 1) (count - k) := by
      rw [List.filter_eq_self]
      intro i hi
      rw [List.mem_range'_1] at hi
      simp only [decide_eq_true_eq]
      omega
    rw [hsplit, List.filter_append, hbelow, habove, List.nil_append]
  · have hnone : count - k = 0 := by omega
    rw [hnone, List.range'_zero, List.filter_eq_nil_iff]
    intro i hi
    rw [List.mem_range'_1] at hi
    simp only [decide_eq_true_eq]
    omega

/-- Whatever is fetched, there is a worker that does not have it yet. -/
theorem exists_behind {c : BlockChain} {ws : List Worker} {i : Nat} (hi : i ∈ retryNumbers c ws) :
    ∃ w ∈ ws, ∃ m, w.getInitBlockNumber = some m ∧ m < i := by
  unfold retryNumbers at hi
  cases hmin : (minElement ws).bind Worker.getInitBlockNumber with
  | none => simp [hmin] at hi
  | some m =>
    obtain ⟨⟨w, hw, hm⟩, -⟩ := minElement_some hmin
    rw [hmin] at hi
    have hle := List.mem_range'_1.mp hi
    exact ⟨w, hw, m, hm, by omega⟩

/-- Of what is fetched, a worker does not have what is behind its number. -/
theorem filter_retryNumbers (c : BlockChain) {ws : List Worker} {w : Worker} {k : Nat} (hw : w ∈ ws)
    (hk : w.getInitBlockNumber = some k) :
    (retryNumbers c ws).filter (fun i => decide (k < i)) =
      List.range' (k + 1) (c.countBlocks - k) := by
  unfold retryNumbers
  cases hmin : (minElement ws).bind Worker.getInitBlockNumber with
  | none => simp [minElement_none hmin w hw] at hk
  | some m => exact filter_range' ((minElement_some hmin).2 w hw k hk)

theorem number_of_retried {c : BlockChain} (hc : NumberedByHeight c) {ws : List Worker} {n : Nat}
    (hn : n ∈ retryNumbers c ws) : (c.getBlockByNumber n).blockNumber = some n := by
  unfold retryNumbers at hn
  cases hmin : (minElement ws).bind Worker.getInitBlockNumber with
  | none => simp [hmin] at hn
  | some m =>
    rw [hmin] at hn
    have hle := List.mem_range'_1.mp hn
    exact hc n (by omega)

/-- What a worker takes, by numbers. -/
theorem numbers_after {blocks : List (BlockInfo × Blob)} {ns : List Nat} {w : Worker} {k : Nat}
    (hk : w.getInitBlockNumber = some k)
    (hnumbers : blocks.map (fun b => b.1.header.blockNumber) = ns.map some) :
    (blocks.filter w.wants).map (fun b => b.1.header.blockNumber) =
      (ns.filter (fun i => decide (k < i))).map some := by
  have hwants : w.wants = (fun number : Option Nat => number.any (fun i => decide (k < i))) ∘
      (fun b : BlockInfo × Blob => b.1.header.blockNumber) := by
    funext b
    simp only [Worker.wants, hk, Function.comp_apply]
    cases b.1.header.blockNumber <;> rfl
  rw [hwants, ← List.filter_map, hnumbers, List.filter_map]
  rfl

theorem newWorkers_given {settings : WorkerSettings} {workers : List Worker}
    (h : newWorkers settings = .ok workers) : ∀ w ∈ workers, w.given = [] := by
  obtain ⟨-, h⟩ := check_bind_eq_ok.mp h
  obtain ⟨-, h⟩ := check_bind_eq_ok.mp h
  rw [← Except.ok.inj h]
  intro w hw
  simp only [List.cons_append, List.nil_append, List.mem_cons, List.mem_append,
    List.mem_ite_nil_right, List.not_mem_nil, or_false] at hw
  rcases hw with rfl | rfl | ⟨-, rfl⟩ | ⟨-, rfl⟩ <;> rfl

/--
**The workers catch up with the chain**: if `makeWorkers` returns, each worker has
been given the blocks behind its number, each once and in order; and these are the
blocks of the chain exactly if the block files, and where they fail the servers, have
nothing else under the numbers that are asked for.
-/
theorem makeWorkers_iff {src : BlockSources} {c : BlockChain} {settings : WorkerSettings}
    {g g' : GetNewBlocksFromServer} {fresh workers : List Worker} (hc : NumberedByHeight c)
    (hfresh : newWorkers settings = .ok fresh)
    (h : makeWorkers src c settings g = (.ok workers, g')) :
    CaughtUp c workers ↔ SourcesAgree src c (retryNumbers c fresh) g := by
  rw [makeWorkers, hfresh] at h
  obtain ⟨blocks, hnumbers, rfl, hiff⟩ := retry_ok (fun n hn => number_of_retried hc hn) h
  have hnil := newWorkers_given hfresh
  rw [hiff]
  constructor
  · intro hcaught b hb
    have hb' : b.1.header.blockNumber ∈ (retryNumbers c fresh).map some := by
      rw [← hnumbers]
      exact List.mem_map_of_mem hb
    obtain ⟨i, hi, hbi⟩ := List.mem_map.mp hb'
    -- the worker that is least takes every block
    obtain ⟨w, hw, m, hm, hlt⟩ := exists_behind hi
    refine hcaught.hashes _ (List.mem_map_of_mem hw) b ?_
    rw [Worker.after, hnil w hw, List.nil_append, List.mem_filter, Worker.wants, hm, ← hbi]
    exact ⟨hb, decide_eq_true hlt⟩
  · intro hchain
    refine ⟨?_, ?_⟩
    · intro w' hw' k hk
      obtain ⟨w, hw, rfl⟩ := List.mem_map.mp hw'
      have hk' : w.getInitBlockNumber = some k := hk
      rw [Worker.after, hnil w hw, List.nil_append, numbers_after hk' hnumbers,
        filter_retryNumbers c hw hk']
    · intro w' hw' b hb
      obtain ⟨w, hw, rfl⟩ := List.mem_map.mp hw'
      rw [Worker.after, hnil w hw, List.nil_append] at hb
      exact hchain b (List.mem_of_mem_filter hb)

/-- A chain with a block whose hash is made of ones, and one with a block of twos above it. -/
def grownOne : BlockChain := (BlockChain.new.addBlock (BlockChain.simpleHeader 1 0)).2

/-- The second of them. -/
def grownTwo : BlockChain := (grownOne.addBlock (BlockChain.simpleHeader 2 1)).2

theorem numbered_grownTwo : NumberedByHeight grownTwo := by
  have hfirst : BlockChain.Run BlockChain.Offered grownOne :=
    .add .new ⟨by decide, rfl, fun _ => Or.inl (by decide)⟩
  have hsecond : BlockChain.Run BlockChain.Offered grownTwo :=
    .add hfirst ⟨by decide, rfl, fun h => absurd h (by decide +kernel)⟩
  have hc := (BlockChain.run_offered hsecond).1
  exact numberedByHeight hc.genesis hc.stored

/-- No block file is left, and the only server has under each number a block of one byte. -/
def oneServer (byte : UInt8 → UInt8) : BlockSources where
  files _ := none
  parseNextBlockInfo _ _ dump :=
    .ok (.block
      { header := BlockChain.simpleHeader (dump.val.headD 0) (dump.val.headD 0 - 1), txs := [] })
  net :=
    { messages :=
        { parseCountBlocksMessage := fun _ => .ok (2, ∅)
          parsePreloadBlocksMessage := fun _ => .error (.exception "Unknown response")
          parseBlockHeader := fun text => .ok { (default : MinimumBlockHeader) with
            hash := text, number := (text.val.headD 0).toNat, blockSize := 1 }
          parseBlocksHeader := fun _ => .ok []
          parseAdditionalBlockHashes := fun _ => .ok []
          parseDumpBlockBinary := fun dump _ => .ok dump
          parseDumpBlocksBinary := fun _ _ => .ok [] }
      p2p :=
        { countBlocks := fun _ => ⟨[(∅, .ok ∅)], none⟩
          preLoad := fun _ _ _ => ⟨[], none⟩
          headers := fun _ _ _ => .ok []
          dumps := fun _ _ _ _ => .ok []
          dump := fun _ hash _ _ _ _ =>
            .ok (Blob.replicate 1 (byte (hash.val.headD 0)) Blob.byte_fits)
          wholeDump := fun _ _ _ _ => .ok ∅ } }
  runOneRequest _ n _ := .ok (Blob.replicate 32 (UInt8.ofNat n) Blob.hash_fits)
  isVerifySign := false
  saveAllTx := false
  scheme := trustingScheme

/-- The main worker at the start, and the script worker behind the first block. -/
def mainAndScript : WorkerSettings :=
  { moduleV8 := true, moduleNodeTest := false, leveldbOptScript := true
    leveldbOptNodeTest := false, mainBlock := 0, scriptBlock := 1, nodeStatBlock := 0 }

/-- Nothing was loaded and nothing asked for. -/
def noRequests : GetNewBlocksFromServer :=
  { maxAdvancedLoadBlocks := 1, countBlocksInBatch := 1, isCompress := false
    advancedLoadsBlocksHeaders := [], advancedLoadsBlocksDumps := ∅, asked := 0 }

/-- The block of this byte, as it is given under a number. -/
def servedBlock (byte : UInt8) (n : Nat) : BlockInfo × Blob :=
  ({ header := (BlockChain.simpleHeader byte (byte - 1)).withNumber (some n), txs := [] },
    Blob.replicate 1 byte Blob.byte_fits)

theorem makeWorkers_oneServer (byte : UInt8 → UInt8) :
    makeWorkers (oneServer byte) grownTwo mainAndScript noRequests =
      (.ok [⟨.cache, []⟩, ⟨.main 0, [servedBlock (byte 1) 1, servedBlock (byte 2) 2]⟩,
        ⟨.script 1, [servedBlock (byte 2) 2]⟩], { noRequests with asked := 6 }) := by
  rfl

/-- A server with the chain's own blocks. -/
theorem makeWorkers_iff_two :
    CaughtUp grownTwo [⟨.cache, []⟩, ⟨.main 0, [servedBlock 1 1, servedBlock 2 2]⟩,
      ⟨.script 1, [servedBlock 2 2]⟩] := by
  refine (makeWorkers_iff numbered_grownTwo rfl (makeWorkers_oneServer id)).mpr ?_
  refine ⟨?_, ?_, trivial⟩
  · intro block hblock
    rw [← Except.ok.inj hblock]
    decide +kernel
  · intro block hblock
    rw [← Except.ok.inj hblock]
    decide +kernel

/-- A server has another block under the second number, and the workers are given that. -/
theorem other_chain_given :
    ∃ workers g, makeWorkers (oneServer fun n => if n = 2 then 3 else n) grownTwo mainAndScript
        noRequests = (.ok workers, g) ∧ ¬ CaughtUp grownTwo workers := by
  refine ⟨_, _, makeWorkers_oneServer _, ?_⟩
  intro h
  have hhash := h.hashes ⟨.script 1, [servedBlock 3 2]⟩ (by simp) (servedBlock 3 2) (by simp) 2 rfl
  exact absurd hhash (by decide +kernel)

end SyncImpl

end TorrentNode
