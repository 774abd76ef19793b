import TorrentNode.BlockSource.FileEnds
import TorrentNode.Parsing.OneTransaction
import TorrentNode.Sync.CatchUp
import TorrentNode.Sync.Rejected

/-!
# Where transactions are found again

A block that comes over the network is parsed as if it stood alone. Its transactions get
their places when it is appended to a file. A block of a file is parsed at its place
there. Either way each transaction is found where the block says, whatever the
file has got since. Only the value of a delegation that is taken back may be another
one each time it is read.
-/

namespace TorrentNode

open CursorReader

variable {env : ParseEnv} {isSaveAllTx isValidate : Bool}

/-- The place of a transaction is one in a file, and stays right as the file grows. -/
def TransactionInfo.FoundIn (env : ParseEnv) (files : Blob → Option Bytes) (tx : TransactionInfo) :
    Prop :=
  ∃ file, files tx.filePos.fileNameRelative = some file ∧
    ∀ later : Blob, file <+: later.val → tx.ReadFrom env later

/-- A dump that is found in a file stands behind its size. -/
theorem readNextBlockDump_stands {file : Blob} {pos next : UInt64} {dump : Option Blob}
    (h : readNextBlockDump file.val pos = .ok (next, dump)) (hmoves : next ≠ pos) :
    pos.toNat + 8 ≤ file.size ∧ (dump.getD ∅).val <+: file.val.drop (pos.toNat + 8) := by
  unfold readNextBlockDump at h
  obtain ⟨⟨n, block⟩, hget, h⟩ := bind_eq_ok.mp h
  by_cases hn : n = 0
  · rw [if_pos hn] at h
    exact absurd (Prod.mk.inj (Except.ok.inj h)).1.symm hmoves
  · rw [if_neg hn] at h
    obtain ⟨hwhole, hstands⟩ := getBlockDump_whole hget hn
    obtain ⟨-, rfl⟩ := Prod.mk.inj (Except.ok.inj h)
    exact ⟨by omega, hstands⟩

/-- What stands in a file stands there when the file has grown. -/
theorem stands_of_grown {raw file later : Bytes} {start : Nat} (hstart : start ≤ file.length)
    (h : raw <+: file.drop start) (hlater : file <+: later) : raw <+: later.drop start := by
  obtain ⟨more, rfl⟩ := hlater
  rw [List.drop_append_of_le_length hstart]
  exact h.trans (List.prefix_append _ _)

/-- The transactions of a block whose dump stands in a file. -/
theorem readFrom_of_parse {file dump : Blob} {bi : BlockInfo} {start : Nat}
    {posInFile shift : UInt64} (fileNameRelative : Blob)
    (hstands : dump.val <+: file.val.drop start)
    (hshift : posInFile + 8 + shift = UInt64.ofNat start)
    (h : parseNextBlockInfo env ⟨isSaveAllTx, isValidate, 0, 0⟩ posInFile dump = .ok (.block bi)) :
    ∀ tx ∈ bi.txs, TransactionInfo.ReadFrom env file
      { tx with filePos := { fileNameRelative, pos := tx.filePos.pos + shift } } :=
  readFrom_of_run fileNameRelative hstands hshift
    (run_of_parse rfl (Or.inl rfl) (parseNextBlockInfo_block.mp h).2.2) (by decide)

/-! ## Blocks from the network -/

theorem saveTransactions_found {s s' : SyncImpl} {dump : Blob} {parsed bi bi' : BlockInfo}
    (hparse : parseNextBlockInfo env ⟨isSaveAllTx, isValidate, 0, 0⟩ 0 dump = .ok (.block parsed))
    (htxs : bi.txs = parsed.txs) (h : s.saveTransactions bi dump true = .ok (bi', s')) :
    ∀ tx ∈ bi'.txs, tx.FoundIn env s'.files.find? := by
  unfold SyncImpl.saveTransactions at h
  simp only [Bool.not_true, Bool.false_eq_true, if_false] at h
  by_cases hname : bi.header.filePos.fileNameRelative.isEmpty = true
  · rw [if_pos hname] at h
    cases h
  rw [if_neg hname] at h
  obtain ⟨rfl, rfl⟩ := Prod.mk.inj (Except.ok.inj h)
  intro tx' htx'
  obtain ⟨tx, htx, rfl⟩ := List.mem_map.mp htx'
  refine ⟨_, OrdMap.find?_insert_self, fun later hlater => ?_⟩
  obtain ⟨old, hold⟩ :
      ∃ old, (s.files.find? bi.header.filePos.fileNameRelative).getD [] = old := ⟨_, rfl⟩
  rw [hold] at hlater
  have hstart : (old ++ (serializeInt 8 dump.size).reverse).length = old.length + 8 := by
    rw [List.length_append, List.length_reverse, length_serializeInt]
  have hstands : dump.val <+: later.val.drop (old.length + 8) := by
    refine stands_of_grown ?_ ?_ hlater
    · rw [List.length_append, hstart]
      exact Nat.le_add_right _ _
    · rw [List.drop_left' hstart]
  have hshift : 0 + 8 + UInt64.ofNat old.length = UInt64.ofNat (old.length + 8) := by
    rw [UInt64.ofNat_add, UInt64.zero_add, UInt64.add_comm]
    rfl
  rw [htxs] at htx
  have hfrom := readFrom_of_parse bi.header.filePos.fileNameRelative hstands hshift hparse tx htx
  rw [← hold] at hfrom
  exact hfrom

/-! ## Blocks from files -/

/-- A block that is parsed where its dump stands. -/
theorem parsed_found {file : Bytes} {dump : Blob} {bi : BlockInfo} {pos next : UInt64}
    {found : Option Blob} (hread : readNextBlockDump file pos = .ok (next, found))
    (hmoves : next ≠ pos) (hdump : found.getD ∅ = dump)
    (h : parseNextBlockInfo env ⟨isSaveAllTx, isValidate, 0, 0⟩ pos dump = .ok (.block bi))
    {fileNameRelative : Blob} {files : Blob → Option Bytes}
    (hfile : files fileNameRelative = some file) :
    ∀ tx ∈ bi.txs, TransactionInfo.FoundIn env files
      { tx with filePos := { tx.filePos with fileNameRelative } } := by
  intro tx htx
  refine ⟨file, hfile, fun later hlater => ?_⟩
  obtain ⟨content, rfl⟩ : ∃ content : Blob, content.val = file :=
    ⟨⟨file, Nat.lt_of_le_of_lt hlater.length_le later.property⟩, rfl⟩
  obtain ⟨hstart, hstands⟩ := readNextBlockDump_stands hread hmoves
  rw [hdump] at hstands
  have hshift : pos + 8 + 0 = UInt64.ofNat (pos.toNat + 8) := by
    rw [UInt64.ofNat_add, UInt64.ofNat_toNat, UInt64.add_zero]
    rfl
  have hfrom := readFrom_of_parse fileNameRelative (stands_of_grown hstart hstands hlater) hshift h
    tx htx
  rwa [UInt64.add_zero] at hfrom

/-- The files of a folder, by relative name. -/
def FileBlockSource.contents (s : FileBlockSource) (fileName : Blob) : Option Bytes :=
  (s.find? fileName).map Subtype.val

namespace FileBlockSource

variable {s t : FileBlockSource} {file dump : Blob} {bi : BlockInfo}

theorem contents_of_folder (h : t.folder = s.folder) : t.contents = s.contents := by
  funext fileName
  unfold contents find?
  rw [h]

/-- What is opened is the file of the name that is kept then. -/
theorem opened_find (h : s.opened = (.ok (some file), t)) :
    t.find? t.fileName = some file ∧ t.contents = s.contents := by
  rcases opened_eq h with ⟨-, -, hfind, rfl⟩ | ⟨-, hfind, rfl⟩
  · exact ⟨hfind, contents_of_folder rfl⟩
  · exact ⟨hfind, rfl⟩

/-- A block that a round hands over. -/
theorem readRound_found (hfile : s.find? s.fileName = some file)
    (h : s.readRound (parseNextBlockInfo env ⟨isSaveAllTx, isValidate, 0, 0⟩) file =
      (some (.ok (some (.block bi, dump))), t)) :
    ∀ tx ∈ bi.txs, tx.FoundIn env s.contents := by
  have hcontents : s.contents s.fileName = some file.val := by
    unfold contents
    rw [hfile]
    rfl
  unfold readRound at h
  cases hread : readNextBlockDump file.val s.currPos with
  | error e =>
      rw [hread] at h
      cases h
  | ok r =>
      obtain ⟨next, found⟩ := r
      rw [hread] at h
      simp only at h
      -- Only a common block that was parsed from its own place is handed over.
      by_cases hstay : s.currPos = next
      · rw [if_pos hstay] at h
        cases h
      rw [if_neg hstay] at h
      cases hparse : parseNextBlockInfo env ⟨isSaveAllTx, isValidate, 0, 0⟩ s.currPos (found.getD ∅) with
      | error e =>
          rw [hparse] at h
          cases h
      | ok info =>
          rw [hparse] at h
          cases info with
          | block parsed =>
              cases h
              intro tx' htx'
              obtain ⟨tx, htx, rfl⟩ := List.mem_map.mp htx'
              exact parsed_found hread (Ne.symm hstay) rfl hparse hcontents tx htx
          | sign parsed => cases h
          | monostate => cases h
          | rejected =>
              -- a block of rejected transactions is not handed over
              simp only at h
              split at h
              · cases h
              · split at h
                · cases h
                · cases h

theorem round_found
    (h : s.round (parseNextBlockInfo env ⟨isSaveAllTx, isValidate, 0, 0⟩) =
      (some (.ok (some (.block bi, dump))), t)) :
    ∀ tx ∈ bi.txs, tx.FoundIn env s.contents := by
  unfold round at h
  rcases hopened : s.opened with ⟨e | found, u⟩
  · rw [hopened] at h
    cases h
  · rw [hopened] at h
    cases found with
    | none => cases h
    | some file =>
        obtain ⟨hfile, hcontents⟩ := opened_find hopened
        rw [← hcontents]
        exact readRound_found hfile h

/-- The files stay as they are from round to round. -/
theorem round_contents {parse : UInt64 → Blob → Except Err NextBlockInfo}
    (h : s.round parse = (none, t)) : t.contents = s.contents := by
  unfold round at h
  rcases hopened : s.opened with ⟨e | found, u⟩
  · rw [hopened] at h
    cases h
  · rw [hopened] at h
    cases found with
    | none => cases h
    | some file =>
        rw [← (opened_find hopened).2]
        rcases readRound_again h with ⟨-, rfl⟩ | ⟨-, -, hfolder, -⟩
        · exact contents_of_folder rfl
        · exact contents_of_folder hfolder

theorem process_found : ∀ (fuel : Nat) (s : FileBlockSource),
    s.process (parseNextBlockInfo env ⟨isSaveAllTx, isValidate, 0, 0⟩) fuel =
        (some (.ok (some (.block bi, dump))), t) →
      ∀ tx ∈ bi.txs, tx.FoundIn env s.contents := by
  intro fuel
  induction fuel with
  | zero => exact fun s h => by cases h
  | succ fuel ih =>
      intro s h
      unfold process at h
      rcases hround : s.round (parseNextBlockInfo env ⟨isSaveAllTx, isValidate, 0, 0⟩) with ⟨_ | res, u⟩
      · rw [hround] at h
        rw [← round_contents hround]
        exact ih u h
      · rw [hround] at h
        cases h
        exact round_found hround

end FileBlockSource

/-- A block that is fetched once more from its file. -/
theorem getExistingBlockS_found {src : BlockSources} {bh : BlockHeader} {bi : BlockInfo}
    {dump : Blob}
    (hsrc : ∀ posInFile isSaveAll, src.parseNextBlockInfo posInFile isSaveAll =
      parseNextBlockInfo env ⟨isSaveAll, isValidate, 0, 0⟩ posInFile)
    (h : src.getExistingBlockS bh = .ok (bi, dump)) :
    ∀ tx ∈ bi.txs, tx.FoundIn env src.files := by
  obtain ⟨⟨parsed, found⟩, hrecorded, hplaced⟩ := bind_eq_ok.mp h
  obtain ⟨txs, htxs, hplaced⟩ := bind_eq_ok.mp hplaced
  cases hplaced
  obtain ⟨-, hrecorded⟩ := check_bind_eq_ok.mp hrecorded
  cases hfile : src.files bh.filePos.fileNameRelative with
  | none =>
      rw [hfile] at hrecorded
      cases hrecorded
  | some file =>
      rw [hfile] at hrecorded
      -- The block is read again at the place that its header records.
      obtain ⟨⟨next, found⟩, hread, hrecorded⟩ := bind_eq_ok.mp hrecorded
      obtain ⟨hmoves, hrecorded⟩ := check_bind_eq_ok.mp hrecorded
      obtain ⟨info, hparse, hrecorded⟩ := bind_eq_ok.mp hrecorded
      rw [hsrc] at hparse
      cases info with
      | block bi =>
          cases hrecorded
          intro tx' htx'
          have hmade := List.mem_map_of_mem (f := Except.ok (ε := Err)) htx'
          rw [← mapM_eq_ok_iff.mp htxs] at hmade
          obtain ⟨tx, htx, hmade⟩ := List.mem_map.mp hmade
          cases hnumber : bh.blockNumber with
          | none =>
              rw [hnumber] at hmade
              cases hmade
          | some n =>
              rw [hnumber] at hmade
              cases hmade
              exact parsed_found hread (bne_iff_ne.mp hmoves) rfl hparse hfile tx htx
      | sign bi => cases hrecorded
      | monostate => cases hrecorded
      | rejected => cases hrecorded

/-- **The place that is recorded for a transaction is its place**, for a block that was appended to
a file as well as for one that was read from it, and whatever was appended since. What is read
there is the transaction, with the value that the memory holds if it takes a delegation back. -/
theorem readOneSimpleTransactionInfo_recorded (env : ParseEnv) (isSaveAllTx isValidate : Bool) :
    (∀ (s s' : SyncImpl) (dump : Blob) (parsed bi bi' : BlockInfo),
      parseNextBlockInfo env ⟨isSaveAllTx, isValidate, 0, 0⟩ 0 dump = .ok (.block parsed) →
        bi.txs = parsed.txs → s.saveTransactions bi dump true = .ok (bi', s') →
        ∀ tx ∈ bi'.txs, tx.FoundIn env s'.files.find?) ∧
    (∀ (s s' : FileBlockSource) (fuel : Nat) (bi : BlockInfo) (dump : Blob),
      s.process (parseNextBlockInfo env ⟨isSaveAllTx, isValidate, 0, 0⟩) fuel =
          (some (.ok (some (.block bi, dump))), s') →
        ∀ tx ∈ bi.txs, tx.FoundIn env s.contents) ∧
    (∀ (src : BlockSources) (bh : BlockHeader) (bi : BlockInfo) (dump : Blob),
      (∀ posInFile isSaveAll, src.parseNextBlockInfo posInFile isSaveAll =
        parseNextBlockInfo env ⟨isSaveAll, isValidate, 0, 0⟩ posInFile) →
      src.getExistingBlockS bh = .ok (bi, dump) → ∀ tx ∈ bi.txs, tx.FoundIn env src.files) := by
  refine ⟨?_, ?_, ?_⟩
  · intro s s' dump parsed bi bi' hparse htxs hsave
    exact saveTransactions_found hparse htxs hsave
  · intro s s' fuel bi dump hprocess
    exact FileBlockSource.process_found fuel s hprocess
  · intro src bh bi dump hsrc hfetch
    exact getExistingBlockS_found hsrc hfetch

/-- A block of two transactions, of which the first takes a delegation back. -/
def undelegateBlock : Blob :=
  ⟨List.replicate 80 0 ++ (54 :: undelegateFrame) ++ bareTx ++ [0], by decide +kernel⟩

/-- A parser that knows these data, and whose hashes are zeros. -/
def undelegateZeroEnv : ParseEnv :=
  { undelegateEnv with get_double_sha256 := fun _ => Blob.replicate 32 0 Blob.hash_fits }

/-- What it is read as. -/
def undelegateBlockInfo : BlockInfo :=
  (parseSimpleBlock undelegateZeroEnv ⟨false, true, 0, 0⟩ 0 undelegateBlock).toOption.getD default

/-- The block, to be appended to a file. -/
def namedBlock : BlockInfo :=
  undelegateBlockInfo.saveFilePath ⟨ascii ['b', 'l', 'k'], Blob.blk_fits⟩

theorem parse_undelegateBlock :
    parseNextBlockInfo undelegateZeroEnv ⟨false, true, 0, 0⟩ 0 undelegateBlock =
      .ok (.block undelegateBlockInfo) :=
  parseNextBlockInfo_block.mpr ⟨by decide +kernel, by decide +kernel, by decide +kernel⟩

theorem readOneSimpleTransactionInfo_recorded_one :
    ∃ bi' s',
      (SyncImpl.fresh true).saveTransactions namedBlock undelegateBlock true = .ok (bi', s') ∧
        bi'.txs.length = 2 ∧ ∀ tx ∈ bi'.txs, tx.FoundIn undelegateZeroEnv s'.files.find? := by
  obtain ⟨bi', s', hsave, htwo⟩ : ∃ bi' s',
      (SyncImpl.fresh true).saveTransactions namedBlock undelegateBlock true = .ok (bi', s') ∧
        bi'.txs.length = 2 := ⟨_, _, rfl, by decide +kernel⟩
  have htxs : namedBlock.txs = undelegateBlockInfo.txs := by rw [namedBlock, BlockInfo.saveFilePath]
  refine ⟨bi', s', hsave, htwo, ?_⟩
  exact (readOneSimpleTransactionInfo_recorded undelegateZeroEnv false true).1 (SyncImpl.fresh true)
    s' undelegateBlock undelegateBlockInfo namedBlock bi' parse_undelegateBlock htxs hsave

/-- What stands at the place of a transaction is read as just the same each time. -/
def TransactionInfo.SameIn (env : ParseEnv) (files : Blob → Option Bytes) (tx : TransactionInfo) :
    Prop :=
  ∃ file, files tx.filePos.fileNameRelative = some file ∧
    ∀ later : Blob, file <+: later.val →
      ∀ memory isSaveAll filePos blockNumber blockIndex hash, ∃ allRawTx,
        readOneSimpleTransactionInfo (env.withMemory memory) later.val tx.filePos.pos
            (.found filePos blockNumber blockIndex hash) isSaveAll =
          .ok (true, tx.alone filePos blockNumber blockIndex allRawTx)

/-- The block as it is recorded, and the file that it was appended to. -/
def undelegateSaved : BlockInfo × SyncImpl :=
  ((SyncImpl.fresh true).saveTransactions namedBlock undelegateBlock true).toOption.getD
    (default, SyncImpl.fresh true)

/-- The delegation that was taken back is read with another value. -/
theorem undelegate_not_same :
    parseNextBlockInfo undelegateZeroEnv ⟨false, true, 0, 0⟩ 0 undelegateBlock =
        .ok (.block undelegateBlockInfo) ∧
      namedBlock.txs = undelegateBlockInfo.txs ∧
      (SyncImpl.fresh true).saveTransactions namedBlock undelegateBlock true =
        .ok undelegateSaved ∧
      ¬∀ tx ∈ undelegateSaved.1.txs,
        tx.SameIn undelegateZeroEnv undelegateSaved.2.files.find? := by
  refine ⟨parse_undelegateBlock, by rw [namedBlock, BlockInfo.saveFilePath], rfl, fun h => ?_⟩
  obtain ⟨tx, other, htwo⟩ : ∃ tx other, undelegateSaved.1.txs = [tx, other] :=
    List.length_eq_two.mp (by decide +kernel)
  obtain ⟨file, hfile, hsame⟩ := h tx (by rw [htwo]; exact List.mem_cons_self)
  -- what is recorded was read from clean memory
  have hclean : undelegateSaved.1.txs.map TransactionInfo.delegate =
      [some { value := 0, isDelegate := false }, none] := by decide +kernel
  have hname : undelegateSaved.1.txs.map (fun tx => tx.filePos) =
      [{ fileNameRelative := ⟨ascii ['b', 'l', 'k'], Blob.blk_fits⟩, pos := 88 },
        { fileNameRelative := ⟨ascii ['b', 'l', 'k'], Blob.blk_fits⟩, pos := 143 }] := by
    decide +kernel
  rw [htwo] at hclean hname
  obtain hclean : tx.delegate = _ := List.head_eq_of_cons_eq hclean
  obtain hname : tx.filePos = _ := List.head_eq_of_cons_eq hname
  rw [hname] at hfile hsame
  have hbytes : undelegateSaved.2.files.find? ⟨ascii ['b', 'l', 'k'], Blob.blk_fits⟩ =
      some ((serializeInt 8 undelegateBlock.size).reverse ++ undelegateBlock.val) := by
    decide +kernel
  obtain rfl := Option.some.inj (hbytes.symm.trans hfile)
  -- Read alone over other memory, it takes back what that memory holds.
  obtain ⟨allRawTx, hread⟩ := hsame ⟨_, by decide +kernel⟩ (List.prefix_refl _) 7 false default 0 0 ∅
  have hseven : ((readOneSimpleTransactionInfo (undelegateZeroEnv.withMemory 7)
      ((serializeInt 8 undelegateBlock.size).reverse ++ undelegateBlock.val) 88
        (.found default 0 0 ∅) false).toOption.map (fun r => r.2.delegate)) =
      some (some { value := 7, isDelegate := false }) := by decide +kernel
  rw [hread] at hseven
  have hvalue : tx.delegate = some { value := 7, isDelegate := false } :=
    Option.some.inj hseven
  rw [hclean] at hvalue
  cases hvalue

end TorrentNode
