import TorrentNode.BlockSource.Network
import TorrentNode.Lib.Loop
import TorrentNode.Storage.BlockFiles

/-!
# The source of blocks in files (`FileBlockSource`, `utils/FileSystem.cpp`)

The files of a folder are read one after the other, each from the position up to which
it was read before. A file that has nothing more to give is closed, and the next one is
the first that is not read to its end. Rejected blocks on the way are passed on, and the
loop of `process` goes on behind them.
-/

namespace TorrentNode

/-- What is kept of a block of rejected transactions: its size and its place. -/
structure RejectedTxsMinimumBlockHeader where
  blockSize : UInt64
  filePos : FilePosition
  deriving DecidableEq

namespace RejectedTxsMinimumBlockHeader

/-- Where the dump ends in its file; eight bytes in front of it are its size. -/
def endBlockPos (h : RejectedTxsMinimumBlockHeader) : Except Err UInt64 := do
  check (h.blockSize != 0) "Incorrect block size"
  pure (h.filePos.pos + h.blockSize + 8)

end RejectedTxsMinimumBlockHeader

/-- `applyFileNameRelative`, whichever block it is. -/
def NextBlockInfo.applyFileNameRelative (fileNameRelative : Blob) : NextBlockInfo → NextBlockInfo
  | .block bi => .block (bi.applyFileNameRelative fileNameRelative)
  | .sign bi => .sign (bi.saveFilePath fileNameRelative)
  | b => b

/-- The name of a directory entry: not empty, and without a slash. -/
abbrev EntryName : Type := {n : Blob // n.val ≠ [] ∧ (47 : UInt8) ∉ n.val}

/-- The entry of the folder that `getFullPath(relative, folder)` leads to: slashes in a row count as
one. -/
def EntryName.resolve (relative : Blob) : Option EntryName :=
  let name := relative.val.dropWhile (fun c => c = 47)
  if h : name ≠ [] ∧ (47 : UInt8) ∉ name then
    some ⟨⟨name, Nat.lt_of_le_of_lt (List.dropWhile_suffix _).length_le relative.property⟩, h⟩
  else none

/-- How far the files were read, by `CroppedFileName`. -/
structure ProcessedFiles where
  files : OrdMap Bytes FilePosition
  /-- Each is kept under its base name. -/
  cropped : ∀ name fi, files.find? name = some fi →
    Batch.getBasename fi.fileNameRelative.val = name

namespace ProcessedFiles

/-- `allFiles[CroppedFileName(fileName)] = fi` -/
def set (p : ProcessedFiles) (fi : FilePosition) : ProcessedFiles where
  files := p.files.insert (Batch.getBasename fi.fileNameRelative.val) fi
  cropped := by
    intro name fi' h
    rw [OrdMap.find?_insert] at h
    split at h
    · rename_i hname
      rw [← Option.some.inj h, hname]
    · exact p.cropped name fi' h

/-- How far the file of a name was read. -/
def readTo (p : ProcessedFiles) (name : Bytes) : Nat :=
  match p.files.find? name with
  | none => 0
  | some fi => fi.pos.toNat

end ProcessedFiles

/-- `name.find(".blk") != npos` -/
def isBlockFile (name : Blob) : Bool :=
  name.val.tails.any (fun rest => (ascii ".blk".toList).isPrefixOf rest)

/-- A file that is not read to its end, and where to go on. -/
def unfinished (processedFiles : ProcessedFiles) (file : EntryName × Blob) : Option FilePosition :=
  match processedFiles.files.find? file.1.val.val with
  | none => some { pos := 0, fileNameRelative := file.1.val }
  | some fileInfo => if fileInfo.pos < UInt64.ofNat file.2.size then some fileInfo else none

/-- `getNextFile(processedFiles, folder)`; without a name if all files are finished. -/
def getNextFile (processedFiles : ProcessedFiles) (folder : OrdMap EntryName Blob) : FilePosition :=
  ((folder.entries.filter (fun file => isBlockFile file.1.val)).findSome?
    (unfinished processedFiles)).getD default

/-- `FileBlockSource`: the folder, and how far it has been read. -/
structure FileBlockSource where
  folder : OrdMap EntryName Blob
  leveldb : LevelDb
  /-- What `rejectedBlockSource.addBlock` was given and still holds. -/
  rejectedBlocks : List RejectedTxsMinimumBlockHeader
  allFiles : ProcessedFiles
  currPos : UInt64
  /-- The file that is open; empty if there is none. -/
  fileName : Blob

namespace FileBlockSource

/-- `FileRejectedBlockSource::addBlock` -/
def addRejectedBlock (s : FileBlockSource) (bi : RejectedTxsMinimumBlockHeader) : FileBlockSource :=
  { s with rejectedBlocks :=
      (s.rejectedBlocks ++ [bi]).drop ((s.rejectedBlocks.length + 1) - 1000) }

/-- `confirmBlockImpl`: a file has been read up to here, and that is recorded. -/
def confirmBlockImpl (s : FileBlockSource) (filepos : FilePosition) :
    Except Err Unit × FileBlockSource :=
  match Batch.new.addFileMetadata filepos with
  | .error e => (.error e, s)
  | .ok batch => (.ok (), { s with leveldb := addBatch batch s.leveldb })

/-- What the file of a relative name holds. -/
def find? (s : FileBlockSource) (fileName : Blob) : Option Blob :=
  (EntryName.resolve fileName).bind s.folder.find?

/-- The start of a round: the file that is read, after the next one was opened if none was open;
nothing if there is no next one. -/
def opened (s : FileBlockSource) : Except Err (Option Blob) × FileBlockSource :=
  if s.fileName.isEmpty then
    let fi := getNextFile s.allFiles s.folder
    if fi.fileNameRelative.isEmpty then (.ok none, s)
    else
      match s.find? fi.fileNameRelative with
      | none => (.error (.exception "Not opened file"), { s with fileName := fi.fileNameRelative })
      | some file =>
        (.ok (some file), { s with fileName := fi.fileNameRelative, currPos := fi.pos })
  else
    match s.find? s.fileName with
    -- the file could not be opened in an earlier call
    | none => (.error (.exception "File not opened"), s)
    | some file => (.ok (some file), s)

/-- What `process` hands over: the block and its dump, or nothing if it returns `false`. -/
abbrev Handed : Type := Option (NextBlockInfo × Blob)

/-- The rest of a round; nothing where the loop goes on. -/
def readRound (parseNextBlockInfo : UInt64 → Blob → Except Err NextBlockInfo) (file : Blob)
    (s : FileBlockSource) : Option (Except Err Handed) × FileBlockSource :=
  match readNextBlockDump file.val s.currPos with
  | .error e => (some (.error e), s)
  | .ok (nextCurrPos, dump) =>
    if s.currPos = nextCurrPos then (none, { s with fileName := ∅ })
    else
      let binaryDump := dump.getD ∅
      match parseNextBlockInfo s.currPos binaryDump with
      | .error e => (some (.error e), s)
      | .ok blockInfo =>
        let filePos : FilePosition := { pos := s.currPos, fileNameRelative := s.fileName }
        let s : FileBlockSource :=
          { s with
            currPos := nextCurrPos
            allFiles := s.allFiles.set { pos := nextCurrPos, fileNameRelative := s.fileName } }
        match blockInfo with
        | .rejected =>
          let bi : RejectedTxsMinimumBlockHeader :=
            { blockSize := UInt64.ofNat binaryDump.size, filePos }
          match bi.endBlockPos with
          | .error e => (some (.error e), s)
          | .ok pos =>
            match s.confirmBlockImpl { filePos with pos } with
            | (.error e, s) => (some (.error e), s)
            | (.ok (), s) => (none, s.addRejectedBlock bi)
        | blockInfo =>
          (some (.ok (some (blockInfo.applyFileNameRelative s.fileName, binaryDump))), s)

/-- A round of the loop of `process`. -/
def round (parseNextBlockInfo : UInt64 → Blob → Except Err NextBlockInfo) (s : FileBlockSource) :
    Option (Except Err Handed) × FileBlockSource :=
  match s.opened with
  | (.error e, s) => (some (.error e), s)
  | (.ok none, s) => (some (.ok none), s)
  | (.ok (some file), s) => s.readRound parseNextBlockInfo file

/-- `process`, for so many rounds at most. -/
def process (parseNextBlockInfo : UInt64 → Blob → Except Err NextBlockInfo) :
    Nat → FileBlockSource → Option (Except Err Handed) × FileBlockSource
  | 0, s => (none, s)
  | fuel + 1, s =>
    match s.round parseNextBlockInfo with
    | (some res, s) => (some res, s)
    | (none, s) => process parseNextBlockInfo fuel s

end FileBlockSource

end TorrentNode
