import TorrentNode.BlockSource.Messages

/-!
# The parsers of rejected blocks (`get_rejected_blocks_messages.cpp`)

The dumps of rejected blocks come in frames like those of blocks.
-/

namespace TorrentNode

/-- The loop is that of `parseDumpBlocksBinary`, here as there. -/
def parseRejectedDumpBlocksBinary (lz4 : LZ4) (response : Blob) (isCompress : Bool) :
    Except Err (List Blob) :=
  let r := if isCompress then lz4.decompress response.val else response.val
  (readDumps (r.length + 1) r 0).getD (.error (.std "endless"))

end TorrentNode
