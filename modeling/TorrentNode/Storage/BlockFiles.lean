import TorrentNode.Lib.FrameLog
import TorrentNode.Utils.Serialize

/-!
# Block files (`BlockchainRead.cpp`)

A block file is a sequence of block dumps, each behind its size in the machine's
byte order. Blocks are only ever appended, and a file is read back by going from
one dump to the next until none is left.
-/

namespace TorrentNode

/-- The header of a dump in a block file. -/
def blockFraming : Framing UInt8 where
  headerSize := 8
  limit := 2 ^ 64
  header n := (serializeInt 8 n).reverse
  announced b := BigEndian.decode b.reverse
  length_header n := by rw [List.length_reverse]; exact BigEndian.length_encode 8 n
  announced_header n h := by
    rw [List.reverse_reverse]; exact BigEndian.decode_encode (by norm_num; omega)

/-! ## Reading -/

/-- The bytes of the size in front of a dump. -/
def BLOCK_SIZE_SIZE : UInt64 := 8

/-- No file is longer than its largest offset. -/
def maxFileSize : Nat := 2 ^ 63 - 1

/-- `seekFile(file, pos)` and `ifile.read(data, size)`: what the file does not hold stays zero. -/
def readAt (ifile : Bytes) (pos size : Nat) : Bytes :=
  let readed := (ifile.drop pos).take size
  readed ++ List.replicate (size - readed.length) 0

@[simp] theorem length_readAt (ifile : Bytes) (pos size : Nat) :
    (readAt ifile pos size).length = size := by
  rw [readAt, List.length_append, List.length_replicate, List.length_take]
  omega

theorem readAt_of_le {ifile : Bytes} {pos size : Nat} (h : pos + size ≤ ifile.length) :
    readAt ifile pos size = (ifile.drop pos).take size := by
  have hlen : ((ifile.drop pos).take size).length = size := by
    rw [List.length_take, List.length_drop]; omega
  rw [readAt, hlen, Nat.sub_self, List.replicate_zero, List.append_nil]

/-- `getBlockDump(ifile, currPos, fromByte, toByte)`; the sums are those of `size_t`. -/
def getBlockDump (ifile : Bytes) (currPos fromByte toByte : UInt64) :
    Except Err (UInt64 × Blob) := do
  let f_size := UInt64.ofNat ifile.length
  if currPos + BLOCK_SIZE_SIZE > f_size then
    pure (0, ∅)
  else
    check (decide (currPos.toNat ≤ maxFileSize)) "Not seekeng"
    let block_size := UInt64.ofNat (blockFraming.announced (readAt ifile currPos.toNat 8))
    if f_size < block_size + BLOCK_SIZE_SIZE + currPos then
      pure (0, ∅)
    else if fromByte ≥ block_size then
      pure (0, ∅)
    else
      let toByte := if toByte > block_size then block_size else toByte
      let size := (toByte - fromByte).toNat
      if h : size < 2 ^ 63 then
        let start := currPos + BLOCK_SIZE_SIZE + fromByte
        check (decide (start.toNat ≤ maxFileSize)) "Not seekeng"
        pure (block_size, ⟨readAt ifile start.toNat size, by rw [length_readAt]; exact h⟩)
      else .error (.std "length_error")

theorem toNat_ofNat_of_lt {n : Nat} (h : n < 2 ^ 64) : (UInt64.ofNat n).toNat = n := by
  rw [UInt64.toNat_ofNat']; omega

theorem announced_lt {b : Bytes} (h : b.length = 8) : blockFraming.announced b < 2 ^ 64 := by
  have hlt := BigEndian.decode_lt b.reverse
  rw [List.length_reverse, h] at hlt
  exact hlt

/-- What a read of a file's part gives. -/
theorem readAt_append (pre mid post : Bytes) {pos size : Nat} (h : pos + size ≤ mid.length) :
    readAt (pre ++ mid ++ post) (pre.length + pos) size = (mid.drop pos).take size := by
  rw [readAt_of_le (by simp only [List.length_append]; omega), List.append_assoc, ← List.drop_drop,
    List.drop_left, List.drop_append_of_le_length (by omega),
    List.take_append_of_le_length (by rw [List.length_drop]; omega)]

/-- The announced size at the start of a frame. -/
theorem announced_frame (pre d post : Bytes) (hlen : d.length < 2 ^ 63) :
    blockFraming.announced (readAt (pre ++ blockFraming.frame d ++ post) pre.length 8) = d.length := by
  have hread : readAt (pre ++ blockFraming.frame d ++ post) (pre.length + 0) 8
      = ((blockFraming.frame d).drop 0).take 8 :=
    readAt_append pre _ post (by rw [Framing.length_frame]; show 0 + 8 ≤ 8 + d.length; omega)
  have htake : (blockFraming.frame d).take 8 = blockFraming.header d.length :=
    List.take_left' (blockFraming.length_header d.length)
  rw [Nat.add_zero, List.drop_zero, htake] at hread
  rw [hread]
  exact blockFraming.announced_header _ (by show d.length < 2 ^ 64; omega)

/-- Nothing is read from behind the end of a dump. -/
theorem getBlockDump_past {pre d post : Bytes} (fromByte toByte : UInt64)
    (hlen : (pre ++ blockFraming.frame d ++ post).length < 2 ^ 63)
    (hfrom : d.length ≤ fromByte.toNat) :
    getBlockDump (pre ++ blockFraming.frame d ++ post) (UInt64.ofNat pre.length) fromByte toByte =
      .ok (0, ∅) := by
  have hsize : (pre ++ blockFraming.frame d ++ post).length
      = pre.length + (8 + d.length) + post.length := by
    simp only [List.length_append, Framing.length_frame]; rfl
  rw [hsize] at hlen
  have hpos : (UInt64.ofNat pre.length).toNat = pre.length := toNat_ofNat_of_lt (by omega)
  have hd : (UInt64.ofNat d.length).toNat = d.length := toNat_ofNat_of_lt (by omega)
  have hf : (UInt64.ofNat (pre.length + (8 + d.length) + post.length)).toNat
      = pre.length + (8 + d.length) + post.length := toNat_ofNat_of_lt (by omega)
  have h8 : BLOCK_SIZE_SIZE.toNat = 8 := rfl
  have hhead : ¬ UInt64.ofNat pre.length + BLOCK_SIZE_SIZE
      > UInt64.ofNat (pre.length + (8 + d.length) + post.length) := by
    rw [gt_iff_lt, UInt64.lt_iff_toNat_lt, UInt64.toNat_add, hpos, hf, h8]; omega
  have hwhole : ¬ UInt64.ofNat (pre.length + (8 + d.length) + post.length)
      < UInt64.ofNat d.length + BLOCK_SIZE_SIZE + UInt64.ofNat pre.length := by
    rw [UInt64.lt_iff_toNat_lt, UInt64.toNat_add, UInt64.toNat_add, hpos, hf, hd, h8]; omega
  have hpart : fromByte ≥ UInt64.ofNat d.length := by
    rw [ge_iff_le, UInt64.le_iff_toNat_le, hd]; exact hfrom
  have hseek : decide (pre.length ≤ maxFileSize) = true := by
    rw [decide_eq_true_eq, maxFileSize]; omega
  have hann := announced_frame pre d post (by omega)
  simp only [getBlockDump, hsize, if_neg hhead, hpos, hann, if_neg hwhole, if_pos hpart, hseek,
    check_true]
  rfl

/-- **Reading part of a dump** that stands whole in a file. -/
theorem getBlockDump_frame {pre d post : Bytes} (fromByte toByte : UInt64)
    (hlen : (pre ++ blockFraming.frame d ++ post).length < 2 ^ 63)
    (hfrom : fromByte.toNat < d.length) (hto : fromByte ≤ toByte) :
    ∃ dump, dump.val = (d.drop fromByte.toNat).take (toByte.toNat - fromByte.toNat) ∧
      getBlockDump (pre ++ blockFraming.frame d ++ post) (UInt64.ofNat pre.length) fromByte toByte =
        .ok (UInt64.ofNat d.length, dump) := by
  have hsize : (pre ++ blockFraming.frame d ++ post).length
      = pre.length + (8 + d.length) + post.length := by
    simp only [List.length_append, Framing.length_frame]; rfl
  rw [hsize] at hlen
  have hpos : (UInt64.ofNat pre.length).toNat = pre.length := toNat_ofNat_of_lt (by omega)
  have hd : (UInt64.ofNat d.length).toNat = d.length := toNat_ofNat_of_lt (by omega)
  have hf : (UInt64.ofNat (pre.length + (8 + d.length) + post.length)).toNat
      = pre.length + (8 + d.length) + post.length := toNat_ofNat_of_lt (by omega)
  have h8 : BLOCK_SIZE_SIZE.toNat = 8 := rfl
  -- None of the checks of `getBlockDump` refuses the frame.
  have hhead : ¬ UInt64.ofNat pre.length + BLOCK_SIZE_SIZE
      > UInt64.ofNat (pre.length + (8 + d.length) + post.length) := by
    rw [gt_iff_lt, UInt64.lt_iff_toNat_lt, UInt64.toNat_add, hpos, hf, h8]; omega
  have hwhole : ¬ UInt64.ofNat (pre.length + (8 + d.length) + post.length)
      < UInt64.ofNat d.length + BLOCK_SIZE_SIZE + UInt64.ofNat pre.length := by
    rw [UInt64.lt_iff_toNat_lt, UInt64.toNat_add, UInt64.toNat_add, hpos, hf, hd, h8]; omega
  have hpart : ¬ fromByte ≥ UInt64.ofNat d.length := by
    rw [ge_iff_le, UInt64.le_iff_toNat_le, hd]; omega
  have hstart : (UInt64.ofNat pre.length + BLOCK_SIZE_SIZE + fromByte).toNat
      = pre.length + (8 + fromByte.toNat) := by
    rw [UInt64.toNat_add, UInt64.toNat_add, hpos, h8]; omega
  rw [UInt64.le_iff_toNat_le] at hto
  -- the end is cut to the size of the dump
  generalize hend : (if toByte > UInt64.ofNat d.length then UInt64.ofNat d.length else toByte) = till
  have htill : till.toNat = min toByte.toNat d.length := by
    rw [← hend]
    split
    · rename_i h
      rw [gt_iff_lt, UInt64.lt_iff_toNat_lt, hd] at h
      rw [hd]; omega
    · rename_i h
      rw [gt_iff_lt, UInt64.lt_iff_toNat_lt, hd] at h
      omega
  have hdiff : (till - fromByte).toNat = till.toNat - fromByte.toNat :=
    UInt64.toNat_sub_of_le _ _ (by rw [UInt64.le_iff_toNat_le]; omega)
  -- What is read behind the size is the part of the dump that was asked for.
  have hread : readAt (pre ++ blockFraming.frame d ++ post)
      (pre.length + (8 + fromByte.toNat)) (till.toNat - fromByte.toNat)
      = (d.drop fromByte.toNat).take (toByte.toNat - fromByte.toNat) := by
    have hdrop : (blockFraming.frame d).drop (8 + fromByte.toNat) = d.drop fromByte.toNat := by
      rw [← List.drop_drop]
      exact congrArg (List.drop _) (List.drop_left' (blockFraming.length_header d.length))
    rw [readAt_append pre _ post (by rw [Framing.length_frame]; show _ ≤ 8 + d.length; omega), hdrop,
      htill]
    rcases Nat.le_total toByte.toNat d.length with h | h
    · rw [Nat.min_eq_left h]
    · rw [Nat.min_eq_right h, List.take_of_length_le (by rw [List.length_drop]),
        List.take_of_length_le (by rw [List.length_drop]; omega)]
  have hsmall : (till - fromByte).toNat < 2 ^ 63 := by omega
  refine ⟨⟨readAt (pre ++ blockFraming.frame d ++ post) (pre.length + (8 + fromByte.toNat))
    (till - fromByte).toNat, by rw [length_readAt]; exact hsmall⟩, ?_, ?_⟩
  · show readAt _ _ _ = _
    rw [hdiff, hread]
  · have hseek : decide (pre.length ≤ maxFileSize) = true := by
      rw [decide_eq_true_eq, maxFileSize]; omega
    have hseek' : decide (pre.length + (8 + fromByte.toNat) ≤ maxFileSize) = true := by
      rw [decide_eq_true_eq, maxFileSize]; omega
    have hann := announced_frame pre d post (by omega)
    simp only [getBlockDump, hsize, if_neg hhead, hpos, hann, if_neg hwhole, if_neg hpart, hend,
      dif_pos hsmall, hstart, hseek, hseek', check_true]
    rfl

/-- **Reading any part of a dump**, also behind its end; there the size is not told. -/
theorem getBlockDump_part {pre d post : Bytes} {a b : Nat}
    (hlen : (pre ++ blockFraming.frame d ++ post).length < 2 ^ 63) (hab : a ≤ b) (hb : b < 2 ^ 64) :
    ∃ dump, dump.val = (d.drop a).take (b - a) ∧
      getBlockDump (pre ++ blockFraming.frame d ++ post) (UInt64.ofNat pre.length) (UInt64.ofNat a)
        (UInt64.ofNat b) = .ok (if a < d.length then UInt64.ofNat d.length else 0, dump) := by
  have ha' : (UInt64.ofNat a).toNat = a := toNat_ofNat_of_lt (by omega)
  have hb' : (UInt64.ofNat b).toNat = b := toNat_ofNat_of_lt hb
  rcases Nat.lt_or_ge a d.length with hlt | hge
  · obtain ⟨dump, hdump, hget⟩ := getBlockDump_frame (UInt64.ofNat a) (UInt64.ofNat b) hlen
      (by rw [ha']; exact hlt) (by rw [UInt64.le_iff_toNat_le, ha', hb']; exact hab)
    rw [ha', hb'] at hdump
    exact ⟨dump, hdump, by rw [hget, if_pos hlt]⟩
  · have hget := getBlockDump_past (UInt64.ofNat a) (UInt64.ofNat b) hlen (by rw [ha']; exact hge)
    refine ⟨∅, ?_, by rw [hget, if_neg (by omega)]⟩
    rw [List.drop_of_length_le hge, List.take_nil]
    rfl

/-- `std::numeric_limits<size_t>::max()` -/
def maxSizeT : UInt64 := UInt64.ofNat (2 ^ 64 - 1)

/-- `readNextBlockDump(ifile, currPos, blockDump)`: where to go on, and the dump if there is one. -/
def readNextBlockDump (ifile : Bytes) (currPos : UInt64) : Except Err (UInt64 × Option Blob) := do
  let pairRes ← getBlockDump ifile currPos 0 maxSizeT
  if pairRes.1 = 0 then pure (currPos, none)
  else pure (currPos + pairRes.1 + BLOCK_SIZE_SIZE, some pairRes.2)

/-- A step of the loop over a file: it stops where `readNextBlockDump` does not move. -/
def readBlock : Framing.Reader UInt8 Err := fun ifile pos =>
  (readNextBlockDump ifile (UInt64.ofNat pos)).map (fun r =>
    if r.1 = UInt64.ofNat pos then none else r.2.map (fun dump => (dump.val, r.1.toNat)))

theorem readNextBlockDump_frame {pre d post : Bytes}
    (hlen : (pre ++ blockFraming.frame d ++ post).length < 2 ^ 63) (hd : d ≠ []) :
    ∃ dump : Blob, dump.val = d ∧
      readNextBlockDump (pre ++ blockFraming.frame d ++ post) (UInt64.ofNat pre.length) =
        .ok (UInt64.ofNat (pre.length + (blockFraming.frame d).length), some dump) := by
  have hpos : 0 < d.length := List.length_pos_iff.mpr hd
  obtain ⟨dump, hdump, hget⟩ := getBlockDump_frame 0 maxSizeT hlen hpos
    (by decide)
  simp only [List.length_append, Framing.length_frame] at hlen
  refine ⟨dump, ?_, ?_⟩
  · rw [hdump]
    exact List.take_of_length_le (by show d.length ≤ 2 ^ 64 - 1; omega)
  · have hne : UInt64.ofNat d.length ≠ 0 := by
      rw [Ne, ← UInt64.toNat_inj, toNat_ofNat_of_lt (by omega)]
      exact Nat.pos_iff_ne_zero.mp hpos
    have hsum : UInt64.ofNat pre.length + UInt64.ofNat d.length + BLOCK_SIZE_SIZE
        = UInt64.ofNat (pre.length + (blockFraming.frame d).length) := by
      rw [← UInt64.toNat_inj, UInt64.toNat_add, UInt64.toNat_add, Framing.length_frame,
        toNat_ofNat_of_lt (by omega), toNat_ofNat_of_lt (by omega), UInt64.toNat_ofNat']
      show ((pre.length + d.length) % 2 ^ 64 + 8) % 2 ^ 64 = (pre.length + (8 + d.length)) % 2 ^ 64
      omega
    rw [readNextBlockDump, hget]
    show (if UInt64.ofNat d.length = 0 then _ else _) = _
    rw [if_neg hne, hsum]
    rfl

/-- **Every whole dump is read where it stands.** -/
theorem readBy_readBlock : blockFraming.ReadBy readBlock (2 ^ 63) (fun d => d ≠ []) := by
  intro pre d post hd hlen
  obtain ⟨dump, rfl, hread⟩ := readNextBlockDump_frame hlen hd
  simp only [List.length_append, Framing.length_frame] at hlen
  have hmove : UInt64.ofNat (pre.length + (blockFraming.frame dump.val).length)
      ≠ UInt64.ofNat pre.length := by
    rw [Ne, ← UInt64.toNat_inj, Framing.length_frame, toNat_ofNat_of_lt (by omega),
      toNat_ofNat_of_lt (by omega)]
    show ¬ pre.length + (8 + dump.val.length) = pre.length
    omega
  rw [readBlock, hread]
  show Except.ok (if UInt64.ofNat (pre.length + (blockFraming.frame dump.val).length)
      = UInt64.ofNat pre.length then _ else _) = _
  rw [if_neg hmove, Option.map_some, toNat_ofNat_of_lt]
  rw [Framing.length_frame]
  omega

/--
What stands behind the last whole dump does not read as a dump: it ends before its
size is complete, or announces none, or announces more than there is. A size that
takes the end of the dump past `2 ^ 64` is not among these: reading it throws.
-/
def Torn (pos : Nat) (left : Bytes) : Prop :=
  left.length < 8 ∨ blockFraming.announced (left.take 8) = 0 ∨
    left.length < 8 + blockFraming.announced (left.take 8) ∧
      blockFraming.announced (left.take 8) + 8 + pos < 2 ^ 64

instance (pos : Nat) (left : Bytes) : Decidable (Torn pos left) := by
  unfold Torn; infer_instance

theorem readBlock_none {file : Bytes} {pos : Nat} {r : UInt64 × Blob}
    (h : getBlockDump file (UInt64.ofNat pos) 0 maxSizeT = .ok r) (hz : r.1 = 0) :
    readBlock file pos = .ok none := by
  have hread : readNextBlockDump file (UInt64.ofNat pos) = .ok (UInt64.ofNat pos, none) := by
    rw [readNextBlockDump, h]
    show (if r.1 = 0 then _ else _) = _
    rw [if_pos hz]
    rfl
  rw [readBlock, hread]
  show Except.ok (if UInt64.ofNat pos = UInt64.ofNat pos then _ else _) = _
  rw [if_pos rfl]

theorem readBlock_torn_iff {pre left : Bytes} (hlen : (pre ++ left).length < 2 ^ 63) :
    readBlock (pre ++ left) pre.length = .ok none ↔ Torn pre.length left := by
  have hsize : (pre ++ left).length = pre.length + left.length := List.length_append
  rw [hsize] at hlen
  have hpos : (UInt64.ofNat pre.length).toNat = pre.length := toNat_ofNat_of_lt (by omega)
  have hf : (UInt64.ofNat (pre.length + left.length)).toNat = pre.length + left.length :=
    toNat_ofNat_of_lt (by omega)
  have h8 : BLOCK_SIZE_SIZE.toNat = 8 := rfl
  rcases Nat.lt_or_ge left.length 8 with hshort | hlong
  · -- not even a size
    have hhead : UInt64.ofNat pre.length + BLOCK_SIZE_SIZE
        > UInt64.ofNat (pre.length + left.length) := by
      rw [gt_iff_lt, UInt64.lt_iff_toNat_lt, UInt64.toNat_add, hpos, hf, h8]; omega
    refine ⟨fun _ => Or.inl hshort, fun _ => readBlock_none (r := (0, ∅)) ?_ rfl⟩
    rw [getBlockDump]
    simp only [hsize, if_pos hhead]
    rfl
  have hhead : ¬ UInt64.ofNat pre.length + BLOCK_SIZE_SIZE
      > UInt64.ofNat (pre.length + left.length) := by
    rw [gt_iff_lt, UInt64.lt_iff_toNat_lt, UInt64.toNat_add, hpos, hf, h8]; omega
  have hseek : decide (pre.length ≤ maxFileSize) = true := by
    rw [decide_eq_true_eq, maxFileSize]; omega
  have hread : readAt (pre ++ left) pre.length 8 = left.take 8 := by
    have h : readAt (pre ++ left ++ []) (pre.length + 0) 8 = (left.drop 0).take 8 :=
      readAt_append pre left [] (by omega)
    rwa [List.append_nil, Nat.add_zero, List.drop_zero] at h
  unfold Torn
  have hann : blockFraming.announced (left.take 8) < 2 ^ 64 :=
    announced_lt (by rw [List.length_take]; omega)
  generalize hn : blockFraming.announced (left.take 8) = n at hann ⊢
  have hnn : (UInt64.ofNat n).toNat = n := toNat_ofNat_of_lt hann
  have hsum : (UInt64.ofNat n + BLOCK_SIZE_SIZE + UInt64.ofNat pre.length).toNat
      = (n + 8 + pre.length) % 2 ^ 64 := by
    rw [UInt64.toNat_add, UInt64.toNat_add, hnn, hpos, h8]; omega
  -- More is announced than is left, so nothing is read.
  by_cases hwhole : UInt64.ofNat (pre.length + left.length)
      < UInt64.ofNat n + BLOCK_SIZE_SIZE + UInt64.ofNat pre.length
  · have hlt := hwhole
    rw [UInt64.lt_iff_toNat_lt, hf, hsum] at hlt
    refine ⟨fun _ => Or.inr (Or.inr ⟨by omega, by omega⟩),
      fun _ => readBlock_none (r := (0, ∅)) ?_ rfl⟩
    rw [getBlockDump]
    simp only [hsize, if_neg hhead, hpos, hread, hn, hseek, check_true, if_pos hwhole]
    rfl
  have hge := hwhole
  rw [UInt64.lt_iff_toNat_lt, hf, hsum] at hge
  -- A size of zero ends the scan as well.
  rcases Nat.eq_zero_or_pos n with rfl | hnpos
  · refine ⟨fun _ => Or.inr (Or.inl rfl), fun _ => readBlock_none (r := (0, ∅)) ?_ rfl⟩
    rw [getBlockDump]
    simp only [hsize, if_neg hhead, hpos, hread, hn, hseek, check_true, if_neg hwhole]
    rfl
  -- a whole dump, or a size so large that the sum wraps around
  have hpart : ¬ (0 : UInt64) ≥ UInt64.ofNat n := by
    rw [ge_iff_le, UInt64.le_iff_toNat_le, hnn]
    show ¬ n ≤ 0
    omega
  have htill : (if maxSizeT > UInt64.ofNat n then UInt64.ofNat n else maxSizeT) = UInt64.ofNat n := by
    split
    · rfl
    · rename_i h
      have hmax : maxSizeT.toNat = 2 ^ 64 - 1 := by decide
      rw [gt_iff_lt, UInt64.lt_iff_toNat_lt, hnn, hmax] at h
      rw [← UInt64.toNat_inj, hnn, hmax]
      omega
  have hdiff : (UInt64.ofNat n - 0).toNat = n := by rw [UInt64.sub_zero, hnn]
  refine ⟨fun h => ?_, fun h => by omega⟩
  exfalso
  -- The dump is returned, or its size is more than a string can have.
  rcases Nat.lt_or_ge n (2 ^ 63) with hsmall | hbig
  · have hstart : (UInt64.ofNat pre.length + BLOCK_SIZE_SIZE + 0).toNat = pre.length + 8 := by
      rw [UInt64.add_zero, UInt64.toNat_add, hpos, h8]; omega
    have hseek' : decide (pre.length + 8 ≤ maxFileSize) = true := by
      rw [decide_eq_true_eq, maxFileSize]; omega
    have hne : UInt64.ofNat n ≠ 0 := by
      rw [Ne, ← UInt64.toNat_inj, hnn]
      exact Nat.pos_iff_ne_zero.mp hnpos
    have hmove : UInt64.ofNat pre.length + UInt64.ofNat n + BLOCK_SIZE_SIZE ≠ UInt64.ofNat pre.length := by
      rw [Ne, ← UInt64.toNat_inj, UInt64.toNat_add, UInt64.toNat_add, hnn, hpos, h8]
      omega
    have hget : ∃ dump, getBlockDump (pre ++ left) (UInt64.ofNat pre.length) 0 maxSizeT =
        .ok (UInt64.ofNat n, dump) := by
      refine ⟨⟨readAt (pre ++ left) (pre.length + 8) (UInt64.ofNat n - 0).toNat,
        by rw [length_readAt, hdiff]; exact hsmall⟩, ?_⟩
      rw [getBlockDump]
      simp only [hsize, if_neg hhead, hpos, hread, hn, hseek, check_true, if_neg hwhole,
        if_neg hpart, htill, dif_pos (hdiff.symm ▸ hsmall : (UInt64.ofNat n - 0).toNat < 2 ^ 63),
        hstart, hseek']
      rfl
    obtain ⟨dump, hget⟩ := hget
    rw [readBlock, readNextBlockDump, hget] at h
    change Except.map _ (if UInt64.ofNat n = 0 then _ else _) = _ at h
    rw [if_neg hne] at h
    change Except.ok (if _ = UInt64.ofNat pre.length then _ else _) = _ at h
    rw [if_neg hmove] at h
    simp at h
  · have hget : getBlockDump (pre ++ left) (UInt64.ofNat pre.length) 0 maxSizeT =
        .error (.std "length_error") := by
      rw [getBlockDump]
      simp only [hsize, if_neg hhead, hpos, hread, hn, hseek, check_true, if_neg hwhole,
        if_neg hpart, htill, dif_neg (by omega : ¬ (UInt64.ofNat n - 0).toNat < 2 ^ 63)]
      rfl
    rw [readBlock, readNextBlockDump, hget] at h
    exact absurd h (by simp [Bind.bind, Except.bind, Except.map])

/-! ## Appending -/

/-- A call of `saveBlockToFileBinary` and what becomes of it. -/
structure SaveAttempt where
  data : Blob
  /-- How many bytes the disk still takes. -/
  space : Nat
  /-- The process ends before the call does. -/
  stopped : Bool
  deriving DecidableEq

/-- What such a call gets into a file that holds `oldSize` bytes. -/
def SaveAttempt.written (a : SaveAttempt) (oldSize : Nat) : Bytes :=
  (blockFraming.frame a.data.val).take (min a.space (maxFileSize - oldSize))

/-- The file behind such a call. -/
def SaveAttempt.after (a : SaveAttempt) (file : Blob) : Blob :=
  ⟨file.val ++ a.written file.size, by
    have hfile := file.property
    rw [List.length_append, SaveAttempt.written, List.length_take, maxFileSize, Blob.size]
    omega⟩

/--
`saveBlockToFileBinary(fileName, data)`: the position it returns, if it gets that
far, and the file.
-/
def saveBlockToFileBinary (file : Blob) (a : SaveAttempt) : Option (Except Err UInt64) × Blob :=
  (if a.stopped then none
   else some (do
      check ((a.after file).size == file.size + 8 + a.data.size) "Incorrect write block operation"
      pure (UInt64.ofNat file.size)),
    a.after file)

end TorrentNode
