import Mathlib.Algebra.Order.BigOperators.Group.Finset
import Mathlib.Data.List.TakeWhile
import TorrentNode.BlockSource.FileSource

/-!
# Where the loop over the block files ends

A file is closed where no whole frame stands at the position. That position is not
recorded, so a file with a torn end is not finished and is picked once more, and the
loop never comes to another file.
-/

namespace TorrentNode

open Loop

/-! ## Reading on -/

theorem clip_maxSizeT (n : UInt64) : (if maxSizeT > n then n else maxSizeT) = n := by
  have hmax : maxSizeT.toNat = 2 ^ 64 - 1 := by decide
  have hn := n.toNat_lt
  split
  · rfl
  · rename_i h
    rw [gt_iff_lt, UInt64.lt_iff_toNat_lt, hmax] at h
    rw [← UInt64.toNat_inj, hmax]
    omega

/-- A dump that is read stands whole in the file. -/
theorem getBlockDump_whole {file : Blob} {pos n : UInt64} {block : Blob}
    (h : getBlockDump file.val pos 0 maxSizeT = .ok (n, block)) (hn : n ≠ 0) :
    pos.toNat + 8 + n.toNat ≤ file.size ∧ block.val <+: file.val.drop (pos.toNat + 8) := by
  have hsize := file.property
  have hf : (UInt64.ofNat file.val.length).toNat = file.val.length := toNat_ofNat_of_lt (by omega)
  have h8 : BLOCK_SIZE_SIZE.toNat = 8 := rfl
  have hzero : ∀ {n : UInt64} {block : Blob},
      (Except.ok (0, ∅) : Except Err (UInt64 × Blob)) = .ok (n, block) → n = 0 :=
    fun heq => (Prod.mk.inj (Except.ok.inj heq)).1.symm
  unfold getBlockDump at h
  obtain ⟨size, hannounced⟩ : ∃ size,
      UInt64.ofNat (blockFraming.announced (readAt file.val pos.toNat 8)) = size := ⟨_, rfl⟩
  simp only [clip_maxSizeT, UInt64.sub_zero, hannounced] at h
  -- Each return in front of the last one has a size of zero.
  by_cases hhead : pos + BLOCK_SIZE_SIZE > UInt64.ofNat file.val.length
  · rw [if_pos hhead] at h
    exact absurd (hzero h) hn
  rw [if_neg hhead] at h
  obtain ⟨hseek, h⟩ := check_bind_eq_ok.mp h
  by_cases hshort : UInt64.ofNat file.val.length < size + BLOCK_SIZE_SIZE + pos
  · rw [if_pos hshort] at h
    exact absurd (hzero h) hn
  rw [if_neg hshort] at h
  by_cases hempty : (0 : UInt64) ≥ size
  · rw [if_pos hempty] at h
    exact absurd (hzero h) hn
  rw [if_neg hempty] at h
  by_cases hsmall : size.toNat < 2 ^ 63
  · rw [dif_pos hsmall] at h
    obtain ⟨-, h⟩ := check_bind_eq_ok.mp h
    obtain ⟨rfl, rfl⟩ := Prod.mk.inj (Except.ok.inj h)
    -- The sums of the checks do not wrap, since the file could be sought to the position.
    rw [decide_eq_true_eq, maxFileSize] at hseek
    rw [gt_iff_lt, UInt64.lt_iff_toNat_lt, UInt64.toNat_add, hf, h8] at hhead
    rw [UInt64.lt_iff_toNat_lt, UInt64.toNat_add, UInt64.toNat_add, hf, h8] at hshort
    have hwhole : pos.toNat + 8 + size.toNat ≤ file.val.length := by omega
    have hstart : (pos + BLOCK_SIZE_SIZE + 0).toNat = pos.toNat + 8 := by
      rw [UInt64.toNat_add, UInt64.toNat_add, h8]
      show ((pos.toNat + 8) % 2 ^ 64 + 0) % 2 ^ 64 = _
      omega
    refine ⟨hwhole, ?_⟩
    show readAt _ _ _ <+: _
    rw [hstart, readAt_of_le hwhole]
    exact List.take_prefix _ _
  · rw [dif_neg hsmall] at h
    cases h

/-- **Reading moves on inside the file**, or not at all. -/
theorem readNextBlockDump_moves {file : Blob} {pos next : UInt64} {dump : Option Blob}
    (h : readNextBlockDump file.val pos = .ok (next, dump)) :
    next = pos ∨ pos.toNat < next.toNat ∧ next.toNat ≤ file.size := by
  have hsize : file.size < 2 ^ 63 := file.property
  have h8 : BLOCK_SIZE_SIZE.toNat = 8 := rfl
  unfold readNextBlockDump at h
  obtain ⟨⟨n, block⟩, hget, h⟩ := bind_eq_ok.mp h
  by_cases hn : n = 0
  · rw [if_pos hn] at h
    exact Or.inl (Prod.mk.inj (Except.ok.inj h)).1.symm
  · rw [if_neg hn] at h
    obtain ⟨hwhole, -⟩ := getBlockDump_whole hget hn
    have hnext : pos + n + BLOCK_SIZE_SIZE = next := (Prod.mk.inj (Except.ok.inj h)).1
    right
    rw [← hnext, UInt64.toNat_add, UInt64.toNat_add, h8]
    omega

/-- **No whole frame stands at a position** of the file exactly if reading stays there. -/
theorem readNextBlockDump_stays_iff {file : Blob} {pos : UInt64} (hpos : pos.toNat ≤ file.size) :
    (∃ dump, readNextBlockDump file.val pos = .ok (pos, dump)) ↔
      Torn pos.toNat (file.val.drop pos.toNat) := by
  have hlen : (file.val.take pos.toNat).length = pos.toNat := by
    rw [List.length_take]
    exact Nat.min_eq_left hpos
  -- What is in front of the position does not matter.
  have htorn := @readBlock_torn_iff (file.val.take pos.toNat)
    (file.val.drop pos.toNat) (by rw [List.take_append_drop]; exact file.property)
  rw [List.take_append_drop, hlen] at htorn
  rw [← htorn, readBlock, UInt64.ofNat_toNat]
  constructor
  · rintro ⟨dump, hread⟩
    rw [hread]
    exact congrArg Except.ok (if_pos rfl)
  · intro hnone
    cases hread : readNextBlockDump file.val pos with
    | error e =>
        rw [hread] at hnone
        cases hnone
    | ok r =>
        obtain ⟨next, dump⟩ := r
        rw [hread] at hnone
        have hnone := Except.ok.inj hnone
        by_cases hstay : next = pos
        · exact ⟨dump, by rw [hstay]⟩
        · exfalso
          simp only [if_neg hstay] at hnone
          -- a position that moves comes with a dump
          unfold readNextBlockDump at hread
          obtain ⟨⟨n, block⟩, -, hread⟩ := bind_eq_ok.mp hread
          split at hread
          · exact hstay (Prod.mk.inj (Except.ok.inj hread)).1.symm
          · obtain ⟨-, rfl⟩ := Prod.mk.inj (Except.ok.inj hread)
            cases hnone

/-! ## Names -/

theorem getBasename_of_not_mem {name : Bytes} (h : (47 : UInt8) ∉ name) :
    Batch.getBasename name = name := by
  unfold Batch.getBasename
  rw [List.takeWhile_eq_self_iff.mpr, List.reverse_reverse]
  intro c hc
  have hne : c ≠ 47 := fun heq => h (heq ▸ List.mem_reverse.mp hc)
  exact decide_eq_true hne

/-- A relative name leads to the entry of its base name. -/
theorem getBasename_of_resolve {relative : Blob} {n : EntryName}
    (h : EntryName.resolve relative = some n) : Batch.getBasename relative.val = n.val.val := by
  unfold EntryName.resolve at h
  simp only at h
  split at h
  · rename_i hname
    obtain rfl := Option.some.inj h
    have hsplit := (List.takeWhile_append_dropWhile (p := fun c : UInt8 => decide (c = 47))
      (l := relative.val))
    have hbase := getBasename_of_not_mem hname.2
    unfold Batch.getBasename at hbase ⊢
    conv_lhs => rw [← hsplit]
    rw [List.reverse_append, List.takeWhile_append]
    have hall : ((relative.val.dropWhile (fun c => decide (c = 47))).reverse.takeWhile
        (fun c => decide (c ≠ 47))) = (relative.val.dropWhile (fun c => decide (c = 47))).reverse := by
      rw [← List.reverse_inj, List.reverse_reverse]
      exact hbase
    rw [hall, if_pos rfl, List.reverse_append, List.reverse_reverse]
    have hslashes : (relative.val.takeWhile (fun c => decide (c = 47))).reverse.takeWhile
        (fun c => decide (c ≠ 47)) = [] := by
      rw [List.takeWhile_eq_nil_iff]
      intro hpos hc
      have hmem := List.mem_takeWhile_imp (List.mem_reverse.mp (List.getElem_mem hpos))
      simp only [decide_eq_true_eq] at hmem hc
      exact hc hmem
    rw [hslashes]
    rfl
  · cases h

/-! ## The next file -/

/-- What is picked is a file of the folder, at the position up to which it was read. -/
theorem getNextFile_eq {p : ProcessedFiles} {folder : OrdMap EntryName Blob} {fi : FilePosition}
    (h : getNextFile p folder = fi) (hname : fi.fileNameRelative ≠ ∅) :
    ∃ n file, folder.find? n = some file ∧ Batch.getBasename fi.fileNameRelative.val = n.val.val ∧
      fi.pos.toNat = p.readTo n.val.val ∧ fi.pos.toNat ≤ file.size := by
  unfold getNextFile at h
  cases hfirst : (folder.entries.filter (fun file => isBlockFile file.1.val)).findSome?
      (unfinished p) with
  | none =>
      rw [hfirst] at h
      exact absurd (congrArg FilePosition.fileNameRelative h.symm) hname
  -- The first file of the folder that is longer than what was read of it.
  | some fi' =>
      rw [hfirst] at h
      obtain rfl : fi' = fi := h
      obtain ⟨⟨n, file⟩, hmem, hfile⟩ := List.exists_of_findSome?_eq_some hfirst
      have hin := OrdMap.mem_entries.mp (List.mem_filter.mp hmem).1
      refine ⟨n, file, hin, ?_⟩
      unfold unfinished at hfile
      unfold ProcessedFiles.readTo
      simp only at hfile
      cases hread : p.files.find? n.val.val with
      | none =>
          rw [hread] at hfile
          obtain rfl := Option.some.inj hfile
          exact ⟨getBasename_of_not_mem n.property.2, rfl, Nat.zero_le _⟩
      | some fileInfo =>
          rw [hread] at hfile
          simp only at hfile
          split at hfile
          · rename_i hlt
            obtain rfl := Option.some.inj hfile
            have hsize : file.size < 2 ^ 63 := file.property
            rw [UInt64.lt_iff_toNat_lt, toNat_ofNat_of_lt (by omega)] at hlt
            exact ⟨p.cropped _ _ hread, rfl, Nat.le_of_lt hlt⟩
          · cases hfile

namespace FileBlockSource

variable {parseNextBlockInfo : UInt64 → Blob → Except Err NextBlockInfo} {s t : FileBlockSource}

/-- The file that a name leads to is the one under its base name. -/
theorem find?_eq {fileName file : Blob} (h : s.find? fileName = some file) :
    ∃ n : EntryName, Batch.getBasename fileName.val = n.val.val ∧ s.folder.find? n = some file := by
  unfold find? at h
  obtain ⟨n, hn, hfile⟩ := Option.bind_eq_some_iff.mp h
  exact ⟨n, getBasename_of_resolve hn, hfile⟩

/-- There is no file open, and the one that is picked has no whole frame at its position. -/
def Stuck (s : FileBlockSource) : Prop :=
  s.fileName = ∅ ∧ (getNextFile s.allFiles s.folder).fileNameRelative ≠ ∅ ∧
    ∃ file, s.find? (getNextFile s.allFiles s.folder).fileNameRelative = some file ∧
      Torn (getNextFile s.allFiles s.folder).pos.toNat
        (file.val.drop (getNextFile s.allFiles s.folder).pos.toNat)

/-- The next round of `process`, if there is one. -/
def next (parseNextBlockInfo : UInt64 → Blob → Except Err NextBlockInfo) (s : FileBlockSource) :
    Option FileBlockSource :=
  match s.round parseNextBlockInfo with
  | (some _, _) => none
  | (none, s) => some s

theorem next_eq_some : s.next parseNextBlockInfo = some t ↔
    s.round parseNextBlockInfo = (none, t) := by
  unfold next
  generalize s.round parseNextBlockInfo = res
  obtain ⟨r, u⟩ := res
  cases r with
  | some r => exact iff_of_false (fun h => by cases h) (fun h => by cases h)
  | none => exact ⟨fun h => by rw [Option.some.inj h], fun h => by rw [(Prod.mk.inj h).2]⟩

/-- `process` ends within so many rounds exactly if the loop is left before. -/
theorem process_eq_none (fuel : Nat) : ∀ s : FileBlockSource,
    (s.process parseNextBlockInfo fuel).1 = none ↔
      after (next parseNextBlockInfo) fuel s ≠ none := by
  induction fuel with
  | zero => exact fun s => iff_of_true rfl (fun h => by cases h)
  | succ fuel ih =>
      intro s
      rw [process, after, next]
      generalize s.round parseNextBlockInfo = res
      obtain ⟨r, u⟩ := res
      cases r with
      | some r => exact iff_of_false (fun h => by cases h) (fun h => h rfl)
      | none => exact ih u

/-! ## What a round does -/

/-- The file that a round reads. -/
theorem opened_eq {file : Blob} (h : s.opened = (.ok (some file), t)) :
    (s.fileName = ∅ ∧ (getNextFile s.allFiles s.folder).fileNameRelative ≠ ∅ ∧
      s.find? (getNextFile s.allFiles s.folder).fileNameRelative = some file ∧
      t = { s with
        fileName := (getNextFile s.allFiles s.folder).fileNameRelative
        currPos := (getNextFile s.allFiles s.folder).pos }) ∨
    s.fileName ≠ ∅ ∧ s.find? s.fileName = some file ∧ t = s := by
  unfold opened at h
  by_cases hname : s.fileName = ∅
  · left
    rw [hname, Blob.isEmpty_empty, if_pos rfl] at h
    by_cases hnone : (getNextFile s.allFiles s.folder).fileNameRelative = ∅
    · simp only [hnone, Blob.isEmpty_empty, if_true] at h
      cases (Prod.mk.inj h).1
    · simp only [Blob.isEmpty_eq_false.mpr hnone, Bool.false_eq_true, if_false] at h
      cases hfind : s.find? (getNextFile s.allFiles s.folder).fileNameRelative with
      | none =>
          rw [hfind] at h
          cases (Prod.mk.inj h).1
      | some file' =>
          rw [hfind] at h
          obtain ⟨hfile, ht⟩ := Prod.mk.inj h
          obtain rfl := Option.some.inj (Except.ok.inj hfile)
          exact ⟨hname, hnone, rfl, ht.symm⟩
  · right
    simp only [Blob.isEmpty_eq_false.mpr hname, Bool.false_eq_true, if_false] at h
    cases hfind : s.find? s.fileName with
    | none =>
        rw [hfind] at h
        cases (Prod.mk.inj h).1
    | some file' =>
        rw [hfind] at h
        obtain ⟨hfile, ht⟩ := Prod.mk.inj h
        obtain rfl := Option.some.inj (Except.ok.inj hfile)
        exact ⟨hname, rfl, ht.symm⟩

/-- **How the loop goes on**: the file is closed where reading stays, or a rejected block was passed
and its end is recorded. -/
theorem readRound_again {file : Blob} (h : s.readRound parseNextBlockInfo file = (none, t)) :
    ((∃ dump, readNextBlockDump file.val s.currPos = .ok (s.currPos, dump)) ∧
      t = { s with fileName := ∅ }) ∨
    (s.currPos.toNat < t.currPos.toNat ∧ t.currPos.toNat ≤ file.size ∧ t.folder = s.folder ∧
      t.fileName = s.fileName ∧
      t.allFiles = s.allFiles.set { pos := t.currPos, fileNameRelative := s.fileName }) := by
  unfold readRound at h
  cases hread : readNextBlockDump file.val s.currPos with
  | error e =>
      rw [hread] at h
      cases (Prod.mk.inj h).1
  | ok r =>
      obtain ⟨nextCurrPos, dump⟩ := r
      rw [hread] at h
      simp only at h
      -- A round that goes on has read nothing, or has taken a rejected block.
      by_cases hstay : s.currPos = nextCurrPos
      · rw [if_pos hstay] at h
        left
        exact ⟨⟨dump, by rw [← hstay]⟩, (Prod.mk.inj h).2.symm⟩
      · right
        rw [if_neg hstay] at h
        have hmoves := (readNextBlockDump_moves hread).resolve_left (fun he => hstay he.symm)
        cases hparse : parseNextBlockInfo s.currPos (dump.getD ∅) with
        | error e =>
            rw [hparse] at h
            cases (Prod.mk.inj h).1
        | ok blockInfo =>
            rw [hparse] at h
            cases blockInfo with
            -- Every other block ends the loop.
            | monostate => cases (Prod.mk.inj h).1
            | block bi => cases (Prod.mk.inj h).1
            | sign bi => cases (Prod.mk.inj h).1
            | rejected =>
                simp only at h
                split at h
                · cases (Prod.mk.inj h).1
                · split at h
                  · cases (Prod.mk.inj h).1
                  · rename_i hconfirm
                    have ht := (Prod.mk.inj h).2
                    unfold confirmBlockImpl at hconfirm
                    split at hconfirm
                    · cases (Prod.mk.inj hconfirm).1
                    · have hu := (Prod.mk.inj hconfirm).2
                      subst ht
                      subst hu
                      exact ⟨hmoves.1, hmoves.2, rfl, rfl, rfl⟩

/-- The file that is picked is read from the position up to which it was read. -/
theorem getNextFile_pos {file : Blob}
    (hname : (getNextFile s.allFiles s.folder).fileNameRelative ≠ ∅)
    (hfind : s.find? (getNextFile s.allFiles s.folder).fileNameRelative = some file) :
    ∃ n : EntryName, Batch.getBasename (getNextFile s.allFiles s.folder).fileNameRelative.val =
        n.val.val ∧ s.folder.find? n = some file ∧
      (getNextFile s.allFiles s.folder).pos.toNat = s.allFiles.readTo n.val.val ∧
      (getNextFile s.allFiles s.folder).pos.toNat ≤ file.size := by
  obtain ⟨n, file', hin, hbase, hpos, hle⟩ := getNextFile_eq rfl hname
  obtain ⟨n', hbase', hin'⟩ := find?_eq hfind
  have hn : n' = n := by
    apply Subtype.ext
    apply Subtype.ext
    rw [← hbase', hbase]
  rw [hn, hin] at hin'
  obtain rfl := Option.some.inj hin'
  exact ⟨n, hbase, hin, hpos, hle⟩

/-- The ways in which the loop goes on: it stays with the file that it picks, it closes a file, or
it comes forward in one. -/
theorem next_cases (h : s.next parseNextBlockInfo = some t) :
    s.Stuck ∨
    (s.fileName ≠ ∅ ∧ t = { s with fileName := ∅ }) ∨
    ∃ (n : EntryName) (file : Blob) (pos : Nat), s.folder.find? n = some file ∧
      Batch.getBasename t.fileName.val = n.val.val ∧ pos < t.currPos.toNat ∧
      (s.fileName = ∅ ∧ pos = s.allFiles.readTo n.val.val ∨
        s.fileName = t.fileName ∧ pos = s.currPos.toNat) ∧
      t.folder = s.folder ∧
      t.allFiles = s.allFiles.set { pos := t.currPos, fileNameRelative := t.fileName } := by
  have hround := next_eq_some.mp h
  unfold round at hround
  cases hopened : s.opened with
  | mk res u =>
    rw [hopened] at hround
    cases res with
    | error e => cases (Prod.mk.inj hround).1
    | ok file? =>
      cases file? with
      | none => cases (Prod.mk.inj hround).1
      | some file =>
        -- A new file was opened, or the one that was read before is read on.
        rcases opened_eq hopened with ⟨hname, hnext, hfind, rfl⟩ | ⟨hname, hfind, rfl⟩
        · obtain ⟨n, hbase, hin, hpos, hle⟩ := getNextFile_pos hnext hfind
          rcases readRound_again hround with ⟨hstays, -⟩ | ⟨hlt, -, hfolder, hfile, hall⟩
          · left
            exact ⟨hname, hnext, file, hfind, (readNextBlockDump_stays_iff hle).mp hstays⟩
          · right
            right
            refine ⟨n, file, _, hin, ?_, hlt, Or.inl ⟨hname, hpos⟩, hfolder, ?_⟩
            · rw [hfile]
              exact hbase
            · rw [hfile]
              exact hall
        · right
          rcases readRound_again hround with ⟨-, rfl⟩ | ⟨hlt, -, hfolder, hfile, hall⟩
          · left
            exact ⟨hname, rfl⟩
          · right
            obtain ⟨n, hbase, hin⟩ := find?_eq hfind
            refine ⟨n, file, _, hin, ?_, hlt, Or.inr ⟨hfile.symm, rfl⟩, hfolder, ?_⟩
            · rw [hfile]
              exact hbase
            · rw [hfile]
              exact hall

/-! ## A file with a torn end -/

theorem Stuck.round (h : s.Stuck) : s.next parseNextBlockInfo =
    some { s with currPos := (getNextFile s.allFiles s.folder).pos } := by
  obtain ⟨hname, hnext, file, hfind, htorn⟩ := h
  obtain ⟨n, -, -, -, hle⟩ := getNextFile_pos hnext hfind
  obtain ⟨dump, hread⟩ := (readNextBlockDump_stays_iff hle).mpr htorn
  rw [next_eq_some]
  unfold FileBlockSource.round opened
  simp only [hname, Blob.isEmpty_empty, Blob.isEmpty_eq_false.mpr hnext, hfind, if_true,
    Bool.false_eq_true, if_false]
  unfold readRound
  simp only [hread, if_true]

/-- The file is picked for ever. -/
theorem Stuck.endless (h : s.Stuck) : ¬Ends (next parseNextBlockInfo) s := by
  obtain ⟨u, hu⟩ : ∃ u : FileBlockSource,
      { s with currPos := (getNextFile s.allFiles s.folder).pos } = u := ⟨_, rfl⟩
  have hstuck : u.Stuck := by
    rw [← hu]
    exact h
  have hfirst : after (next parseNextBlockInfo) 1 s = some u := by
    rw [after_succ]
    exact (Stuck.round h).trans (congrArg some hu)
  have hagain : u.next parseNextBlockInfo = some u := by
    rw [Stuck.round hstuck, ← hu]
  exact endless_of_again Nat.one_lt_two hfirst (by rw [after_succ, hfirst]; exact hagain)

/-! ## The measure -/

theorem readTo_set {p : ProcessedFiles} {fi : FilePosition} {name : Bytes} :
    (p.set fi).readTo name =
      if name = Batch.getBasename fi.fileNameRelative.val then fi.pos.toNat else p.readTo name := by
  unfold ProcessedFiles.readTo ProcessedFiles.set
  simp only [OrdMap.find?_insert]
  by_cases hname : name = Batch.getBasename fi.fileNameRelative.val
  · simp only [if_pos hname]
  · simp only [if_neg hname]

/-- The names of the files. -/
def names (folder : OrdMap EntryName Blob) : Finset Bytes :=
  (folder.entries.map (fun file => file.1.val.val)).toFinset

theorem mem_names {folder : OrdMap EntryName Blob} {n : EntryName} {file : Blob}
    (h : folder.find? n = some file) : n.val.val ∈ names folder := by
  rw [names, List.mem_toFinset, List.mem_map]
  exact ⟨(n, file), OrdMap.mem_entries.mpr h, rfl⟩

/-- How much there may be left to read, twice, and one more while a file is open. -/
def left (s : FileBlockSource) : Nat :=
  2 * (∑ name ∈ names s.folder, (2 ^ 64 - s.allFiles.readTo name)) +
    if s.fileName = ∅ then 0 else 1

/-- The position in the open file is the one that is recorded for it. -/
def Synced (s : FileBlockSource) : Prop :=
  s.fileName = ∅ ∨ s.allFiles.readTo (Batch.getBasename s.fileName.val) = s.currPos.toNat

theorem synced_next (hnot : ¬s.Stuck) (h : s.next parseNextBlockInfo = some t) : t.Synced := by
  rcases next_cases h with hstuck | ⟨-, rfl⟩ | ⟨n, file, pos, -, hbase, -, -, -, hall⟩
  · exact absurd hstuck hnot
  · exact Or.inl rfl
  · right
    rw [hall, readTo_set, if_pos rfl]

/-- A round that comes forward leaves less to read. -/
theorem left_next (hnot : ¬s.Stuck) (hsynced : s.Synced)
    (h : s.next parseNextBlockInfo = some t) : t.left < s.left := by
  -- The measure is the number of bytes unread, and one more while a file is open.
  rcases next_cases h with hstuck | ⟨hname, rfl⟩ |
    ⟨n, file, pos, hin, hbase, hlt, hpos, hfolder, hall⟩
  · exact absurd hstuck hnot
  -- A file that has ended is closed.
  · unfold left
    rw [if_neg hname, if_pos rfl]
    exact Nat.lt_succ_self _
  · have hread : pos = s.allFiles.readTo n.val.val := by
      rcases hpos with ⟨-, hpos⟩ | ⟨hsame, hpos⟩
      · exact hpos
      · rcases hsynced with hclosed | hsynced
        · -- no file has the empty name
          rw [← hsame, hclosed] at hbase
          exact absurd hbase.symm n.property.1
        · rw [hpos, ← hsynced, hsame, hbase]
    -- Otherwise the position in one of the files has grown.
    have hafter : ∀ name, t.allFiles.readTo name =
        if name = n.val.val then t.currPos.toNat else s.allFiles.readTo name := by
      intro name
      rw [hall, readTo_set, hbase]
    have hless : ∑ name ∈ names t.folder, (2 ^ 64 - t.allFiles.readTo name) <
        ∑ name ∈ names s.folder, (2 ^ 64 - s.allFiles.readTo name) := by
      rw [hfolder]
      refine Finset.sum_lt_sum ?_ ⟨n.val.val, mem_names hin, ?_⟩
      · intro name _
        rw [hafter]
        by_cases hn : name = n.val.val
        · rw [if_pos hn, hn, ← hread]
          omega
        · rw [if_neg hn]
      · have hbound := t.currPos.toNat_lt
        rw [hafter, if_pos rfl, ← hread]
        omega
    unfold left
    split <;> split <;> omega

/-! ## The end of `process` -/

theorem process_ends : (∃ fuel, (s.process parseNextBlockInfo fuel).1 ≠ none) ↔
    Ends (next parseNextBlockInfo) s := by
  refine exists_congr (fun fuel => ?_)
  rw [Ne, process_eq_none, not_not]

/-- **The search for the next block ends** exactly if it comes to no file with a torn end: for each
folder, all recorded positions and each open file. -/
theorem process_ends_iff (parseNextBlockInfo : UInt64 → Blob → Except Err NextBlockInfo)
    (s : FileBlockSource) :
    (∃ fuel, (s.process parseNextBlockInfo fuel).1 ≠ none) ↔
      ∀ t, Reached (next parseNextBlockInfo) s t → ¬t.Stuck := by
  rw [process_ends]
  constructor
  · intro hends t hreached hstuck
    exact hstuck.endless (hreached.ends_iff.mp hends)
  · intro hnot
    cases hfirst : s.next parseNextBlockInfo with
    | none => exact ends_of_left hfirst
    | some t =>
        rw [ends_round hfirst]
        have hfrom : ∀ u, Reached (next parseNextBlockInfo) t u →
            Reached (next parseNextBlockInfo) s u := by
          intro u hu
          induction hu with
          | start => exact .round .start hfirst
          | round _ hnext ih => exact .round ih hnext
        -- from the second round on the positions are the recorded ones
        have hsynced : ∀ u, Reached (next parseNextBlockInfo) t u → u.Synced := by
          intro u hu
          induction hu with
          | start => exact synced_next (hnot s .start) hfirst
          | round hreached hnext _ => exact synced_next (hnot _ (hfrom _ hreached)) hnext
        exact ends_of_measure left
          (fun u v hu hnext => left_next (hnot u (hfrom u hu)) (hsynced u hu) hnext)

/-- A folder with one file, which holds a single byte. -/
def oneByte : OrdMap EntryName Blob :=
  (∅ : OrdMap EntryName Blob).insert
    ⟨⟨ascii "a.blk".toList, by decide⟩, by decide⟩ ⟨[0], by decide⟩

/-- The source over it, as it starts. -/
def atStart : FileBlockSource where
  folder := oneByte
  leveldb := ∅
  rejectedBlocks := []
  allFiles := ⟨∅, fun _ _ h => by cases h⟩
  currPos := 0
  fileName := ∅

/-- Less than a length at the end of a file, and `process` never returns. -/
theorem torn_file_endless :
    ¬∃ fuel, (atStart.process (fun _ _ => .ok .monostate) fuel).1 ≠ none := by
  have hstuck : atStart.Stuck := by
    refine ⟨rfl, by decide +kernel, ⟨[0], by decide⟩, by decide +kernel, ?_⟩
    decide +kernel
  exact fun h => hstuck.endless (process_ends.mp h)

end FileBlockSource

end TorrentNode
