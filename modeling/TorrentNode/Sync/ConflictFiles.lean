import TorrentNode.Lib.OrdMap
import TorrentNode.Storage.BlockFiles
import TorrentNode.Structs.BlockInfo

/-!
# Rewriting the block files behind a fork (`main.cpp`, `utils/FileSystem.cpp`)

When the servers agree on another block than ours, `main` cuts our block off its
file, removes the files behind it, appends the servers' block and ends the
program, so that the next start reads the folder anew.
-/

namespace TorrentNode

/-- The name of a directory entry: not empty, and without a slash. -/
abbrev FileName : Type := {n : Bytes // n ≠ [] ∧ (47 : UInt8) ∉ n}

/-- The folder of the block files, as its path is spelled, and the files in it. -/
structure Folder where
  path : Bytes
  files : OrdMap FileName Bytes
  deriving DecidableEq

/-- `ConflictBlocksInfo`: our block, the server's, and its dump. -/
structure ConflictBlocksInfo where
  ourConflictedBlock : BlockHeader
  serverConflictedBlock : BlockHeader
  blockDump : Blob
  deriving DecidableEq

/-- `getFullPath`: with one slash between folder and name. -/
def getFullPath (fileName folder : Bytes) : Bytes :=
  if folder ≠ [] ∧ folder.getLast? ≠ some 47 then folder ++ 47 :: fileName else folder ++ fileName

namespace Folder

/--
The entry that a path of the form `getFullPath(relative, path)` leads to, if it is
one of this folder: slashes in a row count as one.
-/
def resolve (relative : Bytes) : Option FileName :=
  let name := relative.dropWhile (fun c => c = 47)
  if h : name ≠ [] ∧ (47 : UInt8) ∉ name then some ⟨name, h⟩ else none

/-- What is in a file. -/
def find? (f : Folder) (relative : Bytes) : Option Bytes := (resolve relative).bind f.files.find?

/-- `resizeFile(getFullPath(fileName, folder), newSize)` -/
def resizeFile (f : Folder) (fileName : Bytes) (newSize : Nat) : Except Err Folder :=
  match resolve fileName with
  | none => .error (.std "filesystem_error")
  | some name =>
    match f.files.find? name with
    | none => .error (.std "filesystem_error")
    | some content =>
      .ok { f with files := f.files.insert name
                     (content.take newSize ++ List.replicate (newSize - content.length) 0) }

/--
`getAllFilesRelativeInDir(dirPath)`: what stands behind the folder's path in the
path of each entry. No folder has an empty path.
-/
def getAllFilesRelativeInDir (f : Folder) : List Bytes :=
  if f.path = [] then []
  else f.files.entries.map (fun e => (getFullPath e.1.val f.path).drop f.path.length)

/-- `removeFile`. -/
def removeFile (f : Folder) (fileName : Bytes) : Folder :=
  match resolve fileName with
  | none => f
  | some name => { f with files := f.files.erase name }

/-- `loadFile(folder, fileName)`: nothing, if the file cannot be opened. -/
def loadFile (f : Folder) (fileName : Bytes) : Bytes := (f.find? fileName).getD []

/-- `saveToFile`: the file has these bytes and no others. -/
def saveToFile (f : Folder) (fileName data : Bytes) : Folder :=
  match resolve fileName with
  | none => f
  | some name => { f with files := f.files.insert name data }

/-- `std::upper_bound` in a sorted list, from there to the end. -/
def upperBound (l : List Bytes) (value : Bytes) : List Bytes := l.dropWhile (fun x => !decide (value < x))

/-- `removeFiles(relativeFileName, pos, pathToFolder, pathToBd)`, in the folder of the blocks. -/
def removeFiles (f : Folder) (relativeFileName : Bytes) (pos : Nat) : Except Err Folder := do
  let f ← f.resizeFile relativeFileName pos
  let filesInFolder := f.getAllFilesRelativeInDir.mergeSort
  pure ((upperBound filesInFolder relativeFileName).foldl removeFile f)

/-- What `main` does with a conflict. -/
def resolveConflict (f : Folder) (result : ConflictBlocksInfo) : Except Err Folder := do
  let filePos := result.ourConflictedBlock.filePos
  let f ← f.removeFiles filePos.fileNameRelative.val filePos.pos.toNat
  let loadedFile := f.loadFile filePos.fileNameRelative.val
  pure (f.saveToFile filePos.fileNameRelative.val (loadedFile ++ result.blockDump.val))

/-- How the listing names an entry. -/
def listed (f : Folder) (name : FileName) : Bytes := (getFullPath name.val f.path).drop f.path.length

theorem listed_eq (f : Folder) (name : FileName) :
    f.listed name = if f.path ≠ [] ∧ f.path.getLast? ≠ some 47 then 47 :: name.val else name.val := by
  unfold listed getFullPath
  split
  · rw [List.drop_left]
  · rw [List.drop_left]

theorem dropWhile_name (name : FileName) : name.val.dropWhile (fun c => c = 47) = name.val := by
  obtain ⟨n, hne, hslash⟩ := name
  cases n with
  | nil => exact absurd rfl hne
  | cons c n =>
      have hc : c ≠ 47 := fun h => hslash (by rw [h]; exact List.mem_cons_self)
      simp [hc]

@[simp] theorem resolve_name (name : FileName) : resolve name.val = some name := by
  simp only [resolve, dropWhile_name, dif_pos name.property]

/-- The listing's spelling of an entry leads to it. -/
theorem resolve_listed (f : Folder) (name : FileName) : resolve (f.listed name) = some name := by
  rw [listed_eq]
  split
  · have hskip : (47 :: name.val).dropWhile (fun c => c = 47) = name.val := by
      rw [List.dropWhile_cons_of_pos (by simp), dropWhile_name]
    simp only [resolve, hskip, dif_pos name.property]
  · exact resolve_name name

theorem listed_inj {f : Folder} {name other : FileName} :
    f.listed name = f.listed other ↔ name = other := by
  refine ⟨fun he => ?_, fun he => he ▸ rfl⟩
  have hr := congrArg resolve he
  rw [resolve_listed, resolve_listed] at hr
  exact Option.some.inj hr

theorem mem_getAllFilesRelativeInDir {f : Folder} {x : Bytes} :
    x ∈ f.getAllFilesRelativeInDir ↔
      f.path ≠ [] ∧ ∃ name content, f.files.find? name = some content ∧ f.listed name = x := by
  unfold getAllFilesRelativeInDir
  split
  · rename_i h; simp [h]
  · rename_i h
    rw [List.mem_map]
    constructor
    · rintro ⟨⟨name, content⟩, he, rfl⟩
      exact ⟨h, name, content, OrdMap.mem_entries.mp he, rfl⟩
    · rintro ⟨-, name, content, hfind, rfl⟩
      exact ⟨(name, content), OrdMap.mem_entries.mpr hfind, rfl⟩

/-- In a sorted list, what stands from the upper bound on is what is greater. -/
theorem mem_upperBound {l : List Bytes} (h : l.Pairwise (· ≤ ·)) {value x : Bytes} :
    x ∈ upperBound l value ↔ x ∈ l ∧ value < x := by
  induction l with
  | nil => simp [upperBound]
  | cons y l ih =>
      have ih := ih h.of_cons
      unfold upperBound at ih ⊢
      by_cases hy : value < y
      · rw [List.dropWhile_cons_of_neg (by simp [hy])]
        refine ⟨fun hx => ⟨hx, ?_⟩, fun hx => hx.1⟩
        rcases List.mem_cons.mp hx with rfl | hx
        · exact hy
        · exact lt_of_lt_of_le hy (List.rel_of_pairwise_cons h hx)
      · rw [List.dropWhile_cons_of_pos (by simp [hy]), ih, List.mem_cons]
        constructor
        · rintro ⟨hx, hlt⟩; exact ⟨Or.inr hx, hlt⟩
        · rintro ⟨rfl | hx, hlt⟩
          · exact absurd hlt hy
          · exact ⟨hx, hlt⟩

theorem removeFile_listed (f g : Folder) (name : FileName) :
    g.removeFile (f.listed name) = { g with files := g.files.erase name } := by
  have hname : resolve (f.listed name) = some name := resolve_listed f name
  rw [removeFile, hname]

/-- Removing entries by their listed names removes these and no others. -/
theorem find?_removeAll (f : Folder) : ∀ (names : List Bytes) {g : Folder}, g.path = f.path →
    (∀ x ∈ names, ∃ name, f.listed name = x) →
    (names.foldl removeFile g).path = f.path ∧ ∀ name,
      (names.foldl removeFile g).files.find? name =
        if f.listed name ∈ names then none else g.files.find? name
  | [], g, hpath, _ => ⟨hpath, by simp⟩
  | x :: names, g, hpath, hx => by
      obtain ⟨gone, rfl⟩ := hx x List.mem_cons_self
      have hstep := removeFile_listed f g gone
      obtain ⟨hp, hfind⟩ := find?_removeAll f names (g := { g with files := g.files.erase gone })
        hpath (fun y hy => hx y (List.mem_cons_of_mem _ hy))
      rw [List.foldl_cons, hstep]
      refine ⟨hp, fun name => ?_⟩
      rw [hfind name]
      simp only [List.mem_cons, listed_inj]
      by_cases hmem : f.listed name ∈ names
      · simp [hmem]
      · by_cases heq : name = gone
        · subst heq; simp [hmem]
        · simp [hmem, heq, OrdMap.find?_erase_ne heq]

/-- The entry is among those that `removeFiles` takes for files behind the conflicted one. -/
def Behind (f : Folder) (relativeFileName : Bytes) (name : FileName) : Prop :=
  f.path ≠ [] ∧ relativeFileName < f.listed name

instance (f : Folder) (relativeFileName : Bytes) (name : FileName) :
    Decidable (f.Behind relativeFileName name) := by
  unfold Behind; infer_instance

/-- **What `removeFiles` does** to a folder that holds the file. -/
theorem removeFiles_ok {f : Folder} {name : FileName} {content : Bytes} {pos : Nat}
    (hfile : f.files.find? name = some content) (hpos : pos ≤ content.length) :
    ∃ g, f.removeFiles name.val pos = .ok g ∧ g.path = f.path ∧ ∀ other, g.files.find? other =
      if f.Behind name.val other then none
      else if other = name then some (content.take pos) else f.files.find? other := by
  let cut : Folder := { f with files := f.files.insert name (content.take pos) }
  have hresize : f.resizeFile name.val pos = .ok cut := by
    simp only [resizeFile, resolve_name, hfile]
    rw [Nat.sub_eq_zero_of_le hpos, List.replicate_zero, List.append_nil]
  have hlisted : ∀ other, cut.listed other = f.listed other := fun other => rfl
  -- The list is sorted, so the files behind the cut one are those with greater names.
  have hsorted : (cut.getAllFilesRelativeInDir.mergeSort).Pairwise (· ≤ ·) := by
    have h := @List.pairwise_mergeSort _ (fun a b : Bytes => decide (a ≤ b))
      (fun a b c hab hbc => by simp only [decide_eq_true_eq] at *; exact le_trans hab hbc)
      (fun a b => by simp only [Bool.or_eq_true, decide_eq_true_eq]; exact le_total a b)
      cut.getAllFilesRelativeInDir
    exact h.imp (fun hab => by simpa using hab)
  have hmem : ∀ x, x ∈ upperBound cut.getAllFilesRelativeInDir.mergeSort name.val ↔
      x ∈ cut.getAllFilesRelativeInDir ∧ name.val < x := by
    intro x
    rw [mem_upperBound hsorted, List.mem_mergeSort]
  obtain ⟨hpath, hfind⟩ := find?_removeAll cut
    (upperBound cut.getAllFilesRelativeInDir.mergeSort name.val) (g := cut) rfl
    (fun x hx => by
      obtain ⟨-, other, -, -, hx⟩ := mem_getAllFilesRelativeInDir.mp ((hmem x).mp hx).1
      exact ⟨other, hx⟩)
  refine ⟨_, ?_, hpath, fun other => ?_⟩
  · rw [removeFiles, hresize]
    rfl
  · have hcut : cut.files.find? other =
        if other = name then some (content.take pos) else f.files.find? other := by
      by_cases h : other = name
      · rw [if_pos h, h]; exact OrdMap.find?_insert_self
      · rw [if_neg h]; exact OrdMap.find?_insert_ne h
    have hin : cut.listed other ∈ upperBound cut.getAllFilesRelativeInDir.mergeSort name.val ↔
        f.Behind name.val other ∧ cut.files.find? other ≠ none := by
      rw [hmem, mem_getAllFilesRelativeInDir]
      constructor
      · rintro ⟨⟨hne, other', c, hc, he⟩, hlt⟩
        rw [listed_inj] at he
        subst he
        exact ⟨⟨hne, hlt⟩, by rw [hc]; simp⟩
      · rintro ⟨⟨hne, hlt⟩, hc⟩
        obtain ⟨c, hc⟩ := Option.ne_none_iff_exists'.mp hc
        exact ⟨⟨hne, other, c, hc, rfl⟩, hlt⟩
    rw [hfind other]
    split
    · rename_i h
      rw [if_pos (hin.mp h).1]
    · rename_i h
      split
      · rename_i hbehind
        exact Classical.byContradiction (fun hc => h (hin.mpr ⟨hbehind, hc⟩))
      · exact hcut

/--
What resolving a conflict leaves: the dump behind what is left of the conflicted
file, which is nothing when that file is itself taken for one behind it.
-/
theorem resolveConflict_ok {f : Folder} {name : FileName} {content : Bytes}
    {result : ConflictBlocksInfo}
    (hname : result.ourConflictedBlock.filePos.fileNameRelative.val = name.val)
    (hfile : f.files.find? name = some content)
    (hpos : result.ourConflictedBlock.filePos.pos.toNat ≤ content.length) :
    ∃ g, f.resolveConflict result = .ok g ∧ ∀ other, g.files.find? other =
      if other = name then
        some ((if f.Behind name.val name then []
          else content.take result.ourConflictedBlock.filePos.pos.toNat) ++ result.blockDump.val)
      else if f.Behind name.val other then none else f.files.find? other := by
  obtain ⟨g, hremove, -, hfind⟩ := removeFiles_ok hfile hpos
  refine ⟨g.saveToFile name.val (g.loadFile name.val ++ result.blockDump.val), ?_, fun other => ?_⟩
  · simp only [resolveConflict, hname, hremove]
    rfl
  · have hload : g.loadFile name.val = if f.Behind name.val name then []
        else content.take result.ourConflictedBlock.filePos.pos.toNat := by
      rw [loadFile, find?, resolve_name, Option.bind_some, hfind name, if_pos rfl]
      split <;> rfl
    rw [saveToFile, resolve_name, hload]
    by_cases h : other = name
    · rw [if_pos h, h]; exact OrdMap.find?_insert_self
    · rw [if_neg h]
      refine (OrdMap.find?_insert_ne h).trans ?_
      rw [hfind other, if_neg h]

/-- With a slash at the end of the folder's path, the files behind are those with greater names. -/
theorem behind_iff {f : Folder} {name other : FileName} (h : f.path.getLast? = some 47) :
    f.Behind name.val other ↔ name < other := by
  have hne : f.path ≠ [] := by rintro he; rw [he] at h; simp at h
  rw [Behind, listed_eq, if_neg (fun hp => hp.2 h)]
  exact and_iff_right hne

/-- Without one, the listing puts every name in front of all that begin behind the slash. -/
theorem not_behind {f : Folder} {name other : FileName} {c : UInt8}
    (h : f.path.getLast? ≠ some 47) (hc : name.val.head? = some c) (hlt : 47 < c) :
    ¬ f.Behind name.val other := by
  rintro ⟨hne, hbehind⟩
  rw [listed_eq, if_pos ⟨hne, h⟩] at hbehind
  obtain ⟨rest, hrest⟩ : ∃ rest, name.val = c :: rest := by
    cases hv : name.val with
    | nil => rw [hv] at hc; simp at hc
    | cons d rest => rw [hv] at hc; cases hc; exact ⟨rest, rfl⟩
  rw [hrest, List.cons_lt_cons_iff] at hbehind
  rcases hbehind with hlt' | ⟨heq, -⟩
  · exact absurd hlt (lt_asymm hlt')
  · exact absurd heq (ne_of_gt hlt)

/--
The folder after the conflict is what it should be: the conflicted file has one
frame with the servers' block behind its old frames up to ours, the files before it
are as they were, and there are none behind it.
-/
structure Resolved (f g : Folder) (name : FileName) (kept : List Bytes) (dump : Bytes) : Prop where
  conflicted : g.files.find? name = some (blockFraming.log kept ++ blockFraming.frame dump)
  before : ∀ other, other < name → g.files.find? other = f.files.find? other
  behind : ∀ other, name < other → g.files.find? other = none

/--
**Resolving a conflict never leaves valid block files.** The servers' block goes
into the file without its size in front.
-/
theorem resolveConflict_unframed {f : Folder} {result : ConflictBlocksInfo} {name : FileName}
    {kept cut : List Bytes}
    (hname : result.ourConflictedBlock.filePos.fileNameRelative.val = name.val)
    (hfile : f.files.find? name = some (blockFraming.log (kept ++ cut)))
    (hpos : result.ourConflictedBlock.filePos.pos.toNat = (blockFraming.log kept).length) :
    ∃ g, f.resolveConflict result = .ok g ∧ ¬ Resolved f g name kept result.blockDump.val := by
  rw [Framing.log_append] at hfile
  have hle : result.ourConflictedBlock.filePos.pos.toNat
      ≤ (blockFraming.log kept ++ blockFraming.log cut).length := by
    rw [hpos, List.length_append]; omega
  obtain ⟨g, hrun, hfind⟩ := resolveConflict_ok hname hfile hle
  refine ⟨g, hrun, fun hres => ?_⟩
  have hconf := hres.conflicted
  rw [hfind name, if_pos rfl, hpos, List.take_left] at hconf
  have hlen := congrArg List.length (Option.some.inj hconf)
  rw [List.length_append, List.length_append, Framing.length_frame] at hlen
  have h8 : blockFraming.headerSize = 8 := rfl
  split at hlen
  · rw [List.length_nil] at hlen; omega
  · omega

/-- The file `0` with one block of one byte, and a conflict over that block. -/
def zeroName : FileName := ⟨[48], by decide⟩

/-- A folder with a block in a file that is named `0`. -/
def zeroFolder : Folder :=
  { path := ascii "blocks/".toList
    files := OrdMap.insert ∅ zeroName (blockFraming.log [[7]]) }

/-- A conflict over that block. -/
def zeroConflict : ConflictBlocksInfo :=
  { ourConflictedBlock := { (default : BlockHeader) with
      filePos := { fileNameRelative := Blob.replicate 1 48 Blob.byte_fits, pos := 0 } }
    serverConflictedBlock := default
    blockDump := Blob.replicate 1 9 Blob.byte_fits }

theorem resolveConflict_unframed_zero :
    zeroConflict.ourConflictedBlock.filePos.fileNameRelative.val = zeroName.val ∧
    zeroFolder.files.find? zeroName = some (blockFraming.log ([] ++ [[7]])) ∧
    ∃ g, zeroFolder.resolveConflict zeroConflict = .ok g ∧
      ¬ Resolved zeroFolder g zeroName [] zeroConflict.blockDump.val :=
  ⟨by decide, by decide,
    resolveConflict_unframed (by decide)
      (by decide : zeroFolder.files.find? zeroName = some (blockFraming.log ([] ++ [[7]])))
      (by decide)⟩

/-- The block of the servers stands in the file without its size. -/
theorem conflict_without_size :
    ¬ ∀ (f g : Folder) (result : ConflictBlocksInfo) (name : FileName) (kept cut : List Bytes),
      (∀ other content, f.files.find? other = some content → ∃ ds, content = blockFraming.log ds) →
      result.ourConflictedBlock.filePos.fileNameRelative.val = name.val →
      f.files.find? name = some (blockFraming.log (kept ++ cut)) →
      result.ourConflictedBlock.filePos.pos.toNat = (blockFraming.log kept).length →
      f.resolveConflict result = .ok g → Resolved f g name kept result.blockDump.val := by
  intro h
  have hname : zeroConflict.ourConflictedBlock.filePos.fileNameRelative.val = zeroName.val := by decide
  have hfile : zeroFolder.files.find? zeroName = some (blockFraming.log ([] ++ [[7]])) := by decide
  obtain ⟨g, hrun, hfind⟩ := resolveConflict_ok hname hfile (by decide)
  have hframed : ∀ other content, zeroFolder.files.find? other = some content →
      ∃ ds, content = blockFraming.log ds := by
    intro other content hc
    rw [zeroFolder, OrdMap.find?_insert] at hc
    split at hc
    · exact ⟨_, (Option.some.inj hc).symm⟩
    · simp at hc
  have hconf := (h _ g _ _ [] [[7]] hframed hname hfile (by decide) hrun).conflicted
  rw [hfind zeroName, if_pos rfl] at hconf
  revert hconf
  decide

end Folder

end TorrentNode
