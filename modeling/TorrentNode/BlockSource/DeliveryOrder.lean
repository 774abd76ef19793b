import TorrentNode.BlockSource.Batches

/-!
# The order of delivery

The calls of `process` between one `doProcess` and the next. Whatever the servers
answer, an entry is delivered exactly when the block it is due at is the next one to
read, and a sign block under one name is delivered once.
-/

namespace TorrentNode

namespace NetworkBlockSource

variable {env : Env} {timeline : BlocksTimeline}

/-! ## A call -/

/-- What a call does before it hands an entry over. -/
inductive Filled (env : Env) (timeline : BlocksTimeline) (s : NetworkBlockSource) :
    NetworkBlockSource → Prop where
  | same : Filled env timeline s s
  | batch {s' : NetworkBlockSource} : s.currentProcessedBlock = [] →
      s.nextBatch env timeline = (.ok (), s') → Filled env timeline s s'
  | failed {s' : NetworkBlockSource} {e : Err} : s.currentProcessedBlock = [] →
      s.nextBatch env timeline = (.error e, s') → Filled env timeline s s'

theorem processAdvanced_cases {s s' : NetworkBlockSource} {a : AdvancedBlock}
    {rest : List AdvancedBlock} {r : Except Err (Option AdvancedBlock)}
    (h : s.processAdvanced a rest = (r, s')) :
    (r = .ok (some a) ∧ a.exception = none ∧ s'.currentProcessedBlock = rest ∧
      s'.afterBlocksAdditings = s.afterBlocksAdditings ∧
      s'.nextBlockToRead = if a.isBlock then s.nextBlockToRead + 1 else s.nextBlockToRead) ∨
    ((∀ d, r ≠ .ok (some d)) ∧ s' = s) := by
  unfold processAdvanced at h
  split at h
  · cases h
    exact Or.inr ⟨(fun _ he => by cases he), rfl⟩
  · rename_i hnone
    cases h
    exact Or.inl ⟨rfl, hnone, rfl, rfl, rfl⟩

/-- **What a call can do**: it may get a new batch, and it may hand over the entry in front. -/
theorem process_cases {s s' : NetworkBlockSource} {r : Except Err (Option AdvancedBlock)}
    (h : s.process env timeline = (r, s')) :
    ∃ s₁, Filled env timeline s s₁ ∧
      ((∃ a, r = .ok (some a) ∧ a.exception = none ∧
          s₁.currentProcessedBlock = a :: s'.currentProcessedBlock ∧
          s'.afterBlocksAdditings = s₁.afterBlocksAdditings ∧
          s'.nextBlockToRead = if a.isBlock then s₁.nextBlockToRead + 1 else s₁.nextBlockToRead) ∨
        ((∀ d, r ≠ .ok (some d)) ∧ s' = s₁)) := by
  unfold process at h
  split at h
  · rename_i a rest hcur
    refine ⟨s, Filled.same, ?_⟩
    rcases processAdvanced_cases h with ⟨hr, hnone, rfl, hafter, hnext⟩ | hstuck
    · exact Or.inl ⟨a, hr, hnone, hcur, hafter, hnext⟩
    · exact Or.inr hstuck
  · rename_i hcur
    split at h
    · cases h
      exact ⟨s, Filled.same, Or.inr ⟨(fun _ he => by cases he), rfl⟩⟩
    · split at h
      · rename_i hbatch
        cases h
        exact ⟨s', Filled.failed hcur hbatch, Or.inr ⟨(fun _ he => by cases he), rfl⟩⟩
      · rename_i s₁ hbatch
        refine ⟨s₁, Filled.batch hcur hbatch, ?_⟩
        split at h
        · rename_i a rest hcur'
          rcases processAdvanced_cases h with ⟨hr, hnone, rfl, hafter, hnext⟩ | hstuck
          · exact Or.inl ⟨a, hr, hnone, hcur', hafter, hnext⟩
          · exact Or.inr hstuck
        · cases h
          exact Or.inr ⟨(fun _ he => by cases he), rfl⟩

/-! ## Runs -/

/-- All that was delivered is on the timeline. -/
def Added (timeline : BlocksTimeline) (delivered : List AdvancedBlock) : Prop :=
  ∀ a ∈ delivered, timeline.hashes.find? a.bi.hash ≠ none

/--
The calls after a `doProcess`: what the earlier batches delivered, and the last one. A
call may come with any timeline, where `ok` allows it after what was delivered.
-/
inductive Run (env : Env) (ok : List AdvancedBlock → BlocksTimeline → NetworkBlockSource → Prop)
    (countBlocks : Nat) :
    List (List AdvancedBlock) → List AdvancedBlock → NetworkBlockSource → Prop where
  | doProcess (s : NetworkBlockSource) : Run env ok countBlocks [] [] (s.doProcess env countBlocks).2
  | idle {earlier : List (List AdvancedBlock)} {batch : List AdvancedBlock}
      {s s' : NetworkBlockSource} {timeline : BlocksTimeline}
      {r : Except Err (Option AdvancedBlock)} :
      Run env ok countBlocks earlier batch s → ok (earlier.flatten ++ batch) timeline s →
      s.process env timeline = (r, s') →
      (∀ a, r ≠ .ok (some a)) → Run env ok countBlocks earlier batch s'
  | next {earlier : List (List AdvancedBlock)} {batch : List AdvancedBlock}
      {s s' : NetworkBlockSource} {timeline : BlocksTimeline} {a : AdvancedBlock} :
      Run env ok countBlocks earlier batch s → ok (earlier.flatten ++ batch) timeline s →
      s.currentProcessedBlock ≠ [] →
      s.process env timeline = (.ok (some a), s') → Run env ok countBlocks earlier (batch ++ [a]) s'
  | first {earlier : List (List AdvancedBlock)} {batch : List AdvancedBlock}
      {s s' : NetworkBlockSource} {timeline : BlocksTimeline} {a : AdvancedBlock} :
      Run env ok countBlocks earlier batch s → ok (earlier.flatten ++ batch) timeline s →
      s.currentProcessedBlock = [] →
      s.process env timeline = (.ok (some a), s') →
      Run env ok countBlocks (earlier ++ [batch]) [a] s'

/-- What holds of the deliveries so far and of the source that made them. -/
structure Inv (env : Env) (countBlocks : Nat) (delivered : List AdvancedBlock)
    (s : NetworkBlockSource) : Prop where
  placed : Placed (countBlocks + 1) (delivered ++ s.currentProcessedBlock)
  next : s.nextBlockToRead = countBlocks + 1 + delivered.countP AdvancedBlock.isBlock
  afterLast : s.AfterLast
  pending : s.currentProcessedBlock ≠ [] → s.afterBlocksAdditings = none
  parsed : ∀ a ∈ delivered ++ s.currentProcessedBlock, a.exception = none →
    env.fromHex a.header.hash = .ok a.bi.hash
  whole : ∀ a ∈ delivered, a.exception = none

/-- Nothing is delivered yet. -/
theorem Inv.start {s : NetworkBlockSource} {countBlocks : Nat} (hcur : s.currentProcessedBlock = [])
    (hnext : s.nextBlockToRead = countBlocks + 1) (hafter : s.AfterLast) :
    Inv env countBlocks [] s where
  placed := by rw [hcur]; trivial
  next := hnext
  afterLast := hafter
  pending := fun h => absurd hcur h
  parsed := by rw [hcur]; simp
  whole := by simp

theorem AfterLast.of_none {s : NetworkBlockSource} (h : s.afterBlocksAdditings = none) :
    s.AfterLast := by
  intro a ha
  rw [h] at ha
  cases ha

theorem setAfterBlocksAdditings_spec {s : NetworkBlockSource} (hashes : List Blob)
    (hnext : 0 < s.nextBlockToRead) (hnone : s.afterBlocksAdditings = none) :
    (s.setAfterBlocksAdditings hashes).AfterLast ∧
      (s.setAfterBlocksAdditings hashes).currentProcessedBlock = s.currentProcessedBlock ∧
      (s.setAfterBlocksAdditings hashes).nextBlockToRead = s.nextBlockToRead := by
  unfold setAfterBlocksAdditings
  split
  · rename_i hlast
    refine ⟨?_, rfl, rfl⟩
    rintro a ha
    obtain rfl := Option.some.inj ha
    show s.lastBlockInBlockchain + 1 = s.nextBlockToRead
    omega
  · exact ⟨AfterLast.of_none hnone, rfl, rfl⟩

theorem doProcess_inv (s : NetworkBlockSource) (countBlocks : Nat) :
    Inv env countBlocks [] (s.doProcess env countBlocks).2 ∧
      (s.doProcess env countBlocks).2.currentProcessedBlock = [] := by
  have hset : ∀ (s : NetworkBlockSource) (hashes : List Blob), s.currentProcessedBlock = [] →
      s.nextBlockToRead = countBlocks + 1 → s.afterBlocksAdditings = none →
      Inv env countBlocks [] (s.setAfterBlocksAdditings hashes) ∧
        (s.setAfterBlocksAdditings hashes).currentProcessedBlock = [] := by
    intro s hashes hcur hnext hnone
    obtain ⟨hafter, hcur', hnext'⟩ :=
      setAfterBlocksAdditings_spec hashes (by rw [hnext]; omega) hnone
    exact ⟨Inv.start (hcur'.trans hcur) (hnext'.trans hnext) hafter, hcur'.trans hcur⟩
  unfold doProcess
  dsimp only
  split
  · split
    · exact ⟨Inv.start rfl rfl (AfterLast.of_none rfl), rfl⟩
    · split
      · exact ⟨Inv.start rfl rfl (AfterLast.of_none rfl), rfl⟩
      · split
        · exact ⟨Inv.start rfl rfl (AfterLast.of_none rfl), rfl⟩
        · exact hset _ _ rfl rfl rfl
  · split
    · exact ⟨Inv.start rfl rfl (AfterLast.of_none rfl), rfl⟩
    · split
      · exact ⟨Inv.start rfl rfl (AfterLast.of_none rfl), rfl⟩
      · exact hset _ _ rfl rfl rfl

/-- The step of the invariant at a new batch. -/
theorem Inv.filled {s s₁ : NetworkBlockSource} {countBlocks : Nat} {delivered : List AdvancedBlock}
    (h : Inv env countBlocks delivered s) (hf : Filled env timeline s s₁) :
    Inv env countBlocks delivered s₁ := by
  cases hf with
  | same => exact h
  | batch hcur hbatch =>
    obtain ⟨L, -, hB, hnext, hnone⟩ := nextBatch_ok hbatch h.afterLast
    have hplaced := h.placed
    rw [hcur, List.append_nil] at hplaced
    refine ⟨?_, hnext.trans h.next, AfterLast.of_none hnone, fun _ => hnone, ?_, h.whole⟩
    · rw [placed_append, ← h.next]
      exact ⟨hplaced, hB.placed⟩
    · intro a ha
      rcases List.mem_append.mp ha with ha | ha
      · exact h.parsed a (List.mem_append_left _ ha)
      · exact hB.parsed a ha
  | failed hcur hbatch =>
    obtain ⟨g, m, c, rfl, hc⟩ := nextBatch_error hbatch
    refine ⟨h.placed, h.next, ?_, fun hne => absurd hcur hne, h.parsed, h.whole⟩
    rcases hc with rfl | rfl
    · exact AfterLast.of_none rfl
    · exact h.afterLast

/-- The step of the invariant at a call. -/
theorem Inv.process {s s' : NetworkBlockSource} {countBlocks : Nat} {delivered : List AdvancedBlock}
    {r : Except Err (Option AdvancedBlock)} (h : Inv env countBlocks delivered s)
    (hp : s.process env timeline = (r, s')) :
    (∀ a, r = .ok (some a) → Inv env countBlocks (delivered ++ [a]) s') ∧
      ((∀ a, r ≠ .ok (some a)) → Inv env countBlocks delivered s') := by
  obtain ⟨s₁, hfilled, hcase⟩ := process_cases hp
  have h₁ := h.filled hfilled
  rcases hcase with ⟨a, rfl, hnone, hcur, hafter, hnext⟩ | ⟨hne, rfl⟩
  · refine ⟨?_, fun hne => absurd rfl (hne a)⟩
    rintro _ ⟨⟩
    have hnil : s'.afterBlocksAdditings = none :=
      hafter.trans (h₁.pending (by rw [hcur]; exact List.cons_ne_nil _ _))
    have hsame : delivered ++ s₁.currentProcessedBlock =
        delivered ++ [a] ++ s'.currentProcessedBlock := by
      rw [hcur, List.append_assoc]
      rfl
    refine ⟨hsame ▸ h₁.placed, ?_, AfterLast.of_none hnil, fun _ => hnil, hsame ▸ h₁.parsed, ?_⟩
    · rw [hnext, h₁.next, List.countP_append, List.countP_singleton]
      by_cases hb : a.isBlock = true <;> simp [hb, Nat.add_assoc]
    · intro b hb
      rcases List.mem_append.mp hb with hb | hb
      · exact h.whole b hb
      · rw [List.mem_singleton.mp hb]
        exact hnone
  · exact ⟨fun a ha => absurd ha (hne a), fun _ => h₁⟩

theorem Run.inv {ok : List AdvancedBlock → BlocksTimeline → NetworkBlockSource → Prop}
    {countBlocks : Nat}
    {earlier : List (List AdvancedBlock)} {batch : List AdvancedBlock} {s : NetworkBlockSource}
    (h : Run env ok countBlocks earlier batch s) :
    Inv env countBlocks (earlier.flatten ++ batch) s := by
  induction h with
  | doProcess s => exact (doProcess_inv s countBlocks).1
  | idle _ _ hp hne ih => exact (ih.process hp).2 hne
  | next _ _ _ hp ih =>
    rw [← List.append_assoc]
    exact (ih.process hp).1 _ rfl
  | first _ _ _ hp ih =>
    rw [List.flatten_append, List.flatten_singleton]
    exact (ih.process hp).1 _ rfl

/-! ## No sign block twice -/

/-- The sign blocks among some entries, each given by something about its name. -/
def signNames {T : Type} (f : Blob → T) (l : List AdvancedBlock) : List T :=
  (l.filter (fun a => !a.isBlock)).map (fun a => f a.header.hash)

theorem signNames_append {T : Type} (f : Blob → T) (l l' : List AdvancedBlock) :
    signNames f (l ++ l') = signNames f l ++ signNames f l' := by
  rw [signNames, List.filter_append, List.map_append]
  rfl

/-- Among the sign blocks that this call would load, what `f` does not tell apart has one name. -/
def Tells {T : Type} (f : Blob → T) (env : Env) (timeline : BlocksTimeline)
    (s : NetworkBlockSource) : Prop :=
  s.currentProcessedBlock = [] → ∀ L, (s.additings env).1 = .ok L →
    ∀ x ∈ L, ∀ y ∈ L, Fresh env timeline x → f x.hash = f y.hash → x.hash = y.hash

/-- **A new batch repeats nothing**, when what was delivered is on the timeline. -/
theorem Filled.nodup {T : Type} {f : Blob → T} {s s₁ : NetworkBlockSource} {countBlocks : Nat}
    {delivered : List AdvancedBlock} (hf : Filled env timeline s s₁)
    (h : Inv env countBlocks delivered s) (hadded : Added timeline delivered)
    (htells : Tells f env timeline s)
    (hhex : ∀ x y, f x = f y → env.fromHex x = env.fromHex y)
    (hnd : (signNames f (delivered ++ s.currentProcessedBlock)).Nodup) :
    (signNames f (delivered ++ s₁.currentProcessedBlock)).Nodup := by
  cases hf with
  | same => exact hnd
  | batch hcur hbatch =>
    obtain ⟨L, hL, hB, -, -⟩ := nextBatch_ok hbatch h.afterLast
    rw [hcur, List.append_nil] at hnd
    rw [signNames_append]
    refine List.nodup_append.mpr ⟨hnd, hB.once f (htells hcur L hL), ?_⟩
    rintro x hx y hy rfl
    obtain ⟨a, ha, hax⟩ := List.mem_map.mp hx
    obtain ⟨b, hb, hbx⟩ := List.mem_map.mp hy
    obtain ⟨ha, -⟩ := List.mem_filter.mp ha
    obtain ⟨hb, hsign⟩ := List.mem_filter.mp hb
    -- the old one is on the timeline and the new one is not
    obtain ⟨hash, hhash, hnew⟩ := hB.fresh b hb (by simpa using hsign)
    have hold := h.parsed a (List.mem_append_left _ ha) (h.whole a ha)
    rw [hhex _ _ (hax.trans hbx.symm), hhash] at hold
    rw [Except.ok.inj hold] at hnew
    exact hadded a ha hnew
  | failed hcur hbatch =>
    obtain ⟨g, m, c, rfl, -⟩ := nextBatch_error hbatch
    exact hnd

theorem Run.nodup {T : Type} {f : Blob → T}
    {ok : List AdvancedBlock → BlocksTimeline → NetworkBlockSource → Prop} {countBlocks : Nat}
    {earlier : List (List AdvancedBlock)} {batch : List AdvancedBlock} {s : NetworkBlockSource}
    (h : Run env ok countBlocks earlier batch s)
    (hadded : ∀ delivered timeline s, ok delivered timeline s → Added timeline delivered)
    (htells : ∀ delivered timeline s, ok delivered timeline s → Tells f env timeline s)
    (hhex : ∀ x y, f x = f y → env.fromHex x = env.fromHex y) :
    (signNames f (earlier.flatten ++ batch ++ s.currentProcessedBlock)).Nodup := by
  -- what a call hands over is what was in front
  have hcall : ∀ {earlier batch s s'} {timeline : BlocksTimeline} {r}, 
      Run env ok countBlocks earlier batch s → ok (earlier.flatten ++ batch) timeline s →
      s.process env timeline = (r, s') →
      (signNames f (earlier.flatten ++ batch ++ s.currentProcessedBlock)).Nodup →
      (∀ a, r = .ok (some a) →
        (signNames f (earlier.flatten ++ batch ++ [a] ++ s'.currentProcessedBlock)).Nodup) ∧
      ((∀ a, r ≠ .ok (some a)) →
        (signNames f (earlier.flatten ++ batch ++ s'.currentProcessedBlock)).Nodup) := by
    intro earlier batch s s' timeline r hrun hok hp ih
    obtain ⟨s₁, hfilled, hcase⟩ := process_cases hp
    have h₁ := hfilled.nodup hrun.inv (hadded _ timeline s hok) (htells _ timeline s hok) hhex ih
    rcases hcase with ⟨a, rfl, -, hcur, -, -⟩ | ⟨hne, rfl⟩
    · refine ⟨?_, fun hne => absurd rfl (hne a)⟩
      rintro _ ⟨⟩
      rw [List.append_assoc _ [a], List.singleton_append, ← hcur]
      exact h₁
    · exact ⟨fun a ha => absurd ha (hne a), fun _ => h₁⟩
  induction h with
  | doProcess s =>
    rw [(doProcess_inv s countBlocks).2]
    exact List.nodup_nil
  | idle hrun hok hp hne ih => exact (hcall hrun hok hp ih).2 hne
  | next hrun hok _ hp ih =>
    rw [← List.append_assoc]
    exact (hcall hrun hok hp ih).1 _ rfl
  | first hrun hok _ hp ih =>
    rw [List.flatten_append, List.flatten_singleton]
    exact (hcall hrun hok hp ih).1 _ rfl

/-- The sign blocks that this call would load are named one way each. -/
def OneSpelling (env : Env) (timeline : BlocksTimeline) (s : NetworkBlockSource) : Prop :=
  Tells env.fromHex env timeline s

/-- **Deliveries after a `doProcess`.** Whatever is answered and thrown: the blocks of the chain are
numbered one after the other from `countBlocks + 1` on, each entry has the hash it was requested
by, each batch is in order and no entry is delivered before the blocks below it. For a caller that
adds what is delivered to the timeline no sign block is delivered twice under one name, and where
no two names of one sign block came together, none is delivered twice at all. -/
theorem delivered_in_order
    {ok : List AdvancedBlock → BlocksTimeline → NetworkBlockSource → Prop} {countBlocks : Nat}
    {earlier : List (List AdvancedBlock)} {batch : List AdvancedBlock} {s : NetworkBlockSource}
    (h : Run env ok countBlocks earlier batch s) :
    (∃ k, blockNumbers (earlier.flatten ++ batch) = List.range' (countBlocks + 1) k) ∧
    (∀ a ∈ earlier.flatten ++ batch, env.fromHex a.header.hash = .ok a.bi.hash) ∧
    (∀ b ∈ earlier ++ [batch], b.Pairwise AdvancedBlock.Precedes) ∧
    (∀ pre a post, earlier.flatten ++ batch = pre ++ a :: post →
      blockNumbers pre = List.range' (countBlocks + 1) (a.due - (countBlocks + 1))) ∧
    ((∀ delivered timeline s, ok delivered timeline s → Added timeline delivered) →
      (signNames id (earlier.flatten ++ batch)).Nodup ∧
      ((∀ delivered timeline s, ok delivered timeline s → OneSpelling env timeline s) →
        (((earlier.flatten ++ batch).filter (fun a => !a.isBlock)).map
          (fun a => a.bi.hash)).Nodup)) := by
  have hinv := h.inv
  -- Blocks are in their places, those that were handed over and those that are left.
  have hplaced : Placed (countBlocks + 1) (earlier.flatten ++ batch) :=
    (placed_append.mp hinv.placed).1
  have hhash : ∀ a ∈ earlier.flatten ++ batch, env.fromHex a.header.hash = .ok a.bi.hash :=
    fun a ha => hinv.parsed a (List.mem_append_left _ ha) (hinv.whole a ha)
  refine ⟨⟨_, hplaced.blockNumbers⟩, hhash, ?_, fun pre a post hl => hplaced.before hl,
    fun hadded => ⟨?_, ?_⟩⟩
  · intro b hb
    refine hplaced.precedes.sublist ?_
    rcases List.mem_append.mp hb with hb | hb
    · exact (List.sublist_flatten_of_mem hb).trans (List.sublist_append_left _ _)
    · rw [List.mem_singleton.mp hb]
      exact List.sublist_append_right _ _
  -- A name is handed over once; the hash of a name, only if names are spelled in one way.
  · have hnd := h.nodup (f := id) hadded (fun _ timeline s _ _ L _ x _ y _ _ he => he)
      (fun x y he => congrArg env.fromHex he)
    rw [signNames_append] at hnd
    exact hnd.of_append_left
  · intro hspell
    have hnd := h.nodup (f := env.fromHex) hadded hspell (fun x y he => he)
    rw [signNames_append] at hnd
    have hsame : signNames env.fromHex (earlier.flatten ++ batch) =
        (((earlier.flatten ++ batch).filter (fun a => !a.isBlock)).map (fun a => a.bi.hash)).map
          Except.ok := by
      rw [signNames, List.map_map]
      exact List.map_congr_left (fun a ha => hhash a (List.mem_filter.mp ha).1)
    have hnd' := hnd.of_append_left
    rw [hsame] at hnd'
    exact hnd'.of_map

/-! ## Two names of one sign block -/

/-- The value of a hexadecimal digit. -/
def hexValue (c : UInt8) : Except Err UInt8 :=
  if 48 ≤ c ∧ c ≤ 57 then .ok (c - 48)
  else if 97 ≤ c ∧ c ≤ 102 then .ok (c - 87)
  else .error (.exception "Incorrect symbol in hex string")

/-- Two digits for each byte. -/
def hexPairs : Bytes → Except Err Bytes
  | [] => .ok []
  | [_] => .error (.exception "Incorrect size of hex string")
  | a :: b :: rest => do
    let high ← hexValue a
    let low ← hexValue b
    let tail ← hexPairs rest
    pure ((16 * high + low) :: tail)

/-- Hexadecimal text, with or without the "0x" that addresses have in front. -/
def hexText (b : Blob) : Except Err Blob := do
  let bytes ← hexPairs (if b.val.take 2 = ascii ['0', 'x'] then b.val.drop 2 else b.val)
  Blob.ofBytes bytes

/-- The name of a sign block, two digits. -/
def bareName (digit : Char) : Blob := ⟨ascii ['0', digit], Nat.lt_of_lt_of_le (by decide : 2 < 3) (by decide)⟩

/-- The same in the other spelling. -/
def prefixedName (digit : Char) : Blob :=
  ⟨ascii ['0', 'x', '0', digit], Nat.lt_of_lt_of_le (by decide : 4 < 5) (by decide)⟩

/-- The name of the block of a height. -/
def blockName (height : Nat) : Blob :=
  ⟨[98, UInt8.ofNat (48 + height)], Nat.lt_of_lt_of_le (by decide : 2 < 3) (by decide)⟩

/-- A server with so many blocks, which names these sign blocks in front of the first one. A dump is
the name that it is asked for by. -/
def blocksServer (count : Nat) (names : List Blob) : Env where
  net :=
    { messages :=
        { parseCountBlocksMessage := fun _ => .ok (count, ∅)
          parsePreloadBlocksMessage := fun _ => .error .stop
          parseBlockHeader := fun answer =>
            let height := (answer.val.headD 0).toNat
            .ok
              { number := height, blockSize := 2, hash := blockName height, parentHash := ∅
                fileName := ∅
                prevExtraBlocks := if height = 1 then OrdSet.ofList names else ∅
                nextExtraBlocks := ∅ }
          parseBlocksHeader := fun _ => .error .stop
          parseAdditionalBlockHashes := fun _ => .error .stop
          parseDumpBlockBinary := fun answer _ => .ok answer
          parseDumpBlocksBinary := fun _ _ => .error .stop }
      p2p :=
        { countBlocks := fun _ => ⟨[(∅, .ok ∅)], none⟩
          preLoad := fun _ _ _ => ⟨[], none⟩
          headers := fun _ parts _ =>
            .ok (parts.map (fun part => Blob.replicate 1 (UInt8.ofNat part.1) Blob.byte_fits))
          dumps := fun _ parts _ _ => .ok (parts.map (fun hashes => hashes.headD ∅))
          dump := fun _ _ _ _ _ _ => .error .stop
          wholeDump := fun _ _ _ _ => .error .stop } }
  isVerifySign := false
  isPreLoad := false
  scheme := trustingScheme
  fromHex := hexText
  parseNextBlockInfo := fun dump => do
    let hash ← hexText dump
    pure (if dump.val.head? = some 98 then
        .block { header := { (default : BlockHeader) with hash }, txs := [] }
      else
        .sign
          { header :=
              { timestamp := 0, blockSize := 2, hash, prevHash := ∅, filePos := default
                senderSign := ∅, senderPubkey := ∅, senderAddress := ∅ }
            txs := [] })
  uninitialized := fun _ => 0

/-- A source that has not started. -/
def idleSource : NetworkBlockSource where
  getterBlocks :=
    { maxAdvancedLoadBlocks := 1, countBlocksInBatch := 1, isCompress := false
      advancedLoadsBlocksHeaders := [], advancedLoadsBlocksDumps := ∅, asked := 0 }
  nextBlockToRead := 0
  servers := []
  lastBlockInBlockchain := 0
  advancedBlocks := ∅
  currentProcessedBlock := []
  afterBlocksAdditings := none
  lastFileName := ∅

/-- Calls so far, of a caller that adds what is delivered to its timeline. -/
structure Calls where
  earlier : List (List AdvancedBlock)
  batch : List AdvancedBlock
  source : NetworkBlockSource
  timeline : BlocksTimeline

namespace Calls

/-- All entries so far. -/
def delivered (c : Calls) : List AdvancedBlock := c.earlier.flatten ++ c.batch

/-- Before the first call. -/
def start (env : Env) : Calls := ⟨[], [], (idleSource.doProcess env 0).2, BlocksTimeline.new⟩

/-- The caller puts an entry on its timeline. -/
def addTo (timeline : BlocksTimeline) (a : AdvancedBlock) : BlocksTimeline :=
  timeline.push (if a.isBlock then .simple a.bi.hash
    else .sign { hash := a.bi.hash, filePos := default, prevHash := ∅ })

/-- One more call; nothing when it hands nothing over. -/
def next (env : Env) (c : Calls) : Option Calls :=
  match c.source.process env c.timeline with
  | (.ok (some a), source) =>
    if c.source.currentProcessedBlock.isEmpty then
      some { earlier := c.earlier ++ [c.batch], batch := [a], source, timeline := addTo c.timeline a }
    else some { c with batch := c.batch ++ [a], source, timeline := addTo c.timeline a }
  | _ => none

/-- So many calls. -/
def times (env : Env) : Nat → Option Calls
  | 0 => some (start env)
  | n + 1 => (times env n).bind (next env)

/-- The names that a call finds are spelled one way each; checked where it gets a new batch. -/
def oneSpelling (env : Env) (c : Calls) : Bool :=
  !c.source.currentProcessedBlock.isEmpty ||
    match (c.source.additings env).1 with
    | .error _ => true
    | .ok l => l.all (fun x => l.all (fun y => env.fromHex x.hash ≠ env.fromHex y.hash ||
        x.hash == y.hash))

/-- What the theorem asks of a call. -/
def good (env : Env) (c : Calls) : Bool :=
  c.delivered.all (fun a => (c.timeline.hashes.find? a.bi.hash).isSome) && c.oneSpelling env

end Calls

/-- **The calls are a run** of whatever holds at each of them. -/
theorem Calls.run {env : Env} {ok : List AdvancedBlock → BlocksTimeline → NetworkBlockSource → Prop} :
    ∀ {n : Nat} {c : Calls}, Calls.times env n = some c →
      (∀ k < n, ∀ c', Calls.times env k = some c' → ok c'.delivered c'.timeline c'.source) →
      Run env ok 0 c.earlier c.batch c.source
  | 0, c, h, _ => by
      obtain rfl := Option.some.inj h
      exact Run.doProcess idleSource
  | n + 1, c, h, hok => by
      obtain ⟨c₀, h₀, hnext⟩ := Option.bind_eq_some_iff.mp h
      have hrun := Calls.run h₀ (fun k hk => hok k (by omega))
      have hcall := hok n (Nat.lt_succ_self n) c₀ h₀
      unfold Calls.next at hnext
      split at hnext
      · rename_i a source hp
        split at hnext
        · rename_i hempty
          obtain rfl := Option.some.inj hnext
          exact hrun.first hcall (List.isEmpty_iff.mp hempty) hp
        · rename_i hne
          obtain rfl := Option.some.inj hnext
          exact hrun.next hcall (fun hnil => hne (List.isEmpty_iff.mpr hnil)) hp
      · cases hnext

theorem Calls.good_iff {env : Env} {c : Calls} (h : c.good env = true) :
    Added c.timeline c.delivered ∧ OneSpelling env c.timeline c.source := by
  unfold Calls.good at h
  obtain ⟨hadded, hspell⟩ := Bool.and_eq_true_iff.mp h
  refine ⟨fun a ha => Option.isSome_iff_ne_none.mp (List.all_eq_true.mp hadded a ha), ?_⟩
  intro hempty L hL x hx y hy _ heq
  unfold Calls.oneSpelling at hspell
  rw [hempty, hL] at hspell
  have hall : L.all (fun x => L.all (fun y => env.fromHex x.hash ≠ env.fromHex y.hash ||
      x.hash == y.hash)) = true := hspell
  have hxy := List.all_eq_true.mp (List.all_eq_true.mp hall x hx) y hy
  exact Subtype.ext (by simpa [heq] using hxy)

/-- Nine blocks and two sign blocks in front of the first: a batch of eight blocks and another one. -/
def twoSigns : Env := blocksServer 9 [bareName '1', bareName '3']

theorem delivered_in_order_eleven : ∃ c, Calls.times twoSigns 11 = some c ∧
    c.earlier.map List.length = [0, 10] ∧ c.batch.length = 1 ∧
    ((c.delivered.filter (fun a => !a.isBlock)).map (fun a => a.bi.hash)).Nodup := by
  have hgood : (List.range 11).all
      (fun k => (Calls.times twoSigns k).any (Calls.good twoSigns)) = true := by decide +kernel
  have hcalls : ((Calls.times twoSigns 11).map (fun c => (c.earlier.map List.length, c.batch.length)))
      = some ([0, 10], 1) := by decide +kernel
  obtain ⟨c, hc, hlen⟩ := Option.map_eq_some_iff.mp hcalls
  have hok : ∀ k < 11, ∀ c', Calls.times twoSigns k = some c' →
      Added c'.timeline c'.delivered ∧ OneSpelling twoSigns c'.timeline c'.source := by
    intro k hk c' hc'
    have hk' := List.all_eq_true.mp hgood k (List.mem_range.mpr hk)
    rw [hc'] at hk'
    exact Calls.good_iff hk'
  have hrun : Run twoSigns (fun delivered timeline s =>
      Added timeline delivered ∧ OneSpelling twoSigns timeline s) 0 c.earlier c.batch c.source :=
    Calls.run hc hok
  have h := (delivered_in_order hrun).2.2.2.2
  exact ⟨c, hc, (Prod.mk.inj hlen).1, (Prod.mk.inj hlen).2,
    (h (fun _ _ _ hd => hd.1)).2 (fun _ _ _ hd => hd.2)⟩

/-- **A sign block that is named with and without "0x" is delivered twice**, to a caller that adds
what is delivered. -/
theorem two_names_delivered_twice :
    ∃ (env : Env) (countBlocks : Nat) (earlier : List (List AdvancedBlock))
      (batch : List AdvancedBlock) (s : NetworkBlockSource),
      Run env (fun delivered timeline _ => Added timeline delivered) countBlocks earlier batch s ∧
        ¬ (((earlier.flatten ++ batch).filter (fun a => !a.isBlock)).map
          (fun a => a.bi.hash)).Nodup := by
  have htwice : ((Calls.times (blocksServer 1 [bareName '1', prefixedName '1']) 2).map (fun c =>
      decide (((c.delivered.filter (fun a => !a.isBlock)).map (fun a => a.bi.hash)).Nodup))) =
        some false := by decide +kernel
  have hadded : (List.range 2).all (fun k =>
      (Calls.times (blocksServer 1 [bareName '1', prefixedName '1']) k).all (fun c =>
        c.delivered.all (fun a => (c.timeline.hashes.find? a.bi.hash).isSome))) = true := by
    decide +kernel
  obtain ⟨c, hc, hsame⟩ := Option.map_eq_some_iff.mp htwice
  refine ⟨_, 0, c.earlier, c.batch, c.source, Calls.run hc (fun k hk c' hc' a ha => ?_),
    of_decide_eq_false hsame⟩
  have hk' := List.all_eq_true.mp hadded k (List.mem_range.mpr hk)
  rw [hc'] at hk'
  exact Option.isSome_iff_ne_none.mp (List.all_eq_true.mp hk' a ha)

end NetworkBlockSource

end TorrentNode
