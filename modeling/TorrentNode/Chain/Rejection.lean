import TorrentNode.Chain.AddBlock

/-!
# What a rejected block leaves on the chain

`addBlock` takes a rejected block out again, but not what the walk did on its
way: the last state block may have been raised, and parents that had no number
keep the one they were given.
-/

namespace TorrentNode

namespace BlockChain

/-- `k` is stored with a number. -/
def Numbered (k : Blob) (blocks : OrdMap Blob BlockHeader) : Prop :=
  ∃ h, blocks.find? k = some h ∧ h.blockNumber ≠ none

theorem numbered_insert {k j : Blob} {blocks : OrdMap Blob BlockHeader} {h : BlockHeader} {n : Nat}
    (hk : Numbered k blocks) : Numbered k (blocks.insert j (h.withNumber (some n))) := by
  obtain ⟨g, hg, hgn⟩ := hk
  by_cases hj : k = j
  · subst hj
    exact ⟨_, OrdMap.find?_insert_self, by simp⟩
  · exact ⟨g, by rw [OrdMap.find?_insert_ne hj, hg], hgn⟩

theorem numbered_modify {k j : Blob} {blocks : OrdMap Blob BlockHeader} {n : Nat}
    (hk : Numbered k blocks) :
    Numbered k (blocks.modify j (fun h => h.withNumber (some n))) := by
  unfold OrdMap.modify
  cases blocks.find? j with
  | none => exact hk
  | some g => exact numbered_insert hk

/-- A walk numbers the header it starts at. -/
theorem walk_numbers {fuel : Nat} {w : Walk} {h : BlockHeader} (hw : w.blocks.find? w.bh = some h) :
    Numbered w.bh (walk (fuel + 1) w).2.blocks := by
  cases hn : h.blockNumber with
  | some n =>
      rw [walk_numbered hw hn]
      exact ⟨h, hw, by rw [hn]; simp⟩
  | none =>
      have hnum : Numbered w.bh (w.blocks.insert w.bh (h.withNumber (some w.currNum))) :=
        ⟨_, OrdMap.find?_insert_self, by simp⟩
      rw [walk_unnumbered hw hn]
      split
      · exact hnum
      · cases hf : (w.blocks.insert w.bh (h.withNumber (some w.currNum))).find? h.prevHash with
        | none => exact hnum
        | some p =>
            exact walk_keeps (P := Numbered w.bh) (fun hk _ _ => numbered_insert hk) hnum ⟨p, hf⟩

theorem renumber_keeps {k : Blob} (allNum : Nat) :
    ∀ (refs : List Blob) (c : BlockChain), Numbered k c.blocks →
      Numbered k (renumber allNum refs c).2.blocks
  | [], _, hk => hk
  | ref :: refs, c, hk => by
      have hk' := numbered_modify (j := ref)
        (n := allNum - (deref c.blocks ref).blockNumber.getD 0) hk
      by_cases hlen : allNum - (deref c.blocks ref).blockNumber.getD 0 = c.hashes.length
      · simp only [renumber, hlen, ne_eq, not_true_eq_false, if_false]
        rw [hlen] at hk'
        exact renumber_keeps allNum refs _ hk'
      · simp only [renumber, hlen, ne_eq, not_false_eq_true, if_true]
        exact hk'

/-- A header that comes with a number of its own is taken as it is. -/
theorem addBlock_preset {c : BlockChain} {b : BlockHeader} {n : Nat} (hne : b.hash ≠ ∅)
    (hnew : c.blocks.find? b.hash = none) (hn : b.blockNumber = some n) :
    (c.addBlock b).1 = .ok (some n) := by
  have hstored : (c.blocks.insert b.hash b).find? b.hash = some b := OrdMap.find?_insert_self
  have hnum : (deref (c.blocks.insert b.hash b) b.hash).blockNumber = some n := by
    rw [deref_of_find hstored, hn]
  rw [addBlock_new hne hnew, calcBlockchain_stored hne hstored, walk_numbered hstored hn]
  simp only [settle, hnum, renumber, Nat.zero_add]

/-- **A rejected child of a header without a number** leaves that header with one. -/
theorem addBlock_unnumbered_parent {c : BlockChain} {b p : BlockHeader} (hne : b.hash ≠ ∅)
    (hnew : c.blocks.find? b.hash = none) (hn : b.blockNumber = none) (hp : b.prevHash ≠ ∅)
    (hself : b.prevHash ≠ b.hash) (hpar : c.blocks.find? b.prevHash = some p)
    (hrej : ∀ n, (c.addBlock b).1 ≠ .ok (some n)) :
    Numbered b.prevHash (c.addBlock b).2.blocks := by
  have hstored : (c.blocks.insert b.hash b).find? b.hash = some b := OrdMap.find?_insert_self
  have hpar' : ((c.blocks.insert b.hash b).insert b.hash (b.withNumber (some 0))).find? b.prevHash =
      some p := by rw [OrdMap.find?_insert_ne hself, OrdMap.find?_insert_ne hself, hpar]
  have hcalc := calcBlockchain_stored
    (c := { c with blocks := c.blocks.insert b.hash b }) hne hstored
  generalize hwalk : walk _ _ = res at hcalc
  obtain ⟨r, w⟩ := res
  -- the walk goes on to the parent, and numbers it there
  have hnum : Numbered b.prevHash w.blocks := by
    obtain ⟨m, hm⟩ : ∃ m, (c.blocks.insert b.hash b).entries.length = m + 1 := by
      refine Nat.exists_eq_add_one.mpr (List.length_pos_of_mem (a := (b.hash, b)) ?_)
      exact OrdMap.mem_entries.mpr hstored
    have hw : w = (walk ((c.blocks.insert b.hash b).entries.length + 1)
        { blocks := c.blocks.insert b.hash b, bh := b.hash, currNum := 0,
          processedBlocks := [] }).2 := by rw [hwalk]
    rw [hw, hm, walk_unnumbered hstored hn, Blob.isEmpty_eq_false.mpr hp]
    simp only [Bool.false_eq_true, if_false, hpar']
    exact walk_numbers hpar'
  rw [addBlock_new hne hnew, hcalc] at hrej ⊢
  have hremove : ∀ {blocks : OrdMap Blob BlockHeader}, Numbered b.prevHash blocks →
      Numbered b.prevHash (blocks.erase b.hash) := by
    rintro blocks ⟨h, hh, hhn⟩
    exact ⟨h, by rw [OrdMap.find?_erase_ne hself, hh], hhn⟩
  cases r with
  | error e => exact hremove hnum
  | ok u =>
      obtain ⟨n, hend⟩ := walk_ends (keysOf (c.blocks.insert b.hash b))
        (fun k h hk => mem_keysOf hk) (unnumbered_lt _) ⟨b, hstored⟩ hwalk
      have hre := renumber_keeps (w.currNum + n) w.processedBlocks
        { c with blocks := w.blocks } hnum
      simp only [settle, hend] at hrej ⊢
      cases hres : (renumber (w.currNum + n) w.processedBlocks { c with blocks := w.blocks }).1 with
      | none => exact hremove hre
      | some m =>
          rw [hres] at hrej
          exact absurd rfl (hrej m)

/-- The blocks whose rejection changes nothing: those refused before the walk, and those whose
parent has a height and that would not raise the last state block. -/
def Silent (c : BlockChain) (b : BlockHeader) : Prop :=
  b.hash = ∅ ∨ b.prevHash = ∅ ∨ (∃ p, c.blocks.find? b.hash = some p) ∨
    ∃ n, parentHeight c b = some n ∧ (b.isStateBlock = true → n + 1 ≤ c.lastStateBlock)

theorem bump_eq {c : BlockChain} {b : BlockHeader} {n : Nat} :
    c.bump b n = c.lastStateBlock ↔ (b.isStateBlock = true → n ≤ c.lastStateBlock) := by
  unfold bump
  cases b.isStateBlock with
  | false => simp
  | true => simp

/-- **Exactly the silent blocks** leave the chain as it was when they are rejected. -/
theorem addBlock_rejected {c : BlockChain} {b : BlockHeader}
    (hrej : ∀ n, (c.addBlock b).1 ≠ .ok (some n)) : (c.addBlock b).2 = c ↔ Silent c b := by
  -- The returns of `addBlock`, each of which has its disjunct in `Silent`.
  by_cases hne : b.hash = ∅
  · rw [addBlock_empty hne]
    exact iff_of_true rfl (Or.inl hne)
  cases hnew : c.blocks.find? b.hash with
  | some p =>
      rw [addBlock_known hne hnew]
      exact iff_of_true rfl (Or.inr (Or.inr (Or.inl ⟨p, hnew⟩)))
  | none =>
      cases hn : b.blockNumber with
      | some n => exact absurd (addBlock_preset hne hnew hn) (hrej n)
      | none =>
          by_cases hp : b.prevHash = ∅
          · rw [addBlock_noParent hne hnew hn hp]
            exact iff_of_true rfl (Or.inr (Or.inl hp))
          cases hpar : parentHeight c b with
          | some n =>
              have hadd := addBlock_numbered hne hnew hn hp hpar
              -- Behind the last block it would be taken; elsewhere only the mark can change.
              by_cases htop : n + 1 = c.hashes.length
              · rw [if_pos htop] at hadd
                exact absurd (by rw [hadd]) (hrej (n + 1))
              · rw [if_neg htop] at hadd
                have hsilent : Silent c b ↔
                    (b.isStateBlock = true → n + 1 ≤ c.lastStateBlock) := by
                  simp [Silent, hne, hnew, hp, hpar]
                rw [hadd, hsilent, ← bump_eq]
                constructor
                · intro he; exact congrArg BlockChain.lastStateBlock he
                · intro he; exact he ▸ rfl
          | none =>
              -- the parent is stored and has no number, but it will get one
              have hself : b.prevHash ≠ b.hash := by
                intro hs
                rw [parentHeight, if_pos hs] at hpar
                exact absurd hpar (by simp)
              rw [parentHeight, if_neg hself] at hpar
              cases hf : c.blocks.find? b.prevHash with
              | none => rw [hf] at hpar; exact absurd hpar (by simp)
              | some p =>
                  rw [hf] at hpar
                  have hnum := addBlock_unnumbered_parent hne hnew hn hp hself hf hrej
                  refine iff_of_false ?_ ?_
                  · intro he
                    obtain ⟨h, hh, hhn⟩ := he ▸ hnum
                    rw [hf] at hh
                    exact hhn (Option.some.inj hh ▸ hpar)
                  · simp [Silent, hne, hnew, hp, parentHeight, hself, hf, hpar]

end BlockChain

end TorrentNode
