import TorrentNode.Chain.Representation
import TorrentNode.Chain.Signatures

/-!
# The chain and the timeline together

A node adds each block that its chain accepts to the timeline as well, and sign blocks
to the timeline alone. So the blocks of the timeline are those of the chain, in order.
-/

namespace TorrentNode

open BlockChain BlocksTimeline

/-- The chains and timelines that a node gets by adding blocks. -/
inductive Grown : BlockChain → BlocksTimeline → Prop where
  | new : Grown .new .new
  | block {c : BlockChain} {t : BlocksTimeline} {b : BlockHeader} {n : Nat} {r : UInt64 × Blob} :
      Grown c t → Offered c b → (c.addBlock b).1 = .ok (some n) →
      (t.addSimpleBlock b).1 = .ok r → Grown (c.addBlock b).2 (t.addSimpleBlock b).2
  | refused {c : BlockChain} {t : BlocksTimeline} {b : BlockHeader} :
      Grown c t → Offered c b → (∀ n, (c.addBlock b).1 ≠ .ok (some n)) → Grown (c.addBlock b).2 t
  | sign {c : BlockChain} {t : BlocksTimeline} (bh : SignBlockHeader) :
      Grown c t → Grown c (t.addSignBlock bh).2

/-- The sections of the timeline are the blocks of the chain, and no hash stands there twice. -/
structure InStep (c : BlockChain) (t : BlocksTimeline) (s : Sections) : Prop where
  represents : Represents c
  closed : Closed c
  timeline : t = built s.elements
  nodup : (s.elements.map Element.hash).Nodup
  blocks : s.blocks.map Prod.snd = c.hashes.tail

/-- A call either appends the block or leaves the heights alone. -/
theorem addBlock_hashes {c : BlockChain} {b : BlockHeader} (h : Represents c) (hc : Closed c)
    (ho : Offered c b) :
    (c.addBlock b).2.hashes =
      match (c.addBlock b).1 with
      | .ok (some _) => c.hashes ++ [b.hash]
      | _ => c.hashes := by
  cases hnew : c.blocks.find? b.hash with
  | some p =>
      rw [addBlock_known ho.hash hnew]
  | none =>
      by_cases hp : b.prevHash = ∅
      · rw [addBlock_noParent ho.hash hnew ho.number hp]
      · obtain ⟨n, hpar, -, -⟩ := parentHeight_closed h hc hnew
        rw [addBlock_numbered ho.hash hnew ho.number hp hpar]
        by_cases htop : n + 1 = c.hashes.length
        · rw [if_pos htop]
          rfl
        · rw [if_neg htop]

namespace BlocksTimeline

/-- One more element at the end of the sections. -/
def Sections.push (s : Sections) : Element → Sections
  | .sign block => ⟨s.blocks, s.behind ++ [block]⟩
  | .simple hash => ⟨s.blocks ++ [(s.behind, hash)], []⟩

theorem Sections.elements_push (s : Sections) (e : Element) :
    (s.push e).elements = s.elements ++ [e] := by
  cases e with
  | sign block => simp [push, elements]
  | simple hash => simp [push, elements, sectionElements]

/-- Adding an element leaves the timeline alone or puts it at the end. -/
theorem built_add {els : List Element} (e : Element) (h : (els.map Element.hash).Nodup) :
    ((built els).add e).2 = built els ∨
      ((built els).add e).2 = built (els ++ [e]) ∧ ((els ++ [e]).map Element.hash).Nodup := by
  cases hfind : (built els).hashes.find? e.hash with
  | some i =>
      left
      rw [add, hfind]
  | none =>
      right
      refine ⟨by rw [add, hfind, built_concat], ?_⟩
      have hnew := (find?_hashes_built els e.hash).mp hfind
      rw [List.map_append, List.nodup_append]
      refine ⟨h, by simp, ?_⟩
      intro a ha b hb hab
      obtain ⟨x, hx, rfl⟩ := List.mem_map.mp ha
      exact hnew x hx (hab.trans (List.mem_singleton.mp hb))

end BlocksTimeline

theorem inStep_new : InStep .new .new ⟨[], []⟩ :=
  ⟨represents_new, closed_new, rfl, List.nodup_nil, rfl⟩

/-- **A block that both take** stands at the end of both. -/
theorem InStep.block {c : BlockChain} {t : BlocksTimeline} {s : Sections} {b : BlockHeader}
    {n : Nat} {r : UInt64 × Blob} (h : InStep c t s) (ho : Offered c b)
    (hc : (c.addBlock b).1 = .ok (some n)) (ht : (t.addSimpleBlock b).1 = .ok r) :
    InStep (c.addBlock b).2 (t.addSimpleBlock b).2 (s.push (.simple b.hash)) := by
  have hstep := (represents_step h.represents h.closed ho).1
  have hhashes := addBlock_hashes h.represents h.closed ho
  rw [hc] at hhashes
  obtain rfl := h.timeline
  rcases built_add (.simple b.hash) h.nodup with hsame | ⟨hpush, hnodup⟩
  · -- then the timeline knew the block and would have thrown
    exfalso
    unfold addSimpleBlock add at ht
    unfold add at hsame
    cases hfind : (built s.elements).hashes.find? (Element.simple b.hash).hash with
    | some i =>
        rw [hfind] at ht
        cases ht
    | none =>
        rw [hfind] at hsame
        have hlen := congrArg (fun t : BlocksTimeline => t.timeline.length) hsame
        simp at hlen
  · refine ⟨hstep.1, hstep.2, ?_, ?_, ?_⟩
    · rw [Sections.elements_push]
      exact hpush
    · rw [Sections.elements_push]
      exact hnodup
    · have hne : c.hashes ≠ [] := List.ne_nil_of_length_pos h.represents.length_pos
      rw [hhashes, List.tail_append_of_ne_nil hne, ← h.blocks]
      simp [Sections.push]

theorem InStep.refused {c : BlockChain} {t : BlocksTimeline} {s : Sections} {b : BlockHeader}
    (h : InStep c t s) (ho : Offered c b) (hc : ∀ n, (c.addBlock b).1 ≠ .ok (some n)) :
    InStep (c.addBlock b).2 t s := by
  have hstep := (represents_step h.represents h.closed ho).1
  have hhashes := addBlock_hashes h.represents h.closed ho
  refine ⟨hstep.1, hstep.2, h.timeline, h.nodup, ?_⟩
  split at hhashes
  · exact absurd (by assumption) (hc _)
  · rw [hhashes]
    exact h.blocks

theorem InStep.sign {c : BlockChain} {t : BlocksTimeline} {s : Sections} (h : InStep c t s)
    (bh : SignBlockHeader) : ∃ s', InStep c (t.addSignBlock bh).2 s' := by
  obtain rfl := h.timeline
  rcases built_add (.sign { hash := bh.hash, filePos := bh.filePos, prevHash := bh.prevHash })
    h.nodup with hsame | ⟨hpush, hnodup⟩
  · exact ⟨s, h.represents, h.closed, hsame, h.nodup, h.blocks⟩
  · exact ⟨s.push (.sign { hash := bh.hash, filePos := bh.filePos, prevHash := bh.prevHash }),
      h.represents, h.closed, hpush.trans (by rw [Sections.elements_push]),
      by rw [Sections.elements_push]; exact hnodup, h.blocks⟩

/-- **The chain and the timeline of a node stay in step.** -/
theorem Grown.inStep {c : BlockChain} {t : BlocksTimeline} (h : Grown c t) :
    ∃ s, InStep c t s := by
  induction h with
  | new => exact ⟨_, inStep_new⟩
  | block _ ho hc ht ih =>
      obtain ⟨s, hs⟩ := ih
      exact ⟨_, hs.block ho hc ht⟩
  | refused _ ho hc ih =>
      obtain ⟨s, hs⟩ := ih
      exact ⟨s, hs.refused ho hc⟩
  | sign bh _ ih =>
      obtain ⟨s, hs⟩ := ih
      exact hs.sign bh

/-! ## The blocks by their numbers -/

namespace InStep

variable {c : BlockChain} {t : BlocksTimeline} {s : Sections}

theorem length_blocks (h : InStep c t s) : s.blocks.length = c.countBlocks := by
  have hlen := congrArg List.length h.blocks
  rw [List.length_map, List.length_tail] at hlen
  exact hlen

/-- The block of a number, from 1 on, and the run before it. -/
theorem block_at (h : InStep c t s) {i : Nat} (hi : i < c.countBlocks) :
    ∃ run, s.blocks[i]? = some (run, (c.getBlockByNumber (i + 1)).hash) ∧
      (c.getBlockByNumber (i + 1)).blockNumber = some (i + 1) := by
  have hlt : i < s.blocks.length := by rw [h.length_blocks]; exact hi
  have hhash : c.hashes[i + 1]? = some s.blocks[i].2 := by
    rw [← List.getElem?_tail, ← h.blocks, List.getElem?_map, List.getElem?_eq_getElem hlt]
    rfl
  obtain ⟨b, hb, hbh, hbn⟩ := h.represents.stored _ _ hhash
  have hget : c.getBlockByNumber (i + 1) = b := by
    unfold getBlockByNumber
    rw [hhash]
    exact deref_of_find hb
  refine ⟨s.blocks[i].1, ?_, hget ▸ hbn⟩
  rw [hget, hbh]
  exact List.getElem?_eq_getElem hlt

end InStep

end TorrentNode
