import TorrentNode.Chain.Timeline

/-!
# Signature blocks between blocks (`BlocksTimeline::getSignaturesBetween`)

The sign blocks of a timeline stand in runs: one before each block of the chain, which
may be empty, and one behind the last. A call with a single block returns the run before
it or the one behind it. Only the run before the first block comes without its first
element, for the search backwards ends at the beginning without finding a block there
and steps forward all the same.
-/

namespace TorrentNode

namespace BlocksTimeline

/-- `std::holds_alternative<SimpleBlockElement>` -/
def Element.isSimple : Element → Bool
  | .sign _ => false
  | .simple _ => true

/-- `std::get<SignBlockElement>` behind its `CHECK`. -/
def Element.signature : Element → Except Err MinimumSignBlockHeader
  | .sign block => .ok block
  | .simple _ => .error (.exception "Incorrect block type ")

/-- `hashes.find` behind its `CHECK`: where the block stands. -/
def find (t : BlocksTimeline) (block : Blob) : Except Err Nat :=
  match t.hashes.find? block with
  | none => .error (.exception ("Block not found in timeline " ++ toHex block.val ++ " " ++
      toString t.size))
  | some iter => .ok iter

/-- `iter--` until it stands at a block of the chain or at the beginning. -/
def previous (timeline : List Element) : Nat → Nat
  | 0 => 0
  | iter + 1 => if timeline[iter]?.any Element.isSimple then iter else previous timeline iter

/-- `iterFirst` -/
def firstIterator (t : BlocksTimeline) : Option Blob → Option Blob → Except Err Nat
  | some first, _ => do
    let iter ← t.find first
    pure (iter + 1)
  | none, some second => do
    let iter ← t.find second
    pure (if iter = 0 then iter else previous t.timeline iter + 1)
  | none, none => .error (.std "bad_optional_access")

/-- `iterSecond` -/
def secondIterator (t : BlocksTimeline) (iterFirst : Nat) : Option Blob → Except Err Nat
  | some second => t.find second
  | none => .ok (iterFirst +
      ((t.timeline.drop iterFirst).takeWhile (fun e => !e.isSimple)).length)

/-- The sign blocks between two blocks; one that is not given is the next in that direction. -/
def getSignaturesBetween (t : BlocksTimeline) (firstBlock secondBlock : Option Blob) :
    Except Err (List MinimumSignBlockHeader) := do
  check (firstBlock.isSome || secondBlock.isSome) "Not setted fields"
  let iterFirst ← t.firstIterator firstBlock secondBlock
  let iterSecond ← t.secondIterator iterFirst secondBlock
  ((t.timeline.drop iterFirst).take (iterSecond - iterFirst)).mapM Element.signature

/-! ## The runs of a timeline -/

/-- The blocks of the chain, each with the sign blocks before it, and those behind the last. -/
structure Sections where
  blocks : List (List MinimumSignBlockHeader × Blob)
  behind : List MinimumSignBlockHeader

namespace Sections

/-- A block of the chain and the run before it. -/
def sectionElements (s : List MinimumSignBlockHeader × Blob) : List Element :=
  s.1.map .sign ++ [.simple s.2]

/-- The timeline of these sections. -/
def elements (s : Sections) : List Element :=
  s.blocks.flatMap sectionElements ++ s.behind.map .sign

/-- The run behind the first `i` blocks. -/
def run (s : Sections) (i : Nat) : List MinimumSignBlockHeader :=
  (s.blocks[i]?.map Prod.fst).getD s.behind

/-- The elements behind the first `i` blocks are the run there and the rest. -/
theorem elements_split (s : Sections) (i : Nat) :
    s.elements = (s.blocks.take i).flatMap sectionElements ++ (s.run i).map .sign ++
      match s.blocks[i]? with
      | none => []
      | some b => .simple b.2 :: (⟨s.blocks.drop (i + 1), s.behind⟩ : Sections).elements := by
  by_cases hi : i < s.blocks.length
  · have hget : s.blocks[i]? = some s.blocks[i] := List.getElem?_eq_getElem hi
    have hsplit : s.blocks = s.blocks.take i ++ s.blocks[i] :: s.blocks.drop (i + 1) := by
      rw [← List.drop_eq_getElem_cons hi, List.take_append_drop]
    have hflat : s.blocks.flatMap sectionElements = (s.blocks.take i).flatMap sectionElements ++
        (sectionElements s.blocks[i] ++ (s.blocks.drop (i + 1)).flatMap sectionElements) := by
      conv_lhs => rw [hsplit]
      rw [List.flatMap_append, List.flatMap_cons]
    rw [run, hget, elements, hflat]
    simp [elements, sectionElements]
  · have hget : s.blocks[i]? = none := List.getElem?_eq_none (by omega)
    rw [run, hget, List.take_of_length_le (by omega)]
    simp [elements]

end Sections

/-! ## What is between two blocks -/

theorem mapM_signature (run : List MinimumSignBlockHeader) :
    (run.map Element.sign).mapM Element.signature = .ok run := by
  induction run with
  | nil => rfl
  | cons b run ih =>
      rw [List.map_cons, List.mapM_cons, ih]
      rfl

/-- **Inversion**: only sign blocks come through. -/
theorem mapM_signature_eq_ok {l : List Element} {run : List MinimumSignBlockHeader}
    (h : l.mapM Element.signature = .ok run) : l = run.map .sign := by
  induction l generalizing run with
  | nil =>
      rw [List.mapM_nil] at h
      obtain rfl := Except.ok.inj h
      rfl
  | cons e l ih =>
      rw [List.mapM_cons] at h
      obtain ⟨block, hblock, h⟩ := bind_eq_ok.mp h
      obtain ⟨rest, hrest, h⟩ := bind_eq_ok.mp h
      obtain rfl := Except.ok.inj h
      cases e with
      | simple hash => cases hblock
      | sign block' =>
          obtain rfl := Except.ok.inj hblock
          rw [ih hrest, List.map_cons]

/-- What is returned stands on the timeline in this order. -/
theorem sublist_of_getSignaturesBetween {t : BlocksTimeline} {firstBlock secondBlock : Option Blob}
    {run : List MinimumSignBlockHeader}
    (h : t.getSignaturesBetween firstBlock secondBlock = .ok run) :
    (run.map Element.sign).Sublist t.timeline := by
  unfold getSignaturesBetween at h
  obtain ⟨-, h⟩ := check_bind_eq_ok.mp h
  obtain ⟨iterFirst, -, h⟩ := bind_eq_ok.mp h
  obtain ⟨iterSecond, -, h⟩ := bind_eq_ok.mp h
  rw [← mapM_signature_eq_ok h]
  exact (List.take_sublist _ _).trans (List.drop_sublist _ _)

theorem any_sign {l l' : List Element} {run : List MinimumSignBlockHeader} {k : Nat}
    (hk : k < run.length) :
    ((l ++ run.map Element.sign ++ l')[l.length + k]?).any Element.isSimple = false := by
  rw [List.append_assoc, List.getElem?_append_right (by omega), Nat.add_sub_cancel_left,
    List.getElem?_append_left (by rw [List.length_map]; exact hk), List.getElem?_map,
    List.getElem?_eq_getElem hk]
  rfl

/-- The search backwards passes a run of sign blocks. -/
theorem previous_run {l l' : List Element} {run : List MinimumSignBlockHeader} :
    ∀ {k : Nat}, k ≤ run.length →
      previous (l ++ run.map Element.sign ++ l') (l.length + k) =
        previous (l ++ run.map Element.sign ++ l') l.length
  | 0, _ => rfl
  | k + 1, hk => by
      rw [← Nat.add_assoc, previous, any_sign (by omega)]
      exact previous_run (by omega)

/-- It stops at a block of the chain. -/
theorem previous_simple (l l' : List Element) (hash : Blob) :
    previous (l ++ [.simple hash] ++ l') (l ++ [Element.simple hash]).length = l.length := by
  rw [List.length_append, List.length_singleton, previous,
    List.append_assoc, List.getElem?_append_right (Nat.le_refl _), Nat.sub_self]
  rfl

variable {t : BlocksTimeline}

/-- The run before a block that is not the first. -/
theorem getSignaturesBetween_before {l l' : List Element} {run : List MinimumSignBlockHeader}
    {previousHash hash : Blob}
    (hl : t.timeline = l ++ [.simple previousHash] ++ run.map .sign ++ l')
    (hhash : t.hashes.find? hash = some (l.length + 1 + run.length)) :
    t.getSignaturesBetween none (some hash) = .ok run := by
  have hlen : (l ++ [Element.simple previousHash]).length = l.length + 1 := by simp
  have hfind : t.find hash = .ok (l.length + 1 + run.length) := by rw [find, hhash]
  have hprev : previous t.timeline (l.length + 1 + run.length) = l.length := by
    have hstop := previous_simple l (run.map .sign ++ l') previousHash
    rw [← List.append_assoc, hlen] at hstop
    rw [hl, ← hlen, previous_run (Nat.le_refl _), hlen]
    exact hstop
  have hslice : (t.timeline.drop (l.length + 1)).take run.length = run.map .sign := by
    rw [hl, List.append_assoc, List.drop_left' hlen, List.take_left' (by simp)]
  unfold getSignaturesBetween firstIterator secondIterator
  simp only [Option.isSome, Bool.or_true, check_true, hfind, Bind.bind, Except.bind, Pure.pure,
    Except.pure]
  rw [if_neg (by omega), hprev, Nat.add_sub_cancel_left, hslice, mapM_signature]

/-- The run before the first block, without its first element. -/
theorem getSignaturesBetween_first {l' : List Element} {run : List MinimumSignBlockHeader}
    {hash : Blob} (hl : t.timeline = run.map .sign ++ l')
    (hhash : t.hashes.find? hash = some run.length) :
    t.getSignaturesBetween none (some hash) = .ok run.tail := by
  have hfind : t.find hash = .ok run.length := by rw [find, hhash]
  unfold getSignaturesBetween firstIterator secondIterator
  simp only [Option.isSome, Bool.or_true, check_true, hfind, Bind.bind, Except.bind, Pure.pure,
    Except.pure]
  cases run with
  | nil => rfl
  | cons b run =>
      have hprev : previous t.timeline (b :: run).length = 0 := by
        have hpass := @previous_run [] l' (b :: run) _ (Nat.le_refl _)
        rw [List.nil_append, List.length_nil, Nat.zero_add] at hpass
        rw [hl, hpass]
        rfl
      rw [if_neg (by simp), hprev, hl]
      have hslice : (((b :: run).map Element.sign ++ l').drop (0 + 1)).take
          ((b :: run).length - (0 + 1)) = run.map .sign := by
        rw [List.map_cons, List.cons_append, Nat.zero_add, List.drop_succ_cons, List.drop_zero]
        exact List.take_left' (by simp)
      rw [hslice, mapM_signature]
      rfl

/-- The run behind a block. -/
theorem getSignaturesBetween_behind {l l' : List Element} {run : List MinimumSignBlockHeader}
    {e : Element} {hash : Blob} (hl : t.timeline = l ++ e :: (run.map .sign ++ l'))
    (hend : l'.head?.all Element.isSimple) (hhash : t.hashes.find? hash = some l.length) :
    t.getSignaturesBetween (some hash) none = .ok run := by
  have hfind : t.find hash = .ok l.length := by rw [find, hhash]
  have hdrop : t.timeline.drop (l.length + 1) = run.map .sign ++ l' := by
    rw [hl, List.drop_append, List.drop_of_length_le (by omega)]
    simp
  have hwhile : (run.map Element.sign ++ l').takeWhile (fun e => !e.isSimple) =
      run.map .sign := by
    rw [List.takeWhile_append_of_pos]
    · cases l' with
      | nil => simp
      | cons x l' =>
          rw [List.head?_cons, Option.all_some] at hend
          rw [List.takeWhile_cons_of_neg (by simp [hend]), List.append_nil]
    · intro x hx
      obtain ⟨b, _, rfl⟩ := List.mem_map.mp hx
      rfl
  unfold getSignaturesBetween firstIterator secondIterator
  simp only [Option.isSome, Bool.true_or, check_true, hfind, Bind.bind, Except.bind, Pure.pure,
    Except.pure]
  rw [hdrop, hwhile, Nat.add_sub_cancel_left, List.take_left' rfl, mapM_signature]

namespace Sections

variable {s : Sections} {i : Nat} {b : List MinimumSignBlockHeader × Blob}

/-- The elements up to a block, the block, and the elements behind it. -/
theorem elements_at (hi : s.blocks[i]? = some b) :
    s.elements = ((s.blocks.take i).flatMap sectionElements ++ b.1.map .sign) ++
      .simple b.2 :: (⟨s.blocks.drop (i + 1), s.behind⟩ : Sections).elements := by
  have hsplit := s.elements_split i
  rw [run, hi] at hsplit
  exact hsplit

/-- Where a block stands. -/
theorem find?_block (h : (s.elements.map Element.hash).Nodup) (hi : s.blocks[i]? = some b) :
    (built s.elements).hashes.find? b.2 =
      some (((s.blocks.take i).flatMap sectionElements).length + b.1.length) := by
  have hfind := find?_hashes_of_eq (elements_at hi) h
  rwa [List.length_append, List.length_map] at hfind

/-- **The run before a block is returned, but for the first element on the timeline.** -/
theorem signatures_before (h : (s.elements.map Element.hash).Nodup)
    (hi : s.blocks[i]? = some b) :
    (built s.elements).getSignaturesBetween none (some b.2) =
      .ok (if i = 0 then b.1.tail else b.1) := by
  have hfind := find?_block h hi
  have hels := elements_at hi
  cases i with
  | zero => exact getSignaturesBetween_first (by rw [timeline_built]; exact hels) (by simpa using hfind)
  | succ i =>
      have hlt : i + 1 < s.blocks.length := (List.getElem?_eq_some_iff.mp hi).1
      have htake : (s.blocks.take (i + 1)).flatMap sectionElements =
          ((s.blocks.take i).flatMap sectionElements ++ s.blocks[i].1.map .sign) ++
            [.simple s.blocks[i].2] := by
        rw [List.take_succ_eq_append_getElem (by omega), List.flatMap_append]
        simp [sectionElements]
      rw [htake] at hels hfind
      rw [if_neg (by omega)]
      refine getSignaturesBetween_before (by rw [timeline_built]; exact hels) ?_
      rw [hfind, List.length_append, List.length_singleton]

/-- **The run behind a block is returned.** -/
theorem signatures_behind (h : (s.elements.map Element.hash).Nodup)
    (hi : s.blocks[i]? = some b) :
    (built s.elements).getSignaturesBetween (some b.2) none = .ok (s.run (i + 1)) := by
  have hfind := find?_block h hi
  have hels := elements_at hi
  have hrest := (⟨s.blocks.drop (i + 1), s.behind⟩ : Sections).elements_split 0
  have hrun : (⟨s.blocks.drop (i + 1), s.behind⟩ : Sections).run 0 = s.run (i + 1) := by
    simp [run, List.getElem?_drop]
  rw [List.take_zero, List.flatMap_nil, List.nil_append, hrun] at hrest
  rw [hrest] at hels
  refine getSignaturesBetween_behind (by rw [timeline_built]; exact hels) ?_ (by rw [hfind]; simp)
  split <;> rfl

end Sections

end BlocksTimeline

end TorrentNode
