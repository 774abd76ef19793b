import TorrentNode.Chain.InStep

/-!
# What a timeline says about the signatures between blocks

A timeline that calls of `addSimpleBlock` and `addSignBlock` built, a block on it, and
the two questions that `getSignaturesBetween` answers about that block: the signatures
back to the block before it, and the signatures up to the next one.
-/

namespace TorrentNode

namespace BlocksTimeline

/-- A call that may put an element on the timeline. -/
inductive Call where
  | addSimpleBlock (bh : BlockHeader)
  | addSignBlock (bh : SignBlockHeader)
  deriving DecidableEq

/-- A caller keeps the timeline also when a call throws. -/
def Call.run (t : BlocksTimeline) : Call → BlocksTimeline
  | addSimpleBlock bh => (t.addSimpleBlock bh).2
  | addSignBlock bh => (t.addSignBlock bh).2

/-- The timeline after these calls. -/
def runCalls (calls : List Call) : BlocksTimeline := calls.foldl Call.run .new

/-- The sign elements behind the last block, one more element at a time. -/
def sinceLast (past : List Element) : List MinimumSignBlockHeader :=
  past.foldl
    (fun signatures e =>
      match e with
      | .sign block => signatures ++ [block]
      | .simple _ => [])
    []

/-- The sign elements up to the next block. -/
def untilNext : List Element → List MinimumSignBlockHeader
  | .sign block :: rest => block :: untilNext rest
  | _ => []

/-- All sign elements. -/
def allSignatures : List Element → List MinimumSignBlockHeader
  | [] => []
  | .sign block :: rest => block :: allSignatures rest
  | .simple _ :: rest => allSignatures rest

/-- The hashes of the blocks. -/
def simpleBlocks : List Element → List Blob
  | [] => []
  | .sign _ :: rest => simpleBlocks rest
  | .simple hash :: rest => hash :: simpleBlocks rest

/-- The answers before each block one behind the other, and the answer behind the last block. -/
def allBetween (t : BlocksTimeline) (blocks : List Blob) (last : Blob) :
    Except Err (List MinimumSignBlockHeader) := do
  let before ← blocks.mapM (fun hash => t.getSignaturesBetween none (some hash))
  let behind ← t.getSignaturesBetween (some last) none
  pure (before.flatten ++ behind)

/-! ## The timelines that calls build -/

/-- **What calls build**: a list of elements with different hashes. -/
theorem runCalls_eq_built (calls : List Call) :
    runCalls calls = built (runCalls calls).timeline ∧
      ((runCalls calls).timeline.map Element.hash).Nodup := by
  induction calls using List.reverseRecOn with
  | nil => exact ⟨rfl, List.nodup_nil⟩
  | append_singleton calls call ih =>
      obtain ⟨hbuilt, hnodup⟩ := ih
      have hstep : ∃ e, runCalls (calls ++ [call]) = ((runCalls calls).add e).2 := by
        rw [runCalls, List.foldl_append]
        cases call with
        | addSimpleBlock bh => exact ⟨_, rfl⟩
        | addSignBlock bh => exact ⟨_, rfl⟩
      obtain ⟨e, he⟩ := hstep
      rw [hbuilt] at he
      rcases built_add e hnodup with hsame | ⟨hpush, hnodup'⟩
      · rw [he, hsame, ← hbuilt]
        exact ⟨hbuilt, hnodup⟩
      · rw [he, hpush, timeline_built]
        exact ⟨rfl, hnodup'⟩

/-! ## Runs of sign elements -/

@[simp] theorem sinceLast_concat_sign (past : List Element) (block : MinimumSignBlockHeader) :
    sinceLast (past ++ [.sign block]) = sinceLast past ++ [block] := by
  rw [sinceLast, List.foldl_append]
  rfl

@[simp] theorem sinceLast_concat_simple (past : List Element) (hash : Blob) :
    sinceLast (past ++ [.simple hash]) = [] := by
  rw [sinceLast, List.foldl_append]
  rfl

theorem sinceLast_append_run (past : List Element) (run : List MinimumSignBlockHeader) :
    sinceLast (past ++ run.map .sign) = sinceLast past ++ run := by
  induction run using List.reverseRecOn with
  | nil => simp
  | append_singleton run block ih =>
      rw [List.map_append, ← List.append_assoc, List.map_singleton, sinceLast_concat_sign, ih,
        List.append_assoc]

/-- **Back to the block before**: elements end in a run of sign elements, and that run starts
at a block or at the beginning. -/
theorem sinceLast_cases (past : List Element) :
    past = (sinceLast past).map .sign ∨
      ∃ l hash, past = l ++ [.simple hash] ++ (sinceLast past).map .sign := by
  induction past using List.reverseRecOn with
  | nil => exact Or.inl rfl
  | append_singleton past e ih =>
      cases e with
      | simple hash => exact Or.inr ⟨past, hash, by simp⟩
      | sign block =>
          rw [sinceLast_concat_sign]
          rcases ih with hrun | ⟨l, hash, hrun⟩
          · left
            rw [List.map_append, ← hrun]
            rfl
          · right
            refine ⟨l, hash, ?_⟩
            rw [List.map_append, ← List.append_assoc, ← hrun]
            rfl

/-- **Up to the next block**. -/
theorem untilNext_split (rest : List Element) :
    ∃ l, rest = (untilNext rest).map .sign ++ l ∧ l.head?.all Element.isSimple := by
  induction rest with
  | nil => exact ⟨[], rfl, rfl⟩
  | cons e rest ih =>
      cases e with
      | simple hash => exact ⟨.simple hash :: rest, rfl, rfl⟩
      | sign block =>
          obtain ⟨l, hl, hend⟩ := ih
          refine ⟨l, ?_, hend⟩
          rw [untilNext, List.map_cons, List.cons_append, ← hl]

theorem untilNext_run (run : List MinimumSignBlockHeader) (l : List Element)
    (hl : l.head?.all Element.isSimple) : untilNext (run.map .sign ++ l) = run := by
  induction run with
  | nil =>
      cases l with
      | nil => rfl
      | cons e l =>
          cases e with
          | simple hash => rfl
          | sign block => cases hl
  | cons block run ih => rw [List.map_cons, List.cons_append, untilNext, ih]

theorem simpleBlocks_append (l l' : List Element) :
    simpleBlocks (l ++ l') = simpleBlocks l ++ simpleBlocks l' := by
  induction l with
  | nil => rfl
  | cons e l ih =>
      cases e with
      | sign block => exact ih
      | simple hash => exact congrArg (hash :: ·) ih

theorem simpleBlocks_run (run : List MinimumSignBlockHeader) :
    simpleBlocks (run.map .sign) = [] := by
  induction run with
  | nil => rfl
  | cons block run ih => exact ih

theorem any_run (run : List MinimumSignBlockHeader) :
    (run.map Element.sign).any Element.isSimple = false := by
  rw [List.any_map]
  exact List.any_eq_false.mpr (fun _ _ hblock => by cases hblock)

/-! ## The two questions about one block -/

section

variable {els past rest : List Element} {hash : Blob}

/-- Behind a block the answer is what stands up to the next one. -/
theorem between_behind (h : (els.map Element.hash).Nodup) (hels : els = past ++ .simple hash :: rest) :
    (built els).getSignaturesBetween (some hash) none = .ok (untilNext rest) := by
  obtain ⟨l, hl, hend⟩ := untilNext_split rest
  refine getSignaturesBetween_behind (e := .simple hash) ?_ hend (find?_hashes_of_eq hels h)
  rw [timeline_built, ← hl]
  exact hels

/-- Before a block that is not the first the answer is what stands since the one before. -/
theorem between_before (h : (els.map Element.hash).Nodup) (hels : els = past ++ .simple hash :: rest)
    (hpast : past.any Element.isSimple) :
    (built els).getSignaturesBetween none (some hash) = .ok (sinceLast past) := by
  have hfind := find?_hashes_of_eq hels h
  rcases sinceLast_cases past with hrun | ⟨l, previousHash, hrun⟩
  · rw [hrun, any_run] at hpast
    cases hpast
  · refine getSignaturesBetween_before (show (built els).timeline =
      l ++ [.simple previousHash] ++ (sinceLast past).map .sign ++ .simple hash :: rest from ?_) ?_
    · rw [timeline_built, ← hrun]
      exact hels
    · have hlen := congrArg List.length hrun
      rw [List.length_append, List.length_append, List.length_singleton, List.length_map] at hlen
      exact hfind.trans (congrArg some hlen)

/-- Before the first block it comes without the first sign element of the timeline. -/
theorem between_before_first (h : (els.map Element.hash).Nodup)
    (hels : els = past ++ .simple hash :: rest) (hpast : past.any Element.isSimple = false) :
    past = (sinceLast past).map .sign ∧
      (built els).getSignaturesBetween none (some hash) = .ok (sinceLast past).tail := by
  have hfind := find?_hashes_of_eq hels h
  rcases sinceLast_cases past with hrun | ⟨l, previousHash, hrun⟩
  · refine ⟨hrun, getSignaturesBetween_first (show (built els).timeline =
      (sinceLast past).map .sign ++ .simple hash :: rest from ?_) ?_⟩
    · rw [timeline_built, ← hrun]
      exact hels
    · have hlen := congrArg List.length hrun
      rw [List.length_map] at hlen
      exact hfind.trans (congrArg some hlen)
  · exfalso
    rw [hrun] at hpast
    simp [Element.isSimple] at hpast

/-- **Before a block the answer is complete**, exactly if the block is not the first or
nothing stands before it. -/
theorem between_before_iff (h : (els.map Element.hash).Nodup)
    (hels : els = past ++ .simple hash :: rest) :
    (built els).getSignaturesBetween none (some hash) = .ok (sinceLast past) ↔
      past = [] ∨ past.any Element.isSimple := by
  by_cases hpast : past.any Element.isSimple
  · exact iff_of_true (between_before h hels hpast) (Or.inr hpast)
  · have hnone : past.any Element.isSimple = false := Bool.eq_false_iff.mpr hpast
    obtain ⟨hrun, hbefore⟩ := between_before_first h hels hnone
    rw [hbefore]
    constructor
    · intro heq
      left
      cases hsince : sinceLast past with
      | nil => rw [hrun, hsince, List.map_nil]
      | cons block run =>
          exfalso
          rw [hsince] at heq
          exact List.cons_ne_self _ _ (Except.ok.inj heq).symm
    · intro hor
      rcases hor with rfl | hany
      · rfl
      · exact absurd hany hpast

end

/-! ## All answers together -/

/-- The two answers about one block. -/
def Answered (t : BlocksTimeline) (past : List Element) (hash : Blob) (rest : List Element) : Prop :=
  t.getSignaturesBetween none (some hash) = .ok (sinceLast past) ∧
    t.getSignaturesBetween (some hash) none = .ok (untilNext rest)

/-- What `getSignaturesBetween` is to do on a timeline. -/
structure Specified (t : BlocksTimeline) : Prop where
  answered : ∀ past hash rest, t.timeline = past ++ .simple hash :: rest →
    Answered t past hash rest
  /-- Two consecutive blocks see the same signatures between them. -/
  views : ∀ (past : List Element) (a : Blob) (run : List MinimumSignBlockHeader) (b : Blob) rest,
    t.timeline = past ++ .simple a :: (run.map .sign ++ .simple b :: rest) →
      t.getSignaturesBetween (some a) none = t.getSignaturesBetween none (some b)
  /-- Nothing is lost between the answers, and nothing comes twice. -/
  all : ∀ last, (simpleBlocks t.timeline).getLast? = some last →
    allBetween t (simpleBlocks t.timeline) last = .ok (allSignatures t.timeline)

variable {els : List Element}

theorem views_built (h : (els.map Element.hash).Nodup) {past rest : List Element} {a b : Blob}
    {run : List MinimumSignBlockHeader}
    (hels : els = past ++ .simple a :: (run.map .sign ++ .simple b :: rest)) :
    (built els).getSignaturesBetween (some a) none =
      (built els).getSignaturesBetween none (some b) := by
  have hels' : els = (past ++ [.simple a] ++ run.map .sign) ++ .simple b :: rest := by simp [hels]
  rw [between_behind h hels, between_before h hels' (by simp [Element.isSimple]),
    untilNext_run _ _ rfl, sinceLast_append_run, sinceLast_concat_simple, List.nil_append]

/-- The answers from some place on whose past is known to have a block. -/
theorem mapM_before (h : (els.map Element.hash).Nodup) (rest : List Element) :
    ∀ past, els = past ++ rest → past.any Element.isSimple →
      ∃ runs, (simpleBlocks rest).mapM
          (fun hash => (built els).getSignaturesBetween none (some hash)) = .ok runs ∧
        runs.flatten ++ sinceLast els = sinceLast past ++ allSignatures rest := by
  induction rest with
  | nil =>
      intro past hels _
      rw [List.append_nil] at hels
      exact ⟨[], rfl, by rw [hels, allSignatures, List.append_nil]; rfl⟩
  | cons e rest ih =>
      intro past hels hpast
      have hels' : els = (past ++ [e]) ++ rest := by simp [hels]
      obtain ⟨runs, hruns, hflat⟩ := ih (past ++ [e]) hels' (by simp [hpast])
      cases e with
      | sign block =>
          refine ⟨runs, hruns, ?_⟩
          rw [hflat, sinceLast_concat_sign, allSignatures, List.append_assoc, List.singleton_append]
      | simple hash =>
          refine ⟨sinceLast past :: runs, ?_, ?_⟩
          · rw [simpleBlocks, List.mapM_cons, between_before h hels hpast, hruns]
            rfl
          · rw [List.flatten_cons, List.append_assoc, hflat, sinceLast_concat_simple,
              List.nil_append, allSignatures]

/-- The answer behind the last block. -/
theorem between_last (h : (els.map Element.hash).Nodup) {last : Blob}
    (hlast : (simpleBlocks els).getLast? = some last) :
    (built els).getSignaturesBetween (some last) none = .ok (sinceLast els) := by
  rcases sinceLast_cases els with hrun | ⟨l, hash, hrun⟩
  · rw [hrun, simpleBlocks_run] at hlast
    cases hlast
  · have hhash : last = hash := by
      rw [hrun, simpleBlocks_append, simpleBlocks_append, simpleBlocks_run, List.append_nil] at hlast
      exact (Option.some.inj (List.getLast?_concat.symm.trans hlast)).symm
    subst hhash
    have hels : els = l ++ .simple last :: (sinceLast els).map .sign := by
      conv_lhs => rw [hrun]
      simp
    have hnext := untilNext_run (sinceLast els) [] rfl
    rw [List.append_nil] at hnext
    rw [between_behind h hels, hnext]

/-- **All answers together** are all sign elements but those that the answer before the first
block leaves out. -/
theorem allBetween_built (h : (els.map Element.hash).Nodup) {run : List MinimumSignBlockHeader}
    {first last : Blob} {rest : List Element}
    (hels : els = run.map .sign ++ .simple first :: rest)
    (hlast : (simpleBlocks els).getLast? = some last) :
    allBetween (built els) (simpleBlocks els) last = .ok (run.tail ++ allSignatures rest) := by
  have hels' : els = (run.map .sign ++ [.simple first]) ++ rest := by simp [hels]
  obtain ⟨runs, hruns, hflat⟩ := mapM_before h rest _ hels' (by simp [Element.isSimple])
  obtain ⟨-, hfirst⟩ := between_before_first h hels (any_run run)
  have hsince : sinceLast (run.map .sign) = run := by
    have happend := sinceLast_append_run [] run
    exact happend
  rw [hsince] at hfirst
  rw [sinceLast_concat_simple, List.nil_append] at hflat
  have hblocks : simpleBlocks els = first :: simpleBlocks rest := by
    conv_lhs => rw [hels, simpleBlocks_append, simpleBlocks_run]
    rfl
  have hmap : (simpleBlocks els).mapM
      (fun hash => (built els).getSignaturesBetween none (some hash)) = .ok (run.tail :: runs) := by
    rw [hblocks, List.mapM_cons, hfirst, hruns]
    rfl
  unfold allBetween
  rw [hmap, between_last h hlast]
  change Except.ok ((run.tail :: runs).flatten ++ sinceLast els) = _
  rw [List.flatten_cons, List.append_assoc, hflat]

/-- A list of elements has no block, or a run of sign elements before the first one. -/
theorem first_cases (els : List Element) :
    simpleBlocks els = [] ∨ ∃ (run : List MinimumSignBlockHeader) (first : Blob) (rest : _),
      els = run.map .sign ++ .simple first :: rest := by
  induction els with
  | nil => exact Or.inl rfl
  | cons e els ih =>
      cases e with
      | simple hash => exact Or.inr ⟨[], hash, els, rfl⟩
      | sign block =>
          rcases ih with hnone | ⟨run, first, rest, hels⟩
          · exact Or.inl hnone
          · exact Or.inr ⟨block :: run, first, rest, by rw [hels]; rfl⟩

theorem simpleBlocks_ne_nil (past rest : List Element) (hash : Blob) :
    simpleBlocks (past ++ .simple hash :: rest) ≠ [] := by
  rw [simpleBlocks_append]
  exact List.append_ne_nil_of_right_ne_nil _ (List.cons_ne_nil _ _)

/-- **The timelines on which all holds** are those without a block and those that start with one. -/
theorem specified_built_iff (h : (els.map Element.hash).Nodup) :
    Specified (built els) ↔ simpleBlocks els = [] ∨ els.head?.any Element.isSimple := by
  constructor
  -- A sign block in front of the first simple block has no view of its own.
  · intro hspec
    rcases first_cases els with hnone | ⟨run, first, rest, hels⟩
    · exact Or.inl hnone
    · right
      have hbefore := (hspec.answered _ _ _ ((timeline_built els).trans hels)).1
      rcases (between_before_iff h hels).mp hbefore with hrun | hany
      · rw [hels, hrun]
        rfl
      · rw [any_run] at hany
        cases hany
  -- With a simple block in front, or none at all, every view can be told.
  · intro hor
    have hfirst : ∀ past hash rest, els = past ++ .simple hash :: rest →
        past = [] ∨ past.any Element.isSimple := by
      intro past hash rest hels
      rcases hor with hnone | hhead
      · rw [hels] at hnone
        exact absurd hnone (simpleBlocks_ne_nil past rest hash)
      · cases past with
        | nil => exact Or.inl rfl
        | cons e past =>
            rw [hels, List.cons_append, List.head?_cons, Option.any_some] at hhead
            exact Or.inr (by simp [hhead])
    refine ⟨?_, ?_, ?_⟩
    · intro past hash rest hels
      rw [timeline_built] at hels
      exact ⟨(between_before_iff h hels).mpr (hfirst past hash rest hels), between_behind h hels⟩
    · intro past a run b rest hels
      rw [timeline_built] at hels
      exact views_built h hels
    · intro last hlast
      rw [timeline_built] at hlast ⊢
      rcases first_cases els with hnone | ⟨run, first, rest, hels⟩
      · rw [hnone] at hlast
        cases hlast
      · have hrun : run = [] := by
          rcases hfirst _ _ _ hels with hrun | hany
          · exact List.map_eq_nil_iff.mp hrun
          · rw [any_run] at hany
            cases hany
        rw [allBetween_built h hels hlast, hels, hrun]
        rfl

/-! ## Timelines that calls build -/

/-- **The signatures between blocks**: for each timeline that calls build and each block on it,
both answers are right exactly if the block is not the first or nothing stands before it; and
all answers on the timeline fit together exactly if it has no block or starts with one. -/
theorem getSignaturesBetween_iff (calls : List Call) :
    (∀ past hash rest, (runCalls calls).timeline = past ++ .simple hash :: rest →
      (Answered (runCalls calls) past hash rest ↔ past = [] ∨ past.any Element.isSimple)) ∧
    (Specified (runCalls calls) ↔ simpleBlocks (runCalls calls).timeline = [] ∨
      (runCalls calls).timeline.head?.any Element.isSimple) := by
  obtain ⟨hbuilt, hnodup⟩ := runCalls_eq_built calls
  constructor
  · intro past hash rest hels
    have hbefore := between_before_iff hnodup hels
    have hbehind := between_behind hnodup hels
    rw [← hbuilt] at hbefore hbehind
    rw [Answered, hbefore]
    exact and_iff_left hbehind
  · have hspec := specified_built_iff hnodup
    rwa [← hbuilt] at hspec

/-! ## A sign block before the first block -/

/-- The header of a block with this hash. -/
def headerOf (hash : UInt8) : BlockHeader :=
  { (default : BlockHeader) with hash := Blob.replicate 32 hash Blob.hash_fits }

/-- The header of a sign block with this hash. -/
def signHeaderOf (hash prevHash : UInt8) : SignBlockHeader :=
  { timestamp := 0, blockSize := 1, hash := Blob.replicate 32 hash Blob.hash_fits
    prevHash := Blob.replicate 32 prevHash Blob.hash_fits, filePos := default
    senderSign := ∅, senderPubkey := ∅, senderAddress := ∅ }

/-- One sign element first and then a block: the answer before the block is empty. -/
theorem early_signature_lost :
    ¬Specified (runCalls [.addSignBlock (signHeaderOf 9 1), .addSimpleBlock (headerOf 1)]) := by
  intro hspec
  have hbefore := (hspec.answered [.sign ⟨(signHeaderOf 9 1).hash, default, (signHeaderOf 9 1).prevHash⟩]
    (headerOf 1).hash [] (by decide)).1
  have hempty : (runCalls [.addSignBlock (signHeaderOf 9 1),
      .addSimpleBlock (headerOf 1)]).getSignaturesBetween none (some (headerOf 1).hash) = .ok [] := by
    decide +kernel
  rw [hempty] at hbefore
  cases hbefore

/-- A block first and then a sign element: all is as specified. -/
theorem getSignaturesBetween_iff_one :
    Specified (runCalls [.addSimpleBlock (headerOf 1), .addSignBlock (signHeaderOf 9 1)]) ∧
      Answered (runCalls [.addSimpleBlock (headerOf 1), .addSignBlock (signHeaderOf 9 1)]) []
        (headerOf 1).hash [.sign ⟨(signHeaderOf 9 1).hash, default, (signHeaderOf 9 1).prevHash⟩] := by
  have hboth := getSignaturesBetween_iff
    [.addSimpleBlock (headerOf 1), .addSignBlock (signHeaderOf 9 1)]
  exact ⟨hboth.2.mpr (Or.inr (by decide)), (hboth.1 [] _ _ (by decide)).mpr (Or.inl rfl)⟩

end BlocksTimeline

end TorrentNode
