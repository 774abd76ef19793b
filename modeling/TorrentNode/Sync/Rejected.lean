import Mathlib.Logic.Function.Iterate
import TorrentNode.Chain.Rejection
import TorrentNode.Chain.Representation
import TorrentNode.Sync.Process

/-!
# Rounds whose block is rejected

A round appends its block to a file before it asks the chain, and nothing takes
the bytes out of the file again. So a rejected block leaves no trace exactly when
it is not kept in a file and the chain has nothing to remember of it.
-/

namespace TorrentNode

namespace SyncImpl

variable {γ : Type}

/-- `addBlock`, when the round comes to it, returns no number or throws. -/
def Rejected (s : SyncImpl) (src : Source) (bi : BlockInfo) (dump : Blob) : Prop :=
  ∃ bi' s', s.saveTransactions bi dump (s.isSaveBlockToFiles && !src.isNoDefaultSource) =
    .ok (bi', s') ∧ ∀ n, (s'.blockchain.addBlock bi'.header).1 ≠ .ok (some n)

/-- The block is not kept in a file, and the chain forgets it. -/
structure Traceless (s : SyncImpl) (src : Source) (bi : BlockInfo) : Prop where
  notSaved : (s.isSaveBlockToFiles && !src.isNoDefaultSource) = false
  silent : s.blockchain.Silent bi.header

/-- A rejected block changes at most the files and the chain. -/
theorem processBlock_rejected (find : BlockChain → Except Err (Option γ)) {s s' : SyncImpl}
    {src : Source} {bi bi' : BlockInfo} {dump : Blob}
    (hsave : s.saveTransactions bi dump (s.isSaveBlockToFiles && !src.isNoDefaultSource) =
      .ok (bi', s'))
    (hrej : ∀ n, (s'.blockchain.addBlock bi'.header).1 ≠ .ok (some n)) :
    (processBlock find s src bi dump).2 =
      { s' with blockchain := (s'.blockchain.addBlock bi'.header).2 } := by
  unfold processBlock
  rw [hsave]
  generalize hadd : s'.blockchain.addBlock bi'.header = res at hrej ⊢
  obtain ⟨r, c⟩ := res
  cases r with
  | error e => simp only [hadd]
  | ok num =>
      cases num with
      | some n => exact absurd rfl (hrej n)
      | none =>
          simp only [hadd]
          cases find c with
          | error e => rfl
          | ok found => cases found <;> rfl

theorem saveTransactions_false {s : SyncImpl} {bi : BlockInfo} {dump : Blob} :
    s.saveTransactions bi dump false = .ok (bi, s) := rfl

/-- A block that is kept in a file makes the file longer. -/
theorem saveTransactions_grows {s s' : SyncImpl} {bi bi' : BlockInfo} {dump : Blob}
    (h : s.saveTransactions bi dump true = .ok (bi', s')) : s'.files ≠ s.files := by
  unfold saveTransactions at h
  simp only [Bool.not_true, Bool.false_eq_true, if_false] at h
  split at h
  · exact absurd h (by simp)
  · obtain ⟨_, hs⟩ := Prod.mk.inj (Except.ok.inj h)
    intro heq
    rw [← hs] at heq
    have hat := congrArg (fun m => (OrdMap.find? m bi.header.filePos.fileNameRelative).getD []) heq
    simp only [saveBlockToFileBinary, OrdMap.find?_insert_self, Option.getD_some] at hat
    have hlen := congrArg List.length hat
    simp only [List.length_append, List.length_reverse, length_serializeInt] at hlen
    omega

/-- **One round with a rejected block** leaves no trace exactly under the condition. -/
theorem processBlock_trace (find : BlockChain → Except Err (Option γ)) {s : SyncImpl}
    {src : Source} {bi : BlockInfo} {dump : Blob} (hrej : Rejected s src bi dump) :
    (processBlock find s src bi dump).2 = s ↔ Traceless s src bi := by
  obtain ⟨bi', s', hsave, hno⟩ := hrej
  rw [processBlock_rejected find hsave hno]
  cases hfile : (s.isSaveBlockToFiles && !src.isNoDefaultSource) with
  | true =>
      rw [hfile] at hsave
      refine iff_of_false ?_ ?_
      · intro heq
        have hfiles := congrArg SyncImpl.files heq
        exact saveTransactions_grows hsave hfiles
      · intro ht
        exact absurd (hfile.symm.trans ht.notSaved) (by simp)
  | false =>
      rw [hfile, saveTransactions_false] at hsave
      obtain ⟨rfl, rfl⟩ := Prod.mk.inj (Except.ok.inj hsave)
      have hchain := BlockChain.addBlock_rejected hno
      constructor
      · intro heq
        exact ⟨hfile, hchain.mp (congrArg SyncImpl.blockchain heq)⟩
      · intro ht
        rw [hchain.mpr ht.silent]

/--
**A rejected block leaves no trace**, however often the round is repeated,
exactly when it is not kept in a block file, is refused before the walk or has a
parent with a height, and does not raise the last state block.
-/
theorem rejected_leaves_no_trace (find : BlockChain → Except Err (Option γ)) {s : SyncImpl}
    {src : Source} {bi : BlockInfo} {dump : Blob} (hrej : Rejected s src bi dump) :
    (∀ k, (fun t => (processBlock find t src bi dump).2)^[k] s = s) ↔ Traceless s src bi := by
  rw [← processBlock_trace find hrej]
  constructor
  · intro h; exact h 1
  · intro h k
    exact Function.iterate_fixed h k

/-- A node that has just started, with nothing stored yet. -/
def fresh (isSaveBlockToFiles : Bool) : SyncImpl :=
  { modules := ⟨true, true, true, true, true, false, false⟩
    isSaveBlockToFiles, blockchain := BlockChain.new, timeline := BlocksTimeline.new
    leveldb := ∅, files := ∅, delivered := [] }

/-- The network as a source. -/
def network : Source := { isFile := false, isNoDefaultSource := false }

/-- An empty block with these hashes. -/
def emptyBlock (hash prevHash : UInt8) : BlockInfo :=
  { header := BlockChain.simpleHeader hash prevHash, txs := [] }

/-- A round with such a block, from the network, that finds no conflict. -/
def round (s : SyncImpl) (hash prevHash : UInt8) : SyncImpl :=
  (processBlock (γ := Unit) (fun _ => .ok none) s network (emptyBlock hash prevHash)
    ⟨[1, 2, 3], by decide⟩).2

/-- A fork at height 1, offered again and again to a node that keeps no block files. -/
theorem rejected_fork_no_trace :
    (fun t => round t 2 0)^[7] (round (fresh false) 1 0) = round (fresh false) 1 0 := by
  have hfile : ((round (fresh false) 1 0).isSaveBlockToFiles && !network.isNoDefaultSource) =
      false := by decide +kernel
  have hrej : Rejected (round (fresh false) 1 0) network (emptyBlock 2 0)
      ⟨[1, 2, 3], by decide⟩ := by
    refine ⟨emptyBlock 2 0, round (fresh false) 1 0, by rw [hfile]; exact saveTransactions_false, ?_⟩
    intro n
    have hnone : ((round (fresh false) 1 0).blockchain.addBlock (emptyBlock 2 0).header).1 =
        .ok none := by decide +kernel
    rw [hnone]
    simp
  have hsilent : (round (fresh false) 1 0).blockchain.Silent (emptyBlock 2 0).header :=
    Or.inr (Or.inr (Or.inr ⟨0, by decide +kernel, by decide +kernel⟩))
  exact (rejected_leaves_no_trace (γ := Unit) (fun _ => .ok none) hrej).mpr ⟨hfile, hsilent⟩ 7

/-- A node that keeps block files appends the same fork to them in every round. -/
theorem rejected_fork_in_file :
    Rejected (round (fresh true) 1 0) network (emptyBlock 2 0) ⟨[1, 2, 3], by decide⟩ ∧
      ((round (fresh true) 1 0).files.entries.map (fun e => e.2.length) = [11]) ∧
      ((round (round (fresh true) 1 0) 2 0).files.entries.map (fun e => e.2.length) = [22]) ∧
      (round (round (round (fresh true) 1 0) 2 0) 2 0).files.entries.map (fun e => e.2.length) =
        [33] := by
  refine ⟨?_, by decide +kernel, by decide +kernel, by decide +kernel⟩
  have hfile : ((round (fresh true) 1 0).isSaveBlockToFiles && !network.isNoDefaultSource) =
      true := by decide +kernel
  have hsome : ((round (fresh true) 1 0).saveTransactions (emptyBlock 2 0) ⟨[1, 2, 3], by decide⟩
      true).toOption.any (fun q => (q.2.blockchain.addBlock q.1.header).1 = .ok none) = true := by
    decide +kernel
  obtain ⟨q, hq, hnone⟩ := (Option.any_eq_true _ _).mp hsome
  refine ⟨q.1, q.2, ?_, ?_⟩
  · cases hs : (round (fresh true) 1 0).saveTransactions (emptyBlock 2 0) ⟨[1, 2, 3], by decide⟩
        true with
    | error e => rw [hs] at hq; exact absurd hq (by simp [Except.toOption])
    | ok q' =>
        rw [hs] at hq
        obtain rfl := Option.some.inj hq
        rw [hfile]
        exact hs
  · intro n
    rw [of_decide_eq_true hnone]
    simp

end SyncImpl

end TorrentNode
