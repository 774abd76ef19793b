import TorrentNode.Lib.Merge
import TorrentNode.Workers.NodeTestCrash

/-!
# Registered nodes

A node registers under its host, and may register again. In a block the later
registration replaces the earlier one; the nodes of a block are then merged into those of
the database, where a host that is known already stays as it is. So what is stored of a
host is its last registration in the first block that had one.
-/

namespace TorrentNode

open OrdMap

/-- A host with the name and type of its node. -/
abbrev Registration : Type := Blob × AllNodesNode

/-- The last registration of a host. -/
def latest (host : Blob) (l : List Registration) : Option AllNodesNode :=
  (l.filter (fun e => e.1 = host)).getLast?.map Prod.snd

theorem latest_append (host : Blob) (l l' : List Registration) :
    latest host (l ++ l') = (latest host l').or (latest host l) := by
  unfold latest
  rw [List.filter_append, List.getLast?_append]
  cases (l'.filter (fun e => e.1 = host)).getLast? <;> rfl

theorem latest_singleton (host : Blob) (e : Registration) :
    latest host [e] = if host = e.1 then some e.2 else none := by
  unfold latest
  by_cases h : host = e.1
  · simp [h]
  · simp [h, Ne.symm h]

/-- Writing registrations over each other leaves the last ones. -/
theorem find?_foldl_registrations {host : Blob} :
    ∀ {l : List Registration} {m : OrdMap Blob AllNodesNode},
      (l.foldl (fun m e => m.insert e.1 e.2) m).find? host = (latest host l).or (m.find? host)
  | [], _ => rfl
  | e :: l, m => by
      rw [List.foldl_cons, find?_foldl_registrations, find?_insert, ← List.singleton_append,
        latest_append, latest_singleton]
      cases latest host l with
      | some node => rfl
      | none =>
          by_cases h : host = e.1
          · rw [if_pos h, if_pos h]
            rfl
          · rw [if_neg h, if_neg h]
            rfl

/-- A host that is known stays as it is. -/
theorem AllNodes.find?_plus (n second : AllNodes) (host : Blob) :
    (n.plus second).nodes.find? host = (n.nodes.find? host).or (second.nodes.find? host) :=
  find?_foldl_emplace second.nodes.increasing.nodup_keys

namespace WorkerNodeTest

variable {w : WorkerNodeTest} {bi : BlockInfo} {day : UInt64} {db : LevelDb}

/-- The registration in a transaction of a block; state blocks and node tests have none. -/
def registration (w : WorkerNodeTest) (bi : BlockInfo) (tx : TransactionInfo) : Option Registration :=
  if tx.isIntStatusNodeTest || bi.header.isStateBlock then none
  else if tx.data.val.head? = some 123 ∧ tx.data.val.getLast? = some 125 then
    match (w.parseJson tx.data.val).bind registeredNode with
    | none => none
    | some (host, name, type) =>
      match Blob.ofBytes host, Blob.ofBytes name, Blob.ofBytes type with
      | .ok host, .ok name, .ok type => some (host, { name, type })
      | _, _, _ => none
  else none

/-- The nodes that a block registers. -/
def registrations (w : WorkerNodeTest) (bi : BlockInfo) : List Registration :=
  bi.txs.filterMap (w.registration bi)

/-- All of the registrations that blocks bring, one behind the other. -/
def allRegistrations (w : WorkerNodeTest) (blocks : List BlockInfo) : List Registration :=
  blocks.flatMap w.registrations

/-! ## A block -/

theorem processRegisterTransaction_ok {tx : TransactionInfo} {n n' : AllNodes}
    (htest : tx.isIntStatusNodeTest = false) (hstate : bi.header.isStateBlock = false)
    (h : w.processRegisterTransaction tx n = .ok n') :
    n'.nodes = (w.registration bi tx).toList.foldl (fun m e => m.insert e.1 e.2) n.nodes := by
  unfold processRegisterTransaction at h
  unfold registration
  rw [htest, hstate, Bool.or_self, if_neg Bool.false_ne_true]
  by_cases hbraces : tx.data.val.head? = some 123 ∧ tx.data.val.getLast? = some 125
  · rw [if_pos hbraces] at h ⊢
    cases hparse : (w.parseJson tx.data.val).bind registeredNode with
    | none =>
        rw [hparse] at h
        obtain rfl := Except.ok.inj h
        rfl
    | some r =>
        rw [hparse] at h
        obtain ⟨host, hhost, h⟩ := bind_eq_ok.mp h
        obtain ⟨name, hname, h⟩ := bind_eq_ok.mp h
        obtain ⟨type, htype, h⟩ := bind_eq_ok.mp h
        obtain rfl := Except.ok.inj h
        simp only [hhost, hname, htype]
        rfl
  · rw [if_neg hbraces] at h ⊢
    obtain rfl := Except.ok.inj h
    rfl

/-- A test of a node registers none. -/
theorem processTestTransaction_allNodes {tx : TransactionInfo} {s s' : NodeTestState}
    (h : w.processTestTransaction tx day bi s = .ok s') : s'.allNodes = s.allNodes := by
  unfold processTestTransaction at h
  cases htry : w.tryTestTransaction tx day bi s with
  | error e =>
      rw [htry] at h
      cases e <;> cases h <;> rfl
  | ok next =>
      rw [htry] at h
      obtain rfl := Except.ok.inj h
      obtain ⟨r, -, htry⟩ := bind_eq_ok.mp htry
      cases r with
      | none =>
          obtain rfl := Except.ok.inj htry
          rfl
      | some r =>
          obtain ⟨found, -, htry⟩ := bind_eq_ok.mp htry
          obtain rfl := Except.ok.inj htry
          rfl

/-- **One transaction.** -/
theorem processTransaction_allNodes {tx : TransactionInfo} {s s' : NodeTestState}
    (h : w.processTransaction bi day s tx = .ok s') :
    s'.allNodes.nodes =
      (w.registration bi tx).toList.foldl (fun m e => m.insert e.1 e.2) s.allNodes.nodes := by
  unfold processTransaction at h
  by_cases htest : tx.isIntStatusNodeTest = true
  · rw [if_pos htest] at h
    rw [processTestTransaction_allNodes h, registration, htest, Bool.true_or, if_pos rfl]
    rfl
  · rw [if_neg htest] at h
    by_cases hstate : bi.header.isStateBlock = true
    · rw [if_pos hstate] at h
      obtain ⟨batchStates, -, h⟩ := bind_eq_ok.mp h
      obtain rfl := Except.ok.inj h
      rw [registration, hstate, Bool.or_true, if_pos rfl]
      rfl
    · rw [if_neg hstate] at h
      obtain ⟨allNodes, hregister, h⟩ := bind_eq_ok.mp h
      obtain rfl := Except.ok.inj h
      exact processRegisterTransaction_ok (eq_false_of_ne_true htest) (eq_false_of_ne_true hstate)
        hregister

theorem transactions_allNodes : ∀ {txs : List TransactionInfo} {s s' : NodeTestState},
    txs.foldlM (w.processTransaction bi day) s = .ok s' →
      s'.allNodes.nodes =
        (txs.filterMap (w.registration bi)).foldl (fun m e => m.insert e.1 e.2) s.allNodes.nodes
  | [], s, s', h => by
      obtain rfl := Except.ok.inj h
      rfl
  | tx :: txs, s, s', h => by
      rw [List.foldlM_cons] at h
      obtain ⟨next, hstep, h⟩ := bind_eq_ok.mp h
      rw [transactions_allNodes h, processTransaction_allNodes hstep, List.filterMap_cons]
      cases w.registration bi tx <;> rfl

/-- **The nodes of a block** are merged into those of the database. -/
theorem Puts.holds_allNodes {s : NodeTestState} {b₁ b₂ b₃ b₄ b₅ b₆ : Batch}
    {before today : List (Nat × Tested)} (hp : w.Puts bi day s b₁ b₂ b₃ b₄ b₅ b₆)
    (hc : Collected before today s) {n : AllNodes} (hdb : w.leveldbNodeTest.findAllNodes = .ok n) :
    (addBatch b₆ w.leveldbNodeTest).findAllNodes = .ok (n.plus s.allNodes) := by
  obtain ⟨p, hpre⟩ : ∃ p, ascii NODES_STATS_ALL.toList = p := ⟨_, rfl⟩
  have hlater : (addBatch b₆ w.leveldbNodeTest).find? p = (addBatch b₅ w.leveldbNodeTest).find? p := by
    rw [← hpre]
    exact (hp.spares_record (by decide)).find?_addBatch _ (List.prefix_refl _)
  have hearlier : (addBatch b₄ w.leveldbNodeTest).find? p = w.leveldbNodeTest.find? p := by
    have hspares : Batch.new.Spares p b₄ := by
      rw [← hpre]
      exact (hc.batchStates _ (by decide)).trans <| (spares_putDay (by decide) hp.number).trans <|
        (spares_putRps (by decide) hp.rps).trans <|
        (spares_putLastResults (by decide) hp.lastResults).trans
          (spares_putTestedNodes (by decide) hp.nodes)
    exact hspares.find?_addBatch _ (List.prefix_refl _)
  have hall := hp.allNodes
  unfold putAllNodes at hall
  -- A block without registrations leaves the record as it is.
  by_cases hempty : s.allNodes.nodes.entries.isEmpty = true
  · rw [if_pos hempty] at hall
    obtain rfl := Except.ok.inj hall
    have hsame : n.plus s.allNodes = n := by
      unfold AllNodes.plus
      rw [List.isEmpty_iff.mp hempty]
      rfl
    rw [hsame, ← hdb]
    unfold LevelDb.findAllNodes LevelDb.findOneValueWithoutCheckValue LevelDb.findOneValueInternal
    rw [hpre, hlater, hearlier]
  · rw [if_neg hempty] at hall
    obtain ⟨old, hold, hall⟩ := bind_eq_ok.mp hall
    obtain rfl := Except.ok.inj (hdb.symm.trans hold)
    obtain ⟨value, hvalue, rfl⟩ := Batch.addKey_eq_ok hall
    have hfound := find?_addBatch_addKeyInternal b₄ w.leveldbNodeTest (ascii NODES_STATS_ALL.toList)
      value false p
    rw [if_pos hpre.symm, ← hlater, ← hpre] at hfound
    exact (LevelDb.findOneValue_of_find? hfound).trans (AllNodes.deserialize_serialize hvalue)

/-! ## Runs -/

/-- **What is stored**: the last registration of the first block that has one. -/
theorem Reached.allNodes {blocks : List BlockInfo} (h : w.Reached db blocks) :
    ∃ n, db.findAllNodes = .ok n ∧
      ∀ host, n.nodes.find? host = blocks.findSome? (fun bi => latest host (w.registrations bi)) := by
  induction h with
  | start => exact ⟨⟨∅⟩, rfl, fun _ => rfl⟩
  | @block db db' blocks bi r hreach hround ih =>
      unfold taken
      by_cases hr : r = .written ()
      · subst hr
        obtain ⟨n, hn, hnodes⟩ := ih
        obtain ⟨b, rfl, hprocessed⟩ := hreach.kept.processed hround
        obtain ⟨s, b₁, b₂, b₃, b₄, b₅, htxs, hc, hp⟩ := hprocessed.run
        refine ⟨n.plus s.allNodes, hp.holds_allNodes hc hn, fun host => ?_⟩
        have hblock : s.allNodes.nodes.find? host = latest host (w.registrations bi) := by
          rw [transactions_allNodes htxs, find?_foldl_registrations]
          exact Option.or_none
        rw [if_pos rfl, List.findSome?_append, ← hnodes, AllNodes.find?_plus, hblock,
          List.findSome?_singleton]
      · rw [if_neg hr, List.append_nil, work_not_written hround hr]
        exact ih

/-- The stored nodes are the latest registrations. -/
def StoresLatest (w : WorkerNodeTest) (db : LevelDb) (blocks : List BlockInfo) : Prop :=
  ∃ n, db.findAllNodes = .ok n ∧
    ∀ host, n.nodes.find? host = latest host (w.allRegistrations blocks)

/-- A host that registers in several blocks has at last the name and type that the first of them
left it with. -/
def EndsAsFirst (w : WorkerNodeTest) (blocks : List BlockInfo) : Prop :=
  ∀ host pre bi post node, blocks = pre ++ bi :: post →
    (∀ b ∈ pre, latest host (w.registrations b) = none) →
    latest host (w.registrations bi) = some node →
    latest host (w.allRegistrations blocks) = some node

theorem latest_allRegistrations_none {host : Blob} : ∀ {blocks : List BlockInfo},
    (∀ b ∈ blocks, latest host (w.registrations b) = none) →
      latest host (w.allRegistrations blocks) = none
  | [], _ => rfl
  | b :: blocks, h => by
      unfold allRegistrations
      rw [List.flatMap_cons, latest_append, h b List.mem_cons_self, Option.or_none]
      exact latest_allRegistrations_none (fun b' hb' => h b' (List.mem_cons_of_mem _ hb'))

theorem endsAsFirst_iff {blocks : List BlockInfo} : w.EndsAsFirst blocks ↔
    ∀ host, blocks.findSome? (fun bi => latest host (w.registrations bi)) =
      latest host (w.allRegistrations blocks) := by
  constructor
  · intro h host
    cases hfirst : blocks.findSome? (fun bi => latest host (w.registrations bi)) with
    | none =>
        exact (latest_allRegistrations_none (List.findSome?_eq_none_iff.mp hfirst)).symm
    | some node =>
        obtain ⟨pre, bi, post, hblocks, hnode, hpre⟩ := List.findSome?_eq_some_iff.mp hfirst
        exact (h host pre bi post node hblocks hpre hnode).symm
  · intro h host pre bi post node hblocks hpre hnode
    rw [← h host]
    exact List.findSome?_eq_some_iff.mpr ⟨pre, bi, post, hblocks, hnode, hpre⟩

/-- **The latest registrations are stored exactly where no host comes back in a later block and
ends with another name or type.** Where that is so, the grouping does not matter. -/
theorem registrations_iff (w : WorkerNodeTest) (db : LevelDb) (blocks : List BlockInfo)
    (h : w.Reached db blocks) :
    (w.StoresLatest db blocks ↔ w.EndsAsFirst blocks) ∧
      ∀ db' blocks', w.Reached db' blocks' →
        w.allRegistrations blocks = w.allRegistrations blocks' →
        w.EndsAsFirst blocks → w.EndsAsFirst blocks' → db.findAllNodes = db'.findAllNodes := by
  obtain ⟨n, hn, hnodes⟩ := h.allNodes
  constructor
  · rw [endsAsFirst_iff]
    constructor
    · rintro ⟨n', hn', hlatest⟩ host
      obtain rfl := Except.ok.inj (hn.symm.trans hn')
      exact (hnodes host).symm.trans (hlatest host)
    · exact fun hends => ⟨n, hn, fun host => (hnodes host).trans (hends host)⟩
  · intro db' blocks' h' hsame hends hends'
    obtain ⟨n', hn', hnodes'⟩ := h'.allNodes
    have heq : n.nodes = n'.nodes := by
      refine OrdMap.ext (fun host => ?_)
      rw [hnodes, hnodes', endsAsFirst_iff.mp hends, endsAsFirst_iff.mp hends', hsame]
    rw [hn, hn']
    exact congrArg (fun nodes => Except.ok (AllNodes.mk nodes)) heq

/-- The text that registers the host `h` under a name of one letter. -/
def registerText (name : Char) : Bytes :=
  123 :: testMember "method" "mhRegisterNode" ++ [44, 34] ++ ascii "params".toList ++
    [34, 58, 123] ++ testMember "host" "h" ++ 44 :: testMember "name" (String.singleton name) ++
    [125, 125]

/-- The document that registers the host `h` under a name. -/
def registerDoc (name : Char) : Json :=
  let text (name : String) (value : List Char) : Bytes × Json :=
    (ascii name.toList, .ofAscii value)
  .object [text "method" "mhRegisterNode".toList, (ascii "params".toList, .object
    [text "host" ['h'], text "name" [name]])]

/-- A worker with a parser for two such texts. -/
def registerWorker : WorkerNodeTest :=
  { testWorker with
    parseJson := fun data =>
      if data = registerText 'a' then some (registerDoc 'a')
      else if data = registerText 'b' then some (registerDoc 'b') else none }

/-- A block at a height that registers the host under these names. -/
def registerBlock (number : Nat) (names : List (Fin 2)) : BlockInfo :=
  { testBlock BLOCK_TYPE_COMMON number [] with
    txs := names.map (fun name =>
      { (default : TransactionInfo) with
        data := if name = 0 then ⟨registerText 'a', by decide +kernel⟩
          else ⟨registerText 'b', by decide +kernel⟩ }) }

/-- What the worker leaves of blocks. -/
def registerRun (blocks : List BlockInfo) : LevelDb :=
  blocks.foldl (fun db bi => ((registerWorker.on db).work bi).2) ∅

/-- Registered under both names in one block, the host has the second. -/
theorem registrations_iff_grouped :
    registerWorker.StoresLatest (registerRun [registerBlock 1 [0, 1]]) [registerBlock 1 [0, 1]] := by
  have hreached := (Reached.start (w := registerWorker)).next (registerBlock 1 [0, 1])
    (by decide +kernel)
  refine (registrations_iff registerWorker _ _ hreached).1.mpr ?_
  rw [endsAsFirst_iff]
  intro host
  rw [List.nil_append, List.findSome?_singleton]
  exact (congrArg (latest host) (List.append_nil _)).symm

/-- **Registered under one name and a block later under another**, it keeps the first. -/
theorem registrations_spread :
    ¬ ∀ db blocks, registerWorker.Reached db blocks → registerWorker.StoresLatest db blocks := by
  intro h
  have hreached := (Reached.start (w := registerWorker)).next (registerBlock 1 [0]) (by decide +kernel)
  have hreached := hreached.next (registerBlock 2 [1]) (by decide +kernel)
  obtain ⟨n, hn, hlatest⟩ := h _ _ hreached
  have hstored : ((registerRun [registerBlock 1 [0], registerBlock 2 [1]]).findAllNodes.map
      (fun n => n.nodes.find? ⟨[104], by decide⟩)) = .ok (some ⟨⟨[97], by decide⟩, ∅⟩) := by
    decide +kernel
  have hwanted : latest ⟨[104], by decide⟩
      (registerWorker.allRegistrations [registerBlock 1 [0], registerBlock 2 [1]]) =
        some ⟨⟨[98], by decide⟩, ∅⟩ := by
    decide +kernel
  have hname := hlatest ⟨[104], by decide⟩
  rw [show ([] ++ [registerBlock 1 [0]] ++ [registerBlock 2 [1]] : List BlockInfo) =
    [registerBlock 1 [0], registerBlock 2 [1]] from rfl, hwanted] at hname
  have hfound : (registerRun [registerBlock 1 [0], registerBlock 2 [1]]).findAllNodes = .ok n := hn
  rw [hfound] at hstored
  have heq := Except.ok.inj hstored
  dsimp only at heq
  rw [hname] at heq
  exact absurd heq (by decide)

end WorkerNodeTest

end TorrentNode
