import TorrentNode.BlockSource.Messages
import TorrentNode.Lib.Throws

/-!
# The vote on the last block

Every server is asked how many blocks it has, and the callbacks come in any order. What
is left when they are done does not depend on it: the greatest count, the servers that
reported it, and the extra blocks that these have. Nothing is left where an answer is a
JSON text of something else than an object, or where the broadcast throws behind them.
-/

namespace TorrentNode

/-- What a server reported: its name, its count of blocks and its extra blocks. -/
structure Report where
  server : Blob
  countBlocks : Nat
  extraBlocks : OrdSet Blob

namespace GetNewBlocksFromServer

/-- The report in an answer; a failed request and a message that does not parse have none. -/
def reportOf (net : Net) (answer : Blob × Except String Blob) : Option Report :=
  match answer.2 with
  | .error _ => none
  | .ok result =>
    match net.messages.parseCountBlocksMessage result with
    | .error _ => none
    | .ok (countBlocks, extraBlocks) => some ⟨answer.1, countBlocks, extraBlocks⟩

/-- The valid answers. -/
def reports (net : Net) (answers : List (Blob × Except String Blob)) : List Report :=
  answers.filterMap (reportOf net)

/-- The `error` that `getLastBlock` returns: the last one it met, when there is no last block. -/
def LastBlockResponse.returnedError (r : LastBlockResponse) : Option String :=
  match r.lastBlock with
  | some _ => none
  | none => some r.error

/-- The outcome of a vote, in terms of the reports as a set. -/
structure Vote (l : List Report) (r : LastBlockResponse) : Prop where
  error : r.returnedError ≠ none ↔ l = []
  lastBlock : ∀ m, r.lastBlock = some m ↔
    (∃ e ∈ l, e.countBlocks = m) ∧ ∀ e ∈ l, e.countBlocks ≤ m
  servers : ∀ m, r.lastBlock = some m → ∀ server,
    server ∈ r.servers ↔ ∃ e ∈ l, e.countBlocks = m ∧ e.server = server
  extraBlocks : ∀ m, r.lastBlock = some m → ∀ hash,
    r.extraBlocks.find? hash = some () ↔
      ∃ e ∈ l, e.countBlocks = m ∧ e.extraBlocks.find? hash = some ()

namespace Vote

variable {net : Net} {l : List Report} {r : LastBlockResponse}

theorem start (error : String) :
    Vote [] { servers := [], lastBlock := none, extraBlocks := ∅, error } where
  error := iff_of_true (fun h => by cases h) rfl
  lastBlock := fun m => iff_of_false (fun h => by cases h) (fun h => by
    obtain ⟨e, he, -⟩ := h.1
    cases he)
  servers := fun m h => by cases h
  extraBlocks := fun m h => by cases h

/-- Without a report there is no last block. -/
theorem lastBlock_eq_none (h : Vote l r) : r.lastBlock = none ↔ l = [] := by
  rw [← h.error]
  unfold LastBlockResponse.returnedError
  cases r.lastBlock with
  | none => exact iff_of_true rfl (fun h => by cases h)
  | some m => exact iff_of_false (fun h => by cases h) (fun h => h rfl)

/-- **An error** changes nothing but the text. -/
theorem failed (h : Vote l r) (error : String) : Vote l { r with error } where
  error := by
    rw [← h.lastBlock_eq_none]
    unfold LastBlockResponse.returnedError
    cases r.lastBlock with
    | none => exact iff_of_true (fun h => by cases h) rfl
    | some m => exact iff_of_false (fun h => h rfl) (fun h => by cases h)
  lastBlock := h.lastBlock
  servers := h.servers
  extraBlocks := h.extraBlocks

/-- A vote with a last block, by its three parts. -/
theorem of_some {m : Nat} (hlast : r.lastBlock = some m)
    (hmem : ∃ e ∈ l, e.countBlocks = m) (hmax : ∀ e ∈ l, e.countBlocks ≤ m)
    (hservers : ∀ server, server ∈ r.servers ↔ ∃ e ∈ l, e.countBlocks = m ∧ e.server = server)
    (hextra : ∀ hash, r.extraBlocks.find? hash = some () ↔
      ∃ e ∈ l, e.countBlocks = m ∧ e.extraBlocks.find? hash = some ()) : Vote l r where
  error := by
    unfold LastBlockResponse.returnedError
    rw [hlast]
    refine iff_of_false (fun h => h rfl) (fun h => ?_)
    obtain ⟨e, he, -⟩ := hmem
    rw [h] at he
    cases he
  lastBlock := by
    intro n
    rw [hlast]
    constructor
    · intro h
      obtain rfl := Option.some.inj h
      exact ⟨hmem, hmax⟩
    · rintro ⟨⟨e, he, rfl⟩, hn⟩
      obtain ⟨e', he', rfl⟩ := hmem
      have hle := hn e' he'
      have hge := hmax e he
      exact congrArg some (by omega)
  servers := by
    intro n hn
    obtain rfl := Option.some.inj (hlast.symm.trans hn)
    exact hservers
  extraBlocks := by
    intro n hn
    obtain rfl := Option.some.inj (hlast.symm.trans hn)
    exact hextra

/-- What stands at the count so far, zero where nothing was reported. -/
theorem upTo (h : Vote l r) : ∀ e ∈ l, e.countBlocks ≤ r.lastBlock.getD 0 := by
  intro e he
  cases hlast : r.lastBlock with
  | none =>
      rw [h.lastBlock_eq_none.mp hlast] at he
      cases he
  | some m => exact ((h.lastBlock m).mp hlast).2 e he

/-- The servers so far are those of the count so far, which may be the zero of the start. -/
theorem servers_getD (h : Vote l r) (hservers : r.lastBlock = none → r.servers = [])
    (server : Blob) : server ∈ r.servers ↔
      ∃ e ∈ l, e.countBlocks = r.lastBlock.getD 0 ∧ e.server = server := by
  cases hlast : r.lastBlock with
  | none =>
      rw [hservers hlast, h.lastBlock_eq_none.mp hlast]
      simp
  | some m => exact h.servers m hlast server

theorem extraBlocks_getD (h : Vote l r) (hextra : r.lastBlock = none → r.extraBlocks = ∅)
    (hash : Blob) : r.extraBlocks.find? hash = some () ↔
      ∃ e ∈ l, e.countBlocks = r.lastBlock.getD 0 ∧ e.extraBlocks.find? hash = some () := by
  cases hlast : r.lastBlock with
  | none =>
      rw [hextra hlast, h.lastBlock_eq_none.mp hlast]
      simp
  | some m => exact h.extraBlocks m hlast hash

/-- **A report** above the count so far is the only one left. -/
theorem above (h : Vote l r) {e : Report} (hlt : r.lastBlock.getD 0 < e.countBlocks) :
    Vote (l ++ [e])
      { r with lastBlock := some e.countBlocks, servers := [e.server],
               extraBlocks := e.extraBlocks } := by
  have hbelow : ∀ e' ∈ l, e'.countBlocks < e.countBlocks := by
    intro e' he'
    have hle := h.upTo e' he'
    omega
  -- so of the reports at this count it is the first
  have honly : ∀ e' ∈ l ++ [e], e'.countBlocks = e.countBlocks → e' = e := by
    intro e' he' hcount
    rcases List.mem_append.mp he' with he' | he'
    · have hlt' := hbelow e' he'
      omega
    · exact List.mem_singleton.mp he'
  have hlast : e ∈ l ++ [e] := List.mem_append_right _ List.mem_cons_self
  refine of_some rfl ⟨e, hlast, rfl⟩ ?_ ?_ ?_
  · intro e' he'
    rcases List.mem_append.mp he' with he' | he'
    · exact (hbelow e' he').le
    · rw [List.mem_singleton.mp he']
  · intro server
    constructor
    · intro hs
      exact ⟨e, hlast, rfl, (List.mem_singleton.mp hs).symm⟩
    · rintro ⟨e', he', hcount, rfl⟩
      rw [honly e' he' hcount]
      exact List.mem_singleton.mpr rfl
  · intro hash
    constructor
    · exact fun hs => ⟨e, hlast, rfl, hs⟩
    · rintro ⟨e', he', hcount, hs⟩
      rwa [honly e' he' hcount] at hs

/-- **A report** at the count so far joins the others. -/
theorem level (h : Vote l r) (hservers : r.lastBlock = none → r.servers = [])
    (hextra : r.lastBlock = none → r.extraBlocks = ∅) {e : Report}
    (heq : r.lastBlock.getD 0 = e.countBlocks) :
    Vote (l ++ [e])
      { r with
        lastBlock := some (r.lastBlock.getD 0)
        servers := r.servers ++ [e.server]
        extraBlocks := (OrdSet.toList e.extraBlocks).foldl (fun s k => OrdMap.insert s k ())
          r.extraBlocks } := by
  have hlast : e ∈ l ++ [e] := List.mem_append_right _ List.mem_cons_self
  -- The answer joins the servers and the hashes of the count that leads.
  refine of_some rfl ⟨e, hlast, heq.symm⟩ ?_ ?_ ?_
  · intro e' he'
    rcases List.mem_append.mp he' with he' | he'
    · exact h.upTo e' he'
    · rw [List.mem_singleton.mp he', heq]
  · intro server
    show server ∈ r.servers ++ [e.server] ↔ _
    rw [List.mem_append, h.servers_getD hservers, List.mem_singleton]
    constructor
    · rintro (⟨e', he', hcount, hs⟩ | rfl)
      · exact ⟨e', List.mem_append_left _ he', hcount, hs⟩
      · exact ⟨e, hlast, heq.symm, rfl⟩
    · rintro ⟨e', he', hcount, hs⟩
      rcases List.mem_append.mp he' with he' | he'
      · exact Or.inl ⟨e', he', hcount, hs⟩
      · rw [List.mem_singleton.mp he'] at hs
        exact Or.inr hs.symm
  · intro hash
    show OrdMap.find? ((OrdSet.toList e.extraBlocks).foldl (fun s k => OrdMap.insert s k ())
      r.extraBlocks) hash = some () ↔ _
    rw [OrdSet.find?_foldl_insert, OrdSet.mem_toList, h.extraBlocks_getD hextra]
    constructor
    · rintro (hs | ⟨e', he', hcount, hs⟩)
      · exact ⟨e, hlast, heq.symm, hs⟩
      · exact ⟨e', List.mem_append_left _ he', hcount, hs⟩
    · rintro ⟨e', he', hcount, hs⟩
      rcases List.mem_append.mp he' with he' | he'
      · exact Or.inr ⟨e', he', hcount, hs⟩
      · rw [List.mem_singleton.mp he'] at hs
        exact Or.inl hs

/-- **A report** below the count so far changes nothing. -/
theorem below (h : Vote l r) {e : Report} (hlt : e.countBlocks < r.lastBlock.getD 0) :
    Vote (l ++ [e]) { r with lastBlock := some (r.lastBlock.getD 0) } := by
  cases hlast : r.lastBlock with
  | none =>
      rw [hlast] at hlt
      exact absurd hlt (Nat.not_lt_zero _)
  | some m =>
      rw [hlast] at hlt
      obtain ⟨⟨e₀, he₀, hm⟩, hmax⟩ := (h.lastBlock m).mp hlast
      have hsame : ∀ {p : Report → Prop}, (∃ e' ∈ l ++ [e], e'.countBlocks = m ∧ p e') ↔
          ∃ e' ∈ l, e'.countBlocks = m ∧ p e' := by
        intro p
        constructor
        · rintro ⟨e', he', hcount, hp⟩
          rcases List.mem_append.mp he' with he' | he'
          · exact ⟨e', he', hcount, hp⟩
          · rw [List.mem_singleton.mp he'] at hcount
            dsimp only [Option.getD_some] at hlt
            omega
        · rintro ⟨e', he', hcount, hp⟩
          exact ⟨e', List.mem_append_left _ he', hcount, hp⟩
      refine of_some rfl ⟨e₀, List.mem_append_left _ he₀, hm⟩ ?_ ?_ ?_
      · intro e' he'
        rcases List.mem_append.mp he' with he' | he'
        · exact hmax e' he'
        · rw [List.mem_singleton.mp he']
          exact hlt.le
      · exact fun server => (h.servers m hlast server).trans hsame.symm
      · exact fun hash => (h.extraBlocks m hlast hash).trans hsame.symm

end Vote

/-- What the callbacks keep: the vote so far, and nothing before the first report. -/
structure Voting (l : List Report) (r : LastBlockResponse) : Prop where
  vote : Vote l r
  servers : r.lastBlock = none → r.servers = []
  extraBlocks : r.lastBlock = none → r.extraBlocks = ∅

theorem Voting.start : Voting [] { servers := [], lastBlock := none, extraBlocks := ∅, error := "" } :=
  ⟨Vote.start "", fun _ => rfl, fun _ => rfl⟩

theorem Voting.of_some {l : List Report} {r : LastBlockResponse} {m : Nat} (h : Vote l r)
    (hlast : r.lastBlock = some m) : Voting l r := by
  refine ⟨h, fun hnone => ?_, fun hnone => ?_⟩
  · rw [hlast] at hnone
    cases hnone
  · rw [hlast] at hnone
    cases hnone

theorem Voting.failed {l : List Report} {r : LastBlockResponse} (h : Voting l r) (error : String) :
    Voting l { r with error } := ⟨h.vote.failed error, h.servers, h.extraBlocks⟩

/-- **A report** that is kept. -/
theorem Voting.keepReport {l : List Report} {r : LastBlockResponse} (h : Voting l r) (e : Report) :
    Voting (l ++ [e])
      (GetNewBlocksFromServer.keepReport r e.server e.countBlocks e.extraBlocks) := by
  unfold GetNewBlocksFromServer.keepReport
  dsimp only
  by_cases habove : r.lastBlock.getD 0 < e.countBlocks
  · rw [if_pos habove]
    exact Voting.of_some (h.vote.above habove) rfl
  · rw [if_neg habove]
    by_cases hlevel : r.lastBlock.getD 0 = e.countBlocks
    · rw [if_pos hlevel]
      exact Voting.of_some (h.vote.level h.servers h.extraBlocks hlevel) rfl
    · rw [if_neg hlevel]
      have hbelow : e.countBlocks < r.lastBlock.getD 0 := by omega
      exact Voting.of_some (h.vote.below hbelow) rfl

/-- **One callback** that returns. -/
theorem Voting.callback {l : List Report} {r r' : LastBlockResponse} (h : Voting l r) {net : Net}
    {answer : Blob × Except String Blob} (hcallback : lastBlockCallback net r answer = .ok r') :
    Voting (l ++ (reportOf net answer).toList) r' := by
  obtain ⟨server, result⟩ := answer
  unfold lastBlockCallback at hcallback
  unfold reportOf
  cases result with
  | error e =>
      obtain rfl := Except.ok.inj hcallback
      rw [Option.toList_none, List.append_nil]
      exact h.failed e
  | ok result =>
      dsimp only at hcallback ⊢
      cases hparse : net.messages.parseCountBlocksMessage result with
      | error e =>
          rw [hparse] at hcallback
          cases e with
          | exception msg =>
              obtain rfl := Except.ok.inj hcallback
              rw [Option.toList_none, List.append_nil]
              exact h.failed msg
          | user msg => cases hcallback
          | stop => cases hcallback
          | std what => cases hcallback
          | crash => cases hcallback
      | ok reported =>
          rw [hparse] at hcallback
          obtain rfl := Except.ok.inj hcallback
          exact h.keepReport ⟨server, reported.1, reported.2⟩

/-- **All callbacks**, when they return. -/
theorem Voting.callbacks (net : Net) :
    ∀ {answers : List (Blob × Except String Blob)} {l : List Report} {r r' : LastBlockResponse},
      Voting l r → answers.foldlM (lastBlockCallback net) r = .ok r' →
      Voting (l ++ reports net answers) r'
  | [], l, r, r', h, hrun => by
      obtain rfl := Except.ok.inj hrun
      rw [reports, List.filterMap_nil, List.append_nil]
      exact h
  | answer :: answers, l, r, r', h, hrun => by
      rw [List.foldlM_cons] at hrun
      obtain ⟨next, hcallback, hrun⟩ := bind_eq_ok.mp hrun
      have hnext := Voting.callbacks net (h.callback hcallback) hrun
      have hsplit : reports net (answer :: answers) =
          (reportOf net answer).toList ++ reports net answers := by
        unfold reports
        rw [List.filterMap_cons]
        cases reportOf net answer <;> rfl
      rw [List.append_assoc, ← hsplit] at hnext
      exact hnext

/-! ## Answers without members -/

/-- The answer is the JSON text of something that is no object. -/
def Memberless (rapidjson : RapidJson) (answer : Blob × Except String Blob) : Prop :=
  ∃ result doc, answer.2 = .ok result ∧ rapidjson.Parse (cStr result) = some doc ∧
    doc.isObject = false

/-- The program's own exceptions. -/
def IsException (e : Err) : Prop := ∃ msg, e = .exception msg

theorem throws_field {α : Type} (found : Option α) (msg : String) :
    Throws IsException (field found msg) := by
  cases found with
  | none => exact Throws.error ⟨msg, rfl⟩
  | some a => exact Throws.ok a

theorem throws_parseExtraBlocks (json : Json) (name : String) :
    Throws IsException (parseExtraBlocks json name) := by
  unfold parseExtraBlocks
  split
  · exact Throws.ok _
  · exact (Throws.mapM (fun _ _ => throws_field _ _)).bind (fun _ _ => Throws.pure _)

theorem throws_checkError (rapidjson : RapidJson) {doc : Json} (hdoc : doc.isObject = true) :
    Throws IsException (rapidjson.checkError doc) := by
  unfold RapidJson.checkError
  rw [Json.member_eq _ hdoc]
  refine (Throws.ok _).bind (fun e _ => ?_)
  split
  · exact Throws.pure _
  · exact Throws.pure _
  · exact Throws.error ⟨_, rfl⟩

/-- A message that is no JSON, or a JSON object, is parsed or refused. -/
theorem throws_parseCountBlocksMessage {rapidjson : RapidJson} {response : Blob}
    (h : ∀ doc, rapidjson.Parse (cStr response) = some doc → doc.isObject = true) :
    Throws IsException (rapidjson.parseCountBlocksMessage response) := by
  refine (throws_field _ _).bind (fun doc hdoc => ?_)
  have hparsed : rapidjson.Parse (cStr response) = some doc := by
    unfold RapidJson.parse field at hdoc
    split at hdoc
    · cases hdoc
    · rename_i a ha
      rw [ha, Except.ok.inj hdoc]
  refine (throws_checkError rapidjson (h doc hparsed)).bind (fun _ _ => ?_)
  refine (throws_field _ _).bind (fun _ _ => (throws_field _ _).bind (fun _ _ => ?_))
  exact (throws_parseExtraBlocks _ _).bind (fun _ _ => Throws.pure _)

/-- **Any other ends the program.** -/
theorem parseCountBlocksMessage_crash {rapidjson : RapidJson} {response : Blob} {doc : Json}
    (hparse : rapidjson.Parse (cStr response) = some doc) (hdoc : doc.isObject = false) :
    rapidjson.parseCountBlocksMessage response = .error .crash := by
  have hmember : doc.member "error" = .error .crash := if_neg (by rw [hdoc]; simp)
  unfold RapidJson.parseCountBlocksMessage RapidJson.parse RapidJson.checkError
  rw [hparse]
  simp only [field, Bind.bind, Except.bind, hmember]

section

variable (rapidjson : RapidJson) (lz4 : LZ4) (p2p : P2P)

theorem callback_returns {answer : Blob × Except String Blob} (h : ¬Memberless rapidjson answer)
    (r : LastBlockResponse) :
    ∃ r', lastBlockCallback ⟨messages rapidjson lz4, p2p⟩ r answer = .ok r' := by
  obtain ⟨server, result⟩ := answer
  unfold lastBlockCallback
  cases result with
  | error e => exact ⟨_, rfl⟩
  | ok result =>
      dsimp only [messages]
      have hthrows := @throws_parseCountBlocksMessage rapidjson result (fun doc hdoc => by
        by_contra hno
        exact h ⟨result, doc, rfl, hdoc, eq_false_of_ne_true hno⟩)
      cases hparse : rapidjson.parseCountBlocksMessage result with
      | error e =>
          obtain ⟨msg, rfl⟩ := hthrows e hparse
          exact ⟨_, rfl⟩
      | ok reported => exact ⟨_, rfl⟩

theorem callback_crash {answer : Blob × Except String Blob} (h : Memberless rapidjson answer)
    (r : LastBlockResponse) :
    lastBlockCallback ⟨messages rapidjson lz4, p2p⟩ r answer = .error .crash := by
  obtain ⟨result, doc, hresult, hparse, hdoc⟩ := h
  unfold lastBlockCallback
  rw [hresult]
  dsimp only [messages]
  rw [parseCountBlocksMessage_crash hparse hdoc]

/-- The callbacks return exactly where every answer has members, or is none. -/
theorem callbacks_return_iff : ∀ {answers : List (Blob × Except String Blob)}
    (r : LastBlockResponse),
    (∃ r', answers.foldlM (lastBlockCallback ⟨messages rapidjson lz4, p2p⟩) r = .ok r') ↔
      ∀ answer ∈ answers, ¬Memberless rapidjson answer
  | [], r => iff_of_true ⟨r, rfl⟩ (fun _ h => by cases h)
  | answer :: answers, r => by
      rw [List.foldlM_cons, List.forall_mem_cons]
      by_cases hanswer : Memberless rapidjson answer
      · rw [callback_crash rapidjson lz4 p2p hanswer]
        exact iff_of_false (by rintro ⟨r', h⟩; cases h) (fun h => h.1 hanswer)
      · obtain ⟨next, hnext⟩ := callback_returns rapidjson lz4 p2p hanswer r
        rw [hnext]
        exact (callbacks_return_iff next).trans (and_iff_right hanswer).symm

end

/-! ## The vote -/

/-- The same outcome, the servers taken as a set. -/
structure SameOutcome (r r' : LastBlockResponse) : Prop where
  lastBlock : r.lastBlock = r'.lastBlock
  error : r.returnedError = none ↔ r'.returnedError = none
  servers : r.returnedError = none → ∀ server, server ∈ r.servers ↔ server ∈ r'.servers
  extraBlocks : r.returnedError = none → r.extraBlocks = r'.extraBlocks

/-- The reports as a set decide the outcome. -/
theorem Vote.same {l l' : List Report} {r r' : LastBlockResponse} (h : Vote l r) (h' : Vote l' r')
    (hmem : ∀ e, e ∈ l ↔ e ∈ l') : SameOutcome r r' := by
  have hlast : r.lastBlock = r'.lastBlock := by
    refine Option.ext (fun m => ?_)
    rw [h.lastBlock, h'.lastBlock]
    simp only [hmem]
  have herror : r.returnedError = none ↔ r'.returnedError = none := by
    unfold LastBlockResponse.returnedError
    rw [hlast]
    cases r'.lastBlock with
    | none => exact iff_of_false (fun h => by cases h) (fun h => by cases h)
    | some m => exact Iff.rfl
  have hsome : r.returnedError = none → ∃ m, r.lastBlock = some m := by
    intro hnone
    unfold LastBlockResponse.returnedError at hnone
    cases hm : r.lastBlock with
    | none =>
        rw [hm] at hnone
        cases hnone
    | some m => exact ⟨m, rfl⟩
  refine ⟨hlast, herror, fun hnone server => ?_, fun hnone => ?_⟩
  · obtain ⟨m, hm⟩ := hsome hnone
    rw [h.servers m hm, h'.servers m (hlast ▸ hm)]
    simp only [hmem]
  · obtain ⟨m, hm⟩ := hsome hnone
    refine OrdMap.ext (fun hash => Option.ext (fun u => ?_))
    cases u
    rw [h.extraBlocks m hm, h'.extraBlocks m (hlast ▸ hm)]
    simp only [hmem]

/-- The same broadcast with its callbacks in another order. -/
def Reordered (b b' : Broadcast) : Prop := b'.answers.Perm b.answers ∧ b'.thrown = b.thrown

/-- The broadcast throws nothing, and no answer is the text of something without members. -/
def Clean (rapidjson : RapidJson) (b : Broadcast) : Prop :=
  (∀ answer ∈ b.answers, ¬Memberless rapidjson answer) ∧ b.thrown = none

theorem Reordered.clean {rapidjson : RapidJson} {b b' : Broadcast} (h : Reordered b b')
    (hb : Clean rapidjson b) : Clean rapidjson b' :=
  ⟨fun answer hanswer => hb.1 answer (h.1.mem_iff.mp hanswer), h.2.trans hb.2⟩

section

variable (rapidjson : RapidJson) (lz4 : LZ4)

theorem getLastBlock_vote {p2p : P2P} {g : GetNewBlocksFromServer} {r : LastBlockResponse}
    (h : (getLastBlock ⟨messages rapidjson lz4, p2p⟩ g).1 = .ok r) :
    Vote (reports ⟨messages rapidjson lz4, p2p⟩ (p2p.countBlocks g.asked).answers) r ∧
      Clean rapidjson (p2p.countBlocks g.asked) := by
  unfold getLastBlock runCallbacks at h
  dsimp only at h
  split at h
  · cases h
  · rename_i r' hrun
    split at h
    · cases h
    · rename_i hthrown
      obtain rfl := Except.ok.inj h
      exact ⟨(Voting.callbacks _ Voting.start hrun).vote,
        (callbacks_return_iff rapidjson lz4 p2p _).mp ⟨_, hrun⟩, hthrown⟩

theorem getLastBlock_returns {p2p : P2P} {g : GetNewBlocksFromServer}
    (h : Clean rapidjson (p2p.countBlocks g.asked)) :
    ∃ r, (getLastBlock ⟨messages rapidjson lz4, p2p⟩ g).1 = .ok r := by
  obtain ⟨r, hrun⟩ := (callbacks_return_iff rapidjson lz4 p2p
    { servers := [], lastBlock := none, extraBlocks := ∅, error := "" }).mpr h.1
  refine ⟨r, ?_⟩
  unfold getLastBlock runCallbacks
  dsimp only
  rw [hrun]
  dsimp only
  rw [h.2]

/-- **The vote on the last block does not depend on the order of the callbacks**: it is the vote of
the reports as a set, and any other order of the same callbacks leaves the same outcome. That is so
exactly where the broadcast throws nothing and no answer is a JSON text of something without
members. -/
theorem lastBlock_vote_iff (p2p : P2P) (g : GetNewBlocksFromServer) :
    (∃ r, (getLastBlock ⟨messages rapidjson lz4, p2p⟩ g).1 = .ok r ∧
      Vote (reports ⟨messages rapidjson lz4, p2p⟩ (p2p.countBlocks g.asked).answers) r ∧
      ∀ p2p' : P2P, Reordered (p2p.countBlocks g.asked) (p2p'.countBlocks g.asked) →
        ∃ r', (getLastBlock ⟨messages rapidjson lz4, p2p'⟩ g).1 = .ok r' ∧ SameOutcome r' r) ↔
      Clean rapidjson (p2p.countBlocks g.asked) := by
  constructor
  · rintro ⟨r, hr, -, -⟩
    exact (getLastBlock_vote rapidjson lz4 hr).2
  · intro hclean
    obtain ⟨r, hr⟩ := getLastBlock_returns rapidjson lz4 hclean
    obtain ⟨hvote, -⟩ := getLastBlock_vote rapidjson lz4 hr
    refine ⟨r, hr, hvote, fun p2p' horder => ?_⟩
    obtain ⟨r', hr'⟩ := getLastBlock_returns rapidjson lz4 (horder.clean hclean)
    refine ⟨r', hr', (getLastBlock_vote rapidjson lz4 hr').1.same hvote (fun e => ?_)⟩
    -- the reports are made by the parsers alone
    exact (horder.1.filterMap (reportOf ⟨messages rapidjson lz4, p2p⟩)).mem_iff

end

/-- The document of an answer: this count, and one extra block. -/
def countDoc (count : UInt64) (extra : Char) : Json :=
  .object [(ascii "result".toList, .object [(ascii "count_blocks".toList, .int64 count),
    (ascii "next_extra_blocks".toList, .array [.ofAscii [extra]])])]

/-- A library that knows three such answers, and the number 5. -/
def votingJson : RapidJson where
  jsonToString _ := ∅
  Parse data :=
    if data = [1] then some (countDoc 5 'x')
    else if data = [2] then some (countDoc 5 'y')
    else if data = [3] then some (countDoc 0 'z')
    else if data = [53] then some (.int64 5)
    else none

/-- A network with this broadcast of `get-count-blocks`. -/
def votingP2P (b : Broadcast) : P2P where
  countBlocks _ := b
  preLoad _ _ _ := ⟨[], none⟩
  headers _ _ _ := .error .stop
  dumps _ _ _ _ := .error .stop
  dump _ _ _ _ _ _ := .error .stop
  wholeDump _ _ _ _ := .error .stop

/-- Nothing is compressed here. -/
def votingLZ4 : LZ4 where
  compress_default _ _ _ := []
  decompress_safe _ _ _ := .error []

/-- Two servers with five blocks, one with none and one that does not answer. -/
def fourAnswers : Broadcast :=
  ⟨[(⟨[65], by decide⟩, .ok ⟨[1], by decide⟩), (⟨[66], by decide⟩, .error "timeout"),
    (⟨[67], by decide⟩, .ok ⟨[2], by decide⟩), (⟨[68], by decide⟩, .ok ⟨[3], by decide⟩)], none⟩

/-- Nothing was loaded yet. -/
def votingSource : GetNewBlocksFromServer := ⟨0, 0, false, [], ∅, 0⟩

example : (getLastBlock ⟨messages votingJson votingLZ4, votingP2P fourAnswers⟩ votingSource).1.map
    LastBlockResponse.servers = .ok [⟨[65], by decide⟩, ⟨[67], by decide⟩] := by
  decide +kernel

/-- **A server that answers with a number ends the program**, and one that answers nothing is not
told of where the broadcast throws in the end. -/
theorem lastBlock_of_number :
    (¬ ∃ r, (getLastBlock ⟨messages votingJson votingLZ4,
        votingP2P ⟨[(⟨[65], by decide⟩, .ok ⟨[53], by decide⟩)], none⟩⟩ votingSource).1 = .ok r) ∧
      ¬ ∃ r, (getLastBlock ⟨messages votingJson votingLZ4,
        votingP2P ⟨[(⟨[66], by decide⟩, .error "timeout")], some (.exception "Servers end")⟩⟩
          votingSource).1 = .ok r := by
  constructor
  · rintro ⟨r, h⟩
    have hcrash : (getLastBlock ⟨messages votingJson votingLZ4,
        votingP2P ⟨[(⟨[65], by decide⟩, .ok ⟨[53], by decide⟩)], none⟩⟩ votingSource).1 =
          .error .crash := by decide +kernel
    rw [hcrash] at h
    cases h
  · rintro ⟨r, h⟩
    have hthrown : (getLastBlock ⟨messages votingJson votingLZ4,
        votingP2P ⟨[(⟨[66], by decide⟩, .error "timeout")], some (.exception "Servers end")⟩⟩
          votingSource).1 = .error (.exception "Servers end") := by decide +kernel
    rw [hthrown] at h
    cases h

end GetNewBlocksFromServer

end TorrentNode
