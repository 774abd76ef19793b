import TorrentNode.Sync.RecordedPlaces
import TorrentNode.Workers.AddressHistory

/-!
# Page by page through a history

A client that goes through a history with filters gets of each stretch that is read
what fits on a page. A stretch is never longer than what the limit leaves room for, so
with pages as large as the limit nothing is lost, and with smaller ones just what a
stretch holds beyond a page.
-/

namespace TorrentNode

open NamedKeys

/-- What stands under an address, and the transactions it is about. -/
structure StoredHistory (db : LevelDb) (folder : BlockFolder) (p : String) (A : Blob)
    (records : List AddressInfo) (txs : List TransactionInfo) : Prop where
  entries : (db.under (scan (literalKey p) Saved.separator A.val)).map
    (fun e => AddressInfo.deserialize e.2) = records.map .ok
  named : ∀ r ∈ records, r.filePos.fileNameRelative ≠ ∅
  read : records.map folder.readOneTx = txs.map .ok

/-- Where the records for these filters stand. -/
def TransactionsFilters.historyPrefix (filters : TransactionsFilters) : String :=
  if filters.isTokens = .true then ADDRESS_TOKEN_PREFIX else ADDRESS_PREFIX

namespace StoredHistory

variable {db : LevelDb} {folder : BlockFolder} {p : String} {A : Blob} {records : List AddressInfo}
  {txs : List TransactionInfo}

theorem length_eq (h : StoredHistory db folder p A records txs) : records.length = txs.length := by
  have hlen := congrArg List.length h.read
  rwa [List.length_map, List.length_map] at hlen

theorem length_under (h : StoredHistory db folder p A records txs) :
    (db.under (scan (literalKey p) Saved.separator A.val)).length = txs.length := by
  have hlen := congrArg List.length h.entries
  rw [List.length_map, List.length_map] at hlen
  exact hlen.trans h.length_eq

theorem isRead (h : StoredHistory db folder p A records txs) : ∀ tx ∈ txs, tx.IsRead := by
  intro tx htx
  have hmem : Except.ok tx ∈ records.map folder.readOneTx := by
    rw [h.read]
    exact List.mem_map_of_mem htx
  obtain ⟨r, _, hr⟩ := List.mem_map.mp hmem
  exact BlockFolder.isRead_readOneTx hr

/-- **A lookup** gives a page of the records. -/
theorem findAddressUnder (h : StoredHistory db folder p A records txs) (hp : p.isEmpty = false)
    (hA : A ≠ ∅) {fromIndex count : UInt64}
    (hsum : count ≠ 0 → fromIndex.toNat + count.toNat < 2 ^ 64) (hlen : txs.length < 2 ^ 64) :
    db.findAddressUnder p A fromIndex count =
      .ok (LevelDb.page fromIndex.toNat count.toNat records) := by
  rw [LevelDb.findAddressUnder_page hp hA hsum (by rw [h.length_under]; exact hlen), mapM_eq_ok_iff,
    LevelDb.map_page, LevelDb.map_page, h.entries]

/-- The transactions of a page. -/
theorem readTxs (h : StoredHistory db folder p A records txs) (fromIndex count : Nat) :
    folder.readTxs (LevelDb.page fromIndex count records) =
      .ok (LevelDb.page fromIndex count txs) := by
  have hpart : ∀ r ∈ LevelDb.page fromIndex count records, r ∈ records := by
    intro r hr
    unfold LevelDb.page at hr
    split at hr
    · exact List.mem_of_mem_drop hr
    · exact List.mem_of_mem_drop (List.mem_of_mem_take hr)
  rw [BlockFolder.readTxs_eq (fun r hr => h.named r (hpart r hr)), mapM_eq_ok_iff, LevelDb.map_page,
    LevelDb.map_page, h.read]

end StoredHistory

namespace WorkerMain

variable {w : WorkerMain} {folder : BlockFolder} {address : Address} {A : Blob}
  {records : List AddressInfo} {txs : List TransactionInfo} {filters : TransactionsFilters}
  {count limitTxs : UInt64}

/-- The index of what is left of a list. -/
def indexOf (txs rest : List TransactionInfo) : UInt64 := UInt64.ofNat (txs.length - rest.length)

/-- What a call gathers. -/
def gatherTxs (address : Address) (filters : TransactionsFilters) (count limitTxs : UInt64)
    (held rest : List TransactionInfo) : List TransactionInfo × List TransactionInfo :=
  Paging.gather (fun tx => decide (filters.Passes address.address tx)) limitTxs.toNat count.toNat
    held rest

/-- How a page is handed over. -/
def showPage (folder : BlockFolder) (statusesVect : List TransactionStatus)
    (page : List TransactionInfo) : List TransactionInfo :=
  (folder.sort.sort page).map (fillStatuses statusesVect)

section Calls

variable (h : StoredHistory w.leveldb folder filters.historyPrefix A records txs)
  (haddress : address.toBdString = .ok A) (hcount : count ≤ limitTxs)
  (hsmall : txs.length + limitTxs.toNat < 2 ^ 64)
include h haddress hcount hsmall

/-- **A round of the loop** reads on from where it is, as much as can still be held. -/
theorem getTxsForAddressLoop_round {held rest : List TransactionInfo} (hrest : rest <:+ txs)
    (hheld : held.length < count.toNat) (fuel : Nat) :
    w.getTxsForAddressLoop folder address count limitTxs filters (fuel + 1) held
        (indexOf txs rest) =
      if rest.take (limitTxs.toNat - held.length) = [] then .ok (some (held, indexOf txs rest))
      else
        let held' := held ++ (rest.take (limitTxs.toNat - held.length)).filter
          (fun tx => decide (filters.Passes address.address tx))
        let rest' := rest.drop (limitTxs.toNat - held.length)
        if count.toNat ≤ held'.length then .ok (some (held', indexOf txs rest'))
        else w.getTxsForAddressLoop folder address count limitTxs filters fuel held'
          (indexOf txs rest') := by
  obtain ⟨front, rfl⟩ := hrest
  have hle := UInt64.le_iff_toNat_le.mp hcount
  have hlimit := limitTxs.toNat_lt
  rw [List.length_append] at hsmall
  have hindex : indexOf (front ++ rest) rest = UInt64.ofNat front.length := by
    unfold indexOf
    rw [List.length_append, Nat.add_sub_cancel]
  have hfront : (UInt64.ofNat front.length).toNat = front.length := toNat_ofNat_of_lt (by omega)
  have hleft : (limitTxs - UInt64.ofNat held.length).toNat = limitTxs.toNat - held.length := by
    have hlen : (UInt64.ofNat held.length).toNat = held.length := toNat_ofNat_of_lt (by omega)
    rw [UInt64.toNat_sub_of_le _ _ (UInt64.le_iff_toNat_le.mpr (by omega)), hlen]
  have hA := Address.getBinaryString_ne haddress
  have hset : address.isSet = true := (check_bind_eq_ok.mp haddress).1
  -- The lookup gives the next records from the history that the filter asks for.
  have hlookup : (if filters.isTokens = .true then
        w.leveldb.findAddressTokens A (UInt64.ofNat front.length)
          (limitTxs - UInt64.ofNat held.length)
      else w.leveldb.findAddress A (UInt64.ofNat front.length)
        (limitTxs - UInt64.ofNat held.length)) =
      .ok (LevelDb.page front.length (limitTxs.toNat - held.length) records) := by
    have hp : filters.historyPrefix.isEmpty = false := by
      unfold TransactionsFilters.historyPrefix
      split <;> rfl
    have hsum : limitTxs - UInt64.ofNat held.length ≠ 0 → (UInt64.ofNat front.length).toNat +
        (limitTxs - UInt64.ofNat held.length).toNat < 2 ^ 64 := by
      intro
      rw [hfront, hleft]
      omega
    have hpage := h.findAddressUnder hp hA hsum (by rw [List.length_append]; omega)
    rw [hfront, hleft] at hpage
    rw [← hpage]
    unfold TransactionsFilters.historyPrefix
    split <;> rfl
  have hread := h.readTxs front.length (limitTxs.toNat - held.length)
  -- a page from here on
  have hpage : ∀ {α : Type} (l : List α),
      LevelDb.page front.length (limitTxs.toNat - held.length) l =
        (l.drop front.length).take (limitTxs.toNat - held.length) := by
    intro α l
    unfold LevelDb.page
    rw [if_neg (by omega)]
  have hchunk : (front ++ rest).drop front.length = rest := List.drop_left
  rw [hpage (front ++ rest), hchunk] at hread
  have hlen : (LevelDb.page front.length (limitTxs.toNat - held.length) records).length =
      (rest.take (limitTxs.toNat - held.length)).length := by
    rw [hpage, List.length_take, List.length_drop, h.length_eq, List.length_append, List.length_take]
    congr 1
    omega
  have hisRead : ∀ tx ∈ rest.take (limitTxs.toNat - held.length), tx.IsRead := fun tx htx =>
    h.isRead tx (List.mem_append_right _ (List.mem_of_mem_take htx))
  have hfilter : filters.filterTxs address (rest.take (limitTxs.toNat - held.length)) = .ok _ :=
    TransactionsFilters.filterTxs_eq hset hisRead
  rw [hindex]
  rw [getTxsForAddressLoop, haddress]
  simp only [Bind.bind, Except.bind, hlookup]
  -- Nothing is left, or the round filters what it has read and goes on behind it.
  by_cases hend : rest.take (limitTxs.toNat - held.length) = []
  · have hnone :
        (LevelDb.page front.length (limitTxs.toNat - held.length) records).isEmpty = true := by
      rw [List.isEmpty_iff_length_eq_zero, hlen, hend, List.length_nil]
    rw [hnone, if_pos rfl, if_pos hend]
    rfl
  · have hsome :
        (LevelDb.page front.length (limitTxs.toNat - held.length) records).isEmpty = false := by
      rw [List.isEmpty_eq_false_iff, ← List.length_pos_iff, hlen, List.length_pos_iff]
      exact hend
    have hfew : decide ((LevelDb.page front.length (limitTxs.toNat - held.length) records).length ≤
        limitTxs.toNat) = true := by
      rw [hlen, decide_eq_true_iff]
      exact (List.length_take_le _ _).trans (Nat.sub_le _ _)
    have hnext : UInt64.ofNat front.length +
        UInt64.ofNat (LevelDb.page front.length (limitTxs.toNat - held.length) records).length =
          indexOf (front ++ rest) (rest.drop (limitTxs.toNat - held.length)) := by
      unfold indexOf
      rw [← UInt64.ofNat_add, hlen, List.length_append, List.length_drop, List.length_take]
      congr 1
      omega
    rw [if_neg hend]
    simp only [hsome, hfew, hread, hfilter, hnext, check_true, Bool.false_eq_true, if_false]
    rfl

/-- **The loop** gathers what passes, if there is fuel for all that is left. -/
theorem getTxsForAddressLoop_eq {fuel : Nat} : ∀ {held rest : List TransactionInfo},
    rest <:+ txs → held.length < count.toNat → rest.length < fuel →
    w.getTxsForAddressLoop folder address count limitTxs filters fuel held (indexOf txs rest) =
      .ok (some ((gatherTxs address filters count limitTxs held rest).1,
        indexOf txs (gatherTxs address filters count limitTxs held rest).2)) := by
  induction fuel with
  | zero => exact fun _ _ hfuel => absurd hfuel (Nat.not_lt_zero _)
  | succ fuel ih =>
      intro held rest hrest hheld hfuel
      rw [getTxsForAddressLoop_round h haddress hcount hsmall hrest hheld]
      unfold gatherTxs
      by_cases hend : rest.take (limitTxs.toNat - held.length) = []
      · rw [if_pos hend, Paging.gather_of_end hend]
      · rw [if_neg hend, Paging.gather_of_next hend]
        simp only
        split
        · rfl
        · rename_i hmore
          -- something was read, so there is less to come
          have hshorter : (rest.drop (limitTxs.toNat - held.length)).length < rest.length := by
            rw [List.take_eq_nil_iff, not_or] at hend
            have hpos := List.length_pos_iff.mpr hend.2
            rw [List.length_drop]
            omega
          exact ih ((List.drop_suffix _ rest).trans hrest) (Nat.lt_of_not_le hmore) (by omega)

/-- **A call** gives a page of what it has gathered, the newest first, with the statuses. -/
theorem getTxsForAddressFilters_eq (haddrTxs : w.modules.addrTxs = true)
    {statusesVect : List TransactionStatus}
    (hstatuses : w.leveldb.findAddressStatus A = .ok statusesVect) (hpage : count ≠ 0)
    {rest : List TransactionInfo} (hrest : rest <:+ txs) {fuel : Nat} (hfuel : txs.length < fuel) :
    w.getTxsForAddressFilters folder address fuel (indexOf txs rest) count limitTxs filters =
      .ok (some (showPage folder statusesVect
          ((gatherTxs address filters count limitTxs [] rest).1.take count.toNat),
        indexOf txs (gatherTxs address filters count limitTxs [] rest).2)) := by
  have hpos : 0 < count.toNat := Nat.pos_of_ne_zero (fun hzero => hpage (UInt64.toNat_inj.mp hzero))
  have hheld : ([] : List TransactionInfo).length < count.toNat := hpos
  have hloop := getTxsForAddressLoop_eq h haddress hcount hsmall hrest hheld
    (Nat.lt_of_le_of_lt hrest.length_le hfuel)
  unfold getTxsForAddressFilters getTxsForAddressFiltersWithoutStatuses
  rw [haddrTxs, hloop]
  simp only [check_true, Bind.bind, Except.bind, Pure.pure, Except.pure, haddress, hstatuses]
  rfl

end Calls

/-! ## Call after call -/

/-- What a call gives that has enough fuel, and where it leaves off. -/
def GivesPage (w : WorkerMain) (folder : BlockFolder) (address : Address) (count limitTxs : UInt64)
    (filters : TransactionsFilters) (fromIndex : UInt64) (page : List TransactionInfo)
    (next : UInt64) : Prop :=
  ∃ enough, ∀ fuel, enough < fuel →
    w.getTxsForAddressFilters folder address fuel fromIndex count limitTxs filters =
      .ok (some (page, next))

/-- What passes of a stretch. -/
def passing (address : Address) (filters : TransactionsFilters) (stretch : List TransactionInfo) :
    List TransactionInfo :=
  stretch.filter (fun tx => decide (filters.Passes address.address tx))

theorem showPage_perm (folder : BlockFolder) (statusesVect : List TransactionStatus)
    (page : List TransactionInfo) :
    (showPage folder statusesVect page).Perm (page.map (fillStatuses statusesVect)) :=
  (folder.sort.perm page).map _

theorem showPage_eq_nil (folder : BlockFolder) (statusesVect : List TransactionStatus)
    (page : List TransactionInfo) : showPage folder statusesVect page = [] ↔ page = [] := by
  have hlen := (showPage_perm folder statusesVect page).length_eq
  rw [List.length_map] at hlen
  rw [← List.length_eq_zero_iff, hlen, List.length_eq_zero_iff]

theorem blockNumber_fillStatuses (statusesVect : List TransactionStatus) (tx : TransactionInfo) :
    (fillStatuses statusesVect tx).blockNumber = tx.blockNumber := by
  unfold fillStatuses fillStatusTransaction
  split_ifs
  · split <;> rfl
  · rfl

/-- The newest come first. -/
theorem showPage_newest (folder : BlockFolder) (statusesVect : List TransactionStatus)
    (page : List TransactionInfo) :
    (showPage folder statusesVect page).Pairwise
      (fun tx tx' => tx'.blockNumber ≤ tx.blockNumber) := by
  rw [showPage, List.pairwise_map]
  refine (folder.sort.sorted page).imp (fun {tx tx'} hnot => ?_)
  rw [blockNumber_fillStatuses, blockNumber_fillStatuses]
  exact not_lt.mp (decide_eq_false_iff_not.mp hnot)

theorem flatten_showPage_perm (folder : BlockFolder) (statusesVect : List TransactionStatus) :
    ∀ pages : List (List TransactionInfo),
      ((pages.map (showPage folder statusesVect)).flatten).Perm
        (pages.flatten.map (fillStatuses statusesVect))
  | [] => List.Perm.refl _
  | page :: pages => by
      rw [List.map_cons, List.flatten_cons, List.flatten_cons, List.map_append]
      exact (showPage_perm folder statusesVect page).append
        (flatten_showPage_perm folder statusesVect pages)

/-- **Page by page**: calls that go on from each other give a page of each stretch that is read. -/
theorem pages_of_history (h : StoredHistory w.leveldb folder filters.historyPrefix A records txs)
    (haddrTxs : w.modules.addrTxs = true) (haddress : address.toBdString = .ok A)
    {statusesVect : List TransactionStatus}
    (hstatuses : w.leveldb.findAddressStatus A = .ok statusesVect) (hpage : count ≠ 0)
    (hcount : count ≤ limitTxs) (hsmall : txs.length + limitTxs.toNat < 2 ^ 64) :
    ∃ stretches,
      Paging.Cut (fun tx => decide (filters.Passes address.address tx)) limitTxs.toNat txs
        stretches ∧
      Paging.Delivers (w.GivesPage folder address count limitTxs filters) 0
        (stretches.map (fun s =>
          showPage folder statusesVect ((passing address filters s).take count.toNat))) := by
  have hpos : count.toNat ≠ 0 := fun hzero => hpage (UInt64.toNat_inj.mp hzero)
  have hstart : indexOf txs txs = 0 := by
    unfold indexOf
    rw [Nat.sub_self]
    rfl
  rw [← hstart]
  refine Paging.delivers _ limitTxs.toNat count.toNat
    (fun l => showPage_eq_nil folder statusesVect l) hpos (UInt64.le_iff_toNat_le.mp hcount)
    (le_refl txs.length) (fun rest hrest => ⟨txs.length, fun fuel hfuel => ?_⟩)
  exact getTxsForAddressFilters_eq h haddress hcount hsmall haddrTxs hstatuses hpage hrest hfuel

/-! ## A stretch at once -/

/-- What a call without filters asks for. -/
def askedFor (fromIndex count limitTxs : UInt64) (txs : List TransactionInfo) :
    List TransactionInfo :=
  (txs.drop fromIndex.toNat).take
    (if count = 0 then limitTxs.toNat + 10 else min count.toNat (limitTxs.toNat + 10))

/-- **A call without filters** gives what it asks for, if that is less than the limit. -/
theorem getTxsForAddress_eq (h : StoredHistory w.leveldb folder ADDRESS_PREFIX A records txs)
    (haddrTxs : w.modules.addrTxs = true) (haddress : address.toBdString = .ok A)
    {statusesVect : List TransactionStatus}
    (hstatuses : w.leveldb.findAddressStatus A = .ok statusesVect)
    (fromIndex count limitTxs : UInt64) (hsmall : fromIndex.toNat + limitTxs.toNat + 10 < 2 ^ 64)
    (hlen : txs.length < 2 ^ 64) :
    w.getTxsForAddress folder address fromIndex count limitTxs =
      if (askedFor fromIndex count limitTxs txs).length < limitTxs.toNat then
        .ok (showPage folder statusesVect (askedFor fromIndex count limitTxs txs))
      else .error (.exception
        "Too many transactions in history. Please, request a history with chunks") := by
  obtain ⟨countLimited, hlimited⟩ : ∃ countLimited,
      min (if count = 0 then limitTxs + 10 else count) (limitTxs + 10) = countLimited := ⟨_, rfl⟩
  have hten : (limitTxs + 10).toNat = limitTxs.toNat + 10 := by
    rw [UInt64.toNat_add]
    exact Nat.mod_eq_of_lt (by simp; omega)
  -- The count that is asked for is never more than the limit and ten.
  have hcount : countLimited.toNat =
      if count = 0 then limitTxs.toNat + 10 else min count.toNat (limitTxs.toNat + 10) := by
    rw [← hlimited, ← hten]
    by_cases hzero : count = 0
    · rw [if_pos hzero, if_pos hzero, min_self]
    · rw [if_neg hzero, if_neg hzero]
      rcases le_total count (limitTxs + 10) with hle | hle
      · rw [min_eq_left hle, min_eq_left (UInt64.le_iff_toNat_le.mp hle)]
      · rw [min_eq_right hle, min_eq_right (UInt64.le_iff_toNat_le.mp hle)]
  have hpos : countLimited.toNat ≠ 0 := by
    rw [hcount]
    split
    · omega
    · rename_i hne
      have hne : count.toNat ≠ 0 := fun hzero => hne (UInt64.toNat_inj.mp hzero)
      omega
  have hle : countLimited.toNat ≤ limitTxs.toNat + 10 := by
    rw [hcount]
    split
    · exact le_refl _
    · exact min_le_right _ _
  have hlookup : w.leveldb.findAddress A fromIndex countLimited =
      .ok (LevelDb.page fromIndex.toNat countLimited.toNat records) :=
    h.findAddressUnder rfl (Address.getBinaryString_ne haddress) (fun _ => by omega) hlen
  have hread := h.readTxs fromIndex.toNat countLimited.toNat
  have hasked : LevelDb.page fromIndex.toNat countLimited.toNat txs =
      askedFor fromIndex count limitTxs txs := by
    rw [LevelDb.page, if_neg hpos, hcount]
    rfl
  have hsize : (LevelDb.page fromIndex.toNat countLimited.toNat records).length =
      (askedFor fromIndex count limitTxs txs).length := by
    rw [← hasked, LevelDb.page, LevelDb.page, if_neg hpos, if_neg hpos, List.length_take,
      List.length_drop, h.length_eq, List.length_take, List.length_drop]
  rw [hasked] at hread
  unfold getTxsForAddress getTxsForAddressWithoutStatuses
  rw [hlimited, haddrTxs]
  simp only [check_true, Bind.bind, Except.bind, haddress, hlookup, hsize]
  -- A page that reaches the limit is refused.
  by_cases hfew : (askedFor fromIndex count limitTxs txs).length < limitTxs.toNat
  · rw [decide_eq_true hfew, if_pos hfew]
    simp only [check_true, hread, hstatuses]
    rfl
  · rw [decide_eq_false hfew, if_neg hfew]
    rfl


/-! ## Along a run -/

/-- The transactions that a history shows, the newest first. -/
def shownHistory (folder : BlockFolder) (A : Blob) (blocks : List BlockInfo) :
    List TransactionInfo :=
  ((blocks.flatMap blockTxs).filter (concerns A)).reverse.map folder.shown

/-- What a run has written for an address is read as the transactions that concern it. -/
theorem storedHistory_of_holds {db : LevelDb} {n : Int} {blocks : List BlockInfo}
    (h : HoldsHistory db n (fun A => historyOf A blocks)) (hA : A.size = 25)
    (hstands : ∀ bi ∈ blocks, ∀ tx ∈ blockTxs bi, folder.Stands tx) :
    StoredHistory db folder ADDRESS_PREFIX A (historyOf A blocks) (shownHistory folder A blocks) := by
  have hall : ∀ tx ∈ (blocks.flatMap blockTxs).filter (concerns A), folder.Stands tx := by
    intro tx htx
    obtain ⟨bi, hbi, hin⟩ := List.mem_flatMap.mp (List.mem_of_mem_filter htx)
    exact hstands bi hbi tx hin
  have hrecords : historyOf A blocks =
      ((blocks.flatMap blockTxs).filter (concerns A)).reverse.map addressRecord :=
    List.map_reverse.symm
  refine ⟨h.entries A hA, ?_, ?_⟩
  · intro r hr
    rw [hrecords] at hr
    obtain ⟨tx, htx, rfl⟩ := List.mem_map.mp hr
    exact (hall tx (List.mem_reverse.mp htx)).named
  · rw [hrecords, shownHistory, List.map_map, List.map_map]
    exact List.map_congr_left
      (fun tx htx => (hall tx (List.mem_reverse.mp htx)).read_addressRecord)

theorem toBdString_of_size (hset : address.isSet = true) (hsize : address.address.size = 25) :
    address.toBdString = .ok address.address := by
  obtain ⟨name, hname⟩ : ∃ name, address.toBdString = .ok name := by
    unfold Address.toBdString Address.getBinaryString
    rw [hset]
    exact ⟨_, rfl⟩
  rw [hname, toBdString_eq hsize hname]

/-- **A history at once or in chunks.** In every run whose transactions stand in the block files,
a call gives the stretch of the history that it asks for, the newest first and with its statuses,
if that is less than the limit, and else fails; so chunks of one size give the history piece by
piece. -/
theorem history_in_chunks {d : LevelDb} {m : MainMemory} {blocks : List BlockInfo}
    (hrun : Reached w (fun n => 0 ≤ n) d m blocks) (haddrTxs : w.modules.addrTxs = true)
    (hwell : ∀ bi ∈ blocks, BlockWellAddressed bi)
    (hstands : ∀ bi ∈ blocks, ∀ tx ∈ blockTxs bi, folder.Stands tx)
    (hset : address.isSet = true) (hsize : address.address.size = 25)
    {statusesVect : List TransactionStatus}
    (hstatuses : d.findAddressStatus address.address = .ok statusesVect) :
    (∀ fromIndex count limitTxs : UInt64, fromIndex.toNat + limitTxs.toNat + 10 < 2 ^ 64 →
      (w.on d).getTxsForAddress folder address fromIndex count limitTxs =
        let asked :=
          askedFor fromIndex count limitTxs (shownHistory folder address.address blocks)
        if asked.length < limitTxs.toNat then .ok (showPage folder statusesVect asked)
        else .error (.exception
          "Too many transactions in history. Please, request a history with chunks")) ∧
    ∀ c k limit : Nat, c ≠ 0 → c < limit → k * c + limit + 10 < 2 ^ 64 → ∃ pages,
      (List.range k).mapM (fun i => (w.on d).getTxsForAddress folder address
        (UInt64.ofNat (i * c)) (UInt64.ofNat c) (UInt64.ofNat limit)) = .ok pages ∧
      (∀ page ∈ pages, page.Pairwise (fun tx tx' => tx'.blockNumber ≤ tx.blockNumber)) ∧
      pages.flatten.Perm (((shownHistory folder address.address blocks).take (k * c)).map
        (fillStatuses statusesVect)) := by
  have hholds := (history_kept haddrTxs hrun hwell).holds
  have hstored := storedHistory_of_holds hholds hsize hstands
  have hlen : (shownHistory folder address.address blocks).length < 2 ^ 64 := by
    rw [← hstored.length_under]
    exact hholds.length_lt hrun.countVal_nonneg hsize
  have hcall : ∀ fromIndex count limitTxs : UInt64,
      fromIndex.toNat + limitTxs.toNat + 10 < 2 ^ 64 → _ := fun fromIndex count limitTxs hsmall =>
    getTxsForAddress_eq (w := w.on d) hstored haddrTxs (toBdString_of_size hset hsize) hstatuses
      fromIndex count limitTxs hsmall hlen
  -- One call first; then the pages of `k` calls, which are the cuts of one list.
  refine ⟨hcall, ?_⟩
  intro c k limit hc hlimit hsmall
  refine ⟨(List.range k).map (fun i => showPage folder statusesVect
      (LevelDb.page (i * c) c (shownHistory folder address.address blocks))),
    mapM_eq_ok (fun i hi => ?_), ?_, ?_⟩
  · have hik : (i + 1) * c ≤ k * c := Nat.mul_le_mul_right c (List.mem_range.mp hi)
    rw [Nat.succ_mul] at hik
    have hi' : (UInt64.ofNat (i * c)).toNat = i * c := toNat_ofNat_of_lt (by omega)
    have hc' : (UInt64.ofNat c).toNat = c := toNat_ofNat_of_lt (by omega)
    have hlimit' : (UInt64.ofNat limit).toNat = limit := toNat_ofNat_of_lt (by omega)
    have hzero : UInt64.ofNat c ≠ 0 := by
      intro h
      rw [h] at hc'
      exact hc hc'.symm
    have hpage : askedFor (UInt64.ofNat (i * c)) (UInt64.ofNat c) (UInt64.ofNat limit)
        (shownHistory folder address.address blocks) =
          LevelDb.page (i * c) c (shownHistory folder address.address blocks) := by
      rw [askedFor, if_neg hzero, hi', hc', hlimit', min_eq_left (by omega), LevelDb.page, if_neg hc]
    have hfew : (LevelDb.page (i * c) c
        (shownHistory folder address.address blocks)).length < limit := by
      rw [LevelDb.page, if_neg hc]
      exact (List.length_take_le _ _).trans_lt hlimit
    rw [hcall _ _ _ (by rw [hi', hlimit']; omega), hpage, hlimit', if_pos hfew]
  · intro page hpage
    obtain ⟨i, -, rfl⟩ := List.mem_map.mp hpage
    exact showPage_newest folder statusesVect _
  · have hflat := flatten_showPage_perm folder statusesVect ((List.range k).map
      (fun i => LevelDb.page (i * c) c (shownHistory folder address.address blocks)))
    rwa [LevelDb.flatten_pages _ hc, List.map_map] at hflat

/--
**A history in pages, with filters.** In every run whose transactions stand in the block
files, calls that go on from each other until one gives nothing deliver pages, each with
the newest first; they ask for something, for no more than the limit, and not for the
transactions of a token. What they read is cut into stretches of which none holds more
than the limit, and the page of a stretch is what fits on a page of all that passes: so
all that passes the filters is delivered, with its statuses and nothing twice, exactly if
no stretch holds more than a page, which is so for pages as large as the limit.
-/
theorem filtered_history_pages {d : LevelDb} {m : MainMemory} {blocks : List BlockInfo}
    (hrun : Reached w (fun n => 0 ≤ n) d m blocks) (haddrTxs : w.modules.addrTxs = true)
    (hwell : ∀ bi ∈ blocks, BlockWellAddressed bi)
    (hstands : ∀ bi ∈ blocks, ∀ tx ∈ blockTxs bi, folder.Stands tx)
    (hset : address.isSet = true) (hsize : address.address.size = 25)
    (htokens : filters.isTokens ≠ .true) (hpage : count ≠ 0) (hcount : count ≤ limitTxs)
    (hsmall : (shownHistory folder address.address blocks).length + limitTxs.toNat < 2 ^ 64)
    {statusesVect : List TransactionStatus}
    (hstatuses : d.findAddressStatus address.address = .ok statusesVect) :
    ∃ stretches pages,
      Paging.Cut (fun tx => decide (filters.Passes address.address tx)) limitTxs.toNat
        (shownHistory folder address.address blocks) stretches ∧
      pages = stretches.map (fun s =>
        showPage folder statusesVect ((passing address filters s).take count.toNat)) ∧
      Paging.Delivers ((w.on d).GivesPage folder address count limitTxs filters) 0 pages ∧
      (∀ page ∈ pages, page.length ≤ count.toNat ∧
        page.Pairwise (fun tx tx' => tx'.blockNumber ≤ tx.blockNumber)) ∧
      (pages.flatten.Perm ((passing address filters
          (shownHistory folder address.address blocks)).map (fillStatuses statusesVect)) ↔
        ∀ s ∈ stretches, (passing address filters s).length ≤ count.toNat) ∧
      (count = limitTxs → pages.flatten.Perm ((passing address filters
        (shownHistory folder address.address blocks)).map (fillStatuses statusesVect))) := by
  have hholds := (history_kept haddrTxs hrun hwell).holds
  have hstored : StoredHistory (w.on d).leveldb folder filters.historyPrefix address.address
      (historyOf address.address blocks) (shownHistory folder address.address blocks) := by
    rw [TransactionsFilters.historyPrefix, if_neg htokens]
    exact storedHistory_of_holds hholds hsize hstands
  have haddress := toBdString_of_size hset hsize
  obtain ⟨stretches, hcut, hdelivers⟩ := pages_of_history (w := w.on d) hstored haddrTxs haddress
    hstatuses hpage hcount hsmall
  have hpages : (stretches.map (fun s => (passing address filters s).take count.toNat)).map
      (showPage folder statusesVect) = stretches.map (fun s =>
        showPage folder statusesVect ((passing address filters s).take count.toNat)) :=
    List.map_map
  rw [← hpages] at hdelivers
  have hflat := flatten_showPage_perm folder statusesVect
    (stretches.map (fun s => (passing address filters s).take count.toNat))
  -- Nothing is lost if no stretch has more matches than a page takes,
  have hlossless : (∀ s ∈ stretches, (passing address filters s).length ≤ count.toNat) →
      ((stretches.map (fun s => (passing address filters s).take count.toNat)).map
        (showPage folder statusesVect)).flatten.Perm
        ((passing address filters (shownHistory folder address.address blocks)).map
          (fillStatuses statusesVect)) := by
    intro hwithin
    have hall := Paging.pages_of_within hwithin
    have hfilter := hcut.filter_eq
    unfold passing at hflat ⊢
    rw [hall] at hflat ⊢
    rwa [hfilter]
  refine ⟨stretches, _, hcut, hpages, hdelivers, ?_, ⟨?_, hlossless⟩, ?_⟩
  · intro page hin
    obtain ⟨matched, hmatched, rfl⟩ := List.mem_map.mp hin
    obtain ⟨s, -, rfl⟩ := List.mem_map.mp hmatched
    refine ⟨?_, ?_⟩
    · rw [(showPage_perm folder statusesVect _).length_eq, List.length_map]
      exact List.length_take_le _ _
    · exact showPage_newest folder statusesVect _
  -- and something is lost otherwise, by the lengths.
  · intro hperm
    refine (Paging.lossless_iff stretches).mp ?_
    have hlen := (hflat.symm.trans hperm).length_eq
    rw [List.length_map, List.length_map, passing, hcut.filter_eq] at hlen
    exact hlen
  · rintro rfl
    exact hlossless (hcut.within_of_limit (le_refl _))

/-! ## A block that was saved -/

/-- What synchronization records for a transaction is where it stands, however the files have
grown since. -/
theorem stands_of_found {files : Blob → Option Bytes} {tx : TransactionInfo}
    (h : tx.FoundIn folder.env files) (hname : tx.filePos.fileNameRelative ≠ ∅)
    (hopen : ∀ file, files tx.filePos.fileNameRelative = some file →
      ∃ later : Blob, file <+: later.val ∧
        folder.openFile tx.filePos.fileNameRelative = .ok later.val) : folder.Stands tx := by
  obtain ⟨file, hfile, hread⟩ := h
  obtain ⟨later, hlater, hopened⟩ := hopen file hfile
  exact ⟨hname, later, hopened, hread later hlater⟩

/-- A stable sort is one. -/
def newestFirst : StdSortBy TransactionInfo isNewer where
  sort l := l.mergeSort (fun tx tx' => decide (tx'.blockNumber ≤ tx.blockNumber))
  perm l := List.mergeSort_perm l _
  sorted l := by
    refine (List.pairwise_mergeSort (fun _ _ _ h h' => ?_) (fun tx tx' => ?_) l).imp ?_
    · exact decide_eq_true (le_trans (of_decide_eq_true h') (of_decide_eq_true h))
    · rw [Bool.or_eq_true, decide_eq_true_iff, decide_eq_true_iff]
      exact le_total _ _
    · intro tx tx' h
      exact decide_eq_false (not_lt.mpr (of_decide_eq_true h))

/-- A simple block of a transaction to oneself and another one. -/
def commonBlock : Blob :=
  ⟨[1, 35, 69, 103] ++ signedBlock.val.drop 4, by decide +kernel⟩

/-- What it is read as. -/
def commonBlockInfo : BlockInfo :=
  (parseSimpleBlock zeroEnv ⟨false, true, 0, 0⟩ 0 commonBlock).toOption.getD default

/-- A block with one transaction, in a file with a name. -/
def namedCommonBlock : BlockInfo :=
  commonBlockInfo.saveFilePath ⟨ascii ['b', 'l', 'k'], Blob.blk_fits⟩

/-- The block and the files once it has been appended. -/
def savedState : BlockInfo × SyncImpl :=
  ((SyncImpl.fresh true).saveTransactions namedCommonBlock commonBlock true).toOption.getD
    (default, SyncImpl.fresh true)

/-- The block in the chain. -/
def savedBlock : BlockInfo where
  header := { savedState.1.header with blockNumber := some 1 }
  txs := savedState.1.txs.map (fun tx => { tx with blockNumber := 1 })

/-- The block files, as they are. -/
def folderOf (files : OrdMap Blob Bytes) : BlockFolder where
  env := zeroEnv
  memory _ := 7
  openFile name := (files.find? name).elim (.error (.exception "File not opened")) .ok
  sort := newestFirst

theorem openFile_folderOf {files : OrdMap Blob Bytes} {name : Blob} {bytes : Bytes}
    (h : files.find? name = some bytes) : (folderOf files).openFile name = .ok bytes := by
  show (files.find? name).elim _ _ = _
  rw [h]
  rfl

theorem folderOf_stands : ∀ tx ∈ savedState.1.txs,
    (folderOf savedState.2.files).Stands { tx with blockNumber := 1 } := by
  have hsave : (SyncImpl.fresh true).saveTransactions namedCommonBlock commonBlock true =
      .ok (savedState.1, savedState.2) := rfl
  have htxs : namedCommonBlock.txs = commonBlockInfo.txs := by
    rw [namedCommonBlock, BlockInfo.saveFilePath]
  have hparse : parseNextBlockInfo zeroEnv ⟨false, true, 0, 0⟩ 0 commonBlock =
      .ok (.block commonBlockInfo) :=
    parseNextBlockInfo_block.mpr ⟨by decide +kernel, by decide +kernel, by decide +kernel⟩
  have hfound : ∀ tx ∈ savedState.1.txs, tx.FoundIn zeroEnv savedState.2.files.find? :=
    saveTransactions_found hparse htxs hsave
  have hnamed : ∀ tx ∈ savedState.1.txs,
      tx.filePos.fileNameRelative = ⟨ascii ['b', 'l', 'k'], Blob.blk_fits⟩ := by decide +kernel
  have hsmall : ∀ bytes, savedState.2.files.find? ⟨ascii ['b', 'l', 'k'], Blob.blk_fits⟩ =
      some bytes → bytes.length < 2 ^ 63 := by
    intro bytes hbytes
    have hlen : ((savedState.2.files.find? ⟨ascii ['b', 'l', 'k'], Blob.blk_fits⟩).map
      List.length).getD 0 < 2 ^ 63 := by decide +kernel
    rwa [hbytes] at hlen
  intro tx htx
  have hname := hnamed tx htx
  have hstands : (folderOf savedState.2.files).Stands tx := stands_of_found (hfound tx htx)
    (by rw [hname]; decide) (fun file hfile => ⟨⟨file, hsmall file (hname ▸ hfile)⟩,
      List.prefix_refl _, openFile_folderOf hfile⟩)
  exact ⟨hstands.named, hstands.found⟩

/-- Nothing is asked for but transactions to the address. -/
def toAddressOnly : TransactionsFilters := ⟨.none, .none, .true, .none, .none, .none, .none⟩

/-- Its receiver. -/
def zeroAddress : Address := Address.ofBlob (Blob.replicate 25 0 Blob.address_fits)

/-- What the worker has after the block. -/
def savedRound : Outcome (List (Option TransactionStatus)) × LevelDb × MainMemory :=
  (plainAddrTxs.on ∅).worker (startMemory default) savedBlock

theorem savedRound_reached :
    Reached plainAddrTxs (fun n => 0 ≤ n) savedRound.2.1 savedRound.2.2 [savedBlock] := by
  unfold savedRound
  exact Reached.next Reached.start savedBlock (by decide +kernel) (by decide +kernel)

theorem savedBlock_stands :
    ∀ bi ∈ [savedBlock], ∀ tx ∈ blockTxs bi, (folderOf savedState.2.files).Stands tx := by
  intro bi hbi
  have hsimple : (savedBlock.header.isForgingBlock || savedBlock.header.isSimpleBlock) = true := by
    decide +kernel
  have htxs : savedBlock.txs = savedState.1.txs.map (fun tx => { tx with blockNumber := 1 }) := by
    unfold savedBlock
    simp only
  rw [List.mem_singleton.mp hbi, blockTxs, if_pos hsimple, htxs, List.forall_mem_map]
  exact folderOf_stands

theorem filtered_history_pages_one : ∃ pages,
    Paging.Delivers ((plainAddrTxs.on savedRound.2.1).GivesPage (folderOf savedState.2.files)
      zeroAddress 1 1 toAddressOnly) 0 pages ∧
    pages.flatten.Perm ((passing zeroAddress toAddressOnly (shownHistory
      (folderOf savedState.2.files) zeroAddress.address [savedBlock])).map (fillStatuses [])) ∧
    pages.flatten.length = 2 := by
  obtain ⟨_, pages, _, _, hdelivers, _, _, hall⟩ := @filtered_history_pages plainAddrTxs
    (folderOf savedState.2.files) zeroAddress toAddressOnly 1 1 _ _ _ savedRound_reached rfl
    (by decide +kernel) savedBlock_stands rfl rfl (by decide) (by decide) (le_refl _)
    (by decide +kernel) [] (by decide +kernel)
  refine ⟨pages, hdelivers, hall rfl, ?_⟩
  rw [(hall rfl).length_eq]
  decide +kernel

theorem history_in_chunks_one :
    (plainAddrTxs.on savedRound.2.1).getTxsForAddress (folderOf savedState.2.files) zeroAddress
        0 0 2 = .error (.exception
          "Too many transactions in history. Please, request a history with chunks") ∧
    ∃ pages, (List.range 2).mapM (fun i => (plainAddrTxs.on savedRound.2.1).getTxsForAddress
        (folderOf savedState.2.files) zeroAddress (UInt64.ofNat (i * 1)) (UInt64.ofNat 1)
        (UInt64.ofNat 2)) = .ok pages ∧
      pages.flatten.Perm ((shownHistory (folderOf savedState.2.files) zeroAddress.address
        [savedBlock]).map (fillStatuses [])) := by
  obtain ⟨hcall, hchunks⟩ := @history_in_chunks plainAddrTxs (folderOf savedState.2.files)
    zeroAddress _ _ _ savedRound_reached rfl (by decide +kernel) savedBlock_stands rfl rfl []
    (by decide +kernel)
  refine ⟨?_, ?_⟩
  · rw [hcall 0 0 2 (by decide)]
    simp only
    rw [if_neg (by decide +kernel)]
  · obtain ⟨pages, hpages, _, hperm⟩ := hchunks 1 2 2 (by decide) (by decide) (by decide)
    have htwo : (shownHistory (folderOf savedState.2.files) zeroAddress.address
        [savedBlock]).length ≤ 2 * 1 := by decide +kernel
    rw [List.take_of_length_le htwo] at hperm
    exact ⟨pages, hpages, hperm⟩

end WorkerMain

end TorrentNode
