import TorrentNode.BlockSource.PreLoad

/-!
# What is left of an answer that is not whole

`addPreLoadBlocks` fills the two caches while it still checks the answer. What it had
put in stays there when a later check fails, and the dumps of the blocks are taken
without a look at how many there are.
-/

namespace TorrentNode

namespace GetNewBlocksFromServer

/-- The headers with the numbers that they are kept under. -/
def numbered (n : Nat) (headers : List MinimumBlockHeader) : List (Nat × MinimumBlockHeader) :=
  (List.range' n headers.length).zip headers

/-- The headers have the numbers from `n` on. -/
def Consecutive (n : Nat) (headers : List MinimumBlockHeader) : Prop :=
  headers.map MinimumBlockHeader.number = List.range' n headers.length

/-- The first header has a wrong number. -/
def FirstWrong (n : Nat) (headers : List MinimumBlockHeader) : Prop :=
  ∃ header ∈ headers.head?, header.number ≠ n

/-! ## The loop over the headers -/

/-- Headers that fit are kept, each with a dump. -/
theorem addPreLoadHeaders_fit : ∀ {headers : List MinimumBlockHeader} {dumps : List Blob} {n : Nat}
    {g : GetNewBlocksFromServer}, Consecutive n headers → headers.length ≤ dumps.length →
      addPreLoadHeaders n headers dumps g =
        (.ok (), (g.keepDumps ((headers.map MinimumBlockHeader.hash).zip dumps)).withHeaders
          (g.advancedLoadsBlocksHeaders ++ numbered n headers))
  | [], dumps, n, g, _, _ => by
      rw [addPreLoadHeaders, numbered, List.length_nil, List.range'_zero, List.zip_nil_left,
        List.append_nil]
      rfl
  | header :: headers, [], n, g, _, hlen => absurd hlen (by simp)
  | header :: headers, dump :: dumps, n, g, hnum, hlen => by
      unfold Consecutive at hnum
      rw [List.map_cons, List.length_cons, List.range'_succ, List.cons.injEq] at hnum
      have hrest := @addPreLoadHeaders_fit headers dumps (n + 1)
        { g.keepDumps [(header.hash, dump)] with
          advancedLoadsBlocksHeaders := g.advancedLoadsBlocksHeaders ++ [(n, header)] } hnum.2
        (Nat.le_of_succ_le_succ hlen)
      rw [addPreLoadHeaders, if_pos hnum.1]
      simp only [hrest, numbered, List.length_cons, List.range'_succ, List.zip_cons_cons,
        List.append_assoc, List.singleton_append]
      rfl

/-- Headers that do not fit: the loop reads behind the end of the dumps, or it fails at the first
header, or it has kept some header before it fails. -/
theorem addPreLoadHeaders_misfit : ∀ {headers : List MinimumBlockHeader} {dumps : List Blob}
    {n : Nat} {g : GetNewBlocksFromServer},
    ¬(Consecutive n headers ∧ headers.length ≤ dumps.length) →
      ∃ e g', addPreLoadHeaders n headers dumps g = (.error e, g') ∧
        (e = .std "out_of_range" ∧ ¬FirstWrong n headers ∨
          (∃ msg, e = .exception msg) ∧
            (g' = g ∧ FirstWrong n headers ∨
              g.advancedLoadsBlocksHeaders.length < g'.advancedLoadsBlocksHeaders.length ∧
                ¬FirstWrong n headers))
  | [], dumps, n, g, h => absurd ⟨rfl, Nat.zero_le _⟩ h
  | header :: headers, dumps, n, g, h => by
      -- The first header is taken, or it is the one with the wrong number.
      by_cases hnum : header.number = n
      · have hright : ¬FirstWrong n (header :: headers) := by
          rintro ⟨header', hmem, hwrong⟩
          obtain rfl := Option.some.inj hmem
          exact hwrong hnum
        cases dumps with
        | nil =>
            refine ⟨.std "out_of_range", g, ?_, Or.inl ⟨rfl, hright⟩⟩
            rw [addPreLoadHeaders, if_pos hnum]
        | cons dump dumps =>
            have hrest : ¬(Consecutive (n + 1) headers ∧ headers.length ≤ dumps.length) := by
              rintro ⟨hcons, hlen⟩
              refine h ⟨?_, Nat.succ_le_succ hlen⟩
              unfold Consecutive at hcons ⊢
              rw [List.map_cons, List.length_cons, List.range'_succ, hcons, hnum]
            obtain ⟨e, g', hrun, hcase⟩ := @addPreLoadHeaders_misfit headers dumps (n + 1)
              { g.keepDumps [(header.hash, dump)] with
                advancedLoadsBlocksHeaders := g.advancedLoadsBlocksHeaders ++ [(n, header)] } hrest
            refine ⟨e, g', ?_, ?_⟩
            · rw [addPreLoadHeaders, if_pos hnum]
              exact hrun
            -- What the rest has kept is kept together with the first header.
            · rcases hcase with ⟨he, -⟩ | ⟨hexc, hkept⟩
              · exact Or.inl ⟨he, hright⟩
              · refine Or.inr ⟨hexc, Or.inr ⟨?_, hright⟩⟩
                rcases hkept with ⟨rfl, -⟩ | ⟨hlonger, -⟩
                · simp
                · simp only [List.length_append, List.length_singleton] at hlonger
                  omega
      · refine ⟨.exception ("Incorrect block number in answer: " ++ toString header.number ++ " " ++
          toString n), g, ?_, Or.inr ⟨⟨_, rfl⟩, Or.inl ⟨rfl, header, rfl, hnum⟩⟩⟩
        unfold addPreLoadHeaders
        rw [if_neg hnum]

/-! ## The loops over the hashes of sign blocks -/

/-- A hash without a dump ends the loop; what comes before it is kept. -/
theorem addPreLoadDumps_short : ∀ {hashes dumps : List Blob} {g : GetNewBlocksFromServer},
    dumps.length < hashes.length → addPreLoadDumps hashes dumps g =
      (.error (.exception "Incorrect index"), g.keepDumps (hashes.zip dumps))
  | [], dumps, g, h => absurd h (Nat.not_lt_zero _)
  | hash :: hashes, [], g, _ => rfl
  | hash :: hashes, dump :: dumps, g, h => by
      rw [addPreLoadDumps, addPreLoadDumps_short (Nat.lt_of_succ_lt_succ h), keepDumps_append]
      rfl

/-! ## The whole answer -/

/-- The three strings are parsed. -/
structure Parsed (net : Net) (isCompress : Bool) (headersStr additingStr dumpsStr : Blob)
    (headers : List MinimumBlockHeader) (additing dumps : List Blob) : Prop where
  headers : net.messages.parseBlocksHeader headersStr = .ok headers
  additing : net.messages.parseAdditionalBlockHashes additingStr = .ok additing
  dumps : net.messages.parseDumpBlocksBinary dumpsStr isCompress = .ok dumps

/-- One of the three strings is not parsed, and the first of them throws `e`. -/
inductive Unparsed (net : Net) (isCompress : Bool) (headersStr additingStr dumpsStr : Blob) :
    Err → Prop where
  | headers {e : Err} : net.messages.parseBlocksHeader headersStr = .error e →
      Unparsed net isCompress headersStr additingStr dumpsStr e
  | additing {headers : List MinimumBlockHeader} {e : Err} :
      net.messages.parseBlocksHeader headersStr = .ok headers →
      net.messages.parseAdditionalBlockHashes additingStr = .error e →
      Unparsed net isCompress headersStr additingStr dumpsStr e
  | dumps {headers : List MinimumBlockHeader} {additing : List Blob} {e : Err} :
      net.messages.parseBlocksHeader headersStr = .ok headers →
      net.messages.parseAdditionalBlockHashes additingStr = .ok additing →
      net.messages.parseDumpBlocksBinary dumpsStr isCompress = .error e →
      Unparsed net isCompress headersStr additingStr dumpsStr e

variable {net : Net} {g : GetNewBlocksFromServer} {n : Nat} {headersStr additingStr dumpsStr : Blob}
  {headers : List MinimumBlockHeader} {additing dumps : List Blob}

theorem parsed_or_unparsed (net : Net) (isCompress : Bool) (headersStr additingStr dumpsStr : Blob) :
    (∃ headers additing dumps,
      Parsed net isCompress headersStr additingStr dumpsStr headers additing dumps) ∨
    ∃ e, Unparsed net isCompress headersStr additingStr dumpsStr e := by
  cases hheaders : net.messages.parseBlocksHeader headersStr with
  | error e => exact Or.inr ⟨e, .headers hheaders⟩
  | ok headers =>
      cases hadditing : net.messages.parseAdditionalBlockHashes additingStr with
      | error e => exact Or.inr ⟨e, .additing hheaders hadditing⟩
      | ok additing =>
          cases hdumps : net.messages.parseDumpBlocksBinary dumpsStr isCompress with
          | error e => exact Or.inr ⟨e, .dumps hheaders hadditing hdumps⟩
          | ok dumps => exact Or.inl ⟨headers, additing, dumps, hheaders, hadditing, hdumps⟩

theorem tryAddPreLoadBlocks_unparsed {e : Err}
    (h : Unparsed net g.isCompress headersStr additingStr dumpsStr e) :
    g.tryAddPreLoadBlocks net n headersStr additingStr dumpsStr = (.error e, g) := by
  unfold tryAddPreLoadBlocks
  cases h with
  | headers hheaders => rw [hheaders]; rfl
  | additing hheaders hadditing => rw [hheaders, hadditing]; rfl
  | dumps hheaders hadditing hdumps => rw [hheaders, hadditing, hdumps]; rfl

theorem tryAddPreLoadBlocks_misfit {e : Err} {g' : GetNewBlocksFromServer}
    (h : Parsed net g.isCompress headersStr additingStr dumpsStr headers additing dumps)
    (hrun : addPreLoadHeaders n headers dumps g = (.error e, g')) :
    g.tryAddPreLoadBlocks net n headersStr additingStr dumpsStr = (.error e, g') := by
  unfold tryAddPreLoadBlocks
  rw [h.headers, h.additing, h.dumps]
  simp only [Bind.bind, Except.bind, Pure.pure, Except.pure, hrun]

/-- **With headers that fit** all that has a dump is kept, also when the counts do not agree. -/
theorem tryAddPreLoadBlocks_fit
    (h : Parsed net g.isCompress headersStr additingStr dumpsStr headers additing dumps)
    (hnum : Consecutive n headers) (hlen : headers.length ≤ dumps.length) :
    ∃ r, g.tryAddPreLoadBlocks net n headersStr additingStr dumpsStr =
      (r, (g.keepDumps ((preLoadKeys headers additing).zip dumps)).withHeaders
        (g.advancedLoadsBlocksHeaders ++ numbered n headers)) ∧
      if (preLoadKeys headers additing).length = dumps.length then r = .ok additing
      else ∃ msg, r = .error (.exception msg) := by
  have hkeys : (preLoadKeys headers additing).length = headers.length +
      (headers.flatMap (fun h => OrdSet.toList h.prevExtraBlocks) ++ additing).length := by
    rw [preLoadKeys, List.length_append, List.length_map]
  have hzip := zip_append_left (headers.map MinimumBlockHeader.hash)
    (headers.flatMap (fun h => OrdSet.toList h.prevExtraBlocks) ++ additing) dumps
  rw [List.length_map] at hzip
  have hdrop : (dumps.drop headers.length).length = dumps.length - headers.length :=
    List.length_drop
  have hheads := addPreLoadHeaders_fit (g := g) hnum hlen
  unfold tryAddPreLoadBlocks
  simp only [h.headers, h.additing, h.dumps, Bind.bind, Except.bind, Pure.pure, Except.pure, hheads]
  -- Too few dumps, as many as there are keys, or more of them.
  by_cases hshort : (dumps.drop headers.length).length <
      (headers.flatMap (fun h => OrdSet.toList h.prevExtraBlocks) ++ additing).length
  · have hall : ¬(preLoadKeys headers additing).length = dumps.length := by omega
    rw [addPreLoadDumps_short hshort, keepDumps_withHeaders, keepDumps_append, ← hzip]
    simp only [if_neg hall]
    exact ⟨_, rfl, _, rfl⟩
  · rw [addPreLoadDumps_eq (Nat.le_of_not_lt hshort), keepDumps_withHeaders, keepDumps_append,
      ← hzip]
    by_cases hall : (preLoadKeys headers additing).length = dumps.length
    · have hnil : (dumps.drop headers.length).drop
          (headers.flatMap (fun h => OrdSet.toList h.prevExtraBlocks) ++ additing).length = [] := by
        rw [List.drop_eq_nil_iff]
        omega
      simp only [if_pos hall, if_pos hnil]
      exact ⟨_, rfl, rfl⟩
    · have hrest : (dumps.drop headers.length).drop
          (headers.flatMap (fun h => OrdSet.toList h.prevExtraBlocks) ++ additing).length ≠ [] := by
        rw [Ne, List.drop_eq_nil_iff]
        omega
      simp only [if_neg hall, if_neg hrest]
      exact ⟨_, rfl, _, rfl⟩

/-! ## All or nothing -/

/-- Each header is kept under its number, and each hash that the answer announces with its dump. -/
def Stored (g : GetNewBlocksFromServer) (n : Nat) (headers : List MinimumBlockHeader)
    (additing dumps : List Blob) : Prop :=
  (∀ e ∈ numbered n headers, e ∈ g.advancedLoadsBlocksHeaders) ∧
    (preLoadKeys headers additing).length = dumps.length ∧
    ∀ e ∈ (preLoadKeys headers additing).zip dumps,
      g.advancedLoadsBlocksDumps.find? e.1 = some e.2

/-- The caches are those from before. -/
def SameCaches (g g' : GetNewBlocksFromServer) : Prop :=
  g'.advancedLoadsBlocksHeaders = g.advancedLoadsBlocksHeaders ∧
    g'.advancedLoadsBlocksDumps = g.advancedLoadsBlocksDumps

/-- What a call promises: it stores all, or it catches an exception and leaves the caches alone.
Nothing else is thrown, and nothing is read behind the end of the dumps. -/
def AllOrNothing (net : Net) (g : GetNewBlocksFromServer) (n : Nat)
    (headersStr additingStr dumpsStr : Blob) : Prop :=
  match g.tryAddPreLoadBlocks net n headersStr additingStr dumpsStr with
  | (.ok hashes, g') =>
    g.addPreLoadBlocks net n headersStr additingStr dumpsStr = (.ok hashes, g') ∧
      ∃ headers additing dumps,
        Parsed net g.isCompress headersStr additingStr dumpsStr headers additing dumps ∧
          g'.Stored n headers additing dumps
  | (.error (.exception _), g') =>
    g.addPreLoadBlocks net n headersStr additingStr dumpsStr = (.ok [], g') ∧ g.SameCaches g'
  | (.error _, _) => False

/-- No hash comes with two dumps. -/
def OneDump (hashes dumps : List Blob) : Prop :=
  ∀ e ∈ hashes.zip dumps, ∀ e' ∈ hashes.zip dumps, e.1 = e'.1 → e.2 = e'.2

/-- The answers that are whole, and those that fail before anything is put in: a string that does
not parse, a wrong number in front, or hashes alone whose dumps the cache has already. -/
def Whole (net : Net) (g : GetNewBlocksFromServer) (n : Nat)
    (headersStr additingStr dumpsStr : Blob) : Prop :=
  (∃ msg, Unparsed net g.isCompress headersStr additingStr dumpsStr (.exception msg)) ∨
  ∃ headers additing dumps,
    Parsed net g.isCompress headersStr additingStr dumpsStr headers additing dumps ∧
      (FirstWrong n headers ∨
        Consecutive n headers ∧ (preLoadKeys headers additing).length = dumps.length ∧
          OneDump (preLoadKeys headers additing) dumps ∨
        headers = [] ∧ additing.length ≠ dumps.length ∧
          g.keepDumps (additing.zip dumps) = g)

theorem Parsed.unique {isCompress : Bool} {headers' : List MinimumBlockHeader}
    {additing' dumps' : List Blob}
    (h : Parsed net isCompress headersStr additingStr dumpsStr headers additing dumps)
    (h' : Parsed net isCompress headersStr additingStr dumpsStr headers' additing' dumps') :
    headers' = headers ∧ additing' = additing ∧ dumps' = dumps := by
  refine ⟨?_, ?_, ?_⟩
  · exact Except.ok.inj (h'.headers.symm.trans h.headers)
  · exact Except.ok.inj (h'.additing.symm.trans h.additing)
  · exact Except.ok.inj (h'.dumps.symm.trans h.dumps)

theorem Parsed.not_unparsed {isCompress : Bool} {e : Err}
    (h : Parsed net isCompress headersStr additingStr dumpsStr headers additing dumps) :
    ¬Unparsed net isCompress headersStr additingStr dumpsStr e := by
  intro h'
  cases h' with
  | headers hheaders => cases hheaders.symm.trans h.headers
  | additing _ hadditing => cases hadditing.symm.trans h.additing
  | dumps _ _ hdumps => cases hdumps.symm.trans h.dumps

theorem Unparsed.unique {isCompress : Bool} {e e' : Err}
    (h : Unparsed net isCompress headersStr additingStr dumpsStr e)
    (h' : Unparsed net isCompress headersStr additingStr dumpsStr e') : e' = e := by
  cases h with
  | headers hheaders =>
      cases h' with
      | headers hheaders' => exact Except.error.inj (hheaders'.symm.trans hheaders)
      | additing hheaders' => cases hheaders'.symm.trans hheaders
      | dumps hheaders' => cases hheaders'.symm.trans hheaders
  | additing hheaders hadditing =>
      cases h' with
      | headers hheaders' => cases hheaders'.symm.trans hheaders
      | additing _ hadditing' => exact Except.error.inj (hadditing'.symm.trans hadditing)
      | dumps _ hadditing' => cases hadditing'.symm.trans hadditing
  | dumps hheaders hadditing hdumps =>
      cases h' with
      | headers hheaders' => cases hheaders'.symm.trans hheaders
      | additing _ hadditing' => cases hadditing'.symm.trans hadditing
      | dumps _ _ hdumps' => exact Except.error.inj (hdumps'.symm.trans hdumps)

/-- The condition, once it is known what the strings parse to. -/
theorem Parsed.whole_iff
    (h : Parsed net g.isCompress headersStr additingStr dumpsStr headers additing dumps) :
    g.Whole net n headersStr additingStr dumpsStr ↔
      FirstWrong n headers ∨
        Consecutive n headers ∧ (preLoadKeys headers additing).length = dumps.length ∧
          OneDump (preLoadKeys headers additing) dumps ∨
        headers = [] ∧ additing.length ≠ dumps.length ∧
          g.keepDumps (additing.zip dumps) = g := by
  constructor
  · intro hwhole
    rcases hwhole with ⟨msg, hunparsed⟩ | ⟨headers', additing', dumps', hparsed, hcase⟩
    · exact absurd hunparsed h.not_unparsed
    · obtain ⟨rfl, rfl, rfl⟩ := h.unique hparsed
      exact hcase
  · intro hcase
    exact Or.inr ⟨headers, additing, dumps, h, hcase⟩

/-- What was put in is there, if no hash comes with two dumps. -/
theorem stored_keepDumps_iff {l : List (Blob × Blob)} :
    (∀ e ∈ l, (g.keepDumps l).advancedLoadsBlocksDumps.find? e.1 = some e.2) ↔
      ∀ e ∈ l, ∀ e' ∈ l, e.1 = e'.1 → e.2 = e'.2 := by
  constructor
  · intro hstored e he e' he' hsame
    have hfind := hstored e he
    rw [hsame, hstored e' he'] at hfind
    exact (Option.some.inj hfind).symm
  · intro hone e he
    obtain ⟨w, hw, hfind⟩ := OrdMap.find?_foldl_insert_of_mem (m := g.advancedLoadsBlocksDumps) he
    rw [hone e he (e.1, w) hw rfl]
    exact hfind

theorem numbered_ne_nil {header : MinimumBlockHeader} {headers : List MinimumBlockHeader} :
    numbered n (header :: headers) ≠ [] := by
  rw [numbered, List.length_cons, List.range'_succ, List.zip_cons_cons]
  exact List.cons_ne_nil _ _

/-- **`addPreLoadBlocks` is all or nothing** exactly for the answers that are whole or fail before
anything is put in. -/
theorem addPreLoadBlocks_allOrNothing_iff (net : Net) (g : GetNewBlocksFromServer) (n : Nat)
    (headersStr additingStr dumpsStr : Blob) :
    g.AllOrNothing net n headersStr additingStr dumpsStr ↔
      g.Whole net n headersStr additingStr dumpsStr := by
  unfold AllOrNothing addPreLoadBlocks
  rcases parsed_or_unparsed net g.isCompress headersStr additingStr dumpsStr with
    ⟨headers, additing, dumps, hparsed⟩ | ⟨e, hunparsed⟩
  · rw [hparsed.whole_iff]
    -- Either all headers are put in before anything else can fail,
    by_cases hfit : Consecutive n headers ∧ headers.length ≤ dumps.length
    · obtain ⟨hnum, hlen⟩ := hfit
      have hright : ¬FirstWrong n headers := by
        rintro ⟨header, hmem, hwrong⟩
        cases headers with
        | nil => cases hmem
        | cons header' headers =>
            obtain rfl := Option.some.inj hmem
            unfold Consecutive at hnum
            rw [List.map_cons, List.length_cons, List.range'_succ, List.cons.injEq] at hnum
            exact hwrong hnum.1
      obtain ⟨r, hrun, hr⟩ := tryAddPreLoadBlocks_fit hparsed hnum hlen
      rw [hrun]
      by_cases hall : (preLoadKeys headers additing).length = dumps.length
      · -- the answer is whole
        rw [if_pos hall] at hr
        subst hr
        have hstored := stored_keepDumps_iff (g := g)
          (l := (preLoadKeys headers additing).zip dumps)
        constructor
        · rintro ⟨_, headers', additing', dumps', hparsed', hst⟩
          obtain ⟨rfl, rfl, rfl⟩ := hparsed.unique hparsed'
          exact Or.inr (Or.inl ⟨hnum, hall, hstored.mp hst.2.2⟩)
        · intro hcase
          rcases hcase with hwrong | ⟨-, -, hone⟩ | ⟨hnil, hne, -⟩
          · exact absurd hwrong hright
          · exact ⟨rfl, headers, additing, dumps, hparsed,
              fun e he => List.mem_append_right _ he, hall, hstored.mpr hone⟩
          · rw [hnil] at hall
            exact absurd hall hne
      · -- the counts do not agree, and what was put in stays
        rw [if_neg hall] at hr
        obtain ⟨msg, rfl⟩ := hr
        constructor
        · rintro ⟨_, hheaders, hdumps⟩
          cases headers with
          | cons header headers =>
              have hself := List.append_right_eq_self.mp hheaders
              exact absurd hself numbered_ne_nil
          | nil =>
              refine Or.inr (Or.inr ⟨rfl, hall, ?_⟩)
              unfold keepDumps
              exact congrArg (fun m => { g with advancedLoadsBlocksDumps := m }) hdumps
        · intro hcase
          rcases hcase with hwrong | ⟨-, hall', -⟩ | ⟨rfl, -, hsame⟩
          · exact absurd hwrong hright
          · exact absurd hall' hall
          · have hdumps := congrArg advancedLoadsBlocksDumps hsame
            exact ⟨rfl, List.append_nil _, hdumps⟩
    -- or a number is wrong or a dump is missing on the way.
    · obtain ⟨e, g', hheads, hcase⟩ := addPreLoadHeaders_misfit (g := g) hfit
      rw [tryAddPreLoadBlocks_misfit hparsed hheads]
      have hnotfit : ∀ hkeys : (preLoadKeys headers additing).length = dumps.length,
          ¬Consecutive n headers := by
        intro hkeys hnum
        refine hfit ⟨hnum, ?_⟩
        rw [← hkeys, preLoadKeys, List.length_append, List.length_map]
        omega
      have hnonempty : headers ≠ [] := by
        rintro rfl
        exact hfit ⟨rfl, Nat.zero_le _⟩
      have honly : FirstWrong n headers ∨
          Consecutive n headers ∧ (preLoadKeys headers additing).length = dumps.length ∧
            OneDump (preLoadKeys headers additing) dumps ∨
          headers = [] ∧ additing.length ≠ dumps.length ∧ g.keepDumps (additing.zip dumps) = g ↔
            FirstWrong n headers := by
        constructor
        · intro hor
          rcases hor with hwrong | ⟨hnum, hkeys, -⟩ | ⟨hnil, -⟩
          · exact hwrong
          · exact absurd hnum (hnotfit hkeys)
          · exact absurd hnil hnonempty
        · exact Or.inl
      rw [honly]
      rcases hcase with ⟨rfl, hright⟩ | ⟨⟨msg, rfl⟩, (⟨rfl, hwrong⟩ | ⟨hlonger, hright⟩)⟩
      · exact iff_of_false id hright
      · exact iff_of_true ⟨rfl, rfl, rfl⟩ hwrong
      · refine iff_of_false ?_ hright
        rintro ⟨_, hheaders, _⟩
        rw [hheaders] at hlonger
        exact absurd hlonger (Nat.lt_irrefl _)
  -- What cannot be parsed changes nothing; only an exception of the program is caught.
  · rw [tryAddPreLoadBlocks_unparsed hunparsed]
    have hcond : g.Whole net n headersStr additingStr dumpsStr ↔ ∃ msg, e = .exception msg := by
      constructor
      · intro hwhole
        rcases hwhole with ⟨msg, h⟩ | ⟨headers, additing, dumps, hparsed, -⟩
        · exact ⟨msg, h.unique hunparsed⟩
        · exact absurd hunparsed hparsed.not_unparsed
      · rintro ⟨msg, he⟩
        exact Or.inl ⟨msg, he ▸ hunparsed⟩
    rw [hcond]
    cases e with
    | exception msg => exact iff_of_true ⟨rfl, rfl, rfl⟩ ⟨msg, rfl⟩
    | user msg => exact iff_of_false id (by rintro ⟨_, h⟩; cases h)
    | stop => exact iff_of_false id (by rintro ⟨_, h⟩; cases h)
    | std what => exact iff_of_false id (by rintro ⟨_, h⟩; cases h)
    | crash => exact iff_of_false id (by rintro ⟨_, h⟩; cases h)

/-! ## One header with no dump, and with one too many -/

/-- The headers of an answer with block 1 alone, and the text of it. -/
def oneHeaderDoc : Json :=
  .object [(ascii "result".toList, .array [.object [
    (ascii "number".toList, .int64 1), (ascii "hash".toList, .ofAscii "01".toList),
    (ascii "prev_hash".toList, .ofAscii "00".toList),
    (ascii "size".toList, .int64 120), (ascii "fileName".toList, .ofAscii "blk".toList)]])]

/-- The text of the headers of one block. -/
def oneHeaderText : Blob :=
  ⟨ascii ("\x7b\"result\":[\x7b\"number\":1,\"hash\":\"01\",\"prev_hash\":\"00\"," ++
      "\"size\":120,\"fileName\":\"blk\"\x7d]\x7d").toList, by decide⟩

/-- The parsers of the program, and nobody who answers. -/
def oneHeaderNet : Net :=
  ⟨messages (Server.readerOf oneHeaderText oneHeaderDoc) Server.failingLZ4, Server.silentP2P⟩

/-- So many empty dumps. -/
def emptyDumps (n : Nat) : Blob := Blob.replicate (8 * n % 2 ^ 63) 0 (Nat.mod_lt _ (by decide))

/-- Without a dump the list is read behind its end; with two the header and the first stay. -/
theorem partial_answers_kept :
    ¬Server.freshClient.AllOrNothing oneHeaderNet 1 oneHeaderText ∅ ∅ ∧
      ¬Server.freshClient.AllOrNothing oneHeaderNet 1 oneHeaderText ∅ (emptyDumps 2) := by
  have hbehind : (Server.freshClient.tryAddPreLoadBlocks oneHeaderNet 1 oneHeaderText ∅ ∅).1 =
      .error (.std "out_of_range") := by decide +kernel
  have hmany : (Server.freshClient.tryAddPreLoadBlocks oneHeaderNet 1 oneHeaderText ∅
      (emptyDumps 2)).1 = .error (.exception "Incorrect blocks dumps array") := by decide +kernel
  have hkept : (Server.freshClient.tryAddPreLoadBlocks oneHeaderNet 1 oneHeaderText ∅
      (emptyDumps 2)).2.advancedLoadsBlocksHeaders.length = 1 := by decide +kernel
  constructor
  · unfold AllOrNothing
    generalize Server.freshClient.tryAddPreLoadBlocks oneHeaderNet 1 oneHeaderText ∅ ∅ = res at hbehind
    obtain ⟨r, g'⟩ := res
    obtain rfl := hbehind
    exact id
  · unfold AllOrNothing
    generalize Server.freshClient.tryAddPreLoadBlocks oneHeaderNet 1 oneHeaderText ∅
      (emptyDumps 2) = res at hmany hkept
    obtain ⟨r, g'⟩ := res
    obtain rfl := hmany
    rintro ⟨_, hheaders, _⟩
    have hlen := congrArg List.length hheaders
    rw [hkept] at hlen
    cases hlen

end GetNewBlocksFromServer

end TorrentNode
