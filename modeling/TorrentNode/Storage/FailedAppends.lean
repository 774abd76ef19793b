import TorrentNode.Storage.BlockFiles

/-!
# Appending blocks when some of the appends fail

`saveBlockToFileBinary` finds out behind the fact that a write fell short, and
leaves in the file what it got there. The next dump goes behind that remainder,
where no scan of the file looks for it.
-/

namespace TorrentNode

/-- A block file and the appends that returned: the position each returned, and its dump. -/
structure BlockFile where
  file : Blob
  saved : List (UInt64 × Blob)
  deriving DecidableEq

namespace BlockFile

/-- Nothing was written. -/
def empty : BlockFile := { file := ∅, saved := [] }

/-- A dump is written, or a part of it. -/
def attempt (s : BlockFile) (a : SaveAttempt) : BlockFile :=
  { file := (saveBlockToFileBinary s.file a).2
    saved :=
      match (saveBlockToFileBinary s.file a).1 with
      | some (.ok pos) => s.saved ++ [(pos, a.data)]
      | _ => s.saved }

/-- These attempts, one after the other. -/
def run (s : BlockFile) (as : List SaveAttempt) : BlockFile := as.foldl attempt s

/-- A scan from the start finds the saved dumps, in order and where the saves put them. -/
def ScansBack (s : BlockFile) : Prop :=
  ∃ fuel, Framing.scan readBlock s.file.val fuel 0 =
    some (.ok (s.saved.map (fun r => (r.1.toNat, r.2.val))))

end BlockFile

namespace SaveAttempt

/-- The whole frame fits on the disk and into the file, and the process lives to return. -/
def Succeeds (a : SaveAttempt) (file : Blob) : Prop :=
  a.stopped = false ∧ 8 + a.data.size ≤ a.space ∧ file.size + (8 + a.data.size) ≤ maxFileSize

instance (a : SaveAttempt) (file : Blob) : Decidable (a.Succeeds file) := by
  unfold Succeeds; infer_instance

/-- Every attempt succeeds or leaves the file as it was. -/
def AllOrNothing : Blob → List SaveAttempt → Prop
  | _, [] => True
  | file, a :: as => (a.Succeeds file ∨ a.after file = file) ∧ AllOrNothing (a.after file) as

/-- No attempt succeeds. -/
def NoneSucceeds : Blob → List SaveAttempt → Prop
  | _, [] => True
  | file, a :: as => ¬ a.Succeeds file ∧ NoneSucceeds (a.after file) as

/-- The file behind a list of attempts. -/
def afterAll (file : Blob) (as : List SaveAttempt) : Blob := as.foldl (fun f a => a.after f) file

/--
No failed attempt leaves a byte in the file, up to the last that succeeds, and what
the failed ones behind it leave does not read as a dump.
-/
def Harmless (file : Blob) (as : List SaveAttempt) : Prop :=
  ∃ good bad, as = good ++ bad ∧ AllOrNothing file good ∧ NoneSucceeds (afterAll file good) bad ∧
    Torn (afterAll file good).size
      ((afterAll (afterAll file good) bad).val.drop (afterAll file good).size)

theorem length_frame_data (d : Blob) : (blockFraming.frame d.val).length = 8 + d.size :=
  Framing.length_frame _ _

theorem after_of_succeeds {a : SaveAttempt} {file : Blob} (h : a.Succeeds file) :
    (a.after file).val = file.val ++ blockFraming.frame a.data.val := by
  obtain ⟨-, hspace, hmax⟩ := h
  show _ ++ a.written file.size = _
  rw [written, List.take_of_length_le]
  rw [length_frame_data]
  omega

/-- The check behind the write tells the attempts that succeed. -/
theorem attempt_succeeds {s : BlockFile} {a : SaveAttempt} (h : a.Succeeds s.file) :
    s.attempt a = { file := a.after s.file
                    saved := s.saved ++ [(UInt64.ofNat s.file.size, a.data)] } := by
  have hsize : (a.after s.file).size = s.file.size + 8 + a.data.size := by
    rw [Blob.size, after_of_succeeds h, List.length_append, length_frame_data, ← Nat.add_assoc]
    rfl
  simp only [BlockFile.attempt, saveBlockToFileBinary, h.1, hsize]
  simp

theorem attempt_fails {s : BlockFile} {a : SaveAttempt} (h : ¬ a.Succeeds s.file) :
    s.attempt a = { s with file := a.after s.file } := by
  cases hs : a.stopped with
  | true => simp [BlockFile.attempt, saveBlockToFileBinary, hs]
  | false =>
    have hsize : ¬ (a.after s.file).size = s.file.size + 8 + a.data.size := by
      intro he
      apply h
      have hlen : (a.after s.file).size = s.file.size + (a.written s.file.size).length :=
        List.length_append
      rw [written, List.length_take, length_frame_data] at hlen
      exact ⟨hs, by omega, by omega⟩
    have hcheck : ((a.after s.file).size == s.file.size + 8 + a.data.size) = false := by
      simpa using hsize
    simp only [BlockFile.attempt, saveBlockToFileBinary, hs, hcheck]
    rfl

theorem size_le_after (a : SaveAttempt) (file : Blob) : file.size ≤ (a.after file).size := by
  show _ ≤ (file.val ++ a.written file.size).length
  rw [List.length_append]
  exact Nat.le_add_right _ _

end SaveAttempt

namespace BlockFile

open SaveAttempt

@[simp] theorem file_attempt (s : BlockFile) (a : SaveAttempt) : (s.attempt a).file = a.after s.file :=
  rfl

theorem file_run : ∀ (as : List SaveAttempt) (s : BlockFile), (s.run as).file = afterAll s.file as
  | [], _ => rfl
  | a :: as, s => file_run as (s.attempt a)

theorem afterAll_under : ∀ (as : List SaveAttempt) (file : Blob),
    ∃ left, (afterAll file as).val = file.val ++ left
  | [], file => ⟨[], by simp [afterAll]⟩
  | a :: as, file => by
      obtain ⟨left, h⟩ := afterAll_under as (a.after file)
      exact ⟨a.written file.size ++ left, by rw [← List.append_assoc]; exact h⟩

/-- What a run of attempts adds to the saved ones stands behind the file it began with. -/
theorem saved_run : ∀ (as : List SaveAttempt) (s : BlockFile), ∃ more,
    (s.run as).saved = s.saved ++ more ∧ (∀ r ∈ more, s.file.size ≤ r.1.toNat) ∧
      (more = [] ↔ NoneSucceeds s.file as)
  | [], s => ⟨[], by simp [run, NoneSucceeds]⟩
  | a :: as, s => by
      obtain ⟨more, hsaved, hpos, hnone⟩ := saved_run as (s.attempt a)
      have hle := size_le_after a s.file
      have hpos' : ∀ r ∈ more, s.file.size ≤ r.1.toNat := fun r hr => Nat.le_trans hle (hpos r hr)
      by_cases h : a.Succeeds s.file
      · refine ⟨(UInt64.ofNat s.file.size, a.data) :: more, ?_, ?_, ?_⟩
        · show ((s.attempt a).run as).saved = _
          rw [hsaved, attempt_succeeds h, List.append_assoc]
          rfl
        · rintro r (_ | ⟨_, hr⟩)
          · have := s.file.property
            rw [toNat_ofNat_of_lt (by rw [Blob.size]; omega)]
          · exact hpos' r hr
        · exact ⟨fun he => by simp at he, fun hn => absurd h hn.1⟩
      · refine ⟨more, ?_, hpos', ?_⟩
        · show ((s.attempt a).run as).saved = _
          rw [hsaved, attempt_fails h]
        · rw [hnone]
          exact ⟨fun hn => ⟨h, hn⟩, fun hn => hn.2⟩

/-- The file holds exactly the saved dumps, one frame after the other. -/
structure Sound (s : BlockFile) (ds : List Bytes) : Prop where
  file : s.file.val = blockFraming.log ds
  saved : s.saved.map (fun r => (r.1.toNat, r.2.val)) = blockFraming.placed 0 ds
  nonempty : ∀ d ∈ ds, d ≠ []

theorem sound_empty : Sound empty [] :=
  { file := rfl, saved := rfl, nonempty := by simp }

/-- A save that succeeds adds its frame. -/
theorem sound_attempt {s : BlockFile} {ds : List Bytes} {a : SaveAttempt} (h : Sound s ds)
    (ha : a.Succeeds s.file) (hne : a.data.isEmpty = false) :
    Sound (s.attempt a) (ds ++ [a.data.val]) := by
  have hlen := s.file.property
  refine ⟨?_, ?_, ?_⟩
  · rw [file_attempt, after_of_succeeds ha, h.file, Framing.log_concat]
  · rw [attempt_succeeds ha, List.map_append, h.saved, Framing.placed_concat, ← h.file, Nat.zero_add,
      List.map_cons, toNat_ofNat_of_lt (by rw [Blob.size]; omega)]
    rfl
  · intro d hd
    rcases List.mem_append.mp hd with hd | hd
    · exact h.nonempty d hd
    · rw [List.mem_singleton] at hd
      subst hd
      intro he
      rw [Blob.isEmpty, he] at hne
      simp at hne

/-- Behind a sound file, a scan of the rest has to find the later saves. -/
theorem scansBack_iff {s s' : BlockFile} {ds : List Bytes} {left : Bytes}
    {more : List (UInt64 × Blob)} (h : Sound s ds) (hfile : s'.file.val = s.file.val ++ left)
    (hsaved : s'.saved = s.saved ++ more) :
    ScansBack s' ↔ ∃ fuel, Framing.scan readBlock (s.file.val ++ left) fuel s.file.size =
      some (.ok (more.map (fun r => (r.1.toNat, r.2.val)))) := by
  have hlen : (blockFraming.log ds ++ left).length < 2 ^ 63 := by
    rw [← h.file, ← hfile]; exact s'.file.property
  rw [ScansBack, hsaved, List.map_append, h.saved, hfile, Blob.size, h.file,
    Framing.scan_log_iff readBy_readBlock h.nonempty hlen]
  constructor
  · rintro ⟨fuel, r', hscan, he⟩
    cases r' with
    | error e => simp [Except.map] at he
    | ok l =>
      simp only [Except.map, Except.ok.injEq, List.append_cancel_left_eq] at he
      exact ⟨fuel, by rw [hscan, he]⟩
  · rintro ⟨fuel, hscan⟩
    exact ⟨fuel, _, hscan, rfl⟩

/-- Attempts of which none succeeds do no harm as long as their remains do not read as a dump. -/
theorem scansBack_of_none {s : BlockFile} {ds : List Bytes} {as : List SaveAttempt}
    (h : Sound s ds) (hnone : NoneSucceeds s.file as) :
    ScansBack (s.run as) ↔ Torn s.file.size ((afterAll s.file as).val.drop s.file.size) := by
  obtain ⟨left, hleft⟩ := afterAll_under as s.file
  obtain ⟨more, hsaved, -, hmore⟩ := saved_run as s
  have hfile : (s.run as).file.val = s.file.val ++ left := by rw [file_run, hleft]
  have hlen : (s.file.val ++ left).length < 2 ^ 63 := by rw [← hfile]; exact (s.run as).file.property
  rw [scansBack_iff h hfile hsaved, hmore.mpr hnone, List.map_nil, Framing.scan_nil_iff, Blob.size,
    readBlock_torn_iff hlen, hleft, List.drop_left]

/-- A save behind the remains of a failed one is not where a scan looks. -/
theorem not_scansBack {s : BlockFile} {ds : List Bytes} {a : SaveAttempt} {as : List SaveAttempt}
    (h : Sound s ds) (ha : ¬ a.Succeeds s.file) (hleft : a.after s.file ≠ s.file)
    (hsome : ¬ NoneSucceeds (a.after s.file) as) : ¬ ScansBack (s.run (a :: as)) := by
  intro hscan
  obtain ⟨left, hunder⟩ := afterAll_under (a :: as) s.file
  obtain ⟨more, hsaved, hpos, hmore⟩ := saved_run as (s.attempt a)
  rw [attempt_fails ha] at hsaved hpos hmore
  have hfile : (s.run (a :: as)).file.val = s.file.val ++ left := by rw [file_run, hunder]
  have hsaved' : (s.run (a :: as)).saved = s.saved ++ more := by
    rw [← hsaved, ← attempt_fails ha]; rfl
  obtain ⟨fuel, hat⟩ := (scansBack_iff h hfile hsaved').mp hscan
  have hlt : s.file.size < (a.after s.file).size := by
    refine Nat.lt_of_le_of_ne (size_le_after a s.file) (fun he => hleft ?_)
    have hcat : (a.after s.file).val = s.file.val ++ a.written s.file.size := rfl
    have hnil : a.written s.file.size = [] := by
      rw [Blob.size, Blob.size, hcat, List.length_append] at he
      exact List.eq_nil_of_length_eq_zero (by omega)
    rw [hnil, List.append_nil] at hcat
    exact Subtype.ext hcat
  cases more with
  | nil => exact hsome (hmore.mp rfl)
  | cons r more =>
      have hhead := Framing.scan_head hat _ (by rw [List.map_cons, List.head?_cons]; rfl)
      have hbound := hpos r List.mem_cons_self
      simp only at hhead hbound
      omega

/-- **A run of attempts scans back exactly when its failures are harmless.** -/
theorem scansBack_run : ∀ (as : List SaveAttempt) {s : BlockFile} {ds : List Bytes},
    Sound s ds → (∀ a ∈ as, a.data.isEmpty = false) →
    (ScansBack (s.run as) ↔ Harmless s.file as)
  | [], s, ds, h, _ => by
      have htorn : Torn s.file.size [] := Or.inl (by decide)
      refine ⟨fun _ => ⟨[], [], rfl, trivial, trivial, ?_⟩, fun _ => ?_⟩
      · show Torn s.file.size (s.file.val.drop s.file.size)
        rwa [Blob.size, List.drop_length]
      · rw [scansBack_of_none h (show NoneSucceeds s.file [] from trivial)]
        show Torn s.file.size (s.file.val.drop s.file.size)
        rwa [Blob.size, List.drop_length]
  | a :: as, s, ds, h, hne => by
      have hne' : ∀ b ∈ as, b.data.isEmpty = false := fun b hb => hne b (List.mem_cons_of_mem _ hb)
      -- an attempt that does no harm leaves a sound file for the others
      have hstep : ∀ {ds'}, Sound (s.attempt a) ds' → (a.Succeeds s.file ∨ a.after s.file = s.file) →
          (ScansBack (s.run (a :: as)) → Harmless s.file (a :: as)) := by
        intro ds' hsound hok hscan
        obtain ⟨good, bad, rfl, hgood, hbad, htorn⟩ := (scansBack_run as hsound hne').mp hscan
        exact ⟨a :: good, bad, rfl, ⟨hok, hgood⟩, hbad, htorn⟩
      have hback : ∀ {ds'}, Sound (s.attempt a) ds' → ∀ good bad, as = good ++ bad →
          AllOrNothing (a.after s.file) good →
          NoneSucceeds (afterAll (a.after s.file) good) bad →
          Torn (afterAll (a.after s.file) good).size
            ((afterAll (afterAll (a.after s.file) good) bad).val.drop
              (afterAll (a.after s.file) good).size) →
          ScansBack (s.run (a :: as)) := by
        intro ds' hsound good bad heq hgood hbad htorn
        exact (scansBack_run as hsound hne').mpr ⟨good, bad, heq, hgood, hbad, htorn⟩
      -- The first attempt succeeds, fails without a trace, or leaves bytes behind.
      by_cases ha : a.Succeeds s.file
      · have hsound := sound_attempt h ha (hne a List.mem_cons_self)
        refine ⟨hstep hsound (Or.inl ha), ?_⟩
        rintro ⟨good, bad, heq, hgood, hbad, htorn⟩
        cases good with
        | nil =>
            rw [List.nil_append] at heq
            subst heq
            exact absurd ha hbad.1
        | cons b good =>
            obtain ⟨rfl, rfl⟩ := List.cons.inj heq
            exact hback hsound good bad rfl hgood.2 hbad htorn
      · by_cases hsame : a.after s.file = s.file
        · have hsound : Sound (s.attempt a) ds := by
            rw [attempt_fails ha, hsame]; exact h
          refine ⟨hstep hsound (Or.inr hsame), ?_⟩
          rintro ⟨good, bad, heq, hgood, hbad, htorn⟩
          cases good with
          | nil =>
              rw [List.nil_append] at heq
              subst heq
              exact (scansBack_of_none h hbad).mpr htorn
          | cons b good =>
              obtain ⟨rfl, rfl⟩ := List.cons.inj heq
              exact hback hsound good bad rfl hgood.2 hbad htorn
        -- Behind those bytes no later block is found again.
        · refine ⟨fun hscan => ?_, ?_⟩
          · have hnone : NoneSucceeds s.file (a :: as) :=
              ⟨ha, Classical.byContradiction (fun hsome => not_scansBack h ha hsame hsome hscan)⟩
            exact ⟨[], a :: as, rfl, trivial, hnone, (scansBack_of_none h hnone).mp hscan⟩
          · rintro ⟨good, bad, heq, hgood, hbad, htorn⟩
            cases good with
            | nil =>
                rw [List.nil_append] at heq
                subst heq
                exact (scansBack_of_none h hbad).mpr htorn
            | cons b good =>
                obtain ⟨rfl, rfl⟩ := List.cons.inj heq
                exact absurd hgood.1 (by rintro (h1 | h1); exacts [ha h1, hsame h1])

/--
**Saves and failed saves.** Whatever appends are attempted on a new file, each cut
off after any part of its bytes, a scan of the file finds the dumps that were saved,
in order and where the saves put them, if and only if the failures were harmless.
-/
theorem saves_scan_back (as : List SaveAttempt) (hne : ∀ a ∈ as, a.data.isEmpty = false) :
    ScansBack (empty.run as) ↔ Harmless ∅ as :=
  scansBack_run as sound_empty hne

/-- A dump of one byte, and how much of its append reaches the file. -/
def oneByte (byte : UInt8) (space : Nat) : SaveAttempt :=
  { data := Blob.replicate 1 byte Blob.byte_fits, space, stopped := false }

/-- A save, and behind it one that the disk has three bytes left for. -/
theorem saves_scan_back_full_disk :
    (∀ a ∈ [oneByte 7 100, oneByte 9 3], a.data.isEmpty = false) ∧
      ScansBack (empty.run [oneByte 7 100, oneByte 9 3]) := by
  have hne : ∀ a ∈ [oneByte 7 100, oneByte 9 3], a.data.isEmpty = false := by decide
  refine ⟨hne, (saves_scan_back _ hne).mpr ⟨[oneByte 7 100], [oneByte 9 3], rfl, ?_, ?_, ?_⟩⟩
  · exact ⟨Or.inl (by decide), trivial⟩
  · exact ⟨by decide, trivial⟩
  · decide

/-- The remains of a failed append hide the save behind them. -/
theorem save_behind_remains_lost :
    ¬ ∀ as : List SaveAttempt, (∀ a ∈ as, a.data.isEmpty = false) → ScansBack (empty.run as) := by
  intro h
  have hne : ∀ a ∈ [oneByte 7 3, oneByte 9 100], a.data.isEmpty = false := by decide
  obtain ⟨fuel, hscan⟩ := h _ hne
  have hsaved : (empty.run [oneByte 7 3, oneByte 9 100]).saved = [(3, Blob.replicate 1 9 Blob.byte_fits)] := by decide
  have hempty : Framing.scan readBlock (empty.run [oneByte 7 3, oneByte 9 100]).file.val 1 0
      = some (.ok []) := by decide +kernel
  rw [hsaved] at hscan
  have := Framing.scan_unique hscan hempty
  simp at this

end BlockFile

end TorrentNode
