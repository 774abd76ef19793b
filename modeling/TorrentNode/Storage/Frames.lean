import Mathlib.Logic.Function.Basic
import TorrentNode.Storage.LevelDb

/-!
# What a batch leaves alone

Records of different kinds stand under different key prefixes. A change of a
batch spares a prefix if nothing it does concerns a key under it, so what is
found there stays the same, in the batch and, once that is written, in the
database.
-/

namespace TorrentNode

/-- No key stands under both prefixes. -/
def Apart (p q : Bytes) : Prop := ¬p <+: q ∧ ¬q <+: p

instance (p q : Bytes) : Decidable (Apart p q) := inferInstanceAs (Decidable (_ ∧ _))

theorem Apart.not_prefix {p q k : Bytes} (h : Apart p q) (hq : q <+: k) : ¬p <+: k := by
  intro hp
  rcases List.prefix_or_prefix_of_prefix hp hq with hpq | hqp
  · exact h.1 hpq
  · exact h.2 hqp

/-! ## Keys -/

theorem addToBuf_lit {p : String} {buf key : Bytes} (h : addToBuf buf (.lit p) = .ok key) :
    key = buf ++ ascii p.toList :=
  (Except.ok.inj (check_bind_eq_ok.mp h).2).symm

theorem addToBuf_str {s : Blob} {buf key : Bytes} :
    addToBuf buf (.str s) = .ok key ↔ s ≠ ∅ ∧ key = buf ++ s.val := by
  unfold addToBuf
  rw [check_bind_eq_ok, Bool.not_eq_true', Blob.isEmpty_eq_false]
  refine and_congr_right (fun _ => ?_)
  show (Except.ok (buf ++ s.val) : Except Err Bytes) = .ok key ↔ _
  rw [Except.ok.injEq, eq_comm]

theorem prefix_addToBuf {buf key : Bytes} {part : KeyPart} (h : addToBuf buf part = .ok key) :
    buf <+: key := by
  cases part with
  | str s => exact ⟨_, (addToBuf_str.mp h).2.symm⟩
  | chr c => exact ⟨_, Except.ok.inj h⟩
  | int n => exact ⟨_, Except.ok.inj h⟩
  | lit p => exact ⟨_, (addToBuf_lit h).symm⟩

theorem prefix_foldlM_addToBuf : ∀ {args : List KeyPart} {buf key : Bytes},
    args.foldlM addToBuf buf = .ok key → buf <+: key
  | [], buf, key, h => by
      obtain rfl := Except.ok.inj h
      exact List.prefix_refl _
  | part :: args, buf, key, h => by
      rw [List.foldlM_cons] at h
      cases hp : addToBuf buf part with
      | error e => simp [hp, Bind.bind, Except.bind] at h
      | ok next =>
          simp only [hp, Bind.bind, Except.bind] at h
          exact (prefix_addToBuf hp).trans (prefix_foldlM_addToBuf h)

/-- A key starts with its literal. -/
theorem prefix_makeKey {p : String} {args : List KeyPart} {key : Bytes}
    (h : makeKey (.lit p :: args) = .ok key) : ascii p.toList <+: key := by
  unfold makeKey at h
  rw [List.foldlM_cons] at h
  cases hp : addToBuf [] (.lit p) with
  | error e => simp [hp, Bind.bind, Except.bind] at h
  | ok next =>
      simp only [hp, Bind.bind, Except.bind] at h
      rw [addToBuf_lit hp, List.nil_append] at h
      exact prefix_foldlM_addToBuf h

/-- The key of a record under a prefix and a name. -/
theorem makeKey_name {p : String} (hp : p.isEmpty = false) {name : Blob} {key : Bytes} :
    makeKey [.lit p, .str name] = .ok key ↔ name ≠ ∅ ∧ key = ascii p.toList ++ name.val := by
  have hlit : addToBuf [] (.lit p) = .ok (ascii p.toList) := by
    simp [addToBuf, hp, Bind.bind, Except.bind, Pure.pure, Except.pure]
  unfold makeKey
  rw [List.foldlM_cons, hlit]
  simp only [List.foldlM_cons, List.foldlM_nil, Bind.bind, Except.bind, Pure.pure, Except.pure]
  rw [← addToBuf_str]
  cases addToBuf (ascii p.toList) (.str name) <;> simp

/-- The key of a record under a prefix, a name, a separator and a number. -/
theorem makeKey_counter {p : String} (hp : p.isEmpty = false) {name : Blob} {c : Char}
    {counter : UInt64} {key : Bytes} :
    makeKey [.lit p, .str name, .chr c, .int counter] = .ok key ↔ name ≠ ∅ ∧
      key = ascii p.toList ++ name.val ++ ascii [c] ++ serializeUInt64 counter := by
  have hlit : addToBuf [] (.lit p) = .ok (ascii p.toList) := by
    simp [addToBuf, hp, Bind.bind, Except.bind, Pure.pure, Except.pure]
  unfold makeKey
  rw [List.foldlM_cons, hlit]
  show (addToBuf (ascii p.toList) (.str name) >>= _) = _ ↔ _
  rw [bind_eq_ok]
  constructor
  · rintro ⟨buf, hbuf, h⟩
    obtain ⟨hne, rfl⟩ := addToBuf_str.mp hbuf
    exact ⟨hne, (Except.ok.inj h).symm⟩
  · rintro ⟨hne, hkey⟩
    subst hkey
    exact ⟨_, addToBuf_str.mpr ⟨hne, rfl⟩, rfl⟩

/-! ## Batches -/

/-- `b'` is `b` with more operations, none of them on a key under `p`. -/
structure Batch.Spares (p : Bytes) (b b' : Batch) : Prop where
  batch : ∃ ops, b'.batch = b.batch ++ ops ∧ ∀ op ∈ ops, ¬p <+: op.key
  save : ∀ k, p <+: k → b'.save.find? k = b.save.find? k
  deleted : ∀ k, p <+: k → (k ∈ b'.deleted ↔ k ∈ b.deleted)

namespace Batch.Spares

variable {p : Bytes} {b b' b'' : Batch}

theorem refl (p : Bytes) (b : Batch) : Spares p b b :=
  ⟨⟨[], by simp, by simp⟩, fun _ _ => rfl, fun _ _ => Iff.rfl⟩

theorem trans (h : Spares p b b') (h' : Spares p b' b'') : Spares p b b'' := by
  obtain ⟨ops, hops, hout⟩ := h.batch
  obtain ⟨ops', hops', hout'⟩ := h'.batch
  refine ⟨⟨ops ++ ops', by rw [hops', hops, List.append_assoc], ?_⟩, ?_, ?_⟩
  · intro op hop
    rcases List.mem_append.mp hop with hop | hop
    · exact hout op hop
    · exact hout' op hop
  · intro k hk; rw [h'.save k hk, h.save k hk]
  · intro k hk; rw [h'.deleted k hk, h.deleted k hk]

/-- What stands under the prefix after the batch is written does not change. -/
theorem find?_addBatch (h : Spares p b b') (db : LevelDb) {k : Bytes} (hk : p <+: k) :
    (addBatch b' db).find? k = (addBatch b db).find? k := by
  obtain ⟨ops, hops, hout⟩ := h.batch
  unfold addBatch
  rw [hops, WriteOp.apply_append]
  refine WriteOp.find?_apply_of_not_mem ?_
  rintro op hop rfl
  exact hout op hop hk

theorem addKeyInternal {key : Bytes} (hkey : ¬p <+: key) (value : Blob) (isSave : Bool) :
    Spares p b (b.addKeyInternal key value isSave) := by
  refine ⟨⟨[.put key value], rfl, ?_⟩, ?_, fun _ _ => Iff.rfl⟩
  · intro op hop
    rw [List.mem_singleton.mp hop]
    exact hkey
  · intro k hk
    have hne : k ≠ key := fun he => hkey (he ▸ hk)
    unfold Batch.addKeyInternal
    cases isSave with
    | false => rfl
    | true =>
        show (b.save.emplace key value).find? k = _
        cases hf : b.save.find? key with
        | some w => rw [OrdMap.emplace_of_some hf]
        | none => rw [OrdMap.find?_emplace_of_none hf, if_neg hne]

theorem addKey {key : Bytes} {serialized : Except Err Bytes} {isSave : Bool} (hkey : ¬p <+: key)
    (h : b.addKey key serialized isSave = .ok b') : Spares p b b' := by
  obtain ⟨value, _, rfl⟩ := Batch.addKey_eq_ok h
  exact addKeyInternal hkey value isSave

/-- A record under another prefix. -/
theorem addKey_makeKey {q : String} {args : List KeyPart} {serialized : Except Err Bytes}
    {isSave : Bool} (hq : Apart p (ascii q.toList))
    (h : (do let key ← makeKey (.lit q :: args); b.addKey key serialized isSave) = .ok b') :
    Spares p b b' := by
  cases hk : makeKey (.lit q :: args) with
  | error e => simp [hk, Bind.bind, Except.bind] at h
  | ok key =>
      simp only [hk, Bind.bind, Except.bind] at h
      exact addKey (hq.not_prefix (prefix_makeKey hk)) h

theorem removeValue {key : Bytes} (hkey : ¬p <+: key) : Spares p b (b.removeValue key) := by
  have hne : ∀ k, p <+: k → k ≠ key := fun k hk he => hkey (he ▸ hk)
  refine ⟨⟨[.del key], rfl, ?_⟩, ?_, ?_⟩
  · intro op hop
    rw [List.mem_singleton.mp hop]
    exact hkey
  · intro k hk
    exact OrdMap.find?_erase_ne (hne k hk)
  · intro k hk
    unfold Batch.removeValue
    split
    · exact Iff.rfl
    · rw [List.mem_cons]
      exact or_iff_right (hne k hk)

theorem foldlM {α : Type} {f : Batch → α → Except Err Batch}
    (hf : ∀ a b b', f b a = .ok b' → Spares p b b') :
    ∀ {l : List α} {b b' : Batch}, l.foldlM f b = .ok b' → Spares p b b'
  | [], b, b', h => by
      obtain rfl := Except.ok.inj h
      exact refl p b
  | a :: l, b, b', h => by
      rw [List.foldlM_cons] at h
      obtain ⟨next, hnext, h⟩ := bind_eq_ok.mp h
      exact (hf a b next hnext).trans (foldlM hf h)

end Batch.Spares

/-- **Records that are put one after another**, each under a key of its own. -/
theorem find?_addBatch_foldlM {α : Type} {f : Batch → α → Except Err Batch} {key : α → Bytes}
    {Put : α → Blob → Prop}
    (hf : ∀ a b b', f b a = .ok b' →
      ∃ value, Put a value ∧ b' = b.addKeyInternal (key a) value false) (db : LevelDb) :
    ∀ {l : List α} {b b' : Batch}, l.foldlM f b = .ok b' → (l.map key).Nodup →
      (∀ k, k ∉ l.map key → (addBatch b' db).find? k = (addBatch b db).find? k) ∧
        ∀ a ∈ l, ∃ value, Put a value ∧ (addBatch b' db).find? (key a) = some value
  | [], b, b', h, _ => by
      obtain rfl := Except.ok.inj h
      exact ⟨fun _ _ => rfl, fun a ha => by cases ha⟩
  | a :: l, b, b', h, hnodup => by
      rw [List.foldlM_cons] at h
      obtain ⟨next, hnext, h⟩ := bind_eq_ok.mp h
      rw [List.map_cons, List.nodup_cons] at hnodup
      obtain ⟨value, hvalue, rfl⟩ := hf a b next hnext
      obtain ⟨hother, hput⟩ := find?_addBatch_foldlM hf db h hnodup.2
      refine ⟨?_, ?_⟩
      · intro k hk
        rw [List.map_cons, List.mem_cons, not_or] at hk
        rw [hother k hk.2, find?_addBatch_addKeyInternal, if_neg hk.1]
      · intro c hc
        rcases List.mem_cons.mp hc with rfl | hc
        · refine ⟨value, hvalue, ?_⟩
          rw [hother _ hnodup.1, find?_addBatch_addKeyInternal, if_pos rfl]
        · exact hput c hc

/-! ## Records under their names -/

section Named

variable {α : Type} {p : String} {deserialize : Blob → Except Err α} {name : Blob}

/-- The record of a kind that stands under a name. -/
def LevelDb.findNamed (p : String) (deserialize : Blob → Except Err α) (db : LevelDb)
    (name : Blob) : Except Err α := do
  let key ← makeKey [.lit p, .str name]
  db.findOneValueWithoutCheckValue deserialize key

/-- Put a record under a name, where lookups in the batch do not find it. -/
def Batch.addNamed (p : String) (b : Batch) (name : Blob) (serialized : Except Err Bytes) :
    Except Err Batch := do
  let key ← makeKey [.lit p, .str name]
  b.addKey key serialized false

/-- Look a record up in the batch. -/
def Batch.findNamed (p : String) (deserialize : Blob → Except Err α) (b : Batch) (name : Blob) :
    Except Err (Option α) := do
  let key ← makeKey [.lit p, .str name]
  b.findValueInBatch deserialize key

/-- Lookups in the batch find nothing under the prefix. -/
def Batch.Unsaved (p : Bytes) (b : Batch) : Prop := ∀ k, p <+: k → b.save.find? k = none

theorem LevelDb.findNamed_of_ne (hp : p.isEmpty = false) {db : LevelDb} (h : name ≠ ∅) :
    db.findNamed p deserialize name =
      deserialize (db.findOneValueInternal (ascii p.toList ++ name.val)) := by
  unfold findNamed
  rw [(makeKey_name hp).mpr ⟨h, rfl⟩]
  rfl

theorem LevelDb.findNamed_empty (hp : p.isEmpty = false) {db : LevelDb} :
    db.findNamed p deserialize ∅ = .error (.exception "Incorrect parameter") := by
  simp [findNamed, makeKey, addToBuf, hp, Bind.bind, Except.bind, Pure.pure, Except.pure]

/-- Databases with the same keys under the prefix have the same records. -/
theorem LevelDb.findNamed_congr (hp : p.isEmpty = false) {db db' : LevelDb}
    (h : ∀ k, ascii p.toList <+: k → db'.find? k = db.find? k) (name : Blob) :
    db'.findNamed p deserialize name = db.findNamed p deserialize name := by
  by_cases hn : name = ∅
  · subst hn
    rw [findNamed_empty hp, findNamed_empty hp]
  · rw [findNamed_of_ne hp hn, findNamed_of_ne hp hn]
    unfold findOneValueInternal
    rw [h _ (List.prefix_append _ _)]

theorem Batch.addNamed_eq_ok (hp : p.isEmpty = false) {b b' : Batch}
    {serialized : Except Err Bytes} (h : b.addNamed p name serialized = .ok b') :
    name ≠ ∅ ∧ ∃ value : Blob, serialized = .ok value.val ∧
      b' = b.addKeyInternal (ascii p.toList ++ name.val) value false := by
  obtain ⟨key, hkey, hadd⟩ := bind_eq_ok.mp h
  obtain ⟨hne, rfl⟩ := (makeKey_name hp).mp hkey
  exact ⟨hne, Batch.addKey_eq_ok hadd⟩

/-- **A record that was put into the batch** is the only one of its kind that changes. -/
theorem findNamed_addBatch_addNamed (hp : p.isEmpty = false) {b b' : Batch}
    {serialized : Except Err Bytes} {r : Except Err α} (db : LevelDb)
    (hr : ∀ value : Blob, serialized = .ok value.val → deserialize value = r)
    (h : b.addNamed p name serialized = .ok b') :
    (addBatch b' db).findNamed p deserialize =
      Function.update ((addBatch b db).findNamed p deserialize) name r := by
  obtain ⟨hne, value, hser, rfl⟩ := Batch.addNamed_eq_ok hp h
  funext a
  have hfind := find?_addBatch_addKeyInternal b db (ascii p.toList ++ name.val) value false
    (ascii p.toList ++ a.val)
  by_cases ha : a = name
  · subst ha
    rw [if_pos rfl] at hfind
    rw [Function.update_self, LevelDb.findNamed_of_ne hp hne]
    unfold LevelDb.findOneValueInternal
    rw [hfind]
    exact hr value hser
  · rw [Function.update_of_ne ha]
    have hkey : ascii p.toList ++ a.val ≠ ascii p.toList ++ name.val :=
      fun hk => ha (Subtype.ext (List.append_cancel_left hk))
    rw [if_neg hkey] at hfind
    by_cases he : a = ∅
    · subst he
      rw [LevelDb.findNamed_empty hp, LevelDb.findNamed_empty hp]
    · rw [LevelDb.findNamed_of_ne hp he, LevelDb.findNamed_of_ne hp he]
      unfold LevelDb.findOneValueInternal
      rw [hfind]

theorem Batch.Unsaved.spares {p : Bytes} {b b' : Batch} (h : b.Unsaved p) (hs : b.Spares p b') :
    b'.Unsaved p :=
  fun k hk => (hs.save k hk).trans (h k hk)

theorem Batch.Unsaved.addNamed {q : Bytes} (hp : p.isEmpty = false) {b b' : Batch}
    {serialized : Except Err Bytes} (h : b.Unsaved q)
    (hadd : b.addNamed p name serialized = .ok b') : b'.Unsaved q := by
  obtain ⟨_, value, _, rfl⟩ := Batch.addNamed_eq_ok hp hadd
  exact h

theorem Batch.Unsaved.findNamed (hp : p.isEmpty = false) {b : Batch}
    (h : b.Unsaved (ascii p.toList)) (hn : name ≠ ∅) :
    b.findNamed p deserialize name = .ok none := by
  unfold Batch.findNamed
  rw [(makeKey_name hp).mpr ⟨hn, rfl⟩]
  unfold Batch.findValueInBatch
  simp only [Bind.bind, Except.bind, h _ (List.prefix_append _ _)]

end Named

end TorrentNode
