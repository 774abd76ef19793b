import Mathlib.Data.List.Basic

/-!
# Logs of length-prefixed frames

An append-only file holds frames: a header of fixed length that announces a
size, and that many bytes. A scan reads one frame after the other until there is
none. A file that is frames all the way is scanned back into what was appended,
each item at the place where it was put; whatever stands behind the frames is
scanned from the place where they end.
-/

/-- Headers for frames over `β`; a size below `limit` reads back from its header. -/
structure Framing (β : Type) where
  headerSize : Nat
  limit : Nat
  header : Nat → List β
  announced : List β → Nat
  length_header : ∀ n, (header n).length = headerSize
  announced_header : ∀ n, n < limit → announced (header n) = n

namespace Framing

variable {β ε : Type} (F : Framing β)

/-- What is written for a datum: its header, and itself behind it. -/
def frame (d : List β) : List β := F.header d.length ++ d

/-- The file that appending `ds` one after the other makes. -/
def log (ds : List (List β)) : List β := ds.flatMap F.frame

/-- The items of a log with the places where their frames start. -/
def placed : Nat → List (List β) → List (Nat × List β)
  | _, [] => []
  | pos, d :: ds => (pos, d) :: placed (pos + (F.frame d).length) ds

@[simp] theorem length_frame (d : List β) : (F.frame d).length = F.headerSize + d.length := by
  rw [frame, List.length_append, F.length_header]

@[simp] theorem log_nil : F.log [] = [] := rfl

@[simp] theorem log_cons (d : List β) (ds : List (List β)) :
    F.log (d :: ds) = F.frame d ++ F.log ds := rfl

theorem log_append (ds es : List (List β)) : F.log (ds ++ es) = F.log ds ++ F.log es :=
  List.flatMap_append

theorem log_concat (ds : List (List β)) (d : List β) :
    F.log (ds ++ [d]) = F.log ds ++ F.frame d := by
  rw [log_append, log_cons, log_nil, List.append_nil]

theorem placed_append : ∀ (ds es : List (List β)) (pos : Nat),
    F.placed pos (ds ++ es) = F.placed pos ds ++ F.placed (pos + (F.log ds).length) es
  | [], es, pos => rfl
  | d :: ds, es, pos => by
      rw [List.cons_append, placed, placed_append ds es, placed, log_cons, List.length_append,
        List.cons_append, Nat.add_assoc]

theorem placed_concat (ds : List (List β)) (d : List β) (pos : Nat) :
    F.placed pos (ds ++ [d]) = F.placed pos ds ++ [(pos + (F.log ds).length, d)] :=
  F.placed_append ds [d] pos

/-- What reading a file at a position gives: an item and where to go on, nothing, or a failure. -/
abbrev Reader (β ε : Type) : Type := List β → Nat → Except ε (Option (List β × Nat))

/-- Read until nothing is left to read; `none` when `fuel` was not enough for it. -/
def scan (read : Reader β ε) (file : List β) : Nat → Nat → Option (Except ε (List (Nat × List β)))
  | 0, _ => none
  | fuel + 1, pos =>
    match read file pos with
    | .error e => some (.error e)
    | .ok none => some (.ok [])
    | .ok (some (d, next)) => (scan read file fuel next).map (Except.map (fun l => (pos, d) :: l))

/-- Wherever a whole frame of a good item starts, the reader reads it, in files up to `bound`. -/
def ReadBy (read : Reader β ε) (bound : Nat) (good : List β → Prop) : Prop :=
  ∀ pre d post, good d → (pre ++ F.frame d ++ post).length < bound →
    read (pre ++ F.frame d ++ post) pre.length = .ok (some (d, pre.length + (F.frame d).length))

variable {F} {read : Reader β ε} {bound : Nat} {good : List β → Prop}

/-- **A scan passes over the frames at the front** and goes on behind them. -/
theorem scan_log (hread : F.ReadBy read bound good) : ∀ (ds : List (List β)) (pre post : List β)
    (fuel : Nat), (∀ d ∈ ds, good d) → (pre ++ F.log ds ++ post).length < bound →
    scan read (pre ++ F.log ds ++ post) (fuel + ds.length) pre.length =
      (scan read (pre ++ F.log ds ++ post) fuel (pre.length + (F.log ds).length)).map
        (Except.map (fun l => F.placed pre.length ds ++ l))
  | [], pre, post, fuel, _, _ => by
      simp only [List.length_nil, Nat.add_zero, log_nil, placed, List.nil_append]
      cases scan read (pre ++ [] ++ post) fuel pre.length with
      | none => rfl
      | some r => cases r <;> rfl
  | d :: ds, pre, post, fuel, hgood, hlen => by
      have hfile : pre ++ F.log (d :: ds) ++ post = pre ++ F.frame d ++ F.log ds ++ post := by
        simp only [log_cons, List.append_assoc]
      have hfile' : pre ++ F.frame d ++ F.log ds ++ post
          = pre ++ F.frame d ++ (F.log ds ++ post) := by rw [List.append_assoc _ _ post]
      have hstart : read (pre ++ F.log (d :: ds) ++ post) pre.length
          = .ok (some (d, pre.length + (F.frame d).length)) := by
        rw [hfile, hfile']
        rw [hfile, hfile'] at hlen
        exact hread pre d _ (hgood d List.mem_cons_self) hlen
      have ih := scan_log hread ds (pre ++ F.frame d) post fuel
        (fun e he => hgood e (List.mem_cons_of_mem _ he)) (hfile ▸ hlen)
      rw [← hfile, List.length_append] at ih
      have hend : pre.length + (F.log (d :: ds)).length
          = pre.length + (F.frame d).length + (F.log ds).length := by
        rw [log_cons, List.length_append, Nat.add_assoc]
      rw [List.length_cons, ← Nat.add_assoc, scan, hstart, hend]
      simp only
      rw [ih, Option.map_map]
      congr 1
      funext r
      cases r <;> rfl

/-- More fuel changes nothing. -/
theorem scan_mono {file : List β} {r : Except ε (List (Nat × List β))} (k : Nat) :
    ∀ {fuel pos : Nat}, scan read file fuel pos = some r → scan read file (fuel + k) pos = some r
  | 0, pos, h => by simp [scan] at h
  | fuel + 1, pos, h => by
      rw [Nat.succ_add, scan]
      rw [scan] at h
      rcases hr : read file pos with e | _ | ⟨d, next⟩
      · rw [hr] at h; exact h
      · rw [hr] at h; exact h
      · rw [hr] at h
        obtain ⟨r', hr', rfl⟩ := Option.map_eq_some_iff.mp h
        simp only [scan_mono k hr', Option.map_some]

/-- A scan ends in one way only. -/
theorem scan_unique {file : List β} {r r' : Except ε (List (Nat × List β))} {fuel fuel' pos : Nat}
    (h : scan read file fuel pos = some r) (h' : scan read file fuel' pos = some r') : r = r' := by
  have hl := scan_mono fuel' h
  have hr := scan_mono fuel h'
  rw [Nat.add_comm] at hr
  exact Option.some.inj (hl.symm.trans hr)

/-- **What a scan finds is the frames at the front and what a scan behind them finds.** -/
theorem scan_log_iff (hread : F.ReadBy read bound good) {ds : List (List β)} {post : List β}
    {r : Except ε (List (Nat × List β))} (hgood : ∀ d ∈ ds, good d)
    (hlen : (F.log ds ++ post).length < bound) :
    (∃ fuel, scan read (F.log ds ++ post) fuel 0 = some r) ↔
      ∃ fuel r', scan read (F.log ds ++ post) fuel (F.log ds).length = some r' ∧
        r'.map (fun l => F.placed 0 ds ++ l) = r := by
  have hpass := fun fuel => scan_log hread ds [] post fuel hgood (by simpa using hlen)
  simp only [List.nil_append, List.length_nil, Nat.zero_add] at hpass
  constructor
  · rintro ⟨fuel, h⟩
    have hmore := scan_mono ds.length h
    rw [hpass] at hmore
    obtain ⟨r', hr', he⟩ := Option.map_eq_some_iff.mp hmore
    exact ⟨fuel, r', hr', he⟩
  · rintro ⟨fuel, r', h, rfl⟩
    exact ⟨fuel + ds.length, by rw [hpass, h, Option.map_some]⟩

/-- The first item of a scan stands where the scan began. -/
theorem scan_head {file : List β} {fuel pos : Nat} {l : List (Nat × List β)}
    (h : scan read file fuel pos = some (.ok l)) : ∀ i ∈ l.head?, i.1 = pos := by
  cases fuel with
  | zero => simp [scan] at h
  | succ fuel =>
    rw [scan] at h
    rcases hr : read file pos with e | _ | ⟨d, next⟩
    · rw [hr] at h; simp at h
    · rw [hr] at h
      simp only [Option.some.injEq, Except.ok.injEq] at h
      subst h
      simp
    · rw [hr] at h
      obtain ⟨r', -, he⟩ := Option.map_eq_some_iff.mp h
      cases r' with
      | error e => simp [Except.map] at he
      | ok l' =>
        simp only [Except.map, Except.ok.injEq] at he
        subst he
        simp

/-- A scan finds nothing where the reader finds nothing. -/
theorem scan_nil_iff {file : List β} {pos : Nat} :
    (∃ fuel, scan read file fuel pos = some (.ok [])) ↔ read file pos = .ok none := by
  constructor
  · rintro ⟨fuel, h⟩
    cases fuel with
    | zero => simp [scan] at h
    | succ fuel =>
      rw [scan] at h
      rcases hr : read file pos with e | _ | ⟨d, next⟩
      · rw [hr] at h; simp at h
      · rfl
      · rw [hr] at h
        obtain ⟨r', -, he⟩ := Option.map_eq_some_iff.mp h
        cases r' <;> simp [Except.map] at he
  · intro h
    exact ⟨1, by rw [scan, h]⟩

end Framing
