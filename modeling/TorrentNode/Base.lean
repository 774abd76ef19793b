import Mathlib.Order.Lattice
import TorrentNode.Lib.BigEndian

/-!
# Bytes, strings and exceptions

What every module below shares: byte strings as the program holds them, the
exceptions it throws and the `CHECK` macro that throws most of them.
-/

instance instLinearOrderUInt64 : LinearOrder UInt64 where
  le_refl := UInt64.le_refl
  le_trans _ _ _ := UInt64.le_trans
  le_antisymm _ _ := UInt64.le_antisymm
  le_total := UInt64.le_total
  lt_iff_le_not_ge a b := by
    rw [UInt64.lt_iff_toNat_lt, UInt64.le_iff_toNat_le, UInt64.le_iff_toNat_le]; omega
  toDecidableLE := inferInstance
  toDecidableEq := inferInstance
  toDecidableLT := inferInstance

instance instLawfulBEqUInt8 : LawfulBEq UInt8 := inferInstance

namespace TorrentNode

/-- A byte string of any length. -/
abbrev Bytes : Type := List UInt8

/--
A `std::string`, `std::vector<char>` or `std::vector<unsigned char>`. None of
them can be longer than its `max_size()`, so a length always fits a `size_t`.
-/
abbrev Blob : Type := {b : Bytes // b.length < 2 ^ 63}

/-- What the program throws. -/
inductive Err where
  /-- `common::exception`, from `CHECK` and `throwErr`. -/
  | exception (msg : String)
  /-- `common::UserException`. -/
  | user (msg : String)
  /-- `common::StopException`. -/
  | stop
  /-- An exception of the standard library. -/
  | std (what : String)
  /-- No exception: an assertion of a library fails, or, in a build without assertions, memory
  is read that is not there. No handler sees it. -/
  | crash
  deriving DecidableEq, Repr

/-- A condition of the source whose failure throws an exception with this text. -/
def check (cond : Bool) (msg : String) : Except Err Unit :=
  if cond then .ok () else .error (.exception msg)

@[simp] theorem check_true (msg : String) : check true msg = .ok () := rfl

@[simp] theorem check_false (msg : String) : check false msg = .error (.exception msg) := rfl

/-- **Inversion** of a computation that may fail. -/
theorem bind_eq_ok {α β : Type} {x : Except Err α} {f : α → Except Err β} {b : β} :
    (x >>= f) = .ok b ↔ ∃ a, x = .ok a ∧ f a = .ok b := by
  cases x <;> simp [Bind.bind, Except.bind]

theorem check_bind_eq_ok {β : Type} {c : Bool} {msg : String} {m : Unit → Except Err β} {b : β} :
    (check c msg >>= m) = .ok b ↔ c = true ∧ m () = .ok b := by
  cases c <;> simp [Bind.bind, Except.bind]

theorem map_eq_ok {α β : Type} {x : Except Err α} {f : α → β} {b : β} :
    x.map f = .ok b ↔ ∃ a, x = .ok a ∧ f a = b := by
  cases x <;> simp [Except.map]

/-- A loop that succeeds on every element. -/
theorem mapM_eq_ok {α β : Type} {f : α → Except Err β} {g : α → β} :
    ∀ {l : List α}, (∀ a ∈ l, f a = .ok (g a)) → l.mapM f = .ok (l.map g)
  | [], _ => rfl
  | a :: l, h => by
      rw [List.mapM_cons, h a List.mem_cons_self,
        mapM_eq_ok (fun b hb => h b (List.mem_cons_of_mem _ hb))]
      rfl

/-- **Inversion** of a loop: it succeeded on every element. -/
theorem forall₂_of_mapM {α β : Type} {f : α → Except Err β} :
    ∀ {l : List α} {bs : List β}, l.mapM f = .ok bs → List.Forall₂ (fun a b => f a = .ok b) l bs
  | [], bs, h => by
      rw [List.mapM_nil] at h
      cases h
      exact List.Forall₂.nil
  | a :: l, bs, h => by
      rw [List.mapM_cons] at h
      obtain ⟨b, hb, h⟩ := bind_eq_ok.mp h
      obtain ⟨bs', hbs, h⟩ := bind_eq_ok.mp h
      cases h
      exact List.Forall₂.cons hb (forall₂_of_mapM hbs)

/-- What a loop made, element by element. -/
theorem mapM_eq_ok_iff {α β : Type} {f : α → Except Err β} :
    ∀ {l : List α} {bs : List β}, l.mapM f = .ok bs ↔ l.map f = bs.map .ok
  | [], [] => Iff.intro (fun _ => rfl) (fun _ => rfl)
  | [], b :: bs => by
      rw [List.mapM_nil]
      exact iff_of_false (fun h => by cases h) (fun h => by cases h)
  | a :: l, [] => by
      refine iff_of_false (fun h => ?_) (fun h => by cases h)
      cases forall₂_of_mapM h
  | a :: l, b :: bs => by
      rw [List.mapM_cons, List.map_cons, List.map_cons, List.cons.injEq, ← mapM_eq_ok_iff,
        bind_eq_ok]
      constructor
      · intro h
        obtain ⟨b', hb, h⟩ := h
        obtain ⟨bs', hbs, h⟩ := bind_eq_ok.mp h
        cases h
        exact ⟨hb, hbs⟩
      · intro h
        exact ⟨b, h.1, bind_eq_ok.mpr ⟨bs, h.2, rfl⟩⟩

theorem exists_of_forall₂ {α β : Type} {R : α → β → Prop} :
    ∀ {l : List α} {bs : List β}, List.Forall₂ R l bs → ∀ {a : α}, a ∈ l → ∃ b, R a b
  | _, _, .cons h _, a, ha => by
      rcases List.mem_cons.mp ha with rfl | ha
      · exact ⟨_, h⟩
      · exact exists_of_forall₂ (by assumption) ha

theorem flatMap_of_forall₂ {α β γ : Type} {R : α → β → Prop} {f : α → List γ} {g : β → List γ} :
    ∀ {l : List α} {bs : List β}, List.Forall₂ R l bs →
      (∀ a b, a ∈ l → R a b → g b = f a) → bs.flatMap g = l.flatMap f
  | _, _, .nil, _ => rfl
  | a :: l, b :: bs, .cons h hs, hgf => by
      rw [List.flatMap_cons, List.flatMap_cons, hgf a b List.mem_cons_self h,
        flatMap_of_forall₂ hs (fun a b ha => hgf a b (List.mem_cons_of_mem _ ha))]

/-- What a loop has made is made from an element. -/
theorem exists_of_mapM {α β : Type} {f : α → Except Err β} :
    ∀ {l : List α} {bs : List β}, l.mapM f = .ok bs → ∀ b ∈ bs, ∃ a ∈ l, f a = .ok b
  | [], bs, h, b, hb => by
      rw [List.mapM_nil] at h
      cases h
      cases hb
  | a :: l, bs, h, b, hb => by
      rw [List.mapM_cons] at h
      obtain ⟨b', hb', h⟩ := bind_eq_ok.mp h
      obtain ⟨bs', hbs, h⟩ := bind_eq_ok.mp h
      cases h
      rcases List.mem_cons.mp hb with rfl | hb
      · exact ⟨a, List.mem_cons_self, hb'⟩
      · obtain ⟨a', ha', heq⟩ := exists_of_mapM hbs b hb
        exact ⟨a', List.mem_cons_of_mem _ ha', heq⟩

/-- The characters of a literal, all of them ASCII. -/
def ascii (cs : List Char) : Bytes := cs.map (fun c => c.toUInt8)

/-- Bytes as the text of a message. -/
def text (b : Bytes) : String := String.ofList (b.map (fun c => Char.ofNat c.toNat))

/-- One hexadecimal digit. -/
def hexDigit (n : Nat) : Char :=
  if n < 10 then Char.ofNat (n + 48) else Char.ofNat (n - 10 + 97)

/-- Two digits for each byte, in small letters. -/
def toHex (b : Bytes) : String :=
  String.ofList (b.flatMap (fun c => [hexDigit (c.toNat / 16), hexDigit (c.toNat % 16)]))

/-- The characters of a hexadecimal string. -/
def hexBytes (b : Bytes) : Bytes := ascii (toHex b).toList

theorem hexBytes_cons (c : UInt8) (b : Bytes) :
    hexBytes (c :: b) = (hexDigit (c.toNat / 16)).toUInt8 :: (hexDigit (c.toNat % 16)).toUInt8 ::
      hexBytes b := by
  simp [hexBytes, toHex, ascii]

theorem hexDigit_injective : ∀ m < 16, ∀ n < 16,
    (hexDigit m).toUInt8 = (hexDigit n).toUInt8 → m = n := by
  decide

theorem hexDigit_ne_zero : ∀ n < 16, (hexDigit n).toUInt8 ≠ 0 := by
  decide

/-- **Different bytes have different hexadecimal strings.** -/
theorem hexBytes_injective : ∀ {a b : Bytes}, hexBytes a = hexBytes b → a = b
  | [], [], _ => rfl
  | [], c :: b, h => by
      rw [hexBytes_cons] at h
      cases h
  | c :: a, [], h => by
      rw [hexBytes_cons] at h
      cases h
  | c :: a, d :: b, h => by
      rw [hexBytes_cons, hexBytes_cons, List.cons.injEq, List.cons.injEq] at h
      obtain ⟨hhigh, hlow, hrest⟩ := h
      have hc := c.toNat_lt
      have hd := d.toNat_lt
      have hhigh := hexDigit_injective _ (by omega) _ (by omega) hhigh
      have hlow := hexDigit_injective _ (by omega) _ (by omega) hlow
      have hcd : c = d := UInt8.toNat_inj.mp (by omega)
      rw [hcd, hexBytes_injective hrest]

/-- A hexadecimal string has no zero in it. -/
theorem hexBytes_ne_zero : ∀ {b : Bytes}, ∀ c ∈ hexBytes b, c ≠ 0
  | [], c, h => by cases h
  | d :: b, c, h => by
      rw [hexBytes_cons, List.mem_cons, List.mem_cons] at h
      have hd := d.toNat_lt
      rcases h with rfl | rfl | h
      · exact hexDigit_ne_zero _ (by omega)
      · exact hexDigit_ne_zero _ (by omega)
      · exact hexBytes_ne_zero c h

namespace Blob

instance : Inhabited Blob := ⟨⟨[], by decide⟩⟩

instance : EmptyCollection Blob := ⟨⟨[], by decide⟩⟩

instance instLawfulBEq : LawfulBEq Blob := inferInstance

-- one byte, an address and a hash are short enough
theorem byte_fits : 1 < 2 ^ 63 := by decide

theorem address_fits : 25 < 2 ^ 63 := by decide

theorem hash_fits : 32 < 2 ^ 63 := by decide

theorem blk_fits : (ascii ['b', 'l', 'k']).length < 2 ^ 63 := by decide

/-- A blob of `n` equal bytes. -/
def replicate (n : Nat) (b : UInt8) (h : n < 2 ^ 63) : Blob :=
  ⟨List.replicate n b, by rw [List.length_replicate]; exact h⟩

/-- Nothing is in it. -/
def isEmpty (b : Blob) : Bool := b.val.isEmpty

/-- How many bytes it has. -/
def size (b : Blob) : Nat := b.val.length

/-- A string built out of these bytes: the library throws when it gets too long. -/
def ofBytes (b : Bytes) : Except Err Blob :=
  if h : b.length < 2 ^ 63 then .ok ⟨b, h⟩ else .error (.std "length_error")

@[simp] theorem ofBytes_val (b : Blob) : ofBytes b.val = .ok b := by
  unfold ofBytes; rw [dif_pos b.property]

theorem ofBytes_eq_ok {b : Bytes} {c : Blob} : ofBytes b = .ok c ↔ c.val = b := by
  unfold ofBytes
  split
  · rw [Except.ok.injEq, Subtype.ext_iff, eq_comm]
  · rename_i h
    refine ⟨fun he => by simp at he, fun he => ?_⟩
    exact absurd (he ▸ c.property) h

theorem isEmpty_iff {b : Blob} : b.isEmpty = true ↔ b.val = [] := List.isEmpty_iff

@[simp] theorem isEmpty_empty : isEmpty (∅ : Blob) = true := rfl

theorem isEmpty_eq_false {b : Blob} : b.isEmpty = false ↔ b ≠ ∅ := by
  rw [← Bool.not_eq_true, isEmpty_iff]
  exact not_congr (by rw [Subtype.ext_iff]; rfl)

end Blob

end TorrentNode
