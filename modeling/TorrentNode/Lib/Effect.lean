import Mathlib.Init

/-!
# Programs with a state that survives exceptions

A program changes a state and returns a value or throws; what it changed before
it threw stays changed. Two judgements are enough for most proofs about such
programs: `Keeps R m`, every run of `m` moves the state along the preorder `R`,
and the inversion of a run that returned, step by step.
-/

/-- Programs over `σ` that throw `ε`. -/
abbrev Effect (ε σ α : Type) : Type := ExceptT ε (StateM σ) α

namespace Effect

variable {ε σ α β : Type}

/-- Run a program. -/
def exec (m : Effect ε σ α) (s : σ) : Except ε α × σ := m.run s

/-- A computation that has no state. -/
def lift (x : Except ε α) : Effect ε σ α := fun s => (x, s)

/-- Return something read off the state. -/
def read (f : σ → α) : Effect ε σ α := fun s => (.ok (f s), s)

/-- Change the state. -/
def update (f : σ → σ) : Effect ε σ Unit := fun s => (.ok (), f s)

/-- Change the state by a computation that may fail, and then leaves it as it is. -/
def tryUpdate (f : σ → Except ε σ) : Effect ε σ Unit := fun s =>
  match f s with
  | .ok s' => (.ok (), s')
  | .error e => (.error e, s)

/-- Change the state and return something, by a computation that may fail, and then leaves the
state as it is. -/
def tryModify (f : σ → Except ε (α × σ)) : Effect ε σ α := fun s =>
  match f s with
  | .ok (a, s') => (.ok a, s')
  | .error e => (.error e, s)

/-- `f` on each element in turn. -/
def each (f : α → Effect ε σ Unit) : List α → Effect ε σ Unit
  | [] => pure ()
  | a :: as => do
    f a
    each f as

@[simp] theorem exec_pure (a : α) (s : σ) : exec (pure a : Effect ε σ α) s = (.ok a, s) := rfl

@[simp] theorem exec_lift (x : Except ε α) (s : σ) : exec (lift x) s = (x, s) := rfl

@[simp] theorem exec_read (f : σ → α) (s : σ) :
    exec (read f : Effect ε σ α) s = (.ok (f s), s) := rfl

@[simp] theorem exec_update (f : σ → σ) (s : σ) :
    exec (update f : Effect ε σ Unit) s = (.ok (), f s) := rfl

theorem exec_bind (m : Effect ε σ α) (f : α → Effect ε σ β) (s : σ) :
    exec (m >>= f) s =
      match exec m s with
      | (.ok a, s') => exec (f a) s'
      | (.error e, s') => (.error e, s') := by
  unfold exec
  show (ExceptT.bind m f).run s = _
  simp only [ExceptT.bind, ExceptT.mk, ExceptT.run]
  show StateT.bind m (ExceptT.bindCont f) s = _
  unfold StateT.bind
  show (match m s with | (a, s') => ExceptT.bindCont f a s') = _
  rcases m s with ⟨r, s'⟩
  cases r <;> rfl

/-- **Inversion**: a sequence that returned ran both its parts. -/
theorem exec_bind_ok {m : Effect ε σ α} {f : α → Effect ε σ β} {s s'' : σ} {b : β} :
    exec (m >>= f) s = (.ok b, s'') ↔
      ∃ a s', exec m s = (.ok a, s') ∧ exec (f a) s' = (.ok b, s'') := by
  rw [exec_bind]
  rcases hm : exec m s with ⟨r, s'⟩
  cases r with
  | error e => simp
  | ok a =>
      constructor
      · intro h; exact ⟨a, s', rfl, h⟩
      · rintro ⟨a', t, ht, h⟩
        obtain ⟨ha, hs⟩ := Prod.mk.inj ht
        obtain rfl := Except.ok.inj ha
        obtain rfl := hs
        exact h

theorem exec_lift_ok {x : Except ε α} {s s' : σ} {a : α} :
    exec (lift x) s = (.ok a, s') ↔ x = .ok a ∧ s = s' := by
  rw [exec_lift, Prod.mk.injEq]

theorem exec_pure_ok {a b : α} {s s' : σ} :
    exec (pure a : Effect ε σ α) s = (.ok b, s') ↔ a = b ∧ s = s' := by
  rw [exec_pure, Prod.mk.injEq, Except.ok.injEq]

theorem exec_lift_bind_ok {x : Except ε α} {f : α → Effect ε σ β} {s s' : σ} {b : β} :
    exec (lift x >>= f) s = (.ok b, s') ↔ ∃ a, x = .ok a ∧ exec (f a) s = (.ok b, s') := by
  rw [exec_bind_ok]
  constructor
  · rintro ⟨a, t, hlift, h⟩
    obtain ⟨hx, rfl⟩ := exec_lift_ok.mp hlift
    exact ⟨a, hx, h⟩
  · rintro ⟨a, hx, h⟩
    exact ⟨a, s, exec_lift_ok.mpr ⟨hx, rfl⟩, h⟩

theorem exec_read_bind (g : σ → α) (f : α → Effect ε σ β) (s : σ) :
    exec (read g >>= f) s = exec (f (g s)) s := by
  rw [exec_bind, exec_read]

theorem exec_update_bind (g : σ → σ) (f : Unit → Effect ε σ β) (s : σ) :
    exec (update g >>= f) s = exec (f ()) (g s) := by
  rw [exec_bind, exec_update]

theorem exec_tryUpdate_ok {f : σ → Except ε σ} {s s' : σ} {u : Unit} :
    exec (tryUpdate f) s = (.ok u, s') ↔ f s = .ok s' := by
  unfold exec tryUpdate
  show (match f s with | .ok s' => _ | .error e => _) = _ ↔ _
  cases f s with
  | error e => simp
  | ok t => simp

theorem exec_tryModify_ok {f : σ → Except ε (α × σ)} {s s' : σ} {a : α} :
    exec (tryModify f) s = (.ok a, s') ↔ f s = .ok (a, s') := by
  unfold exec tryModify
  show (match f s with | .ok (a, s') => _ | .error e => _) = _ ↔ _
  cases f s with
  | error e => simp
  | ok r => simp [Prod.ext_iff]

/-- A loop that returned did so on every prefix. -/
theorem exec_each_append_ok {f : α → Effect ε σ Unit} :
    ∀ {xs ys : List α} {s s'' : σ}, exec (each f (xs ++ ys)) s = (.ok (), s'') →
      ∃ s', exec (each f xs) s = (.ok (), s') ∧ exec (each f ys) s' = (.ok (), s'')
  | [], _, s, _, h => ⟨s, rfl, h⟩
  | _ :: _, _, _, _, h => by
      obtain ⟨u, t, hx, h⟩ := exec_bind_ok.mp h
      obtain ⟨s', hxs, hys⟩ := exec_each_append_ok h
      exact ⟨s', exec_bind_ok.mpr ⟨u, t, hx, hxs⟩, hys⟩

/-- A relation that programs can move along. -/
class Frame (R : σ → σ → Prop) : Prop where
  refl : ∀ s, R s s
  trans : ∀ {s t u}, R s t → R t u → R s u

/-- Every run moves the state along `R`, also one that throws. -/
def Keeps (R : σ → σ → Prop) (m : Effect ε σ α) : Prop := ∀ s, R s (exec m s).2

theorem Keeps.of_exec {R : σ → σ → Prop} {m : Effect ε σ α} {s s' : σ} {r : Except ε α}
    (h : exec m s = (r, s')) (hm : Keeps R m) : R s s' := by
  have hs := hm s
  rwa [h] at hs

section Keeps

variable {R : σ → σ → Prop} [Frame R]

theorem keeps_pure (a : α) : Keeps R (pure a : Effect ε σ α) := fun s => Frame.refl s

theorem keeps_lift (x : Except ε α) : Keeps R (lift x : Effect ε σ α) := fun s => Frame.refl s

theorem keeps_read (f : σ → α) : Keeps R (read f : Effect ε σ α) := fun s => Frame.refl s

omit [Frame R] in
theorem keeps_update {f : σ → σ} (h : ∀ s, R s (f s)) : Keeps R (update f : Effect ε σ Unit) := h

theorem keeps_tryUpdate {f : σ → Except ε σ} (h : ∀ s s', f s = .ok s' → R s s') :
    Keeps R (tryUpdate f) := by
  intro s
  unfold exec tryUpdate
  show R s (match f s with
    | .ok s' => ((.ok (), s') : Except ε Unit × σ)
    | .error e => (.error e, s)).2
  cases hf : f s with
  | error e => exact Frame.refl s
  | ok s' => exact h s s' hf

theorem keeps_tryModify {f : σ → Except ε (α × σ)} (h : ∀ s a s', f s = .ok (a, s') → R s s') :
    Keeps R (tryModify f) := by
  intro s
  unfold exec tryModify
  show R s (match f s with
    | .ok (a, s') => ((.ok a, s') : Except ε α × σ)
    | .error e => (.error e, s)).2
  cases hf : f s with
  | error e => exact Frame.refl s
  | ok r => exact h s r.1 r.2 hf

omit [Frame R] in
theorem keeps_read_bind {g : σ → α} {f : α → Effect ε σ β}
    (h : ∀ s, R s (exec (f (g s)) s).2) : Keeps R (read g >>= f) := by
  intro s
  rw [exec_read_bind]
  exact h s

theorem keeps_bind {m : Effect ε σ α} {f : α → Effect ε σ β} (hm : Keeps R m)
    (hf : ∀ a, Keeps R (f a)) : Keeps R (m >>= f) := by
  intro s
  have h1 := hm s
  rw [exec_bind]
  rcases he : exec m s with ⟨r, s'⟩
  rw [he] at h1
  cases r with
  | error e => exact h1
  | ok a => exact Frame.trans h1 (hf a s')

/-- The second part only has to keep what the first can leave it. -/
theorem keeps_bind_of {m : Effect ε σ α} {f : α → Effect ε σ β} (hm : Keeps R m)
    (hf : ∀ s a s', exec m s = (.ok a, s') → R s' (exec (f a) s').2) : Keeps R (m >>= f) := by
  intro s
  have h1 := hm s
  rw [exec_bind]
  rcases he : exec m s with ⟨r, s'⟩
  rw [he] at h1
  cases r with
  | error e => exact h1
  | ok a => exact Frame.trans h1 (hf s a s' he)

omit [Frame R] in
theorem keeps_ite {c : Prop} [Decidable c] {m m' : Effect ε σ α} (hm : Keeps R m)
    (hm' : Keeps R m') : Keeps R (if c then m else m') := by
  split
  · exact hm
  · exact hm'

/-- A loop keeps what its body keeps. -/
theorem keeps_each {f : α → Effect ε σ Unit} (h : ∀ a, Keeps R (f a)) :
    ∀ as : List α, Keeps R (each f as)
  | [] => keeps_pure ()
  | a :: as => keeps_bind (h a) (fun _ => keeps_each h as)

end Keeps

/-- **The induction over a loop that returned**: an invariant of the elements done so far. -/
theorem exec_each_ok {f : α → Effect ε σ Unit} {I : List α → σ → Prop}
    (hstep : ∀ done a s s', I done s → exec (f a) s = (.ok (), s') → I (done ++ [a]) s') :
    ∀ {as done : List α} {s s' : σ}, I done s → exec (each f as) s = (.ok (), s') →
      I (done ++ as) s'
  | [], done, s, s', hI, h => by
      obtain ⟨_, rfl⟩ := Prod.mk.inj h
      rwa [List.append_nil]
  | a :: as, done, s, s', hI, h => by
      obtain ⟨_, t, ha, has⟩ := exec_bind_ok.mp h
      have hI' := exec_each_ok hstep (hstep done a s t hI ha) has
      rwa [List.append_assoc] at hI'

end Effect
