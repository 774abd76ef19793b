import TorrentNode.Lib.Effect

/-!
# A component that programs only write

Two threads that share a component of their states do not disturb each other when
neither reads it: what one does to it is then a list of entries that the other threads
have no part in, whatever they do to the component in between.
-/

namespace Effect

variable {ε σ α : Type}

theorem exec_tryUpdate (f : σ → Except ε σ) (s : σ) :
    exec (tryUpdate f) s =
      match f s with
      | .ok s' => (.ok (), s')
      | .error e => (.error e, s) := rfl

theorem exec_tryModify (f : σ → Except ε (α × σ)) (s : σ) :
    exec (tryModify f) s =
      match f s with
      | .ok (a, s') => (.ok a, s')
      | .error e => (.error e, s) := rfl

end Effect

/-- A component of a state: how to put another one in place, and what an entry does to it. -/
structure SideLog (σ κ ρ : Type) where
  put : κ → σ → σ
  enter : κ → ρ → κ

namespace SideLog

open Effect

variable {ε σ κ ρ α β : Type} (d : SideLog σ κ ρ)

/-- The component after the entries of a log. -/
def entered (c : κ) (log : List ρ) : κ := log.foldl d.enter c

/-- The program makes entries and has no other use of the component: it runs alike whatever the
component is. -/
def Logs (m : Effect ε σ α) : Prop :=
  ∀ s, ∃ log : List ρ, ∀ c,
    exec m (d.put c s) = ((exec m s).1, d.put (d.entered c log) (exec m s).2)

variable {d}

theorem logs_pure (a : α) : d.Logs (pure a : Effect ε σ α) := fun _ => ⟨[], fun _ => rfl⟩

theorem logs_lift (x : Except ε α) : d.Logs (lift x : Effect ε σ α) := fun _ => ⟨[], fun _ => rfl⟩

theorem logs_read {f : σ → α} (h : ∀ c s, f (d.put c s) = f s) :
    d.Logs (read f : Effect ε σ α) := by
  intro s
  refine ⟨[], fun c => ?_⟩
  rw [exec_read, exec_read, h]
  rfl

/-- A change of the rest of the state. -/
theorem logs_update {f : σ → σ} (h : ∀ c s, f (d.put c s) = d.put c (f s)) :
    d.Logs (update f : Effect ε σ Unit) := by
  intro s
  refine ⟨[], fun c => ?_⟩
  rw [exec_update, exec_update, h]
  rfl

/-- An entry. -/
theorem logs_enter {f : σ → σ} {r : ρ} (h : ∀ c s, f (d.put c s) = d.put (d.enter c r) (f s)) :
    d.Logs (update f : Effect ε σ Unit) := by
  intro s
  refine ⟨[r], fun c => ?_⟩
  rw [exec_update, exec_update, h]
  rfl

theorem logs_tryUpdate {f : σ → Except ε σ} (h : ∀ c s, f (d.put c s) = (f s).map (d.put c)) :
    d.Logs (tryUpdate f) := by
  intro s
  refine ⟨[], fun c => ?_⟩
  rw [exec_tryUpdate, exec_tryUpdate, h]
  cases f s with
  | error e => rfl
  | ok s' => rfl

theorem logs_tryModify {f : σ → Except ε (α × σ)}
    (h : ∀ c s, f (d.put c s) = (f s).map (fun r => (r.1, d.put c r.2))) :
    d.Logs (tryModify f) := by
  intro s
  refine ⟨[], fun c => ?_⟩
  rw [exec_tryModify, exec_tryModify, h]
  cases f s with
  | error e => rfl
  | ok r => rfl

/-- A sequence makes the entries of its parts in their order. -/
theorem logs_bind {m : Effect ε σ α} {f : α → Effect ε σ β} (hm : d.Logs m)
    (hf : ∀ a, d.Logs (f a)) : d.Logs (m >>= f) := by
  intro s
  obtain ⟨log, hlog⟩ := hm s
  rcases he : exec m s with ⟨r, s'⟩
  cases r with
  | error e =>
      refine ⟨log, fun c => ?_⟩
      rw [exec_bind, exec_bind, hlog c, he]
  | ok a =>
      obtain ⟨log', hlog'⟩ := hf a s'
      refine ⟨log ++ log', fun c => ?_⟩
      rw [exec_bind, exec_bind, hlog c, he]
      show exec (f a) (d.put (d.entered c log) s') = _
      rw [hlog', entered, entered, entered, List.foldl_append]

theorem logs_ite {c : Prop} [Decidable c] {m m' : Effect ε σ α} (hm : d.Logs m)
    (hm' : d.Logs m') : d.Logs (if c then m else m') := by
  split
  · exact hm
  · exact hm'

theorem logs_each {f : α → Effect ε σ Unit} (h : ∀ a, d.Logs (f a)) :
    ∀ as : List α, d.Logs (each f as)
  | [] => logs_pure ()
  | a :: as => logs_bind (h a) (fun _ => logs_each h as)

end SideLog
