import Mathlib.Data.List.TakeWhile
import Mathlib.Tactic.Ring

/-!
# Pages of what passes a filter

A call reads a list on from a position, a stretch at a time and never more than could
still be held, keeps what passes a filter and stops once that is enough for a page.
What it holds beyond the page is gone, for the next call goes on behind all that was
read. So calls that follow each other cut the list into stretches, and deliver of each
what fits on a page.
-/

namespace Paging

variable {α : Type} (p : α → Bool) (limit count : Nat)

/-- What a call holds in the end, and what it leaves of the list. -/
def gather (held rest : List α) : List α × List α :=
  if rest.take (limit - held.length) = [] then (held, rest)
  else
    let held' := held ++ (rest.take (limit - held.length)).filter p
    let rest' := rest.drop (limit - held.length)
    if count ≤ held'.length then (held', rest') else gather held' rest'
termination_by rest.length
decreasing_by
  rename_i h _
  rw [List.take_eq_nil_iff, not_or] at h
  have hpos := List.length_pos_iff.mpr h.2
  rw [List.length_drop]
  omega

variable {p limit count} in
theorem gather_of_end {held rest : List α} (h : rest.take (limit - held.length) = []) :
    gather p limit count held rest = (held, rest) := by
  rw [gather, if_pos h]

variable {p limit count} in
theorem gather_of_next {held rest : List α} (h : rest.take (limit - held.length) ≠ []) :
    gather p limit count held rest =
      if count ≤ (held ++ (rest.take (limit - held.length)).filter p).length then
        (held ++ (rest.take (limit - held.length)).filter p, rest.drop (limit - held.length))
      else gather p limit count (held ++ (rest.take (limit - held.length)).filter p)
        (rest.drop (limit - held.length)) := by
  rw [gather, if_neg h]

/-- How a call ends: with what passes of a stretch, no more than the limit, and with a full page
or at the end of the list. -/
structure Gathered (held rest : List α) (r : List α × List α) : Prop where
  stretch : ∃ s, rest = s ++ r.2 ∧ r.1 = held ++ s.filter p
  within : held.length ≤ limit → r.1.length ≤ limit
  stops : held.length < limit → count ≤ r.1.length ∨ r.2 = []

theorem gathered (hcount : count ≤ limit) (held rest : List α) :
    Gathered p limit count held rest (gather p limit count held rest) := by
  fun_induction gather p limit count held rest with
  | case1 held rest h =>
      refine ⟨⟨[], rfl, (List.append_nil held).symm⟩, id, fun hlt => Or.inr ?_⟩
      rcases List.take_eq_nil_iff.mp h with hzero | hnil
      · omega
      · exact hnil
  | case2 held rest h held' rest' hle =>
      refine ⟨⟨rest.take (limit - held.length), (List.take_append_drop _ rest).symm, rfl⟩, ?_,
        fun _ => Or.inl hle⟩
      intro hheld
      have hfilter := List.length_filter_le p (rest.take (limit - held.length))
      have htake := List.length_take_le (limit - held.length) rest
      show (held ++ _).length ≤ limit
      rw [List.length_append]
      omega
  | case3 held rest h held' rest' hnot ih =>
      obtain ⟨⟨s, hs, hr⟩, hwithin, hstops⟩ := ih
      refine ⟨⟨rest.take (limit - held.length) ++ s, ?_, ?_⟩, fun _ => hwithin (by omega),
        fun _ => hstops (by omega)⟩
      · rw [List.append_assoc, ← hs]
        exact (List.take_append_drop _ rest).symm
      · rw [hr, List.filter_append, ← List.append_assoc]

/-! ## Call after call -/

/-- What calls deliver that follow each other, until one delivers nothing. -/
inductive Delivers {ι β : Type} (call : ι → List β → ι → Prop) : ι → List (List β) → Prop where
  | done {i j : ι} : call i [] j → Delivers call i []
  | page {i j : ι} {page : List β} {pages : List (List β)} : call i page j → page ≠ [] →
      Delivers call j pages → Delivers call i (page :: pages)

/-- How the calls cut the list: what is left behind the stretches holds nothing that passes. -/
structure Cut (l : List α) (stretches : List (List α)) : Prop where
  covers : ∃ tail, l = stretches.flatten ++ tail ∧ tail.filter p = []
  within : ∀ s ∈ stretches, (s.filter p).length ≤ limit

/-- **Calls that follow each other** cut the list, and deliver a page of each stretch. -/
theorem delivers {ι β : Type} {call : ι → List β → ι → Prop} {pos : List α → ι}
    {view : List α → List β} (hview : ∀ l, view l = [] ↔ l = []) (hpage : count ≠ 0)
    (hcount : count ≤ limit) : ∀ {n : Nat} {l : List α}, l.length ≤ n →
    (∀ rest, rest <:+ l → call (pos rest) (view ((gather p limit count [] rest).1.take count))
      (pos (gather p limit count [] rest).2)) →
    ∃ stretches, Cut p limit l stretches ∧
      Delivers call (pos l) (stretches.map (fun s => view ((s.filter p).take count))) := by
  intro n
  -- By induction on a bound for the length of what is left.
  induction n with
  | zero =>
      intro l hl hcall
      have hnil := List.length_eq_zero_iff.mp (Nat.le_zero.mp hl)
      subst hnil
      have h := hcall [] (List.suffix_refl [])
      have hgather : gather p limit count [] [] = ([], []) := gather_of_end List.take_nil
      rw [hgather, List.take_nil, (hview []).mpr rfl] at h
      exact ⟨[], ⟨⟨[], rfl, rfl⟩, by simp⟩, .done h⟩
  | succ n ih =>
      intro l hl hcall
      obtain ⟨⟨s, hs, hheld⟩, hwithin, hstops⟩ := gathered p limit count hcount [] l
      have h := hcall l (List.suffix_refl l)
      rw [List.nil_append] at hheld
      rw [hheld] at h hwithin hstops
      -- A page with nothing on it ends the calls.
      by_cases hnone : s.filter p = []
      · -- nothing is held, so the call came to the end
        rw [hnone, List.take_nil, (hview []).mpr rfl] at h
        have hend : (gather p limit count [] l).2 = [] := by
          refine (hstops (by rw [List.length_nil]; omega)).resolve_left ?_
          rw [hnone, List.length_nil]
          omega
        rw [hend, List.append_nil] at hs
        exact ⟨[], ⟨⟨s, hs, hnone⟩, by simp⟩, .done h⟩
      · have hne : s ≠ [] := by
          rintro rfl
          exact hnone rfl
        have hshorter : (gather p limit count [] l).2.length ≤ n := by
          have hlen := congrArg List.length hs
          have hpos := List.length_pos_iff.mpr hne
          rw [List.length_append] at hlen
          omega
        have hsuffix : (gather p limit count [] l).2 <:+ l := ⟨s, hs.symm⟩
        obtain ⟨stretches, ⟨⟨tail, htail, hlast⟩, hall⟩, hrest⟩ := ih hshorter
          (fun rest hrest => hcall rest (hrest.trans hsuffix))
        refine ⟨s :: stretches, ⟨⟨tail, ?_, hlast⟩, ?_⟩, .page h ?_ hrest⟩
        · rw [List.flatten_cons, List.append_assoc, ← htail]
          exact hs
        · intro s' hs'
          rcases List.mem_cons.mp hs' with rfl | hs'
          · exact hwithin (Nat.zero_le _)
          · exact hall s' hs'
        · rw [Ne, hview, List.take_eq_nil_iff, not_or]
          exact ⟨hpage, hnone⟩

/-! ## What is delivered -/

variable {p limit count} {l : List α} {stretches : List (List α)}

theorem Cut.filter_eq (h : Cut p limit l stretches) :
    l.filter p = (stretches.map (List.filter p)).flatten := by
  obtain ⟨tail, hl, hnone⟩ := h.covers
  rw [hl, List.filter_append, hnone, List.append_nil, List.filter_flatten]

theorem length_pages_le : ∀ stretches : List (List α),
    ((stretches.map (fun s => (s.filter p).take count)).flatten).length ≤
      ((stretches.map (List.filter p)).flatten).length
  | [] => le_refl _
  | s :: stretches => by
      have hrest := length_pages_le stretches
      have htake := List.length_take_le' count (s.filter p)
      rw [List.map_cons, List.map_cons, List.flatten_cons, List.flatten_cons, List.length_append,
        List.length_append]
      omega

/-- **Nothing is lost** exactly if no stretch holds more than a page. -/
theorem lossless_iff : ∀ stretches : List (List α),
    ((stretches.map (fun s => (s.filter p).take count)).flatten).length =
        ((stretches.map (List.filter p)).flatten).length ↔
      ∀ s ∈ stretches, (s.filter p).length ≤ count
  | [] => by simp
  | s :: stretches => by
      have hrest := @length_pages_le α p count stretches
      have hhead := List.length_take (i := count) (l := s.filter p)
      rw [List.map_cons, List.map_cons, List.flatten_cons, List.flatten_cons,
        List.forall_mem_cons, ← lossless_iff stretches, List.length_append, List.length_append]
      omega

theorem pages_of_within (h : ∀ s ∈ stretches, (s.filter p).length ≤ count) :
    stretches.map (fun s => (s.filter p).take count) = stretches.map (List.filter p) :=
  List.map_congr_left (fun s hs => List.take_of_length_le (h s hs))

/-- With a page as large as the limit no stretch holds more. -/
theorem Cut.within_of_limit (h : Cut p limit l stretches) (hcount : limit ≤ count) :
    ∀ s ∈ stretches, (s.filter p).length ≤ count :=
  fun s hs => (h.within s hs).trans hcount

end Paging
