import Mathlib.Data.Set.Finite.List
import TorrentNode.Base
import TorrentNode.Lib.ParentChain

/-!
# The graph of servers (`Graph`, `P2P_Graph`)

A node that sits in a graph sends to its parent, and when that does not answer to the
parent of the parent, and so on. The graph is made from a list of edges, of which only
one thing is checked: that no child has two parents.
-/

namespace TorrentNode

/-- `Graph<std::string>::Element`; a parent is a place in the deque. -/
structure GraphElement where
  element : Blob
  parent : Option Nat
  deriving DecidableEq

/-- `Graph<std::string>`. -/
structure GraphString where
  elements : List GraphElement
  deriving DecidableEq

namespace GraphString

/-- Where an element stands. -/
def place (g : GraphString) (element : Blob) : Option Nat :=
  g.elements.findIdx? (fun el => el.element = element)

/-- The place of an element, which is added if it is not there. -/
def findOrAdd (g : GraphString) (element : Blob) : Nat × GraphString :=
  match g.place element with
  | some i => (i, g)
  | none => (g.elements.length, { elements := g.elements ++ [{ element, parent := none }] })

/-- `isParent` of the element at a place. -/
def isParent (g : GraphString) (i : Nat) : Bool := (g.elements[i]?.bind GraphElement.parent).isSome

/-- `addEdge(parent, child)`: a child has one parent. -/
def addEdge (g : GraphString) (parent child : Blob) : Except Err GraphString := do
  let (first, g) := g.findOrAdd parent
  let (second, g) := g.findOrAdd child
  check (!g.isParent second) ("Child " ++ text child.val ++ " already has a parent")
  pure { elements := g.elements.modify second (fun el => { el with parent := some first }) }

/-- `findElement`: the place of an element that is there. -/
def findElement (g : GraphString) (element : Blob) : Except Err Nat :=
  match g.place element with
  | some i => .ok i
  | none => .error (.exception ("Element " ++ text element.val ++ " not found in graph"))

/-- `getParent`: the place of the parent of an element that has one. -/
def getParent (g : GraphString) (i : Nat) : Except Err Nat :=
  match g.elements[i]? with
  | none => .error (.std "out_of_range")
  | some el =>
    match el.parent with
    | none => .error (.exception ("Not parent in element " ++ text el.element.val))
    | some parent => .ok parent

end GraphString

/-- A `P2P_Graph`: its graph and the place of the parent of this node. -/
structure P2P_Graph where
  graph : GraphString
  parent : Nat
  countConnections : Nat

namespace P2P_Graph

/-- The constructor. -/
def new (graphVec : List (Blob × Blob)) (thisIp : Blob) (countConnections : Nat) :
    Except Err P2P_Graph := do
  check (countConnections != 0) "Incorrect count connections: 0"
  let graph ← graphVec.foldlM (fun g e => g.addEdge e.1 e.2) { elements := [] }
  let thisElement ← graph.findElement thisIp
  let parent ← graph.getParent thisElement
  pure { graph, parent, countConnections }

/-- A call of the callback of `broadcast`. -/
structure Report where
  server : Blob
  response : Blob
  error : Option String
  deriving DecidableEq

/-- The loop of `broadcast`, for some rounds from the attempt `k` on: the calls of the callback, and
how it ended if it did. -/
def broadcastFrom (graph : GraphString) (request : Nat → Blob → Except Err Blob) :
    Nat → Nat → Nat → List Report × Option (Except Err Unit)
  | 0, _, _ => ([], none)
  | fuel + 1, k, curServ =>
    match graph.elements[curServ]? with
    | none => ([], some (.error (.std "out_of_range")))
    | some el =>
      match request k el.element with
      | .ok response => ([{ server := el.element, response, error := none }], some (.ok ()))
      | .error (.exception msg) =>
        let report : Report := { server := el.element, response := ∅, error := some msg }
        match el.parent with
        | none => ([report], some (.error (.exception "Servers end")))
        | some parent =>
          let rest := broadcastFrom graph request fuel (k + 1) parent
          (report :: rest.1, rest.2)
      | .error e => ([], some (.error e))

/-- `broadcast`, for some rounds of its loop; `request k server` is what the attempt `k` brings. -/
def broadcast (p : P2P_Graph) (request : Nat → Blob → Except Err Blob) (fuel : Nat) :
    List Report × Option (Except Err Unit) := broadcastFrom p.graph request fuel 0 p.parent

end P2P_Graph

namespace GraphString

/-- The parent of an element. -/
def up (g : GraphString) (x : Blob) : Option Blob :=
  (g.elements.find? (fun el => el.element = x)).bind (fun el =>
    el.parent.bind (fun parent => g.elements[parent]?.map GraphElement.element))

/-- What the constructor makes of a list of edges. -/
structure MadeOf (edges : List (Blob × Blob)) (g : GraphString) : Prop where
  nodup : (g.elements.map GraphElement.element).Nodup
  inRange : ∀ el ∈ g.elements, ∀ parent, el.parent = some parent → parent < g.elements.length
  up_eq : ∀ x y, g.up x = some y ↔ (y, x) ∈ edges

variable {edges : List (Blob × Blob)} {g g' : GraphString} {x y : Blob} {i : Nat}
  {el : GraphElement}

theorem find?_of_getElem? (hnodup : (g.elements.map GraphElement.element).Nodup)
    (h : g.elements[i]? = some el) :
    g.elements.find? (fun el' => el'.element = el.element) = some el := by
  have hmem : el ∈ g.elements := List.mem_of_getElem? h
  cases hfind : g.elements.find? (fun el' => el'.element = el.element) with
  | none => exact absurd (List.find?_eq_none.mp hfind el hmem) (by simp)
  | some el' =>
      have heq : el'.element = el.element := by simpa using List.find?_some hfind
      exact congrArg some (List.inj_on_of_nodup_map hnodup (List.mem_of_find?_eq_some hfind) hmem heq)

theorem up_of_getElem? (hnodup : (g.elements.map GraphElement.element).Nodup)
    (h : g.elements[i]? = some el) :
    g.up el.element = el.parent.bind (fun parent => g.elements[parent]?.map GraphElement.element) := by
  unfold up
  rw [find?_of_getElem? hnodup h]
  rfl

theorem place_eq_some (h : g.place x = some i) :
    ∃ el, g.elements[i]? = some el ∧ el.element = x := by
  obtain ⟨hi, hx, _⟩ := List.findIdx?_eq_some_iff_getElem.mp h
  exact ⟨g.elements[i], List.getElem?_eq_getElem hi, by simpa using hx⟩

theorem place_eq_none (h : g.place x = none) : x ∉ g.elements.map GraphElement.element := by
  intro hmem
  obtain ⟨el, hel, rfl⟩ := List.mem_map.mp hmem
  have hnone := List.findIdx?_eq_none_iff.mp h el hel
  simp at hnone

theorem up_of_not_mem (h : x ∉ g.elements.map GraphElement.element) : g.up x = none := by
  have hnone : g.elements.find? (fun el => el.element = x) = none := by
    refine List.find?_eq_none.mpr (fun el hel => ?_)
    intro heq
    exact h (List.mem_map.mpr ⟨el, hel, by simpa using heq⟩)
  unfold up
  rw [hnone]
  rfl

/-- `findOrAdd` finds the element in a graph with the same parents. -/
theorem findOrAdd_madeOf (h : MadeOf edges g) (x : Blob) :
    MadeOf edges (g.findOrAdd x).2 ∧
      (∃ el, (g.findOrAdd x).2.elements[(g.findOrAdd x).1]? = some el ∧ el.element = x) ∧
      ∀ (i : Nat) el, g.elements[i]? = some el → (g.findOrAdd x).2.elements[i]? = some el := by
  unfold findOrAdd
  cases hplace : g.place x with
  | some i => exact ⟨h, place_eq_some hplace, fun _ _ hi => hi⟩
  | none =>
      have hnew := place_eq_none hplace
      -- The places of the elements that were there stay as they are.
      have hkeep : ∀ (i : Nat) el, g.elements[i]? = some el →
          (g.elements ++ [(⟨x, none⟩ : GraphElement)])[i]? = some el := by
        intro i el hi
        rw [List.getElem?_append_left (List.getElem?_eq_some_iff.mp hi).1]
        exact hi
      have hlast : (g.elements ++ [(⟨x, none⟩ : GraphElement)])[g.elements.length]? =
          some ⟨x, none⟩ := by
        rw [List.getElem?_append_right (Nat.le_refl _), Nat.sub_self]
        rfl
      have hnodup : ((g.elements ++ [(⟨x, none⟩ : GraphElement)]).map
          GraphElement.element).Nodup := by
        rw [List.map_append, List.nodup_append]
        refine ⟨h.nodup, List.nodup_singleton _, fun a ha b hb => ?_⟩
        rintro rfl
        rw [List.map_singleton, List.mem_singleton] at hb
        rw [hb] at ha
        exact hnew ha
      refine ⟨⟨hnodup, ?_, fun y z => ?_⟩, ⟨_, hlast, rfl⟩, hkeep⟩
      · intro el hel parent hparent
        rw [List.length_append]
        rcases List.mem_append.mp hel with hel | hel
        · exact Nat.lt_add_right _ (h.inRange el hel parent hparent)
        · rw [List.mem_singleton.mp hel] at hparent
          cases hparent
      -- The new element has no parent, and is that of none.
      · rw [← h.up_eq y z]
        by_cases hy : y ∈ g.elements.map GraphElement.element
        · obtain ⟨el, hel, rfl⟩ := List.mem_map.mp hy
          obtain ⟨i, hi⟩ := List.getElem?_of_mem hel
          rw [up_of_getElem? (g := ⟨_⟩) hnodup (hkeep i el hi), up_of_getElem? h.nodup hi]
          cases hparent : el.parent with
          | none => rfl
          | some parent =>
              have hlt := h.inRange el hel parent hparent
              rw [Option.bind_some, Option.bind_some,
                hkeep parent g.elements[parent] (List.getElem?_eq_getElem hlt),
                List.getElem?_eq_getElem hlt]
        · rw [up_of_not_mem hy]
          have hnone : GraphString.up ⟨g.elements ++ [(⟨x, none⟩ : GraphElement)]⟩ y = none := by
            by_cases hyx : y = x
            · subst hyx
              have hup := up_of_getElem? (g := ⟨_⟩) hnodup hlast
              exact hup
            · refine up_of_not_mem ?_
              show y ∉ (g.elements ++ [(⟨x, none⟩ : GraphElement)]).map GraphElement.element
              rw [List.map_append, List.mem_append, not_or, List.map_singleton,
                List.mem_singleton]
              exact ⟨hy, hyx⟩
          rw [hnone]

/-- Give the element at `j` the parent at `i`. -/
def link (g : GraphString) (i j : Nat) : GraphString :=
  { elements := g.elements.modify j (fun el => { el with parent := some i }) }

theorem getElem?_link (g : GraphString) (i j k : Nat) :
    (g.link i j).elements[k]? =
      (g.elements[k]?).map (fun el => if j = k then { el with parent := some i } else el) := by
  unfold link
  rw [List.getElem?_modify]
  split
  · rfl
  · cases g.elements[k]? with
    | none => rfl
    | some el => rfl

theorem element_link (g : GraphString) (i j k : Nat) :
    (g.link i j).elements[k]?.map GraphElement.element =
      g.elements[k]?.map GraphElement.element := by
  rw [getElem?_link, Option.map_map]
  cases g.elements[k]? with
  | none => rfl
  | some el =>
      show some (GraphElement.element (if j = k then _ else el)) = some el.element
      split
      · rfl
      · rfl

theorem elements_link (g : GraphString) (i j : Nat) :
    (g.link i j).elements.map GraphElement.element = g.elements.map GraphElement.element := by
  refine List.ext_getElem? (fun k => ?_)
  rw [List.getElem?_map, List.getElem?_map, element_link]

/-- A new parent for an element that has none is a new edge. -/
theorem link_madeOf {j : Nat} {parent child : GraphElement} (h : MadeOf edges g)
    (hi : g.elements[i]? = some parent) (hj : g.elements[j]? = some child)
    (hnone : child.parent = none) :
    MadeOf (edges ++ [(parent.element, child.element)]) (g.link i j) := by
  have hlength : (g.link i j).elements.length = g.elements.length := List.length_modify _ _ _
  have hnodup : ((g.link i j).elements.map GraphElement.element).Nodup := by
    rw [elements_link]
    exact h.nodup
  have hchild : (g.link i j).elements[j]? = some { child with parent := some i } := by
    rw [getElem?_link, hj, Option.map_some, if_pos rfl]
  refine ⟨hnodup, ?_, fun x y => ?_⟩
  · intro el hel p hp
    obtain ⟨k, hk⟩ := List.getElem?_of_mem hel
    rw [getElem?_link, Option.map_eq_some_iff] at hk
    obtain ⟨old, hold, rfl⟩ := hk
    rw [hlength]
    split at hp
    · obtain rfl := Option.some.inj hp
      exact (List.getElem?_eq_some_iff.mp hi).1
    · exact h.inRange old (List.mem_of_getElem? hold) p hp
  · by_cases hx : x = child.element
    · subst hx
      have hup : (g.link i j).up child.element = some parent.element := by
        have hup := up_of_getElem? hnodup hchild
        rw [hup, Option.bind_some, element_link, hi]
        rfl
      -- No edge had led to the child, for it had no parent.
      have hold : ∀ y, (y, child.element) ∉ edges := by
        intro y hy
        have hup := (h.up_eq child.element y).mpr hy
        rw [up_of_getElem? h.nodup hj, hnone] at hup
        cases hup
      rw [hup, List.mem_append, or_iff_right (hold y), List.mem_singleton, Prod.mk.injEq,
        and_iff_left rfl, Option.some.injEq, eq_comm]
    -- The parents of the others are as they were.
    · have hup : (g.link i j).up x = g.up x := by
        by_cases hmem : x ∈ g.elements.map GraphElement.element
        · obtain ⟨el, hel, rfl⟩ := List.mem_map.mp hmem
          obtain ⟨k, hk⟩ := List.getElem?_of_mem hel
          have hne : j ≠ k := by
            rintro rfl
            exact hx (congrArg GraphElement.element (Option.some.inj (hk.symm.trans hj)))
          have hk' : (g.link i j).elements[k]? = some el := by
            rw [getElem?_link, hk, Option.map_some, if_neg hne]
          rw [up_of_getElem? hnodup hk', up_of_getElem? h.nodup hk]
          exact congrArg (Option.bind el.parent) (funext (fun p => element_link g i j p))
        · rw [up_of_not_mem hmem, up_of_not_mem (by rw [elements_link]; exact hmem)]
      rw [hup, h.up_eq x y, List.mem_append, List.mem_singleton, Prod.mk.injEq]
      exact (or_iff_left (fun heq => hx heq.2)).symm

theorem addEdge_eq (g : GraphString) (parent child : Blob) :
    g.addEdge parent child =
      let first := g.findOrAdd parent
      let second := first.2.findOrAdd child
      (check (!second.2.isParent second.1) ("Child " ++ text child.val ++ " already has a parent")
        >>= fun _ => pure (second.2.link first.1 second.1)) := rfl

theorem addEdge_madeOf {parent child : Blob} (h : MadeOf edges g)
    (hadd : g.addEdge parent child = .ok g') : MadeOf (edges ++ [(parent, child)]) g' := by
  obtain ⟨hfirst, ⟨p, hp, hparent⟩, _⟩ := findOrAdd_madeOf h parent
  obtain ⟨hsecond, ⟨c, hc, hchild⟩, hkeep⟩ := findOrAdd_madeOf hfirst child
  rw [addEdge_eq] at hadd
  obtain ⟨hcheck, hlink⟩ := check_bind_eq_ok.mp hadd
  have hnone : c.parent = none := by
    unfold isParent at hcheck
    rw [hc, Option.bind_some] at hcheck
    simpa using hcheck
  have hall := link_madeOf hsecond (hkeep _ _ hp) hc hnone
  rw [hparent, hchild] at hall
  obtain rfl := Except.ok.inj hlink
  exact hall

/-- **A graph is made of its edges.** -/
theorem madeOf_foldlM : ∀ {more edges : List (Blob × Blob)} {g g' : GraphString},
    MadeOf edges g → more.foldlM (fun g e => g.addEdge e.1 e.2) g = .ok g' →
      MadeOf (edges ++ more) g'
  | [], edges, g, g', h, hrun => by
      rw [List.foldlM_nil] at hrun
      rw [← Except.ok.inj hrun, List.append_nil]
      exact h
  | e :: more, edges, g, g', h, hrun => by
      rw [List.foldlM_cons] at hrun
      obtain ⟨g₁, hadd, hrun⟩ := bind_eq_ok.mp hrun
      have hall := madeOf_foldlM (addEdge_madeOf h hadd) hrun
      rwa [List.append_assoc] at hall

theorem madeOf_empty : MadeOf [] { elements := [] } where
  nodup := List.nodup_nil
  inRange _ h := absurd h List.not_mem_nil
  up_eq _ _ := iff_of_false (by simp [up]) List.not_mem_nil

end GraphString

namespace P2P_Graph

open ParentChain

/-- Above a node in the graph of these edges. -/
def Ancestor (edges : List (Blob × Blob)) : Blob → Blob → Prop :=
  Relation.TransGen (fun x y => (y, x) ∈ edges)

/-- No server answers, whenever it is asked. -/
def AllFail (request : Nat → Blob → Except Err Blob) : Prop :=
  ∀ k server, ∃ msg, request k server = .error (.exception msg)

/-- `broadcast` ends with an exception when it has reported the failure of each ancestor once, the
nearest first. -/
def ReportsAncestors (edges : List (Blob × Blob)) (thisIp : Blob) (p : P2P_Graph)
    (request : Nat → Blob → Except Err Blob) : Prop :=
  ∃ fuel reports, p.broadcast request fuel = (reports, some (.error (.exception "Servers end"))) ∧
    (reports.map Report.server).Nodup ∧
    (∀ a, a ∈ reports.map Report.server ↔ Ancestor edges thisIp a) ∧
    List.IsChain (fun x y => (y, x) ∈ edges) (thisIp :: reports.map Report.server) ∧
    ∀ r ∈ reports, r.response = ∅ ∧ r.error.isSome

variable {edges : List (Blob × Blob)} {thisIp : Blob} {count : Nat} {p : P2P_Graph}
  {g : GraphString} {request : Nat → Blob → Except Err Blob}

theorem above_iff (h : g.MadeOf edges) {x a : Blob} : Above g.up x a ↔ Ancestor edges x a := by
  have hsame : (fun x y => g.up x = some y) = (fun x y => (y, x) ∈ edges) :=
    funext (fun x => funext (fun y => propext (h.up_eq x y)))
  unfold Above Ancestor
  rw [hsame]

/-- Where the parent of an element stands. -/
theorem getElem?_parent (h : g.MadeOf edges) {i : Nat} {el : GraphElement}
    (hi : g.elements[i]? = some el) {parent : Nat} (hparent : el.parent = some parent) :
    ∃ el', g.elements[parent]? = some el' ∧ g.up el.element = some el'.element := by
  have hlt := h.inRange el (List.mem_of_getElem? hi) parent hparent
  refine ⟨g.elements[parent], List.getElem?_eq_getElem hlt, ?_⟩
  rw [GraphString.up_of_getElem? h.nodup hi, hparent, Option.bind_some,
    List.getElem?_eq_getElem hlt]
  rfl

theorem up_eq_none (h : g.MadeOf edges) {i : Nat} {el : GraphElement}
    (hi : g.elements[i]? = some el) (hparent : el.parent = none) : g.up el.element = none := by
  rw [GraphString.up_of_getElem? h.nodup hi, hparent]
  rfl

/-- Up a chain that ends, the loop reports it and throws. -/
theorem broadcastFrom_of_ends (h : g.MadeOf edges) (hfail : AllFail request) :
    ∀ (l : List Blob) (k i : Nat) (el : GraphElement), g.elements[i]? = some el →
      Ends g.up el.element l → ∃ reports,
        broadcastFrom g request (l.length + 1) k i =
          (reports, some (.error (.exception "Servers end"))) ∧
        reports.map Report.server = el.element :: l ∧
        ∀ r ∈ reports, r.response = ∅ ∧ r.error.isSome
  -- By induction on the way up: the next ancestor is asked after a failure.
  | l, k, i, el, hi, hends => by
      obtain ⟨msg, hmsg⟩ := hfail k el.element
      -- Without a parent the walk is over; else it goes on there, where one fewer is left.
      cases hparent : el.parent with
      | none =>
          have hnil : l = [] := hends.unique (.top (up_eq_none h hi hparent))
          subst hnil
          refine ⟨[⟨el.element, ∅, some msg⟩], ?_, rfl, ?_⟩
          · simp only [broadcastFrom, hi, hmsg, hparent]
          · intro r hr
            rw [List.mem_singleton.mp hr]
            exact ⟨rfl, rfl⟩
      | some parent =>
          obtain ⟨el', hi', hup⟩ := getElem?_parent h hi hparent
          cases hends with
          | top hnone => rw [hup] at hnone; cases hnone
          | @step _ b l hsome hrest =>
              obtain rfl := Option.some.inj (hup.symm.trans hsome)
              obtain ⟨reports, hrun, hservers, hall⟩ :=
                broadcastFrom_of_ends h hfail l (k + 1) parent el' hi' hrest
              refine ⟨⟨el.element, ∅, some msg⟩ :: reports, ?_, ?_, ?_⟩
              · rw [List.length_cons, broadcastFrom]
                simp only [hi, hmsg, hparent, hrun]
              · rw [List.map_cons, hservers]
              · intro r hr
                rcases List.mem_cons.mp hr with rfl | hr
                · exact ⟨rfl, rfl⟩
                · exact hall r hr

/-- And it ends only where the chain does. -/
theorem ends_of_broadcastFrom (h : g.MadeOf edges) (hfail : AllFail request) :
    ∀ (fuel k i : Nat) (el : GraphElement) (reports : List Report) (outcome : Except Err Unit),
      g.elements[i]? = some el → broadcastFrom g request fuel k i = (reports, some outcome) →
        ∃ l, Ends g.up el.element l
  | 0, _, _, _, _, _, _, hrun => by cases (Prod.mk.inj hrun).2
  | fuel + 1, k, i, el, reports, outcome, hi, hrun => by
      obtain ⟨msg, hmsg⟩ := hfail k el.element
      cases hparent : el.parent with
      | none => exact ⟨[], .top (up_eq_none h hi hparent)⟩
      | some parent =>
          obtain ⟨el', hi', hup⟩ := getElem?_parent h hi hparent
          rw [broadcastFrom] at hrun
          simp only [hi, hmsg, hparent] at hrun
          obtain ⟨l, hl⟩ := ends_of_broadcastFrom h hfail fuel (k + 1) parent el' _ outcome hi'
            (Prod.ext rfl (Prod.mk.inj hrun).2)
          exact ⟨el'.element :: l, .step hup hl⟩

/-- What the constructor accepts. -/
theorem new_ok (h : new edges thisIp count = .ok p) : p.graph.MadeOf edges ∧
    ∃ el, p.graph.elements[p.parent]? = some el ∧ p.graph.up thisIp = some el.element := by
  obtain ⟨_, h⟩ := check_bind_eq_ok.mp h
  obtain ⟨graph, hgraph, h⟩ := bind_eq_ok.mp h
  obtain ⟨this, hthis, h⟩ := bind_eq_ok.mp h
  obtain ⟨parent, hparent, h⟩ := bind_eq_ok.mp h
  obtain rfl := Except.ok.inj h
  have hmade : graph.MadeOf edges := GraphString.madeOf_foldlM GraphString.madeOf_empty hgraph
  refine ⟨hmade, ?_⟩
  unfold GraphString.findElement at hthis
  cases hplace : graph.place thisIp with
  | none => rw [hplace] at hthis; cases hthis
  | some i =>
      rw [hplace] at hthis
      obtain rfl := Except.ok.inj hthis
      obtain ⟨el, hel, rfl⟩ := GraphString.place_eq_some hplace
      unfold GraphString.getParent at hparent
      rw [hel] at hparent
      dsimp only at hparent
      cases hp : el.parent with
      | none => rw [hp] at hparent; cases hparent
      | some q =>
          rw [hp] at hparent
          obtain rfl := Except.ok.inj hparent
          exact getElem?_parent hmade hel hp

/-- There are no more ancestors than edges. -/
theorem finite_above (h : g.MadeOf edges) (x : Blob) : {a | Above g.up x a}.Finite := by
  refine (List.finite_toSet (edges.map Prod.fst)).subset (fun a ha => ?_)
  obtain ⟨b, _, hb⟩ := Relation.TransGen.tail'_iff.mp ha
  exact List.mem_map.mpr ⟨(a, b), (h.up_eq b a).mp hb, rfl⟩

/-- **When no server answers, `broadcast` reports every ancestor once and throws iff there is no
cycle among the ancestors.** -/
theorem reportsAncestors_iff (hnew : new edges thisIp count = .ok p) (hfail : AllFail request) :
    ReportsAncestors edges thisIp p request ↔
      ∀ a, Ancestor edges thisIp a → ¬ Ancestor edges a a := by
  obtain ⟨hmade, el, hi, hup⟩ := new_ok hnew
  constructor
  · rintro ⟨fuel, reports, hrun, _⟩ a ha hcycle
    obtain ⟨l, hl⟩ := ends_of_broadcastFrom hmade hfail fuel 0 p.parent el reports _ hi hrun
    have hthis : Ends p.graph.up thisIp (el.element :: l) := .step hup hl
    obtain ⟨l', hl', _⟩ := hthis.of_above ((above_iff hmade).mpr ha)
    exact hl'.not_above_self ((above_iff hmade).mpr hcycle)
  · intro hacyclic
    obtain ⟨l, hl⟩ := exists_ends (finite_above hmade thisIp) (fun a ha hcycle =>
      hacyclic a ((above_iff hmade).mp ha) ((above_iff hmade).mp hcycle))
    cases hl with
    | top hnone => rw [hup] at hnone; cases hnone
    | @step _ b l hsome hl =>
        obtain rfl := Option.some.inj (hup.symm.trans hsome)
        have hthis : Ends p.graph.up thisIp (el.element :: l) := .step hup hl
        obtain ⟨reports, hrun, hservers, hall⟩ :=
          broadcastFrom_of_ends hmade hfail l 0 p.parent el hi hl
        refine ⟨l.length + 1, reports, hrun, ?_, fun a => ?_, ?_, hall⟩
        · rw [hservers]
          exact hthis.nodup
        · rw [hservers, hthis.mem_iff, above_iff hmade]
        · rw [hservers]
          exact hthis.isChain.imp (fun x y hxy => (hmade.up_eq x y).mp hxy)

/-- A server of one letter. -/
def serverOf (byte : UInt8) : Blob := Blob.replicate 1 byte Blob.byte_fits

/-- A node two steps below the root, with another server beside it. -/
def threeServers : List (Blob × Blob) :=
  [(serverOf 2, serverOf 3), (serverOf 1, serverOf 2), (serverOf 1, serverOf 4)]

theorem reportsAncestors_threeServers :
    ∃ p, new threeServers (serverOf 3) 1 = .ok p ∧
      (ReportsAncestors threeServers (serverOf 3) p (fun _ _ => .error (.exception "no answer")) ↔
        ∀ a, Ancestor threeServers (serverOf 3) a → ¬ Ancestor threeServers a a) := by
  obtain ⟨p, hnew⟩ : ∃ p, new threeServers (serverOf 3) 1 = .ok p := ⟨_, rfl⟩
  exact ⟨p, hnew, reportsAncestors_iff hnew (fun _ _ => ⟨_, rfl⟩)⟩

/-- Two servers, each the parent of the other. -/
def twoParents : List (Blob × Blob) :=
  [(serverOf 1, serverOf 2), (serverOf 2, serverOf 1)]

theorem not_reportsAncestors_twoParents :
    ¬ ∀ (edges : List (Blob × Blob)) (thisIp : Blob) (count : Nat) (p : P2P_Graph)
      (request : Nat → Blob → Except Err Blob), new edges thisIp count = .ok p →
        AllFail request → ReportsAncestors edges thisIp p request := by
  intro h
  have hfail : AllFail (fun _ _ => .error (.exception "no answer")) := fun _ _ => ⟨_, rfl⟩
  obtain ⟨p, hnew⟩ : ∃ p, new twoParents (serverOf 1) 1 = .ok p := ⟨_, rfl⟩
  obtain ⟨fuel, reports, hrun, _⟩ := h twoParents (serverOf 1) 1 p _ hnew hfail
  obtain ⟨hmade, el, hi, hup⟩ := new_ok hnew
  obtain ⟨l, hl⟩ := ends_of_broadcastFrom hmade hfail fuel 0 p.parent el reports _ hi hrun
  have hthis : Ends p.graph.up (serverOf 1) (el.element :: l) := .step hup hl
  have hto : (serverOf 2, serverOf 1) ∈ twoParents := by decide
  have hback : (serverOf 1, serverOf 2) ∈ twoParents := by decide
  exact hthis.not_above_self ((above_iff hmade).mpr
    (Relation.TransGen.head hto (Relation.TransGen.single hback)))

end P2P_Graph

end TorrentNode
