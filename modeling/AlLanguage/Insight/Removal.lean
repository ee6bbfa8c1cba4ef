import AlLanguage.Insight.Growth
import Mathlib.Data.List.Perm.Basic

/-!
# Removing the outgoing edges of a node

Each turn of the loop removes one edge, so that it ends after as many turns as there are edges.
-/

namespace AlLanguage.Insight

variable {edges : List Edge} {position : Nat} {edge : Edge}

theorem swapRemove_perm (within : position < edges.length) : (swapRemove edges position).Perm (edges.eraseIdx position) := by
  have filled : edges ≠ [] := List.ne_nil_of_length_pos (Nat.zero_lt_of_lt within)
  have kept : edges.set position (edges.getLast filled) ≠ [] := by simpa using filled
  have last : (edges.set position (edges.getLast filled)).getLast kept = edges.getLast filled := by
    rw [List.getLast_eq_getElem, List.getElem_set]
    split
    next => rfl
    next => simp [List.getLast_eq_getElem]
  have turned := List.set_perm_cons_eraseIdx within (edges.getLast filled)
  rw [← List.dropLast_append_getLast kept, last] at turned
  unfold swapRemove
  rw [List.getLast?_eq_some_getLast filled]
  exact ((List.perm_append_singleton _ _).symm.trans turned).cons_inv

namespace InsightGraph

variable {g : InsightGraph} {node : NodeIndex}

/-- The graph without the edge at a position. -/
def withoutEdge (g : InsightGraph) (position : Nat) (edge : Edge) : InsightGraph :=
  { g with edges := swapRemove g.edges position, edgeSet := g.edgeSet.erase edge }

theorem edges_perm_withoutEdge (here : g.edges[position]? = some edge) :
    g.edges.Perm (edge :: (g.withoutEdge position edge).edges) := by
  obtain ⟨within, rfl⟩ := List.getElem?_eq_some_iff.mp here
  exact (List.getElem_cons_eraseIdx_perm within).symm.trans ((swapRemove_perm within).symm.cons _)

theorem sound_withoutEdge (sound : g.Sound) (here : g.edges[position]? = some edge) : (g.withoutEdge position edge).Sound := by
  have perm := edges_perm_withoutEdge here
  obtain ⟨gone, once⟩ := List.nodup_cons.mp (perm.nodup_iff.mp sound.once)
  refine ⟨once, ?_, sound.within, sound.listed, sound.oneKey, sound.distinct, sound.apart, ?_⟩
  · intro other
    show other ∈ g.edgeSet.erase edge ↔ _
    rw [Finset.mem_erase, sound.exact, perm.mem_iff, List.mem_cons]
    constructor
    · rintro ⟨apart, same | member⟩
      · exact absurd same apart
      · exact member
    · intro member
      refine ⟨?_, .inr member⟩
      rintro rfl
      exact gone member
  · intro other member
    exact sound.ends other (perm.mem_iff.mpr (List.mem_cons_of_mem _ member))

variable [OutgoingEdges]

theorem removeLoop_succ_none (turns : Nat) (found : OutgoingEdges.first g.edges node = none) :
    g.removeLoop (turns + 1) node = g := by
  rw [removeLoop, found]

theorem removeLoop_succ_some (turns : Nat) (found : OutgoingEdges.first g.edges node = some position)
    (here : g.edges[position]? = some edge) :
    g.removeLoop (turns + 1) node = (g.withoutEdge position edge).removeLoop turns node := by
  rw [removeLoop, found]
  dsimp only
  rw [here]
  rfl

/-- What is left when the loop has had a turn for each edge. -/
structure Removed (g g' : InsightGraph) (node : NodeIndex) : Prop where
  sound : g'.Sound
  edges : g'.edges.Perm (g.edges.filter fun edge => edge.source ≠ node)
  nodes : g'.nodes = g.nodes
  index : g'.index = g.index
  done : OutgoingEdges.first g'.edges node = none

theorem removed_removeLoop (sound : g.Sound) {turns : Nat} (enough : g.edges.length ≤ turns) :
    Removed g (g.removeLoop turns node) node := by
  induction turns generalizing g with
  | zero =>
      have none_left : g.edges = [] := List.eq_nil_of_length_eq_zero (Nat.le_zero.mp enough)
      refine ⟨sound, ?_, rfl, rfl, ?_⟩
      · simp [removeLoop, none_left]
      · cases found : OutgoingEdges.first g.edges node with
        | none => exact found
        | some position =>
            obtain ⟨edge, here, _⟩ := OutgoingEdges.first_source _ _ _ found
            simp [none_left] at here
  | succ turns ih =>
      cases found : OutgoingEdges.first g.edges node with
      | none =>
          rw [removeLoop_succ_none turns found]
          refine ⟨sound, ?_, rfl, rfl, found⟩
          rw [List.filter_eq_self.mpr]
          intro edge member
          simpa using OutgoingEdges.first_none _ _ found edge member
      | some position =>
          obtain ⟨edge, here, outgoing⟩ := OutgoingEdges.first_source _ _ _ found
          have perm := edges_perm_withoutEdge here
          rw [removeLoop_succ_some turns found here]
          have rest := ih (sound_withoutEdge sound here) (by rw [perm.length_eq, List.length_cons] at enough; omega)
          refine ⟨rest.sound, rest.edges.trans ?_, rest.nodes, rest.index, rest.done⟩
          have filtered := perm.filter fun edge => edge.source ≠ node
          rw [List.filter_cons_of_neg (by simpa using outgoing)] at filtered
          exact filtered.symm

theorem removed_removeEdgesFrom (sound : g.Sound) (node : NodeIndex) : Removed g (g.removeEdgesFrom node) node :=
  removed_removeLoop sound (Nat.le_refl _)

theorem removeLoop_add {turns : Nat} (done : OutgoingEdges.first (g.removeLoop turns node).edges node = none) (more : Nat) :
    g.removeLoop (turns + more) node = g.removeLoop turns node := by
  induction turns generalizing g with
  | zero =>
      cases more with
      | zero => rfl
      | succ more =>
          rw [Nat.zero_add]
          exact removeLoop_succ_none more done
  | succ turns ih =>
      rw [Nat.succ_add]
      cases found : OutgoingEdges.first g.edges node with
      | none => rw [removeLoop_succ_none _ found, removeLoop_succ_none _ found]
      | some position =>
          obtain ⟨edge, here, _⟩ := OutgoingEdges.first_source _ _ _ found
          rw [removeLoop_succ_some _ found here] at done ⊢
          rw [removeLoop_succ_some _ found here]
          exact ih done

/-- The loop ends: more turns change nothing. -/
theorem removeLoop_ends (sound : g.Sound) (node : NodeIndex) {turns : Nat} (enough : g.edges.length ≤ turns) :
    g.removeLoop turns node = g.removeEdgesFrom node := by
  obtain ⟨more, rfl⟩ := Nat.exists_eq_add_of_le enough
  exact removeLoop_add (removed_removeEdgesFrom sound node).done more

end InsightGraph

end AlLanguage.Insight
