import Mathlib.Data.List.Basic
import StackCode.Proofs.Values.Assembly

/-!
# The edges of a piece

Within the piece of a block every operand of an instruction has exactly one
edge, from the instruction of the block that produces it or from the phi of the
input that it is.
-/

namespace StackCode

open ValueGraph

/-! ## Lists of which one item counts -/

theorem filter_filterMap_eq_flatMap {α β : Type} (list : List α) (partly : α → Option β)
    (condition : β → Bool) :
    (list.filterMap partly).filter condition =
      list.flatMap fun item => (partly item).toList.filter condition := by
  induction list with
  | nil => rfl
  | cons head rest ih =>
      rw [List.flatMap_cons, ← ih]
      cases found : partly head with
      | none => rw [List.filterMap_cons_none found]; rfl
      | some value =>
          rw [List.filterMap_cons_some found, Option.toList_some, ← List.filter_append]
          rfl

theorem map_filter_eq_filterMap {α β : Type} (list : List α) (keep : α → Bool) (change : α → β) :
    (list.filter keep).map change =
      list.filterMap fun item => if keep item then some (change item) else none := by
  rw [← List.filterMap_eq_map, List.filterMap_filter]
  rfl

/-- An item of a list without repetitions stands where it is found. -/
theorem idxOf_eq_of_getElem? {α : Type} [DecidableEq α] {list : List α} (different : list.Nodup)
    {place : Nat} {item : α} (found : list[place]? = some item) : list.idxOf item = place := by
  obtain ⟨within, rfl⟩ := List.getElem?_eq_some_iff.mp found
  exact different.idxOf_getElem place within

namespace Site

variable {flow : FlowGraph}

def argumentEdge (source index place : Nat) : Edge :=
  ⟨source, index, .data (.argument place)⟩

def leads (target : Nat) (label : DataLabel) (edge : Edge) : Bool :=
  edge.target = target ∧ edge.kind = .data label

def reaches (index place : Nat) (edge : Edge) : Bool :=
  edge.target = index ∧ edge.kind = .data (.argument place)

theorem reaches_eq_leads (index place : Nat) :
    reaches index place = leads index (.argument place) :=
  rfl

theorem reaches_argumentEdge {source index place other place' : Nat} :
    reaches index place (argumentEdge source other place') = true ↔
      other = index ∧ place' = place := by
  simp [reaches, argumentEdge]

theorem filter_leads_eq_nil {target : Nat} {label : DataLabel} {edges : List Edge}
    (none : ∀ edge ∈ edges, edge.target = target → edge.kind ≠ .data label) :
    edges.filter (leads target label) = [] := by
  refine List.filter_eq_nil_iff.mpr fun edge listed leads => ?_
  obtain ⟨target, kind⟩ := of_decide_eq_true leads
  exact none edge listed target kind

theorem filter_reaches_eq_nil {index place : Nat} {edges : List Edge}
    (none : ∀ edge ∈ edges, edge.target = index → edge.kind ≠ .data (.argument place)) :
    edges.filter (reaches index place) = [] :=
  filter_leads_eq_nil none

section Operands

variable {index : Nat} {edgeOf : FlowRef × Nat → Option Edge}
  (shape : ∀ ref place edge, edgeOf (ref, place) = some edge →
    ∃ source, edge = argumentEdge source index place)
include shape

/-- The edge made for an operand reaches the place of the operand alone. -/
theorem filter_reaches_operand (ref : FlowRef) (place place' : Nat) :
    (edgeOf (ref, place)).toList.filter (reaches index place') =
      if place = place' then (edgeOf (ref, place)).toList else [] := by
  cases made : edgeOf (ref, place) with
  | none => simp
  | some edge =>
      obtain ⟨source, rfl⟩ := shape ref place edge made
      by_cases same : place = place'
      · subst same
        have reached : reaches index place (argumentEdge source index place) = true :=
          reaches_argumentEdge.mpr ⟨rfl, rfl⟩
        simp [reached]
      · have missed : reaches index place' (argumentEdge source index place) = false :=
          Bool.eq_false_iff.mpr fun reached => same (reaches_argumentEdge.mp reached).2
        simp [same, missed]

/-- Of edges made for each operand of an instruction, one reaches a place. -/
theorem filter_reaches_operands (refs : List FlowRef) (place : Nat) :
    (refs.zipIdx.filterMap edgeOf).filter (reaches index place) =
      (refs[place]?.bind fun ref => edgeOf (ref, place)).toList := by
  have listed (other : Nat) (entry : FlowRef × Nat) (found : refs.zipIdx[other]? = some entry) :
      entry.2 = other ∧ refs[other]? = some entry.1 := by
    rw [List.getElem?_zipIdx, Nat.zero_add, Option.map_eq_some_iff] at found
    obtain ⟨ref, found, rfl⟩ := found
    exact ⟨rfl, found⟩
  have elsewhere (other : Nat) (entry : FlowRef × Nat) (found : refs.zipIdx[other]? = some entry)
      (apart : other ≠ place) : (edgeOf entry).toList.filter (reaches index place) = [] := by
    obtain ⟨ref, place'⟩ := entry
    obtain ⟨rfl, -⟩ := listed other _ found
    rw [filter_reaches_operand shape, if_neg apart]
  rw [filter_filterMap_eq_flatMap]
  cases found : refs[place]? with
  | none =>
      refine List.flatMap_eq_nil_iff.mpr fun entry mem => ?_
      obtain ⟨other, found'⟩ := List.mem_iff_getElem?.mp mem
      refine elsewhere other entry found' ?_
      rintro rfl
      have held := (listed other entry found').2
      rw [found] at held
      cases held
  | some ref =>
      have here : refs.zipIdx[place]? = some (ref, place) := by
        rw [List.getElem?_zipIdx, found, Nat.zero_add]
        rfl
      rw [flatMap_eq_of_single here elsewhere, filter_reaches_operand shape, if_pos rfl,
        Option.bind_some]

end Operands

/-- Of edges made for each of several instructions, those for one instruction reach it. -/
theorem filter_reaches_flatMap {indices : List Nat} (different : indices.Nodup) {index : Nat}
    (inside : index ∈ indices) {edgesOf : Nat → List Edge}
    (targets : ∀ index, ∀ edge ∈ edgesOf index, edge.target = index) (place : Nat) :
    (indices.flatMap edgesOf).filter (reaches index place) =
      (edgesOf index).filter (reaches index place) := by
  obtain ⟨position, found⟩ := List.mem_iff_getElem?.mp inside
  rw [List.filter_flatMap]
  refine flatMap_eq_of_single found fun other index' found' apart => ?_
  refine filter_reaches_eq_nil fun edge listed reached => ?_
  have same : index' = index := (targets index' edge listed).symm.trans reached
  subst same
  obtain ⟨low, -⟩ := List.getElem?_eq_some_iff.mp found'
  exact absurd ((List.getElem?_inj low different).mp (found'.trans found.symm)) apart

/-! ## The edges of one site -/

/-- The kinds of edges within a piece, and the ends that they have. -/
inductive Inner (flow : FlowGraph) (site : Site) : Edge → Prop where
  | control {source target : Nat} :
      source ∈ site.chain flow → target ∈ site.chain flow →
      Inner flow site ⟨source, target, .control⟩
  | info {phi merge : Nat} :
      phi ∈ site.inputs flow → merge ∈ site.merge flow → Inner flow site ⟨phi, merge, .info⟩
  | use {phi index place : Nat} {ref : FlowRef} :
      phi ∈ site.inputs flow → index ∈ site.block.indices →
      (flow.instructionFlow index).ins[place]? = some ref →
      Inner flow site (argumentEdge phi index place)
  | operand {producer index place : Nat} :
      index ∈ site.block.indices →
      (flow.instructionFlow index).ins[place]? = some (.instruction producer) →
      Inner flow site (argumentEdge producer index place)

theorem mem_placesOf {ref : FlowRef} {data : DataFlow} {place : Nat} :
    place ∈ placesOf ref data ↔ data.ins[place]? = some ref := by
  simp only [placesOf, List.mem_map, List.mem_filter, List.mem_zipIdx_iff_getElem?,
    decide_eq_true_eq, Prod.exists]
  constructor
  · rintro ⟨ref', place', ⟨found, rfl⟩, rfl⟩
    exact found
  · intro found
    exact ⟨ref, place, ⟨found, rfl⟩, rfl⟩

theorem inner_of_mem_edges {site : Site} {edge : Edge} (listed : edge ∈ site.edges flow) :
    Inner flow site edge := by
  rcases List.mem_append.mp listed with front | operand
  · rcases List.mem_append.mp front with chain | phi
    · obtain ⟨⟨first, second⟩, pair, rfl⟩ := List.mem_map.mp chain
      have both := List.of_mem_zip pair
      exact .control both.1 (List.mem_of_mem_drop both.2)
    · obtain ⟨⟨input, phi⟩, pair, own⟩ := List.mem_flatMap.mp phi
      have given := (List.of_mem_zip pair).2
      rcases List.mem_append.mp own with info | use
      · obtain ⟨merge, merged, rfl⟩ := List.mem_map.mp info
        exact .info given merged
      · obtain ⟨index, inside, used⟩ := List.mem_flatMap.mp use
        obtain ⟨place, taken, rfl⟩ := List.mem_map.mp used
        exact .use given inside (mem_placesOf.mp taken)
  · obtain ⟨index, inside, producer, place, taken, rfl⟩ := mem_operandEdges.mp operand
    exact .operand inside taken

/-- A value within a piece flows to an operand of an instruction of the block. -/
theorem Inner.exists_place {site : Site} {edge : Edge} {label : DataLabel}
    (inner : Inner flow site edge) (kind : edge.kind = .data label) :
    edge.target ∈ site.block.indices ∧
      ∃ place < (flow.instructionFlow edge.target).ins.length, label = .argument place := by
  cases inner with
  | control => cases kind
  | info => cases kind
  | use given inside taken =>
      cases kind
      exact ⟨inside, _, (List.getElem?_eq_some_iff.mp taken).1, rfl⟩
  | operand inside taken =>
      cases kind
      exact ⟨inside, _, (List.getElem?_eq_some_iff.mp taken).1, rfl⟩

/-- Of the edges from the phi of an input, one reaches an operand if it is that input. -/
theorem filter_reaches_useEdges {indices : List Nat} (different : indices.Nodup) {index : Nat}
    (inside : index ∈ indices) (input : FlowRef) (phi place : Nat) :
    (useEdges flow indices input phi).filter (reaches index place) =
      if (flow.instructionFlow index).ins[place]? = some input then
        [argumentEdge phi index place]
      else [] := by
  unfold useEdges
  rw [filter_reaches_flatMap different inside fun index edge listed => by
    obtain ⟨place, -, rfl⟩ := List.mem_map.mp listed
    rfl]
  have operands : (placesOf input (flow.instructionFlow index)).map
      (fun place => (⟨phi, index, .data (.argument place)⟩ : Edge)) =
      (flow.instructionFlow index).ins.zipIdx.filterMap fun entry =>
        if entry.1 = input then some (argumentEdge phi index entry.2) else none := by
    rw [placesOf, List.map_map, map_filter_eq_filterMap]
    simp [argumentEdge]
  rw [operands, filter_reaches_operands]
  · cases found : (flow.instructionFlow index).ins[place]? with
    | none => rfl
    | some ref => by_cases same : ref = input <;> simp [same]
  · intro ref place edge made
    split at made
    · exact ⟨phi, (Option.some.inj made).symm⟩
    · cases made

/-- Of the edges from the phis of a site, one reaches an operand that is an input of the block. -/
theorem filter_reaches_phiEdges {indices merge inputs : List Nat} {ins : List FlowRef}
    (unique : indices.Nodup) (different : ins.Nodup) (length : inputs.length = ins.length)
    {index place : Nat} {ref : FlowRef} (inside : index ∈ indices)
    (taken : (flow.instructionFlow index).ins[place]? = some ref) :
    (phiEdges flow indices merge (ins.zip inputs)).filter (reaches index place) =
      inputs[ins.idxOf ref]?.toList.map fun phi => argumentEdge phi index place := by
  have each (input : FlowRef) (phi : Nat) :
      ((merge.map fun merge => (⟨phi, merge, .info⟩ : Edge)) ++
        useEdges flow indices input phi).filter (reaches index place) =
      if ref = input then [argumentEdge phi index place] else [] := by
    rw [List.filter_append, filter_reaches_useEdges unique inside, taken,
      filter_reaches_eq_nil fun edge listed reached => ?_, List.nil_append]
    · simp
    · obtain ⟨merge, -, rfl⟩ := List.mem_map.mp listed
      simp
  unfold phiEdges
  rw [List.filter_flatMap]
  by_cases input : ref ∈ ins
  · have within := List.idxOf_lt_length_of_mem input
    have within' : ins.idxOf ref < inputs.length := by omega
    have here : (ins.zip inputs)[ins.idxOf ref]? = some (ref, inputs[ins.idxOf ref]) := by
      rw [List.getElem?_zip_eq_some]
      exact ⟨List.getElem?_idxOf input, List.getElem?_eq_getElem within'⟩
    rw [flatMap_eq_of_single here, List.getElem?_eq_getElem within']
    · exact (each ref inputs[ins.idxOf ref]).trans (if_pos rfl)
    · rintro other ⟨ref', phi⟩ found apart
      refine (each ref' phi).trans (if_neg ?_)
      rintro rfl
      have found := (List.getElem?_zip_eq_some.mp found).1
      exact apart (idxOf_eq_of_getElem? different found).symm
  · have outside : inputs.length ≤ ins.idxOf ref := by
      rw [length, List.idxOf_eq_length input]
    rw [List.getElem?_eq_none outside]
    refine List.flatMap_eq_nil_iff.mpr ?_
    rintro ⟨ref', phi⟩ mem
    refine (each ref' phi).trans (if_neg ?_)
    rintro rfl
    exact input (List.of_mem_zip mem).1

/-- Every operand of an instruction has one edge within the piece of its block. -/
theorem filter_reaches_edges {site : Site} (different : (site.boundary flow).ins.Nodup)
    (passive : ∀ producer, .instruction producer ∉ (site.boundary flow).ins)
    {index place : Nat} {ref : FlowRef} (inside : index ∈ site.block.indices)
    (taken : (flow.instructionFlow index).ins[place]? = some ref) :
    (site.edges flow).filter (reaches index place) =
      (outputNode? (site.boundary flow).ins (site.inputs flow) ref).toList.map
        fun source => argumentEdge source index place := by
  have unique : site.block.indices.Nodup := List.nodup_range'
  have chain : (chainEdges (site.chain flow)).filter (reaches index place) = [] :=
    filter_reaches_eq_nil fun edge listed _ => by
      obtain ⟨pair, -, rfl⟩ := List.mem_map.mp listed
      simp
  have operands : (operandEdges flow site.block.indices).filter (reaches index place) =
      (operandEdge? index (ref, place)).toList := by
    unfold operandEdges
    rw [filter_reaches_flatMap unique inside, filter_reaches_operands, taken, Option.bind_some]
    · intro ref place edge made
      cases ref with
      | instruction producer => exact ⟨producer, (Option.some.inj made).symm⟩
      | _ => cases made
    · intro index edge listed
      obtain ⟨⟨ref, place⟩, -, made⟩ := List.mem_filterMap.mp listed
      cases ref with
      | instruction producer =>
          obtain rfl := Option.some.inj made
          rfl
      | _ => cases made
  rw [edges, List.filter_append, List.filter_append, chain, List.nil_append, operands,
    filter_reaches_phiEdges unique different site.length_inputs inside taken]
  cases ref with
  | instruction producer =>
      have outside : (site.inputs flow).length ≤
          (site.boundary flow).ins.idxOf (.instruction producer) := by
        rw [length_inputs, List.idxOf_eq_length (passive producer)]
      rw [List.getElem?_eq_none outside]
      rfl
  | _ => simp [operandEdge?, outputNode?]

end Site
end StackCode
