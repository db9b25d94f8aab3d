import StackCode.Graph.Cleanup
import StackCode.Proofs.Values.Feeds
import StackCode.Proofs.Values.Removal

/-!
# Bypassing nodes

A phi or a merge that selects nothing is replaced by edges between its
neighbours.  Both are a rewiring: some edges are added, and then a node is
removed.  A rewiring keeps what feeds the operands of every instruction.
-/

namespace StackCode.ValueGraph

/-- One graph is another with some edges more and one node less. -/
structure Rewires (before after : ValueGraph) (removed : Nat) (added : List Edge) : Prop where
  sound : after.Sound
  kinds : ∀ id, after.kindOf? id = if id = removed then none else before.kindOf? id
  ins : ∀ id, after.insOf id =
    if id = removed then []
    else (before.insOf id ++ (proper added).filter fun edge => edge.target = id).filter
      fun edge => edge.source ≠ removed

variable {before after graph : ValueGraph} {removed : Nat} {added : List Edge}

theorem Sound.rewires (sound : before.Sound) (live : before.Live removed)
    (ends : ∀ edge ∈ added, before.Live edge.source ∧ before.Live edge.target) (start : Nat) :
    Rewires before (({ before.connectEach added with start } : ValueGraph).remove removed)
      removed added := by
  obtain ⟨connected, kinds, ins⟩ := sound.connectEach ends
  have moved := connected.withStart start
  have live' : ({ before.connectEach added with start } : ValueGraph).Live removed := by
    obtain ⟨kind, known⟩ := live
    exact ⟨kind, (kinds removed).trans known⟩
  refine ⟨moved.remove live', fun id => ?_, fun id => ?_⟩
  · rw [kindOf?_remove moved live', ← kinds]
    rfl
  · rw [insOf_remove moved live', ← ins]
    rfl

namespace Rewires

variable (rewires : Rewires before after removed added)
include rewires

/-- Where an edge of a rewired graph comes from. -/
theorem mem_insOf_iff {id : Nat} {edge : Edge} :
    edge ∈ after.insOf id ↔ id ≠ removed ∧ edge.source ≠ removed ∧
      (edge ∈ before.insOf id ∨
        edge ∈ added ∧ edge.source ≠ edge.target ∧ edge.target = id) := by
  rw [rewires.ins]
  split
  · rename_i same
    simp [same]
  · rename_i apart
    simp only [List.mem_filter, List.mem_append, mem_proper, decide_eq_true_eq, and_assoc]
    exact ⟨fun ⟨origin, source⟩ => ⟨apart, source, origin⟩,
      fun ⟨_, source, origin⟩ => ⟨origin, source⟩⟩

theorem kindOf?_eq {id : Nat} (apart : id ≠ removed) : after.kindOf? id = before.kindOf? id := by
  rw [rewires.kinds, if_neg apart]

/-- A node that is left was there. -/
theorem live {id : Nat} (left : after.Live id) : id ≠ removed ∧ before.Live id := by
  obtain ⟨kind, known⟩ := left
  rw [rewires.kinds] at known
  split at known
  · cases known
  · rename_i apart
    exact ⟨apart, kind, known⟩

theorem kindOf?_instruction_iff (absent : ∀ index name,
    before.kindOf? removed ≠ some (.instruction index name)) {id index : Nat} {name : String} :
    after.kindOf? id = some (.instruction index name) ↔
      before.kindOf? id = some (.instruction index name) := by
  rw [rewires.kinds]
  split
  · rename_i same
    simp [same, absent]
  · rfl

/-- If the new edges fit, so do all edges. -/
theorem fits (sound : before.Sound) (old : ∀ id, ∀ edge ∈ before.insOf id, before.Fits edge)
    (new : ∀ edge ∈ added, before.Fits edge) :
    ∀ id, ∀ edge ∈ after.insOf id, after.Fits edge := by
  intro id edge listed
  obtain ⟨present, source, origin⟩ := rewires.mem_insOf_iff.mp listed
  have target : edge.target ≠ removed := by
    rcases origin with kept | ⟨-, -, rfl⟩
    · rw [(sound.incoming id edge kept).1]
      exact present
    · exact present
  have fitted : before.Fits edge := by
    rcases origin with kept | ⟨made, -, -⟩
    · exact old id edge kept
    · exact new edge made
  unfold Fits at fitted ⊢
  rwa [rewires.kindOf?_eq source, rewires.kindOf?_eq target]

end Rewires

/-! ## What is kept -/

def labelledEdges (graph : ValueGraph) (target : Nat) (label : DataLabel) : List Edge :=
  (graph.insOf target).filter fun edge => edge.kind = .data label

/--
A node has one edge with the label, and what feeds the edge is what is produced.
The edge may be missing only if what feeds the node itself is produced.
-/
def Carries (graph : ValueGraph) (target : Nat) (label : DataLabel) (produced : Nat → Prop) :
    Prop :=
  (∃ edge, graph.labelledEdges target label = [edge] ∧
    ∀ supplier, graph.Feeds supplier edge.source ↔ produced supplier) ∨
  (graph.labelledEdges target label = [] ∧
    ∀ supplier, produced supplier ↔ graph.Feeds supplier target)

def argumentEdges (graph : ValueGraph) (index place : Nat) : List Edge :=
  (graph.insOf index).filter fun edge => edge.kind = .data (.argument place)

/--
An operand has one edge, and what feeds the edge is what supplies the operand.
The edge may be missing only if the instruction alone supplies the operand.
-/
def Keeps (graph : ValueGraph) (supplies : Nat → Nat → Nat → Prop) (index place : Nat) : Prop :=
  (∃ edge, graph.argumentEdges index place = [edge] ∧
    ∀ supplier, graph.Feeds supplier edge.source ↔ supplies supplier index place) ∨
  (graph.argumentEdges index place = [] ∧
    ∀ supplier, supplies supplier index place ↔ supplier = index)

/-- Nothing feeds an instruction but itself, so to keep an operand is to carry what supplies it. -/
theorem keeps_iff_carries {supplies : Nat → Nat → Nat → Prop} {index : Nat} {name : String}
    (known : graph.kindOf? index = some (.instruction index name)) (place : Nat) :
    graph.Keeps supplies index place ↔ graph.Carries index (.argument place) fun supplier =>
      supplies supplier index place := by
  simp only [Keeps, Carries, feeds_instruction_iff known]
  rfl

/-- The graph says what supplies each operand of the code. -/
structure Serves (code : Sequence) (supplies : Nat → Nat → Nat → Prop) (graph : ValueGraph) :
    Prop where
  sound : graph.Sound
  fits : ∀ id, ∀ edge ∈ graph.insOf id, graph.Fits edge
  instruction : ∀ id index name, graph.kindOf? id = some (.instruction index name) ↔
    id = index ∧ ∃ instruction, code.instruction? index = some instruction ∧
      name = instruction.nodeName
  kept : ∀ index instruction place, code.instruction? index = some instruction →
    place < instruction.reads → graph.Keeps supplies index place
  only : ∀ index instruction, code.instruction? index = some instruction →
    ∀ edge ∈ graph.insOf index, ∀ label, edge.kind = .data label →
      ∃ place < instruction.reads, label = .argument place

structure ServesAll (code : Sequence) (supplies : Nat → Nat → Nat → Prop) (graph : ValueGraph) :
    Prop extends Serves code supplies graph where
  operand : ∀ index instruction place, code.instruction? index = some instruction →
    place < instruction.reads → ∃ edge, graph.argumentEdges index place = [edge] ∧
      ∀ supplier, graph.Feeds supplier edge.source ↔ supplies supplier index place

variable {code : Sequence} {supplies : Nat → Nat → Nat → Prop}

theorem Serves.kindOf?_index (serves : Serves code supplies graph) {index : Nat}
    {instruction : Instruction} (there : code.instruction? index = some instruction) :
    graph.kindOf? index = some (.instruction index instruction.nodeName) :=
  (serves.instruction index index _).mpr ⟨rfl, instruction, there, rfl⟩

theorem Serves.kindOf?_of_lt (serves : Serves code supplies graph) {index : Nat}
    (within : index < code.length) :
    ∃ name, graph.kindOf? index = some (.instruction index name) := by
  obtain ⟨instruction, there⟩ := Sequence.exists_instruction within
  exact ⟨_, serves.kindOf?_index there⟩

theorem Serves.index_ne (serves : Serves code supplies graph) {index id : Nat}
    {instruction : Instruction} (there : code.instruction? index = some instruction)
    (other : ∀ index name, graph.kindOf? id ≠ some (.instruction index name)) : index ≠ id := by
  rintro rfl
  exact other _ _ (serves.kindOf?_index there)

/-- The edges with a label after a rewiring. -/
theorem Rewires.labelledEdges_eq (rewires : Rewires before after removed added) {target : Nat}
    (apart : target ≠ removed) (label : DataLabel) :
    after.labelledEdges target label =
      (before.labelledEdges target label ++ (proper added).filter (Site.leads target label)).filter
        fun edge => edge.source ≠ removed := by
  have reached : (proper added).filter (Site.leads target label) =
      ((proper added).filter fun edge => edge.target = target).filter
        fun edge => edge.kind = .data label := by
    rw [List.filter_filter]
    refine List.filter_congr fun edge _ => ?_
    simp [Site.leads, Bool.and_comm]
  rw [labelledEdges, rewires.ins, if_neg apart, List.filter_comm, List.filter_append, reached]
  rfl

/-! ## Merges -/

section Merge

variable {merge : Nat} (serves : Serves code supplies before)
  (rewires : Rewires before after merge added)
  (known : before.kindOf? merge = some .merge)
  (control : ∀ edge ∈ added, edge.kind = .control)
include serves rewires known control

/-- The edges of data do not change where a merge is bypassed. -/
theorem mem_insOf_bypassed_merge {id : Nat} {edge : Edge} {label : DataLabel}
    (kind : edge.kind = .data label) : edge ∈ after.insOf id ↔ edge ∈ before.insOf id := by
  rw [rewires.mem_insOf_iff]
  constructor
  · rintro ⟨-, -, kept | ⟨made, -⟩⟩
    · exact kept
    · have other := control edge made
      rw [kind] at other
      cases other
  · intro listed
    have fits := serves.fits id edge listed
    have target := (serves.sound.incoming id edge listed).1
    unfold Fits at fits
    rw [kind] at fits
    have source : before.kindOf? edge.source ≠ some .merge := by
      cases label with
      | argument => exact fits.1
      | predecessor => exact fits.1
    have stays : before.kindOf? edge.target ≠ some .merge := by
      cases label with
      | argument =>
          obtain ⟨-, index, name, known⟩ := fits
          rw [known]
          simp
      | predecessor =>
          rw [fits.2]
          simp
    refine ⟨?_, ?_, .inl listed⟩
    · rintro rfl
      exact stays (target ▸ known)
    · intro same
      exact source (same ▸ known)

theorem feeds_bypassed_merge {supplier id : Nat} :
    after.Feeds supplier id ↔ before.Feeds supplier id := by
  have absent (index : Nat) (name : String) :
      before.kindOf? merge ≠ some (.instruction index name) := by
    rw [known]
    simp
  have phi {id : Nat} : after.kindOf? id = some .phi ↔ before.kindOf? id = some .phi := by
    rw [rewires.kinds]
    split
    · rename_i same
      simp [same, known]
    · rfl
  constructor
  · intro feeds
    induction feeds with
    | here found => exact .here ((rewires.kindOf?_instruction_iff absent).mp found)
    | phi found listed kind _ ih =>
        exact .phi (phi.mp found)
          ((mem_insOf_bypassed_merge serves rewires known control kind).mp listed) kind ih
  · intro feeds
    induction feeds with
    | here found => exact .here ((rewires.kindOf?_instruction_iff absent).mpr found)
    | phi found listed kind _ ih =>
        exact .phi (phi.mpr found)
          ((mem_insOf_bypassed_merge serves rewires known control kind).mpr listed) kind ih

theorem labelledEdges_bypassed_merge {target : Nat} (apart : target ≠ merge)
    (label : DataLabel) : after.labelledEdges target label = before.labelledEdges target label := by
  have none : (proper added).filter (Site.leads target label) = [] :=
    Site.filter_leads_eq_nil fun edge listed _ kind => by
      have other := control edge (mem_proper.mp listed).1
      rw [kind] at other
      cases other
  rw [rewires.labelledEdges_eq apart, none, List.append_nil]
  refine List.filter_eq_self.mpr fun edge listed => decide_eq_true fun source => ?_
  obtain ⟨incoming, kind⟩ := List.mem_filter.mp listed
  have kept := (mem_insOf_bypassed_merge serves rewires known control
    (of_decide_eq_true kind)).mpr incoming
  exact (rewires.mem_insOf_iff.mp kept).2.1 source

theorem carries_bypassed_merge {target : Nat} (apart : target ≠ merge) {label : DataLabel}
    {produced : Nat → Prop} :
    after.Carries target label produced ↔ before.Carries target label produced := by
  simp only [Carries, labelledEdges_bypassed_merge serves rewires known control apart,
    feeds_bypassed_merge serves rewires known control]

/-- Bypassing a merge keeps what supplies the operands. -/
theorem Serves.bypassed_merge (fits : ∀ edge ∈ added, before.Fits edge) :
    Serves code supplies after where
  sound := rewires.sound
  fits := rewires.fits serves.sound serves.fits fits
  instruction id index name := by
    rw [rewires.kindOf?_instruction_iff (by simp [known]), serves.instruction]
  kept index instruction place there taken := by
    have known' := serves.kindOf?_index there
    have apart : index ≠ merge := serves.index_ne there (by simp [known])
    rw [keeps_iff_carries ((rewires.kindOf?_eq apart).trans known'),
      carries_bypassed_merge serves rewires known control apart, ← keeps_iff_carries known']
    exact serves.kept index instruction place there taken
  only index instruction there edge listed label kind :=
    serves.only index instruction there edge
      ((mem_insOf_bypassed_merge serves rewires known control kind).mp listed) label kind

end Merge

/-! ## Phis -/

/-- A phi receives nothing but values that are labelled with a node, and none from a merge. -/
theorem Serves.label_of_mem (serves : Serves code supplies graph) {phi : Nat} {edge : Edge}
    (known : graph.kindOf? phi = some .phi) (listed : edge ∈ graph.insOf phi) :
    (∃ tail, edge.kind = .data (.predecessor tail)) ∧ graph.kindOf? edge.source ≠ some .merge := by
  have fits := serves.fits phi edge listed
  unfold Fits at fits
  rw [(serves.sound.incoming phi edge listed).1, known] at fits
  cases kind : edge.kind with
  | control =>
      rw [kind] at fits
      exact absurd rfl fits
  | info =>
      rw [kind] at fits
      cases fits
  | data label =>
      rw [kind] at fits
      cases label with
      | argument place =>
          obtain ⟨-, _, _, other⟩ := fits
          cases other
      | predecessor tail => exact ⟨⟨tail, rfl⟩, fits.1⟩

structure Sole (graph : ValueGraph) (phi producer : Nat) : Prop where
  known : graph.kindOf? phi = some .phi
  sole : ∀ edge ∈ graph.insOf phi, edge.source = producer
  nonempty : ∃ edge, edge ∈ graph.insOf phi

def redirected (graph : ValueGraph) (phi producer : Nat) : List Edge :=
  ((graph.outsOf phi).filter fun edge => edge.kind ≠ .info).map fun edge =>
    ⟨producer, edge.target, edge.kind⟩

theorem mem_redirected {phi producer : Nat} {edge : Edge} :
    edge ∈ graph.redirected phi producer ↔ ∃ out ∈ graph.outsOf phi, out.kind ≠ .info ∧
      edge = ⟨producer, out.target, out.kind⟩ := by
  simp only [redirected, List.mem_map, List.mem_filter, decide_eq_true_eq, and_assoc,
    @eq_comm Edge edge]

/-- Of the redirected edges, those lead to a node with a label that led to it from the phi. -/
theorem filter_leads_redirected (graph : ValueGraph) (phi producer target : Nat)
    (label : DataLabel) :
    (proper (graph.redirected phi producer)).filter (Site.leads target label) =
      ((graph.outsOf phi).filter (Site.leads target label)).flatMap fun _ =>
        link producer target (.data label) := by
  unfold redirected
  induction graph.outsOf phi with
  | nil => rfl
  | cons out rest ih =>
      have linked : (link producer out.target out.kind).filter (Site.leads target label) =
          if Site.leads target label out then link producer target (.data label) else [] := by
        split
        · rename_i reached
          obtain ⟨rfl, kind⟩ := of_decide_eq_true reached
          rw [kind, List.filter_eq_self]
          intro edge listed
          obtain ⟨-, rfl⟩ := (mem_link _).mp listed
          simp [Site.leads]
        · rename_i missed
          refine Site.filter_leads_eq_nil fun edge listed target kind => missed ?_
          obtain ⟨-, rfl⟩ := (mem_link _).mp listed
          exact decide_eq_true ⟨target, kind⟩
      by_cases info : out.kind = .info
      · have missed : Site.leads target label out = false := by simp [Site.leads, info]
        rw [List.filter_cons_of_neg (by simp [info]), List.filter_cons_of_neg (by simp [missed]),
          ih]
      · rw [List.filter_cons_of_pos (by simp [info]), List.map_cons, proper_cons,
          List.filter_append, ih, linked]
        cases reached : Site.leads target label out with
        | true => simp [reached]
        | false => simp [reached]

/-- The edges from one node to another with a label are listed equally often at both ends. -/
theorem Sound.filter_leads_outsOf (sound : graph.Sound) (id target : Nat) (label : DataLabel) :
    (graph.outsOf id).filter (Site.leads target label) =
      (graph.labelledEdges target label).filter fun edge => edge.source = id := by
  have outs : (graph.outsOf id).filter (Site.leads target label) =
      (graph.outsOf id).filter (· == (⟨id, target, .data label⟩ : Edge)) := by
    refine List.filter_congr fun edge listed => Bool.eq_iff_iff.mpr ?_
    rw [Site.leads, decide_eq_true_eq, beq_iff_eq]
    obtain ⟨source, end', kind⟩ := edge
    obtain rfl : source = id := sound.outgoing id _ listed
    simp
  have ins : ((graph.labelledEdges target label).filter fun edge => edge.source = id) =
      (graph.insOf target).filter (· == (⟨id, target, .data label⟩ : Edge)) := by
    rw [labelledEdges, List.filter_filter]
    refine List.filter_congr fun edge listed => Bool.eq_iff_iff.mpr ?_
    rw [Bool.and_eq_true, decide_eq_true_eq, decide_eq_true_eq, beq_iff_eq]
    obtain ⟨source, end', kind⟩ := edge
    obtain rfl : end' = target := (sound.incoming target _ listed).1
    simp
  have same : (graph.outsOf id).count (⟨id, target, .data label⟩ : Edge) =
      (graph.insOf target).count (⟨id, target, .data label⟩ : Edge) :=
    sound.mirrored ⟨id, target, .data label⟩
  rw [outs, ins, List.filter_beq, List.filter_beq, same]

section Phi

variable {phi producer : Nat} (serves : Serves code supplies before)
  (sole : before.Sole phi producer)
include serves sole

theorem Sole.producer_ne : producer ≠ phi := by
  obtain ⟨edge, listed⟩ := sole.nonempty
  rw [← sole.sole edge listed]
  exact (serves.sound.incoming phi edge listed).2

/-- What feeds a phi of one producer is what feeds the producer. -/
theorem Sole.feeds_iff {supplier : Nat} :
    before.Feeds supplier phi ↔ before.Feeds supplier producer := by
  constructor
  · intro feeds
    cases feeds with
    | here found =>
        rw [sole.known] at found
        cases found
    | phi _ listed _ feeds => exact sole.sole _ listed ▸ feeds
  · intro feeds
    obtain ⟨edge, listed⟩ := sole.nonempty
    obtain ⟨⟨tail, kind⟩, -⟩ := serves.label_of_mem sole.known listed
    exact .phi sole.known listed kind (sole.sole edge listed ▸ feeds)

omit sole in
/-- An edge that a phi is a source of is an edge into its target. -/
theorem mem_insOf_of_mem_outsOf {edge : Edge} (listed : edge ∈ before.outsOf phi) :
    edge.source = phi ∧ edge ∈ before.insOf edge.target :=
  serves.sound.mem_insOf listed

theorem Sole.fits_redirected : ∀ edge ∈ before.redirected phi producer, before.Fits edge := by
  intro edge listed
  obtain ⟨out, given, other, rfl⟩ := mem_redirected.mp listed
  obtain ⟨-, incoming⟩ := mem_insOf_of_mem_outsOf serves given
  have fits := serves.fits _ out incoming
  obtain ⟨first, received⟩ := sole.nonempty
  have source := (serves.label_of_mem sole.known received).2
  rw [sole.sole first received] at source
  unfold Fits at fits ⊢
  dsimp only
  cases kind : out.kind with
  | control =>
      rw [kind] at fits
      exact fits
  | info => exact absurd kind other
  | data label =>
      rw [kind] at fits
      cases label with
      | argument => exact ⟨source, fits.2⟩
      | predecessor => exact ⟨source, fits.2⟩

variable (rewires : Rewires before after phi (before.redirected phi producer))
include rewires

/-- What feeds a node without the phi feeds it with the phi. -/
theorem feeds_of_bypassed_phi {supplier id : Nat} (feeds : after.Feeds supplier id) :
    before.Feeds supplier id := by
  induction feeds with
  | here found => exact .here ((rewires.kindOf?_instruction_iff (by simp [sole.known])).mp found)
  | @phi id edge label found listed kind _ ih =>
      obtain ⟨present, -, kept | ⟨made, -, target⟩⟩ := rewires.mem_insOf_iff.mp listed
      · exact .phi (rewires.kindOf?_eq present ▸ found) kept kind ih
      · -- the edge came from the phi, which the producer feeds
        obtain ⟨out, given, -, rfl⟩ := mem_redirected.mp made
        obtain ⟨same, incoming⟩ := mem_insOf_of_mem_outsOf serves given
        dsimp only at target kind
        rw [target] at incoming
        refine .phi (rewires.kindOf?_eq present ▸ found) incoming kind ?_
        rw [same]
        exact (sole.feeds_iff serves).mpr ih

/-- An edge that came from the phi comes from the producer, unless it would lead to it. -/
theorem mem_insOf_redirected {id : Nat} {edge : Edge} {label : DataLabel} (present : id ≠ phi)
    (listed : edge ∈ before.insOf id) (kind : edge.kind = .data label)
    (source : edge.source = phi) (apart : producer ≠ id) :
    (⟨producer, id, edge.kind⟩ : Edge) ∈ after.insOf id := by
  have target := (serves.sound.incoming id edge listed).1
  have given : edge ∈ before.outsOf phi := by
    rw [← source, serves.sound.mem_iff, target]
    exact listed
  have made : (⟨producer, id, edge.kind⟩ : Edge) ∈ before.redirected phi producer :=
    mem_redirected.mpr ⟨edge, given, by simp [kind], by rw [target]⟩
  exact rewires.mem_insOf_iff.mpr ⟨present, sole.producer_ne serves, .inr ⟨made, apart, rfl⟩⟩

/-- What feeds a node feeds it without the phi, or the producer if the node is the phi. -/
theorem feeds_or_feeds_producer {supplier id : Nat} (feeds : before.Feeds supplier id) :
    (id ≠ phi → after.Feeds supplier id) ∧ (id = phi → after.Feeds supplier producer) := by
  have absent (index : Nat) (name : String) :
      before.kindOf? phi ≠ some (.instruction index name) := by
    rw [sole.known]
    simp
  induction feeds with
  | here found =>
      refine ⟨fun _ => .here ((rewires.kindOf?_instruction_iff absent).mpr found), ?_⟩
      rintro rfl
      exact absurd found (absent _ _)
  | @phi id edge label found listed kind _ ih =>
      constructor
      · intro present
        have stays : after.kindOf? id = some .phi := rewires.kindOf?_eq present ▸ found
        by_cases source : edge.source = phi
        · by_cases same : producer = id
          · exact same ▸ ih.2 source
          · exact .phi stays
              (mem_insOf_redirected serves sole rewires present listed kind source same) kind
              (ih.2 source)
        · exact .phi stays
            (rewires.mem_insOf_iff.mpr ⟨present, source, .inl listed⟩) kind (ih.1 source)
      · rintro rfl
        have source := sole.sole edge listed
        exact source ▸ ih.1 (source ▸ sole.producer_ne serves)

theorem feeds_bypassed_phi {supplier id : Nat} (apart : id ≠ phi) :
    after.Feeds supplier id ↔ before.Feeds supplier id := by
  constructor
  · intro feeds
    exact feeds_of_bypassed_phi serves sole rewires feeds
  · intro feeds
    exact (feeds_or_feeds_producer serves sole rewires feeds).1 apart

omit sole in
/-- The edges from a bypassed phi with a label are replaced by edges from the producer. -/
theorem labelledEdges_bypassed_phi {target : Nat} (present : target ≠ phi) (label : DataLabel) :
    after.labelledEdges target label =
      (before.labelledEdges target label ++
        ((before.labelledEdges target label).filter fun edge => edge.source = phi).flatMap
          fun _ => link producer target (.data label)).filter
        fun edge => edge.source ≠ phi := by
  rw [rewires.labelledEdges_eq present, filter_leads_redirected,
    serves.sound.filter_leads_outsOf]

/-- What an edge carries is carried where a phi is bypassed. -/
theorem Carries.bypassed_phi {target : Nat} {label : DataLabel} {produced : Nat → Prop}
    (present : target ≠ phi) (carries : before.Carries target label produced) :
    after.Carries target label produced := by
  have away := sole.producer_ne serves
  have edges := labelledEdges_bypassed_phi serves rewires present label
  rcases carries with ⟨edge, single, feeds⟩ | ⟨none, alone⟩
  · rw [single] at edges
    by_cases source : edge.source = phi
    · have same (supplier : Nat) : before.Feeds supplier producer ↔ produced supplier := by
        rw [← feeds, source, sole.feeds_iff serves]
      by_cases itself : producer = target
      · -- the node would be connected with itself
        refine .inr ⟨by simpa [source, link, itself] using edges, fun supplier => ?_⟩
        rw [← same, itself, feeds_bypassed_phi serves sole rewires present]
      · refine .inl ⟨⟨producer, target, .data label⟩, ?_, fun supplier => ?_⟩
        · simpa [source, link, itself, away] using edges
        · rw [← same]
          exact feeds_bypassed_phi serves sole rewires away
    · refine .inl ⟨edge, by simpa [source] using edges, fun supplier => ?_⟩
      rw [feeds_bypassed_phi serves sole rewires source, feeds]
  · refine .inr ⟨?_, fun supplier => ?_⟩
    · rw [edges, none]
      rfl
    · rw [alone, feeds_bypassed_phi serves sole rewires present]

/-- Bypassing a phi keeps what supplies the operands. -/
theorem Serves.bypassed_phi : Serves code supplies after where
  sound := rewires.sound
  fits := rewires.fits serves.sound serves.fits (sole.fits_redirected serves)
  instruction id index name := by
    rw [rewires.kindOf?_instruction_iff (by simp [sole.known]), serves.instruction]
  kept index instruction place there taken := by
    have known := serves.kindOf?_index there
    have present : index ≠ phi := serves.index_ne there (by simp [sole.known])
    have carries := (keeps_iff_carries known place).mp
      (serves.kept index instruction place there taken)
    exact (keeps_iff_carries ((rewires.kindOf?_eq present).trans known) place).mpr
      (carries.bypassed_phi serves sole rewires present)
  only index instruction there edge listed label kind := by
    obtain ⟨-, -, kept | ⟨made, -, target⟩⟩ := rewires.mem_insOf_iff.mp listed
    · exact serves.only index instruction there edge kept label kind
    · obtain ⟨out, given, -, rfl⟩ := mem_redirected.mp made
      obtain ⟨-, incoming⟩ := mem_insOf_of_mem_outsOf serves given
      dsimp only at target kind
      rw [target] at incoming
      exact serves.only index instruction there out incoming label kind

end Phi

end StackCode.ValueGraph
