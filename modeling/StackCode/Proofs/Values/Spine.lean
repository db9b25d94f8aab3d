import StackCode.Proofs.Values.Operands

/-!
# The order of fixed instructions

The fixed instructions of a block keep their order: those with side effects, or,
if there are none and nothing else stands for the block, its first one.  A block
without fixed instructions hands control on.  So after the last fixed instruction
of a block comes the first one of each block that control gets to through such
blocks only.

The chains of the assembled graph and the joins between them say just that, if the
merges that head some chains are passed over.
-/

namespace StackCode

namespace FlowGraph

def spine (flow : FlowGraph) (number : Nat) : List Nat :=
  match flow.graph.blocks[number]? with
  | none => []
  | some block =>
      let effects := ValueGraph.fixedInstructions flow.graph.code block
      if effects.isEmpty &&
          (block.predecessors.length ≤ 1 || (flow.blockFlow number).ins.isEmpty) then
        [block.start]
      else effects

/-- Control gets from the first block to the second through blocks without fixed instructions. -/
inductive Leads (flow : FlowGraph) (number : Nat) : Nat → Prop where
  | next {successor : Nat} {block : Block} : flow.graph.blocks[number]? = some block →
      successor ∈ block.successors → Leads flow number successor
  | past {middle successor : Nat} {block : Block} : Leads flow number middle →
      flow.spine middle = [] → flow.graph.blocks[middle]? = some block →
      successor ∈ block.successors → Leads flow number successor

/-- The second instruction can be the next fixed one after the first. -/
inductive Follows (flow : FlowGraph) : Nat → Nat → Prop where
  | within {number place first second : Nat} : (flow.spine number)[place]? = some first →
      (flow.spine number)[place + 1]? = some second → Follows flow first second
  | across {number number' first second : Nat} : (flow.spine number).getLast? = some first →
      flow.Leads number number' → (flow.spine number').head? = some second →
      Follows flow first second

end FlowGraph

namespace ValueGraph

def Controls (graph : ValueGraph) (source target : Nat) : Prop :=
  (⟨source, target, .control⟩ : Edge) ∈ graph.insOf target

/-- Edges of control lead from the source to the target, with merges only in between. -/
inductive ControlPath (graph : ValueGraph) (source : Nat) : Nat → Prop where
  | edge {target : Nat} : graph.Controls source target → ControlPath graph source target
  | through {merge target : Nat} : ControlPath graph source merge →
      graph.kindOf? merge = some .merge → graph.Controls merge target →
      ControlPath graph source target

end ValueGraph

open ValueGraph

namespace Site

variable {flow : FlowGraph} {site : Site} {number : Nat}

/-- The merge of a block, if it has one, and its fixed instructions. -/
def track (flow : FlowGraph) (site : Site) : List Nat :=
  site.merge flow ++ flow.spine site.number

/-- The fixed instructions of a block without effects are its first one, or it has a merge. -/
theorem spine_eq (found : (sites flow)[number]? = some site) :
    flow.spine site.number =
      if (site.chain flow).isEmpty then [site.block.start]
      else fixedInstructions flow.graph.code site.block := by
  obtain ⟨rfl, present⟩ := getElem?_sites found
  unfold FlowGraph.spine chain merge needsMerge boundary
  rw [present]
  dsimp only
  cases fixedInstructions flow.graph.code site.block with
  | cons effect rest => simp
  | nil =>
      by_cases few : site.block.predecessors.length ≤ 1
      · simp [few, Nat.not_lt_of_le few]
      · cases (flow.blockFlow site.number).ins with
        | nil => simp
        | cons input rest => simp [few, Nat.lt_of_not_le few]

/-- The track of a block is its chain, or its first instruction in place of an empty chain. -/
theorem track_eq (found : (sites flow)[number]? = some site) :
    site.track flow =
      if (site.chain flow).isEmpty then [site.block.start] else site.chain flow := by
  rw [track, spine_eq found]
  split
  · rename_i empty
    have none := (List.append_eq_nil_iff.mp (List.isEmpty_iff.mp empty)).1
    rw [none, List.nil_append]
  · rfl

theorem head?_track (found : (sites flow)[number]? = some site) :
    (site.track flow).head? = some (site.piece flow).head := by
  rw [track_eq found, piece]
  cases site.chain flow <;> rfl

theorem getLast?_track (found : (sites flow)[number]? = some site) :
    (site.track flow).getLast? = some (site.piece flow).tail := by
  rw [track_eq found, piece]
  cases site.chain flow <;> simp [List.getLast?_cons]

/-- The edges along the chain of a block lead from each node of its track to the next. -/
theorem mem_chainEdges {first second : Nat} (found : (sites flow)[number]? = some site) :
    (⟨first, second, .control⟩ : Edge) ∈ chainEdges (site.chain flow) ↔
      ∃ place, (site.track flow)[place]? = some first ∧
        (site.track flow)[place + 1]? = some second := by
  have same : chainEdges (site.chain flow) = chainEdges (site.track flow) := by
    rw [track_eq found]
    split
    · rename_i empty
      rw [List.isEmpty_iff.mp empty]
      rfl
    · rfl
  rw [same]
  simp only [chainEdges, List.mem_map, Prod.exists, Edge.mk.injEq, and_true]
  constructor
  · rintro ⟨_, _, listed, rfl, rfl⟩
    obtain ⟨place, held⟩ := List.mem_iff_getElem?.mp listed
    obtain ⟨one, other⟩ := List.getElem?_zip_eq_some.mp held
    rw [List.getElem?_drop, Nat.add_comm] at other
    exact ⟨place, one, other⟩
  · rintro ⟨place, one, other⟩
    refine ⟨first, second, List.mem_iff_getElem?.mpr ⟨place, ?_⟩, rfl, rfl⟩
    rw [List.getElem?_zip_eq_some, List.getElem?_drop, Nat.add_comm 1]
    exact ⟨one, other⟩

/-- The control within a piece is that of its chain. -/
theorem mem_edges_control {first second : Nat} :
    (⟨first, second, .control⟩ : Edge) ∈ site.edges flow ↔
      (⟨first, second, .control⟩ : Edge) ∈ chainEdges (site.chain flow) := by
  refine ⟨fun listed => ?_, fun listed => ?_⟩
  · rcases List.mem_append.mp listed with front | operand
    · rcases List.mem_append.mp front with chain | phi
      · exact chain
      · obtain ⟨⟨input, phi⟩, -, own⟩ := List.mem_flatMap.mp phi
        simp [useEdges] at own
    · obtain ⟨_, -, _, _, -, same⟩ := mem_operandEdges.mp operand
      cases same
  · exact List.mem_append_left _ (List.mem_append_left _ listed)

/-- A track is headed by a merge, or it is the fixed instructions alone. -/
theorem track_cases (flow : FlowGraph) (site : Site) :
    site.track flow = flow.spine site.number ∨
      ∃ merge, site.merge flow = [merge] ∧ site.track flow = merge :: flow.spine site.number := by
  unfold track merge
  split
  · exact .inr ⟨site.first, rfl, rfl⟩
  · exact .inl rfl

/-- A track ends with the last fixed instruction, or with the merge if there are none. -/
theorem getLast?_track_cases {last : Nat} (ends : (site.track flow).getLast? = some last) :
    (flow.spine site.number).getLast? = some last ∨
      site.merge flow = [last] ∧ flow.spine site.number = [] := by
  rcases track_cases flow site with bare | ⟨merge, merged, headed⟩
  · rw [bare] at ends
    exact .inl ends
  · rw [headed, List.getLast?_cons] at ends
    cases fixed : (flow.spine site.number).getLast? with
    | none =>
        rw [fixed] at ends
        obtain rfl := Option.some.inj ends
        exact .inr ⟨merged, List.getLast?_eq_none_iff.mp fixed⟩
    | some instruction =>
        rw [fixed] at ends
        exact .inl ends

end Site

namespace ValueGraph

open Site

variable {flow : FlowGraph}

/-- The number of a merge says which block it heads. -/
theorem merge_unique {number number' merge : Nat} {site site' : Site}
    (found : (sites flow)[number]? = some site) (found' : (sites flow)[number']? = some site')
    (merged : site.merge flow = [merge]) (merged' : site'.merge flow = [merge]) :
    number = number' ∧ site = site' := by
  have first := mem_merge (merged ▸ List.mem_singleton_self merge)
  have first' := mem_merge (merged' ▸ List.mem_singleton_self merge)
  have apart {one other : Nat} {site site' : Site} (before : one < other)
      (here : (sites flow)[one]? = some site) (there : (sites flow)[other]? = some site')
      (merged : site.merge flow = [merge]) (first : merge = site.first)
      (first' : merge = site'.first) : False := by
    obtain ⟨low, rfl⟩ := List.getElem?_eq_some_iff.mp here
    obtain ⟨high, rfl⟩ := List.getElem?_eq_some_iff.mp there
    have order := List.pairwise_iff_getElem.mp (pairwise_layOut flow _ _) one other low high before
    unfold Site.next at order
    have length : ((sites flow)[one].merge flow).length = 1 := by rw [merged]; rfl
    change (sites flow)[one].first + ((sites flow)[one].merge flow).length + _ ≤
      (sites flow)[other].first at order
    omega
  rcases Nat.lt_trichotomy number number' with before | rfl | after
  · exact (apart before found found' merged first first').elim
  · exact ⟨rfl, Option.some.inj (found.symm.trans found')⟩
  · exact (apart after found' found merged' first' first).elim

/-- Two nodes are next to each other on a track, or end one track and begin one after it. -/
inductive Adjacent (flow : FlowGraph) : Nat → Nat → Prop where
  | along {number place first second : Nat} {site : Site} : (sites flow)[number]? = some site →
      (site.track flow)[place]? = some first → (site.track flow)[place + 1]? = some second →
      Adjacent flow first second
  | across {number successor first second : Nat} {site following : Site} :
      (sites flow)[number]? = some site → successor ∈ site.block.successors →
      (sites flow)[successor]? = some following → (site.track flow).getLast? = some first →
      (following.track flow).head? = some second → Adjacent flow first second

section Accepted

variable {code : Sequence} (padded : flow.PadsBlocks (.ofCode code)) {graph : ValueGraph}
  {bound : Nat} (holds : graph.Holds flow bound (allNodes flow) (allEdges flow))

include padded in
theorem mem_allEdges_control {first second : Nat} :
    (⟨first, second, .control⟩ : Edge) ∈ allEdges flow ↔
      first ≠ second ∧ Adjacent flow first second := by
  rw [allEdges, mem_proper, and_comm]
  refine and_congr_right fun _ => ?_
  constructor
  · intro listed
    rcases List.mem_append.mp listed with front | data
    · rcases List.mem_append.mp front with inner | control
      · obtain ⟨site, mem, own⟩ := List.mem_flatMap.mp inner
        obtain ⟨number, found⟩ := List.mem_iff_getElem?.mp mem
        obtain ⟨place, one, other⟩ := (mem_chainEdges found).mp (mem_edges_control.mp own)
        exact .along found one other
      · obtain ⟨number, successor, site, following, found, reached, found', same⟩ :=
          (mem_controlEdges padded).mp control
        obtain ⟨rfl, rfl, -⟩ := Edge.mk.inj same
        exact .across found reached found' (getLast?_track found) (head?_track found')
    · obtain ⟨_, _, _, _, _, _, _, -, -, -, -, -, same⟩ := (mem_dataEdges padded).mp data
      cases same
  · intro adjacent
    refine List.mem_append_left _ (List.mem_append.mpr ?_)
    cases adjacent with
    | along found one other =>
        refine .inl (List.mem_flatMap.mpr ⟨_, List.mem_of_getElem? found, ?_⟩)
        exact mem_edges_control.mpr ((mem_chainEdges found).mpr ⟨_, one, other⟩)
    | across found reached found' last head =>
        rw [getLast?_track found] at last
        rw [head?_track found'] at head
        obtain rfl := Option.some.inj last
        obtain rfl := Option.some.inj head
        exact .inr ((mem_controlEdges padded).mpr ⟨_, _, _, _, found, reached, found', rfl⟩)

include padded holds

theorem controls_iff {first second : Nat} :
    graph.Controls first second ↔ first ≠ second ∧ Adjacent flow first second := by
  rw [Controls, holds.ins, List.mem_filter, mem_allEdges_control padded]
  simp

omit holds in
/-- Fixed instructions are instructions of their block. -/
theorem mem_spine {number id : Nat} {site : Site} (found : (sites flow)[number]? = some site)
    (listed : id ∈ flow.spine site.number) : id ∈ site.block.indices := by
  rw [spine_eq found] at listed
  split at listed
  · obtain rfl := List.mem_singleton.mp listed
    exact BlockGraph.start_mem_indices (present_of_found padded found)
  · exact mem_fixedInstructions listed

theorem kindOf?_spine {number id : Nat} {site : Site} (found : (sites flow)[number]? = some site)
    (listed : id ∈ flow.spine site.number) : graph.kindOf? id ≠ some .merge := by
  obtain ⟨name, known⟩ := kindOf?_index padded holds found (mem_spine padded found listed)
  rw [known]
  simp

/-- A merge on a track heads it. -/
theorem track_of_merge {number merge : Nat} {site : Site}
    (found : (sites flow)[number]? = some site) (listed : merge ∈ site.track flow)
    (known : graph.kindOf? merge = some .merge) :
    site.merge flow = [merge] ∧ site.track flow = merge :: flow.spine site.number := by
  have other (fixed : merge ∈ flow.spine site.number) : False :=
    kindOf?_spine padded holds found fixed known
  rcases track_cases flow site with bare | ⟨head, merged, headed⟩
  · rw [bare] at listed
    exact (other listed).elim
  · rw [headed] at listed
    rcases List.mem_cons.mp listed with rfl | fixed
    · exact ⟨merged, headed⟩
    · exact (other fixed).elim

/-! ## From paths to instructions -/

/-- Control comes to a fixed instruction, or from the last one of a block to a merge. -/
inductive Arrives (flow : FlowGraph) (first : Nat) : Nat → Prop where
  | merge {origin number merge : Nat} {site : Site} : (flow.spine origin).getLast? = some first →
      flow.Leads origin number → (sites flow)[number]? = some site → site.merge flow = [merge] →
      Arrives flow first merge
  | fixed {number second : Nat} {site : Site} : (sites flow)[number]? = some site →
      second ∈ flow.spine site.number → flow.Follows first second → Arrives flow first second

omit padded holds in
/-- Where control leads to a block it arrives at the head of its track. -/
theorem arrives_head {origin number first head : Nat} {site : Site}
    (last : (flow.spine origin).getLast? = some first) (leads : flow.Leads origin number)
    (found : (sites flow)[number]? = some site) (begins : (site.track flow).head? = some head) :
    Arrives flow first head := by
  obtain ⟨rfl, -⟩ := getElem?_sites found
  rcases track_cases flow site with bare | ⟨merge, merged, headed⟩
  · rw [bare] at begins
    exact .fixed found (List.mem_of_head? begins) (.across last leads begins)
  · rw [headed] at begins
    obtain rfl := Option.some.inj begins
    exact .merge last leads found merged

omit padded in
/-- What comes after an instruction is next on its track, or heads a track after it. -/
theorem arrives_of_adjacent {first target : Nat} (start : graph.kindOf? first ≠ some .merge)
    (adjacent : Adjacent flow first target) : Arrives flow first target := by
  cases adjacent with
  | @along number place _ _ site found here after =>
      rcases track_cases flow site with bare | ⟨merge, merged, headed⟩
      · rw [bare] at here after
        exact .fixed found (List.mem_of_getElem? after) (.within here after)
      · rw [headed] at here after
        cases place with
        | zero =>
            obtain rfl := Option.some.inj here
            exact absurd (kindOf?_merge holds found (by simp [merged])) start
        | succ place => exact .fixed found (List.mem_of_getElem? after) (.within here after)
  | @across number successor _ _ site following found reached found' last head =>
      obtain ⟨rfl, present⟩ := getElem?_sites found
      refine arrives_head ?_ (.next present reached) found' head
      rcases getLast?_track_cases last with fixed | ⟨merged, -⟩
      · exact fixed
      · exact absurd (kindOf?_merge holds found (by simp [merged])) start

/-- From a merge control goes on in its block, or past it if there is nothing else in it. -/
theorem arrives_of_merge {origin number first merge target : Nat} {site : Site}
    (last : (flow.spine origin).getLast? = some first) (leads : flow.Leads origin number)
    (found : (sites flow)[number]? = some site) (merged : site.merge flow = [merge])
    (adjacent : Adjacent flow merge target) : Arrives flow first target := by
  have known : graph.kindOf? merge = some .merge :=
    kindOf?_merge holds found (by simp [merged])
  have own {number' : Nat} {site' : Site} (found' : (sites flow)[number']? = some site')
      (listed : merge ∈ site'.track flow) :
      site' = site ∧ site.track flow = merge :: flow.spine site.number := by
    obtain ⟨merged', headed⟩ := track_of_merge padded holds found' listed known
    obtain ⟨-, rfl⟩ := merge_unique found found' merged merged'
    exact ⟨rfl, headed⟩
  have other (fixed : merge ∈ flow.spine site.number) : False :=
    kindOf?_spine padded holds found fixed known
  obtain ⟨rfl, present⟩ := getElem?_sites found
  cases adjacent with
  | @along _ place _ _ site' found' here after =>
      obtain ⟨rfl, headed⟩ := own found' (List.mem_of_getElem? here)
      rw [headed] at here after
      cases place with
      | zero =>
          have begins : (flow.spine site'.number).head? = some target := by
            rw [List.head?_eq_getElem?]
            exact after
          exact .fixed found (List.mem_of_getElem? after) (.across last leads begins)
      | succ place => exact (other (List.mem_of_getElem? here)).elim
  | @across _ _ _ _ site' _ found' reached found'' ends head =>
      obtain ⟨rfl, -⟩ := own found' (List.mem_of_getLast? ends)
      rcases getLast?_track_cases ends with fixed | ⟨-, nothing⟩
      · exact (other (List.mem_of_getLast? fixed)).elim
      · exact arrives_head last (.past leads nothing present reached) found'' head

theorem arrives_of_path {first target : Nat} (start : graph.kindOf? first ≠ some .merge)
    (path : graph.ControlPath first target) : Arrives flow first target := by
  induction path with
  | edge controls =>
      exact arrives_of_adjacent holds start ((controls_iff padded holds).mp controls).2
  | through _ known controls ih =>
      have adjacent := ((controls_iff padded holds).mp controls).2
      cases ih with
      | merge last leads found merged =>
          exact arrives_of_merge padded holds last leads found merged adjacent
      | fixed found listed _ => exact absurd known (kindOf?_spine padded holds found listed)

/-! ## From instructions to paths -/

omit padded holds in
/-- A block that has fixed instructions has a site. -/
theorem exists_site_of_mem_spine {number id : Nat} (listed : id ∈ flow.spine number) :
    ∃ site, (sites flow)[number]? = some site ∧ site.number = number := by
  cases present : flow.graph.blocks[number]? with
  | none =>
      simp only [FlowGraph.spine, present] at listed
      cases listed
  | some block =>
      obtain ⟨site, found, same, -⟩ := exists_site present
      exact ⟨site, found, same⟩

/-- Where control leads to a block there is a path to the head of its track. -/
theorem path_of_leads {origin number first head : Nat} {site : Site}
    (start : graph.kindOf? first ≠ some .merge)
    (last : (flow.spine origin).getLast? = some first) (leads : flow.Leads origin number)
    (found : (sites flow)[number]? = some site) (begins : (site.track flow).head? = some head) :
    first = head ∨ graph.ControlPath first head := by
  induction leads generalizing site head with
  | next present reached =>
      obtain ⟨before, found', rfl, rfl⟩ := exists_site present
      have ends : (before.track flow).getLast? = some first := by
        rcases track_cases flow before with bare | ⟨merge, -, headed⟩
        · rwa [bare]
        · rw [headed, List.getLast?_cons, last]
          rfl
      by_cases same : first = head
      · exact .inl same
      · exact .inr (.edge ((controls_iff padded holds).mpr
          ⟨same, .across found' reached found ends begins⟩))
  | past _ nothing present reached ih =>
      obtain ⟨before, found', rfl, rfl⟩ := exists_site present
      rcases track_cases flow before with bare | ⟨merge, merged, headed⟩
      · have headed := head?_track found'
        rw [bare, nothing] at headed
        cases headed
      · rw [nothing] at headed
        have known : graph.kindOf? merge = some .merge :=
          kindOf?_merge holds found' (by simp [merged])
        rcases ih found' (by rw [headed]; rfl) with rfl | path
        · exact absurd known start
        · by_cases same : merge = head
          · exact .inr (same ▸ path)
          · exact .inr (.through path known ((controls_iff padded holds).mpr
              ⟨same, .across found' reached found (by rw [headed]; rfl) begins⟩))

/-- To an instruction that can be next there is a path. -/
theorem path_of_follows {first second : Nat} (start : graph.kindOf? first ≠ some .merge)
    (finish : graph.kindOf? second ≠ some .merge) (apart : first ≠ second)
    (follows : flow.Follows first second) : graph.ControlPath first second := by
  cases follows with
  | @within _ place _ _ here after =>
      obtain ⟨site, found, rfl⟩ := exists_site_of_mem_spine (List.mem_of_getElem? here)
      refine .edge ((controls_iff padded holds).mpr ⟨apart, ?_⟩)
      rcases track_cases flow site with bare | ⟨merge, -, headed⟩
      · exact .along found (bare ▸ here) (bare ▸ after)
      · have here' : (site.track flow)[place + 1]? = some first := by
          rw [headed]
          exact here
        have after' : (site.track flow)[place + 2]? = some second := by
          rw [headed]
          exact after
        exact .along found here' after'
  | across last leads head =>
      obtain ⟨site, found, rfl⟩ := exists_site_of_mem_spine (List.mem_of_head? head)
      rcases track_cases flow site with bare | ⟨merge, merged, headed⟩
      · exact (path_of_leads padded holds start last leads found (bare ▸ head)).resolve_left apart
      · have known : graph.kindOf? merge = some .merge :=
          kindOf?_merge holds found (by simp [merged])
        rcases path_of_leads padded holds start last leads found (by rw [headed]; rfl) with
          rfl | path
        · exact absurd known start
        · refine .through path known ((controls_iff padded holds).mpr ⟨?_, ?_⟩)
          · rintro rfl
            exact finish known
          · have here : (site.track flow)[0]? = some merge := by
              rw [headed]
              rfl
            have after : (site.track flow)[0 + 1]? = some second := by
              rw [headed, ← head, List.head?_eq_getElem?]
              rfl
            exact .along found here after

/-- In the assembled graph control leads from an instruction to those that can be next. -/
theorem path_iff_follows {first second : Nat} (start : graph.kindOf? first ≠ some .merge)
    (finish : graph.kindOf? second ≠ some .merge) (apart : first ≠ second) :
    graph.ControlPath first second ↔ flow.Follows first second := by
  refine ⟨fun path => ?_, path_of_follows padded holds start finish apart⟩
  cases arrives_of_path padded holds start path with
  | merge _ _ found merged =>
      exact absurd (kindOf?_merge holds found (by simp [merged])) finish
  | fixed _ _ follows => exact follows

end Accepted

end ValueGraph

end StackCode
