import StackCode.Proofs.Assembling
import StackCode.Proofs.Machine.Limits
import StackCode.Proofs.Machine.Upkeep

/-!
# Assembled code stays on course

The labels that control may pass to are bound to instructions in everything that
was assembled.  A run of such code enters no other code, since the bodies that
its instructions own were assembled too and so were the methods they define.  So
no branch misses its label, and a frame leaves its code only at the end, by going
on after the last instruction.
-/

namespace StackCode

namespace Context

theorem blockOf?_eq_outline (context : Context) (frame : Nat) :
    context.blockOf? frame = context.outline[frame]?.bind Frame.block := by
  rw [blockOf?, outline, Array.getElem?_map]
  cases context.frames[frame]? <;> rfl

theorem blockOf?_enter {context : Context} {code : Sequence} {self : Value}
    {parent : Option Nat} {block : Option Closure} {arguments : List Value} {frame : Nat}
    {closure : Closure}
    (held : (context.enter code self parent block arguments).blockOf? frame = some closure) :
    block = some closure ∨ context.blockOf? frame = some closure := by
  unfold blockOf? enter at held
  rw [Array.getElem?_push] at held
  split at held
  · exact .inl held
  · exact .inr held

theorem method?_leave (context : Context) (left : Nat) (className name : String) :
    (context.leave left).method? className name = context.method? className name := by
  rw [method?, methods_leave]
  rfl

theorem blockOf?_leave {context : Context} {left frame : Nat} {closure : Closure}
    (held : (context.leave left).blockOf? frame = some closure) :
    context.blockOf? frame = some closure := by
  unfold blockOf? at held ⊢
  rw [frames_leave, Array.take_eq_extract, Array.getElem?_extract] at held
  split at held
  · simpa using held
  · cases held

end Context

/-- The sight is not of a missed label, nor of a frame that left its code other than at the end. -/
def Sight.OnCourse : Sight → Prop
  | .raise (.badLabel _) _ => False
  | .raise (.pcOutOfRange pc) context =>
      ∃ code, context.running? = some code ∧ pc = code.length
  | _ => True

/-- All code that the machine may come to run was assembled, and its run is on course. -/
structure Machine.OnCourse {σ : Type} (machine : Machine σ History) : Prop where
  methods : ∀ {className name body}, machine.context.method? className name = some body →
    body.Assembled
  blocks : ∀ {frame closure}, machine.context.blockOf? frame = some closure →
    closure.body.Assembled
  seen : ∀ sight ∈ machine.trace, sight.OnCourse

namespace Machine.OnCourse

variable {σ : Type} {machine : Machine σ History}

theorem seeing (course : machine.OnCourse) {sight : Sight} (fine : sight.OnCourse) :
    ({ machine with trace := machine.trace ++ [sight] } : Machine σ History).OnCourse := by
  refine ⟨course.methods, course.blocks, fun other seen => ?_⟩
  rcases List.mem_append.mp seen with earlier | last
  · exact course.seen other earlier
  · rw [List.mem_singleton.mp last]
    exact fine

/-- What an instruction of assembled code does by itself brings in no other code. -/
theorem acted (course : machine.OnCourse) {host : Host σ} {machine' : Machine σ History}
    {code : Sequence} {frame pc : Nat} {instruction : Instruction} (assembled : code.Assembled)
    (found : code.instruction? pc = some instruction)
    (deed : Execution.Deed host instruction frame machine machine') : machine'.OnCourse := by
  cases deed with
  | setLocal written =>
      have outline := (Context.Resumes.of_setLocal? written).outline
      refine ⟨?_, fun held => ?_, course.seen⟩
      · obtain ⟨index, change, keeps, rfl, -⟩ := Context.exists_modifyFrame_of_setLocal? written
        exact course.methods
      · dsimp only at held
        rw [Context.blockOf?_eq_outline, outline, ← Context.blockOf?_eq_outline] at held
        exact course.blocks held
  | defineMethod name body same =>
      refine ⟨fun known => ?_, course.blocks, course.seen⟩
      unfold Context.method? Context.defineMethod at known
      rw [Table.get?_insert] at known
      split at known
      · obtain rfl := Option.some.inj known
        exact assembled.body found (by rw [same]; rfl)
      · exact course.methods known
  | _ => exact ⟨course.methods, course.blocks, course.seen⟩

end Machine.OnCourse

def Upkeep.course {σ : Type} (host : Host σ) : Upkeep host where
  holds := Machine.OnCourse
  fits := Sequence.Assembled
  comes code pc := pc ≤ code.length
  moved course _ := ⟨course.methods, course.blocks, course.seen⟩
  jumped course _ := ⟨course.methods, course.blocks, course.seen⟩
  spent course fuel hostCalls := ⟨course.methods, course.blocks, course.seen⟩
  saw {machine} course event := by
    unfold Machine.noting
    rw [History.see_watcher]
    exact course.seeing trivial
  acted course assembled found deed := course.acted assembled found deed
  raised {machine code pc error} course assembled within running arises := by
    refine course.seeing ?_
    cases error with
    | badLabel label =>
        obtain ⟨instruction, found, tried, unbound⟩ := arises
        obtain ⟨target, bound, -⟩ := assembled.target found tried
        rw [bound] at unbound
        cases unbound
    | pcOutOfRange place =>
        obtain ⟨rfl, missing⟩ := arises
        have past : code.length ≤ place := Array.getElem?_eq_none_iff.mp missing
        exact ⟨code, running, Nat.le_antisymm within past⟩
    | _ => trivial
  refused course := course.seeing trivial
  entered {machine activation} course assembled fits := by
    refine ⟨course.methods, fun held => ?_, course.seen⟩
    rcases Context.blockOf?_enter held with given | older
    · exact fits _ given
    · exact course.blocks older
  left {machine} course frame := by
    refine ⟨fun known => ?_, fun held => course.blocks (Context.blockOf?_leave held), course.seen⟩
    exact course.methods ((Context.method?_leave machine.context frame _ _).symm.trans known)
  asked course receiver method arguments := ⟨course.methods, course.blocks, course.seen⟩
  talked course receiver method arguments := by
    refine Conversation.upholds_of_blind (fun course host => ?_) _ course
    exact ⟨course.methods, course.blocks, course.seen⟩
  starts _ := Nat.zero_le _
  follows {code pc instruction outcome} assembled within found yields := by
    have inside : pc < code.length := (Array.getElem?_eq_some_iff.mp found).1
    cases outcome with
    | next | leave => exact inside
    | jump target =>
        obtain ⟨label, tried, bound⟩ := yields
        obtain ⟨other, bound', inside'⟩ := assembled.target found tried
        rw [bound'] at bound
        obtain rfl := Option.some.inj bound
        exact Nat.le_of_lt inside'
  made assembled owned := by
    obtain ⟨pc, site, found⟩ := owned
    exact assembled.body found rfl
  held course isBlock := course.blocks isBlock
  defined course known := course.methods known

namespace Machine

/-- A run of assembled code ends on course. -/
theorem watch_on_course {σ : Type} (host : Host σ) (limits : Limits) (state : σ)
    {context : Context} {code : Sequence} (assembled : code.Assembled)
    (methods : ∀ className name body, context.method? className name = some body →
      body.Assembled) :
    (watch host limits state context code).2.OnCourse := by
  refine watch_upholds (.course host) limits state context assembled
    ⟨methods _ _ _, fun held => ?_, by simp [start]⟩
  simp [start, Context.reset, Context.blockOf?] at held

/--
What steps of an assembly come to can be built exactly if it is complete; then a
label has a target exactly if one of the steps binds it, no other step does, and
the target is the number of instructions before that step.

Whoever follows a run of assembled code in a context with assembled methods, it
is the watched run, and in that no error of a missed label is raised, nor one of
a place outside the code, but at the end of the code of the innermost frame.
-/
theorem assembled_code_stays_on_course :
    (∀ (name : String) (kind : SequenceKind) (parameters : List String)
        (steps : List AssemblyStep),
      let start := Assembly.withParameters name kind parameters
      ((∃ code, (start.applyAll steps).build = .ok code) ↔ start.Complete steps) ∧
      (∀ label first second, start.Binds steps first label → start.Binds steps second label →
        first = second) ∧
      ∀ code, (start.applyAll steps).build = .ok code → ∀ label pc,
        code.labelTarget? label = some pc ↔
          ∃ moment, start.Binds steps moment label ∧
            (start.before steps moment).position = pc) ∧
    ∀ {σ : Type} (host : Host σ) (limits : Limits) (state : σ) (context : Context)
        (code : Sequence), code.Assembled →
      (∀ className name body, context.method? className name = some body → body.Assembled) →
      let watched := watch host limits state context code
      (∀ {τ : Type} (observer : Observer τ) (trace : τ),
        run host observer limits state trace context code =
          (watched.1, watched.2.withTrace (watched.2.trace.seenBy observer trace))) ∧
      ∀ sight ∈ watched.2.trace, sight.OnCourse := by
  constructor
  · intro name kind parameters steps start
    have fresh := Assembly.boundAt?_withParameters name kind parameters
    refine ⟨Assembly.build_applyAll_iff fresh steps, fun label first second binds binds' =>
      binds.unique fresh binds', fun code built label pc => ?_⟩
    obtain ⟨rfl, -⟩ := Assembly.build_eq_ok_iff.mp built
    rw [Assembly.labelTarget?_finished]
    exact Assembly.boundAt?_applyAll fresh steps label pc
  · intro σ host limits state context code assembled methods
    exact ⟨fun observer trace => run_eq_watch host observer limits state trace context code,
      (watch_on_course host limits state assembled methods).seen⟩

/-- The steps of a sequence that branches to its last instruction and goes on after it. -/
def intoTheVoid : List AssemblyStep :=
  [.newLabel, .emit .putNil, .emit (.branchNil 0), .emit .leave, .bind 0, .emit .putNil]

/-- It is complete, and it does leave its code, at the end. -/
theorem intoTheVoid_leaves_at_its_end :
    (Assembly.withParameters "<compiled>" .top []).Complete intoTheVoid ∧
    ∃ code, ((Assembly.withParameters "<compiled>" .top []).applyAll intoTheVoid).build =
        .ok code ∧ code.labelTarget? 0 = some 3 ∧
      ∃ context,
        .raise (.pcOutOfRange 4) context ∈
          (watch ObjectModel.host ⟨9, 1, 0⟩ (.withTables .empty .empty) .empty code).2.trace ∧
        ∃ running, context.running? = some running ∧ 4 = running.length := by
  have course := assembled_code_stays_on_course
  obtain ⟨complete, -, targets⟩ := course.1 "<compiled>" .top [] intoTheVoid
  have built : ((Assembly.withParameters "<compiled>" .top []).applyAll intoTheVoid).build =
      .ok ((Assembly.withParameters "<compiled>" .top []).applyAll intoTheVoid).finished := rfl
  have assembled : ((Assembly.withParameters "<compiled>" .top []).applyAll
      intoTheVoid).finished.Assembled := by
    refine .intro built fun child listed => ?_
    cases listed
  refine ⟨complete.mp ⟨_, built⟩, _, built,
    (targets _ built 0 3).mpr ⟨4, ⟨rfl, _, rfl⟩, rfl⟩, ?_⟩
  have seen := (course.2 ObjectModel.host ⟨9, 1, 0⟩ (.withTables .empty .empty) .empty _ assembled
    (by intro _ _ _ known; cases known)).2
  have raised : (watch ObjectModel.host ⟨9, 1, 0⟩ (.withTables .empty .empty) .empty
      ((Assembly.withParameters "<compiled>" .top []).applyAll intoTheVoid).finished).2.trace.any
        (fun | .raise (.pcOutOfRange 4) _ => true | _ => false) = true := by
    decide +kernel
  obtain ⟨sight, listed, shape⟩ := List.any_eq_true.mp raised
  split at shape
  · exact ⟨_, listed, seen _ listed⟩
  · cases shape

end Machine

end StackCode
