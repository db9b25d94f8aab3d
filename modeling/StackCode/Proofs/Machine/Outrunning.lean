import StackCode.Proofs.Machine.Recording

/-!
# More fuel, and another caller

Where a frame was called from shows in nothing that it does, and how much fuel is
left shows only once there is none.  So two machines do the same if they differ in
no more than this, until the fuel of the one that has less of it ends.

A host may swallow that failure, and then the run goes on.  So the machine with less
fuel is watched, and its history says whether the fuel ever ended.  The other machine
may be followed by any observer.
-/

namespace StackCode

namespace Context

/-- The context, if the frame at a place were called from elsewhere. -/
def calledFrom (place pc : Nat) (context : Context) : Context :=
  { context.modifyFrame place (fun frame => { frame with callerPc := pc }) fun _ => rfl with
    pc := if context.frames.size ≤ place then pc else context.pc }

section CalledFrom

variable (context : Context) (place pc : Nat)

@[simp] theorem size_calledFrom :
    (context.calledFrom place pc).frames.size = context.frames.size :=
  Array.size_modify

theorem getElem?_calledFrom (index : Nat) :
    (context.calledFrom place pc).frames[index]? =
      context.frames[index]?.map fun frame =>
        if place = index then { frame with callerPc := pc } else frame := by
  simp only [calledFrom, modifyFrame, Array.getElem?_modify]
  split <;> cases context.frames[index]? <;> rfl

/-- Where a frame was called from shows in its return place only. -/
theorem bind_calledFrom {α : Type} (index : Nat) {read : Frame → Option α}
    (blind : ∀ frame pc, read { frame with callerPc := pc } = read frame) :
    (context.calledFrom place pc).frames[index]?.bind read = context.frames[index]?.bind read := by
  rw [getElem?_calledFrom]
  cases context.frames[index]? with
  | none => rfl
  | some frame =>
      simp only [Option.map_some, Option.bind_some]
      split
      · exact blind frame pc
      · rfl

theorem enclosing?_calledFrom (frame level : Nat) :
    (context.calledFrom place pc).enclosing? frame level = context.enclosing? frame level := by
  induction level generalizing frame with
  | zero => rfl
  | succ level ih =>
      simp only [enclosing?, ih]
      exact bind_calledFrom context place pc frame fun _ _ => rfl

theorem answersAlike_calledFrom : context.AnswersAlike (context.calledFrom place pc) where
  methods _ _ := rfl
  globals _ := rfl
  locals frame slot level := by
    simp only [local?, enclosing?_calledFrom]
    refine bind_congr fun index => ?_
    exact bind_calledFrom context place pc index fun _ _ => rfl
  receivers frame := by
    simp only [selfOf, Option.map_eq_bind]
    rw [bind_calledFrom context place pc frame fun _ _ => rfl]
  blocks frame := bind_calledFrom context place pc frame fun _ _ => rfl

/-- It does not matter which is changed first, a frame or where it was called from. -/
theorem modifyFrame_calledFrom (index : Nat) {change : Frame → Frame}
    (keeps : ∀ frame, (change frame).depthBelow = frame.depthBelow)
    (blind : ∀ frame pc, change { frame with callerPc := pc } =
      { change frame with callerPc := pc }) :
    (context.calledFrom place pc).modifyFrame index change keeps =
      (context.modifyFrame index change keeps).calledFrom place pc := by
  refine Context.ext rfl (Array.ext_getElem? fun other => ?_) rfl rfl ?_
  · simp only [calledFrom, modifyFrame, Array.getElem?_modify]
    cases context.frames[other]? with
    | none => split <;> split <;> rfl
    | some frame =>
        by_cases changed : index = other
        · by_cases moved : place = other
          · rw [if_pos changed, if_pos moved, if_pos moved, if_pos changed]
            exact congrArg some (blind frame pc)
          · rw [if_pos changed, if_neg moved, if_neg moved, if_pos changed]
        · rw [if_neg changed, if_neg changed]
  · simp only [calledFrom, modifyFrame, Array.size_modify]

theorem setLocal?_calledFrom (frame slot level : Nat) (value : Value) :
    (context.calledFrom place pc).setLocal? frame slot level value =
      (context.setLocal? frame slot level value).map (calledFrom place pc) := by
  simp only [setLocal?, enclosing?_calledFrom, Option.bind_eq_bind, Option.map_bind]
  congr 1
  funext index
  rw [bind_calledFrom context place pc index fun _ _ => rfl, Function.comp_apply, Option.map_bind]
  congr 1
  funext owner
  rw [Function.comp_apply, modifyFrame_calledFrom _ _ _ _ _ fun _ _ => rfl]
  split <;> rfl

/-- As long as no frame is live at the place, nothing but the next instruction differs. -/
theorem calledFrom_of_outside (outside : context.frames.size ≤ place) :
    context.calledFrom place pc = { context with pc } := by
  refine Context.ext rfl (Array.ext_getElem? fun index => ?_) rfl rfl (if_pos outside)
  rw [getElem?_calledFrom]
  by_cases here : place = index
  · rw [Array.getElem?_eq_none (here ▸ outside)]
    rfl
  · simp [here]

/-- The next instruction of a frame does not tell where the frame was called from. -/
theorem exists_calledFrom_withPc (next : Nat) :
    ∃ pc', { context.calledFrom place pc with pc := next } =
      calledFrom place pc' { context with pc := next } := by
  by_cases outside : context.frames.size ≤ place
  · refine ⟨next, ?_⟩
    rw [calledFrom_of_outside context place pc outside]
    exact (calledFrom_of_outside { context with pc := next } place next outside).symm
  · refine ⟨pc, Context.ext rfl rfl rfl rfl ?_⟩
    exact (if_neg outside).symm

theorem base_calledFrom : (context.calledFrom place pc).base = context.base := by
  simp only [base, Frame.base, Array.back?_eq_getElem?, size_calledFrom, Option.map_eq_bind]
  rw [bind_calledFrom context place pc _ fun _ _ => rfl]

/-- Where a frame was called from shows in nothing on the stack. -/
theorem operands_calledFrom : (context.calledFrom place pc).operands = context.operands := by
  rw [operands, base_calledFrom]
  rfl

theorem withOperands_calledFrom (operands : List Value) :
    (context.calledFrom place pc).withOperands operands =
      (context.withOperands operands).calledFrom place pc := by
  have below : (context.calledFrom place pc).below = context.below := by
    rw [Context.below, base_calledFrom]
    rfl
  exact Context.ext (congrArg (operands ++ ·) below) rfl rfl rfl rfl

/-- A frame at the place is entered from where its caller goes on. -/
theorem enter_calledFrom (inside : place ≤ context.frames.size) (code : Sequence) (self : Value)
    (parent : Option Nat) (block : Option Closure) (arguments : List Value) :
    { (context.calledFrom place pc).enter code self parent block arguments with pc := 0 } =
      calledFrom place pc
        { context.enter code self parent block arguments with pc := 0 } := by
  have size : (context.enter code self parent block arguments).frames.size =
      context.frames.size + 1 := Array.size_push _
  refine Context.ext rfl (Array.ext_getElem? fun index => ?_) rfl rfl
    (if_neg (by rw [size]; omega)).symm
  rw [getElem?_calledFrom]
  simp only [enter, Array.getElem?_push, size_calledFrom, getElem?_calledFrom]
  by_cases new : index = context.frames.size
  · by_cases here : context.frames.size ≤ place
    · obtain rfl : place = index := by omega
      simp [new, calledFrom, depth, modifyFrame]
    · have other : place ≠ context.frames.size := by omega
      simp [new, other, here, calledFrom, depth, modifyFrame]
  · simp only [new, if_false]

/-- A frame at the place goes back to where it was called from. -/
theorem leave_calledFrom {frame : Nat} (inside : place ≤ frame) :
    (context.calledFrom place pc).leave frame = calledFrom place pc (context.leave frame) := by
  cases found : context.frames[frame]? with
  | none =>
      have beyond := Array.getElem?_eq_none_iff.mp found
      rw [leave_of_le beyond, leave_of_le (by rwa [size_calledFrom])]
  | some left =>
      have live : frame < context.frames.size := (Array.getElem?_eq_some_iff.mp found).1
      have found' := getElem?_calledFrom context place pc frame
      rw [found, Option.map_some] at found'
      have size : (context.leave frame).frames.size = frame := by
        rw [size_leave, Nat.min_eq_left (Nat.le_of_lt live)]
      refine Context.ext ?_ (Array.ext_getElem? fun index => ?_) ?_ ?_ ?_
      · rw [values_leave found']
        refine Eq.trans ?_ (values_leave found).symm
        split <;> rfl
      · rw [getElem?_calledFrom, frames_leave, frames_leave]
        simp only [Array.take_eq_extract, Array.getElem?_extract, size_calledFrom, Nat.zero_add,
          getElem?_calledFrom]
        split <;> rfl
      · rw [globals_leave]
        exact (globals_leave context frame).symm
      · rw [methods_leave]
        exact (methods_leave context frame).symm
      · rw [pc_leave found', calledFrom, size, pc_leave found]
        by_cases here : place = frame
        · simp [here]
        · simp [here, show ¬ frame ≤ place by omega]

end CalledFrom

end Context

def RunError.ofFuel : RunError → Bool
  | .fuelExceeded => true
  | _ => false

def Sight.isStarvation : Sight → Bool
  | .raise error _ => error.ofFuel
  | .event .. => false

def History.starved (history : History) : Bool :=
  history.any Sight.isStarvation

theorem History.starved_of_prefix {earlier later : History} (grown : earlier <+: later)
    (starved : earlier.starved = true) : later.starved = true := by
  obtain ⟨sight, seen, starvation⟩ := List.any_eq_true.mp starved
  exact List.any_eq_true.mpr ⟨sight, grown.subset seen, starvation⟩

theorem History.starved_raised (history : History) (context : Context) :
    History.starved (history ++ History.raised context (.raise .fuelExceeded)) = true := by
  simp [starved, raised, Sight.isStarvation, RunError.ofFuel]

/--
The second machine is in the same state with no more fuel left, but for where its
frame at the place was called from.  The size is the number of live frames; it says
whether there is such a frame yet.
-/
inductive Machine.Ahead {σ τ : Type} (place size : Nat) :
    Machine σ τ → Machine σ History → Prop where
  | intro {machine : Machine σ τ} {pc fuel : Nat} {history : History} :
      machine.context.frames.size = size → fuel ≤ machine.fuel →
      Ahead place size machine
        { context := machine.context.calledFrom place pc, limits := machine.limits, fuel,
          hostCalls := machine.hostCalls, host := machine.host, trace := history }

namespace Machine

variable {σ τ : Type}

def entered (observer : Observer τ) (activation : Activation) (machine : Machine σ τ) :
    Machine σ τ :=
  let entering := (machine.entering activation).noting observer
    (.enter (.frame activation.code) (machine.context.frames.size + 1) machine.context.pc)
  { entering with context := { entering.context with pc := 0 } }

def leftTo (observer : Observer τ) (code : Sequence) (machine caller : Machine σ τ) :
    Machine σ τ :=
  { machine.noting observer
      (.exit (.frame code) (caller.context.frames.size + 1) caller.context.pc) with
    context := machine.context.leave caller.context.frames.size }

theorem starved_leftTo (code : Sequence) {machine : Machine σ History}
    (caller : Machine σ History) (starved : machine.trace.starved = true) :
    (machine.leftTo History.watcher code caller).trace.starved = true :=
  History.starved_of_prefix (History.prefix_noting (List.prefix_refl machine.trace)
    (.exit (.frame code) (caller.context.frames.size + 1) caller.context.pc)) starved

end Machine

namespace Machine.Ahead

variable {σ τ : Type} {place size : Nat} {machine : Machine σ τ} {machine' : Machine σ History}

theorem of_context (pc : Nat) (moved : machine'.context = machine.context.calledFrom place pc)
    (live : machine.context.frames.size = size) (less : machine'.fuel ≤ machine.fuel)
    (limits : machine'.limits = machine.limits) (calls : machine'.hostCalls = machine.hostCalls)
    (host : machine'.host = machine.host) : machine.Ahead place size machine' := by
  obtain ⟨_, _, _, _, _, _⟩ := machine'
  dsimp only at moved limits calls host
  subst moved limits calls host
  exact ⟨live, less⟩

variable (ahead : machine.Ahead place size machine')
include ahead

theorem fuel_le : machine'.fuel ≤ machine.fuel := by
  obtain ⟨-, less⟩ := ahead
  exact less

theorem size_eq : machine.context.frames.size = size := by
  obtain ⟨live, -⟩ := ahead
  exact live

theorem size_eq' : machine'.context.frames.size = size := by
  obtain ⟨live, -⟩ := ahead
  rw [Context.size_calledFrom, live]

theorem spend : Ahead place size { machine with fuel := machine.fuel - 1 }
    { machine' with fuel := machine'.fuel - 1 } := by
  obtain ⟨live, less⟩ := ahead
  exact ⟨live, Nat.sub_le_sub_right less 1⟩

/-- A frame is entered from wherever its callers go on. -/
theorem entered (inside : place ≤ size) (observer : Observer τ) (activation : Activation) :
    Ahead place (size + 1) (machine.entered observer activation)
      (machine'.entered History.watcher activation) := by
  obtain ⟨live, less⟩ := ahead
  rename_i pc _ _
  have moved := Context.enter_calledFrom machine.context place pc (live ▸ inside) activation.code
    activation.self activation.parent activation.block activation.arguments
  have size : (machine.entered observer activation).context.frames.size =
      machine.context.frames.size + 1 := Array.size_push _
  exact .of_context pc moved (size.trans (congrArg Nat.succ live)) less rfl rfl rfl

/-- A frame that is left leads back to its callers. -/
theorem left (inside : place ≤ size) (observer : Observer τ) (code : Sequence)
    {after : Machine σ τ} {after' : Machine σ History}
    (within : after.Ahead place (size + 1) after') :
    Ahead place size (after.leftTo observer code machine)
      (after'.leftTo History.watcher code machine') := by
  have caller := ahead.size_eq
  have caller' := ahead.size_eq'
  obtain ⟨live, less⟩ := within
  rename_i pc _ _
  have moved := Context.leave_calledFrom after.context place pc inside
  unfold Machine.leftTo
  rw [caller, caller']
  exact .of_context pc moved (by rw [Context.size_leave]; omega) less rfl rfl rfl

theorem operands_eq : machine'.context.operands = machine.context.operands := by
  obtain ⟨-, -⟩ := ahead
  exact Context.operands_calledFrom _ place _

theorem withOperands (operands : List Value) :
    (machine.withOperands operands).Ahead place size (machine'.withOperands operands) := by
  obtain ⟨live, less⟩ := ahead
  exact .of_context _ (Context.withOperands_calledFrom ..) live less rfl rfl rfl

end Machine.Ahead

/-- A frame not yet entered may still be called from anywhere. -/
theorem Machine.Ahead.elsewhere {σ τ : Type} {place : Nat} {machine : Machine σ τ}
    {machine' : Machine σ History} (ahead : machine.Ahead place place machine') (pc pc' : Nat)
    {fuel fuel' : Nat} (less : fuel' ≤ fuel) (trace : τ) (history : History) :
    Ahead place place { machine with context := { machine.context with pc }, fuel, trace }
      { machine' with
        context := { machine'.context with pc := pc' }, fuel := fuel', trace := history } := by
  obtain ⟨live, -⟩ := ahead
  have outside : machine.context.frames.size ≤ place := Nat.le_of_eq live
  refine .of_context pc' ?_ live less rfl rfl rfl
  dsimp only
  rw [Context.calledFrom_of_outside machine.context place _ outside]
  exact (Context.calledFrom_of_outside { machine.context with pc } place pc' outside).symm

namespace Execution

variable {σ τ α β : Type}

/-- Apart from what is done on the way in and out, a frame is what its instructions are. -/
theorem ends_evaluate (host : Host σ) (observer : Observer τ) (room : Nat)
    (activation : Activation) {machine : Machine σ τ} {returns : Value → Machine σ τ → Prop}
    {exits : Exit → Machine σ τ → Prop} :
    Ends (evaluate host observer (room + 1) activation) machine returns exits ↔
      Ends (dispatch host observer (evaluate host observer room) activation.code
          machine.context.frames.size (machine.fuel + 1)) (machine.entered observer activation)
        (fun value after => returns value (after.leftTo observer activation.code machine))
        (fun exit after => exits exit (after.leftTo observer activation.code machine)) := by
  unfold evaluate
  simp only [ends_bind, ends_get, ends_modifyContext, ends_report, ends_attempt, ends_pure,
    ends_throw]
  exact Iff.rfl

theorem ends_evaluateWatched (host : Host σ) (room : Nat) (activation : Activation)
    {machine : Machine σ History} {returns : Value → Machine σ History → Prop}
    {exits : Exit → Machine σ History → Prop} :
    Ends (evaluateWatched host (room + 1) activation) machine returns exits ↔
      Ends (dispatchWatched host (evaluateWatched host room) activation.code
          machine.context.frames.size (machine.fuel + 1))
        (machine.entered History.watcher activation)
        (fun value after => returns value (after.leftTo History.watcher activation.code machine))
        (fun exit after => exits exit (after.leftTo History.watcher activation.code machine)) := by
  unfold evaluateWatched
  simp only [ends_bind, ends_get, ends_modifyContext, ends_report, ends_attempt, ends_pure,
    ends_throw]
  exact Iff.rfl

/--
On a machine that is ahead the first execution does what the second one does, unless
the fuel of the second one ends.
-/
structure Outruns (place size : Nat) (execution : Execution σ τ α)
    (execution' : Execution σ History α) : Prop where
  /-- That the fuel ended is not forgotten. -/
  grows : ∀ start, (Nesting.growth σ start).Keeps () execution'
  goes : ∀ {machine machine'}, machine.Ahead place size machine' → Ends execution' machine'
    (fun value after' => after'.trace.starved = true ∨
      ∃ after, execution machine = .ok value after ∧ after.Ahead place size after')
    (fun exit after' => after'.trace.starved = true ∨
      ∃ after, execution machine = .error exit after ∧ after.Ahead place size after')

namespace Outruns

variable {place size : Nat}

theorem starves {execution : Execution σ τ α} {execution' : Execution σ History α}
    (outruns : Outruns place size execution execution') {machine' : Machine σ History}
    (starved : machine'.trace.starved = true) :
    Ends execution' machine' (fun _ after' => after'.trace.starved = true)
      (fun _ after' => after'.trace.starved = true) :=
  (outruns.grows machine'.trace machine' (List.prefix_refl _)).mono
    (fun _ _ grown => History.starved_of_prefix grown starved)
    (fun _ _ grown => History.starved_of_prefix grown starved)

theorem pure (value : α) :
    Outruns place size (Pure.pure value : Execution σ τ α) (Pure.pure value) :=
  ⟨fun _ => .pure value, fun ahead => .inr ⟨_, rfl, ahead⟩⟩

theorem throw (exit : Exit) :
    Outruns place size (throw exit : Execution σ τ α) (throw exit) :=
  ⟨fun _ _ holds => holds, fun ahead => .inr ⟨_, rfl, ahead⟩⟩

theorem bind {first : Execution σ τ β} {first' : Execution σ History β}
    {next : β → Execution σ τ α} {next' : β → Execution σ History α}
    (firsts : Outruns place size first first')
    (nexts : ∀ value, Outruns place size (next value) (next' value)) :
    Outruns place size (first >>= next) (first' >>= next') := by
  refine ⟨fun start => .bind (firsts.grows start) fun value => (nexts value).grows start, ?_⟩
  intro machine machine' ahead
  rw [ends_bind]
  refine (firsts.goes ahead).mono ?_ ?_
  · rintro value after' (starved | ⟨after, done, ahead⟩)
    · exact ((nexts value).starves starved).mono (fun _ _ => .inl) (fun _ _ => .inl)
    · rw [bind_eq_of_ok done]
      exact (nexts value).goes ahead
  · rintro exit after' (starved | ⟨after, failed, ahead⟩)
    · exact .inl starved
    · exact .inr ⟨after, bind_eq_of_error failed, ahead⟩

theorem attempt {execution : Execution σ τ α} {execution' : Execution σ History α}
    (outruns : Outruns place size execution execution') :
    Outruns place size (attempt execution) (attempt execution') := by
  refine ⟨fun start machine' holds => ends_attempt.mpr (outruns.grows start machine' holds), ?_⟩
  intro machine machine' ahead
  rw [ends_attempt]
  refine (outruns.goes ahead).mono ?_ ?_
  · rintro value after' (starved | ⟨after, done, ahead⟩)
    · exact .inl starved
    · exact .inr ⟨after, by rw [Execution.attempt, done], ahead⟩
  · rintro exit after' (starved | ⟨after, failed, ahead⟩)
    · exact .inl starved
    · exact .inr ⟨after, by rw [Execution.attempt, failed], ahead⟩

theorem getHost {next : σ → Execution σ τ α} {next' : σ → Execution σ History α}
    (nexts : ∀ state, Outruns place size (next state) (next' state)) :
    Outruns place size (get >>= fun machine => next machine.host)
      (get >>= fun machine => next' machine.host) := by
  refine ⟨fun start machine' holds => (nexts machine'.host).grows start machine' holds, ?_⟩
  rintro _ _ ⟨live, less⟩
  exact (nexts _).goes ⟨live, less⟩

theorem look {next : Context → Execution σ τ α} {next' : Context → Execution σ History α}
    (nexts : ∀ context context', context.AnswersAlike context' →
      Outruns place size (next context) (next' context')) :
    Outruns place size (context >>= next) (context >>= next') := by
  refine ⟨fun start machine' holds => (nexts _ _ (.refl _)).grows start machine' holds, ?_⟩
  rintro _ _ ⟨live, less⟩
  exact (nexts _ _ (Context.answersAlike_calledFrom _ place _)).goes ⟨live, less⟩

/-- The next instruction of a frame beyond the place is its own. -/
theorem lookPc (beyond : place < size) {next : Context → Execution σ τ α}
    {next' : Context → Execution σ History α}
    (nexts : ∀ context context', context'.pc = context.pc →
      Outruns place size (next context) (next' context')) :
    Outruns place size (context >>= next) (context >>= next') := by
  refine ⟨fun start machine' holds => (nexts _ _ rfl).grows start machine' holds, ?_⟩
  rintro machine _ ⟨live, less⟩
  exact (nexts _ _ (if_neg (by omega))).goes ⟨live, less⟩

theorem modifyContext {change change' : Context → Context}
    (moves : ∀ context pc, ∃ pc', change' (context.calledFrom place pc) =
      (change context).calledFrom place pc')
    (live : ∀ context, (change context).frames.size = context.frames.size) :
    Outruns (σ := σ) (τ := τ) place size (modifyContext change) (modifyContext change') := by
  refine ⟨fun _ _ holds => holds, ?_⟩
  rintro machine _ ⟨size, less⟩
  rename_i pc _ _
  obtain ⟨pc', moved⟩ := moves machine.context pc
  rw [ends_modifyContext, moved]
  exact .inr ⟨_, rfl, (live _).trans size, less⟩

theorem askHost (question : σ → α × σ) :
    Outruns (τ := τ) place size (askHost question) (askHost question) := by
  refine ⟨fun start => .askHost question, ?_⟩
  rintro _ _ ⟨live, less⟩
  exact .inr ⟨_, rfl, live, less⟩

/-- What is reported on either side is not compared. -/
theorem report (observer : Observer τ) (event event' : Event) :
    Outruns (σ := σ) place size (report observer event) (report History.watcher event') := by
  refine ⟨fun start _ holds => History.prefix_noting holds event', ?_⟩
  rintro _ _ ⟨live, less⟩
  exact .inr ⟨_, rfl, live, less⟩

theorem reportInstruction (observer : Observer τ) (code code' : Sequence) (pc pc' : Nat)
    (instruction instruction' : Instruction) :
    Outruns (σ := σ) place size (reportInstruction observer code pc instruction)
      (reportInstruction History.watcher code' pc' instruction') := by
  refine ⟨fun start => .reportInstruction code' pc' instruction', ?_⟩
  rintro machine _ ⟨live, less⟩
  rw [ends_reportInstruction, reportInstruction_eq]
  exact .inr ⟨_, rfl, live, less⟩

theorem popMany (count : Nat) :
    Outruns (σ := σ) (τ := τ) place size (popMany count) (popMany count) := by
  refine ⟨fun start => .popMany count, ?_⟩
  rintro machine _ ⟨live, less⟩
  rw [ends_popMany, popMany_eq]
  dsimp only [Machine.withOperands]
  rw [Context.operands_calledFrom, Context.withOperands_calledFrom]
  by_cases enough : count ≤ machine.context.operands.length
  · rw [if_pos enough, if_pos enough]
    exact .inr ⟨_, rfl, live, less⟩
  · rw [if_neg enough, if_neg enough]
    exact .inr ⟨_, rfl, live, less⟩

theorem push (values : List Value) :
    Outruns (σ := σ) (τ := τ) place size (push values) (push values) := by
  refine .modifyContext (fun context pc => ⟨pc, ?_⟩) fun _ => rfl
  rw [Context.push_eq, Context.push_eq, Context.operands_calledFrom,
    Context.withOperands_calledFrom]

theorem writeLocal (frame : Nat) (name : String) (slot level : Nat) (value : Value) :
    Outruns (σ := σ) (τ := τ) place size (writeLocal frame name slot level value)
      (writeLocal frame name slot level value) := by
  refine ⟨fun start => .writeLocal frame name slot level value, ?_⟩
  rintro machine _ ⟨live, less⟩
  unfold Execution.writeLocal
  rw [ends_bind, ends_context, Context.setLocal?_calledFrom]
  cases assigned : machine.context.setLocal? frame slot level value with
  | none =>
      refine .inr ⟨machine, ?_, live, less⟩
      rw [bind_eq_of_ok (show context machine = .ok machine.context machine from rfl), assigned]
      rfl
  | some context =>
      have kept := Context.size_eq_of_outline (Context.Resumes.of_setLocal? assigned).outline
      refine .inr ⟨{ machine with context }, ?_, kept.trans live, less⟩
      rw [bind_eq_of_ok (show Execution.context machine = .ok machine.context machine from rfl),
        assigned]
      rfl

theorem locatedAt {execution : Execution σ τ α} {execution' : Execution σ History α}
    (outruns : Outruns place size execution execution') (code : Sequence) (pc : Nat) :
    Outruns place size (locatedAt code pc execution) (locatedAt code pc execution') := by
  refine .bind outruns.attempt fun outcome => ?_
  cases outcome with
  | ok value => exact .pure value
  | error exit => exact .throw _

theorem noting {execution : Execution σ τ α} {execution' : Execution σ History α}
    (outruns : Outruns place size execution execution') :
    Outruns place size execution (noting execution') := by
  refine ⟨fun start => .noting (outruns.grows start), fun ahead => ?_⟩
  rw [ends_noting]
  refine (outruns.goes ahead).mono (fun _ _ => id) ?_
  rintro exit after' (starved | ⟨after, failed, live, less⟩)
  · exact .inl (History.starved_of_prefix (List.prefix_append _ _) starved)
  · exact .inr ⟨_, failed, live, less⟩

theorem countHostCall :
    Outruns (σ := σ) (τ := τ) place size countHostCall countHostCall := by
  refine ⟨fun start => .countHostCall, ?_⟩
  rintro machine _ ⟨live, less⟩
  rw [ends_countHostCall, countHostCall_eq]
  dsimp only
  split
  · exact .inr ⟨_, rfl, live, less⟩
  · exact .inr ⟨_, rfl, live, less⟩

/-- Where fuel ends this is noted; else what follows is paid for on both sides. -/
theorem paid {next : Execution σ τ α} {next' : Execution σ History α}
    (nexts : Outruns place size next next') :
    Outruns place size (burn >>= fun _ => next) (Execution.noting (burn >>= fun _ => next')) := by
  refine ⟨fun start => .noting (.bind .burn fun _ => nexts.grows start), ?_⟩
  intro machine machine' ahead
  rw [ends_noting, ends_bind, ends_burn]
  split
  · exact .inl (History.starved_raised _ _)
  · rename_i left
    have less := ahead.fuel_le
    rw [bind_eq_of_ok (by rw [burn_eq, if_neg (by omega)])]
    exact ends_noting.mp (nexts.noting.goes ahead.spend)

end Outruns

def outrunning (σ τ : Type) (place size : Nat) : Concord σ τ σ History where
  agree _ := Outruns place size
  known _ := True
  lends _ := True
  pure := .pure
  bind := .bind
  after := .bind
  fail _ := .throw _
  look nexts := .look fun context context' alike => nexts context context' alike trivial
  popMany := .popMany
  push := .push
  setGlobal _ _ := .modifyContext (fun _ pc => ⟨pc, rfl⟩) fun _ => rfl
  defineMethod frame name body := by
    refine .modifyContext (fun context pc => ⟨pc, ?_⟩) fun _ => rfl
    rw [(context.answersAlike_calledFrom place pc).receivers]
    rfl
  writeLocal _ := .writeLocal _

/-! ## Calls -/

section Calls

variable {place size : Nat} {host : Host σ} {observer : Observer τ}
  {enter : Activation → Execution σ τ Value} {enter' : Activation → Execution σ History Value}
  (enters : ∀ activation, Outruns place size (enter activation) (enter' activation))
include enters

theorem invoke_outruns (closure : Closure) (arguments : List Value) :
    Outruns place size (invoke enter closure arguments) (invoke enter' closure arguments) := by
  refine .look fun context context' alike => ?_
  rw [alike.blocks]
  exact enters _

theorem converse_outruns (closure : Closure) (conversation : Conversation σ) :
    Outruns place size (converse enter closure conversation)
      (converse enter' closure conversation) := by
  induction conversation with
  | done result state => exact .askHost _
  | yield arguments state resume ih =>
      refine .bind (.askHost _) fun _ => .bind ?_ fun answer => ?_
      · refine .bind (invoke_outruns enters closure arguments).attempt fun outcome => ?_
        cases outcome <;> exact .pure _
      · exact .getHost fun state => ih answer state

theorem callHost_outruns (receiver : Value) (method : String) (arguments : List Value)
    (block : Option Closure) :
    Outruns place size (callHost host observer enter receiver method arguments block)
      (callHost host History.watcher enter' receiver method arguments block) := by
  refine .bind .countHostCall fun _ => .look fun _ _ _ => .bind (.report _ _ _) fun _ => ?_
  refine .bind ?_ fun result => .bind (.report _ _ _) fun _ => ?_
  · cases block with
    | none => exact .askHost fun state => host.send state receiver method arguments
    | some closure =>
        exact .getHost fun state =>
          converse_outruns enters closure (host.sendWithBlock state receiver method arguments)
  · cases result with
    | ok value => exact .pure value
    | error error => exact .throw _

theorem outrunning_partners :
    (outrunning σ τ place size).Partners host host observer History.watcher enter enter' where
  globals _ _ _ := .askHost _
  constants _ _ := .askHost _
  methods _ _ := .askHost _
  calls receiver method arguments block _ := callHost_outruns enters receiver method arguments block
  enters _ _ _ _ _ := enters _
  invokes closure arguments _ := invoke_outruns enters closure arguments

/-! ## Frames -/

theorem advance_outruns (code : Sequence) (frame pc : Nat) (instruction : Instruction) :
    Outruns place size (advance host observer enter code frame pc instruction)
      (noting (advance host History.watcher enter' code frame pc instruction)) := by
  have goTo (next : Nat) : Outruns (σ := σ) (τ := τ) place size
      (modifyContext fun context => { context with pc := next })
      (modifyContext fun context => { context with pc := next }) :=
    .modifyContext (fun context pc => context.exists_calledFrom_withPc place pc next) fun _ => rfl
  refine .paid (.bind (.reportInstruction ..) fun _ => .bind (goTo _) fun _ => .bind ?_ ?_)
  · exact Concord.step (outrunning_partners enters) code
      ⟨trivial, fun _ _ => trivial, fun _ _ => trivial⟩
  · intro outcome
    cases outcome with
    | jump target => exact .bind (goTo target) fun _ => .pure _
    | next | leave => exact .bind (.pure _) fun _ => .pure _

/-- The instructions of a frame beyond the place outrun those with a lower bound. -/
theorem dispatch_outruns (beyond : place < size) (code : Sequence) (frame : Nat)
    {bound bound' : Nat} (lower : bound' ≤ bound) :
    Outruns place size (dispatch host observer enter code frame bound)
      (dispatchWatched host enter' code frame bound') := by
  induction bound' generalizing bound with
  | zero =>
      exact ⟨fun start => .noting (.fail _), fun ahead => .inl (History.starved_raised _ _)⟩
  | succ bound' ih =>
      obtain ⟨bound, rfl⟩ := Nat.exists_eq_add_of_lt lower
      refine .lookPc beyond fun context context' same => ?_
      rw [same]
      refine .bind (.locatedAt ?_ code context.pc) fun outcome => ?_
      · cases code.instruction? context.pc with
        | none => exact .noting (.throw _)
        | some instruction => exact advance_outruns enters code frame _ instruction
      · cases outcome with
        | leave result => exact .pure result
        | next | jump => exact ih (by omega)

end Calls

/-- A frame outruns itself, entered from elsewhere with no more fuel. -/
theorem evaluate_outruns {place size : Nat} (host : Host σ) (observer : Observer τ) (room : Nat)
    (inside : place ≤ size) (activation : Activation) :
    Outruns place size (evaluate host observer room activation)
      (evaluateWatched host room activation) := by
  induction room generalizing size activation with
  | zero => exact .noting (.throw _)
  | succ room ih =>
      refine ⟨fun start => Nesting.evaluateWatched_keeps host _ _ _ trivial, ?_⟩
      intro machine machine' ahead
      -- With the new frame live, what it runs and what it enters lies beyond the place.
      have enters (activation : Activation) := ih (Nat.le_succ_of_le inside) activation
      have outruns : Outruns place (size + 1)
          (dispatch host observer (evaluate host observer room) activation.code size
            (machine.fuel + 1))
          (dispatchWatched host (evaluateWatched host room) activation.code size
            (machine'.fuel + 1)) :=
        dispatch_outruns enters (Nat.lt_succ_of_le inside) activation.code size
          (Nat.succ_le_succ ahead.fuel_le)
      rw [ends_evaluateWatched, ahead.size_eq']
      refine (outruns.goes (ahead.entered inside observer activation)).mono ?_ ?_
      · rintro value after' (starved | ⟨after, done, within⟩)
        · exact .inl (Machine.starved_leftTo _ _ starved)
        · refine .inr (ends_ok_iff.mp ?_)
          rw [ends_evaluate, ahead.size_eq]
          unfold Ends
          rw [done]
          exact ⟨rfl, ahead.left inside observer _ within⟩
      · rintro exit after' (starved | ⟨after, failed, within⟩)
        · exact .inl (Machine.starved_leftTo _ _ starved)
        · refine .inr (ends_error_iff.mp ?_)
          rw [ends_evaluate, ahead.size_eq]
          unfold Ends
          rw [failed]
          exact ⟨rfl, ahead.left inside observer _ within⟩

end Execution

end StackCode
