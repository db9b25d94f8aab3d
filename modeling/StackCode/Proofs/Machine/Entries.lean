import StackCode.Proofs.BlockCalls
import StackCode.Proofs.Machine.Brackets
import StackCode.Proofs.Machine.Upkeep

/-!
# What is said of an entry

Before an instruction runs, its frame is set to go on with the next one, and
whatever is entered and left on its behalf leaves it so.  A call of the host is
reported with the index of the instruction that makes it.  A frame is reported with
the place where its caller goes on, which is one further, whether the frame is
entered by a call, by a yield, or by the host that runs a block.

The entry of a frame is also where its arguments are seen: a frame without a frame
around it is that of the program or of a method whose parameters they fit.
-/

namespace StackCode

namespace Event

/-- The instruction that each live frame ran last, after an event, innermost frame first. -/
def locate (sites : List (Option Nat)) : Event → List (Option Nat)
  | .instruction _ pc _ _ => some pc :: sites.tail
  | .enter (.frame _) .. => none :: sites
  | .exit (.frame _) .. => sites.tail
  | _ => sites

/-- The instruction that each live frame ran last in the course of events, innermost first. -/
def sites (events : List Event) : List (Option Nat) :=
  events.foldl locate []

theorem sites_append_singleton (events : List Event) (event : Event) :
    sites (events ++ [event]) = locate (sites events) event := by
  rw [sites, List.foldl_append]
  rfl

end Event

/-- The frame is that of a block, or of a method whose parameters the arguments fit. -/
def Activation.Fits (activation : Activation) : Prop :=
  activation.parent.isSome ∨
    Execution.binds activation.code.parameters activation.arguments = true

/-- What may be entered, and from which place, while each live frame is at its instruction. -/
inductive Activation.Due (program : Sequence) :
    Activation → List (Option Nat) → Nat → Prop where
  | program : Due program ⟨program, .main, none, none, []⟩ [] 0
  /-- The caller is past the instruction that it is at. -/
  | inside {activation : Activation} {site : Nat} {outer : List (Option Nat)} :
      activation.Fits → Due program activation (some site :: outer) (site + 1)

/-- If something is entered, it is what may be entered by the innermost live frame. -/
def Sight.Sited (program : Sequence) (sites : List (Option Nat)) : Sight → Prop
  | .event (.enter (.frame code) depth pc) context =>
      ∃ (caller : Context) (activation : Activation),
        activation.code = code ∧ activation.Due program sites pc ∧
        caller.frames.size = sites.length ∧ caller.pc = pc ∧ depth = sites.length + 1 ∧
        context = caller.enter code activation.self activation.parent activation.block
          activation.arguments
  | .event (.enter (.hostCall _) depth pc) _ =>
      depth = sites.length ∧ sites.head? = some (some pc)
  | _ => True

/-- The history leaves the live frames at these instructions, and all that it entered was due. -/
structure History.Follows (program : Sequence) (sites : List (Option Nat)) (history : History) :
    Prop where
  sites : Event.sites history.events = sites
  entries : ∀ earlier sight later, history = earlier ++ sight :: later →
    sight.Sited program (Event.sites (History.events earlier))

/-- The innermost frame runs an instruction, and is set to go on after it. -/
structure Machine.Stands {σ : Type} (program : Sequence) (site : Nat) (outer : List (Option Nat))
    (machine : Machine σ History) : Prop where
  follows : machine.trace.Follows program (some site :: outer)
  depth : machine.context.frames.size = outer.length + 1
  pc : machine.context.pc = site + 1

/-! ## What is seen -/

section Seen

variable {σ : Type} {program : Sequence} {sites outer : List (Option Nat)} {site : Nat}
  {history : History} {machine : Machine σ History}

namespace History.Follows

theorem seeing (follows : history.Follows program sites) {sight : Sight}
    (sited : sight.Sited program sites) (earlier : History) (seen : Sight) (later : History)
    (split : history ++ [sight] = earlier ++ seen :: later) :
    seen.Sited program (Event.sites earlier.events) := by
  rcases snoc_eq_split split with ⟨rfl, rfl⟩ | ⟨rest, before⟩
  · rw [follows.sites]
    exact sited
  · exact follows.entries _ _ _ before

/-- The frames are where an event leaves them. -/
theorem noting (follows : machine.trace.Follows program sites) (event : Event)
    (sited : (Sight.event event machine.context).Sited program sites) :
    (machine.noting watcher event).trace.Follows program (event.locate sites) := by
  constructor
  · rw [events_noting, Event.sites_append_singleton, follows.sites]
  · rw [trace_noting]
    exact follows.seeing sited

theorem raised (follows : history.Follows program sites) (context : Context) (exit : Exit) :
    (history ++ History.raised context exit).Follows program sites := by
  cases exit with
  | located fault =>
      have same : history ++ History.raised context (.located fault) = history :=
        List.append_nil _
      rw [same]
      exact follows
  | raise error =>
      refine ⟨?_, follows.seeing trivial⟩
      rw [events_append]
      exact (congrArg Event.sites (List.append_nil _)).trans follows.sites

end History.Follows

/-- An instruction that acts by itself leaves its frame where it is. -/
theorem Machine.Stands.acted (stands : machine.Stands program site outer) {host : Host σ}
    {instruction : Instruction} {frame : Nat} {machine' : Machine σ History}
    (deed : Execution.Deed host instruction frame machine machine') :
    machine'.Stands program site outer := by
  cases deed with
  | setLocal assigned =>
      have resumes := Context.Resumes.of_setLocal? assigned
      exact ⟨stands.follows, (Context.size_eq_of_outline resumes.outline).trans stands.depth,
        resumes.pc.trans stands.pc⟩
  | _ => exact ⟨stands.follows, stands.depth, stands.pc⟩

end Seen

namespace Execution

variable {σ : Type} {program : Sequence} {outer : List (Option Nat)} {site : Nat}

def Stays {α : Type} (program : Sequence) (site : Nat) (outer : List (Option Nat))
    (execution : Execution σ History α) : Prop :=
  ∀ machine, machine.Stands program site outer →
    Ends execution machine (fun _ after => after.Stands program site outer)
      (fun _ after => after.Stands program site outer)

/-! ## Calls -/

theorem countHostCall_stays :
    Stays program site outer (countHostCall : Execution σ History Unit) := by
  intro machine stands
  rw [ends_countHostCall]
  split
  · exact stands
  · exact ⟨stands.follows, stands.depth, stands.pc⟩

section Calls

variable {enter : Activation → Execution σ History Value}
  (enters : ∀ activation, activation.Fits → Stays program site outer (enter activation))
include enters

theorem invoke_stays (block : Closure) (arguments : List Value) :
    Stays program site outer (invoke enter block arguments) := by
  intro machine stands
  unfold invoke
  rw [ends_bind, ends_context]
  exact enters _ (.inl rfl) machine stands

/-- Each block that the host runs leaves the caller where it was, so the next one finds it there. -/
theorem converse_stays (block : Closure) (conversation : Conversation σ)
    {machine : Machine σ History} (stands : machine.Stands program site outer) :
    Ends (converse enter block conversation) machine
      (fun _ after => after.Stands program site outer) (fun _ _ => False) := by
  induction conversation generalizing machine with
  | done result state => exact ⟨stands.follows, stands.depth, stands.pc⟩
  | yield arguments state resume ih =>
      have asked : Machine.Stands program site outer { machine with host := state } :=
        ⟨stands.follows, stands.depth, stands.pc⟩
      unfold converse invokeForHost
      rw [ends_bind, ends_askHost, ends_bind, ends_bind, ends_attempt]
      apply (invoke_stays enters block arguments _ asked).mono
      · exact fun value after stands => ih _ _ stands
      · exact fun exit after stands => ih _ _ stands

theorem converseWithHost_stays (host : Host σ) (receiver : Value) (method : String)
    (arguments : List Value) (block : Option Closure) {machine : Machine σ History}
    (stands : machine.Stands program site outer) :
    Ends (converseWithHost host enter receiver method arguments block) machine
      (fun _ after => after.Stands program site outer) (fun _ _ => False) := by
  cases block with
  | none => exact ⟨stands.follows, stands.depth, stands.pc⟩
  | some block => exact converse_stays enters block _ stands

/-- The host's scope is entered at the instruction before the next one, which makes the call. -/
theorem callHost_stays (host : Host σ) (receiver : Value) (method : String)
    (arguments : List Value) (block : Option Closure) :
    Stays program site outer
      (callHost host History.watcher enter receiver method arguments block) := by
  intro machine stands
  unfold callHost
  rw [ends_bind]
  refine (countHostCall_stays machine stands).mono ?_ (fun _ _ stopped => stopped)
  intro _ counted stands
  have here : counted.context.pc - 1 = site := by
    rw [stands.pc, Nat.add_sub_cancel]
  rw [ends_bind, ends_context, here, ends_bind, ends_report, ends_bind]
  have entered := stands.follows.noting
    (.enter (.hostCall method) counted.context.frames.size site) ⟨stands.depth, rfl⟩
  refine (converseWithHost_stays enters host receiver method arguments block
    ⟨entered, stands.depth, stands.pc⟩).mono ?_ (fun _ _ impossible => impossible.elim)
  intro result after stands
  rw [ends_bind, ends_report]
  have left := stands.follows.noting
    (.exit (.hostCall method) counted.context.frames.size site) trivial
  cases result with
  | ok value => exact ⟨left, stands.depth, stands.pc⟩
  | error error => exact ⟨left, stands.depth, stands.pc⟩

theorem call_stays (host : Host σ) (receiver : Value) (method : String) (arguments : List Value)
    (block : Option Closure) :
    Stays program site outer (call host History.watcher enter receiver method arguments block) := by
  intro machine stands
  unfold call
  rw [ends_bind, ends_context]
  cases machine.context.method? receiver.className method with
  | none => exact callHost_stays enters host receiver method arguments block machine stands
  | some body =>
      dsimp only
      split
      · rename_i fits
        exact enters _ (.inr fits) machine stands
      · exact stands

/-- While an instruction runs, its frame is set to go on with the next one. -/
theorem step_stays (host : Host σ) (code : Sequence) (frame : Nat) (instruction : Instruction) :
    Stays program site outer (step host History.watcher enter code frame instruction) := by
  intro machine stands
  suffices governs : Governs host History.watcher enter code frame instruction
      (fun machine => machine.Stands program site outer)
      (fun machine => machine.Stands program site outer)
      (fun _ machine => machine.Stands program site outer) from governs.step stands
  constructor
  case moved => exact fun _ stands => ⟨stands.follows, stands.depth, stands.pc⟩
  case pushed => exact fun _ stands => ⟨stands.follows, stands.depth, stands.pc⟩
  case acts => exact fun stands deed => stands.acted deed
  case ends => exact fun stands => stands
  case fails => exact fun stands _ => stands
  case calls =>
    intro machine called stands outgoing
    cases outgoing with
    | plain | withBlock => exact call_stays enters host _ _ _ _ machine stands
    | block arguments held => exact invoke_stays enters _ arguments machine stands

end Calls

/-! ## Frames -/

section Frames

variable {enter : Activation → Execution σ History Value}
  (enters : ∀ site activation, activation.Fits → Stays program site outer (enter activation))
include enters

/-- From instruction to instruction a frame stays the innermost one, at some instruction of its. -/
theorem advance_follows (host : Host σ) (code : Sequence) (frame pc : Nat)
    (instruction : Instruction) {last : Option Nat} {machine : Machine σ History}
    (follows : machine.trace.Follows program (last :: outer))
    (depth : machine.context.frames.size = outer.length + 1) :
    Ends (advance host History.watcher enter code frame pc instruction) machine
      (fun _ after => ∃ last, after.trace.Follows program (last :: outer) ∧
        after.context.frames.size = outer.length + 1)
      (fun _ after => ∃ last, after.trace.Follows program (last :: outer)) := by
  unfold advance
  rw [ends_bind, ends_burn]
  split
  · exact ⟨last, follows⟩
  · rw [ends_bind, ends_reportInstruction, ends_bind, ends_modifyContext, ends_bind]
    have reported := follows.noting (.instruction code pc instruction machine.context.depth) trivial
    refine Ends.mono (step_stays (enters pc) host code frame instruction _ ?_) ?_ ?_
    · exact ⟨reported, depth, rfl⟩
    · intro outcome after stands
      cases outcome with
      | jump target =>
          exact ⟨some pc, stands.follows, stands.depth⟩
      | next | leave => exact ⟨some pc, stands.follows, stands.depth⟩
    · exact fun exit after stands => ⟨some pc, stands.follows⟩

theorem dispatchWatched_follows (host : Host σ) (code : Sequence) (frame bound : Nat)
    {last : Option Nat} {machine : Machine σ History}
    (follows : machine.trace.Follows program (last :: outer))
    (depth : machine.context.frames.size = outer.length + 1) :
    Ends (dispatchWatched host enter code frame bound) machine
      (fun _ after => ∃ last, after.trace.Follows program (last :: outer))
      (fun _ after => ∃ last, after.trace.Follows program (last :: outer)) := by
  induction bound generalizing last machine with
  | zero => exact ⟨last, follows.raised _ (.raise .fuelExceeded)⟩
  | succ bound ih =>
      unfold dispatchWatched
      rw [ends_bind, ends_context, ends_bind, ends_locatedAt, ends_noting]
      cases code.instruction? machine.context.pc with
      | none => exact ⟨last, follows.raised _ (.raise (.pcOutOfRange machine.context.pc))⟩
      | some instruction =>
          refine (advance_follows enters host code frame machine.context.pc instruction follows
            depth).mono ?_ ?_
          · rintro outcome after ⟨last, follows, depth⟩
            cases outcome with
            | leave result => exact ⟨last, follows⟩
            | next | jump => exact ih follows depth
          · rintro exit after ⟨last, follows⟩
            exact ⟨last, follows.raised _ exit⟩

end Frames

/-- A frame that is due is entered as it should be, and so is whatever is entered from it. -/
theorem evaluateWatched_follows (host : Host σ) (room : Nat) {activation : Activation}
    {sites : List (Option Nat)} {machine : Machine σ History}
    (follows : machine.trace.Follows program sites)
    (depth : machine.context.frames.size = sites.length)
    (due : activation.Due program sites machine.context.pc) :
    Ends (evaluateWatched host room activation) machine
      (fun _ after => after.trace.Follows program sites)
      (fun _ after => after.trace.Follows program sites) := by
  induction room generalizing activation sites machine with
  | zero => exact follows.raised _ (.raise .callDepthExceeded)
  | succ room ih =>
      have enters (site : Nat) (inner : Activation) (fits : inner.Fits) :
          Stays program site sites (evaluateWatched host room inner) := by
        intro machine stands
        have due : inner.Due program (some site :: sites) machine.context.pc := by
          rw [stands.pc]
          exact .inside fits
        -- the frame is left with its caller where it was found
        have back := evaluateWatched_respects host room inner machine
        refine ((ih stands.follows stands.depth due).and back).mono ?_ ?_
        · rintro value after ⟨follows, ⟨context, -⟩, -⟩
          exact ⟨follows, (Context.size_eq_of_outline context.outline).trans stands.depth,
            context.pc.trans stands.pc⟩
        · rintro exit after ⟨follows, ⟨context, -⟩, -⟩
          exact ⟨follows, (Context.size_eq_of_outline context.outline).trans stands.depth,
            context.pc.trans stands.pc⟩
      unfold evaluateWatched
      simp only [ends_bind, ends_get, ends_modifyContext, ends_report, ends_attempt]
      have opened : (machine.entering activation).trace.Follows program sites := follows
      have entered : History.Follows program (none :: sites) _ := opened.noting
        (.enter (.frame activation.code) (machine.context.frames.size + 1) machine.context.pc)
        ⟨machine.context, activation, rfl, due, depth, rfl, congrArg (· + 1) depth, rfl⟩
      have within : (machine.entering activation).context.frames.size = sites.length + 1 := by
        simp [Machine.entering, Context.enter, depth]
      have left {after : Machine σ History} {last : Option Nat}
          (follows : after.trace.Follows program (last :: sites)) :=
        follows.noting (.exit (.frame activation.code) (machine.context.frames.size + 1)
          machine.context.pc) trivial
      refine Ends.mono (dispatchWatched_follows enters host _ _ _ entered within) ?_ ?_
      · rintro value after ⟨last, follows⟩
        exact left follows
      · rintro exit after ⟨last, follows⟩
        exact left follows

end Execution

/-! ## Runs -/

/-- What happens between events of a history happens between sights of it. -/
theorem History.exists_split {history : History} {earlier later : List Event} {event : Event}
    (split : history.events = earlier ++ event :: later) :
    ∃ before context after, history = before ++ .event event context :: after ∧
      events before = earlier := by
  obtain ⟨before, rest, rfl, same, split⟩ := List.filterMap_eq_append_iff.mp split
  obtain ⟨silent, sight, after, rfl, quiet, seen, -⟩ := List.filterMap_eq_cons_iff.mp split
  have nothing : events silent = [] := List.filterMap_eq_nil_iff.mpr quiet
  cases sight with
  | raise => cases seen
  | event other context =>
      obtain rfl := Option.some.inj seen
      refine ⟨before ++ silent, context, after, (List.append_assoc ..).symm, ?_⟩
      rw [events_append, nothing, List.append_nil]
      exact same

namespace Machine

variable {σ : Type}

/-- In a watched run all that is entered is due, and all frames are left. -/
theorem watch_follows (host : Host σ) (limits : Limits) (state : σ) (context : Context)
    (code : Sequence) : (watch host limits state context code).2.trace.Follows code [] := by
  have empty : History.Follows code [] (start limits state ([] : History) context).trace :=
    ⟨rfl, by simp [start]⟩
  have started := empty.noting (.runStart code) trivial
  have ended := Execution.evaluateWatched_follows host limits.callDepth started rfl .program
  unfold Execution.Ends at ended
  unfold watch
  cases outcome : Execution.evaluateWatched host limits.callDepth ⟨code, .main, none, none, []⟩
    ((start limits state [] context).noting History.watcher (.runStart code)) with
  | ok value after =>
      rw [outcome] at ended
      have kept : (after.keepResult (.ok value)).trace.Follows code [] := ended
      exact kept.noting (.runEnd code none) trivial
  | error exit after =>
      rw [outcome] at ended
      exact ended.noting (.runEnd code (some (exit.locate code.name 0))) trivial

/--
When a call of the host is reported, its index is that of the instruction which the
innermost live frame ran last.  When a frame is reported, its index is one further,
however it is entered; only the program itself is entered from no frame.
-/
theorem entries_tell_the_caller (host : Host σ) (limits : Limits) (state : σ)
    (context : Context) (code : Sequence) :
    let events := (run host (.recorder .full) limits state #[] context code).2.trace.toList
    Event.sites events = [] ∧
    ∀ earlier scope depth pc later, events = earlier ++ .enter scope depth pc :: later →
      match scope, Event.sites earlier with
      | .hostCall _, sites => depth = sites.length ∧ sites.head? = some (some pc)
      | .frame body, [] => body = code ∧ depth = 1 ∧ pc = 0
      | .frame _, site :: outer =>
          depth = outer.length + 2 ∧ ∃ index, site = some index ∧ pc = index + 1 := by
  have recorded : (run host (.recorder .full) limits state #[] context code).2.trace.toList =
      (watch host limits state context code).2.trace.events := by
    rw [toList_trace_recorder, List.filter_eq_self]
    intro event listed
    cases event with
    | enter scope | exit scope => cases scope <;> rfl
    | _ => rfl
  have follows := watch_follows host limits state context code
  simp only [recorded]
  refine ⟨follows.sites, fun earlier scope depth pc later split => ?_⟩
  obtain ⟨before, seen, after, place, rfl⟩ := History.exists_split split
  have sited := follows.entries _ _ _ place
  generalize Event.sites before.events = sites at sited ⊢
  cases scope with
  | hostCall method => exact sited
  | frame body =>
      obtain ⟨caller, activation, rfl, due, -, -, depth, -⟩ := sited
      cases due with
      | program => exact ⟨rfl, depth, rfl⟩
      | inside fits => exact ⟨depth, _, rfl, rfl⟩

def eachOnceEvents : List Event :=
  (run ObjectModel.host (.recorder .full) .usual (.withTables .empty .empty) #[] .empty
    eachOnce).2.trace.toList

/-- The call is the instruction at 1, and the block's frame is reported with 2. -/
theorem block_entry_passes_over_the_call :
    ∃ earlier body later, eachOnceEvents = earlier ++ .enter (.frame body) 2 2 :: later ∧
      Event.sites earlier = [some 1] := by
  have sites : Event.sites (eachOnceEvents.take 5) = [some 1] := by
    decide +kernel
  have entry : (eachOnceEvents.drop 5).head?.map (fun event =>
      (Opening.follow [] event).map fun opening =>
        (opening.scope.eventClass, opening.depth, opening.pc)) = some [(.call, 2, 2)] := by
    decide +kernel
  cases rest : eachOnceEvents.drop 5 with
  | nil =>
      rw [rest] at entry
      cases entry
  | cons event later =>
      rw [rest] at entry
      cases event with
      | enter scope depth pc =>
          cases scope with
          | hostCall method => cases entry
          | frame body =>
              obtain ⟨rfl, rfl⟩ : depth = 2 ∧ pc = 2 := by
                simpa [Opening.follow, Scope.eventClass] using entry
              refine ⟨eachOnceEvents.take 5, body, later, ?_, sites⟩
              rw [← rest, List.take_append_drop]
      | _ => cases entry

end Machine

end StackCode
