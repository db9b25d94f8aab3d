import StackCode.Proofs.Machine.Limits
import StackCode.Proofs.Machine.Nesting

/-!
# Recorded runs

An observer that looks at events alone makes of a run what it makes of the
events of its history, less those of classes that it does not want.  Whether
anyone follows the run, and which events are wanted, changes nothing else.
-/

namespace StackCode

def Sight.event? : Sight → Option Event
  | .event seen _ => some seen
  | .raise .. => none

namespace History

def events (history : History) : List Event :=
  history.filterMap Sight.event?

theorem events_append (earlier later : History) :
    events (earlier ++ later) = events earlier ++ events later :=
  List.filterMap_append

variable {σ : Type}

theorem trace_noting (machine : Machine σ History) (event : Event) :
    (machine.noting watcher event).trace = machine.trace ++ [.event event machine.context] :=
  see_watcher event machine.context machine.trace

theorem events_noting (machine : Machine σ History) (event : Event) :
    events (machine.noting watcher event).trace = events machine.trace ++ [event] := by
  rw [trace_noting, events_append]
  rfl

theorem prefix_noting {start : History} {machine : Machine σ History}
    (grown : start <+: machine.trace) (event : Event) :
    start <+: (machine.noting watcher event).trace := by
  rw [trace_noting]
  exact grown.trans (List.prefix_append _ _)

/-- An observer of events sees those that it wants, in order. -/
theorem seenBy_eq_foldl {τ : Type} (mask : TraceMask) (note : τ → Event → τ) (trace : τ)
    (history : History) :
    seenBy ⟨mask, fun event _ trace => note trace event⟩ trace history =
      (history.events.filter fun event => mask.contains event.eventClass).foldl note trace := by
  induction history generalizing trace with
  | nil => rfl
  | cons sight rest ih =>
      cases sight with
      | raise error context => exact ih trace
      | event event context =>
          have split : events (.event event context :: rest) = event :: events rest := rfl
          rw [split, List.filter_cons]
          by_cases wanted : mask.contains event.eventClass = true
          · rw [if_pos wanted, List.foldl_cons, ← ih]
            simp [seenBy, Observer.see, wanted]
          · rw [if_neg wanted, ← ih]
            simp [seenBy, Observer.see, wanted]

/-- A recorder has the events that it wants. -/
theorem toList_seenBy_recorder (mask : TraceMask) (history : History) :
    (seenBy (.recorder mask) #[] history).toList =
      history.events.filter fun event => mask.contains event.eventClass := by
  have recorded := seenBy_eq_foldl mask Array.push #[] history
  unfold Observer.recorder
  rw [recorded]
  simp

end History

/-- A history grows at its end only. -/
def Nesting.growth (σ : Type) (start : History) : Nesting σ where
  Level := Unit
  holds _ machine := start <+: machine.trace
  steady holds _ same := same ▸ holds
  instruction holds _ _ _ _ := History.prefix_noting holds _
  raised holds _ := holds.trans (List.prefix_append _ _)
  hostCall holds _ _ _ :=
    ⟨(), History.prefix_noting holds _, fun _ => id, fun _ holds => History.prefix_noting holds _⟩
  frame {_ machine activation} holds _ := by
    have entered : start <+: (machine.entering activation).trace := holds
    refine ⟨(), trivial, History.prefix_noting entered _, fun after holds => ?_⟩
    exact History.prefix_noting holds
      (.exit (.frame activation.code) (machine.context.frames.size + 1) machine.context.pc)

namespace Machine

variable {σ : Type}

/-- The events of a run begin with its start and end with its end. -/
theorem events_watch (host : Host σ) (limits : Limits) (state : σ) (context : Context)
    (code : Sequence) :
    ∃ between, (watch host limits state context code).2.trace.events =
      .runStart code :: between ++
        [.runEnd code (faultOf? (watch host limits state context code).1)] := by
  have started : (Nesting.growth σ [.event (.runStart code) context.reset]).holds ()
      ((start limits state [] context).noting History.watcher (.runStart code)) := by
    change _ <+: (Machine.noting _ _ _).trace
    rw [History.trace_noting]
    exact List.prefix_refl _
  obtain ⟨ended, ⟨between, grown⟩, watched⟩ :=
    watch_keeps host limits state context code started trivial
  refine ⟨History.events between, ?_⟩
  rw [watched, History.events_noting, ← grown, History.events_append]
  rfl

/-- An observer of events makes of a run what it makes of the wanted events of its history. -/
theorem trace_run {τ : Type} (host : Host σ) (mask : TraceMask) (note : τ → Event → τ)
    (limits : Limits) (state : σ) (trace : τ) (context : Context) (code : Sequence) :
    (run host ⟨mask, fun event _ trace => note trace event⟩ limits state trace context
        code).2.trace =
      ((watch host limits state context code).2.trace.events.filter
        fun event => mask.contains event.eventClass).foldl note trace := by
  rw [run_eq_watch]
  exact History.seenBy_eq_foldl mask note trace _

/-- What is recorded of a run is what is wanted of the events of its history. -/
theorem toList_trace_recorder (host : Host σ) (mask : TraceMask) (limits : Limits) (state : σ)
    (context : Context) (code : Sequence) :
    (run host (.recorder mask) limits state #[] context code).2.trace.toList =
      (watch host limits state context code).2.trace.events.filter
        fun event => mask.contains event.eventClass := by
  rw [run_eq_watch]
  exact History.toList_seenBy_recorder mask _

/--
Following a run does not change it.  What is recorded of it under a mask is what
is recorded of it under the full one, less the events of other classes; and if
the events of runs are wanted, the first is the start of the run and the last is
its end, with its outcome.
-/
theorem masks_only_filter (host : Host σ) (limits : Limits) (state : σ) (context : Context)
    (code : Sequence) (mask : TraceMask) :
    let (result, ended) := run host (.recorder mask) limits state #[] context code
    let (result', ended') := run host .silent limits state () context code
    let full := (run host (.recorder .full) limits state #[] context code).2.trace
    result = result' ∧ ended.context = ended'.context ∧ ended.host = ended'.host ∧
    ended.trace = full.filter (fun event => mask.contains event.eventClass) ∧
    (mask.run = true → ended.trace[0]? = some (.runStart code) ∧
      ended.trace.back? = some (.runEnd code (faultOf? result))) := by
  obtain ⟨between, events⟩ := events_watch host limits state context code
  have recorded (mask : TraceMask) := toList_trace_recorder host mask limits state context code
  simp only [run_eq_watch, withTrace, true_and] at recorded ⊢
  refine ⟨?_, fun wanted => ?_⟩
  · have all (event : Event) : TraceMask.full.contains event.eventClass = true := by
      cases event.eventClass <;> rfl
    apply Array.toList_inj.mp
    rw [Array.toList_filter, recorded mask, recorded .full]
    simp [all]
  · have first := congrArg (fun events => events[0]?) (recorded mask)
    have last := congrArg List.getLast? (recorded mask)
    rw [events] at first last
    have started : mask.contains (Event.runStart code).eventClass = true := wanted
    have finished (fault : Option Fault) :
        mask.contains (Event.runEnd code fault).eventClass = true := wanted
    rw [Array.getElem?_toList] at first
    rw [Array.getLast?_toList] at last
    constructor
    · simpa [started] using first
    · simpa [finished] using last

end Machine

end StackCode
