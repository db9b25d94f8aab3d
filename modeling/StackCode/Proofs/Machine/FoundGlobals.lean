import StackCode.Proofs.Machine.HostStates
import StackCode.Proofs.Machine.Limits
import StackCode.Proofs.Machine.Sessions
import StackCode.Proofs.Machine.Upkeep

/-!
# Globals that were found

A program that looks up a global may find it at the host, and from then on it has
the global as its own.  It never loses one; so what was found at any time of a run
is there when the run has ended, whether it failed or not.  What the host has found
is known from a list that is kept beside its state.
-/

namespace StackCode

/-! ## A host that remembers what it found -/

/-- The conversation, with something beside its states that it hands on. -/
def Conversation.beside {σ ε : Type} (kept : ε) : Conversation σ → Conversation (σ × ε)
  | .done result state => .done result (state, kept)
  | .yield arguments state resume =>
      .yield arguments (state, kept) fun answer next => (resume answer next.1).beside next.2

/-- The host, which also lists the globals for which it had a value. -/
def Host.listing {σ : Type} (host : Host σ) : Host (σ × List String) where
  send state receiver method arguments :=
    (host.send state.1 receiver method arguments).map id (·, state.2)
  sendWithBlock state receiver method arguments :=
    (host.sendWithBlock state.1 receiver method arguments).beside state.2
  global state name :=
    let (found, next) := host.global state.1 name
    (found, next, if found.isSome then name :: state.2 else state.2)
  constant state scope name := (host.constant state.1 scope name).map id (·, state.2)
  respondsTo state receiver name := (host.respondsTo state.1 receiver name).map id (·, state.2)

/-- Listing what it found changes nothing in what a host does. -/
theorem Host.listing_extends {σ : Type} (host : Host σ) : host.listing.Extends Prod.fst host := by
  have viewed (conversation : Conversation σ) (found : List String) :
      (conversation.beside found).Viewed Prod.fst conversation := by
    induction conversation generalizing found with
    | done result state => exact .done result (state, found)
    | yield arguments state resume ih =>
        exact .yield fun answer next => ih answer next.1 next.2
  constructor
  case sendWithBlock => exact fun state receiver method arguments => viewed _ _
  all_goals
    intros
    rfl

/-! ## What is found stays -/

def Context.Retains (before after : Context) : Prop :=
  ∀ name, before.Tracks name → after.Tracks name

/--
The machine has all globals that were there when the run started, or at any time
since then, or that were found at the host; and those of the start were always there.
-/
structure Machine.Retains {σ : Type} (start : Context)
    (machine : Machine (σ × List String) History) : Prop where
  started : start.Retains machine.context
  always : ∀ sight ∈ machine.trace, start.Retains sight.context
  seen : ∀ sight ∈ machine.trace, sight.context.Retains machine.context
  found : ∀ name ∈ machine.host.2, machine.context.Tracks name

namespace Machine.Retains

variable {σ : Type} {start : Context} {machine : Machine (σ × List String) History}
  (retains : machine.Retains start)
include retains

/-- The context may change as long as it loses no global. -/
theorem withContext {context : Context} (kept : machine.context.Retains context) :
    ({ machine with context } : Machine (σ × List String) History).Retains start where
  started name there := kept name (retains.started name there)
  always := retains.always
  seen sight seen name there := kept name (retains.seen sight seen name there)
  found name there := kept name (retains.found name there)

theorem withHost {host : σ × List String} (found : ∀ name ∈ host.2, machine.context.Tracks name) :
    ({ machine with host } : Machine (σ × List String) History).Retains start :=
  ⟨retains.started, retains.always, retains.seen, found⟩

theorem seeing {sight : Sight} (now : sight.context = machine.context) :
    ({ machine with trace := machine.trace ++ [sight] } :
      Machine (σ × List String) History).Retains start := by
  refine ⟨retains.started, fun other there => ?_, fun other there => ?_, retains.found⟩
  · rcases List.mem_append.mp there with before | last
    · exact retains.always other before
    · rw [List.mem_singleton.mp last, now]
      exact retains.started
  · rcases List.mem_append.mp there with before | last
    · exact retains.seen other before
    · rw [List.mem_singleton.mp last, now]
      exact fun name => id

theorem acted {host : Host σ} {instruction : Instruction} {frame : Nat}
    {machine' : Machine (σ × List String) History}
    (deed : Execution.Deed host.listing instruction frame machine machine') :
    machine'.Retains start := by
  cases deed with
  | nothing => exact retains
  | askConstant | askMethod => exact retains.withHost retains.found
  | missGlobal name looked untracked missed =>
      have same : (host.listing.global machine.host name).2.2 = machine.host.2 := by
        simp only [Host.listing] at missed ⊢
        rw [missed]
        rfl
      exact retains.withHost (same ▸ retains.found)
  | findGlobal name value looked untracked found =>
      -- The host lists the global in the same step in which the context gets it.
      have listed : (host.listing.global machine.host name).2.2 = name :: machine.host.2 := by
        simp only [Host.listing] at found ⊢
        rw [found]
        rfl
      have now := retains.withContext fun _ there => there.setGlobal name value
      refine now.withHost ?_
      rw [listed]
      exact List.forall_mem_cons.mpr ⟨Context.tracks_setGlobal _ _ _, now.found⟩
  | setGlobal name value => exact retains.withContext fun _ there => there.setGlobal name value
  | setLocal assigned =>
      obtain ⟨index, change, keeps, rfl, -⟩ := Context.exists_modifyFrame_of_setLocal? assigned
      exact retains.withContext fun _ there => there
  | defineMethod => exact retains.withContext fun _ there => there

/-- A conversation hands on the list as the block left it. -/
theorem upholds_beside (conversation : Conversation σ) :
    (conversation.beside machine.host.2).Upholds (Machine.Retains start) machine := by
  induction conversation generalizing machine with
  | done result state => exact retains.withHost retains.found
  | yield arguments state resume ih =>
      exact ⟨retains.withHost retains.found, fun answer after retains => ih _ _ retains⟩

end Machine.Retains

def retaining {σ : Type} (host : Host σ) (start : Context) : Upkeep host.listing where
  holds := Machine.Retains start
  moved retains _ := retains.withContext fun _ there => there
  jumped retains _ := retains.withContext fun _ there => there
  spent retains _ _ := ⟨retains.started, retains.always, retains.seen, retains.found⟩
  saw {machine} retains event := by
    unfold Machine.noting
    rw [History.see_watcher]
    exact retains.seeing rfl
  acted retains _ _ deed := retains.acted deed
  raised retains _ _ _ _ := retains.seeing rfl
  refused retains := retains.seeing rfl
  entered retains _ _ := retains.withContext fun _ there => there
  left {machine} retains frame := by
    refine retains.withContext fun _ there => ?_
    rwa [Context.Tracks, Context.global?, Context.globals_leave]
  asked retains _ _ _ := retains.withHost retains.found
  talked retains _ _ _ := retains.upholds_beside _

/-! ## Look-ups -/

def Machine.Knows {σ τ : Type} (host : Host σ) (machine : Machine σ τ) (name : String) : Prop :=
  machine.context.Tracks name ∨ (host.global machine.host name).1.isSome

namespace Execution

variable {σ τ : Type} {host : Host σ} {machine : Machine σ τ} {name : String}

/-- What there is to be found is found, and from then on the context has it. -/
theorem findGlobal_tracks (known : machine.Knows host name) :
    Ends (findGlobal host name) machine
      (fun found after => found.isSome ∧ after.context.Tracks name) (fun _ _ => False) := by
  unfold findGlobal
  rw [ends_bind, ends_context]
  cases tracked : machine.context.global? name with
  | some value =>
      have there : machine.context.Tracks name := by simp [Context.Tracks, tracked]
      exact ⟨rfl, there⟩
  | none =>
      have untracked : ¬ machine.context.Tracks name := by simp [Context.Tracks, tracked]
      obtain ⟨value, answered⟩ := Option.isSome_iff_exists.mp (known.resolve_left untracked)
      rw [ends_bind, ends_askHost, answered]
      exact ⟨rfl, Context.tracks_setGlobal _ _ _⟩

/-- An instruction that looks up a global ends well, and leaves what there is to be found. -/
theorem step_tracks {instruction : Instruction} (looks : instruction.global? = some name)
    (enough : instruction.demand ≤ machine.context.operands.length)
    (known : machine.Knows host name) (observer : Observer τ)
    (enter : Activation → Execution σ τ Value) (code : Sequence) (frame : Nat) :
    Ends (step host observer enter code frame instruction) machine
      (fun _ after => after.context.Tracks name) (fun _ _ => False) := by
  cases instruction with
  | getGlobal other =>
      obtain rfl := Option.some.inj looks
      simp only [step, ends_bind, ends_push, ends_pure]
      exact (findGlobal_tracks known).mono (fun _ _ there => there.2) (fun _ _ => id)
  | defined kind object value =>
      cases kind with
      | globalVariable =>
          obtain rfl := Option.some.inj looks
          obtain ⟨operand, below, operands⟩ := List.exists_cons_of_length_pos enough
          have popped : pop machine = .ok operand (machine.withOperands below) := by
            rw [pop_eq, operands]
          have known : (machine.withOperands below).Knows host object.toName := known
          rw [step, ends_bind_of_ok popped]
          simp only [isDefined, ends_bind, ends_push, ends_pure]
          exact (findGlobal_tracks known).mono (fun _ _ there => there.2) (fun _ _ => id)
      | _ => cases looks
  | _ => cases looks

end Execution

namespace Machine

/--
A global that the program has is its own.  What an object model has under the name
makes no difference to a session whose context has the global: results, contexts and
output are the same from step to step, and the global stays.

An instruction that looks up a global which the context has or the host knows ends well,
and from then on the context has the global.

Whoever follows it, a run is the watched run under the host that lists what it finds.
In that a global which the context has at the start is there at all times.  An
instruction that looks up a global finds it in the context in which the instruction is
seen, or else at the host, which then lists it; either way the global is there at the
end, also of a run that fails.
-/
theorem globals_belong_to_the_program :
    (∀ {τ : Type} (observer : Observer τ) {name : String} {session session' : Session τ},
      session.AlikeBut name session' → ∀ steps : List SessionStep,
        session'.reports observer steps = session.reports observer steps ∧
        ∀ report ∈ session.reports observer steps, report.context.Tracks name) ∧
    (∀ {σ τ : Type} (host : Host σ) (observer : Observer τ)
      (enter : Activation → Execution σ τ Value) (code : Sequence) (frame : Nat)
      (machine : Machine σ τ) {instruction : Instruction} {name : String},
      instruction.global? = some name →
        instruction.demand ≤ machine.context.operands.length → machine.Knows host name →
        Execution.Ends (Execution.step host observer enter code frame instruction) machine
          (fun _ after => after.context.Tracks name) (fun _ _ => False)) ∧
    ∀ {σ : Type} (host : Host σ) (limits : Limits) (state : σ) (context : Context)
      (code : Sequence),
      let watched := watch host.listing limits (state, []) context code
      let ended := watched.2
      (∀ {τ : Type} (observer : Observer τ) (trace : τ),
        run host observer limits state trace context code =
          (watched.1, (ended.viewed Prod.fst).withTrace (ended.trace.seenBy observer trace))) ∧
      (∀ name, context.Tracks name → ∀ sight ∈ ended.trace, sight.context.Tracks name) ∧
      ∀ name, (∃ sight ∈ ended.trace, sight.context.Tracks name) ∨ name ∈ ended.host.2 →
        ended.context.Tracks name := by
  refine ⟨fun observer _ _ _ alike steps => alike.reports observer steps, ?_, ?_⟩
  · intro σ τ host observer enter code frame machine instruction name looks enough known
    exact Execution.step_tracks looks enough known observer enter code frame
  intro σ host limits state context code
  have started : (start limits (state, []) ([] : History) context).Retains context :=
    ⟨fun _ => id, nofun, nofun, nofun⟩
  have retains : (watch host.listing limits (state, []) context code).2.Retains context :=
    watch_upholds (retaining host context) limits (state, []) context trivial started
  refine ⟨fun observer trace => ?_, ?_, ?_⟩
  · have viewed := run_viewed host.listing_extends observer limits (state, []) trace context code
    rw [run_eq_watch host.listing] at viewed
    exact viewed
  · exact fun name there sight seen => retains.always sight seen name there
  · rintro name (⟨sight, seen, there⟩ | found)
    · exact retains.seen sight seen name there
    · exact retains.found name found

/-- Read a global; then there is no value to leave with. -/
def readThenFail : Sequence where
  name := "<compiled>"
  kind := .top
  code := #[.getGlobal "$answer", .pop, .leave]
  labels := #[]
  locals := []
  parameters := .none
  handlers := []

theorem answer_stays_when_found :
    let knowing : ObjectModel := .withTables (.ofList [("$answer", .integer 42)]) .empty
    let unknowing : ObjectModel := .withTables .empty .empty
    let context := Context.empty.setGlobal "$answer" (.integer 1)
    let steps : List SessionStep :=
      [.run .usual readThenFail, .reset, .setGlobal "$other" .nil, .run .usual readThenFail]
    (Session.mk context unknowing ()).reports .silent steps =
        (Session.mk context knowing ()).reports .silent steps ∧
      (∀ report ∈ (Session.mk context knowing ()).reports .silent steps,
        report.context.Tracks "$answer") ∧
      Execution.Ends
        (Execution.step ObjectModel.host .silent (fun _ => pure .nil) readThenFail 0
          (.getGlobal "$answer"))
        (start .usual knowing () .empty)
        (fun _ after => after.context.Tracks "$answer") (fun _ _ => False) ∧
      let ended := watch ObjectModel.host.listing .usual (knowing, []) .empty readThenFail
      ended.1.isOk = false ∧ ended.2.context.Tracks "$answer" := by
  intro knowing unknowing context steps
  have alike : (Session.mk context knowing ()).AlikeBut "$answer" (.mk context unknowing ()) := by
    refine ⟨rfl, rfl, ⟨rfl, rfl, fun _ => rfl, fun other different => ?_⟩, rfl⟩
    have absent : knowing.globals.get? other = none := by
      simp [knowing, ObjectModel.withTables, Table.ofList, Table.get?_insert, different]
    rw [absent]
    rfl
  obtain ⟨same, tracks⟩ := globals_belong_to_the_program.1 .silent alike steps
  have known : (start .usual knowing () .empty).Knows ObjectModel.host "$answer" :=
    .inr (by decide +kernel)
  refine ⟨same, tracks, ?_, by decide +kernel, ?_⟩
  · exact globals_belong_to_the_program.2.1 _ _ _ _ _ _ rfl (Nat.zero_le _) known
  have kept := globals_belong_to_the_program.2.2 ObjectModel.host .usual knowing .empty readThenFail
  exact kept.2.2 "$answer" (.inr (by decide +kernel))

end Machine

end StackCode
