import StackCode.Proofs.Machine.Account

/-!
# Journals

A journal lists every instruction that a run is about to execute, with the
context it finds, and every step of a frame from one of its instructions to the
next, whatever is entered in between.  What every frame keeps from each of its
instructions to the next holds of everything the journal of a run lists.
-/

namespace StackCode

/-- An instruction that is about to run, in the context it finds. -/
structure Visit where
  code : Sequence
  pc : Nat
  instruction : Instruction
  context : Context

/-- Two instructions that a frame runs one after the other. -/
structure Move where
  code : Sequence
  source : Nat
  target : Nat

structure Journal where
  /-- The instruction that each live frame ran last, innermost frame first. -/
  latest : List (Option Nat)
  visits : List Visit
  moves : List Move

namespace Journal

def empty : Journal := ⟨[], [], []⟩

def record (journal : Journal) (visit : Visit) : Journal where
  latest := some visit.pc :: journal.latest.tail
  visits := journal.visits ++ [visit]
  moves := journal.moves ++
    journal.latest.head?.join.toList.map fun source => ⟨visit.code, source, visit.pc⟩

def note : Event → Context → Journal → Journal
  | .instruction code pc instruction _, context, journal =>
      journal.record ⟨code, pc, instruction, context⟩
  | .enter (.frame _) _ _, _, journal => { journal with latest := none :: journal.latest }
  | .exit (.frame _) _ _, _, journal => { journal with latest := journal.latest.tail }
  | _, _, journal => journal

def observer : Observer Journal :=
  ⟨.full, note⟩

def ofRun {σ : Type} (host : Host σ) (limits : Limits) (state : σ) (context : Context)
    (code : Sequence) : Journal :=
  (Machine.run host observer limits state empty context code).2.trace

theorem see_eq_note (event : Event) (context : Context) (journal : Journal) :
    observer.see event context journal = note event context journal := by
  cases event with
  | enter scope | exit scope => cases scope <;> rfl
  | _ => rfl

theorem note_of_host {event : Event} (ofHost : event.eventClass = .host) (context : Context)
    (journal : Journal) : note event context journal = journal := by
  cases event with
  | enter scope depth pc | exit scope depth pc =>
      cases scope with
      | frame code => cases ofHost
      | hostCall method => rfl
  | _ => cases ofHost

end Journal

/-- What every frame has at its first instruction and keeps from each instruction to the next. -/
structure FrameInvariant where
  holds : Sequence → Context → Prop
  entered : ∀ (context : Context) (code : Sequence) (self : Value) (parent : Option Nat)
    (block : Option Closure) (arguments : List Value),
    holds code { context.enter code self parent block arguments with pc := 0 }
  kept : ∀ {code : Sequence} {before after : Context} {instruction : Instruction}
    {outcome : Outcome}, holds code before → code.instruction? before.pc = some instruction →
    before.Performs code instruction outcome after → after.pc = outcome.place before.pc →
    (∀ result, outcome ≠ .leave result) → holds code after

namespace FrameInvariant

variable (invariant : FrameInvariant)

/-- A frame may run the instruction at `source` and have `context` after it. -/
def Leads (code : Sequence) (source : Nat) (context : Context) : Prop :=
  ∃ before instruction outcome, invariant.holds code before ∧ before.pc = source ∧
    code.instruction? source = some instruction ∧
    before.Performs code instruction outcome context ∧ context.pc = outcome.place source ∧
    ∀ result, outcome ≠ .leave result

structure Accepts (journal : Journal) : Prop where
  visits : ∀ visit ∈ journal.visits, visit.context.pc = visit.pc ∧
    visit.code.instruction? visit.pc = some visit.instruction ∧
    invariant.holds visit.code visit.context
  moves : ∀ move ∈ journal.moves, ∃ context, context.pc = move.target ∧
    (move.code.instruction? move.target).isSome ∧ invariant.Leads move.code move.source context

theorem accepts_empty : invariant.Accepts .empty :=
  ⟨by simp [Journal.empty], by simp [Journal.empty]⟩

/-- Between two instructions a frame has come to a context that its last instruction led to. -/
structure Reached (code : Sequence) (entry : Journal) (context : Context) (journal : Journal) :
    Prop where
  latest : ∃ last, journal.latest = last :: entry.latest ∧
    ∀ source ∈ last, invariant.Leads code source context
  accepted : invariant.Accepts entry → invariant.Accepts journal
  holds : invariant.holds code context

variable {invariant}

/-- Recording the next instruction of a frame keeps the journal as the invariant says. -/
theorem Reached.record {code : Sequence} {entry journal : Journal} {context : Context}
    {instruction : Instruction} (reached : invariant.Reached code entry context journal)
    (found : code.instruction? context.pc = some instruction)
    (accepted : invariant.Accepts entry) :
    invariant.Accepts (journal.record ⟨code, context.pc, instruction, context⟩) := by
  obtain ⟨last, latest, leads⟩ := reached.latest
  constructor
  · intro visit listed
    rcases List.mem_append.mp listed with before | here
    · exact (reached.accepted accepted).visits visit before
    · obtain rfl := List.mem_singleton.mp here
      exact ⟨rfl, found, reached.holds⟩
  · intro move listed
    rcases List.mem_append.mp listed with before | here
    · exact (reached.accepted accepted).moves move before
    · obtain ⟨source, last, rfl⟩ := List.mem_map.mp here
      rw [latest, List.head?_cons, Option.join_some, Option.mem_toList] at last
      exact ⟨context, rfl, by simp [found], leads source last⟩

def account (invariant : FrameInvariant) : Account Journal.observer where
  across before after :=
    after.latest = before.latest ∧ (invariant.Accepts before → invariant.Accepts after)
  within := invariant.Reached
  keeps := {
    refl := fun _ => ⟨rfl, id⟩
    trans := fun earlier later => ⟨later.1.trans earlier.1, later.2 ∘ earlier.2⟩
    host := fun event context journal ofHost => by
      rw [Journal.see_eq_note, Journal.note_of_host ofHost]
      exact ⟨rfl, id⟩ }
  enters {context} code self parent block arguments entry := by
    rw [Journal.see_eq_note]
    exact ⟨⟨none, rfl, by simp⟩, fun accepted => ⟨accepted.visits, accepted.moves⟩,
      invariant.entered context code self parent block arguments⟩
  advances {code entry trace trace' context context' instruction outcome} reached found across
      performs place stays := by
    rw [Journal.see_eq_note] at across
    obtain ⟨last, latest, -⟩ := reached.latest
    refine ⟨⟨some context.pc, ?_, ?_⟩, fun accepted => ?_, ?_⟩
    · rw [across.1]
      simp [Journal.note, Journal.record, latest]
    · rintro source here
      obtain rfl := Option.some.inj here
      exact ⟨context, instruction, outcome, reached.holds, rfl, found, performs, place, stays⟩
    · exact across.2 (reached.record found accepted)
    · exact invariant.kept reached.holds found performs place stays
  stops {code entry trace context} reached context' depth pc := by
    rw [Journal.see_eq_note]
    obtain ⟨last, latest, -⟩ := reached.latest
    refine ⟨by simp [Journal.note, latest], fun accepted => ?_⟩
    exact ⟨(reached.accepted accepted).visits, (reached.accepted accepted).moves⟩
  halts {code entry trace trace' context instruction} reached found across context' depth pc := by
    rw [Journal.see_eq_note] at across ⊢
    obtain ⟨last, latest, -⟩ := reached.latest
    refine ⟨by simp [Journal.note, Journal.record, across.1, latest], fun accepted => ?_⟩
    have ended := across.2 (reached.record found accepted)
    exact ⟨ended.visits, ended.moves⟩

/-- What every frame keeps holds of all that a run does. -/
theorem accepts_ofRun {σ : Type} (invariant : FrameInvariant) (host : Host σ) (limits : Limits)
    (state : σ) (context : Context) (code : Sequence) :
    invariant.Accepts (Journal.ofRun host limits state context code) := by
  obtain ⟨ended, returns, run⟩ :=
    Machine.run_returns invariant.account host limits state Journal.empty context code
  have accepted := returns.trace.2 invariant.accepts_empty
  unfold Journal.ofRun
  rw [run]
  have unchanged (result : Except Fault Value) (event : Event) (machine : Machine σ Journal)
      (ofRun : event.eventClass = .run) :
      ((machine.keepResult result).noting Journal.observer event).trace = machine.trace := by
    cases event with
    | runStart | runEnd => cases result <;> rfl
    | enter scope | exit scope => cases scope <;> cases ofRun
    | instruction => cases ofRun
  rw [unchanged _ _ _ rfl]
  exact accepted

end FrameInvariant

end StackCode
