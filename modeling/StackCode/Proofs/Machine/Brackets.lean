import StackCode.Profile
import StackCode.Proofs.Machine.Recording

/-!
# Scopes are bracketed

In a run each exit from a scope matches the innermost scope that is still open,
in kind, depth and call site, and at the end no scope is open.  This stays so
when the events of frames or of host calls are left out.  So a profile that
follows a run never loses track, and it ends with the scopes that were open when
the run began.
-/

namespace StackCode

/-- A scope that was entered, in frames of some depth, from a call site. -/
structure Opening where
  scope : Scope
  depth : Nat
  pc : Nat

/-- The open scopes after an event, innermost first; an exit closes the innermost. -/
def Opening.follow (opens : List Opening) : Event → List Opening
  | .enter scope depth pc => ⟨scope, depth, pc⟩ :: opens
  | .exit .. => opens.tail
  | _ => opens

def Event.leftOpen (events : List Event) : List Opening :=
  events.foldl Opening.follow []

def Event.isScope : Event → Bool
  | .enter .. | .exit .. => true
  | _ => false

/-- From some open scopes events lead to others, and each exit matches its entry. -/
inductive Brackets : List Opening → List Event → List Opening → Prop where
  | nil {opens : List Opening} : Brackets opens [] opens
  | enter {opens final : List Opening} {rest : List Event} {scope : Scope} {depth pc : Nat} :
      Brackets (⟨scope, depth, pc⟩ :: opens) rest final →
      Brackets opens (.enter scope depth pc :: rest) final
  | exit {opens final : List Opening} {rest : List Event} {scope : Scope} {depth pc : Nat} :
      Brackets opens rest final →
      Brackets (⟨scope, depth, pc⟩ :: opens) (.exit scope depth pc :: rest) final
  | other {opens final : List Opening} {rest : List Event} {event : Event} :
      event.isScope = false → Brackets opens rest final → Brackets opens (event :: rest) final

namespace Brackets

variable {opens middle final : List Opening} {events first second : List Event}

theorem append (earlier : Brackets opens first middle) (later : Brackets middle second final) :
    Brackets opens (first ++ second) final := by
  induction earlier with
  | nil => exact later
  | enter _ ih => exact .enter (ih later)
  | exit _ ih => exact .exit (ih later)
  | other quiet _ ih => exact .other quiet (ih later)

theorem split (brackets : Brackets opens (first ++ second) final) :
    ∃ middle, Brackets opens first middle ∧ Brackets middle second final := by
  induction first generalizing opens with
  | nil => exact ⟨opens, .nil, brackets⟩
  | cons event rest ih =>
      cases brackets with
      | enter further =>
          obtain ⟨middle, earlier, later⟩ := ih further
          exact ⟨middle, .enter earlier, later⟩
      | exit further =>
          obtain ⟨middle, earlier, later⟩ := ih further
          exact ⟨middle, .exit earlier, later⟩
      | other quiet further =>
          obtain ⟨middle, earlier, later⟩ := ih further
          exact ⟨middle, .other quiet earlier, later⟩

/-- What is open before an exit has at its head the scope that is left. -/
theorem before_exit {earlier later : List Event} {scope : Scope} {depth pc : Nat}
    (brackets : Brackets opens (earlier ++ .exit scope depth pc :: later) final) :
    ∃ outer, Brackets opens earlier (⟨scope, depth, pc⟩ :: outer) := by
  obtain ⟨middle, before, after⟩ := brackets.split
  cases after with
  | exit further => exact ⟨_, before⟩
  | other quiet _ => cases quiet

theorem foldl_follow (brackets : Brackets opens events final) :
    events.foldl Opening.follow opens = final := by
  induction brackets with
  | nil => rfl
  | enter _ ih => exact ih
  | exit _ ih => exact ih
  | @other opens final rest event quiet _ ih =>
      have unchanged : Opening.follow opens event = opens := by
        cases event with
        | enter | exit => cases quiet
        | _ => rfl
      rw [List.foldl_cons, unchanged, ih]

/-- Under a mask the scopes of classes that are not wanted are missing, each with both its ends. -/
theorem filter (mask : TraceMask) (brackets : Brackets opens events final) :
    Brackets (opens.filter fun opening => mask.contains opening.scope.eventClass)
      (events.filter fun event => mask.contains event.eventClass)
      (final.filter fun opening => mask.contains opening.scope.eventClass) := by
  induction brackets with
  | nil => exact .nil
  | @enter opens final rest scope depth pc _ ih =>
      cases wanted : mask.contains scope.eventClass with
      | true =>
          simp only [List.filter_cons, Event.eventClass, wanted, if_true] at ih ⊢
          exact .enter ih
      | false => simpa [List.filter_cons, Event.eventClass, wanted] using ih
  | @exit opens final rest scope depth pc _ ih =>
      cases wanted : mask.contains scope.eventClass with
      | true =>
          simp only [List.filter_cons, Event.eventClass, wanted, if_true] at ih ⊢
          exact .exit ih
      | false => simpa [List.filter_cons, Event.eventClass, wanted] using ih
  | @other opens final rest event quiet _ ih =>
      rw [List.filter_cons]
      split
      · exact .other quiet ih
      · exact ih

end Brackets

/-! ## Runs -/

/-- At each level of a run the scopes that it was entered through are open. -/
def Nesting.bracketing (σ : Type) : Nesting σ where
  Level := List Opening
  holds opens machine := Brackets [] machine.trace.events opens
  steady holds _ same := same ▸ holds
  instruction {_ machine} holds code pc instruction depth := by
    rw [History.events_noting]
    exact holds.append (.other rfl .nil)
  raised {_ machine} holds error := by
    rw [History.events_append]
    change Brackets [] (machine.trace.events ++ []) _
    rw [List.append_nil]
    exact holds
  hostCall {opens machine} holds method depth pc := by
    refine ⟨⟨.hostCall method, depth, pc⟩ :: opens, ?_, fun _ => id, fun after holds => ?_⟩
    · rw [History.events_noting]
      exact holds.append (.enter .nil)
    · rw [History.events_noting]
      exact holds.append (.exit .nil)
  frame {opens machine activation} holds _ := by
    refine ⟨⟨.frame activation.code, machine.context.frames.size + 1, machine.context.pc⟩ :: opens,
      trivial, ?_, fun after holds => ?_⟩
    · rw [History.events_noting]
      exact holds.append (.enter .nil)
    · dsimp only
      rw [History.events_noting]
      exact holds.append (.exit .nil)

/-- A run leaves every scope that it enters. -/
theorem Machine.brackets_watch {σ : Type} (host : Host σ) (limits : Limits) (state : σ)
    (context : Context) (code : Sequence) :
    Brackets [] (watch host limits state context code).2.trace.events [] := by
  have started : (Nesting.bracketing σ).holds []
      ((start limits state [] context).noting History.watcher (.runStart code)) := by
    change Brackets _ (History.events (noting _ _ _).trace) _
    rw [History.events_noting]
    exact .other rfl .nil
  obtain ⟨ended, holds, watched⟩ := watch_keeps host limits state context code started trivial
  rw [watched, History.events_noting]
  exact Brackets.append holds (.other rfl .nil)

/-- Whatever classes of events are recorded of a run, they are bracketed. -/
theorem Machine.brackets_recorded {σ : Type} (host : Host σ) (mask : TraceMask) (limits : Limits)
    (state : σ) (context : Context) (code : Sequence) :
    Brackets [] (run host (.recorder mask) limits state #[] context code).2.trace.toList [] := by
  rw [toList_trace_recorder]
  exact (brackets_watch host limits state context code).filter mask

/-! ## Profiles -/

namespace Profile

variable {ρ : Type}

def Expects (profile : Profile ρ) (scope : Scope) (depth : Nat) : Prop :=
  ∃ innermost outer, profile.scopes = innermost :: outer ∧
    innermost.kind = scope.eventClass ∧ innermost.depth = depth

/-- Above some scopes the profile has the given ones, whatever their labels. -/
def Tracks (profile : Profile ρ) (base : List OpenScope) (opens : List Opening) : Prop :=
  ∃ inner, profile.scopes = inner ++ base ∧
    inner.map (fun scope => (scope.kind, scope.depth)) =
      opens.map fun opening => (opening.scope.eventClass, opening.depth)

variable {profile : Profile ρ} {base : List OpenScope} {opens final : List Opening}
  {scope : Scope} {depth pc : Nat}

theorem Tracks.enter (tracks : profile.Tracks base opens) (resolver : LabelResolver ρ) :
    (profile.enter resolver scope depth).Tracks base (⟨scope, depth, pc⟩ :: opens) := by
  obtain ⟨inner, scopes, same⟩ := tracks
  refine ⟨_ :: inner, congrArg (List.cons _) scopes, ?_⟩
  rw [List.map_cons, same]
  rfl

/-- The scope that is open innermost is expected to be left, and then the others are open. -/
theorem Tracks.exit (tracks : profile.Tracks base (⟨scope, depth, pc⟩ :: opens)) :
    profile.Expects scope depth ∧ (profile.exit scope depth).Tracks base opens := by
  obtain ⟨inner, scopes, same⟩ := tracks
  cases inner with
  | nil => cases same
  | cons innermost outer =>
      simp only [List.map_cons, List.cons.injEq, Prod.mk.injEq] at same
      obtain ⟨⟨kind, level⟩, same⟩ := same
      refine ⟨⟨innermost, _, scopes, kind, level⟩, outer, ?_, same⟩
      simp [Profile.exit, scopes, kind, level]

/-- A profile of bracketed events keeps the scopes that were open before. -/
theorem Tracks.follow {events : List Event} (resolver : LabelResolver ρ)
    (brackets : Brackets opens events final) (tracks : profile.Tracks base opens) :
    (events.foldl (Profile.follow resolver) profile).Tracks base final := by
  induction brackets generalizing profile with
  | nil => exact tracks
  | enter _ ih => exact ih (tracks.enter resolver)
  | exit _ ih => exact ih tracks.exit.2
  | @other opens final rest event quiet _ ih =>
      have unchanged : Profile.follow resolver profile event = profile := by
        cases event with
        | enter | exit => cases quiet
        | _ => rfl
      rw [List.foldl_cons, unchanged]
      exact ih tracks

end Profile

namespace Machine

variable {σ : Type}

/--
Whatever classes of events are recorded of a run, each exit matches the
innermost open scope in kind, depth and call site, and no scope is open at the
end.  A profile of the run expects each of these exits, so that it never drops
its scopes, and it ends with those that it had at the start.
-/
theorem scopes_are_bracketed (host : Host σ) (limits : Limits) (state : σ) (context : Context)
    (code : Sequence) (mask : TraceMask) :
    let events := (run host (.recorder mask) limits state #[] context code).2.trace.toList
    Event.leftOpen events = [] ∧
    (∀ earlier scope depth pc later, events = earlier ++ .exit scope depth pc :: later →
      (Event.leftOpen earlier).head? = some ⟨scope, depth, pc⟩) ∧
    ∀ {ρ : Type} (resolver : LabelResolver ρ) (profile : Profile ρ),
      let ended := (run host { Profile.observer resolver with mask } limits state profile context
        code).2.trace
      ended = events.foldl (Profile.follow resolver) profile ∧ ended.scopes = profile.scopes ∧
      ∀ earlier scope depth pc later, events = earlier ++ .exit scope depth pc :: later →
        (earlier.foldl (Profile.follow resolver) profile).Expects scope depth := by
  have recorded := toList_trace_recorder host mask limits state context code
  have brackets := brackets_recorded host mask limits state context code
  refine ⟨brackets.foldl_follow, ?_, ?_⟩
  · intro earlier scope depth pc later split
    rw [split] at brackets
    obtain ⟨outer, before⟩ := brackets.before_exit
    rw [Event.leftOpen, before.foldl_follow, List.head?_cons]
  · intro ρ resolver profile
    have followed : (run host { Profile.observer resolver with mask } limits state profile context
        code).2.trace = (run host (.recorder mask) limits state #[] context
          code).2.trace.toList.foldl (Profile.follow resolver) profile := by
      rw [recorded]
      exact trace_run host mask (Profile.follow resolver) limits state profile context code
    have tracks : profile.Tracks profile.scopes [] := ⟨[], rfl, rfl⟩
    refine ⟨followed, ?_, ?_⟩
    · obtain ⟨inner, scopes, same⟩ := tracks.follow resolver brackets
      rw [followed, scopes, List.map_eq_nil_iff.mp same, List.nil_append]
    · intro earlier scope depth pc later split
      rw [split] at brackets
      obtain ⟨outer, before⟩ := brackets.before_exit
      exact (tracks.follow resolver before).exit.1

/-- The block's frame is inside the call, and the call inside the frame that makes it. -/
example :
    let ended := (run ObjectModel.host (.recorder .scopes) .usual (.withTables .empty .empty) #[]
      .empty eachOnce).2
    (ended.trace.toList.map fun
      | .enter scope depth _ => (true, scope.eventClass, depth)
      | .exit scope depth _ => (false, scope.eventClass, depth)
      | event => (false, event.eventClass, 0)) =
    [(true, .call, 1), (true, .host, 1), (true, .call, 2),
      (false, .call, 2), (false, .host, 1), (false, .call, 1)] := by
  decide +kernel

end Machine

end StackCode
