import StackCode.ObjectModel.Host

/-!
# The errors of the standard object model are its own

A host may report the failure of a block that it ran.  The methods of the
standard object model that run no block report nothing of the kind: whatever
they refuse, they refuse for reasons of their own.
-/

namespace StackCode.ObjectModel

/-- The result is not the failure of a block. -/
def Own {α : Type} (result : Except HostError α) : Prop :=
  ∀ fault, result ≠ .error (.block fault)

theorem Own.ok {α : Type} (value : α) : Own (.ok value) :=
  nofun

theorem Own.raised {α : Type} (reason : String) : Own (α := α) (.error (.raised reason)) :=
  nofun

theorem Own.map {α β : Type} {result : Except HostError α} (own : Own result) (change : α → β) :
    Own (change <$> result) := by
  cases result with
  | ok value => nofun
  | error error =>
      intro fault same
      exact own fault (congrArg _ (Except.error.inj same))

theorem Own.bind {α β : Type} {result : Except HostError α} {next : α → Except HostError β}
    (own : Own result) (nexts : ∀ value, Own (next value)) : Own (result >>= next) := by
  cases result with
  | ok value => exact nexts value
  | error error =>
      intro fault same
      exact own fault (congrArg _ (Except.error.inj same))

theorem Own.foldlM {α β : Type} {step : β → α → Except HostError β}
    (steps : ∀ state item, Own (step state item)) (items : List α) (start : β) :
    Own (items.foldlM step start) := by
  induction items generalizing start with
  | nil => exact .ok start
  | cons item rest ih =>
      rw [List.foldlM_cons]
      exact .bind (steps start item) ih

theorem commonMethod_own (receiver : Value) (method : String) (arguments : List Value) :
    Own (commonMethod receiver method arguments) := by
  unfold commonMethod
  split <;> nofun

theorem ordered_own (receiver other : Value) (question : Ordering → Bool) :
    Own (ordered receiver other question) := by
  unfold ordered
  split <;> nofun

theorem comparison_own (receiver : Value) (method : String) (arguments : List Value) :
    Own (comparison receiver method arguments) := by
  unfold comparison
  split <;> first
    | exact .ok _
    | exact ordered_own _ _ _
    | exact commonMethod_own _ _ _

theorem exactInteger_own (exact : Int) : Own (exactInteger exact) := by
  unfold exactInteger
  split <;> nofun

theorem quotient_own (dividend divisor : Int64) : Own (quotient dividend divisor) := by
  unfold quotient
  split
  · nofun
  · exact .bind (exactInteger_own _) fun _ => .ok _

theorem remainder_own (dividend divisor : Int64) : Own (remainder dividend divisor) := by
  unfold remainder
  split
  · nofun
  · exact .bind (exactInteger_own _) fun _ => .ok _

theorem shiftLeft_own (number distance : Int64) : Own (shiftLeft number distance) := by
  unfold shiftLeft
  split
  · exact .ok _
  · exact .raised _

theorem integerMethod?_own {first second : Int64} {method : String}
    {result : Except HostError Int64}
    (found : integerMethod? first second method = some result) : Own result := by
  unfold integerMethod? at found
  split at found <;> cases found
  all_goals first
    | exact exactInteger_own _
    | exact quotient_own _ _
    | exact remainder_own _ _
    | exact shiftLeft_own _ _
    | exact .ok _

theorem numericMethod_own (receiver : Value) (method : String) (arguments : List Value) :
    Own (numericMethod receiver method arguments) := by
  unfold numericMethod
  split
  · split
    · exact (exactInteger_own _).map _
    · exact comparison_own _ _ _
  · split
    · rename_i found
      exact (integerMethod?_own found).map _
    · exact comparison_own _ _ _
  · split
    · split
      · exact .ok _
      · exact comparison_own _ _ _
    · split
      · nofun
      · exact comparison_own _ _ _
  · exact comparison_own _ _ _

theorem stringMethod_own (text method : String) (arguments : List Value) :
    Own (stringMethod text method arguments) := by
  unfold stringMethod
  split <;> first
    | exact .ok _
    | exact comparison_own _ _ _
    | split <;> nofun

theorem extremum_own (better : Ordering) (items : List Value) : Own (extremum better items) := by
  unfold extremum
  split
  · exact .ok _
  · refine .foldlM (fun best item => ?_) _ _
    split <;> nofun

theorem arrayMethod_own (items : List Value) (method : String) (arguments : List Value) :
    Own (arrayMethod items method arguments) := by
  unfold arrayMethod
  split <;> first
    | exact .ok _
    | exact comparison_own _ _ _
    | exact extremum_own _ _
    | exact .foldlM (fun _ _ => numericMethod_own _ _ _) _ _
    | exact .raised _
    | split <;> nofun

theorem hashMethod_own (pairs : List (Value × Value)) (method : String) (arguments : List Value) :
    Own (hashMethod pairs method arguments) := by
  unfold hashMethod
  split <;> first
    | exact .ok _
    | exact comparison_own _ _ _

/-- A call without a block fails with an error of the object model's own, if it fails. -/
theorem send_own (model : ObjectModel) (receiver : Value) (method : String)
    (arguments : List Value) : Own (model.send receiver method arguments).1 := by
  unfold send
  split
  · split
    · unfold timesWithoutBlock
      dsimp only
      split <;> nofun
    · exact numericMethod_own _ _ _
  · exact numericMethod_own _ _ _
  · exact stringMethod_own _ _ _
  · exact arrayMethod_own _ _ _
  · exact hashMethod_own _ _ _
  · split
    · exact .ok _
    · exact comparison_own _ _ _
  · exact comparison_own _ _ _

end StackCode.ObjectModel
