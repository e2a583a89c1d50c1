namespace Runs

variable {State Label Output : Type}

/-- The runs of a labelled system from a start state, with the labels taken and the outputs
given. Every step is one that the condition allows after the history so far. -/
inductive Run (step : State → Label → Option (State × Output))
    (allowed : List (Label × Output) → State → Label → Prop) (start : State) :
    List (Label × Output) → State → Prop where
  | start : Run step allowed start [] start
  | next {history : List (Label × Output)} {s t : State} {label : Label} {output : Output} :
      Run step allowed start history s → allowed history s label → step s label = some (t, output) →
        Run step allowed start (history ++ [(label, output)]) t

variable {step : State → Label → Option (State × Output)}
variable {allowed : List (Label × Output) → State → Label → Prop} {start : State}

/-- What holds at the start and survives every allowed step holds after every run. -/
theorem Run.invariant (Inv : List (Label × Output) → State → Prop) (base : Inv [] start)
    (preserved : ∀ {history s label t output}, Inv history s → allowed history s label →
      step s label = some (t, output) → Inv (history ++ [(label, output)]) t)
    {history : List (Label × Output)} {s : State} (run : Run step allowed start history s) :
    Inv history s := by
  induction run with
  | start => exact base
  | next _ permitted taken ih => exact preserved ih permitted taken

/-- An element of a history is its last one or stands before that. -/
theorem concat_eq_append_cons {α : Type} {history before after : List α} {x y : α}
    (split : history ++ [x] = before ++ y :: after) : (before = history ∧ y = x ∧ after = []) ∨
      ∃ rest, after = rest ++ [x] ∧ history = before ++ y :: rest := by
  rcases List.eq_nil_or_concat after with rfl | ⟨rest, last, rfl⟩
  · obtain ⟨same, last⟩ := List.append_inj' split rfl
    exact .inl ⟨same.symm, (List.cons.inj last).1.symm, rfl⟩
  · rw [List.concat_eq_append, ← List.cons_append, ← List.append_assoc] at split
    obtain ⟨same, last⟩ := List.append_inj' split rfl
    exact .inr ⟨rest, by rw [List.concat_eq_append, (List.cons.inj last).1], same⟩

/-- A weaker condition allows every run of a stronger one. -/
theorem Run.mono {weaker : List (Label × Output) → State → Label → Prop}
    (weaken : ∀ {history s label}, allowed history s label → weaker history s label)
    {history : List (Label × Output)} {s : State} (run : Run step allowed start history s) :
    Run step weaker start history s := by
  induction run with
  | start => exact .start
  | next _ permitted taken ih => exact .next ih (weaken permitted) taken

/-- The run along a list of labels, if every one of them is allowed and enabled in its turn. -/
def trace (step : State → Label → Option (State × Output)) (allowed : State → Label → Bool) :
    List (Label × Output) → State → List Label → Option (List (Label × Output) × State)
  | history, s, [] => some (history, s)
  | history, s, label :: labels =>
    if allowed s label then match step s label with
      | some (t, output) => trace step allowed (history ++ [(label, output)]) t labels
      | none => none
    else none

theorem Run.trace {allowed : State → Label → Bool} {history : List (Label × Output)} {s : State}
    (run : Run step (fun _ s label => allowed s label = true) start history s) {labels : List Label}
    {ended : List (Label × Output) × State} (taken : Runs.trace step allowed history s labels = some ended) :
    Run step (fun _ s label => allowed s label = true) start ended.1 ended.2 := by
  induction labels generalizing history s with
  | nil =>
    cases taken
    exact run
  | cons label labels ih =>
    rw [Runs.trace] at taken
    split at taken
    · rename_i permitted
      split at taken
      · rename_i t output stepped
        exact ih (.next run permitted stepped) taken
      · cases taken
    · cases taken

/-- Where a list of labels leads, each of them taken in its turn. -/
def leadsTo (step : State → Label → Option (State × Output)) (s : State) (labels : List Label) : Option State :=
  (trace step (fun _ _ => true) [] s labels).map Prod.snd

theorem Run.of_trace {labels : List Label} {ended : List (Label × Output) × State}
    (taken : Runs.trace step (fun _ _ => true) [] start labels = some ended) :
    Run step (fun _ _ _ => True) start ended.1 ended.2 :=
  (Run.trace .start taken).mono fun _ => trivial

theorem Run.of_leadsTo {t : State} {labels : List Label} (taken : leadsTo step start labels = some t) :
    ∃ history, Run step (fun _ _ _ => True) start history t := by
  obtain ⟨ended, traced, rfl⟩ := Option.map_eq_some_iff.mp taken
  exact ⟨ended.1, Run.of_trace traced⟩

/-- The run along a list of labels, where what is allowed depends on the history. -/
def follow (step : State → Label → Option (State × Output))
    (allowed : List (Label × Output) → State → Label → Bool) :
    List (Label × Output) → State → List Label → Option (List (Label × Output) × State)
  | history, s, [] => some (history, s)
  | history, s, label :: labels =>
    if allowed history s label then match step s label with
      | some (t, output) => follow step allowed (history ++ [(label, output)]) t labels
      | none => none
    else none

theorem Run.follow {allowed : List (Label × Output) → State → Label → Bool} {history : List (Label × Output)}
    {s : State} (run : Run step (fun history s label => allowed history s label = true) start history s)
    {labels : List Label} {ended : List (Label × Output) × State}
    (taken : Runs.follow step allowed history s labels = some ended) :
    Run step (fun history s label => allowed history s label = true) start ended.1 ended.2 := by
  induction labels generalizing history s with
  | nil =>
    cases taken
    exact run
  | cons label labels ih =>
    rw [Runs.follow] at taken
    split at taken
    · rename_i permitted
      split at taken
      · rename_i t output stepped
        exact ih (.next run permitted stepped) taken
      · cases taken
    · cases taken

/-- The outputs along a list of labels and where it leads, if every one is enabled in its turn. -/
def behaviour (step : State → Label → Option (State × Output)) : State → List Label → Option (List Output × State)
  | s, [] => some ([], s)
  | s, label :: labels => match step s label with
    | some (t, output) => (behaviour step t labels).map fun (outputs, last) => (output :: outputs, last)
    | none => none

/-- Two systems that answer each label alike, and stay related, behave alike. The relation may
know the labels that are still to come. -/
theorem behaviour_of_lockstep {Other : Type} {other : Other → Label → Option (Other × Output)}
    (related : List Label → State → Other → Prop)
    (lockstep : ∀ {label labels s o}, related (label :: labels) s o → ∃ s' o' output,
      step s label = some (s', output) ∧ other o label = some (o', output) ∧ related labels s' o')
    {labels : List Label} {s : State} {o : Other} (start : related labels s o) :
    ∃ outputs s' o', behaviour step s labels = some (outputs, s') ∧
      behaviour other o labels = some (outputs, o') ∧ related [] s' o' := by
  induction labels generalizing s o with
  | nil => exact ⟨[], s, o, rfl, rfl, start⟩
  | cons label labels ih =>
    obtain ⟨s₁, o₁, output, first, second, next⟩ := lockstep start
    obtain ⟨outputs, s₂, o₂, left, right, last⟩ := ih next
    refine ⟨output :: outputs, s₂, o₂, ?_, ?_, last⟩
    · rw [behaviour, first]
      simp only [left, Option.map_some]
    · rw [behaviour, second]
      simp only [right, Option.map_some]

end Runs
