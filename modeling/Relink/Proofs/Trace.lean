import Mathlib.Data.List.Induction

/-!
# Steps that are taken one after the other

What comes of a state in some steps, each of which has a label. The labels can be parted anywhere,
and there is a state at every parting.
-/

namespace Relink

/-- What comes of a state in some steps. -/
inductive Trace {State Label : Type} (Step : State -> Label -> State -> Prop) (first : State) :
    List Label -> State -> Prop
  | nil : Trace Step first [] first
  | concat {labels : List Label} {state next : State} {label : Label}
      (before : Trace Step first labels state) (step : Step state label next) :
      Trace Step first (labels ++ [label]) next

namespace Trace

variable {State Label : Type} {Step : State -> Label -> State -> Prop}
  {first state last : State} {label : Label} {labels later : List Label}

theorem append (before : Trace Step first labels state) (after : Trace Step state later last) :
    Trace Step first (labels ++ later) last := by
  induction after with
  | nil => rwa [List.append_nil]
  | concat _ step ih =>
    rw [← List.append_assoc]
    exact ih.concat step

theorem eq_of_nil (trace : Trace Step first [] last) : last = first := by
  generalize empty : ([] : List Label) = all at trace
  cases trace with
  | nil => rfl
  | concat before step => simp at empty

/-- The last label is that of a step. -/
theorem split_concat (trace : Trace Step first (labels ++ [label]) last) :
    ∃ state, Trace Step first labels state ∧ Step state label last := by
  generalize whole : labels ++ [label] = all at trace
  cases trace with
  | nil => simp at whole
  | concat before step =>
    obtain ⟨rfl, same⟩ := List.append_inj' whole rfl
    obtain rfl := (List.cons.inj same).1
    exact ⟨_, before, step⟩

/-- Steps can be taken one part after the other. -/
theorem split (trace : Trace Step first (labels ++ later) last) :
    ∃ state, Trace Step first labels state ∧ Trace Step state later last := by
  induction later using List.reverseRecOn generalizing last with
  | nil =>
    rw [List.append_nil] at trace
    exact ⟨last, trace, .nil⟩
  | append_singleton later label ih =>
    rw [← List.append_assoc] at trace
    obtain ⟨next, before, step⟩ := trace.split_concat
    obtain ⟨state, earlier, after⟩ := ih before
    exact ⟨state, earlier, after.concat step⟩

/-- The label between two parts is that of a step. -/
theorem split_cons (trace : Trace Step first (labels ++ label :: later) last) :
    ∃ state next, Trace Step first labels state ∧ Step state label next ∧
      Trace Step next later last := by
  rw [List.append_cons] at trace
  obtain ⟨next, before, after⟩ := trace.split
  obtain ⟨state, earlier, step⟩ := before.split_concat
  exact ⟨state, next, earlier, step, after⟩

/-- The step of a trace that has only one. -/
theorem step_of_singleton (trace : Trace Step first [label] last) : Step first label last := by
  have whole : Trace Step first ([] ++ [label]) last := trace
  obtain ⟨state, none_, step⟩ := whole.split_concat
  rwa [none_.eq_of_nil] at step

end Trace
end Relink
