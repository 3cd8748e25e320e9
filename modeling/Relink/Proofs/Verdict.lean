import Relink.Proofs.Json.Printing
import Relink.Proofs.Json.Unique
import Relink.Verdict

/-!
# The objects that verdicts are told by

A verdict is told by one object, with numbers that are numerals and with no name twice, whatever
was noticed on the way.
-/

namespace Relink

open Json

/-- What is told of a problem is a sound value. -/
theorem Problem.isSound_members (problem : Problem) (depth : Nat) :
    ∀ member ∈ problem.members, member.2.IsSound depth := by
  intro member inside
  simp only [Problem.members, List.mem_cons, List.not_mem_nil, or_false] at inside
  rcases inside with rfl | rfl <;> exact .string ..

theorem FailedWrite.isSound_value (failure : FailedWrite) : failure.value.IsSound 1 :=
  .object (by simp [Problem.members])
    (List.forall_mem_cons.2 ⟨.string .., failure.problem.isSound_members 0⟩)

/-- What is told of a concern is a sound value. -/
theorem Concern.isSound_members (concern : Concern) (depth : Nat) :
    ∀ member ∈ concern.members, member.2.IsSound depth := by
  intro member inside
  cases concern <;> simp only [Concern.members, List.mem_cons, List.not_mem_nil, or_false] at inside
  case unknownDependency => rcases inside with rfl | rfl <;> exact .string ..
  case bareBuiltin => rcases inside with rfl | rfl <;> exact .string ..
  all_goals subst inside; exact .string ..

/-- A warning is a sound value. -/
theorem Warning.isSound_value (warning : Warning) : warning.value.IsSound 1 := by
  refine .object ?_ ?_
  · cases warning.concern <;> simp [Concern.members]
  · intro member inside
    rcases List.mem_append.1 inside with place | said
    · simp only [List.mem_cons, List.not_mem_nil, or_false] at place
      rcases place with rfl | rfl | rfl
      · exact .string ..
      · exact .string ..
      · exact .number 0 (isNumeral_repr _)
    · exact warning.concern.isSound_members 0 member said

/-- What is told of a report is a sound value. -/
theorem Report.isSound_members (report : Report) :
    ∀ member ∈ report.members, member.2.IsSound 2 := by
  intro member inside
  simp only [Report.members, List.mem_append, List.mem_cons, List.not_mem_nil, or_false,
    List.mem_map] at inside
  rcases inside with (rfl | ⟨reason, -, rfl⟩) | rfl | rfl | rfl | rfl | rfl
  · exact .number 2 (isNumeral_repr _)
  · exact .string ..
  · exact .number 2 (isNumeral_repr _)
  · exact .number 2 (isNumeral_repr _)
  · refine .array (List.forall_mem_map.2 fun path _ => ?_)
    exact .string ..
  · exact .array (List.forall_mem_map.2 fun warning _ => warning.isSound_value)
  · exact .array (List.forall_mem_map.2 fun failure _ => failure.isSound_value)

namespace Verdict

/-- The details of a verdict are sound values. -/
theorem isSound_details (verdict : Verdict) : ∀ member ∈ verdict.details, member.2.IsSound 2 := by
  intro member inside
  cases verdict <;> simp only [details, List.mem_cons, List.not_mem_nil, or_false] at inside
  case version =>
    rcases inside with rfl | rfl | rfl
    · exact .string ..
    · exact .string ..
    · exact .number 2 (isNumeral_repr _)
  case passed report => exact report.isSound_members member inside
  case refused problem =>
    rcases inside with rfl | rfl
    · exact .number 2 (isNumeral_repr _)
    · exact .object (by simp [Problem.members]) (problem.isSound_members 1)
  case cleaned path removed =>
    rcases inside with rfl | rfl
    · exact .string ..
    · exact .bool ..
  case declared path succeeded =>
    subst inside
    exact .string ..

/-- No two members of a verdict have the same name. -/
theorem nodup_memberNames (verdict : Verdict) : verdict.value.memberNames.Nodup := by
  cases verdict with
  | passed report =>
    cases skipped : report.skipped <;>
      simp [value, isOk?, details, Report.members, Value.memberNames, skipped]
  | _ => simp [value, isOk?, details, Value.memberNames]

/-- A verdict is an object that can be told in JSON. -/
theorem isSound_value (verdict : Verdict) : verdict.value.IsSound 3 := by
  refine .object verdict.nodup_memberNames fun member inside => ?_
  rcases List.mem_append.1 inside with judged | detail
  · obtain ⟨good, -, rfl⟩ := List.mem_map.1 judged
    exact .bool ..
  · exact verdict.isSound_details member detail

/-- Whether a verdict is good is told under one name, and nothing else is. -/
theorem member?_ok (verdict : Verdict) :
    verdict.value.member? "ok" = verdict.isOk?.map Value.bool := by
  cases verdict <;> rfl

/-- The line of a verdict writes its object and nothing else, and is read as that. -/
theorem isWrittenBy_line_iff (verdict : Verdict) {other : Value} :
    other.IsWrittenBy (verdict.value.render ++ "\n") ↔ other = verdict.value := by
  have written := verdict.isSound_value.isWrittenBy_line
  refine ⟨fun written' => ?_, ?_⟩
  · exact (verdict.isSound_value.eq_of_isWrittenBy written written').symm
  · rintro rfl
    exact written

/-- The line that is printed is read as the verdict, if its numbers fit. -/
theorem read?_line (verdict : Verdict) :
    Json.read? (verdict.value.render ++ "\n") =
      if verdict.value.tokens.all Token.fits then some verdict.value else none :=
  verdict.isSound_value.read? (by decide) verdict.isSound_value.isWrittenBy_line

end Verdict
end Relink
