import DocQuery.Message
import DocQuery.Proofs.Value.Writable

/-!
# Faults that can be said

What is malformed is refused as such where the text of that fault can be written, that is where no
integer shown in it has too many digits (`Malformed.fault_eq`).
-/

namespace DocQuery

namespace Predicate

mutual

/-- Whether each integer in the fields of the predicate, at any depth, can be written as text. -/
def isWritable : Predicate → Bool
  | ⟨kind, column, operator, value, values, connective, negated, group, document⟩ =>
    kind.isWritable && column.isWritable && operator.isWritable && value.isWritable &&
      values.isWritable && connective.isWritable && negated.isWritable && groupIsWritable group &&
      document.isWritable
termination_by structural p => p

def groupIsWritable : List Predicate → Bool
  | [] => true
  | p :: ps => p.isWritable && groupIsWritable ps
termination_by structural ps => ps

end

mutual

theorem discard_written : ∀ p : Predicate,
    discard p.written = failUnless p.isWritable .badValue
  | ⟨kind, column, operator, value, values, connective, negated, group, document⟩ => by
    rw [written, isWritable]
    simp only [discard_bind, Bool.and_assoc, failUnless_and, ← Value.discard_written,
      discard_bind_const, ← discard_writtenGroup group]
    cases document.written <;> rfl
termination_by structural p => p

theorem discard_writtenGroup : ∀ ps : List Predicate,
    discard (writtenGroup ps) = failUnless (groupIsWritable ps) .badValue
  | [] => rfl
  | p :: ps => by
    rw [writtenGroup, discard_bind_bind_pure, groupIsWritable, failUnless_and, discard_written p,
      discard_writtenGroup ps]
termination_by structural ps => ps

end

end Predicate

namespace Malformed

/-- Whether each integer in what the text of the fault shows can be written. -/
def isWritable : Malformed → Bool
  | unknownKind kind => kind.isWritable
  | missingColumn p | missingValues p | missingDocument p => p.isWritable
  | badBounds _ values => values.isWritable

theorem discard_message (m : Malformed) :
    discard m.message = failUnless m.isWritable .badValue := by
  have hshown : discard m.shown = failUnless m.isWritable .badValue := by
    cases m with
    | unknownKind kind => exact kind.discard_written
    | missingColumn p | missingValues p | missingDocument p => exact p.discard_written
    | badBounds negated values => exact values.discard_written
  rw [message, discard_bind_pure, hshown]

/-- What is malformed is refused as such, unless the text that says so cannot be written. -/
theorem fault_eq (m : Malformed) :
    m.fault = if m.isWritable then .malformed m else .badValue := by
  have hmessage := m.discard_message
  unfold fault
  cases hm : m.message with
  | ok text => rw [(exists_ok_iff_of_discard hmessage).mp ⟨text, hm⟩]; rfl
  | error fault =>
    obtain ⟨hno, rfl⟩ := (eq_error_iff_of_discard hmessage).mp hm
    rw [hno]
    rfl

end Malformed

end DocQuery
