import DocQuery.Proofs.Fallible
import DocQuery.Value.Written

/-!
# Values that can be written

A value has a written form, and a text that stands for it, unless an integer in it has too many
digits, at whatever depth: `exists_written_iff` and `exists_plain_iff`.
-/

namespace DocQuery.Value

mutual

/-- Whether each integer in the value, at any depth, can be written as text. -/
def isWritable : Value → Bool
  | int n | millis n => Text.isWritable n
  | timestamp s i => Text.isWritable s && Text.isWritable i
  | list vs | tuple vs => allWritable vs
  | map es => entriesWritable es
  | regex pattern flags => pattern.isWritable && Text.isWritable flags.bits
  | compiled pattern _ => pattern.isWritable
  | _ => true
termination_by structural v => v

def allWritable : List Value → Bool
  | [] => true
  | v :: vs => v.isWritable && allWritable vs
termination_by structural vs => vs

def entriesWritable : List (Value × Value) → Bool
  | [] => true
  | (k, v) :: es => k.isWritable && v.isWritable && entriesWritable es
termination_by structural es => es

end

variable {v : Value} {vs : List Value} {es : Entries} {fault : Fault}

theorem discard_writeInt (n : Int) :
    discard (writeInt n) = failUnless (Text.isWritable n) .badValue := by
  unfold writeInt failUnless
  split <;> rfl

theorem discard_regexFlagsWritten (flags : Pattern.Flags) :
    discard (regexFlagsWritten flags) = failUnless (Text.isWritable flags.bits) .badValue := by
  rw [regexFlagsWritten, discard_bind_pure, discard_writeInt]

mutual

theorem discard_written : ∀ v : Value, discard v.written = failUnless v.isWritable .badValue
  | int n => discard_writeInt n
  | millis ms => by rw [written, discard_bind_pure, discard_writeInt, isWritable]
  | timestamp s i => by
    rw [written, discard_bind_bind_pure, discard_writeInt, discard_writeInt, isWritable,
      failUnless_and]
  | list vs => by rw [written, discard_bind_pure, discard_writtenItems vs, isWritable]
  | tuple [] => rfl
  | tuple [v] => by
    rw [written, discard_bind_pure, discard_written v, isWritable, allWritable, allWritable,
      Bool.and_true]
  | tuple (v :: w :: vs) => by
    rw [written, discard_bind_pure, discard_writtenItems (v :: w :: vs), isWritable]
    exact fun _ h => nomatch h
  | map es => by rw [written, discard_bind_pure, discard_writtenEntries es, isWritable]
  | regex pattern flags => by
    rw [written, discard_bind_bind_pure, discard_written pattern, discard_regexFlagsWritten,
      isWritable, failUnless_and]
  | compiled pattern flags => by
    rw [written, discard_bind_pure, discard_written pattern, isWritable]
  | null | bool true | bool false | float _ | text _ | member _ | bytes _ | objectId _ | dateTime _
  | date _ | uuid _ | minKey | maxKey | missing => rfl
termination_by structural v => v

theorem discard_writtenItems : ∀ vs : List Value,
    discard (writtenItems vs) = failUnless (allWritable vs) .badValue
  | [] => rfl
  | v :: vs => by
    rw [writtenItems, discard_bind_bind_pure, discard_written v, discard_writtenItems vs,
      allWritable, failUnless_and]
termination_by structural vs => vs

theorem discard_writtenEntries : ∀ es : List (Value × Value),
    discard (writtenEntries es) = failUnless (entriesWritable es) .badValue
  | [] => rfl
  | (k, v) :: es => by
    rw [writtenEntries, discard_bind]
    simp only [discard_bind_bind_pure]
    rw [← discard_bind_const, discard_written k, discard_written v, discard_writtenEntries es,
      entriesWritable, Bool.and_assoc, failUnless_and, failUnless_and]
termination_by structural es => es

end

theorem discard_plain (v : Value) : discard v.plain = failUnless v.isWritable .badValue := by
  cases v with
  | text | member | objectId | uuid | dateTime | date => rfl
  | _ => exact (discard_bind_pure _ _).trans (discard_written _)

theorem exists_written_iff : (∃ cs, v.written = .ok cs) ↔ v.isWritable = true :=
  exists_ok_iff_of_discard (discard_written v)

theorem exists_plain_iff : (∃ s, v.plain = .ok s) ↔ v.isWritable = true :=
  exists_ok_iff_of_discard (discard_plain v)

theorem plain_eq_error_iff : v.plain = .error fault ↔ v.isWritable = false ∧ fault = .badValue :=
  eq_error_iff_of_discard (discard_plain v)

end DocQuery.Value
