import StackQuery.Proofs.Value.Order
import StackQuery.Reading

/-!
# Values are read by their canonical forms

The order of values compares canonical forms, and numbers, truth values and
lists are read off canonical forms too.  Only the text of an error shows which
value has been read.
-/

namespace StackQuery

namespace Value

theorem readNumber_eq (v : Value) :
    v.readNumber = match v.canonical with
      | .number n => .ok n
      | _ => .error (.coercion v.print .number) := by
  cases v with
  | literal l =>
      rw [readNumber, canonical]
      cases l.native? with
      | none => rfl
      | some native => cases native <;> rfl
  | resource identifier =>
      cases hnil : isNil identifier <;> simp [readNumber, canonical, hnil]
  | _ => rfl

theorem readBoolean_eq (v : Value) :
    v.readBoolean = match v.canonical with
      | .boolean b => .ok b
      | _ => .error (.coercion v.print .boolean) := by
  cases v with
  | literal l =>
      rw [readBoolean, canonical]
      cases l.native? with
      | none => rfl
      | some native => cases native <;> rfl
  | resource identifier =>
      cases hnil : isNil identifier <;> simp [readBoolean, canonical, hnil]
  | _ => rfl

theorem readNumber_of_canonical {v : Value} {n : Number} (h : v.canonical = .number n) :
    v.readNumber = .ok n := by
  rw [readNumber_eq, h]

end Value

/-- Only a list and a node of the graph are read as a list. -/
theorem ListReading.ofValue_eq (v : Value) :
    ListReading.ofValue v = match v.canonical with
      | .list items => .once (.ok items)
      | .resource identifier => .walk [⟨[], .resource identifier, []⟩]
      | _ => .once (.error (.coercion v.print .list)) := by
  cases v with
  | literal l =>
      rw [ofValue, Value.canonical]
      · cases l.native? with
        | none => rfl
        | some native => cases native <;> rfl
      · simp
      · simp
  | resource identifier =>
      rw [ofValue, Value.canonical]
      split <;> rfl
  | _ => rfl

end StackQuery
