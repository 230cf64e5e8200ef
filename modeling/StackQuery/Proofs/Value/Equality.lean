import StackQuery.Proofs.Value.Order

/-!
# How equal values match

Two values that are the same for the order have canonical forms of one kind,
with the same contents.  The contents of numbers, lists and operators are the
same for their own orders, and those of all other kinds are identical.
-/

namespace StackQuery

theorem Literal.eq_of_order {a b : Literal} (h : a.order b = .eq) : a = b := by
  simp only [order, compareOptional_eq_compare, Ordering.then_eq_eq, Std.compare_eq_iff_eq] at h
  obtain ⟨hlexical, hdatatype, hlanguage⟩ := h
  cases a
  cases b
  simp_all

namespace Value

/-- Canonical values of one kind whose contents are the same. -/
inductive Matches : Value → Value → Prop where
  | boolean (b : Bool) : Matches (.boolean b) (.boolean b)
  | number {m n : Number} (h : m.order n = .eq) : Matches (.number m) (.number n)
  | text (s : String) : Matches (.text s) (.text s)
  | literal (l : Literal) : Matches (.literal l) (.literal l)
  | resource (identifier : String) : Matches (.resource identifier) (.resource identifier)
  | list {xs ys : List Value} (h : orderLists xs ys = .eq) : Matches (.list xs) (.list ys)
  | operator {p q : Operator} (h : p.order q = .eq) : Matches (.operator p) (.operator q)

theorem matches_of_orderCanonical {a b : Value} (h : orderCanonical a b = .eq) : Matches a b := by
  fun_cases orderCanonical a b with
  | case1 x y =>
      have hsame : x.toNat = y.toNat := Nat.compare_eq_eq.1 h
      obtain rfl : x = y := by cases x <;> cases y <;> first | rfl | cases hsame
      exact .boolean x
  | case2 m n => exact .number h
  | case3 x y =>
      obtain rfl : x = y := Std.compare_eq_iff_eq.1 h
      exact .text x
  | case4 x y =>
      obtain rfl := Literal.eq_of_order h
      exact .literal x
  | case5 x y =>
      obtain rfl : x = y := Std.compare_eq_iff_eq.1 h
      exact .resource x
  | case6 xs ys => exact .list h
  | case7 p q => exact .operator h
  | case8 =>
      -- Values of two kinds differ in rank.
      have hrank : a.rank = b.rank := by simpa [orderCanonical] using h
      cases a <;> cases b <;> simp_all [rank]

/-- Equal values have matching canonical forms. -/
theorem canonical_matches {a b : Value} (h : a.order b = .eq) :
    Matches a.canonical b.canonical :=
  matches_of_orderCanonical (order_eq_orderCanonical a b ▸ h)

end Value

end StackQuery
