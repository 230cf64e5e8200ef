import StackQuery.Proofs.Library.Standard
import StackQuery.Proofs.Solutions.Above
import StackQuery.Proofs.Streams.Alike
import StackQuery.Proofs.Streams.Histories

/-!
# First occurrences

The word `unique` remembers the stacks that it lets through, and drops a stack
that is the same as one of them.  Since to be the same is an equivalence, it
would drop no other stacks if it remembered all that come by.  So what it brings
is told from the items of the stream alone: a stack shows unless an earlier one
is the same, and errors show in their places.  The stream inside and the word
around it are stepped side by side, and what relates the stacks remembered to
the items that have come by is an invariant of these steps.
-/

namespace StackQuery

/-! ## Stacks that are the same -/

namespace Stack

theorem same_refl (a : Stack) : a.same a :=
  beq_iff_eq.mpr Std.ReflCmp.compare_self

theorem same_comm (a b : Stack) : a.same b = b.same a := by
  rw [Bool.eq_iff_iff, same, same, beq_iff_eq, beq_iff_eq]
  exact ⟨Std.OrientedCmp.eq_symm, Std.OrientedCmp.eq_symm⟩

theorem same_trans {a b c : Stack} (hab : a.same b) (hbc : b.same c) : a.same c := by
  rw [same, beq_iff_eq] at hab hbc ⊢
  exact Std.TransCmp.eq_trans hab hbc

/-- Some stacks in a set that is ordered as lists of values are. -/
def orderedSet (seen : List Stack) : Std.TreeSet Stack Value.orderLists :=
  seen.foldr (fun stack set => set.insert stack) ∅

/-- Looking a stack up in the ordered set finds what a search through all of them finds. -/
theorem contains_orderedSet (seen : List Stack) (stack : Stack) :
    (orderedSet seen).contains stack = seen.any stack.same := by
  induction seen with
  | nil => exact Std.TreeSet.contains_emptyc
  | cons earlier seen ih =>
      have hearlier : (Value.orderLists earlier stack == .eq) = stack.same earlier :=
        same_comm earlier stack
      rw [List.any_cons, ← ih, ← hearlier]
      exact Std.TreeSet.contains_insert

end Stack

/-! ## First occurrences among items -/

/-- Two solutions with stacks that are the same. -/
def sameStacks : Item → Item → Bool
  | .ok a, .ok b => a.same b
  | _, _ => false

@[simp] theorem sameStacks_error (item : Item) (error : EvalError) :
    sameStacks item (.error error) = false := by
  cases item <;> rfl

theorem sameStacks_comm (a b : Item) : sameStacks a b = sameStacks b a := by
  cases a <;> cases b <;> first | rfl | exact Stack.same_comm _ _

theorem sameStacks_trans {a b c : Item} (hab : sameStacks a b) (hbc : sameStacks b c) :
    sameStacks a c := by
  cases a with
  | error error => cases hab
  | ok a =>
      cases b with
      | error error => cases hab
      | ok b =>
          cases c with
          | error error => cases hbc
          | ok c => exact Stack.same_trans hab hbc

@[simp] theorem sameStacks_empty (v : Value) (rest : Stack) :
    sameStacks (.ok (v :: rest)) (.ok []) = false :=
  Bool.eq_false_iff.mpr fun h => Nat.succ_ne_zero _ (Stack.length_eq_of_same h)

/--
What shows in the place of an item that comes after some others.  An empty stack
is too shallow, and it is the same as no other stack.
-/
def firstOccurrence? (before : List Item) : Item → Option Item
  | .error error => some (.error error)
  | .ok [] => some (.error (.arity "unique" 1 0))
  | .ok stack => if before.any (sameStacks (.ok stack)) then none else some (.ok stack)

/-- What shows of some items that come after some others. -/
def firstOccurrences (before : List Item) : List Item → List Item
  | [] => []
  | item :: later =>
      (firstOccurrence? before item).toList ++ firstOccurrences (before ++ [item]) later

/-- What shows is an error, or an item that is the same as none before it. -/
theorem firstOccurrence?_eq_some {before : List Item} {item shown : Item}
    (h : firstOccurrence? before item = some shown) :
    (∃ error, shown = .error error) ∨ shown = item ∧ before.any (sameStacks item) = false := by
  match item with
  | .error error => exact .inl ⟨error, (Option.some.inj h).symm⟩
  | .ok [] => exact .inl ⟨_, (Option.some.inj h).symm⟩
  | .ok (v :: rest) =>
      rw [firstOccurrence?] at h
      · split at h
        next => cases h
        next hnew => exact .inr ⟨(Option.some.inj h).symm, Bool.eq_false_iff.mpr hnew⟩
      · simp

/-- No solution that shows has the same stack as an item before. -/
theorem any_sameStacks_of_mem_firstOccurrences {before items : List Item} {shown : Item}
    (h : shown ∈ firstOccurrences before items) : before.any (sameStacks shown) = false := by
  induction items generalizing before with
  | nil => cases h
  | cons item items ih =>
      rw [firstOccurrences, List.mem_append] at h
      rcases h with hnow | hlater
      · rcases firstOccurrence?_eq_some (Option.mem_toList.mp hnow) with ⟨error, rfl⟩ | ⟨rfl, hnew⟩
        · simp [sameStacks]
        · exact hnew
      · have hnone := ih hlater
        rw [List.any_append, Bool.or_eq_false_iff] at hnone
        exact hnone.1

/-- No two solutions that show have the same stack. -/
theorem pairwise_firstOccurrences (before items : List Item) :
    (firstOccurrences before items).Pairwise fun a b => sameStacks a b = false := by
  induction items generalizing before with
  | nil => exact .nil
  | cons item items ih =>
      rw [firstOccurrences, List.pairwise_append]
      refine ⟨?_, ih _, fun shown hshown later hlater => ?_⟩
      · cases firstOccurrence? before item with
        | none => exact .nil
        | some shown => exact List.pairwise_singleton _ _
      · have hnone := any_sameStacks_of_mem_firstOccurrences hlater
        rw [List.any_append, Bool.or_eq_false_iff, List.any_cons, Bool.or_eq_false_iff] at hnone
        rcases firstOccurrence?_eq_some (Option.mem_toList.mp hshown) with ⟨error, rfl⟩ | ⟨rfl, _⟩
        · rfl
        · rw [sameStacks_comm]
          exact hnone.2.1

/--
A stack that is not empty is the same as an item, or as one before, just if it
is the same as what shows in the place of the item, or as one before.
-/
theorem any_firstOccurrence? (before : List Item) (item : Item) (v : Value) (rest : Stack) :
    (before.any (sameStacks (.ok (v :: rest))) ||
      (firstOccurrence? before item).toList.any (sameStacks (.ok (v :: rest)))) =
      (before ++ [item]).any (sameStacks (.ok (v :: rest))) := by
  rw [List.any_append]
  match item with
  | .error error => rfl
  | .ok [] => simp [firstOccurrence?]
  | .ok (w :: tail) =>
      by_cases hseen : before.any (sameStacks (.ok (w :: tail)))
      · have hdropped : firstOccurrence? before (.ok (w :: tail)) = none := by
          simp [firstOccurrence?, hseen]
        have habsorbed : sameStacks (.ok (v :: rest)) (.ok (w :: tail)) →
            before.any (sameStacks (.ok (v :: rest))) := fun hsame => by
          obtain ⟨earlier, hearlier, hsame'⟩ := List.any_eq_true.mp hseen
          exact List.any_eq_true.mpr ⟨earlier, hearlier, sameStacks_trans hsame hsame'⟩
        cases hsame : sameStacks (.ok (v :: rest)) (.ok (w :: tail)) with
        | false => simp [hdropped, hsame]
        | true => simp [hdropped, hsame, habsorbed hsame]
      · simp [firstOccurrence?, hseen]

theorem any_firstOccurrences (before items : List Item) (v : Value) (rest : Stack) :
    (before.any (sameStacks (.ok (v :: rest))) ||
      (firstOccurrences before items).any (sameStacks (.ok (v :: rest)))) =
      (before ++ items).any (sameStacks (.ok (v :: rest))) := by
  induction items generalizing before with
  | nil => rw [firstOccurrences, List.any_nil, Bool.or_false, List.append_nil]
  | cons item items ih =>
      rw [firstOccurrences, List.any_append, ← Bool.or_assoc, any_firstOccurrence?, ih,
        List.append_assoc, List.singleton_append]

/-- A stack that is not empty is the same as one that shows. -/
theorem exists_sameStacks_of_mem {items : List Item} {v : Value} {rest : Stack}
    (h : .ok (v :: rest) ∈ items) :
    ∃ shown ∈ firstOccurrences [] items, sameStacks (.ok (v :: rest)) shown := by
  have hany := any_firstOccurrences [] items v rest
  rw [List.any_nil, Bool.false_or, List.nil_append] at hany
  rw [← List.any_eq_true, hany, List.any_eq_true]
  exact ⟨_, h, Stack.same_refl _⟩

/-- The empty list and the resource that stands for it are the same. -/
example : firstOccurrences []
    [.ok [.list []], .error .aborted, .ok [], .ok [.resource Vocabulary.rdfNil],
      .ok [.list [], .list []]] =
    [.ok [.list []], .error .aborted, .error (.arity "unique" 1 0), .ok [.list [], .list []]] :=
  rfl

/-! ## Side by side -/

namespace Solutions

/-- The word `unique` around a stream, with the stacks that it remembers. -/
def unique (seen : List Stack) (live : Solutions) : Solutions :=
  .distinct seen (.deep "unique" 1 live)

section Step

variable {s : Surroundings} {seen : List Stack} {live next : Solutions} {stack : Stack}

instance wraps_unique : Wraps (step s) (unique seen) := by
  constructor <;> intros <;> simp only [unique, step, *]

theorem step_unique_error {error : EvalError} (h : step s live = .item (.error error) next) :
    step s (unique seen live) = .item (.error error) (unique seen next) := by
  simp only [unique, step, h]

theorem step_unique_empty (h : step s live = .item (.ok []) next) :
    step s (unique seen live) = .item (.error (.arity "unique" 1 0)) (unique seen next) := by
  simp only [unique, step, h, List.length_nil, if_pos Nat.zero_lt_one]

theorem step_unique_seen (h : step s live = .item (.ok stack) next) (hdeep : stack ≠ [])
    (hseen : seen.any stack.same) : step s (unique seen live) = .working (unique seen next) := by
  have hlength : ¬ stack.length < 1 := by simpa using hdeep
  simp only [unique, step, h, if_neg hlength, if_pos hseen]

theorem step_unique_new (h : step s live = .item (.ok stack) next) (hdeep : stack ≠ [])
    (hnew : ¬ seen.any stack.same) :
    step s (unique seen live) = .item (.ok stack) (unique (stack :: seen) next) := by
  have hlength : ¬ stack.length < 1 := by simpa using hdeep
  simp only [unique, step, h, if_neg hlength, if_neg hnew]

end Step

/-- What is remembered once something has shown in the place of an item, or nothing has. -/
def remember (seen : List Stack) : Option Item → List Stack
  | some (.ok stack) => stack :: seen
  | _ => seen

/-- The stacks remembered are the same as a stack just if some item that has come by is. -/
def Remembers (seen : List Stack) (before : List Item) : Prop :=
  ∀ v rest, seen.any (Stack.same (v :: rest)) = before.any (sameStacks (.ok (v :: rest)))

/-- What a step of the word shows, by what the stream inside does in that step. -/
inductive Shows (seen : List Stack) (before : List Item) : Progress EvalError Solutions Stack →
    Progress EvalError Solutions Stack → Prop where
  | shown {item shown : Item} {next : Solutions}
      (hshown : firstOccurrence? before item = some shown) :
      Shows seen before (.item item next) (.item shown (unique (remember seen (some shown)) next))
  | dropped {item : Item} {next : Solutions} (hdropped : firstOccurrence? before item = .none) :
      Shows seen before (.item item next) (.working (unique seen next))
  | working {next : Solutions} : Shows seen before (.working next) (.working (unique seen next))
  | waiting : Shows seen before .waiting .waiting
  | ended : Shows seen before .ended .ended

variable {seen : List Stack} {before : List Item}

theorem Remembers.append (h : Remembers seen before) {item : Item} {shown : Option Item}
    (hshown : firstOccurrence? before item = shown) :
    Remembers (remember seen shown) (before ++ [item]) := fun v rest => by
  rw [← any_firstOccurrence?, hshown, ← h]
  match shown with
  | .none => simp [remember]
  | some (.error error) => simp [remember]
  | some (.ok stack) => simp [remember, sameStacks, Bool.or_comm]

theorem step_unique_shows (h : Remembers seen before) (s : Surroundings) (live : Solutions) :
    Shows seen before (step s live) (step s (unique seen live)) := by
  cases hstep : step s live with
  | waiting =>
      rw [Wraps.waiting hstep]
      exact .waiting
  | ended =>
      rw [Wraps.ended hstep]
      exact .ended
  | working next =>
      rw [Wraps.working hstep]
      exact .working
  | item item next =>
      match item with
      | .error error =>
          rw [step_unique_error hstep]
          exact .shown rfl
      | .ok [] =>
          rw [step_unique_empty hstep]
          exact .shown rfl
      | .ok (v :: rest) =>
          have hdeep : v :: rest ≠ [] := List.cons_ne_nil v rest
          by_cases hseen : seen.any (Stack.same (v :: rest))
          · have hdropped : firstOccurrence? before (.ok (v :: rest)) = .none :=
              if_pos ((h v rest).symm.trans hseen)
            rw [step_unique_seen hstep hdeep hseen]
            exact .dropped hdropped
          · have hshown : firstOccurrence? before (.ok (v :: rest)) = some (.ok (v :: rest)) :=
              if_neg fun hbefore => hseen ((h v rest).trans hbefore)
            rw [step_unique_new hstep hdeep hseen]
            exact .shown hshown

theorem Shows.waiting_iff {inside around : Progress EvalError Solutions Stack}
    (h : Shows seen before inside around) : around = .waiting ↔ inside = .waiting := by
  cases h <;> simp

theorem Shows.ended_iff {inside around : Progress EvalError Solutions Stack}
    (h : Shows seen before inside around) : around = .ended ↔ inside = .ended := by
  cases h <;> simp

/-- In any moments, the word brings the first occurrences, and it is left around the stream. -/
theorem brought_unique (moments : List Surroundings) (live : Solutions)
    (h : Remembers seen before) :
    brought step moments (unique seen live) = firstOccurrences before (brought step moments live) ∧
      ∃ seen', reached step moments (unique seen live) = unique seen' (reached step moments live) ∧
        Remembers seen' (before ++ brought step moments live) := by
  induction moments generalizing seen before live with
  | nil =>
      refine ⟨rfl, seen, rfl, ?_⟩
      rw [brought_nil, List.append_nil]
      exact h
  | cons moment later ih =>
      have hshows := step_unique_shows h moment live
      simp only [brought_cons, reached_cons]
      generalize step moment live = inside at hshows ⊢
      generalize step moment (unique seen live) = around at hshows ⊢
      cases hshows with
      | @shown item shown next hshown =>
          have hlater := ih next (h.append hshown)
          simp only [List.append_assoc, List.singleton_append] at hlater
          simp only [Progress.items, Progress.after, List.singleton_append, firstOccurrences,
            hshown, Option.toList_some]
          exact ⟨congrArg _ hlater.1, hlater.2⟩
      | @dropped item next hdropped =>
          have hlater := ih next (h.append hdropped)
          simp only [List.append_assoc, List.singleton_append] at hlater
          simp only [Progress.items, Progress.after, List.singleton_append, firstOccurrences,
            hdropped, Option.toList_none, List.nil_append]
          exact hlater
      | working => exact ih _ h
      | waiting => exact ih live h
      | ended => exact ih live h

/-- The word around itself remembers the same stacks twice, and lets through what is new. -/
theorem unique_unique_alike (seen : List Stack) (live : Solutions) :
    StackQuery.Alike step step (unique seen (unique seen live)) (unique seen live) := by
  let R : Nat → Solutions → Solutions → Prop := fun _ twice once =>
    ∃ seen live, twice = unique seen (unique seen live) ∧ once = unique seen live
  refine alike_of_meets (R := R) ?_ 0 ⟨seen, live, rfl, rfl⟩
  rintro _ _ _ ⟨seen, live, rfl, rfl⟩ s
  cases hstep : step s live with
  | waiting => exact .waiting (Wraps.waiting (Wraps.waiting hstep)) (Wraps.waiting hstep)
  | ended => exact .ended (Wraps.ended (Wraps.ended hstep)) (Wraps.ended hstep)
  | working next =>
      exact .working (Wraps.working (Wraps.working hstep)) (Wraps.working hstep)
        ⟨0, seen, next, rfl, rfl⟩
  | item item next =>
      match item with
      | .error error =>
          have honce : step s (unique seen live) = .item (.error error) (unique seen next) :=
            step_unique_error hstep
          exact .item (step_unique_error honce) honce ⟨0, seen, next, rfl, rfl⟩
      | .ok [] =>
          have honce : step s (unique seen live) =
              .item (.error (.arity "unique" 1 0)) (unique seen next) := step_unique_empty hstep
          exact .item (step_unique_error honce) honce ⟨0, seen, next, rfl, rfl⟩
      | .ok (v :: rest) =>
          have hdeep : v :: rest ≠ [] := List.cons_ne_nil v rest
          by_cases hseen : seen.any (Stack.same (v :: rest))
          · have honce := step_unique_seen hstep hdeep hseen
            exact .working (Wraps.working honce) honce ⟨0, seen, next, rfl, rfl⟩
          · have honce := step_unique_new hstep hdeep hseen
            exact .item (step_unique_new honce hdeep hseen) honce ⟨0, _, next, rfl, rfl⟩

end Solutions

/-- The word `unique` of the standard library keeps the stacks that it has let through. -/
theorem Standard.resolve?_unique : ∃ p,
    Library.standard.resolve? "unique" = some (.primitive p) ∧
      ∀ live, (Operator.primitive p).onStream live = .unique [] live := by
  obtain ⟨p, hp, haction, harity⟩ : ∃ p, Standard.words[34]? = some p ∧
      p.action = .unique ∧ p.arity = 1 := ⟨_, rfl, rfl, rfl⟩
  have hname : p.name = "unique" := name_of_word (i := 34) rfl hp
  refine ⟨p, resolve?_word (i := 34) rfl hp, fun live => ?_⟩
  rw [Operator.onStream, haction, hname, harity]
  rfl

/--
From any stream, the word `unique` brings the errors, an error for each empty
stack, and each stack that is the same as no earlier one.  So no two of its
solutions have the same stack, and no stack of the stream is missing.  The word
waits where the stream waits and ends where it ends, and to use the word twice
is to use it once.  The stacks that it remembers may be kept in an ordered set.
-/
theorem unique_brings_first_occurrences :
    (∃ p, Library.standard.resolve? "unique" = some (.primitive p) ∧ ∀ live : Solutions,
      let once := (Operator.primitive p).onStream live
      (∀ moments : List Surroundings,
        let given := brought Solutions.step moments live
        let kept := brought Solutions.step moments once
        kept = firstOccurrences [] given ∧
        (kept.Pairwise fun a b => sameStacks a b = false) ∧
        (∀ v rest, .ok (v :: rest) ∈ given →
          ∃ shown ∈ kept, sameStacks (.ok (v :: rest)) shown) ∧
        ∀ s, (Solutions.step s (reached Solutions.step moments once) = .waiting ↔
            Solutions.step s (reached Solutions.step moments live) = .waiting) ∧
          (Solutions.step s (reached Solutions.step moments once) = .ended ↔
            Solutions.step s (reached Solutions.step moments live) = .ended)) ∧
      Alike Solutions.step Solutions.step ((Operator.primitive p).onStream once) once) ∧
    ∀ seen stack, (Stack.orderedSet seen).contains stack = seen.any stack.same := by
  obtain ⟨p, hp, honStream⟩ := Standard.resolve?_unique
  refine ⟨⟨p, hp, fun live => ?_⟩, Stack.contains_orderedSet⟩
  simp only [honStream]
  refine ⟨fun moments => ?_, Solutions.unique_unique_alike [] live⟩
  have hnone : Solutions.Remembers [] [] := fun _ _ => rfl
  obtain ⟨hkept, seen, hreached, hseen⟩ := Solutions.brought_unique moments live hnone
  rw [hkept, hreached]
  refine ⟨rfl, pairwise_firstOccurrences [] _, fun v rest => exists_sameStacks_of_mem,
    fun s => ?_⟩
  have hshows := Solutions.step_unique_shows hseen s (reached Solutions.step moments live)
  exact ⟨hshows.waiting_iff, hshows.ended_iff⟩

end StackQuery
