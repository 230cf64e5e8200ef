import StackQuery.Proofs.Library.Lookup

/-!
# Additions are made as a whole or not at all

A registration binds an operator to a list of identifiers, and a merge binds all
that another library has.  Both first look for an identifier that may not be
bound, and only then bind one identifier after another.  That nothing is left
behind by an addition that is refused cannot be seen from its result alone: here
additions are also carried out in place, where whatever has been changed before
a failure would stay.  Done in either way they come to the same.
-/

namespace StackQuery

namespace Library

/-! ## Procedures -/

/-- Changes to a library in place, which stay if there is a failure after them. -/
abbrev Procedure := ExceptT DuplicateError (StateM Library)

namespace Procedure

variable {α β : Type} {l : Library}

/-- How a procedure ends, and the library that it leaves. -/
def on (p : Procedure α) (l : Library) : Except DuplicateError α × Library := p.run.run l

theorem on_bind (p : Procedure α) (f : α → Procedure β) :
    Procedure.on (p >>= f) l = match p.on l with
      | (.ok a, left) => (f a).on left
      | (.error error, left) => (.error error, left) := by
  simp only [on, ExceptT.run_bind, StateT.run_bind]
  rcases StateT.run (ExceptT.run p) l with ⟨_ | _, left⟩ <;> rfl

theorem on_get_bind (f : Library → Procedure β) : Procedure.on (get >>= f) l = (f l).on l := rfl

theorem on_ite (condition : Prop) [Decidable condition] (p q : Procedure α) :
    (if condition then p else q).on l = if condition then p.on l else q.on l := by
  split <;> rfl

/-- Makes one change after another. -/
def changeEach (change : Library → α → Library) (entries : List α) : Procedure Unit := do
  for entry in entries do
    modify fun l => change l entry

theorem on_changeEach (change : Library → α → Library) (entries : List α) (l : Library) :
    (changeEach change entries).on l = (.ok (), entries.foldl change l) := by
  induction entries generalizing l with
  | nil => rfl
  | cons entry rest ih =>
      rw [changeEach, List.forIn_cons]
      exact ih (change l entry)

/-- The outcome of an addition that leaves the library as it was if it is refused. -/
def wholeOrNothing (l : Library) :
    Except DuplicateError Library → Except DuplicateError Unit × Library
  | .ok left => (.ok (), left)
  | .error error => (.error error, l)

end Procedure

open Procedure (changeEach on_bind on_get_bind on_ite on_changeEach wholeOrNothing)

variable {l l' other : Library} {op : Operator} {policy : Policy} {identifiers : List String}

/-! ## Registering in place -/

/-- Fails at the first identifier that is loaded or has been seen before. -/
def refuseTaken (seen : List String) : List String → Procedure Unit
  | [] => pure ()
  | identifier :: rest => do
      let l ← get
      if l.operators.contains identifier then throw (.taken identifier)
      else if seen.contains identifier then throw (.repeated identifier)
      else refuseTaken (identifier :: seen) rest

def registerInPlace (identifiers : List String) (op : Operator) (policy : Policy) :
    Procedure Unit :=
  match identifiers with
  | [] => throw (.unnamed op.print)
  | canonical :: _ => do
      if policy = .reject then refuseTaken [] identifiers
      let l ← get
      set { l with registrations := l.registrations + 1 }
      changeEach (bind ⟨op, l.registrations⟩ canonical policy) identifiers

theorem on_refuseTaken (seen identifiers : List String) (l : Library) :
    (refuseTaken seen identifiers).on l =
      (match l.firstConflict? seen identifiers with
        | some conflict => .error conflict
        | none => .ok (), l) := by
  induction identifiers generalizing seen with
  | nil => rfl
  | cons identifier rest ih =>
      rw [refuseTaken, firstConflict?, on_get_bind, on_ite]
      split
      next => rfl
      next =>
        rw [on_ite]
        split
        next => rfl
        next => exact ih (identifier :: seen)

theorem on_registerInPlace (identifiers : List String) (op : Operator) (policy : Policy)
    (l : Library) :
    (registerInPlace identifiers op policy).on l =
      wholeOrNothing l (l.registerUnder identifiers op policy) := by
  cases identifiers with
  | nil => rfl
  | cons canonical rest =>
      have hbinds := on_changeEach (bind ⟨op, l.registrations⟩ canonical policy)
        (canonical :: rest) { l with registrations := l.registrations + 1 }
      rw [registerInPlace, registerUnder]
      split
      next =>
        rw [on_bind, on_refuseTaken]
        cases l.firstConflict? [] (canonical :: rest) with
        | some conflict => rfl
        | none => exact hbinds
      next => exact hbinds

/-! ## Merging in place -/

/-- Binds what another library has loaded; its registrations are counted on from one's own. -/
def bindLoaded (registrations : Nat) (l : Library) (entry : String × Loaded) : Library :=
  { l with
    operators := l.operators.insert entry.1
      ⟨entry.2.operator, registrations + entry.2.registration⟩ }

def bindKeyword (policy : Policy) (l : Library) (entry : String × String) : Library :=
  { l with
    keywords :=
      if policy = .allowOverride then l.keywords.insert entry.1 entry.2
      else l.keywords.insertIfNew entry.1 entry.2 }

def mergeInPlace (other : Library) (policy : Policy) : Procedure Unit := do
  let l ← get
  match if policy = .reject then other.operators.keys.find? l.operators.contains else none with
  | some identifier => throw (.taken identifier)
  | none => do
      changeEach (bindLoaded l.registrations) other.operators.toList
      changeEach (bindKeyword policy) other.keywords.toList
      modify fun l' => { l' with registrations := l'.registrations + other.registrations }

theorem foldl_bindLoaded (registrations : Nat) (entries : List (String × Loaded)) (l : Library) :
    entries.foldl (bindLoaded registrations) l =
      { l with
        operators := entries.foldl (fun operators (identifier, loaded) =>
          operators.insert identifier
            ⟨loaded.operator, registrations + loaded.registration⟩) l.operators } := by
  induction entries generalizing l with
  | nil => rfl
  | cons entry rest ih => exact ih (bindLoaded registrations l entry)

theorem foldl_bindKeyword (policy : Policy) (entries : List (String × String)) (l : Library) :
    entries.foldl (bindKeyword policy) l =
      { l with
        keywords := entries.foldl (fun keywords (keyword, identifier) =>
          if policy = .allowOverride then keywords.insert keyword identifier
          else keywords.insertIfNew keyword identifier) l.keywords } := by
  induction entries generalizing l with
  | nil => rfl
  | cons entry rest ih => exact ih (bindKeyword policy l entry)

theorem on_mergeInPlace (other : Library) (policy : Policy) (l : Library) :
    (mergeInPlace other policy).on l = wholeOrNothing l (l.merge other policy) := by
  rw [mergeInPlace, merge, on_get_bind]
  generalize (if policy = .reject then other.operators.keys.find? l.operators.contains
    else none) = taken?
  cases taken? with
  | some identifier => rfl
  | none =>
      simp only [on_bind, on_changeEach]
      rw [foldl_bindLoaded, foldl_bindKeyword]
      rfl

/-! ## When additions are made, and what they bind -/

theorem exists_registerUnder_iff :
    (∃ l', l.registerUnder identifiers op policy = .ok l') ↔
      identifiers ≠ [] ∧ (policy = .reject →
        identifiers.Nodup ∧ ∀ identifier ∈ identifiers, identifier ∉ l.operators) := by
  constructor
  · rintro ⟨l', hok⟩
    obtain ⟨canonical, rest, rfl, _⟩ := registerUnder_eq_ok hok
    refine ⟨List.cons_ne_nil canonical rest, ?_⟩
    rintro rfl
    exact new_of_registerUnder_reject hok
  · rintro ⟨hsome, hnew⟩
    obtain ⟨canonical, rest, rfl⟩ := List.exists_cons_of_ne_nil hsome
    have hnone : (if policy = .reject then l.firstConflict? [] (canonical :: rest) else none) =
        none := by
      split
      next hreject =>
        obtain ⟨hnodup, hfree⟩ := hnew hreject
        exact firstConflict?_eq_none hnodup fun identifier hmem =>
          ⟨hfree identifier hmem, List.not_mem_nil⟩
      next => rfl
    rw [registerUnder, hnone]
    exact ⟨_, rfl⟩

theorem exists_merge_iff :
    (∃ l', l.merge other policy = .ok l') ↔
      (policy = .reject → ∀ identifier ∈ other.operators, identifier ∉ l.operators) := by
  constructor
  · rintro ⟨l', hok⟩ rfl identifier hidentifier
    exact new_of_merge_reject hok hidentifier
  · intro hnew
    have hnone : (if policy = .reject then other.operators.keys.find? l.operators.contains
        else none) = none := by
      split
      next hreject =>
        refine List.find?_eq_none.mpr fun identifier hmem => ?_
        have hfree := hnew hreject identifier (Std.ExtTreeMap.mem_keys.mp hmem)
        exact mt Std.ExtTreeMap.contains_iff_mem.mp hfree
      next => rfl
    rw [merge, hnone]
    exact ⟨_, rfl⟩

/-- What may be added to a library. -/
inductive Addition where
  | operator (identifiers : List String) (op : Operator)
  | library (other : Library)

namespace Addition

def result (l : Library) (policy : Policy) : Addition → Except DuplicateError Library
  | .operator identifiers op => l.registerUnder identifiers op policy
  | .library other => l.merge other policy

def inPlace (policy : Policy) : Addition → Procedure Unit
  | .operator identifiers op => registerInPlace identifiers op policy
  | .library other => mergeInPlace other policy

/-- The operator that is to be bound to an identifier. -/
def operator? : Addition → String → Option Operator
  | .operator identifiers op, name => if name ∈ identifiers then some op else none
  | .library other, name => other.operators[name]?.map (·.operator)

/-- Nothing is in the way of an addition. -/
def Admissible (l : Library) (policy : Policy) : Addition → Prop
  | .operator identifiers _ => identifiers ≠ [] ∧ (policy = .reject →
      identifiers.Nodup ∧ ∀ identifier ∈ identifiers, identifier ∉ l.operators)
  | .library other => policy = .reject → ∀ identifier ∈ other.operators, identifier ∉ l.operators

variable {addition : Addition} {name : String}

theorem on_inPlace (addition : Addition) (policy : Policy) (l : Library) :
    (addition.inPlace policy).on l = wholeOrNothing l (addition.result l policy) := by
  cases addition with
  | operator identifiers op => exact on_registerInPlace identifiers op policy l
  | library other => exact on_mergeInPlace other policy l

theorem bound_of_result (h : addition.result l policy = .ok l')
    (hadded : addition.operator? name = some op) :
    l'.operators[name]?.map (·.operator) = some op := by
  cases addition with
  | operator identifiers added =>
      obtain ⟨canonical, rest, _, rfl⟩ := registerUnder_eq_ok h
      obtain ⟨hname, hop⟩ := Option.ite_none_right_eq_some.mp hadded
      rw [operators_foldl_bind, if_pos hname]
      exact hop
  | library other =>
      obtain ⟨loaded, hloaded, rfl⟩ := Option.map_eq_some_iff.mp hadded
      rw [operators_merge h, hloaded]
      rfl

theorem kept_of_result (h : addition.result l policy = .ok l')
    (hadded : addition.operator? name = none) : l'.operators[name]? = l.operators[name]? := by
  cases addition with
  | operator identifiers added =>
      obtain ⟨canonical, rest, _, rfl⟩ := registerUnder_eq_ok h
      have hname : name ∉ identifiers := by simpa [operator?] using hadded
      rw [operators_foldl_bind, if_neg hname]
  | library other =>
      rw [operators_merge h, Option.map_eq_none_iff.mp hadded]
      rfl

theorem keyword_of_result (h : addition.result l .reject = .ok l') {keyword target : String}
    (htarget : l.keywords[keyword]? = some target) : l'.keywords[keyword]? = some target := by
  cases addition with
  | operator identifiers added =>
      obtain ⟨canonical, rest, _, rfl⟩ := registerUnder_eq_ok h
      exact keywords_foldl_bind_reject htarget
  | library other => exact keywords_merge_reject h htarget

end Addition

/--
An addition is made exactly if nothing is in its way.  If it is refused, the
library is left as it was, although it is changed in place.  If it is made, the
identifiers that it lists are bound to their operators, every other identifier
keeps what is loaded under it, and without overriding every keyword goes on
leading to the same identifier.
-/
theorem additions_whole_or_not_at_all (l : Library) (addition : Addition) (policy : Policy) :
    ((∃ l', addition.result l policy = .ok l') ↔ addition.Admissible l policy) ∧
    (∀ error, addition.result l policy = .error error →
      (addition.inPlace policy).on l = (.error error, l)) ∧
    ∀ l', addition.result l policy = .ok l' →
      (addition.inPlace policy).on l = (.ok (), l') ∧
      (∀ (name : String) (op : Operator), addition.operator? name = some op →
        l'.operators[name]?.map (·.operator) = some op) ∧
      (∀ name : String, addition.operator? name = none →
        l'.operators[name]? = l.operators[name]?) ∧
      (policy = .reject → ∀ keyword target : String, l.keywords[keyword]? = some target →
        l'.keywords[keyword]? = some target) := by
  have hinPlace := Addition.on_inPlace addition policy l
  refine ⟨?_, fun error herror => ?_, fun l' hok => ⟨?_, fun name op => ?_, fun name => ?_, ?_⟩⟩
  · cases addition with
    | operator identifiers op => exact exists_registerUnder_iff
    | library other => exact exists_merge_iff
  · rw [hinPlace, herror]
    rfl
  · rw [hinPlace, hok]
    rfl
  · exact Addition.bound_of_result hok
  · exact Addition.kept_of_result hok
  · rintro rfl keyword target htarget
    exact Addition.keyword_of_result hok htarget

end Library

end StackQuery
