import Mathlib.Data.List.TakeWhile
import StackQuery.Proofs.Library.Agreement
import StackQuery.Proofs.Library.Names

/-!
# What an addition leaves of a library

A registration or a merge that may not override adds identifiers that are all
new, and keywords keep the identifiers that they lead to.  So whatever a name
was bound to is still loaded, and only one thing can take a name away from it:
names are looked up as identifiers first, and an identifier that is added may
be the name itself.  Keywords have no separator in them, so this can only happen
to a plain name, and only where that very name is added as an identifier.
-/

namespace StackQuery

open Vocabulary (localName Plain)

/-! ## Keywords are plain -/

theorem Vocabulary.plain_localName (identifier : String) : Plain (localName identifier) := by
  intro c hc
  rw [localName, String.toList_ofList, List.mem_reverse] at hc
  simpa using List.mem_takeWhile_imp hc

namespace Library

def KeywordsPlain (l : Library) : Prop := ∀ keyword ∈ l.keywords, Plain keyword

section Plain

variable {l l' other : Library} {identifiers : List String} {name : String} {op : Operator}
  {policy : Policy}

theorem KeywordsPlain.registerUnder (h : l.KeywordsPlain)
    (hok : l.registerUnder identifiers op policy = .ok l') : l'.KeywordsPlain := by
  intro keyword hkeyword
  rcases (mem_keywords_registerUnder hok keyword).mp hkeyword with hold | ⟨identifier, _, rfl⟩
  · exact h keyword hold
  · exact Vocabulary.plain_localName identifier

theorem KeywordsPlain.merge (h : l.KeywordsPlain) (hother : other.KeywordsPlain)
    (hok : l.merge other policy = .ok l') : l'.KeywordsPlain := by
  intro keyword hkeyword
  exact ((mem_keywords_merge hok keyword).mp hkeyword).elim (h keyword) (hother keyword)

theorem KeywordsPlain.unregister (h : l.KeywordsPlain)
    (hok : l.unregister name = some (op, l')) : l'.KeywordsPlain := by
  obtain ⟨gone, _, _, hkeywords⟩ := unregister_eq_some hok
  intro keyword hkeyword
  rw [Std.ExtTreeMap.mem_iff_isSome_getElem?, hkeywords] at hkeyword
  split at hkeyword
  next hown =>
    rw [← hown.1]
    exact Vocabulary.plain_localName gone
  next => exact h keyword (Std.ExtTreeMap.mem_iff_isSome_getElem?.mpr hkeyword)

theorem Reachable.keywordsPlain {admits : List String → Prop} {mayGo : Library → String → Prop}
    (h : l.Reachable admits mayGo) : l.KeywordsPlain := by
  induction h with
  | empty => exact fun _ hnone => absurd hnone Std.ExtTreeMap.not_mem_empty
  | registerUnder _ _ hok ih => exact ih.registerUnder hok
  | merge _ _ hok ih ihother => exact ih.merge ihother hok
  | unregister _ _ hok ih => exact ih.unregister hok

end Plain

/-! ## Additions -/

/-- The ways to add to a library without overriding, with what each of them loads. -/
inductive Adds (l : Library) : (String → Option Loaded) → Library → Prop where
  | registers {identifiers : List String} {op : Operator} {l' : Library}
      (hok : l.registerUnder identifiers op .reject = .ok l') :
      Adds l (fun name => if name ∈ identifiers then some ⟨op, l.registrations⟩ else none) l'
  | merges {other l' : Library} (hok : l.merge other .reject = .ok l') :
      Adds l (fun name => other.operators[name]?.map fun loaded =>
        ⟨loaded.operator, l.registrations + loaded.registration⟩) l'

variable {l l' : Library} {added : String → Option Loaded} {name : String} {loaded : Loaded}

theorem Adds.operators (h : l.Adds added l') (name : String) :
    l'.operators[name]? = (added name).or l.operators[name]? := by
  cases h with
  | merges hok => exact operators_merge hok name
  | registers hok =>
      obtain ⟨canonical, rest, _, rfl⟩ := registerUnder_eq_ok hok
      simp only [operators_foldl_bind]
      split
      next => rw [Option.some_or]
      next => rw [Option.none_or]

theorem Adds.new (h : l.Adds added l') {new : Loaded} (hadded : added name = some new) :
    name ∉ l.operators := by
  cases h with
  | registers hok =>
      simp only [Option.ite_none_right_eq_some] at hadded
      exact (new_of_registerUnder_reject hok).2 name hadded.1
  | merges hok =>
      obtain ⟨loaded, hloaded, _⟩ := Option.map_eq_some_iff.mp hadded
      refine new_of_merge_reject hok ?_
      rw [Std.ExtTreeMap.mem_iff_isSome_getElem?, hloaded]
      rfl

theorem Adds.keywords (h : l.Adds added l') {keyword target : String}
    (htarget : l.keywords[keyword]? = some target) : l'.keywords[keyword]? = some target := by
  cases h with
  | merges hok => exact keywords_merge_reject hok htarget
  | registers hok =>
      obtain ⟨canonical, rest, _, rfl⟩ := registerUnder_eq_ok hok
      exact keywords_foldl_bind_reject htarget

/-- What is loaded under an identifier is still loaded there. -/
theorem Adds.keepsLoaded (h : l.Adds added l') (hloaded : l.operators[name]? = some loaded) :
    l'.operators[name]? = some loaded := by
  rw [h.operators]
  cases hadded : added name with
  | none => exact hloaded
  | some new =>
      have hnew := h.new hadded
      rw [Std.ExtTreeMap.mem_iff_isSome_getElem?, hloaded] at hnew
      exact absurd rfl hnew

theorem find?_eq_some (h : l.find? name = some loaded) :
    l.operators[name]? = some loaded ∨
      name ∉ l.operators ∧ ∃ target, l.keywords[name]? = some target ∧
        l.operators[target]? = some loaded := by
  cases hname : l.operators[name]? with
  | some found =>
      rw [find?_of_loaded hname] at h
      exact .inl h
  | none =>
      have hfree : name ∉ l.operators := by
        rw [Std.ExtTreeMap.mem_iff_isSome_getElem?, hname]
        simp
      rw [find?_of_keyword hfree] at h
      obtain ⟨target, htarget, hloaded⟩ := Option.bind_eq_some_iff.mp h
      exact .inr ⟨hfree, target, htarget, hloaded⟩

/--
After an addition that may not override, a name leads to the very operator that
it led to before, unless the name itself has been added as an identifier.  Only
a plain name that was a keyword can be added so, and it then leads to what has
been added.
-/
theorem additions_keep_names (hreachable : l.ReachableAtAll) (h : l.Adds added l')
    (hfound : l.find? name = some loaded) :
    (added name = none → l'.find? name = some loaded) ∧
      ∀ new, added name = some new →
        Plain name ∧ name ∉ l.operators ∧ l'.find? name = some new := by
  constructor
  · intro hnone
    rcases find?_eq_some hfound with hloaded | ⟨hfree, target, htarget, hloaded⟩
    · exact find?_of_loaded (h.keepsLoaded hloaded)
    · have hname : l'.operators[name]? = none := by
        rw [h.operators, hnone, Option.none_or, Std.ExtTreeMap.getElem?_eq_none hfree]
      simp only [find?, hname, h.keywords htarget]
      exact h.keepsLoaded hloaded
  · intro new hadded
    have hnew := h.new hadded
    have hloaded : l'.operators[name]? = some new := by rw [h.operators, hadded, Option.some_or]
    refine ⟨?_, hnew, find?_of_loaded hloaded⟩
    rcases find?_eq_some hfound with hold | ⟨_, target, htarget, _⟩
    · rw [Std.ExtTreeMap.mem_iff_isSome_getElem?, hold] at hnew
      exact absurd rfl hnew
    · refine hreachable.keywordsPlain name ?_
      rw [Std.ExtTreeMap.mem_iff_isSome_getElem?, htarget]
      rfl

def two : Operator := .constant (.integer 2)

/-- Of two keywords, the one that is added as an identifier is taken and the other is kept. -/
theorem keyword_kept_beside_taken :
    ∃ added l', distinctNames.ReachableAtAll ∧ distinctNames.Adds added l' ∧
      distinctNames.find? "x" = some ⟨nothing, 0⟩ ∧ l'.find? "x" = some ⟨nothing, 0⟩ ∧
      distinctNames.find? "y" = some ⟨nothing, 0⟩ ∧ l'.find? "y" = some ⟨two, 1⟩ := by
  have hdistinct : empty.registerUnder ["urn:a#x", "urn:a#y"] nothing .reject =
      .ok distinctNames := rfl
  have hreachable : distinctNames.ReachableAtAll := .registerUnder .empty trivial hdistinct
  have hadded : distinctNames.registerUnder ["urn:b#x", "y"] two .reject = .ok
      ⟨.ofList [("urn:a#x", Loaded.mk nothing 0), ("urn:a#y", Loaded.mk nothing 0),
        ("urn:b#x", Loaded.mk two 1), ("y", Loaded.mk two 1)],
        .ofList [("x", "urn:a#x"), ("y", "urn:a#x")], 2⟩ := rfl
  have hx : distinctNames.find? "x" = some ⟨nothing, 0⟩ := rfl
  have hy : distinctNames.find? "y" = some ⟨nothing, 0⟩ := rfl
  have hkept := (additions_keep_names hreachable (.registers hadded) hx).1 rfl
  have htaken := (additions_keep_names hreachable (.registers hadded) hy).2 ⟨two, 1⟩ rfl
  exact ⟨_, _, hreachable, .registers hadded, hx, hkept, hy, htaken.2.2⟩

def oneName : Library :=
  ⟨.ofList [("urn:a#x", Loaded.mk nothing 0)], .ofList [("x", "urn:a#x")], 1⟩

/--
An identifier without a namespace takes a keyword from the operator that had it,
although the registration may not override; the list of keywords does not show it.
-/
theorem keyword_taken_by_identifier :
    ∃ l', oneName.ReachableAtAll ∧ oneName.registerUnder ["x"] two .reject = .ok l' ∧
      oneName.resolve? "x" = some nothing ∧ l'.resolve? "x" = some two ∧ nothing ≠ two ∧
      l'.keywordList = [("x", nothing)] := by
  have hone : empty.registerUnder ["urn:a#x"] nothing .reject = .ok oneName := rfl
  have htaken : oneName.registerUnder ["x"] two .reject = .ok
      ⟨.ofList [("urn:a#x", Loaded.mk nothing 0), ("x", Loaded.mk two 1)],
        .ofList [("x", "urn:a#x")], 2⟩ := rfl
  exact ⟨_, .registerUnder .empty trivial hone, htaken, rfl, rfl, nofun, rfl⟩

end Library

end StackQuery
