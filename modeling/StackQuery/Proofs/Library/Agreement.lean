import StackQuery.Proofs.Library.Lookup

/-!
# How identifiers and keywords agree

Registering, merging and unregistering keep the local name of every loaded
identifier among the keywords.  They also keep every keyword leading to a
loaded identifier, as long as no identifier is taken away to which the keyword
of another local name leads.  The identifiers of one registration may have
different local names, and all their keywords lead to the first identifier; so
when that one goes, the other keywords lead nowhere.  Where the identifiers of
every registration share their local name, each keyword leads to an identifier
with that very local name, and the two maps always agree.
-/

namespace StackQuery

namespace Library

open Vocabulary (localName)

/--
The libraries that registering, merging and unregistering lead to, if only
admitted lists of identifiers are registered and only names that may go are
unregistered.  A change that is refused leads to nothing new.
-/
inductive Reachable (admits : List String → Prop) (mayGo : Library → String → Prop) :
    Library → Prop where
  | empty : Reachable admits mayGo .empty
  | registerUnder {l l' : Library} {identifiers : List String} {op : Operator} {policy : Policy}
      (h : Reachable admits mayGo l) (hadmitted : admits identifiers)
      (hok : l.registerUnder identifiers op policy = .ok l') : Reachable admits mayGo l'
  | merge {l l' other : Library} {policy : Policy} (h : Reachable admits mayGo l)
      (hother : Reachable admits mayGo other) (hok : l.merge other policy = .ok l') :
      Reachable admits mayGo l'
  | unregister {l l' : Library} {name : String} {op : Operator} (h : Reachable admits mayGo l)
      (hmayGo : mayGo l name) (hok : l.unregister name = some (op, l')) :
      Reachable admits mayGo l'

/-- The libraries that any registrations and removals lead to. -/
abbrev ReachableAtAll : Library → Prop := Reachable (fun _ => True) fun _ _ => True

/-- All identifiers have one local name. -/
def OneName (identifiers : List String) : Prop :=
  ∀ a ∈ identifiers, ∀ b ∈ identifiers, localName a = localName b

instance (identifiers : List String) : Decidable (OneName identifiers) :=
  inferInstanceAs (Decidable (∀ a ∈ identifiers, ∀ b ∈ identifiers, localName a = localName b))

/-- No keyword but its own leads to the identifier that a name leads to. -/
def OnlyOwnKeyword (l : Library) (name : String) : Prop :=
  ∀ identifier, l.leadsTo? name = some identifier →
    ∀ keyword : String, l.keywords[keyword]? = some identifier → localName identifier = keyword

/-! ## Three invariants -/

def KeywordsLoaded (l : Library) : Prop :=
  ∀ keyword identifier : String, l.keywords[keyword]? = some identifier →
    identifier ∈ l.operators

def LocalNamesKept (l : Library) : Prop :=
  ∀ identifier ∈ l.operators, localName identifier ∈ l.keywords

def KeywordsAtHome (l : Library) : Prop :=
  ∀ keyword identifier : String, l.keywords[keyword]? = some identifier →
    localName identifier = keyword

variable {l l' other : Library} {op : Operator} {policy : Policy}

section Register

variable {identifiers : List String} (hok : l.registerUnder identifiers op policy = .ok l')
include hok

theorem mem_operators_registerUnder (name : String) :
    name ∈ l'.operators ↔ name ∈ l.operators ∨ name ∈ identifiers := by
  obtain ⟨canonical, rest, _, rfl⟩ := registerUnder_eq_ok hok
  rw [Std.ExtTreeMap.mem_iff_isSome_getElem?, Std.ExtTreeMap.mem_iff_isSome_getElem?,
    operators_foldl_bind]
  by_cases hname : name ∈ identifiers
  · simp [hname]
  · simp [hname]

theorem keywords_registerUnder {keyword target : String}
    (h : l'.keywords[keyword]? = some target) :
    l.keywords[keyword]? = some target ∨
      target ∈ identifiers ∧ ∃ identifier ∈ identifiers, localName identifier = keyword := by
  obtain ⟨canonical, rest, rfl, rfl⟩ := registerUnder_eq_ok hok
  rcases keywords_foldl_bind h with hold | ⟨rfl, hnew⟩
  · exact .inl hold
  · exact .inr ⟨List.mem_cons_self, hnew⟩

theorem mem_keywords_registerUnder (keyword : String) :
    keyword ∈ l'.keywords ↔
      keyword ∈ l.keywords ∨ ∃ identifier ∈ identifiers, localName identifier = keyword := by
  obtain ⟨canonical, rest, _, rfl⟩ := registerUnder_eq_ok hok
  exact mem_keywords_foldl_bind identifiers _ keyword

theorem LocalNamesKept.registerUnder (h : l.LocalNamesKept) : l'.LocalNamesKept := by
  intro identifier hidentifier
  rw [mem_keywords_registerUnder hok]
  rcases (mem_operators_registerUnder hok identifier).mp hidentifier with hold | hnew
  · exact .inl (h identifier hold)
  · exact .inr ⟨identifier, hnew, rfl⟩

theorem KeywordsLoaded.registerUnder (h : l.KeywordsLoaded) : l'.KeywordsLoaded := by
  intro keyword target htarget
  rw [mem_operators_registerUnder hok]
  exact (keywords_registerUnder hok htarget).imp (h keyword target) And.left

theorem KeywordsAtHome.registerUnder (h : l.KeywordsAtHome) (hone : OneName identifiers) :
    l'.KeywordsAtHome := by
  intro keyword target htarget
  rcases keywords_registerUnder hok htarget with hold | ⟨hmem, identifier, hidentifier, hname⟩
  · exact h keyword target hold
  · exact (hone target hmem identifier hidentifier).trans hname

end Register

section Merge

variable (hok : l.merge other policy = .ok l')
include hok

theorem LocalNamesKept.merge (h : l.LocalNamesKept) (hother : other.LocalNamesKept) :
    l'.LocalNamesKept := by
  intro identifier hidentifier
  rw [mem_keywords_merge hok]
  exact ((mem_operators_merge hok identifier).mp hidentifier).imp (h identifier)
    (hother identifier)

theorem KeywordsLoaded.merge (h : l.KeywordsLoaded) (hother : other.KeywordsLoaded) :
    l'.KeywordsLoaded := by
  intro keyword target htarget
  rw [mem_operators_merge hok]
  exact (keywords_merge hok htarget).imp (h keyword target) (hother keyword target)

theorem KeywordsAtHome.merge (h : l.KeywordsAtHome) (hother : other.KeywordsAtHome) :
    l'.KeywordsAtHome := by
  intro keyword target htarget
  exact (keywords_merge hok htarget).elim (h keyword target) (hother keyword target)

end Merge

section Unregister

variable {name : String} (hok : l.unregister name = some (op, l'))
include hok

theorem unregister_eq_some :
    ∃ identifier, l.leadsTo? name = some identifier ∧
      l'.operators = l.operators.erase identifier ∧
      ∀ keyword, l'.keywords[keyword]? =
        if localName identifier = keyword ∧ l.keywords[keyword]? = some identifier then
          l'.lastNamed? keyword
        else l.keywords[keyword]? := by
  cases hleads : l.leadsTo? name with
  | none => simp [Library.unregister, hleads] at hok
  | some identifier =>
      have hremoved := Std.ExtTreeMap.getElem?_eq_some_getElem (mem_of_leadsTo? hleads)
      obtain ⟨rest, hrest, hoperators, hkeywords⟩ := unregister_eq hleads hremoved
      rw [hok] at hrest
      cases hrest
      exact ⟨identifier, rfl, hoperators, hkeywords⟩

theorem LocalNamesKept.unregister (h : l.LocalNamesKept) : l'.LocalNamesKept := by
  obtain ⟨gone, _, hoperators, hkeywords⟩ := unregister_eq_some hok
  intro identifier hidentifier
  rw [Std.ExtTreeMap.mem_iff_isSome_getElem?, hkeywords]
  split
  next =>
    rw [← Option.ne_none_iff_isSome, Ne, lastNamed?_eq_none_iff]
    exact fun hnone => hnone identifier hidentifier rfl
  next =>
    rw [hoperators, Std.ExtTreeMap.mem_erase] at hidentifier
    exact Std.ExtTreeMap.mem_iff_isSome_getElem?.mp (h identifier hidentifier.2)

theorem KeywordsLoaded.unregister (h : l.KeywordsLoaded) (honly : OnlyOwnKeyword l name) :
    l'.KeywordsLoaded := by
  obtain ⟨gone, hleads, hoperators, hkeywords⟩ := unregister_eq_some hok
  intro keyword target htarget
  rw [hkeywords] at htarget
  split at htarget
  next => exact (lastNamed?_eq_some htarget).1
  next hkept =>
    rw [hoperators, Std.ExtTreeMap.mem_erase]
    refine ⟨fun hsame => hkept ?_, h keyword target htarget⟩
    rw [← Std.compare_eq_iff_eq.mp hsame] at htarget
    exact ⟨honly gone hleads keyword htarget, htarget⟩

theorem KeywordsAtHome.unregister (h : l.KeywordsAtHome) : l'.KeywordsAtHome := by
  obtain ⟨gone, _, _, hkeywords⟩ := unregister_eq_some hok
  intro keyword target htarget
  rw [hkeywords] at htarget
  split at htarget
  next => exact (lastNamed?_eq_some htarget).2
  next => exact h keyword target htarget

end Unregister

/-! ## Along every way to a library -/

section Reachable

variable {admits : List String → Prop} {mayGo : Library → String → Prop}

theorem Reachable.localNamesKept (h : l.Reachable admits mayGo) : l.LocalNamesKept := by
  induction h with
  | empty => exact fun _ hnone => absurd hnone Std.ExtTreeMap.not_mem_empty
  | registerUnder _ _ hok ih => exact ih.registerUnder hok
  | merge _ _ hok ih ihother => exact ih.merge hok ihother
  | unregister _ _ hok ih => exact ih.unregister hok

theorem Reachable.keywordsLoaded (honly : ∀ l name, mayGo l name → OnlyOwnKeyword l name)
    (h : l.Reachable admits mayGo) : l.KeywordsLoaded := by
  induction h with
  | empty =>
      intro keyword identifier hnone
      simp [Library.empty] at hnone
  | registerUnder _ _ hok ih => exact ih.registerUnder hok
  | merge _ _ hok ih ihother => exact ih.merge hok ihother
  | unregister _ hmayGo hok ih => exact ih.unregister hok (honly _ _ hmayGo)

theorem Reachable.keywordsAtHome (h : l.Reachable OneName mayGo) : l.KeywordsAtHome := by
  induction h with
  | empty =>
      intro keyword identifier hnone
      simp [Library.empty] at hnone
  | registerUnder _ hadmitted hok ih => exact ih.registerUnder hok hadmitted
  | merge _ _ hok ih ihother => exact ih.merge hok ihother
  | unregister _ _ hok ih => exact ih.unregister hok

/-- Where keywords are at home, every removal touches the only keyword that it has to. -/
theorem Reachable.onlyOwn (h : l.Reachable OneName mayGo) :
    l.Reachable OneName OnlyOwnKeyword := by
  induction h with
  | empty => exact .empty
  | registerUnder _ hadmitted hok ih => exact .registerUnder ih hadmitted hok
  | merge _ _ hok ih ihother => exact .merge ih ihother hok
  | unregister hbefore _ hok ih =>
      exact .unregister ih (fun identifier _ keyword => hbefore.keywordsAtHome keyword identifier) hok

end Reachable

/-! ## Agreement -/

def LocalNamesResolve (l : Library) : Prop :=
  ∀ identifier ∈ l.operators, (l.resolve? (localName identifier)).isSome

/-- What the identifiers and the keywords of a library have to say about each other. -/
structure Agrees (l : Library) : Prop where
  keywordsLoaded : l.KeywordsLoaded
  localNamesResolve : l.LocalNamesResolve
  keywordsNamed : ∀ keyword ∈ l.keywords, keyword ∉ l.operators →
    ∃ identifier loaded, localName identifier = keyword ∧
      l.operators[identifier]? = some loaded ∧ l.resolve? keyword = some loaded.operator

/-- A keyword that leads to a loaded identifier resolves to its operator. -/
theorem KeywordsLoaded.resolve? (h : l.KeywordsLoaded) {keyword : String}
    (hkeyword : keyword ∈ l.keywords) (hfree : keyword ∉ l.operators) :
    ∃ identifier loaded, l.keywords[keyword]? = some identifier ∧
      l.operators[identifier]? = some loaded ∧ l.resolve? keyword = some loaded.operator := by
  have htarget := Std.ExtTreeMap.getElem?_eq_some_getElem hkeyword
  have hloaded := Std.ExtTreeMap.getElem?_eq_some_getElem (h keyword _ htarget)
  refine ⟨_, _, htarget, hloaded, ?_⟩
  rw [Library.resolve?, find?_of_keyword hfree, htarget, Option.bind_eq_bind, Option.bind_some,
    hloaded]
  rfl

theorem KeywordsLoaded.localNamesResolve (h : l.KeywordsLoaded) (hkept : l.LocalNamesKept) :
    l.LocalNamesResolve := by
  intro identifier hidentifier
  by_cases hloaded : localName identifier ∈ l.operators
  · have hfound := find?_of_loaded (Std.ExtTreeMap.getElem?_eq_some_getElem hloaded)
    simp [Library.resolve?, hfound]
  · obtain ⟨_, loaded, _, _, hresolve⟩ := h.resolve? (hkept identifier hidentifier) hloaded
    simp [hresolve]

/--
The two maps agree if the identifiers of each registration share their local
name.  If not, keywords still lead to loaded identifiers and local names still
resolve, as long as nothing is unregistered to which the keyword of another
local name leads.
-/
theorem maps_agree (l : Library) :
    (l.Reachable OneName (fun _ _ => True) → l.Agrees) ∧
      (l.Reachable (fun _ => True) OnlyOwnKeyword → l.KeywordsLoaded ∧ l.LocalNamesResolve) := by
  constructor
  · intro hreachable
    have hloaded : l.KeywordsLoaded := hreachable.onlyOwn.keywordsLoaded fun _ _ honly => honly
    refine ⟨hloaded, hloaded.localNamesResolve hreachable.localNamesKept, ?_⟩
    intro keyword hkeyword hfree
    obtain ⟨identifier, loaded, htarget, hfound, hresolve⟩ := hloaded.resolve? hkeyword hfree
    exact ⟨identifier, loaded, hreachable.keywordsAtHome keyword identifier htarget, hfound,
      hresolve⟩
  · intro hreachable
    have hloaded : l.KeywordsLoaded := hreachable.keywordsLoaded fun _ _ honly => honly
    exact ⟨hloaded, hloaded.localNamesResolve hreachable.localNamesKept⟩

/-! Two libraries that one registration and one removal lead to. -/

def nothing : Operator := .composed [] none

def sharedName : Library :=
  ⟨.ofList [("urn:a#x", Loaded.mk nothing 0), ("urn:b#x", Loaded.mk nothing 0)], .ofList [("x", "urn:a#x")], 1⟩

def distinctNames : Library :=
  ⟨.ofList [("urn:a#x", Loaded.mk nothing 0), ("urn:a#y", Loaded.mk nothing 0)],
    .ofList [("x", "urn:a#x"), ("y", "urn:a#x")], 1⟩

/-- The keyword of a shared name goes over to the identifier that is left. -/
theorem keyword_goes_over :
    ∃ left, sharedName.unregister "urn:a#x" = some (nothing, left) ∧
      left.leadsTo? "x" = some "urn:b#x" ∧ left.Agrees := by
  have hshared : empty.registerUnder ["urn:a#x", "urn:b#x"] nothing .reject = .ok sharedName := rfl
  have hreachable : sharedName.Reachable OneName fun _ _ => True :=
    .registerUnder .empty (by decide) hshared
  have hleft : sharedName.unregister "urn:a#x" = some (nothing,
      ⟨.ofList [("urn:b#x", Loaded.mk nothing 0)], .ofList [("x", "urn:b#x")], 1⟩) := rfl
  exact ⟨_, hleft, by decide, (maps_agree _).1 (.unregister hreachable trivial hleft)⟩

/--
With distinct names, the keyword of the other name goes on leading to the
identifier that is gone, although an identifier of that name is left.
-/
theorem keyword_left_behind :
    ∃ left, distinctNames.ReachableAtAll ∧
      distinctNames.unregister "urn:a#x" = some (nothing, left) ∧ left.ReachableAtAll ∧
      "urn:a#y" ∈ left.operators ∧ left.resolve? (localName "urn:a#y") = none ∧
      ¬ left.Agrees := by
  have hdistinct : empty.registerUnder ["urn:a#x", "urn:a#y"] nothing .reject =
      .ok distinctNames := rfl
  have hreachable : distinctNames.ReachableAtAll := .registerUnder .empty trivial hdistinct
  have hleft : distinctNames.unregister "urn:a#x" = some (nothing,
      ⟨.ofList [("urn:a#y", Loaded.mk nothing 0)], .ofList [("y", "urn:a#x")], 1⟩) := rfl
  refine ⟨_, hreachable, hleft, .unregister hreachable trivial hleft, by decide, rfl, ?_⟩
  intro hagrees
  have hloaded := hagrees.keywordsLoaded "y" "urn:a#x" (by decide)
  revert hloaded
  decide

end Library

end StackQuery
