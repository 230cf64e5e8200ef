import StackQuery.Proofs.Library.Agreement
import StackQuery.Proofs.Session.Layers

/-!
# What a definition uncovers when it goes

A definition of a plain name binds an identifier of its own and the keyword.
Taking it away does not bring back what the keyword led to before: the keyword
falls back to the greatest identifier of its name, whichever of them it led to.
Every other name is looked up as if nothing had been defined.

A library that only registrations and merges have led to keeps the local name of
every identifier as a keyword and has no other keywords.  So a name that was
bound before is bound again, though perhaps to another operator of that name.
-/

namespace StackQuery

open Vocabulary (localName Plain userIdentifier isUser)

namespace Library

variable {l l' : Library} {keyword : String}

/-- The libraries that registrations and merges lead to, where nothing is unregistered. -/
abbrev Assembled : Library → Prop := Reachable (fun _ => True) fun _ _ => False

/-- Every keyword is the local name of some loaded identifier. -/
def KeywordsNamed (l : Library) : Prop :=
  ∀ keyword ∈ l.keywords, ∃ identifier ∈ l.operators, localName identifier = keyword

theorem Assembled.keywordsLoaded (h : l.Assembled) : l.KeywordsLoaded :=
  Reachable.keywordsLoaded (fun _ _ hnever => hnever.elim) h

theorem Assembled.keywordsNamed (h : l.Assembled) : l.KeywordsNamed := by
  induction h with
  | empty => exact fun _ hnone => absurd hnone Std.ExtTreeMap.not_mem_empty
  | unregister _ hmayGo => exact hmayGo.elim
  | registerUnder _ _ hok ih =>
      intro keyword hkeyword
      rcases (mem_keywords_registerUnder hok keyword).mp hkeyword with
        hold | ⟨identifier, hnew, hname⟩
      · obtain ⟨identifier, hloaded, hname⟩ := ih keyword hold
        exact ⟨identifier, (mem_operators_registerUnder hok _).mpr (.inl hloaded), hname⟩
      · exact ⟨identifier, (mem_operators_registerUnder hok _).mpr (.inr hnew), hname⟩
  | merge _ _ hok ih ihother =>
      intro keyword hkeyword
      rcases (mem_keywords_merge hok keyword).mp hkeyword with hown | hother
      · obtain ⟨identifier, hloaded, hname⟩ := ih keyword hown
        exact ⟨identifier, (mem_operators_merge hok _).mpr (.inl hloaded), hname⟩
      · obtain ⟨identifier, hloaded, hname⟩ := ihother keyword hother
        exact ⟨identifier, (mem_operators_merge hok _).mpr (.inr hloaded), hname⟩

/-- What a keyword falls back to. -/
def fallback? (l : Library) (keyword : String) : Option Loaded :=
  l.lastNamed? keyword >>= fun last => l.operators[last]?

theorem isSome_fallback? : (l.fallback? keyword).isSome = (l.lastNamed? keyword).isSome := by
  cases hlast : l.lastNamed? keyword with
  | none => rw [fallback?, hlast]; rfl
  | some last =>
      have hloaded := (lastNamed?_eq_some hlast).1
      rw [fallback?, hlast, Option.bind_eq_bind, Option.bind_some]
      rw [Std.ExtTreeMap.mem_iff_isSome_getElem?] at hloaded
      rw [hloaded]
      rfl

theorem Assembled.isSome_lastNamed? (h : l.Assembled) (keyword : String) :
    (l.lastNamed? keyword).isSome = true ↔ keyword ∈ l.keywords := by
  rw [← Option.ne_none_iff_isSome, Ne, lastNamed?_eq_none_iff]
  constructor
  · intro hnamed
    by_contra hnone
    refine hnamed fun identifier hloaded hname => hnone ?_
    rw [← hname]
    exact h.localNamesKept identifier hloaded
  · intro hkeyword hnone
    obtain ⟨identifier, hloaded, hname⟩ := h.keywordsNamed keyword hkeyword
    exact hnone identifier hloaded hname

/-- A keyword is bound just when it has something to fall back to. -/
theorem Assembled.isSome_find? (h : l.Assembled) (hfree : keyword ∉ l.operators) :
    (l.find? keyword).isSome = (l.fallback? keyword).isSome := by
  rw [isSome_fallback?, Bool.eq_iff_iff, h.isSome_lastNamed?, find?_of_keyword hfree,
    Std.ExtTreeMap.mem_iff_isSome_getElem?]
  cases htarget : l.keywords[keyword]? with
  | none => simp
  | some target =>
      have hloaded := h.keywordsLoaded keyword target htarget
      rw [Std.ExtTreeMap.mem_iff_isSome_getElem?] at hloaded
      simp [hloaded]

end Library

namespace Session

variable {s defined left : Session} {name : String} {op : Operator}

/-! ## Defining and undefining a plain name -/

theorem ne_userIdentifier (hplain : Plain name) (other : String) :
    userIdentifier other ≠ name := by
  rintro rfl
  exact Vocabulary.isNamespace_user.not_plain other hplain

theorem define_plain (s : Session) (hplain : Plain name) (op : Operator) :
    ∃ defined, s.define name op = .ok (defined, userIdentifier name) ∧
      (∀ identifier, defined.library.operators[identifier]? =
        if userIdentifier name = identifier then some ⟨op, s.library.registrations⟩
        else s.library.operators[identifier]?) ∧
      ∀ keyword, defined.library.keywords[keyword]? =
        if name = keyword then some (userIdentifier name) else s.library.keywords[keyword]? := by
  refine ⟨_, rfl, fun identifier => Library.operators_bind _ _ _ _ _ identifier, fun keyword => ?_⟩
  refine (Library.keywords_bind _ _ _ _ _ keyword).trans ?_
  simp [Vocabulary.localName_userIdentifier hplain]

theorem mem_operators_define (hplain : Plain name)
    (hdefine : s.define name op = .ok (defined, userIdentifier name)) :
    name ∈ defined.library.operators ↔ name ∈ s.library.operators := by
  obtain ⟨_, hdefine', hoperators, _⟩ := s.define_plain hplain op
  cases hdefine'.symm.trans hdefine
  rw [Std.ExtTreeMap.mem_iff_isSome_getElem?, Std.ExtTreeMap.mem_iff_isSome_getElem?, hoperators,
    if_neg (ne_userIdentifier hplain name)]

theorem undefine_plain (hplain : Plain name)
    (hleads : s.library.leadsTo? name = some (userIdentifier name)) :
    ∃ left, s.undefine name = .ok (left, userIdentifier name) ∧
      left.library.operators = s.library.operators.erase (userIdentifier name) ∧
      ∀ keyword, left.library.keywords[keyword]? =
        if name = keyword ∧ s.library.keywords[keyword]? = some (userIdentifier name) then
          left.library.lastNamed? keyword
        else s.library.keywords[keyword]? := by
  have hmem := Library.mem_of_leadsTo? hleads
  obtain ⟨l, hunregister, hoperators, hkeywords⟩ := Library.unregister_eq
    (Library.leadsTo?_of_loaded hmem) (Std.ExtTreeMap.getElem?_eq_some_getElem hmem)
  rw [Vocabulary.localName_userIdentifier hplain] at hkeywords
  refine ⟨{ s with library := l }, ?_, hoperators, hkeywords⟩
  simp only [undefine, hleads, Vocabulary.isUser_userIdentifier, if_true, hunregister]

/-! ## One after the other -/

/--
A plain name is defined and then taken away again: the operators are those that
were loaded before, and only the keyword of the name has been set anew.
-/
theorem undefine_define (hplain : Plain name)
    (hnew : userIdentifier name ∉ s.library.operators) (hfree : name ∉ s.library.operators)
    (hdefine : s.define name op = .ok (defined, userIdentifier name)) :
    ∃ left, defined.undefine name = .ok (left, userIdentifier name) ∧
      left.library.operators = s.library.operators ∧
      ∀ keyword, left.library.keywords[keyword]? =
        if name = keyword then s.library.lastNamed? keyword
        else s.library.keywords[keyword]? := by
  have hname := mem_operators_define hplain hdefine
  obtain ⟨_, hdefine', hoperators, hkeywords⟩ := s.define_plain hplain op
  cases hdefine'.symm.trans hdefine
  have hleads : defined.library.leadsTo? name = some (userIdentifier name) := by
    have hloaded : userIdentifier name ∈ defined.library.operators := by
      rw [Std.ExtTreeMap.mem_iff_isSome_getElem?, hoperators, if_pos rfl]
      rfl
    rw [Library.leadsTo?_of_keyword (mt hname.mp hfree), hkeywords, if_pos rfl, Option.filter_some,
      if_pos (Std.ExtTreeMap.contains_iff_mem.mpr hloaded)]
  obtain ⟨left, hundefine, herase, hleft⟩ := undefine_plain hplain hleads
  have hsame : left.library.operators = s.library.operators := by
    refine Std.ExtTreeMap.ext_getElem? fun identifier => ?_
    rw [herase, Std.ExtTreeMap.getElem?_erase, hoperators]
    by_cases hidentifier : userIdentifier name = identifier
    · subst hidentifier
      rw [if_pos (Std.compare_self), Std.ExtTreeMap.getElem?_eq_none hnew]
    · rw [if_neg (mt Std.compare_eq_iff_eq.mp hidentifier), if_neg hidentifier]
  refine ⟨left, hundefine, hsame, fun keyword => ?_⟩
  rw [hleft, hkeywords]
  by_cases hname : name = keyword
  · have hlast : left.library.lastNamed? keyword = s.library.lastNamed? keyword :=
      Library.lastNamed?_congr fun identifier _ => by rw [hsame]
    simp only [if_pos hname, and_true, hlast]
  · simp only [hname, false_and, if_false]

/-- A definition of a name that is an identifier itself is not seen under that name. -/
theorem define_identifier (hassembled : s.library.Assembled) (hplain : Plain name)
    (hnew : userIdentifier name ∉ s.library.operators) (hloaded : name ∈ s.library.operators)
    (hdefine : s.define name op = .ok (defined, userIdentifier name)) :
    defined.undefine name = .error (.unsupported (.builtIn name)) ∧
      ∀ other, other ≠ userIdentifier name →
        defined.library.find? other = s.library.find? other := by
  have hname := mem_operators_define hplain hdefine
  obtain ⟨_, hdefine', hoperators, hkeywords⟩ := s.define_plain hplain op
  cases hdefine'.symm.trans hdefine
  constructor
  · have hstays := hname.mpr hloaded
    have hbuiltIn : isUser name = false := by
      rw [Bool.eq_false_iff, Ne, Vocabulary.isUser_iff]
      rintro ⟨other, hname⟩
      exact ne_userIdentifier hplain other hname.symm
    simp only [undefine, Library.leadsTo?_of_loaded hstays, hbuiltIn, Bool.false_eq_true, if_false]
  · intro other hother
    have hsame : defined.library.operators[other]? = s.library.operators[other]? := by
      rw [hoperators, if_neg (Ne.symm hother)]
    by_cases hname : name = other
    · subst hname
      have hfound := Std.ExtTreeMap.getElem?_eq_some_getElem hloaded
      rw [Library.find?_of_loaded hfound, Library.find?_of_loaded (hsame.trans hfound)]
    · simp only [Library.find?, hsame, hkeywords, if_neg hname]
      cases htarget : s.library.keywords[other]? with
      | none => rfl
      | some target =>
          -- No keyword leads to the new identifier, since every keyword leads to a loaded one.
          have hne : userIdentifier name ≠ target := by
            rintro rfl
            exact hnew (hassembled.keywordsLoaded other _ htarget)
          rw [Option.bind_eq_bind, Option.bind_some, hoperators, if_neg hne]
          rfl

/--
Once a plain name is defined and taken away again, every other name leads to the
very operator that it led to before, and the name itself to that of the greatest
identifier with this local name, if there is one: it is bound just when it was
before.  Only a name that is loaded as an identifier cannot be taken away; its
definition changes nothing but what the identifier of the definition leads to.
-/
theorem undefine_uncovers_greatest (hassembled : s.library.Assembled) (hplain : Plain name)
    (hnew : userIdentifier name ∉ s.library.operators) (op : Operator) :
    ∃ defined, s.define name op = .ok (defined, userIdentifier name) ∧
      (name ∉ s.library.operators →
        ∃ left, defined.undefine name = .ok (left, userIdentifier name) ∧
          (∀ other, other ≠ name → left.library.find? other = s.library.find? other) ∧
          left.library.find? name = s.library.fallback? name ∧
          (left.library.find? name).isSome = (s.library.find? name).isSome) ∧
      (name ∈ s.library.operators →
        defined.undefine name = .error (.unsupported (.builtIn name)) ∧
          ∀ other, other ≠ userIdentifier name →
            defined.library.find? other = s.library.find? other) := by
  obtain ⟨defined, hdefine, _⟩ := s.define_plain hplain op
  refine ⟨defined, hdefine, fun hfree => ?_, fun hloaded =>
    define_identifier hassembled hplain hnew hloaded hdefine⟩
  obtain ⟨left, hundefine, hoperators, hkeywords⟩ := undefine_define hplain hnew hfree hdefine
  have hname : left.library.find? name = s.library.fallback? name := by
    have hgone : name ∉ left.library.operators := by rwa [hoperators]
    rw [Library.find?_of_keyword hgone, hkeywords, if_pos rfl, hoperators, Library.fallback?]
  refine ⟨left, hundefine, fun other hother => ?_, hname, ?_⟩
  · simp only [Library.find?, hoperators, hkeywords, if_neg (Ne.symm hother)]
  · rw [hname, hassembled.isSome_find? hfree]

/-- Two words of one local name, loaded one after the other, and one that is its own identifier. -/
def threeWords : Library :=
  ⟨.ofList [("urn:a#x", Loaded.mk (.constant (.integer 1)) 0),
      ("urn:b#x", Loaded.mk (.constant (.integer 2)) 1),
      ("y", Loaded.mk (.constant (.integer 3)) 2)],
    .ofList [("x", "urn:a#x"), ("y", "y")], 3⟩

theorem threeWords_assembled : threeWords.Assembled := by
  have hfirst : Library.empty.registerUnder ["urn:a#x"] (.constant (.integer 1)) .reject = .ok
      ⟨.ofList [("urn:a#x", Loaded.mk (.constant (.integer 1)) 0)], .ofList [("x", "urn:a#x")],
        1⟩ := rfl
  have hsecond : Library.registerUnder
      ⟨.ofList [("urn:a#x", Loaded.mk (.constant (.integer 1)) 0)], .ofList [("x", "urn:a#x")], 1⟩
      ["urn:b#x"] (.constant (.integer 2)) .reject = .ok
      ⟨.ofList [("urn:a#x", Loaded.mk (.constant (.integer 1)) 0),
        ("urn:b#x", Loaded.mk (.constant (.integer 2)) 1)], .ofList [("x", "urn:a#x")], 2⟩ := rfl
  have hthird : Library.registerUnder
      ⟨.ofList [("urn:a#x", Loaded.mk (.constant (.integer 1)) 0),
        ("urn:b#x", Loaded.mk (.constant (.integer 2)) 1)], .ofList [("x", "urn:a#x")], 2⟩
      ["y"] (.constant (.integer 3)) .reject = .ok threeWords := rfl
  exact .registerUnder (.registerUnder (.registerUnder .empty trivial hfirst) trivial hsecond)
    trivial hthird

/-- The keyword that two words share, and the one that is an identifier, defined and undefined. -/
theorem x_uncovered_and_y_kept :
    let s : Session := ⟨threeWords, {}⟩
    (∃ defined left, s.define "x" (.constant (.integer 7)) = .ok (defined, userIdentifier "x") ∧
      defined.undefine "x" = .ok (left, userIdentifier "x") ∧
      left.library.find? "x" = some ⟨.constant (.integer 2), 1⟩ ∧
      left.library.find? "y" = some ⟨.constant (.integer 3), 2⟩) ∧
    ∃ defined, s.define "y" (.constant (.integer 7)) = .ok (defined, userIdentifier "y") ∧
      defined.undefine "y" = .error (.unsupported (.builtIn "y")) ∧
      defined.library.find? "y" = some ⟨.constant (.integer 3), 2⟩ := by
  intro s
  have hassembled : s.library.Assembled := threeWords_assembled
  obtain ⟨defined, hdefine, hundefine, _⟩ := @undefine_uncovers_greatest s "x" hassembled
    (by decide) (by decide) (.constant (.integer 7))
  obtain ⟨left, hleft, hothers, hname, _⟩ := hundefine (by decide)
  obtain ⟨hidden, hhidden, _, hkept⟩ := @undefine_uncovers_greatest s "y" hassembled
    (by decide) (by decide) (.constant (.integer 7))
  obtain ⟨hrefused, hsame⟩ := hkept (by decide)
  refine ⟨⟨defined, left, hdefine, hleft, hname.trans rfl, (hothers "y" (by decide)).trans rfl⟩,
    hidden, hhidden, hrefused, (hsame "y" (by decide)).trans rfl⟩

/--
A keyword that led to the first of two words leads to the second once a
definition has come and gone.  A definition of a name that is an identifier
cannot be taken away by that name at all.
-/
theorem other_word_uncovered :
    let s : Session := ⟨threeWords, {}⟩
    s.library.Assembled ∧ Plain "x" ∧ userIdentifier "x" ∉ s.library.operators ∧
      (∃ defined left, s.define "x" (.constant (.integer 7)) = .ok (defined, userIdentifier "x") ∧
        defined.undefine "x" = .ok (left, userIdentifier "x") ∧
        s.library.resolve? "x" = some (.constant (.integer 1)) ∧
        left.library.resolve? "x" = some (.constant (.integer 2))) ∧
      Plain "y" ∧ userIdentifier "y" ∉ s.library.operators ∧
      ∃ defined, s.define "y" (.constant (.integer 7)) = .ok (defined, userIdentifier "y") ∧
        defined.undefine "y" = .error (.unsupported (.builtIn "y")) ∧
        s.library.resolve? (userIdentifier "y") = none ∧
        defined.library.resolve? (userIdentifier "y") = some (.constant (.integer 7)) :=
  ⟨threeWords_assembled, by decide, by decide, ⟨_, _, rfl, rfl, rfl, rfl⟩, by decide, by decide,
    _, rfl, rfl, rfl, rfl⟩

end Session

end StackQuery
