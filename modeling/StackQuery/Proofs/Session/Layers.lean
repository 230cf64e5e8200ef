import StackQuery.Proofs.Library.Standard

/-!
# Definitions as a layer over the standard words

A session starts with the standard library, and calls define and undefine plain
names.  Definitions have identifiers of their own, so that the operators of the
standard words are never touched; only keywords are shared.  The keyword of a
defined name leads to the definition, and every other keyword leads where the
standard library leads it.  A keyword gets back there when its definition goes,
because the standard library leads it to the greatest identifier of its name.
-/

namespace StackQuery

open Vocabulary (localName Plain isUser userIdentifier)

/--
A library that definitions can cover and uncover again.  Its identifiers are
neither plain names nor those of definitions, and each keyword leads to the
identifier that it would fall back to.
-/
structure Library.Coverable (l : Library) : Prop where
  notPlain : ∀ identifier ∈ l.operators, ¬ Plain identifier
  builtIn : ∀ identifier ∈ l.operators, isUser identifier = false
  fallsBack : ∀ keyword, l.lastNamed? keyword = l.keywords[keyword]?

theorem Library.Coverable.not_mem_userIdentifier {l : Library} (h : l.Coverable) (name : String) :
    userIdentifier name ∉ l.operators := by
  intro hmem
  exact Vocabulary.userIdentifier_ne (h.builtIn _ hmem) name rfl

/-- A name falls back as in the base, once no definition over the base has that name. -/
theorem Library.Coverable.lastNamed?_uncovered {base l : Library} (hbase : base.Coverable)
    {name : String} (hbuiltIn : ∀ identifier, isUser identifier = false →
      l.operators[identifier]? = base.operators[identifier]?)
    (hdefined : ∀ other, userIdentifier other ∈ l.operators → Plain other ∧ name ≠ other) :
    l.lastNamed? name = base.lastNamed? name := by
  refine lastNamed?_congr fun identifier hidentifier => ?_
  cases huser : isUser identifier with
  | false =>
      rw [Std.ExtTreeMap.mem_iff_isSome_getElem?, Std.ExtTreeMap.mem_iff_isSome_getElem?,
        hbuiltIn identifier huser]
  | true =>
      obtain ⟨other, rfl⟩ := Vocabulary.isUser_iff.mp huser
      constructor
      · intro hmem
        obtain ⟨hplain, hne⟩ := hdefined other hmem
        rw [Vocabulary.localName_userIdentifier hplain] at hidentifier
        exact absurd hidentifier.symm hne
      · exact fun hmem => absurd hmem (hbase.not_mem_userIdentifier other)

theorem Library.standard_coverable : Library.standard.Coverable where
  notPlain := by
    intro identifier hidentifier hplain
    exact standard_holds.not_mem_of_plain Standard.words_wellNamed hplain hidentifier
  builtIn := by
    intro identifier hidentifier
    obtain ⟨p, hp, hmem⟩ := standard_holds.mem_operators.mp hidentifier
    exact (Standard.words_wellNamed p hp).builtIn identifier hmem
  fallsBack := standard_holds.lastNamed?_eq Standard.words_wellNamed Standard.words_names_nodup

namespace Session

/-! ## Calls -/

inductive Call where
  | define (name : String) (op : Operator)
  | undefine (name : String)

namespace Call

def name : Call → String
  | .define name _ => name
  | .undefine name => name

/-- What the name is to be defined as from now on. -/
def operator? : Call → Option Operator
  | .define _ op => some op
  | .undefine _ => none

end Call

/-- A session goes on as it was when a call fails. -/
def settle (s : Session) : Except EvalError (Session × String) → Session × Except EvalError String
  | .ok (s', identifier) => (s', .ok identifier)
  | .error error => (s, .error error)

def call (s : Session) : Call → Session × Except EvalError String
  | .define name op => s.settle (s.define name op)
  | .undefine name => s.settle (s.undefine name)

def after (s : Session) (calls : List Call) : Session :=
  calls.foldl (fun s call => (s.call call).1) s

/-- What the last call on a name has left it with. -/
def definition? (calls : List Call) (name : String) : Option Operator :=
  calls.foldl (fun definition call => if call.name = name then call.operator? else definition) none

theorem after_append (s : Session) (calls : List Call) (call : Call) :
    s.after (calls ++ [call]) = ((s.after calls).call call).1 := by
  rw [after, List.foldl_append]
  rfl

theorem definition?_append (calls : List Call) (call : Call) (name : String) :
    definition? (calls ++ [call]) name =
      if call.name = name then call.operator? else definition? calls name := by
  rw [definition?, List.foldl_append]
  rfl

/-! ## The two layers -/

/-- The library of the session is the base with definitions over it. -/
structure Layered (base : Library) (definition : String → Option Operator) (s : Session) :
    Prop where
  plain : ∀ name, (definition name).isSome → Plain name
  defined : ∀ name,
    s.library.operators[userIdentifier name]?.map (·.operator) = definition name
  builtIn : ∀ identifier, isUser identifier = false →
    s.library.operators[identifier]? = base.operators[identifier]?
  keywords : ∀ keyword : String, s.library.keywords[keyword]? =
    if (definition keyword).isSome then some (userIdentifier keyword)
    else base.keywords[keyword]?

variable {base : Library} {definition : String → Option Operator} {s : Session}

theorem layered_start (hbase : base.Coverable) (config : Config) :
    Layered base (fun _ => none) ⟨base, config⟩ where
  plain := by simp
  defined := by
    intro name
    rw [Std.ExtTreeMap.getElem?_eq_none (hbase.not_mem_userIdentifier name)]
    rfl
  builtIn := fun _ _ => rfl
  keywords := by simp

section Lookup

variable (hbase : base.Coverable) (h : s.Layered base definition)
include h

theorem Layered.mem_userIdentifier (name : String) :
    userIdentifier name ∈ s.library.operators ↔ (definition name).isSome := by
  rw [Std.ExtTreeMap.mem_iff_isSome_getElem?, ← h.defined, Option.isSome_map]

theorem Layered.mem_of_builtIn {identifier : String} (hbuiltIn : isUser identifier = false) :
    identifier ∈ s.library.operators ↔ identifier ∈ base.operators := by
  rw [Std.ExtTreeMap.mem_iff_isSome_getElem?, Std.ExtTreeMap.mem_iff_isSome_getElem?,
    h.builtIn identifier hbuiltIn]

theorem Layered.keywords_of_none {keyword : String} (hnone : definition keyword = none) :
    s.library.keywords[keyword]? = base.keywords[keyword]? := by
  rw [h.keywords, hnone]
  rfl

include hbase

theorem Layered.not_mem_of_plain {name : String} (hplain : Plain name) :
    name ∉ s.library.operators := by
  cases huser : isUser name with
  | true =>
      obtain ⟨rest, rfl⟩ := Vocabulary.isUser_iff.mp huser
      exact absurd hplain (Vocabulary.isNamespace_user.not_plain rest)
  | false =>
      rw [h.mem_of_builtIn huser]
      exact fun hmem => hbase.notPlain name hmem hplain

theorem Layered.resolve?_of_mem {identifier : String} (hloaded : identifier ∈ base.operators) :
    s.library.resolve? identifier = base.resolve? identifier := by
  have hfound := Std.ExtTreeMap.getElem?_eq_some_getElem hloaded
  have hsame := h.builtIn identifier (hbase.builtIn identifier hloaded)
  rw [Library.resolve?, Library.resolve?, Library.find?_of_loaded hfound,
    Library.find?_of_loaded (hsame.trans hfound)]

theorem Layered.resolve?_of_some {name : String} {op : Operator} (hplain : Plain name)
    (hop : definition name = some op) : s.library.resolve? name = some op := by
  rw [Library.resolve?, Library.find?_of_keyword (h.not_mem_of_plain hbase hplain), h.keywords, hop]
  exact (h.defined name).trans hop

theorem Layered.leadsTo?_of_some {name : String} (hplain : Plain name)
    (hsome : (definition name).isSome) :
    s.library.leadsTo? name = some (userIdentifier name) := by
  have hloaded : s.library.operators.contains (userIdentifier name) = true :=
    Std.ExtTreeMap.contains_iff_mem.mpr ((h.mem_userIdentifier name).mpr hsome)
  rw [Library.leadsTo?_of_keyword (h.not_mem_of_plain hbase hplain), h.keywords, if_pos hsome,
    Option.filter_some, if_pos hloaded]

theorem Layered.lookup_of_none {name : String} (hplain : Plain name)
    (hnone : definition name = none) :
    s.library.find? name = base.find? name ∧ s.library.leadsTo? name = base.leadsTo? name := by
  refine Library.lookup_congr (h.not_mem_of_plain hbase hplain)
    (fun hmem => hbase.notPlain name hmem hplain) (h.keywords_of_none hnone) ?_
  intro identifier hidentifier
  rw [← hbase.fallsBack] at hidentifier
  exact h.builtIn identifier (hbase.builtIn identifier (Library.lastNamed?_eq_some hidentifier).1)

end Lookup

/-! ## What the calls do to the layers -/

section Calls

variable {name : String} (hplain : Plain name) (h : s.Layered base definition)
include hplain h

/-- A change to one definition and its keyword changes nothing else. -/
theorem Layered.changed {l : Library} {op? : Option Operator}
    (hdefined : l.operators[userIdentifier name]?.map (·.operator) = op?)
    (hothers : ∀ identifier, userIdentifier name ≠ identifier →
      l.operators[identifier]? = s.library.operators[identifier]?)
    (hkeyword : l.keywords[name]? =
      if op?.isSome then some (userIdentifier name) else base.keywords[name]?)
    (hkeywords : ∀ keyword : String, name ≠ keyword →
      l.keywords[keyword]? = s.library.keywords[keyword]?) :
    Layered base (fun other => if name = other then op? else definition other)
      { s with library := l } where
  plain := by
    intro other hother
    by_cases hname : name = other
    · exact hname ▸ hplain
    · rw [if_neg hname] at hother
      exact h.plain other hother
  defined := by
    intro other
    by_cases hname : name = other
    · subst hname
      rw [if_pos rfl]
      exact hdefined
    · rw [if_neg hname, hothers _ (mt Vocabulary.userIdentifier_inj.mp hname)]
      exact h.defined other
  builtIn := by
    intro identifier hbuiltIn
    exact (hothers identifier (Vocabulary.userIdentifier_ne hbuiltIn name)).trans
      (h.builtIn identifier hbuiltIn)
  keywords := by
    intro keyword
    by_cases hname : name = keyword
    · subst hname
      rw [if_pos rfl]
      exact hkeyword
    · rw [if_neg hname]
      exact (hkeywords keyword hname).trans (h.keywords keyword)

theorem Layered.define (op : Operator) :
    ∃ s', s.define name op = .ok (s', userIdentifier name) ∧
      s'.Layered base fun other => if name = other then some op else definition other := by
  have hdefine : s.define name op = .ok ({ s with
      library := Library.bind ⟨op, s.library.registrations⟩ (userIdentifier name) .allowOverride
        { s.library with registrations := s.library.registrations + 1 } (userIdentifier name) },
      userIdentifier name) := rfl
  refine ⟨_, hdefine, Layered.changed hplain h ?_ ?_ ?_ ?_⟩
  · rw [Library.operators_bind, if_pos rfl]
    rfl
  · intro identifier hne
    rw [Library.operators_bind, if_neg hne]
  · rw [Library.keywords_bind, if_pos ⟨Vocabulary.localName_userIdentifier hplain, .inr ⟨rfl, rfl⟩⟩]
    rfl
  · intro keyword hne
    rw [Library.keywords_bind, Vocabulary.localName_userIdentifier hplain,
      if_neg fun hbound => hne hbound.1]

variable (hbase : base.Coverable)
include hbase

theorem Layered.undefine_of_some (hsome : (definition name).isSome) :
    ∃ s', s.undefine name = .ok (s', userIdentifier name) ∧
      s'.Layered base fun other => if name = other then none else definition other := by
  have hmem := (h.mem_userIdentifier name).mpr hsome
  have hremoved := Std.ExtTreeMap.getElem?_eq_some_getElem hmem
  obtain ⟨l, hunregister, hoperators, hkeywords⟩ :=
    Library.unregister_eq (Library.leadsTo?_of_loaded hmem) hremoved
  rw [Vocabulary.localName_userIdentifier hplain] at hkeywords
  have hundefine : s.undefine name = .ok ({ s with library := l }, userIdentifier name) := by
    simp only [undefine, h.leadsTo?_of_some hbase hplain hsome, Vocabulary.isUser_userIdentifier,
      if_true, hunregister]
  have herase (identifier : String) : l.operators[identifier]? =
      if userIdentifier name = identifier then none else s.library.operators[identifier]? := by
    rw [hoperators, Std.ExtTreeMap.getElem?_erase]
    simp only [Std.compare_eq_iff_eq]
  have hlast : l.lastNamed? name = base.keywords[name]? := by
    rw [← hbase.fallsBack]
    refine hbase.lastNamed?_uncovered (fun identifier hbuiltIn => ?_) fun other hother => ?_
    · rw [herase, if_neg (Vocabulary.userIdentifier_ne hbuiltIn name)]
      exact h.builtIn identifier hbuiltIn
    · rw [hoperators, Std.ExtTreeMap.mem_erase, Std.compare_ne_eq_iff_ne] at hother
      exact ⟨h.plain other ((h.mem_userIdentifier other).mp hother.2),
        fun hname => hother.1 (congrArg userIdentifier hname)⟩
  refine ⟨_, hundefine, Layered.changed hplain h ?_ ?_ ?_ ?_⟩
  · rw [herase, if_pos rfl]
    rfl
  · intro identifier hne
    rw [herase, if_neg hne]
  · rw [hkeywords, if_pos ⟨rfl, (h.keywords name).trans (if_pos hsome)⟩, hlast]
    rfl
  · intro keyword hne
    rw [hkeywords, if_neg fun hbound => hne hbound.1]

theorem Layered.undefine_of_none (hnone : definition name = none) :
    s.undefine name = .error (match base.leadsTo? name with
      | some identifier => .unsupported (.builtIn identifier)
      | none => .undefined name) := by
  rw [undefine, (h.lookup_of_none hbase hplain hnone).2]
  cases hleads : base.leadsTo? name with
  | none => rfl
  | some identifier =>
      have hbuiltIn := hbase.builtIn identifier (Library.mem_of_leadsTo? hleads)
      simp only [hbuiltIn, Bool.false_eq_true, if_false]

end Calls

theorem Layered.call (hbase : base.Coverable) (h : s.Layered base definition) (call : Call)
    (hplain : Plain call.name) :
    (s.call call).1.Layered base fun name =>
      if call.name = name then call.operator? else definition name := by
  cases call with
  | define name op =>
      obtain ⟨s', hdefine, hlayered⟩ := Layered.define hplain h op
      change s.define name op = _ at hdefine
      rw [Session.call, hdefine]
      exact hlayered
  | undefine name =>
      change Plain name at hplain
      cases hdefinition : definition name with
      | some op =>
          have hsome : (definition name).isSome := hdefinition ▸ rfl
          obtain ⟨s', hundefine, hlayered⟩ := Layered.undefine_of_some hplain h hbase hsome
          rw [Session.call, hundefine]
          exact hlayered
      | none =>
          have hsame : (fun other => if name = other then none else definition other) =
              definition := by
            funext other
            split
            next hother => rw [← hother, hdefinition]
            next => rfl
          have hfails : (s.call (.undefine name)).1 = s := by
            rw [Session.call, Layered.undefine_of_none hplain h hbase hdefinition]
            rfl
          rw [hfails]
          change s.Layered base fun other => if name = other then none else definition other
          rw [hsame]
          exact h

theorem after_layered (hbase : base.Coverable) (config : Config) (calls : List Call)
    (hplain : ∀ call ∈ calls, Plain call.name) :
    (after ⟨base, config⟩ calls).Layered base (definition? calls) := by
  induction calls using List.reverseRecOn with
  | nil => exact layered_start hbase config
  | append_singleton calls call ih =>
      have hbefore := ih fun earlier hearlier => hplain earlier (List.mem_append_left _ hearlier)
      rw [after_append, funext (definition?_append calls call)]
      exact hbefore.call hbase call (hplain call (by simp))

/--
After any calls on plain names, a defined name resolves to its definition and
can be undefined.  Any other plain name is looked up as in the standard library
and cannot be undefined, which leaves the session as it is.  The identifiers of
the standard words resolve to these words throughout.
-/
theorem definitions_over_standard (config : Config) (calls : List Call)
    (hplain : ∀ call ∈ calls, Plain call.name) :
    let s := (Session.standard config).after calls
    (∀ name op, Plain name → definition? calls name = some op →
      s.library.resolve? name = some op ∧
        (s.call (.undefine name)).2 = .ok (userIdentifier name)) ∧
    (∀ name, Plain name → definition? calls name = none →
      s.library.find? name = Library.standard.find? name ∧
        (∀ identifier, Library.standard.leadsTo? name = some identifier →
          s.call (.undefine name) = (s, .error (.unsupported (.builtIn identifier)))) ∧
        (Library.standard.leadsTo? name = none →
          s.call (.undefine name) = (s, .error (.undefined name)))) ∧
    ∀ p ∈ Standard.words, ∀ identifier ∈ p.identifiers,
      s.library.resolve? identifier = some (.primitive p) := by
  intro s
  have hbase := Library.standard_coverable
  have h : s.Layered Library.standard (definition? calls) := after_layered hbase config calls hplain
  refine ⟨?_, ?_, ?_⟩
  · intro name op hname hop
    obtain ⟨s', hundefine, _⟩ := Layered.undefine_of_some hname h hbase (by rw [hop]; rfl)
    refine ⟨h.resolve?_of_some hbase hname hop, ?_⟩
    rw [Session.call, hundefine]
    rfl
  · intro name hname hnone
    have hundefine := Layered.undefine_of_none hname h hbase hnone
    refine ⟨(h.lookup_of_none hbase hname hnone).1, fun identifier hleads => ?_, fun hleads => ?_⟩
    · rw [Session.call, hundefine, hleads]
      rfl
    · rw [Session.call, hundefine, hleads]
      rfl
  · intro p hp identifier hidentifier
    have hloaded := Library.standard_holds.mem_operators.mpr ⟨p, hp, hidentifier⟩
    rw [h.resolve?_of_mem hbase hloaded]
    exact Library.standard_holds.resolve?_identifier hp hidentifier

/-- A definition of a standard word is taken away again, and then the word is left. -/
theorem dup_covered_and_uncovered :
    ∃ covered uncovered : Session,
      covered = (Session.standard {}).after [.define "dup" (.constant (.integer 0))] ∧
      uncovered = (Session.standard {}).after
        [.define "dup" (.constant (.integer 0)), .undefine "dup"] ∧
      covered.library.resolve? "dup" = some (.constant (.integer 0)) ∧
      (covered.call (.undefine "dup")).2 = .ok (userIdentifier "dup") ∧
      uncovered.library.find? "dup" = Library.standard.find? "dup" ∧
      uncovered.call (.undefine "dup") = (uncovered, .error (.unsupported
        (.builtIn "http://fortytwo.net/2013/03/ripple/stack#dup"))) := by
  have hdup : Plain "dup" := by decide
  have hleads : Library.standard.leadsTo? "dup" =
      some "http://fortytwo.net/2013/03/ripple/stack#dup" := by
    rw [Library.standard_holds.leadsTo?_eq_some_iff Standard.words_wellNamed hdup]
    exact ⟨_, List.Mem.head _, by decide, rfl⟩
  obtain ⟨hcovered, _⟩ := definitions_over_standard {}
    [.define "dup" (.constant (.integer 0))] (by simp [Call.name, hdup])
  obtain ⟨_, huncovered, _⟩ := definitions_over_standard {}
    [.define "dup" (.constant (.integer 0)), .undefine "dup"] (by simp [Call.name, hdup])
  obtain ⟨hresolve, hundefine⟩ := hcovered "dup" _ hdup rfl
  obtain ⟨hfind, hrefused, _⟩ := huncovered "dup" hdup rfl
  exact ⟨_, _, rfl, rfl, hresolve, hundefine, hfind, hrefused _ hleads⟩

end Session

end StackQuery
