import StackQuery.Library

/-!
# What registering, merging and unregistering do to the two maps

A library has one map from identifiers to operators and one from keywords to
identifiers.  For each operation this module says which identifiers are loaded
afterwards and where each keyword leads; nothing later has to look inside the
operations again.
-/

namespace StackQuery

namespace Library

open Vocabulary (localName)

variable {l l' other : Library} {op : Operator} {policy : Policy}

/-! ## Looking up -/

theorem find?_of_loaded {identifier : String} {loaded : Loaded}
    (h : l.operators[identifier]? = some loaded) : l.find? identifier = some loaded := by
  simp only [find?, h]

theorem find?_of_keyword {keyword : String} (h : keyword ∉ l.operators) :
    l.find? keyword = l.keywords[keyword]? >>= fun identifier => l.operators[identifier]? := by
  simp only [find?, Std.ExtTreeMap.getElem?_eq_none h]

theorem leadsTo?_of_loaded {identifier : String} (h : identifier ∈ l.operators) :
    l.leadsTo? identifier = some identifier := by
  rw [leadsTo?, if_pos (Std.ExtTreeMap.contains_iff_mem.mpr h)]

theorem leadsTo?_of_keyword {keyword : String} (h : keyword ∉ l.operators) :
    l.leadsTo? keyword = l.keywords[keyword]?.filter fun identifier =>
      l.operators.contains identifier := by
  rw [leadsTo?, if_neg (mt Std.ExtTreeMap.contains_iff_mem.mp h)]

theorem mem_of_leadsTo? {name identifier : String} (h : l.leadsTo? name = some identifier) :
    identifier ∈ l.operators := by
  unfold leadsTo? at h
  split at h
  next hname =>
    cases h
    exact Std.ExtTreeMap.contains_iff_mem.mp hname
  next =>
    exact Std.ExtTreeMap.contains_iff_mem.mp (Option.filter_eq_some_iff.mp h).2

/-- Two libraries with one keyword leading to one entry look it up alike. -/
theorem lookup_congr {keyword : String} (h : keyword ∉ l.operators) (h' : keyword ∉ l'.operators)
    (hkeyword : l.keywords[keyword]? = l'.keywords[keyword]?)
    (htarget : ∀ identifier, l'.keywords[keyword]? = some identifier →
      l.operators[identifier]? = l'.operators[identifier]?) :
    l.find? keyword = l'.find? keyword ∧ l.leadsTo? keyword = l'.leadsTo? keyword := by
  rw [find?_of_keyword h, find?_of_keyword h', leadsTo?_of_keyword h, leadsTo?_of_keyword h',
    hkeyword]
  cases hidentifier : l'.keywords[keyword]? with
  | none => exact ⟨rfl, rfl⟩
  | some identifier =>
      have hsame := htarget identifier hidentifier
      refine ⟨hsame, ?_⟩
      rw [Option.filter_some, Option.filter_some, Std.ExtTreeMap.contains_eq_isSome_getElem?, hsame,
        Std.ExtTreeMap.contains_eq_isSome_getElem?]

/-! ## Registering -/

section Bind

variable (loaded : Loaded) (canonical : String) (policy : Policy) (l : Library)

theorem operators_bind (identifier name : String) :
    (bind loaded canonical policy l identifier).operators[name]? =
      if identifier = name then some loaded else l.operators[name]? := by
  simp [bind, Std.ExtTreeMap.getElem?_insert]

theorem keywords_bind (identifier keyword : String) :
    (bind loaded canonical policy l identifier).keywords[keyword]? =
      if localName identifier = keyword ∧
          (keyword ∉ l.keywords ∨ policy = .allowOverride ∧ identifier = canonical) then
        some canonical
      else l.keywords[keyword]? := by
  by_cases hoverride : policy = .allowOverride ∧ identifier = canonical
  · have hmap : (bind loaded canonical policy l identifier).keywords =
        l.keywords.insert (localName identifier) canonical := if_pos hoverride
    rw [hmap, Std.ExtTreeMap.getElem?_insert]
    simp [hoverride]
  · have hmap : (bind loaded canonical policy l identifier).keywords =
        l.keywords.insertIfNew (localName identifier) canonical := if_neg hoverride
    rw [hmap, Std.ExtTreeMap.getElem?_insertIfNew]
    by_cases hkeyword : localName identifier = keyword
    · subst hkeyword
      simp [hoverride]
    · simp [hkeyword]

theorem mem_keywords_bind (identifier keyword : String) :
    keyword ∈ (bind loaded canonical policy l identifier).keywords ↔
      keyword ∈ l.keywords ∨ localName identifier = keyword := by
  simp only [bind]
  split
  next => simp [or_comm]
  next => simp [or_comm]

end Bind

/-! The state after a whole registration. -/

section Registration

variable {loaded : Loaded} {canonical : String}

theorem operators_foldl_bind (identifiers : List String) (l : Library) (name : String) :
    (identifiers.foldl (bind loaded canonical policy) l).operators[name]? =
      if name ∈ identifiers then some loaded else l.operators[name]? := by
  induction identifiers generalizing l with
  | nil => rfl
  | cons identifier rest ih =>
      rw [List.foldl_cons, ih, operators_bind]
      by_cases hrest : name ∈ rest
      · simp [hrest]
      · simp [hrest, eq_comm]

theorem keywords_foldl_bind {identifiers : List String} {l : Library} {keyword target : String}
    (h : (identifiers.foldl (bind loaded canonical policy) l).keywords[keyword]? = some target) :
    l.keywords[keyword]? = some target ∨
      target = canonical ∧ ∃ identifier ∈ identifiers, localName identifier = keyword := by
  induction identifiers generalizing l with
  | nil => exact .inl h
  | cons identifier rest ih =>
      rcases ih h with hbind | ⟨htarget, other, hother, hname⟩
      · rw [keywords_bind] at hbind
        split at hbind
        next hnew => exact .inr ⟨(Option.some.inj hbind).symm, identifier, List.mem_cons_self, hnew.1⟩
        next => exact .inl hbind
      · exact .inr ⟨htarget, other, List.mem_cons_of_mem _ hother, hname⟩

theorem mem_keywords_foldl_bind (identifiers : List String) (l : Library) (keyword : String) :
    keyword ∈ (identifiers.foldl (bind loaded canonical policy) l).keywords ↔
      keyword ∈ l.keywords ∨ ∃ identifier ∈ identifiers, localName identifier = keyword := by
  induction identifiers generalizing l with
  | nil => simp
  | cons identifier rest ih =>
      rw [List.foldl_cons, ih, mem_keywords_bind, or_assoc]
      simp

/-- Under rejection, every keyword keeps its target. -/
theorem keywords_foldl_bind_reject {identifiers : List String} {l : Library}
    {keyword target : String} (h : l.keywords[keyword]? = some target) :
    (identifiers.foldl (bind loaded canonical .reject) l).keywords[keyword]? = some target := by
  induction identifiers generalizing l with
  | nil => exact h
  | cons identifier rest ih =>
      refine ih ?_
      rw [keywords_bind, if_neg ?_, h]
      simp [Std.ExtTreeMap.mem_iff_isSome_getElem?, h]

theorem keywords_foldl_bind_of_ne {identifiers : List String} {l : Library} {keyword : String}
    (h : ∀ identifier ∈ identifiers, localName identifier ≠ keyword) :
    (identifiers.foldl (bind loaded canonical policy) l).keywords[keyword]? =
      l.keywords[keyword]? := by
  induction identifiers generalizing l with
  | nil => rfl
  | cons identifier rest ih =>
      rw [List.foldl_cons, ih fun other hother => h other (List.mem_cons_of_mem _ hother),
        keywords_bind, if_neg fun hnew => h identifier List.mem_cons_self hnew.1]

theorem firstConflict?_eq_none {seen identifiers : List String} (hnodup : identifiers.Nodup)
    (hnew : ∀ identifier ∈ identifiers, identifier ∉ l.operators ∧ identifier ∉ seen) :
    l.firstConflict? seen identifiers = none := by
  induction identifiers generalizing seen with
  | nil => rfl
  | cons identifier rest ih =>
      obtain ⟨hfirst, hrest⟩ := List.nodup_cons.mp hnodup
      obtain ⟨hfree, hunseen⟩ := hnew identifier List.mem_cons_self
      rw [firstConflict?, if_neg (mt Std.ExtTreeMap.contains_iff_mem.mp hfree),
        if_neg (mt List.contains_iff_mem.mp hunseen)]
      refine ih hrest fun other hother => ?_
      obtain ⟨hfree', hunseen'⟩ := hnew other (List.mem_cons_of_mem _ hother)
      refine ⟨hfree', fun hmem => ?_⟩
      rcases List.mem_cons.mp hmem with rfl | hseen
      · exact hfirst hother
      · exact hunseen' hseen

theorem new_of_firstConflict?_eq_none {seen identifiers : List String}
    (h : l.firstConflict? seen identifiers = none) :
    identifiers.Nodup ∧
      ∀ identifier ∈ identifiers, identifier ∉ l.operators ∧ identifier ∉ seen := by
  induction identifiers generalizing seen with
  | nil => simp
  | cons identifier rest ih =>
      rw [firstConflict?] at h
      split at h
      next => cases h
      next hfree =>
        split at h
        next => cases h
        next hunseen =>
          obtain ⟨hnodup, hnew⟩ := ih h
          refine ⟨List.nodup_cons.mpr ⟨fun hmem => ?_, hnodup⟩, fun other hother => ?_⟩
          · exact (hnew identifier hmem).2 List.mem_cons_self
          · rcases List.mem_cons.mp hother with rfl | hrest
            · exact ⟨mt Std.ExtTreeMap.contains_iff_mem.mpr hfree,
                mt List.contains_iff_mem.mpr hunseen⟩
            · exact ⟨(hnew other hrest).1,
                fun hseen => (hnew other hrest).2 (List.mem_cons_of_mem _ hseen)⟩

theorem registerUnder_eq_ok {identifiers : List String}
    (h : l.registerUnder identifiers op policy = .ok l') :
    ∃ canonical rest, identifiers = canonical :: rest ∧
      l' = identifiers.foldl (bind ⟨op, l.registrations⟩ canonical policy)
        { l with registrations := l.registrations + 1 } := by
  cases identifiers with
  | nil => cases h
  | cons canonical rest =>
      simp only [registerUnder] at h
      split at h
      next => cases h
      next => exact ⟨canonical, rest, rfl, (Except.ok.inj h).symm⟩

/-- Under rejection, all identifiers of a registration are new. -/
theorem new_of_registerUnder_reject {identifiers : List String}
    (h : l.registerUnder identifiers op .reject = .ok l') :
    identifiers.Nodup ∧ ∀ identifier ∈ identifiers, identifier ∉ l.operators := by
  cases identifiers with
  | nil => cases h
  | cons canonical rest =>
      simp only [registerUnder, if_true] at h
      split at h
      next => cases h
      next hnone =>
        obtain ⟨hnodup, hnew⟩ := new_of_firstConflict?_eq_none hnone
        exact ⟨hnodup, fun identifier hmem => (hnew identifier hmem).1⟩

end Registration

/-! ## Merging -/

private theorem mem_foldl_insert (f : Loaded → Loaded) (entries : List (String × Loaded))
    (operators : Std.ExtTreeMap String Loaded) (name : String) :
    name ∈ entries.foldl (fun operators (name, loaded) => operators.insert name (f loaded))
        operators ↔
      name ∈ operators ∨ name ∈ entries.map (·.1) := by
  induction entries generalizing operators with
  | nil => simp
  | cons entry rest ih =>
      rw [List.foldl_cons, ih, Std.ExtTreeMap.mem_insert, Std.compare_eq_iff_eq, List.map_cons,
        List.mem_cons, eq_comm (a := name), ← or_assoc, or_comm (a := entry.1 = name)]

private theorem getElem?_foldl_insert (f : Loaded → Loaded) {entries : List (String × Loaded)}
    (operators : Std.ExtTreeMap String Loaded) {name : String} {loaded? : Option Loaded}
    (hdistinct : entries.Pairwise fun a b => a.1 ≠ b.1)
    (hentries : ∀ loaded, (name, loaded) ∈ entries ↔ loaded? = some loaded) :
    (entries.foldl (fun operators (name, loaded) => operators.insert name (f loaded))
        operators)[name]? = (loaded?.map f).or operators[name]? := by
  induction entries generalizing operators loaded? with
  | nil =>
      cases loaded? with
      | none => rfl
      | some loaded => exact absurd ((hentries loaded).mpr rfl) List.not_mem_nil
  | cons entry rest ih =>
      obtain ⟨first, value⟩ := entry
      obtain ⟨hfirst, hrest⟩ := List.pairwise_cons.mp hdistinct
      rw [List.foldl_cons]
      by_cases hname : first = name
      · -- The rest has no entry for the name, since its keys are distinct.
        subst hname
        have hvalue := (hentries value).mp List.mem_cons_self
        have hnone : ∀ loaded, (first, loaded) ∈ rest ↔ none = some loaded := fun loaded =>
          ⟨fun hmem => absurd rfl (hfirst (first, loaded) hmem), fun hnone => nomatch hnone⟩
        rw [ih _ hrest hnone, hvalue]
        simp
      · have hsame : ∀ loaded, (name, loaded) ∈ rest ↔ loaded? = some loaded := by
          intro loaded
          rw [← hentries, List.mem_cons, Prod.mk.injEq]
          simp [Ne.symm hname]
        rw [ih _ hrest hsame, Std.ExtTreeMap.getElem?_insert,
          if_neg (mt Std.compare_eq_iff_eq.mp hname)]

/-- Adds keywords one by one, each in place of an earlier one or only if there is none. -/
private def addKeywords (policy : Policy) (keywords : Std.ExtTreeMap String String)
    (entries : List (String × String)) : Std.ExtTreeMap String String :=
  entries.foldl
    (fun keywords (keyword, identifier) =>
      if policy = .allowOverride then keywords.insert keyword identifier
      else keywords.insertIfNew keyword identifier) keywords

private theorem addKeywords_old_or_new {entries : List (String × String)}
    {keywords : Std.ExtTreeMap String String} {keyword target : String}
    (h : (addKeywords policy keywords entries)[keyword]? = some target) :
    keywords[keyword]? = some target ∨ (keyword, target) ∈ entries := by
  induction entries generalizing keywords with
  | nil => exact .inl h
  | cons entry rest ih =>
      have hentry (condition : Prop) [Decidable condition] (hcondition : condition → entry.1 = keyword)
          (hif : (if condition then some entry.2 else keywords[keyword]?) = some target) :
          keywords[keyword]? = some target ∨ (keyword, target) ∈ entry :: rest := by
        split at hif
        next hnew =>
          rw [← hcondition hnew, ← Option.some.inj hif]
          exact .inr List.mem_cons_self
        next => exact .inl hif
      rcases ih h with hfirst | hrest
      · split at hfirst
        next =>
          rw [Std.ExtTreeMap.getElem?_insert] at hfirst
          exact hentry _ Std.compare_eq_iff_eq.mp hfirst
        next =>
          rw [Std.ExtTreeMap.getElem?_insertIfNew] at hfirst
          exact hentry _ (fun hnew => Std.compare_eq_iff_eq.mp hnew.1) hfirst
      · exact .inr (List.mem_cons_of_mem _ hrest)

private theorem addKeywords_reject_of_some {entries : List (String × String)}
    {keywords : Std.ExtTreeMap String String} {keyword target : String}
    (h : keywords[keyword]? = some target) :
    (addKeywords .reject keywords entries)[keyword]? = some target := by
  induction entries generalizing keywords with
  | nil => exact h
  | cons entry rest ih =>
      refine ih ?_
      simp only [reduceCtorEq, if_false]
      rw [Std.ExtTreeMap.getElem?_insertIfNew, if_neg ?_, h]
      rintro ⟨hname, hfree⟩
      rw [Std.compare_eq_iff_eq.mp hname, Std.ExtTreeMap.mem_iff_isSome_getElem?, h] at hfree
      exact hfree rfl

private theorem mem_addKeywords (entries : List (String × String))
    (keywords : Std.ExtTreeMap String String) (keyword : String) :
    keyword ∈ addKeywords policy keywords entries ↔
      keyword ∈ keywords ∨ keyword ∈ entries.map (·.1) := by
  induction entries generalizing keywords with
  | nil => simp [addKeywords]
  | cons entry rest ih =>
      change keyword ∈ addKeywords policy _ rest ↔ _
      rw [ih, List.map_cons, List.mem_cons, eq_comm (a := keyword), ← or_assoc,
        or_comm (a := keyword ∈ keywords)]
      split
      next => rw [Std.ExtTreeMap.mem_insert, Std.compare_eq_iff_eq]
      next => rw [Std.ExtTreeMap.mem_insertIfNew, Std.compare_eq_iff_eq]

section Merge

variable (h : l.merge other policy = .ok l')
include h

theorem merge_eq_ok :
    l'.operators = other.operators.toList.foldl
        (fun operators (identifier, loaded) => operators.insert identifier
          ⟨loaded.operator, l.registrations + loaded.registration⟩) l.operators ∧
      l'.keywords = addKeywords policy l.keywords other.keywords.toList := by
  unfold merge at h
  split at h
  next => cases h
  next =>
    cases h
    exact ⟨rfl, rfl⟩

theorem mem_operators_merge (name : String) :
    name ∈ l'.operators ↔ name ∈ l.operators ∨ name ∈ other.operators := by
  rw [(merge_eq_ok h).1, mem_foldl_insert (fun loaded =>
    ⟨loaded.operator, l.registrations + loaded.registration⟩)]
  simp

theorem operators_merge (name : String) :
    l'.operators[name]? =
      (other.operators[name]?.map fun loaded =>
        ⟨loaded.operator, l.registrations + loaded.registration⟩).or l.operators[name]? := by
  rw [(merge_eq_ok h).1]
  refine getElem?_foldl_insert (fun loaded =>
    ⟨loaded.operator, l.registrations + loaded.registration⟩) l.operators ?_ fun loaded =>
    Std.ExtTreeMap.mem_toList_iff_getElem?_eq_some
  exact Std.ExtTreeMap.distinct_keys_toList.imp fun hne => by simpa using hne

theorem keywords_merge {keyword target : String} (htarget : l'.keywords[keyword]? = some target) :
    l.keywords[keyword]? = some target ∨ other.keywords[keyword]? = some target := by
  rw [(merge_eq_ok h).2] at htarget
  exact (addKeywords_old_or_new htarget).imp_right
    Std.ExtTreeMap.mem_toList_iff_getElem?_eq_some.mp

theorem mem_keywords_merge (keyword : String) :
    keyword ∈ l'.keywords ↔ keyword ∈ l.keywords ∨ keyword ∈ other.keywords := by
  rw [(merge_eq_ok h).2, mem_addKeywords]
  simp

end Merge

/-- Under rejection, nothing is merged that is loaded already. -/
theorem new_of_merge_reject (h : l.merge other .reject = .ok l') {name : String}
    (hname : name ∈ other.operators) : name ∉ l.operators := by
  simp only [merge, if_true] at h
  split at h
  next => cases h
  next hnone =>
    have hfree := List.find?_eq_none.mp hnone name (Std.ExtTreeMap.mem_keys.mpr hname)
    exact mt Std.ExtTreeMap.contains_iff_mem.mpr hfree

theorem keywords_merge_reject (h : l.merge other .reject = .ok l') {keyword target : String}
    (htarget : l.keywords[keyword]? = some target) : l'.keywords[keyword]? = some target := by
  rw [(merge_eq_ok h).2]
  exact addKeywords_reject_of_some htarget

/-! ## Unregistering -/

theorem lastNamed?_eq_some {keyword identifier : String}
    (h : l.lastNamed? keyword = some identifier) :
    identifier ∈ l.operators ∧ localName identifier = keyword := by
  have hmem := List.mem_of_getLast? h
  rw [List.mem_filter, Std.ExtTreeMap.mem_keys, beq_iff_eq] at hmem
  exact hmem

theorem lastNamed?_eq_none_iff {keyword : String} :
    l.lastNamed? keyword = none ↔
      ∀ identifier ∈ l.operators, localName identifier ≠ keyword := by
  simp [lastNamed?]

theorem le_lastNamed? {keyword identifier other : String}
    (h : l.lastNamed? keyword = some identifier) (hother : other ∈ l.operators)
    (hname : localName other = keyword) : other ≤ identifier := by
  obtain ⟨before, hkeys⟩ := List.getLast?_eq_some_iff.mp h
  have hordered := Std.ExtTreeMap.ordered_keys (t := l.operators) |>.filter
    fun identifier => localName identifier == keyword
  have hmem : other ∈ before ++ [identifier] := by
    rw [← hkeys, List.mem_filter, Std.ExtTreeMap.mem_keys, beq_iff_eq]
    exact ⟨hother, hname⟩
  rw [hkeys, List.pairwise_append] at hordered
  rcases List.mem_append.mp hmem with hbefore | hlast
  · have hless := hordered.2.2 other hbefore identifier List.mem_cons_self
    exact Std.le_of_lt (compareOfLessAndEq_eq_lt.mp hless)
  · obtain rfl := List.mem_singleton.mp hlast
    exact Std.le_refl other

theorem lastNamed?_eq_some_iff {keyword identifier : String} :
    l.lastNamed? keyword = some identifier ↔
      identifier ∈ l.operators ∧ localName identifier = keyword ∧
        ∀ other ∈ l.operators, localName other = keyword → other ≤ identifier := by
  constructor
  · intro h
    obtain ⟨hloaded, hname⟩ := lastNamed?_eq_some h
    exact ⟨hloaded, hname, fun other hother hname => le_lastNamed? h hother hname⟩
  · rintro ⟨hloaded, hname, hgreatest⟩
    cases hlast : l.lastNamed? keyword with
    | none => exact absurd hname (lastNamed?_eq_none_iff.mp hlast identifier hloaded)
    | some last =>
        obtain ⟨hlastLoaded, hlastName⟩ := lastNamed?_eq_some hlast
        exact congrArg some (Std.le_antisymm (hgreatest last hlastLoaded hlastName)
          (le_lastNamed? hlast hloaded hname))

theorem lastNamed?_congr {keyword : String}
    (h : ∀ identifier, localName identifier = keyword →
      (identifier ∈ l.operators ↔ identifier ∈ l'.operators)) :
    l.lastNamed? keyword = l'.lastNamed? keyword := by
  refine Option.ext fun identifier => ?_
  rw [lastNamed?_eq_some_iff, lastNamed?_eq_some_iff]
  constructor
  · rintro ⟨hloaded, hname, hgreatest⟩
    exact ⟨(h identifier hname).mp hloaded, hname,
      fun other hother hother' => hgreatest other ((h other hother').mpr hother) hother'⟩
  · rintro ⟨hloaded, hname, hgreatest⟩
    exact ⟨(h identifier hname).mpr hloaded, hname,
      fun other hother hother' => hgreatest other ((h other hother').mp hother) hother'⟩

section Unregister

variable {name identifier : String} {removed : Loaded}

/--
What is left when the identifier that a name leads to is taken away: only the
keyword of that identifier may lead somewhere else than before.
-/
theorem unregister_eq (hleads : l.leadsTo? name = some identifier)
    (hremoved : l.operators[identifier]? = some removed) :
    ∃ l', l.unregister name = some (removed.operator, l') ∧
      l'.operators = l.operators.erase identifier ∧
      ∀ keyword, l'.keywords[keyword]? =
        if localName identifier = keyword ∧ l.keywords[keyword]? = some identifier then
          l'.lastNamed? keyword
        else l.keywords[keyword]? := by
  simp only [unregister, hleads, Option.bind_eq_bind, Option.bind_some, hremoved]
  by_cases hkeyword : l.keywords[localName identifier]? = some identifier
  · rw [if_pos hkeyword]
    split
    next next hnext =>
      refine ⟨_, rfl, rfl, fun keyword => ?_⟩
      rw [Std.ExtTreeMap.getElem?_insert]
      by_cases hsame : localName identifier = keyword
      · subst hsame
        simp only [Std.compare_self, hkeyword, and_self, if_true]
        exact hnext.symm
      · simp [hsame]
    next hnext =>
      refine ⟨_, rfl, rfl, fun keyword => ?_⟩
      rw [Std.ExtTreeMap.getElem?_erase]
      by_cases hsame : localName identifier = keyword
      · subst hsame
        simp only [Std.compare_self, hkeyword, and_self, if_true]
        exact hnext.symm
      · simp [hsame]
  · rw [if_neg hkeyword]
    refine ⟨_, rfl, rfl, fun keyword => ?_⟩
    rw [if_neg]
    rintro ⟨rfl, htarget⟩
    exact hkeyword htarget

end Unregister

end Library

end StackQuery
