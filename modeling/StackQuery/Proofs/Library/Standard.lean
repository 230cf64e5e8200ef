import StackQuery.Library.Standard
import StackQuery.Proofs.Library.Lookup
import StackQuery.Proofs.Library.Names
import Mathlib.Data.List.Induction
import Mathlib.Data.List.Nodup

/-!
# What the standard library has loaded

Words whose identifiers are a plain name in a family of namespaces can be
registered one after another as long as their names are distinct.  A library
made in this way has loaded their identifiers and nothing else, and the keyword
of each word leads to its newest identifier.  That is also the identifier to
which the keyword falls back when it has been led elsewhere.
-/

namespace StackQuery

open Vocabulary (localName Plain Family isUser)

/-! ## Well-named words -/

/-- What comes of identifiers that are a plain name in a family of namespaces. -/
structure Primitive.WellNamed (p : Primitive) : Prop where
  canonical : ∃ older, p.identifiers = p.identifier :: older
  nodup : p.identifiers.Nodup
  named : ∀ identifier ∈ p.identifiers, localName identifier = p.name
  newest : ∀ identifier ∈ p.identifiers, identifier ≤ p.identifier
  notPlain : ∀ identifier ∈ p.identifiers, ¬ Plain identifier
  builtIn : ∀ identifier ∈ p.identifiers, isUser identifier = false

theorem Primitive.WellNamed.identifier_mem {p : Primitive} (h : p.WellNamed) :
    p.identifier ∈ p.identifiers := by
  obtain ⟨older, holder⟩ := h.canonical
  rw [holder]
  exact List.mem_cons_self

theorem Primitive.name_of_identifiers {p : Primitive} {namespaces : List String} {name : String}
    (hfamily : Family namespaces) (hplain : Plain name)
    (h : p.identifiers = Vocabulary.identifiers namespaces name) : p.name = name := by
  rw [Primitive.name, Primitive.identifier, h]
  exact hfamily.localName_newest hplain

theorem Primitive.wellNamed {p : Primitive} {namespaces : List String} {name : String}
    (hfamily : Family namespaces) (hplain : Plain name)
    (h : p.identifiers = Vocabulary.identifiers namespaces name) : p.WellNamed := by
  have hname : p.name = name := name_of_identifiers hfamily hplain h
  have hmem {identifier : String} (hidentifier : identifier ∈ p.identifiers) :
      ∃ ns ∈ namespaces, ns ++ name = identifier := by
    rw [h] at hidentifier
    exact List.mem_map.mp hidentifier
  have horder : p.identifiers.Pairwise fun newer older => older < newer := by
    rw [h, Vocabulary.identifiers, List.pairwise_map]
    exact hfamily.newestFirst.imp fun hprecedes => hprecedes.append name name
  obtain ⟨older, hcanonical⟩ : ∃ older, p.identifiers = p.identifier :: older := by
    cases hidentifiers : p.identifiers with
    | nil =>
        rw [h, Vocabulary.identifiers, List.map_eq_nil_iff] at hidentifiers
        exact absurd hidentifiers hfamily.nonempty
    | cons newest older => exact ⟨older, by rw [Primitive.identifier, hidentifiers]; rfl⟩
  refine ⟨⟨older, hcanonical⟩, ?_, ?_, ?_, ?_, ?_⟩
  · exact horder.imp fun hless => (Std.ne_of_lt hless).symm
  · intro identifier hidentifier
    obtain ⟨ns, hns, rfl⟩ := hmem hidentifier
    rw [hname, Vocabulary.localName_append (hfamily.ends ns hns) hplain]
  · intro identifier hidentifier
    rw [hcanonical] at horder hidentifier
    rcases List.mem_cons.mp hidentifier with rfl | holder
    · exact Std.le_refl _
    · exact Std.le_of_lt ((List.pairwise_cons.mp horder).1 identifier holder)
  · intro identifier hidentifier
    obtain ⟨ns, hns, rfl⟩ := hmem hidentifier
    exact (hfamily.ends ns hns).not_plain name
  · intro identifier hidentifier
    obtain ⟨ns, hns, rfl⟩ := hmem hidentifier
    exact hfamily.isUser_append hns name

namespace Library

/-! ## Loading words -/

/-- The library has loaded just these words. -/
structure Holds (l : Library) (words : List Primitive) : Prop where
  operators : ∀ identifier op, l.operators[identifier]?.map (·.operator) = some op ↔
    ∃ p ∈ words, identifier ∈ p.identifiers ∧ op = .primitive p
  keywords : ∀ keyword identifier : String, l.keywords[keyword]? = some identifier ↔
    ∃ p ∈ words, p.name = keyword ∧ identifier = p.identifier

variable {l : Library} {words : List Primitive}

theorem Holds.mem_operators (h : l.Holds words) {identifier : String} :
    identifier ∈ l.operators ↔ ∃ p ∈ words, identifier ∈ p.identifiers := by
  rw [Std.ExtTreeMap.mem_iff_isSome_getElem?, ← Option.isSome_map (f := (·.operator)),
    Option.isSome_iff_exists]
  constructor
  · rintro ⟨op, hop⟩
    obtain ⟨p, hp, hidentifier, _⟩ := (h.operators identifier op).mp hop
    exact ⟨p, hp, hidentifier⟩
  · rintro ⟨p, hp, hidentifier⟩
    exact ⟨.primitive p, (h.operators identifier _).mpr ⟨p, hp, hidentifier, rfl⟩⟩

theorem register_wellNamed {p : Primitive} (hp : p.WellNamed)
    (hfree : ∀ identifier ∈ p.identifiers, identifier ∉ l.operators)
    (hkeyword : p.name ∉ l.keywords) :
    ∃ l', l.register (.primitive p) = .ok l' ∧
      (∀ identifier, l'.operators[identifier]? =
        if identifier ∈ p.identifiers then some ⟨.primitive p, l.registrations⟩
        else l.operators[identifier]?) ∧
      ∀ keyword, l'.keywords[keyword]? =
        if p.name = keyword then some p.identifier else l.keywords[keyword]? := by
  obtain ⟨older, hcanonical⟩ := hp.canonical
  have hnoConflict : l.firstConflict? [] p.identifiers = none :=
    firstConflict?_eq_none hp.nodup fun identifier hidentifier =>
      ⟨hfree identifier hidentifier, List.not_mem_nil⟩
  have hregister : l.register (.primitive p) =
      .ok (p.identifiers.foldl (bind ⟨.primitive p, l.registrations⟩ p.identifier .reject)
        { l with registrations := l.registrations + 1 }) := by
    change registerUnder l p.identifiers (.primitive p) .reject = _
    rw [hcanonical] at hnoConflict ⊢
    simp only [registerUnder, if_true, hnoConflict]
  refine ⟨_, hregister, fun identifier => operators_foldl_bind _ _ _, fun keyword => ?_⟩
  by_cases hname : p.name = keyword
  · subst hname
    rw [if_pos rfl]
    have hfirst : localName p.identifier = p.name :=
      hp.named _ (by rw [hcanonical]; exact List.mem_cons_self)
    rw [hcanonical, List.foldl_cons]
    refine keywords_foldl_bind_reject ?_
    rw [keywords_bind, if_pos ⟨hfirst, .inl hkeyword⟩]
  · rw [if_neg hname]
    refine keywords_foldl_bind_of_ne fun identifier hidentifier hsame => hname ?_
    rw [← hp.named identifier hidentifier, hsame]

private theorem exists_mem_concat {p : Primitive} {P : Primitive → Prop} :
    (∃ q ∈ words ++ [p], P q) ↔ (∃ q ∈ words, P q) ∨ P p := by
  simp [or_and_right, exists_or]

theorem Holds.register (h : l.Holds words) {p : Primitive} (hp : p.WellNamed)
    (hwords : ∀ q ∈ words, q.WellNamed) (hnew : ∀ q ∈ words, q.name ≠ p.name) :
    ∃ l', l.register (.primitive p) = .ok l' ∧ l'.Holds (words ++ [p]) := by
  have hapart {identifier : String} (hidentifier : identifier ∈ p.identifiers) {q : Primitive}
      (hq : q ∈ words) : identifier ∉ q.identifiers := by
    intro hmem
    exact hnew q hq (((hwords q hq).named identifier hmem).symm.trans (hp.named identifier hidentifier))
  have hfree : ∀ identifier ∈ p.identifiers, identifier ∉ l.operators := by
    intro identifier hidentifier hloaded
    obtain ⟨q, hq, hmem⟩ := h.mem_operators.mp hloaded
    exact hapart hidentifier hq hmem
  have hkeyword : p.name ∉ l.keywords := by
    rw [Std.ExtTreeMap.mem_iff_isSome_getElem?, Option.isSome_iff_exists]
    rintro ⟨identifier, hidentifier⟩
    obtain ⟨q, hq, hname, _⟩ := (h.keywords _ _).mp hidentifier
    exact hnew q hq hname
  obtain ⟨l', hregister, hoperators, hkeywords⟩ := register_wellNamed hp hfree hkeyword
  refine ⟨l', hregister, ⟨fun identifier op => ?_, fun keyword identifier => ?_⟩⟩
  · rw [hoperators, exists_mem_concat]
    split
    next hidentifier =>
      have hold : ¬ ∃ q ∈ words, identifier ∈ q.identifiers ∧ op = .primitive q :=
        fun ⟨q, hq, hmem, _⟩ => hapart hidentifier hq hmem
      rw [or_iff_right hold]
      simp [hidentifier, eq_comm]
    next hidentifier =>
      rw [h.operators]
      simp [hidentifier]
  · rw [hkeywords, exists_mem_concat]
    split
    next hname =>
      have hold : ¬ ∃ q ∈ words, q.name = keyword ∧ identifier = q.identifier :=
        fun ⟨q, hq, hname', _⟩ => hnew q hq (hname'.trans hname.symm)
      rw [or_iff_right hold]
      simp [hname, eq_comm]
    next hname =>
      rw [h.keywords]
      simp [hname]

theorem registerAll_wellNamed (hwords : ∀ p ∈ words, p.WellNamed)
    (hnames : (words.map (·.name)).Nodup) :
    ∃ l, empty.registerAll words = .ok l ∧ l.Holds words := by
  induction words using List.reverseRecOn with
  | nil => exact ⟨empty, rfl, by simp [empty], by simp [empty]⟩
  | append_singleton words p ih =>
      rw [List.map_append, List.nodup_append] at hnames
      have hwords' : ∀ q ∈ words, q.WellNamed := fun q hq => hwords q (List.mem_append_left _ hq)
      obtain ⟨before, hbefore, hholds⟩ := ih hwords' hnames.1
      obtain ⟨l, hl, hholds'⟩ := hholds.register (hwords p (by simp)) hwords' fun q hq =>
        hnames.2.2 q.name (List.mem_map_of_mem hq) p.name (by simp)
      refine ⟨l, ?_, hholds'⟩
      change List.foldlM _ _ _ = _ at hbefore ⊢
      rw [List.foldlM_append, hbefore]
      exact (bind_pure _).trans hl

/-! ## Looking words up -/

section Lookup

variable (h : l.Holds words) (hwords : ∀ p ∈ words, p.WellNamed)
include h

theorem Holds.resolve?_identifier {p : Primitive} (hp : p ∈ words) {identifier : String}
    (hidentifier : identifier ∈ p.identifiers) :
    l.resolve? identifier = some (.primitive p) := by
  have hop := (h.operators identifier _).mpr ⟨p, hp, hidentifier, rfl⟩
  obtain ⟨loaded, hloaded, hoperator⟩ := Option.map_eq_some_iff.mp hop
  rw [resolve?, find?_of_loaded hloaded, Option.map_some, hoperator]

include hwords

theorem Holds.not_mem_of_plain {name : String} (hplain : Plain name) : name ∉ l.operators := by
  intro hloaded
  obtain ⟨p, hp, hmem⟩ := h.mem_operators.mp hloaded
  exact (hwords p hp).notPlain name hmem hplain

theorem Holds.keyword_loaded {keyword identifier : String}
    (hkeyword : l.keywords[keyword]? = some identifier) : identifier ∈ l.operators := by
  obtain ⟨p, hp, _, rfl⟩ := (h.keywords keyword identifier).mp hkeyword
  exact h.mem_operators.mpr ⟨p, hp, (hwords p hp).identifier_mem⟩

theorem Holds.leadsTo?_eq_some_iff {name identifier : String} (hplain : Plain name) :
    l.leadsTo? name = some identifier ↔ ∃ p ∈ words, p.name = name ∧ identifier = p.identifier := by
  rw [leadsTo?_of_keyword (h.not_mem_of_plain hwords hplain), Option.filter_eq_some_iff,
    ← h.keywords]
  refine and_iff_left_of_imp fun hkeyword => ?_
  exact Std.ExtTreeMap.contains_iff_mem.mpr (h.keyword_loaded hwords hkeyword)

theorem Holds.resolve?_name {p : Primitive} (hp : p ∈ words) (hplain : Plain p.name) :
    l.resolve? p.name = some (.primitive p) := by
  have hkeyword : l.keywords[p.name]? = some p.identifier :=
    (h.keywords _ _).mpr ⟨p, hp, rfl, rfl⟩
  have hloaded := Std.ExtTreeMap.getElem?_eq_some_getElem (h.keyword_loaded hwords hkeyword)
  have hidentifier := h.resolve?_identifier hp (hwords p hp).identifier_mem
  rw [resolve?, find?_of_loaded hloaded] at hidentifier
  rw [resolve?, find?_of_keyword (h.not_mem_of_plain hwords hplain), hkeyword,
    Option.bind_eq_bind, Option.bind_some, hloaded, hidentifier]

theorem Holds.resolve?_eq_none {name : String} (hplain : Plain name)
    (hname : ∀ p ∈ words, p.name ≠ name) : l.resolve? name = none := by
  rw [resolve?, find?_of_keyword (h.not_mem_of_plain hwords hplain)]
  cases hkeyword : l.keywords[name]? with
  | none => rfl
  | some identifier =>
      obtain ⟨p, hp, hsame, _⟩ := (h.keywords _ _).mp hkeyword
      exact absurd hsame (hname p hp)

/-- A keyword leads to the identifier that it would fall back to. -/
theorem Holds.lastNamed?_eq (hnames : (words.map (·.name)).Nodup) (keyword : String) :
    l.lastNamed? keyword = l.keywords[keyword]? := by
  refine Option.ext fun identifier => ?_
  rw [lastNamed?_eq_some_iff, h.keywords]
  constructor
  · rintro ⟨hloaded, hname, hgreatest⟩
    obtain ⟨p, hp, hmem⟩ := h.mem_operators.mp hloaded
    have hp' := hwords p hp
    have hname' : p.name = keyword := (hp'.named identifier hmem).symm.trans hname
    have hle : p.identifier ≤ identifier := hgreatest p.identifier
      (h.mem_operators.mpr ⟨p, hp, hp'.identifier_mem⟩)
      ((hp'.named p.identifier hp'.identifier_mem).trans hname')
    exact ⟨p, hp, hname', Std.le_antisymm (hp'.newest identifier hmem) hle⟩
  · rintro ⟨p, hp, rfl, rfl⟩
    have hp' := hwords p hp
    refine ⟨h.mem_operators.mpr ⟨p, hp, hp'.identifier_mem⟩, hp'.named _ hp'.identifier_mem, ?_⟩
    intro other hother hname
    obtain ⟨q, hq, hmem⟩ := h.mem_operators.mp hother
    have hsame : q = p :=
      List.inj_on_of_nodup_map hnames hq hp (((hwords q hq).named other hmem).symm.trans hname)
    rw [hsame] at hmem
    exact hp'.newest other hmem

end Lookup

end Library

/-! ## The standard words -/

namespace Standard

open Vocabulary (stack logic data math stream etc graph)

/-- The names of the standard words, by family. -/
def vocabulary : List (List String × List String) :=
  [ (stack, ["dup", "pop", "swap", "rotate", "rotated", "swons", "uncons", "i", "times"]),
    (logic, ["and", "or", "not", "true", "false"]),
    (data, ["equal", "compare", "gt", "lt", "to-integer", "to-double", "to-string"]),
    (math, ["add", "sub", "mul", "div", "neg", "sqrt", "sin", "asin", "cos", "acos", "cosh",
      "tanh"]),
    (stream, ["each", "unique"]),
    (etc, ["invert"]),
    (graph, ["links"]) ]

theorem words_identifiers : words.map (·.identifiers) =
    vocabulary.flatMap fun (namespaces, names) =>
      names.map (Vocabulary.identifiers namespaces) := rfl

theorem vocabulary_family {namespaces names : List String}
    (h : (namespaces, names) ∈ vocabulary) : Family namespaces :=
  Vocabulary.families namespaces (List.mem_map_of_mem (f := (·.1)) h)

theorem vocabulary_plain : ∀ entry ∈ vocabulary, ∀ name ∈ entry.2, Plain name := by decide

theorem vocabulary_nodup : (vocabulary.flatMap (·.2)).Nodup := by decide +kernel

theorem words_wellNamed : ∀ p ∈ words, p.WellNamed := by
  intro p hp
  have hmem : p.identifiers ∈ words.map (·.identifiers) := List.mem_map_of_mem hp
  rw [words_identifiers] at hmem
  obtain ⟨⟨namespaces, names⟩, hentry, hidentifiers⟩ := List.mem_flatMap.mp hmem
  obtain ⟨name, hname, heq⟩ := List.mem_map.mp hidentifiers
  exact Primitive.wellNamed (vocabulary_family hentry) (vocabulary_plain _ hentry name hname)
    heq.symm

theorem words_names : words.map (·.name) = vocabulary.flatMap (·.2) := by
  have hnames : words.map (·.name) =
      (words.map (·.identifiers)).map fun identifiers => localName (identifiers.headD "") := by
    rw [List.map_map]
    rfl
  rw [hnames, words_identifiers, List.map_flatMap]
  refine List.flatMap_congr fun ⟨namespaces, names⟩ hentry => ?_
  rw [List.map_map]
  refine (List.map_congr_left fun name hname => ?_).trans (List.map_id names)
  exact (vocabulary_family hentry).localName_newest (vocabulary_plain _ hentry name hname)

theorem words_names_nodup : (words.map (·.name)).Nodup := by
  rw [words_names]
  exact vocabulary_nodup

end Standard

theorem Library.standard_holds : Library.standard.Holds Standard.words := by
  obtain ⟨l, hl, hholds⟩ : ∃ l, Library.standard? = .ok l ∧ l.Holds Standard.words :=
    Library.registerAll_wellNamed Standard.words_wellNamed Standard.words_names_nodup
  rw [Library.standard, hl]
  exact hholds

/-- The words are named by the vocabulary, place by place. -/
theorem Standard.name_of_word {i : Nat} {name : String} {p : Primitive}
    (hname : (vocabulary.flatMap (·.2))[i]? = some name) (hp : words[i]? = some p) :
    p.name = name := by
  rw [← words_names, List.getElem?_map, hp] at hname
  simpa using hname

/-- A name in the vocabulary is looked up as the word at its place. -/
theorem Standard.resolve?_word {i : Nat} {name : String} {p : Primitive}
    (hname : (vocabulary.flatMap (·.2))[i]? = some name) (hp : words[i]? = some p) :
    Library.standard.resolve? name = some (.primitive p) := by
  have hmem : p ∈ words := List.mem_of_getElem? hp
  obtain rfl := name_of_word hname hp
  obtain ⟨entry, hentry, hplain⟩ := List.mem_flatMap.mp (List.mem_of_getElem? hname)
  exact Library.standard_holds.resolve?_name words_wellNamed hmem
    (vocabulary_plain entry hentry _ hplain)

end StackQuery
