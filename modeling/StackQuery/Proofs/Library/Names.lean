import StackQuery.Session

/-!
# Names in namespaces

A namespace ends with a separator and a plain name has none, so that the local
name of an identifier put together from the two is the name itself.  In a
family of namespaces the newest one comes last in the order of text, and this
does not depend on the name that is added.
-/

namespace StackQuery

namespace Vocabulary

def Plain (name : String) : Prop := ∀ c ∈ name.toList, isSeparator c = false

instance (name : String) : Decidable (Plain name) :=
  List.decidableBAll (fun c => isSeparator c = false) name.toList

def IsNamespace (ns : String) : Prop := ns.toList.getLast?.any isSeparator = true

instance (ns : String) : Decidable (IsNamespace ns) :=
  inferInstanceAs (Decidable (ns.toList.getLast?.any isSeparator = true))

variable {ns older newer name identifier : String}

/-! ## Local names -/

theorem IsNamespace.ends (h : IsNamespace ns) :
    ∃ before separator, ns.toList = before ++ [separator] ∧ isSeparator separator = true := by
  cases hlast : ns.toList.getLast? with
  | none => simp [IsNamespace, hlast] at h
  | some separator =>
      obtain ⟨before, hbefore⟩ := List.getLast?_eq_some_iff.mp hlast
      exact ⟨before, separator, hbefore, by simpa [IsNamespace, hlast] using h⟩

theorem localName_append (hns : IsNamespace ns) (hname : Plain name) :
    localName (ns ++ name) = name := by
  obtain ⟨before, separator, hends, hseparator⟩ := hns.ends
  have hchars : ∀ c ∈ name.toList.reverse, (!isSeparator c) = true := by
    intro c hc
    rw [hname c (List.mem_reverse.mp hc)]
    rfl
  rw [localName, String.toList_append, hends, List.reverse_append,
    List.takeWhile_append_of_pos hchars, List.reverse_append]
  simp [hseparator]

theorem IsNamespace.not_plain (h : IsNamespace ns) (name : String) : ¬ Plain (ns ++ name) := by
  obtain ⟨before, separator, hends, hseparator⟩ := h.ends
  intro hplain
  have hmem : separator ∈ (ns ++ name).toList := by simp [hends]
  rw [hplain separator hmem] at hseparator
  cases hseparator

/-! ## Identifiers of definitions -/

theorem isNamespace_user : IsNamespace user := by decide

theorem localName_userIdentifier (hname : Plain name) : localName (userIdentifier name) = name :=
  localName_append isNamespace_user hname

theorem userIdentifier_inj {a b : String} : userIdentifier a = userIdentifier b ↔ a = b := by
  constructor
  · intro h
    have hchars := congrArg String.toList h
    rw [userIdentifier, userIdentifier, String.toList_append, String.toList_append,
      List.append_cancel_left_eq] at hchars
    exact String.toList_inj.mp hchars
  · rintro rfl
    rfl

theorem isUser_iff : isUser identifier = true ↔ ∃ name, identifier = userIdentifier name := by
  rw [isUser, List.isPrefixOf_iff_prefix]
  constructor
  · rintro ⟨rest, hrest⟩
    refine ⟨String.ofList rest, String.toList_inj.mp ?_⟩
    rw [userIdentifier, String.toList_append, String.toList_ofList, hrest]
  · rintro ⟨name, rfl⟩
    rw [userIdentifier, String.toList_append]
    exact List.prefix_append _ _

theorem isUser_userIdentifier (name : String) : isUser (userIdentifier name) = true :=
  isUser_iff.mpr ⟨name, rfl⟩

theorem userIdentifier_ne (h : isUser identifier = false) (name : String) :
    userIdentifier name ≠ identifier := by
  rintro rfl
  rw [isUser_userIdentifier] at h
  cases h

/-! ## Families -/

/-- The one text comes before the other, and not because it ends earlier. -/
def Precedes (older newer : String) : Prop :=
  older.toList < newer.toList ∧ ¬ older.toList <+: newer.toList

instance (older newer : String) : Decidable (Precedes older newer) :=
  inferInstanceAs (Decidable (older.toList < newer.toList ∧ ¬ older.toList <+: newer.toList))

private theorem lt_append {a b : List Char} (h : a < b) (hnot : ¬ a <+: b) (x y : List Char) :
    a ++ x < b ++ y := by
  induction h with
  | nil => exact absurd List.nil_prefix hnot
  | rel hlt => exact .rel hlt
  | cons _ ih =>
      exact .cons (ih fun hprefix => hnot (List.cons_prefix_cons.mpr ⟨rfl, hprefix⟩))

theorem Precedes.append (h : Precedes older newer) (a b : String) : older ++ a < newer ++ b := by
  rw [String.lt_iff, String.toList_append, String.toList_append]
  exact lt_append h.1 h.2 a.toList b.toList

/-- Namespaces listed newest first, of which none overlaps with the one of definitions. -/
structure Family (namespaces : List String) : Prop where
  nonempty : namespaces ≠ []
  ends : ∀ ns ∈ namespaces, IsNamespace ns
  apart : ∀ ns ∈ namespaces, ¬ user.toList <+: ns.toList ∧ ¬ ns.toList <+: user.toList
  newestFirst : namespaces.Pairwise fun newer older => Precedes older newer

instance (namespaces : List String) : Decidable (Family namespaces) :=
  decidable_of_iff
    (namespaces ≠ [] ∧ (∀ ns ∈ namespaces, IsNamespace ns) ∧
      (∀ ns ∈ namespaces, ¬ user.toList <+: ns.toList ∧ ¬ ns.toList <+: user.toList) ∧
      namespaces.Pairwise fun newer older => Precedes older newer)
    ⟨fun ⟨hnonempty, hends, hapart, hnewest⟩ => ⟨hnonempty, hends, hapart, hnewest⟩,
      fun h => ⟨h.nonempty, h.ends, h.apart, h.newestFirst⟩⟩

theorem Family.isUser_append {namespaces : List String} (h : Family namespaces)
    (hns : ns ∈ namespaces) (name : String) : isUser (ns ++ name) = false := by
  rw [Bool.eq_false_iff, isUser, Ne, List.isPrefixOf_iff_prefix, String.toList_append]
  intro hprefix
  rcases List.prefix_or_prefix_of_prefix hprefix (List.prefix_append _ _) with hin | hout
  · exact (h.apart ns hns).1 hin
  · exact (h.apart ns hns).2 hout

theorem Family.localName_newest {namespaces : List String} (h : Family namespaces)
    (hplain : Plain name) : localName ((identifiers namespaces name).headD "") = name := by
  cases namespaces with
  | nil => exact absurd rfl h.nonempty
  | cons newest older => exact localName_append (h.ends newest List.mem_cons_self) hplain

theorem families : ∀ family ∈ [stack, logic, data, math, stream, etc, graph], Family family := by
  decide +kernel

end Vocabulary

end StackQuery
