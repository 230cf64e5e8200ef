import StackQuery.Proofs.Command.Outcomes
import StackQuery.Proofs.Line.Names
import StackQuery.Proofs.Operator.DepthFirst
import StackQuery.Proofs.Session.Layers

/-!
# Names that are defined

A definition binds its name as a keyword.  Every identifier in a session that
started with the standard library has a separator in it, whatever has been
defined and taken away since, so a plain name is never an identifier and is
looked up as a keyword.  A plain name that has just been defined is therefore
called as it was defined, and taken away by its name.
-/

namespace StackQuery

open Vocabulary (Plain userIdentifier isUser)

namespace Session

variable {s left : Session} {name identifier text : String} {op : Operator} {tokens : List Token}

/-! ## Plain names are only keywords -/

/-- No plain name is loaded as an identifier, so nothing stands before a keyword. -/
def KeywordsFree (s : Session) : Prop := ∀ identifier ∈ s.library.operators, ¬ Plain identifier

theorem define_eq (s : Session) (name : String) (op : Operator) :
    ∃ left, s.define name op = .ok (left, userIdentifier name) ∧
      (∀ identifier, left.library.operators[identifier]? =
        if userIdentifier name = identifier then some ⟨op, s.library.registrations⟩
        else s.library.operators[identifier]?) ∧
      (Plain name → left.library.keywords[name]? = some (userIdentifier name)) := by
  refine ⟨_, rfl, fun identifier => Library.operators_bind _ _ _ _ _ identifier, fun hplain => ?_⟩
  exact (Library.keywords_bind _ _ _ _ _ name).trans
    (if_pos ⟨Vocabulary.localName_userIdentifier hplain, .inr ⟨rfl, rfl⟩⟩)

theorem undefine_eq (hleads : s.library.leadsTo? name = some identifier)
    (huser : isUser identifier = true) :
    ∃ left, s.undefine name = .ok (left, identifier) ∧
      left.library.operators = s.library.operators.erase identifier := by
  have hmem := Library.mem_of_leadsTo? hleads
  obtain ⟨l, hunregister, hoperators, _⟩ := Library.unregister_eq
    (Library.leadsTo?_of_loaded hmem) (Std.ExtTreeMap.getElem?_eq_some_getElem hmem)
  refine ⟨{ s with library := l }, ?_, hoperators⟩
  simp only [undefine, hleads, huser, if_true, hunregister]

theorem KeywordsFree.define (h : s.KeywordsFree) (hdefine : s.define name op = .ok (left, identifier)) :
    left.KeywordsFree := by
  obtain ⟨left', hdefine', hoperators, _⟩ := define_eq s name op
  cases hdefine'.symm.trans hdefine
  intro other hother
  rw [Std.ExtTreeMap.mem_iff_isSome_getElem?, hoperators] at hother
  by_cases hnew : userIdentifier name = other
  · subst hnew
    exact Vocabulary.isNamespace_user.not_plain name
  · rw [if_neg hnew, ← Std.ExtTreeMap.mem_iff_isSome_getElem?] at hother
    exact h other hother

theorem KeywordsFree.undefine (h : s.KeywordsFree)
    (hundefine : s.undefine name = .ok (left, identifier)) : left.KeywordsFree := by
  cases hleads : s.library.leadsTo? name with
  | none =>
      rw [Session.undefine, hleads] at hundefine
      cases hundefine
  | some found =>
      cases huser : isUser found with
      | false =>
          simp only [Session.undefine, hleads, huser] at hundefine
          cases hundefine
      | true =>
          obtain ⟨left', hundefine', hoperators⟩ := undefine_eq hleads huser
          cases hundefine'.symm.trans hundefine
          intro other hother
          rw [hoperators, Std.ExtTreeMap.mem_erase] at hother
          exact h other hother.2

theorem KeywordsFree.call (h : s.KeywordsFree) (call : Call) : (s.call call).1.KeywordsFree := by
  cases call with
  | define name op =>
      rw [Session.call]
      cases hdefine : s.define name op with
      | ok result => exact h.define hdefine
      | error error => exact h
  | undefine name =>
      rw [Session.call]
      cases hundefine : s.undefine name with
      | ok result => exact h.undefine hundefine
      | error error => exact h

theorem keywordsFree_after (config : Config) (calls : List Call) :
    ((Session.standard config).after calls).KeywordsFree := by
  induction calls using List.reverseRecOn with
  | nil => exact Library.standard_coverable.notPlain
  | append_singleton calls call ih =>
      rw [after_append]
      exact ih.call call

/-! ## Names that are bound -/

/-- A call of the name applies the operator, and the definition can be taken away by its name. -/
structure Binds (s : Session) (name : String) (op : Operator) : Prop where
  loaded : s.library.operators[userIdentifier name]?.map (·.operator) = some op
  applies : ∀ (ask : Connection) (stack : Stack), ∃ live,
    evaluate (.calm s.library ask) [.call name] stack = .ok live ∧
      Solutions.Alike s.library live (op.apply s.library stack)
  removed : ∃ left, s.undefine name = .ok (left, userIdentifier name) ∧
    left.library.operators = s.library.operators.erase (userIdentifier name)

theorem evaluate_call {l : Library} {steps : List Operator} {source : Option (List Value)}
    (h : l.resolve? name = some (.composed steps source)) (ask : Connection) (stack : Stack) :
    ∃ live, evaluate (.calm l ask) [.call name] stack = .ok live ∧
      Solutions.Alike l live ((Operator.composed steps source).apply l stack) := by
  have hoperators : Token.operators l [.call name] = .ok [.composed steps source] := by
    simp only [Token.operators, List.mapM_cons, List.mapM_nil, Token.operator, h]
    rfl
  have happly : (Operator.composed steps source).apply l stack =
      (Operator.composed steps source).onStream (.single stack) := by
    rw [Operator.apply, Operator.onStream]
    rfl
  rw [happly]
  exact Operator.evaluate_of_operators hoperators ask stack

theorem KeywordsFree.binds {steps : List Operator} {source : Option (List Value)}
    (h : s.KeywordsFree) (hplain : Plain name)
    (hdefine : s.define name (.composed steps source) = .ok (left, identifier)) :
    left.Binds name (.composed steps source) := by
  have hfree := h.define hdefine
  obtain ⟨left', hdefine', hoperators, hkeyword⟩ := define_eq s name (.composed steps source)
  cases hdefine'.symm.trans hdefine
  have hloaded := hoperators (userIdentifier name)
  rw [if_pos rfl] at hloaded
  have hname : name ∉ left.library.operators := fun hmem => hfree name hmem hplain
  have hmem : userIdentifier name ∈ left.library.operators := by
    rw [Std.ExtTreeMap.mem_iff_isSome_getElem?, hloaded]
    rfl
  refine ⟨by rw [hloaded]; rfl, evaluate_call ?_, undefine_eq ?_ (Vocabulary.isUser_userIdentifier name)⟩
  · rw [Library.resolve?, Library.find?_of_keyword hname, hkeyword hplain]
    simp [hloaded]
  · rw [Library.leadsTo?_of_keyword hname, hkeyword hplain, Option.filter_some,
      if_pos (Std.ExtTreeMap.contains_iff_mem.mpr hmem)]

/-! ## Definitions that complete -/

theorem operators_of_definitionOf {l : Library} (h : definitionOf l tokens = .ok op) :
    ∃ steps source, Token.operators l tokens = .ok steps ∧ op = .composed steps source := by
  obtain ⟨steps, hsteps, hrest⟩ := exists_of_bind_eq_ok h
  obtain ⟨source, _, hop⟩ := exists_of_bind_eq_ok hrest
  cases hop
  exact ⟨steps, some source, hsteps, rfl⟩

theorem definitionOf_eq_ok {l : Library} (h : definitionOf l tokens = .ok op) :
    ∃ steps source, op = .composed steps source := by
  obtain ⟨steps, source, _, hop⟩ := operators_of_definitionOf h
  exact ⟨steps, source, hop⟩

theorem runDefine_eq_ok (h : s.runDefine name tokens = .ok (left, text)) :
    ∃ op, definitionOf s.library tokens = .ok op ∧
      s.define name op = .ok (left, userIdentifier name) := by
  obtain ⟨op, hop, hrest⟩ := exists_of_bind_eq_ok h
  obtain ⟨⟨defined, identifier⟩, hdefine, hlast⟩ := exists_of_bind_eq_ok hrest
  obtain ⟨_, hdefine', _⟩ := define_eq s name op
  cases hlast
  cases hdefine'.symm.trans hdefine
  exact ⟨op, hop, hdefine⟩

theorem runDefine_of_definitionOf (h : definitionOf s.library tokens = .ok op) (name : String) :
    ∃ left, s.define name op = .ok (left, userIdentifier name) ∧
      s.runDefine name tokens = .ok (left, bindingText name op) := by
  obtain ⟨left, hdefine, _⟩ := define_eq s name op
  refine ⟨left, hdefine, ?_⟩
  rw [runDefine, h]
  change (s.define name op >>= fun made => Except.ok (made.1, bindingText name op)) = _
  rw [hdefine]
  rfl

theorem runDefine_of_completes {σ : Type} {services : Services σ} {id : CommandId} {w w' : World σ}
    (h : (Command.behaviour services).Completes id (.define name tokens) .ready w (.ok ()) w') :
    ∃ text, w.session.runDefine name tokens = .ok (w'.session, text) := by
  have hstep : (Command.behaviour services).step id (.define name tokens) .ready w =
    w.announce (w.session.runDefine name tokens) := rfl
  cases hmade : w.session.runDefine name tokens with
  | error error =>
      rw [hmade] at hstep
      cases h with
      | returns hreturned => cases hstep.symm.trans hreturned
      | works hworking => cases hstep.symm.trans hworking
  | ok made =>
      rw [hmade] at hstep
      cases h with
      | returns hreturned => cases hstep.symm.trans hreturned
      | works hworking later =>
          cases hstep.symm.trans hworking
          cases later with
          | returns hreturned =>
              obtain ⟨_, rfl⟩ := Activity.returned.inj hreturned
              exact ⟨_, rfl⟩
          | works hworking => cases hworking

/-- A definition of names that are loaded completes, unless its message is refused. -/
theorem exists_completes {σ : Type} {services : Services σ} (haccepts : services.sink.Accepts)
    (id : CommandId) (w : World σ) (name : String)
    (h : definitionOf w.session.library tokens = .ok op) :
    ∃ w', (Command.behaviour services).Completes id (.define name tokens) .ready w (.ok ()) w' := by
  obtain ⟨left, _, hrun⟩ := runDefine_of_definitionOf h name
  have hstep : (Command.behaviour services).step id (.define name tokens) .ready w =
      w.announce (w.session.runDefine name tokens) := rfl
  rw [hrun] at hstep
  exact ⟨_, .works hstep (.returns (putLast_of_accepts haccepts _ _))⟩

/--
The name of a definition is read as a call of itself just when it is one word,
no number, no identifier between angle brackets and no full stop.  Once a
definition of a plain name has completed in a session that started with the
standard library, calls of the name apply what has just been defined, and the
name takes it away again.
-/
theorem definition_called_and_removed (config : Config) (calls : List Call) {line name : String}
    {tokens : List Token} (hline : Statement.read line = .ok (.define name tokens)) :
    (Token.read name = .ok [.call name] ↔
      (∀ c ∈ name.toList, c ≠ '(' ∧ c ≠ ')' ∧ c ≠ '"') ∧ (∀ n, ¬ Numeral name.toList n) ∧
        (∀ identifier, name.toList ≠ '<' :: (identifier ++ ['>'])) ∧ name ≠ ".") ∧
      ∀ {σ : Type} (services : Services σ) (id : CommandId) (w w' : World σ),
        w.session = (Session.standard config).after calls →
        (Command.behaviour services).Completes id (.define name tokens) .ready w (.ok ()) w' →
        Plain name →
        ∃ op, definitionOf w.session.library tokens = .ok op ∧ w'.session.Binds name op := by
  obtain ⟨hnonempty, hblank⟩ := Statement.name_of_read_define hline
  refine ⟨Token.read_eq_call_iff hnonempty hblank, fun services id w w' hw hcompletes hplain => ?_⟩
  obtain ⟨_, hrun⟩ := runDefine_of_completes hcompletes
  obtain ⟨op, hop, hdefine⟩ := runDefine_eq_ok hrun
  obtain ⟨steps, source, rfl⟩ := definitionOf_eq_ok hop
  have hfree : w.session.KeywordsFree := hw ▸ keywordsFree_after config calls
  exact ⟨_, hop, hfree.binds hplain hdefine⟩

/-- A name that begins as a number, over an older definition of the same local name. -/
theorem number_like_name_called_and_removed :
    let services : Services (List Event) :=
      ⟨⟨fun events event => (events ++ [event], .ok ())⟩, fun _ _ => .found [], none⟩
    let calls : List Call := [.define "old/2x" (.constant (.integer 0)), .undefine "dup"]
    let tokens : List Token := [.push (.list [.resource "dup"]), .push (.integer 2)]
    let w : World (List Event) := ⟨(Session.standard {}).after calls, [], .closed⟩
    Statement.read "@define 2x: (dup) 2" = .ok (.define "2x" tokens) ∧
      Token.read "2x" = .ok [.call "2x"] ∧ Plain "2x" ∧
      ∃ w', (Command.behaviour services).Completes 1 (.define "2x" tokens) .ready w (.ok ()) w' ∧
        ∃ op, definitionOf w.session.library tokens = .ok op ∧ w'.session.Binds "2x" op := by
  intro services calls tokens w
  have hline : Statement.read "@define 2x: (dup) 2" = .ok (.define "2x" tokens) := rfl
  have hplain : Plain "2x" := by decide
  have hop (l : Library) : definitionOf l tokens = .ok (.composed
      [.constant (.list [.resource "dup"]), .constant (.integer 2)]
      (some [.list [.resource "dup"], .integer 2])) := rfl
  have haccepts : services.sink.Accepts := fun _ _ => rfl
  obtain ⟨w', hcompletes⟩ := exists_completes haccepts 1 w "2x" (hop _)
  have hsession : w.session = (Session.standard {}).after calls := by simp only [w]
  have hcalled := definition_called_and_removed {} calls hline
  have hread : Token.read "2x" = .ok [.call "2x"] := rfl
  have hbound := hcalled.2 services 1 w w' hsession hcompletes hplain
  exact ⟨hline, hread, hplain, w', hcompletes, hbound⟩

/-- A number can be defined, but it is read as the number that it is. -/
theorem number_defined_and_not_called :
    let services : Services (List Event) :=
      ⟨⟨fun events event => (events ++ [event], .ok ())⟩, fun _ _ => .found [], none⟩
    let w : World (List Event) := ⟨Session.standard {}, [], .closed⟩
    Statement.read "@define 2: 7" = .ok (.define "2" [.push (.integer 7)]) ∧
      (∃ w', (Command.behaviour services).Completes 1 (.define "2" [.push (.integer 7)]) .ready w
        (.ok ()) w') ∧
      Token.read "2" = .ok [.push (.integer 2)] ∧ Token.read "2" ≠ .ok [.call "2"] := by
  intro services w
  have hop : definitionOf w.session.library [.push (.integer 7)] =
      .ok (.composed [.constant (.integer 7)] (some [.integer 7])) := rfl
  have hread : Token.read "2" = .ok [.push (.integer 2)] := rfl
  refine ⟨rfl, exists_completes (fun _ _ => rfl) 1 w "2" hop, hread, ?_⟩
  rw [hread]
  simp

end Session

end StackQuery
