import StackQuery.Proofs.Reading.StoredLists
import StackQuery.Proofs.Session.DefinedNames

/-!
# What may stand for what in a query

A query brings what its operators bring, each applied to the whole stream that
the ones before it have left.  So a part of a query may be exchanged for another
one that makes the same of the stream that comes to it.  A defined word makes of
every stream what the tokens of its definition make of it, whatever they look
at.  A program that is pushed and run makes of every single stack what the
tokens in it make of it, and so the same of every stream, unless one of them
looks at the whole of it.
-/

namespace StackQuery

/-! ## Queries that come to the same -/

/-- Two queries come to streams that are alike, or to the same error before anything runs. -/
inductive Agree (l : Library) :
    Except EvalError Solutions → Except EvalError Solutions → Prop where
  | streams {a b : Solutions} (h : Solutions.Alike l a b) : Agree l (.ok a) (.ok b)
  | errors (error : EvalError) : Agree l (.error error) (.error error)

/-- What steps make of a stream, each applied to the whole stream that the ones before have left. -/
abbrev Operator.inOrder (steps : List Operator) (live : Solutions) : Solutions :=
  steps.foldl (fun live op => op.onStream live) live

variable {l : Library} {part part' pre post : List Token} {steps steps' : List Operator}
  {error : EvalError}

theorem evaluate_error (h : Token.operators l part = .error error) (ask : Connection)
    (stack : Stack) : evaluate (.calm l ask) part stack = .error error := by
  simp only [evaluate, Surroundings.calm_aborted, Surroundings.calm_library, Bool.false_eq_true,
    if_false, h]
  rfl

namespace Token

theorem operators_append (l : Library) (tokens more : List Token) :
    operators l (tokens ++ more) = (do
      let steps ← operators l tokens
      let later ← operators l more
      .ok (steps ++ later)) :=
  List.mapM_append

theorem operators_append_ok (h : operators l part = .ok steps)
    (h' : operators l part' = .ok steps') :
    operators l (part ++ part') = .ok (steps ++ steps') := by
  rw [operators_append, h, h']
  rfl

end Token

/-- A part of a query that makes the same of the stream that comes to it may take its place. -/
theorem agree_of_parts (h : Token.operators l part = .ok steps)
    (h' : Token.operators l part' = .ok steps') (pre post : List Token) (ask : Connection)
    (stack : Stack)
    (hsame : ∀ earlier, Token.operators l pre = .ok earlier →
      Solutions.Alike l (Operator.inOrder steps (Operator.inOrder earlier (.single stack)))
        (Operator.inOrder steps' (Operator.inOrder earlier (.single stack)))) :
    Agree l (evaluate (.calm l ask) (pre ++ part ++ post) stack)
      (evaluate (.calm l ask) (pre ++ part' ++ post) stack) := by
  cases hpre : Token.operators l pre with
  | error error =>
      have hfails (middle : List Token) :
          Token.operators l (pre ++ middle ++ post) = .error error := by
        rw [List.append_assoc, Token.operators_append, hpre]
        rfl
      rw [evaluate_error (hfails part), evaluate_error (hfails part')]
      exact .errors error
  | ok earlier =>
      have hmiddle := Token.operators_append_ok hpre h
      have hmiddle' := Token.operators_append_ok hpre h'
      cases hpost : Token.operators l post with
      | error error =>
          have hfails {middle : List Token} {all : List Operator}
              (hok : Token.operators l middle = .ok all) :
              Token.operators l (middle ++ post) = .error error := by
            rw [Token.operators_append, hok, hpost]
            rfl
          rw [evaluate_error (hfails hmiddle), evaluate_error (hfails hmiddle')]
          exact .errors error
      | ok after =>
          obtain ⟨live, hlive, halike⟩ := Operator.evaluate_of_operators
            (Token.operators_append_ok hmiddle hpost) ask stack
          obtain ⟨live', hlive', halike'⟩ := Operator.evaluate_of_operators
            (Token.operators_append_ok hmiddle' hpost) ask stack
          rw [hlive, hlive']
          refine .streams (halike.trans (.trans ?_ halike'.symm))
          rw [List.foldl_append, List.foldl_append, List.foldl_append, List.foldl_append]
          exact Operator.foldl_alike (fun op _ _ _ => Operator.onStream_alike op)
            (hsame earlier hpre)

/-! ## Defined words -/

theorem Token.operators_congr {l' : Library} {tokens : List Token}
    (h : ∀ name, .call name ∈ tokens → l.resolve? name = l'.resolve? name) :
    Token.operators l tokens = Token.operators l' tokens := by
  induction tokens with
  | nil => rfl
  | cons token rest ih =>
      have hrest := ih fun name hname => h name (List.mem_cons_of_mem token hname)
      have htoken : token.operator l = token.operator l' := by
        cases token with
        | push v => rfl
        | call name => rw [Token.operator, Token.operator, h name List.mem_cons_self]
      rw [Token.operators, Token.operators] at hrest ⊢
      rw [List.mapM_cons, List.mapM_cons, htoken, hrest]

/--
Wherever a defined word stands in a query, the tokens of its definition may
stand in its place, as long as the word leads to that definition and the names
in it lead where they led when it was made.
-/
theorem definition_inlined {before after : Session} {word text : String} {body : List Token}
    (hdefine : before.runDefine word body = .ok (after, text)) {l : Library}
    (hword : l.resolve? word = after.library.resolve? (Vocabulary.userIdentifier word))
    (hbody : ∀ name, .call name ∈ body → l.resolve? name = before.library.resolve? name)
    (pre post : List Token) (ask : Connection) (stack : Stack) :
    Agree l (evaluate (.calm l ask) (pre ++ [Token.call word] ++ post) stack)
      (evaluate (.calm l ask) (pre ++ body ++ post) stack) := by
  obtain ⟨op, hop, hbound⟩ := Session.runDefine_eq_ok hdefine
  obtain ⟨steps, source, hsteps, rfl⟩ := Session.operators_of_definitionOf hop
  have hbodySteps : Token.operators l body = .ok steps := (Token.operators_congr hbody).trans hsteps
  have hresolve : l.resolve? word = some (.composed steps source) := by
    obtain ⟨_, hbound', hoperators, _⟩ := Session.define_eq before word (.composed steps source)
    cases hbound'.symm.trans hbound
    have hloaded := hoperators (Vocabulary.userIdentifier word)
    rw [if_pos rfl] at hloaded
    rw [hword, Library.resolve?, Library.find?_of_loaded hloaded]
    rfl
  have hcall : Token.operators l [.call word] = .ok [.composed steps source] := by
    simp only [Token.operators, List.mapM_cons, List.mapM_nil, Token.operator, hresolve]
    rfl
  refine agree_of_parts hcall hbodySteps pre post ask stack fun earlier _ => ?_
  rw [Operator.inOrder, List.foldl_cons, List.foldl_nil, Operator.onStream]
  exact Operator.segmentsOnStream_alike_foldl steps [] _

/--
A plain word that has just been defined leads to its definition, and every other
plain name leads where it led before.
-/
theorem Session.Layered.runDefine {base : Library} {definition : String → Option Operator}
    {s : Session} {word : String} {body : List Token} {op : Operator} (hbase : base.Coverable)
    (h : s.Layered base definition) (hplain : Vocabulary.Plain word)
    (hop : definitionOf s.library body = .ok op) :
    ∃ defined text, s.runDefine word body = .ok (defined, text) ∧
      defined.library.resolve? word =
        defined.library.resolve? (Vocabulary.userIdentifier word) ∧
      ∀ other, Vocabulary.Plain other → word ≠ other →
        defined.library.resolve? other = s.library.resolve? other := by
  obtain ⟨defined, hdefine, hrun⟩ := runDefine_of_definitionOf hop word
  obtain ⟨_, hdefine', hlayered⟩ := Layered.define hplain h op
  cases hdefine'.symm.trans hdefine
  refine ⟨defined, _, hrun, ?_, fun other hother hne => ?_⟩
  · obtain ⟨loaded, hloaded, hoperator⟩ := Option.map_eq_some_iff.mp
      ((hlayered.defined word).trans (if_pos rfl))
    rw [hlayered.resolve?_of_some hbase hplain (if_pos rfl), Library.resolve?,
      Library.find?_of_loaded hloaded, Option.map_some, hoperator]
  · cases hdefinition : definition other with
    | some op' =>
        rw [h.resolve?_of_some hbase hother hdefinition,
          hlayered.resolve?_of_some hbase hother ((if_neg hne).trans hdefinition)]
    | none =>
        rw [Library.resolve?, Library.resolve?, (h.lookup_of_none hbase hother hdefinition).1,
          (hlayered.lookup_of_none hbase hother ((if_neg hne).trans hdefinition)).1]

/-- A word for all that is in a list, each but once, between a branch and an error. -/
theorem members_inlined :
    let body : List Token := [.call "each", .call "unique"]
    let list : Value := .list [.integer 1, .integer 2, .integer 1]
    let pre : List Token := [.push (.list [list, list]), .call "each"]
    let post : List Token := [.call "each"]
    ∃ defined text, Session.runDefine ⟨.standard, {}⟩ "members" body = .ok (defined, text) ∧
      defined.library.resolve? "members" =
        defined.library.resolve? (Vocabulary.userIdentifier "members") ∧
      (∀ name, .call name ∈ body →
        defined.library.resolve? name = Library.standard.resolve? name) ∧
      ∀ ask, Agree defined.library
        (evaluate (.calm defined.library ask) (pre ++ [Token.call "members"] ++ post) [])
        (evaluate (.calm defined.library ask) (pre ++ body ++ post) []) := by
  intro body list pre post
  -- The library is kept a variable while words are looked up in it.
  have hdefines (l : Library) (hl : l.Coverable) {each unique : Operator}
      (heach : l.resolve? "each" = some each) (hunique : l.resolve? "unique" = some unique) :
      ∃ defined text, Session.runDefine ⟨l, {}⟩ "members" body = .ok (defined, text) ∧
        defined.library.resolve? "members" =
          defined.library.resolve? (Vocabulary.userIdentifier "members") ∧
        (∀ name, .call name ∈ body → defined.library.resolve? name = l.resolve? name) ∧
        ∀ ask, Agree defined.library
          (evaluate (.calm defined.library ask) (pre ++ [Token.call "members"] ++ post) [])
          (evaluate (.calm defined.library ask) (pre ++ body ++ post) []) := by
    have hop : definitionOf l body =
        .ok (.composed [each, unique] (some [.operator each, .operator unique])) := by
      simp only [definitionOf, body, Token.operators, List.mapM_cons, List.mapM_nil,
        Token.operator, Token.value, heach, hunique]
      rfl
    have hplain : Vocabulary.Plain "members" := by decide
    obtain ⟨defined, text, hdefine, hword, hothers⟩ :=
      (Session.layered_start hl {}).runDefine hl hplain hop
    have hbody (name : String) (hname : .call name ∈ body) :
        defined.library.resolve? name = l.resolve? name := by
      obtain rfl | rfl : name = "each" ∨ name = "unique" := by simpa [body] using hname
      · exact hothers "each" (by decide) (by decide)
      · exact hothers "unique" (by decide) (by decide)
    exact ⟨defined, text, hdefine, hword, hbody, fun ask =>
      definition_inlined hdefine hword hbody _ _ ask []⟩
  exact hdefines .standard Library.standard_coverable
    (Standard.resolve?_word (i := 33) rfl rfl) (Standard.resolve?_word (i := 34) rfl rfl)

/-! ## Programs that are run -/

/-- How a token is written inside a program. -/
def Token.quoted : Token → Value
  | .push v => v
  | .call name => .resource name

/-- A program made of tokens is pushed, and run. -/
def Token.pushAndRun (body : List Token) : List Token :=
  [.push (.list (body.map quoted)), .call "i"]

/-- A program pushes the value: it is no operator, and no resource that names one. -/
def Value.IsData (l : Library) : Value → Prop
  | .operator _ => False
  | .resource identifier => l.resolve? identifier = none
  | _ => True

theorem ofMember_of_isData {v : Value} (h : v.IsData l) : Operator.ofMember l v = .constant v := by
  cases v with
  | operator op => exact h.elim
  | resource identifier =>
      simp only [Value.IsData] at h
      rw [Operator.ofMember, h, Option.getD_none]
  | _ => rfl

theorem ofMember_quoted {token : Token} {op : Operator} (h : token.operator l = .ok op)
    (hdata : ∀ v, token = .push v → v.IsData l) : Operator.ofMember l token.quoted = op := by
  cases token with
  | push v =>
      cases h
      exact ofMember_of_isData (hdata v rfl)
  | call name =>
      rw [Token.quoted, Operator.ofMember]
      cases hname : l.resolve? name with
      | none => simp [Token.operator, hname] at h
      | some found =>
          simp only [Token.operator, hname, Except.ok.injEq] at h
          rw [h, Option.getD_some]

/-- A program made of tokens has the operators of the tokens for its steps. -/
theorem program_quoted (h : Token.operators l part = .ok steps)
    (hdata : ∀ v, .push v ∈ part → v.IsData l) :
    Operator.program l (part.map Token.quoted) =
      .composed steps (some (part.map Token.quoted)) := by
  suffices hsteps : (part.map Token.quoted).map (Operator.ofMember l) = steps by
    rw [Operator.program, hsteps]
  induction part generalizing steps with
  | nil =>
      cases h
      rfl
  | cons token rest ih =>
      rw [Token.operators, List.mapM_cons] at h
      obtain ⟨op, hop, hlater⟩ := exists_of_bind_eq_ok h
      obtain ⟨later, hrest, hall⟩ := exists_of_bind_eq_ok hlater
      cases hall
      rw [List.map_cons, List.map_cons, ih hrest fun v hv => hdata v (List.mem_cons_of_mem _ hv),
        ofMember_quoted hop fun v hv => hdata v (hv ▸ List.mem_cons_self)]

/-! ### Single stacks -/

namespace Solutions

/-- A concatenation beside its first stream, and what is left of the two once that has ended. -/
inductive Closed : Nat → Solutions → Solutions → Prop where
  | before (first : Solutions) {second : Solutions}
      (h : ∀ s, step s second = .ended) : Closed 1 (.append first second) first
  | after {first second : Solutions} (h : ∀ s, step s second = .ended)
      (h' : ∀ s, step s first = .ended) : Closed 0 second first

theorem append_alike_of_ended {second : Solutions} (h : ∀ s, step s second = .ended)
    (first : Solutions) : Alike l (.append first second) first := by
  refine alike_of_meets (R := fun rank a b => Closed rank a b) ?_ 1 (.before first h)
  intro rank a b hclosed ask
  cases hclosed with
  | before first h =>
      cases hstep : step (.calm l ask) b with
      | item item next => exact .item (step_append_item hstep) hstep ⟨1, .before next h⟩
      | working next => exact .working (step_append_working hstep) hstep ⟨1, .before next h⟩
      | waiting => exact .waiting (step_append_waiting hstep) hstep
      | ended =>
          exact .left (step_append_ended hstep) Nat.zero_lt_one
            (.after h fun _ => ended_of_ended hstep)
  | after h h' => exact .ended (h _) (h' _)

/-- A value is pushed onto one stack, and an operator applied. -/
theorem through_pushing_single_alike (op : Operator) (v : Value) (stack : Stack) :
    Alike l (.through op (.pushing v (.single stack))) (op.apply l (v :: stack)) := by
  have hstep (ask : Connection) : step (.calm l ask) (.through op (.pushing v (.single stack))) =
      .working (.append (op.apply l (v :: stack)) (.through op (.pushing v .none))) := rfl
  exact .head hstep (append_alike_of_ended (fun s => rfl) _)

end Solutions

namespace Operator

theorem composed_apply_alike (steps : List Operator) (source : Option (List Value))
    (stack : Stack) :
    Solutions.Alike l ((Operator.composed steps source).apply l stack)
      (inOrder steps (.single stack)) := by
  rw [Operator.apply]
  exact segmentsOnStream_alike_foldl steps [] (.single stack)

/-- A program that is pushed onto a stack and run brings what its steps bring from the stack. -/
theorem push_run_alike {p : Primitive} (hrun : p.action = .run) (harity : p.arity = 1)
    {items : List Value} (hprogram : program l items = .composed steps (some items))
    (stack : Stack) :
    Solutions.Alike l
      (inOrder [.constant (.list items), .primitive p] (.single stack))
      (inOrder steps (.single stack)) := by
  rw [inOrder, List.foldl_cons, List.foldl_cons, List.foldl_nil, onStream, onStream,
    if_neg (by simp [hrun, Action.needsStream])]
  refine (Solutions.through_pushing_single_alike _ _ stack).trans ?_
  rw [apply_run l hrun harity]
  have hread : Solutions.Alike l (.operators .run stack (.ofValue l (.list items)))
      ((program l items).apply l stack) := alike_program_of_list items stack
  rw [hprogram] at hread
  exact hread.trans (composed_apply_alike steps _ stack)

/-! ### Whole streams -/

theorem foldl_alike_through (steps : List Operator) (hsteps : anyNeedsStream steps = false)
    (live : Solutions) :
    Solutions.Alike l (inOrder steps live) (.through (.composed steps none) live) := by
  refine .trans ?_ (onStream_alike_through (.composed steps none) live hsteps)
  rw [onStream]
  exact (segmentsOnStream_alike_foldl steps [] live).symm

/--
Steps that do not look at the whole stream make the same of every stream when
they make the same of single stacks.
-/
theorem foldl_alike_of_single (hsteps : anyNeedsStream steps = false)
    (hsteps' : anyNeedsStream steps' = false)
    (h : ∀ stack, Solutions.Alike l (inOrder steps (.single stack))
      (inOrder steps' (.single stack))) (live : Solutions) :
    Solutions.Alike l (inOrder steps live) (inOrder steps' live) := by
  refine (foldl_alike_through steps hsteps live).trans
    (.trans ?_ (foldl_alike_through steps' hsteps' live).symm)
  refine Solutions.AlikeOver.through (fun stack => ?_) (.refl live)
  exact (composed_apply_alike steps none stack).trans
    ((h stack).trans (composed_apply_alike steps' none stack).symm)

end Operator

/-! ### The standard word -/

theorem Standard.resolve?_i : ∃ p, Library.standard.resolve? "i" = some (.primitive p) ∧
    p.action = .run ∧ p.arity = 1 :=
  ⟨_, resolve?_word (i := 7) rfl rfl, rfl, rfl⟩

/--
Wherever the word for it has its standard meaning, a program made of tokens may
be pushed and run in place of the tokens at the beginning of a query, and
anywhere in it if none of them looks at the whole stream.  The names have to be
loaded, and what the tokens push must not be applied when it is met in a program.
-/
theorem program_run_in_place (hi : l.resolve? "i" = Library.standard.resolve? "i")
    {body : List Token} (hbody : Token.operators l body = .ok steps)
    (hdata : ∀ v, .push v ∈ body → v.IsData l) :
    (∀ (post : List Token) (ask : Connection) (stack : Stack),
      Agree l (evaluate (.calm l ask) (body ++ post) stack)
        (evaluate (.calm l ask) (Token.pushAndRun body ++ post) stack)) ∧
    (Operator.anyNeedsStream steps = false →
      ∀ (pre post : List Token) (ask : Connection) (stack : Stack),
        Agree l (evaluate (.calm l ask) (pre ++ body ++ post) stack)
          (evaluate (.calm l ask) (pre ++ Token.pushAndRun body ++ post) stack)) := by
  obtain ⟨p, hp, hrun, harity⟩ := Standard.resolve?_i
  have hprogram := program_quoted hbody hdata
  have hcall : Token.operators l (Token.pushAndRun body) =
      .ok [.constant (.list (body.map Token.quoted)), .primitive p] := by
    rw [hp] at hi
    simp only [Token.pushAndRun, Token.operators, List.mapM_cons, List.mapM_nil, Token.operator, hi]
    rfl
  have hsingle (stack : Stack) := (Operator.push_run_alike hrun harity hprogram stack).symm
  constructor
  · intro post ask stack
    refine agree_of_parts hbody hcall [] post ask stack fun earlier hearlier => ?_
    cases hearlier
    exact hsingle stack
  · intro hsteps pre post ask stack
    refine agree_of_parts hbody hcall pre post ask stack fun earlier _ => ?_
    refine Operator.foldl_alike_of_single hsteps ?_ hsingle _
    simp [Operator.anyNeedsStream, Operator.needsStream, hrun, Action.needsStream]

/-- A program that drops what comes twice, and one that is run on every branch. -/
theorem members_run_in_place :
    let list : Value := .list [.integer 1, .list [.resource "urn:a"], .integer 1]
    let whole : List Token := [.push list, .call "each", .call "unique"]
    let single : List Token := [.push list, .call "each", .call "swap"]
    let around : List Token := [.call "unique"]
    (∃ steps, Token.operators .standard whole = .ok steps) ∧
      (∃ steps, Token.operators .standard single = .ok steps ∧
        Operator.anyNeedsStream steps = false) ∧
      (∀ v, (.push v ∈ whole ∨ .push v ∈ single) → v.IsData .standard) ∧
      (∀ ask stack, Agree .standard (evaluate (.calm .standard ask) (whole ++ around) stack)
        (evaluate (.calm .standard ask) (Token.pushAndRun whole ++ around) stack)) ∧
      ∀ ask stack, Agree .standard
        (evaluate (.calm .standard ask) (around ++ single ++ around) stack)
        (evaluate (.calm .standard ask) (around ++ Token.pushAndRun single ++ around) stack) := by
  intro list whole single around
  obtain ⟨each, heach, hone⟩ : ∃ p, Library.standard.resolve? "each" = some (.primitive p) ∧
      p.action.needsStream = false := ⟨_, Standard.resolve?_word (i := 33) rfl rfl, rfl⟩
  obtain ⟨swap, hswap, hone'⟩ : ∃ p, Library.standard.resolve? "swap" = some (.primitive p) ∧
      p.action.needsStream = false := ⟨_, Standard.resolve?_word (i := 2) rfl rfl, rfl⟩
  obtain ⟨unique, hunique⟩ : ∃ p, Library.standard.resolve? "unique" = some (.primitive p) :=
    ⟨_, Standard.resolve?_word (i := 34) rfl rfl⟩
  have hsteps :
      Operator.anyNeedsStream [.constant list, .primitive each, .primitive swap] = false := by
    simp [Operator.anyNeedsStream, Operator.needsStream, hone, hone']
  -- The library is kept a variable while its words are looked up.
  have hruns (l : Library) (hi : l.resolve? "i" = Library.standard.resolve? "i")
      (heach : l.resolve? "each" = some (.primitive each))
      (hswap : l.resolve? "swap" = some (.primitive swap))
      (hunique : l.resolve? "unique" = some (.primitive unique)) :
      (∃ steps, Token.operators l whole = .ok steps) ∧
        (∃ steps, Token.operators l single = .ok steps ∧
          Operator.anyNeedsStream steps = false) ∧
        (∀ v, (.push v ∈ whole ∨ .push v ∈ single) → v.IsData l) ∧
        (∀ ask stack, Agree l (evaluate (.calm l ask) (whole ++ around) stack)
          (evaluate (.calm l ask) (Token.pushAndRun whole ++ around) stack)) ∧
        ∀ ask stack, Agree l (evaluate (.calm l ask) (around ++ single ++ around) stack)
          (evaluate (.calm l ask) (around ++ Token.pushAndRun single ++ around) stack) := by
    have hwhole : Token.operators l whole =
        .ok [.constant list, .primitive each, .primitive unique] := by
      simp only [whole, Token.operators, List.mapM_cons, List.mapM_nil, Token.operator, heach,
        hunique]
      rfl
    have hsingle : Token.operators l single =
        .ok [.constant list, .primitive each, .primitive swap] := by
      simp only [single, Token.operators, List.mapM_cons, List.mapM_nil, Token.operator, heach,
        hswap]
      rfl
    have hdata (v : Value) (hv : .push v ∈ whole ∨ .push v ∈ single) : v.IsData l := by
      obtain rfl : v = list := by simpa [whole, single] using hv
      exact True.intro
    have hatStart := program_run_in_place hi hwhole fun v hv => hdata v (.inl hv)
    have hanywhere := program_run_in_place hi hsingle fun v hv => hdata v (.inr hv)
    exact ⟨⟨_, hwhole⟩, ⟨_, hsingle, hsteps⟩, hdata, fun ask stack => hatStart.1 around ask stack,
      fun ask stack => hanywhere.2 hsteps around around ask stack⟩
  exact hruns .standard rfl heach hswap hunique

end StackQuery
