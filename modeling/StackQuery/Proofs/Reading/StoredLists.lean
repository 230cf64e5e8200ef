import StackQuery.Proofs.Graph.Chains
import StackQuery.Proofs.Library.Standard
import StackQuery.Proofs.Solutions.Stepping
import StackQuery.Proofs.Streams.Runs

/-!
# Stored lists are read back

Reading the head of a stored list walks its chain, two questions for each node.
Every node has one first and one rest and the numbers of the nodes go down, so
the walk neither branches nor comes back to a node, and what it brings is the
list that was stored and nothing else.  The store may go on changing between
the questions.  A stored list is therefore also run as the program that it is.
-/

namespace StackQuery

open Vocabulary (storeNode rdfFirst rdfRest)

/-! ## Walking a chain -/

namespace ListReading

section Walk

variable {η : Type} {ask : η → Connection} {s : Store} {bound n : Nat} {head tail : String}
  {first : Value} {items : List Value}

theorem delivers_node (hfirst : ∀ moment, ask moment (storeNode n) rdfFirst = .found [first])
    (hrest : ∀ moment, ask moment (storeNode n) rdfRest = .found [.resource tail])
    (members : List Value) {visited : List String} (hvisited : storeNode n ∉ visited)
    (pending : List Branch) {steps : Nat} {result : Except EvalError (List Value)}
    {last : ListReading}
    (later : Delivers (fun moment => step (ask moment)) steps
      (.walk (⟨first :: members, .resource tail, storeNode n :: visited⟩ :: pending)) result last) :
    Delivers (fun moment => step (ask moment)) (steps + 2)
      (.walk (⟨members, .resource (storeNode n), visited⟩ :: pending)) result last := by
  let opened : Branch := ⟨members, .resource (storeNode n), storeNode n :: visited⟩
  have hopens (moment : η) :
      step (ask moment) (.walk (⟨members, .resource (storeNode n), visited⟩ :: pending)) =
        .working (.opened opened (storeNode n) [first] pending) := by
    simp [step, Vocabulary.isNil_storeNode, hvisited, hfirst moment, opened]
  have hwalks (moment : η) :
      step (ask moment) (.opened opened (storeNode n) [first] pending) =
        .working (.walk (⟨first :: members, .resource tail, storeNode n :: visited⟩ :: pending)) := by
    simp [step, hrest moment, Branch.open, opened]
  exact .working hopens (.working hwalks later)

/-- A branch that has walked only nodes from the bound on reads the chain to its end. -/
theorem delivers_spelled (h : s.Spells bound head items)
    (hask : ∀ moment n predicate, n < bound →
      ask moment (storeNode n) predicate = .found (s.objects (storeNode n) predicate))
    (members : List Value) (visited : List String)
    (hvisited : ∀ n, storeNode n ∈ visited → bound ≤ n) (pending : List Branch) :
    Delivers (fun moment => step (ask moment)) (2 * items.length + 1)
      (.walk (⟨members, .resource head, visited⟩ :: pending))
      (.ok (members.reverse ++ items)) (.walk pending) := by
  induction h generalizing members visited with
  | nil bound =>
      refine .item fun moment => ?_
      simp [step, Value.isNil, Branch.finish]
  | @cons bound n first tail items hn hfirst hrest _ ih =>
      have hnew : storeNode n ∉ visited := fun hmem => by
        have := hvisited n hmem
        omega
      have hwalked : ∀ m, storeNode m ∈ storeNode n :: visited → n ≤ m := by
        intro m hm
        rcases List.mem_cons.mp hm with hsame | hmem
        · have := Vocabulary.storeNode_inj.mp hsame
          omega
        · have := hvisited m hmem
          omega
      have hlater := ih (fun moment m predicate hm => hask moment m predicate (by omega))
        (first :: members) (storeNode n :: visited) hwalked
      refine delivers_node ?_ ?_ members hnew pending (by simpa using hlater)
      · exact fun moment => by rw [hask moment n _ hn, hfirst]
      · exact fun moment => by rw [hask moment n _ hn, hrest]

theorem delivers_ofValue (h : s.Spells bound head items)
    (hask : ∀ moment n predicate, n < bound →
      ask moment (storeNode n) predicate = .found (s.objects (storeNode n) predicate)) :
    ∃ last, last.isSpent = true ∧ Delivers (fun moment => step (ask moment))
      (2 * items.length + 1) (.ofValue (.resource head)) (.ok items) last := by
  have hwalk := delivers_spelled h hask [] [] (by simp) []
  cases h with
  | nil => exact ⟨.done, rfl, .item fun _ => rfl⟩
  | cons =>
      refine ⟨.walk [], rfl, ?_⟩
      simpa [ofValue, Vocabulary.isNil_storeNode] using hwalk

end Walk

end ListReading

/-! ## Running a program -/

theorem Standard.arity_of_run : ∀ p ∈ Standard.words, p.action = .run → p.arity = 1 := by decide

section Run

variable {η : Type} {ask : η → Connection} {l : Library}

theorem apply_run (l : Library) {p : Primitive} (haction : p.action = .run) (harity : p.arity = 1)
    (v : Value) (rest : Stack) :
    (Operator.primitive p).apply l (v :: rest) = .operators .run rest (.ofValue l v) := by
  simp [Operator.apply, Primitive.apply, haction, harity, Action.needsStream, takeArguments,
    Action.perform]

theorem alike_program_of_list (items : List Value) (rest : Stack) :
    Alike (fun moment => Solutions.step (.calm l (ask moment)))
      (fun moment => Solutions.step (.calm l (ask moment)))
      (.operators .run rest (.ofValue l (.list items)))
      ((Operator.program l items).apply l rest) := by
  refine .head (fun moment => ?_) (.refl _)
  simp [Solutions.step, OperatorReading.step, OperatorReading.ofValue, OperatorUse.respond,
    Solutions.andThen, Solutions.isSpent, OperatorReading.isSpent]

theorem alike_program_of_delivers {steps : Nat} {reading last : ListReading} {items : List Value}
    (h : Delivers (fun moment => ListReading.step (ask moment)) steps reading (.ok items) last)
    (hspent : last.isSpent = true) (rest : Stack) :
    Alike (fun moment => Solutions.step (.calm l (ask moment)))
      (fun moment => Solutions.step (.calm l (ask moment)))
      (.operators .run rest (.programs reading)) ((Operator.program l items).apply l rest) := by
  generalize hresult : Except.ok items = result at h
  induction h with
  | item h =>
      subst hresult
      refine .head (fun moment => ?_) (.refl _)
      simp [Solutions.step, Surroundings.calm, OperatorReading.step, h moment,
        OperatorReading.ofList, OperatorUse.respond, Solutions.andThen, Solutions.isSpent,
        OperatorReading.isSpent, hspent]
  | working h _ ih =>
      refine .head (fun moment => ?_) (ih hspent hresult)
      simp [Solutions.step, Surroundings.calm, OperatorReading.step, h moment]

end Run

/--
However the store was made, and however it is changed while it is read, the
head of a list stored in it denotes that list and nothing else.  Where the head
is not a name, running it brings from every stack what running the list brings.
-/
theorem stored_list_read_back (before : List Store.Change) (items : List Value) :
    let stored := ((Store.empty.after before).addList items).1
    let head := ((Store.empty.after before).addList items).2
    let ask (later : List Store.Change) := (stored.after later).connection
    (∀ moments : List (List Store.Change), moments.length = 2 * items.length + 1 →
      ∃ last, Runs (fun later => ListReading.step (ask later)) moments
          (.ofValue (.resource head)) [.ok items] last ∧
        ∀ ask, last.step ask = .ended) ∧
    ∀ l : Library, l.resolve? head = none → ∀ p ∈ Standard.words, p.action = .run → ∀ rest,
      Alike (fun later => Solutions.step (.calm l (ask later)))
        (fun later => Solutions.step (.calm l (ask later)))
        ((Operator.primitive p).apply l (.resource head :: rest))
        ((Operator.primitive p).apply l (.list items :: rest)) := by
  intro stored head ask
  obtain ⟨htidy, _, hspells⟩ := Store.addList_spells (Store.tidy_empty.after before).1 items
  have hask : ∀ later n predicate, n < stored.nodes →
      ask later (storeNode n) predicate = .found (stored.objects (storeNode n) predicate) :=
    fun later n predicate hn => congrArg Reply.found ((htidy.after later).2.objects n predicate hn)
  obtain ⟨last, hspent, hdelivers⟩ := ListReading.delivers_ofValue hspells hask
  constructor
  · intro moments hmoments
    exact ⟨last, hdelivers.runs moments hmoments, fun ask => ListReading.ended_of_isSpent hspent⟩
  · intro l hunnamed p hp hrun rest
    have harity := Standard.arity_of_run p hp hrun
    have hreads : OperatorReading.ofValue l (.resource head) =
        .programs (.ofValue (.resource head)) := by
      simp only [OperatorReading.ofValue, hunnamed]
    rw [apply_run l hrun harity, apply_run l hrun harity, hreads]
    exact (alike_program_of_delivers hdelivers hspent rest).trans
      (alike_program_of_list items rest).symm

/-- The store goes on changing while a program is read from it. -/
theorem stored_program_runs :
    let stored := ((Store.empty.after [.addList [.integer 7]]).addList
      [.integer 2, .resource "dup"]).1
    let head := Value.resource (storeNode 2)
    Library.standard.resolve? (storeNode 2) = none ∧
    (∃ last, Runs (fun later : List Store.Change => ListReading.step (stored.after later).connection)
      [[], [], [.addList [head]], [.addList [head]], [.addList [head]]] (.ofValue head)
      [.ok [.integer 2, .resource "dup"]] last ∧ ∀ ask, last.step ask = .ended) ∧
    ∃ p ∈ Standard.words, p.name = "i" ∧
      Alike (fun later => Solutions.step (.calm .standard (stored.after later).connection))
        (fun later => Solutions.step (.calm .standard (stored.after later).connection))
        ((Operator.primitive p).apply .standard [head])
        ((Operator.primitive p).apply .standard [.list [.integer 2, .resource "dup"]]) := by
  intro stored head
  have hnames : storeNode 2 ∉ Standard.words.map (·.name) := by
    rw [Standard.words_names]
    decide
  have hunnamed : Library.standard.resolve? (storeNode 2) = none :=
    Library.standard_holds.resolve?_eq_none Standard.words_wellNamed (by decide)
      fun p hp hname => hnames (List.mem_map.mpr ⟨p, hp, hname⟩)
  obtain ⟨p, hp, hname, hrun⟩ : ∃ p ∈ Standard.words, p.name = "i" ∧ p.action = .run := by
    decide +kernel
  obtain ⟨hreads, hruns⟩ := stored_list_read_back [.addList [.integer 7]]
    [.integer 2, .resource "dup"]
  exact ⟨hunnamed, hreads _ rfl, p, hp, hname, hruns .standard hunnamed p hp hrun []⟩

end StackQuery
