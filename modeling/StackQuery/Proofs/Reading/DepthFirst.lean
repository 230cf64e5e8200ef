import StackQuery.Proofs.Solutions.Stepping
import StackQuery.Proofs.Streams.Runs

/-!
# Lists in the graph are read depth first

The lists that a value denotes are given by a recursion: a node has, for every
pair of a first and a rest, the lists of the rest with the first before them.
In a graph without end the recursion may go on for ever, so it is cut off at a
depth, and what lies deeper leaves a gap.  The walk, which keeps branches on a
stack of its own, brings just what the recursion finds before its first gap,
in the same order and with the errors in the same places, whatever the depth.
-/

namespace StackQuery

/-! ## What a store says -/

/-- The graph behind a store: what it says to every question, whenever it says it. -/
abbrev Graph := String → String → Except StoreError (List Value)

def Reply.ofAnswer : Except StoreError (List Value) → Reply
  | .ok objects => .found objects
  | .error error => .failed error

namespace Graph

def atOnce (graph : Graph) : Connection := fun subject predicate =>
  .ofAnswer (graph subject predicate)

/-- At this moment the store gives its answers, or has not given them yet. -/
def HeldTo (graph : Graph) (ask : Connection) : Prop :=
  ∀ subject predicate, ask subject predicate = .waiting ∨
    ask subject predicate = graph.atOnce subject predicate

/-- The pairs of a first and a rest that a node has, or why it does not lead on to a list. -/
def cells (graph : Graph) (node : String) : Except EvalError (List (Value × Value)) := do
  let firsts ← (graph node Vocabulary.rdfFirst).mapError .store
  let rests ← (graph node Vocabulary.rdfRest).mapError .store
  if firsts.isEmpty || rests.isEmpty then .error (ListReading.notAList node)
  else .ok (firsts.flatMap fun first => rests.map fun rest => (first, rest))

end Graph

namespace Graph

variable {graph : Graph} {node : String} {firsts rests : List Value}

/-- The answer to a question, if there is one, is that of the graph, or it has not been given. -/
theorem HeldTo.waits_or_answers {ask : Connection} (h : graph.HeldTo ask)
    (question : Option (String × String)) :
    (∃ subject predicate, question = some (subject, predicate) ∧
      ask subject predicate = .waiting) ∨
      ∀ subject predicate, question = some (subject, predicate) →
        ask subject predicate = graph.atOnce subject predicate := by
  cases question with
  | none => exact .inr (by simp)
  | some question =>
      obtain ⟨subject, predicate⟩ := question
      rcases h subject predicate with hwaiting | hsame
      · exact .inl ⟨subject, predicate, rfl, hwaiting⟩
      · right
        intro subject' predicate' hquestion
        cases hquestion
        exact hsame

theorem cells_of_no_firsts {error : StoreError}
    (h : graph node Vocabulary.rdfFirst = .error error) :
    graph.cells node = .error (.store error) := by
  rw [cells, h]
  rfl

theorem cells_of_no_rests {error : StoreError}
    (hfirsts : graph node Vocabulary.rdfFirst = .ok firsts)
    (h : graph node Vocabulary.rdfRest = .error error) :
    graph.cells node = .error (.store error) := by
  rw [cells, hfirsts, h]
  rfl

theorem cells_of_found (hfirsts : graph node Vocabulary.rdfFirst = .ok firsts)
    (hrests : graph node Vocabulary.rdfRest = .ok rests) :
    graph.cells node =
      if firsts.isEmpty || rests.isEmpty then .error (ListReading.notAList node)
      else .ok (firsts.flatMap fun first => rests.map fun rest => (first, rest)) := by
  rw [cells, hfirsts, hrests]
  rfl

end Graph

/-! ## The recursive reading -/

/-- A list or an error; nothing stands for what lies too deep to be seen. -/
abbrev Sight := Option (Except EvalError (List Value))

def Sight.prepend (first : Value) : Sight → Sight := Option.map (Except.map (first :: ·))

/-- The lists of a value, once some nodes have been walked, with all that lies at most so deep. -/
def Value.listsWithin (graph : Graph) : Nat → List String → Value → List Sight
  | 0, _, _ => [none]
  | _ + 1, _, .list tail => [some (.ok tail)]
  | depth + 1, walked, .resource node =>
      if Value.isNil node then [some (.ok [])]
      else if node ∈ walked then [some (.error (ListReading.notAList node))]
      else match graph.cells node with
        | .error error => [some (.error error)]
        | .ok cells => cells.flatMap fun (first, rest) =>
            (rest.listsWithin graph depth (node :: walked)).map (Sight.prepend first)
  | _ + 1, _, v => [some (.error (.coercion v.print .list))]

/-- All that is seen before the first gap. -/
def Sight.known : List Sight → List (Except EvalError (List Value))
  | some result :: rest => result :: known rest
  | _ => []

namespace Sight

variable {sights rest : List Sight}

theorem known_append_of_gap (h : none ∈ sights) : known (sights ++ rest) = known sights := by
  induction sights with
  | nil => simp at h
  | cons sight sights ih =>
      cases sight with
      | none => rfl
      | some result => simpa [known] using ih (by simpa using h)

theorem known_append_of_whole (h : none ∉ sights) :
    known (sights ++ rest) = known sights ++ known rest := by
  induction sights with
  | nil => rfl
  | cons sight sights ih =>
      cases sight with
      | none => simp at h
      | some result => simpa [known] using ih (by simpa using h)

theorem map_known (h : none ∉ sights) : (known sights).map some = sights := by
  induction sights with
  | nil => rfl
  | cons sight sights ih =>
      cases sight with
      | none => simp at h
      | some result => simpa [known] using ih (by simpa using h)

end Sight

/-! ## What is asked of the store -/

namespace ListReading

/-- The question, if any, that the next step puts to the store. -/
def question? : ListReading → Option (String × String)
  | .walk (b :: _) => match b.rest with
      | .resource node =>
          if Value.isNil node || b.visited.contains node then none
          else some (node, Vocabulary.rdfFirst)
      | _ => none
  | .opened _ node _ _ => some (node, Vocabulary.rdfRest)
  | _ => none

theorem step_of_waiting {ask : Connection} {reading : ListReading} {subject predicate : String}
    (hquestion : reading.question? = some (subject, predicate))
    (h : ask subject predicate = .waiting) : reading.step ask = .waiting := by
  fun_cases question? reading <;> simp_all [question?, step]

theorem step_congr {ask ask' : Connection} (reading : ListReading)
    (h : ∀ subject predicate, reading.question? = some (subject, predicate) →
      ask subject predicate = ask' subject predicate) : reading.step ask = reading.step ask' := by
  cases reading with
  | done => rfl
  | once result => rfl
  | walk pending =>
      cases pending with
      | nil => rfl
      | cons b pending =>
          cases hrest : b.rest with
          | resource node =>
              cases hnil : Value.isNil node with
              | true => simp [step, hrest, hnil]
              | false =>
                  cases hwalked : b.visited.contains node with
                  | true => simp only [step, hrest, hnil, hwalked, if_true]
                  | false =>
                      have hasked : (ListReading.walk (b :: pending)).question? =
                          some (node, Vocabulary.rdfFirst) := by
                        simp only [question?, hrest, hnil, hwalked, Bool.or_self,
                          Bool.false_eq_true, if_false]
                      have hsame := h node Vocabulary.rdfFirst hasked
                      simp only [step, hrest, hnil, hwalked, hsame]
          | _ => simp [step, hrest]
  | opened b node firsts pending => simp only [step, h node Vocabulary.rdfRest rfl]

theorem step_of_heldTo {graph : Graph} {ask : Connection} (reading : ListReading)
    (h : graph.HeldTo ask) :
    reading.step ask = .waiting ∨ reading.step ask = reading.step graph.atOnce := by
  rcases h.waits_or_answers reading.question? with ⟨_, _, hquestion, hwaiting⟩ | hsame
  · exact .inl (step_of_waiting hquestion hwaiting)
  · exact .inr (reading.step_congr hsame)

end ListReading

/-! ## Covering what is in sight -/

namespace ListReading

variable {graph : Graph} {depth : Nat} {reading next last : ListReading}
  {sights rest : List Sight}

/--
The reading brings what is known of some sights.  Without a gap it is then done
with them, and with one it has gone as deep as that and has not come to an end.
-/
def Covers (graph : Graph) (depth : Nat) (reading : ListReading) (sights : List Sight)
    (next : ListReading) : Prop :=
  ∃ steps left, Runs ListReading.step (List.replicate steps graph.atOnce) reading
      (Sight.known sights) left ∧
    (none ∉ sights → left = next) ∧ (none ∈ sights → depth ≤ steps ∧ left.isSpent = false)

theorem Covers.refl (reading : ListReading) : Covers graph depth reading [] reading :=
  ⟨0, reading, .refl _, fun _ => rfl, by simp⟩

theorem Covers.item {result : Except EvalError (List Value)}
    (h : reading.step graph.atOnce = .item result next) :
    Covers graph depth reading [some result] next :=
  ⟨1, next, .item h (.refl _), fun _ => rfl, by simp⟩

theorem Covers.working (h : reading.step graph.atOnce = .working next)
    (later : Covers graph depth next sights last) :
    Covers graph (depth + 1) reading sights last := by
  obtain ⟨steps, left, hruns, hwhole, hgap⟩ := later
  refine ⟨steps + 1, left, .working h hruns, hwhole, fun hnone => ?_⟩
  obtain ⟨hdepth, hgoing⟩ := hgap hnone
  exact ⟨by omega, hgoing⟩

theorem Covers.mono {less : Nat} (hle : less ≤ depth)
    (h : Covers graph depth reading sights next) : Covers graph less reading sights next := by
  obtain ⟨steps, left, hruns, hwhole, hgap⟩ := h
  refine ⟨steps, left, hruns, hwhole, fun hnone => ?_⟩
  obtain ⟨hdepth, hgoing⟩ := hgap hnone
  exact ⟨by omega, hgoing⟩

theorem Covers.append (h : Covers graph depth reading sights next)
    (later : Covers graph depth next rest last) :
    Covers graph depth reading (sights ++ rest) last := by
  obtain ⟨steps, left, hruns, hwhole, hgap⟩ := h
  by_cases hnone : none ∈ sights
  · refine ⟨steps, left, ?_, ?_, fun _ => hgap hnone⟩
    · rwa [Sight.known_append_of_gap hnone]
    · intro hwhole
      simp [hnone] at hwhole
  · obtain ⟨more, left', hlater, hwhole', hgap'⟩ := later
    have hleft := hwhole hnone
    subst hleft
    refine ⟨steps + more, left', ?_, ?_, ?_⟩
    · rw [Sight.known_append_of_whole hnone, ← List.replicate_append_replicate]
      exact hruns.trans hlater
    · intro hrest
      exact hwhole' (by simpa [hnone] using hrest)
    · intro hrest
      obtain ⟨hdepth, hgoing⟩ := hgap' (by simpa [hnone] using hrest)
      exact ⟨by omega, hgoing⟩

end ListReading

/-! ## Branches -/

variable {graph : Graph} {depth : Nat}

namespace Branch

/-- What a branch that is still to be walked has in sight. -/
def listsWithin (graph : Graph) (depth : Nat) (b : Branch) : List Sight :=
  (b.rest.listsWithin graph depth b.visited).map (Option.map (Except.map b.finish))

theorem listsWithin_zero (b : Branch) : b.listsWithin graph 0 = [none] := by
  simp [listsWithin, Value.listsWithin]

theorem listsWithin_start (v : Value) :
    listsWithin graph depth ⟨[], v, []⟩ = v.listsWithin graph depth [] := by
  rw [listsWithin]
  refine (List.map_congr_left fun sight _ => ?_).trans (List.map_id _)
  rcases sight with _ | _ | tail <;> rfl

/-- A cell is read with its first before whatever its rest is read as. -/
theorem listsWithin_cons (b : Branch) (first rest : Value) :
    listsWithin graph depth ⟨first :: b.members, rest, b.visited⟩ =
      ((rest.listsWithin graph depth b.visited).map (Sight.prepend first)).map
        (Option.map (Except.map b.finish)) := by
  rw [listsWithin, List.map_map]
  refine List.map_congr_left fun sight _ => ?_
  rcases sight with _ | _ | tail <;> rfl

theorem listsWithin_open (b : Branch) (firsts rests : List Value) :
    (b.open firsts rests).flatMap (listsWithin graph depth) =
      ((firsts.flatMap fun first => rests.map fun rest => (first, rest)).flatMap
        fun (first, rest) =>
        (rest.listsWithin graph depth b.visited).map (Sight.prepend first)).map
        (Option.map (Except.map b.finish)) := by
  simp only [«open», List.flatMap_assoc, List.flatMap_map, List.map_flatMap, listsWithin_cons]

section Node

variable (b : Branch) {node : String} (hrest : b.rest = .resource node)
  (hnil : Value.isNil node = false) (hwalked : node ∉ b.visited)

include hrest hnil hwalked

theorem listsWithin_of_error {error : EvalError} (hcells : graph.cells node = .error error) :
    b.listsWithin graph (depth + 1) = [some (.error error)] := by
  simp [listsWithin, hrest, Value.listsWithin, hnil, hwalked, hcells, Except.map]

theorem listsWithin_of_cells {cells : List (Value × Value)}
    (hcells : graph.cells node = .ok cells) :
    b.listsWithin graph (depth + 1) =
      (cells.flatMap fun (first, rest) =>
        (rest.listsWithin graph depth (node :: b.visited)).map (Sight.prepend first)).map
        (Option.map (Except.map b.finish)) := by
  simp [listsWithin, hrest, Value.listsWithin, hnil, hwalked, hcells]

end Node

end Branch

namespace ListReading

theorem covers_branches
    (h : ∀ b pending, Covers graph depth (.walk (b :: pending)) (b.listsWithin graph depth)
      (.walk pending)) (branches pending : List Branch) :
    Covers graph depth (.walk (branches ++ pending))
      (branches.flatMap (Branch.listsWithin graph depth)) (.walk pending) := by
  induction branches with
  | nil => exact .refl _
  | cons b branches ih =>
      rw [List.flatMap_cons]
      exact (h b (branches ++ pending)).append ih

private theorem covers_node
    (h : ∀ b pending, Covers graph depth (.walk (b :: pending)) (b.listsWithin graph depth)
      (.walk pending)) (b : Branch) (pending : List Branch) {node : String}
    (hrest : b.rest = .resource node) (hnil : Value.isNil node = false)
    (hwalked : node ∉ b.visited) :
    Covers graph (depth + 1) (.walk (b :: pending)) (b.listsWithin graph (depth + 1))
      (.walk pending) := by
  cases hfirsts : graph node Vocabulary.rdfFirst with
  | error error =>
      rw [b.listsWithin_of_error hrest hnil hwalked (Graph.cells_of_no_firsts hfirsts)]
      refine .item ?_
      simp [step, hrest, hnil, hwalked, Graph.atOnce, hfirsts, Reply.ofAnswer]
  | ok firsts =>
      let opened : Branch := { b with visited := node :: b.visited }
      have hopens : (ListReading.walk (b :: pending)).step graph.atOnce =
          .working (.opened opened node firsts pending) := by
        simp [step, hrest, hnil, hwalked, Graph.atOnce, hfirsts, Reply.ofAnswer, opened]
      refine .working hopens ?_
      cases hrests : graph node Vocabulary.rdfRest with
      | error error =>
          rw [b.listsWithin_of_error hrest hnil hwalked (Graph.cells_of_no_rests hfirsts hrests)]
          refine .item ?_
          simp [step, Graph.atOnce, hrests, Reply.ofAnswer]
      | ok rests =>
          have hcells := Graph.cells_of_found hfirsts hrests
          cases hempty : firsts.isEmpty || rests.isEmpty with
          | true =>
              rw [hempty, if_pos rfl] at hcells
              rw [b.listsWithin_of_error hrest hnil hwalked hcells]
              refine .item ?_
              simp [step, Graph.atOnce, hrests, Reply.ofAnswer, hempty]
          | false =>
              rw [hempty, if_neg (by simp)] at hcells
              rw [b.listsWithin_of_cells hrest hnil hwalked hcells]
              have hwalks : (ListReading.opened opened node firsts pending).step graph.atOnce =
                  .working (.walk (opened.open firsts rests ++ pending)) := by
                simp [step, Graph.atOnce, hrests, Reply.ofAnswer, hempty]
              have hbranches := covers_branches h (opened.open firsts rests) pending
              rw [Branch.listsWithin_open] at hbranches
              exact (Covers.working hwalks hbranches).mono (Nat.le_succ depth)

theorem covers_branch (graph : Graph) (depth : Nat) (b : Branch) (pending : List Branch) :
    Covers graph depth (.walk (b :: pending)) (b.listsWithin graph depth) (.walk pending) := by
  induction depth generalizing b pending with
  | zero =>
      rw [Branch.listsWithin_zero]
      exact ⟨0, _, .refl _, by simp, fun _ => ⟨Nat.le_refl 0, rfl⟩⟩
  | succ depth ih =>
      cases hrest : b.rest with
      | resource node =>
          by_cases hnil : Value.isNil node = true
          · have hlists : b.listsWithin graph (depth + 1) = [some (.ok (b.finish []))] := by
              simp [Branch.listsWithin, hrest, Value.listsWithin, hnil, Except.map]
            rw [hlists]
            exact .item (by simp [step, hrest, hnil])
          · by_cases hwalked : node ∈ b.visited
            · have hlists : b.listsWithin graph (depth + 1) = [some (.error (notAList node))] := by
                simp [Branch.listsWithin, hrest, Value.listsWithin, hnil, hwalked, Except.map]
              rw [hlists]
              exact .item (by simp [step, hrest, hnil, hwalked])
            · exact covers_node ih b pending hrest (by simpa using hnil) hwalked
      | list tail =>
          have hlists : b.listsWithin graph (depth + 1) = [some (.ok (b.finish tail))] := by
            simp [Branch.listsWithin, hrest, Value.listsWithin, Except.map]
          rw [hlists]
          exact .item (by simp [step, hrest])
      | number _ | text _ | boolean _ | literal _ | operator _ =>
          have hlists : b.listsWithin graph (depth + 1) =
              [some (.error (.coercion b.rest.print .list))] := by
            simp [Branch.listsWithin, hrest, Value.listsWithin, Except.map]
          rw [hlists]
          exact .item (by simp [step, hrest])

/-! ## Whole readings -/

theorem covers_ofValue (graph : Graph) (depth : Nat) (v : Value) :
    ∃ next, next.isSpent = true ∧
      Covers graph depth (.ofValue v) (v.listsWithin graph depth []) next := by
  cases depth with
  | zero =>
      refine ⟨.done, rfl, 0, .ofValue v, .refl _, by simp [Value.listsWithin], fun _ => ?_⟩
      refine ⟨Nat.le_refl 0, ?_⟩
      cases v with
      | resource node =>
          simp only [ofValue]
          split <;> rfl
      | _ => rfl
  | succ depth =>
      cases v with
      | resource node =>
          by_cases hnil : Value.isNil node = true
          · refine ⟨.done, rfl, ?_⟩
            simp only [ofValue, Value.listsWithin, hnil, if_true]
            exact .item rfl
          · refine ⟨.walk [], rfl, ?_⟩
            have hbranch := covers_branch graph (depth + 1)
              ⟨[], .resource node, []⟩ []
            rw [Branch.listsWithin_start] at hbranch
            simpa [ofValue, hnil] using hbranch
      | _ => exact ⟨.done, rfl, .item rfl⟩

end ListReading

/--
Whatever the depth, the walk brings what the recursive reading sees before its
first gap, and it ends there if there is no gap.  Whatever the walk brings,
while the store answers when it likes, the recursive reading sees to some depth
before any gap, and if the walk has ended that is all there is.
-/
theorem lists_read_depthFirst (graph : Graph) (v : Value) :
    (∀ depth, ∃ steps reading,
      Runs ListReading.step (List.replicate steps graph.atOnce) (.ofValue v)
        (Sight.known (v.listsWithin graph depth [])) reading ∧
      (none ∉ v.listsWithin graph depth [] → reading.step graph.atOnce = .ended)) ∧
    ∀ moments, (∀ ask ∈ moments, graph.HeldTo ask) → ∀ items reading,
      Runs ListReading.step moments (.ofValue v) items reading →
      ∃ depth, items <+: Sight.known (v.listsWithin graph depth []) ∧
        (reading.step graph.atOnce = .ended →
          v.listsWithin graph depth [] = items.map some) := by
  constructor
  · intro depth
    obtain ⟨next, hspent, steps, left, hruns, hwhole, _⟩ :=
      ListReading.covers_ofValue graph depth v
    refine ⟨steps, left, hruns, fun hnone => ?_⟩
    rw [hwhole hnone]
    exact ListReading.ended_of_isSpent hspent
  · intro moments hheld items reading hitems
    have hitems := hitems.in_moment graph.atOnce fun ask hask reading =>
      reading.step_of_heldTo (hheld ask hask)
    -- Seen one level deeper than there are steps, a gap lies beyond what the walk has reached.
    obtain ⟨next, hspent, steps, left, hruns, hwhole, hgap⟩ :=
      ListReading.covers_ofValue graph (moments.length + 1) v
    refine ⟨moments.length + 1, ?_⟩
    rcases Nat.lt_or_ge steps moments.length with hlt | hle
    · have hnone : none ∉ v.listsWithin graph (moments.length + 1) [] := fun hnone => by
        have := (hgap hnone).1
        omega
      have hended : next.step graph.atOnce = .ended := ListReading.ended_of_isSpent hspent
      rw [← hwhole hnone] at hended
      obtain ⟨more, hmore⟩ := Nat.exists_eq_add_of_lt hlt
      rw [hmore, Nat.add_assoc, ← List.replicate_append_replicate, List.replicate_succ] at hitems
      obtain ⟨_, _, hlater⟩ := hruns.remainder hitems
      exact (Runs.of_ended hended hlater).elim
    · obtain ⟨more, hmore⟩ := Nat.exists_eq_add_of_le hle
      rw [hmore, ← List.replicate_append_replicate] at hruns
      obtain ⟨later, hknown, hlater⟩ := hitems.remainder hruns
      rw [hknown]
      refine ⟨List.prefix_append items later, fun hended => ?_⟩
      cases more with
      | zero =>
          cases hlater
          have hnone : none ∉ v.listsWithin graph (moments.length + 1) [] := fun hnone => by
            have := (hgap hnone).1
            omega
          rw [← Sight.map_known hnone, hknown, List.append_nil]
      | succ more => exact (Runs.of_ended hended hlater).elim

/-! A node with two firsts whose second rest is the node itself. -/

example :
    let graph : Graph := fun _ predicate =>
      if predicate = Vocabulary.rdfFirst then .ok [.integer 1, .integer 9]
      else .ok [.resource Vocabulary.rdfNil, .resource "a"]
    (Value.resource "a").listsWithin graph 2 [] =
      [some (.ok [.integer 1]), some (.error (ListReading.notAList "a")),
        some (.ok [.integer 9]), some (.error (ListReading.notAList "a"))] := rfl

end StackQuery
