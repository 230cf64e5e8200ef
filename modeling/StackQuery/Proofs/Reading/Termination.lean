import Mathlib.Tactic.Linarith
import Mathlib.Tactic.Ring
import StackQuery.Proofs.Reading.DepthFirst

/-!
# Lists in a finite graph are read to the end

A branch of the walk visits no node twice, and a node that leads on has a
statement.  So a branch can go on only as often as there are statements about
nodes that it has not walked.  A node opens at most as many branches as there
are pairs of statements, and each of them has fewer statements left than the
branch that it comes from; a weight that grows by more than that with every
statement left is therefore used up, whatever cycles there are.
-/

namespace StackQuery

namespace Store

variable {s : Store} {ask : Connection}

/-- What the store finds is what it holds; it may also fail, or say nothing yet. -/
def ShownBy (s : Store) (ask : Connection) : Prop :=
  ∀ subject predicate objects, ask subject predicate = .found objects →
    objects = s.objects subject predicate

theorem shownBy_connection (s : Store) : s.ShownBy s.connection := by
  intro subject predicate objects h
  simpa [connection] using h.symm

theorem length_objects_le (s : Store) (subject predicate : String) :
    (s.objects subject predicate).length ≤ s.size :=
  List.length_filterMap_le _ _

/-! ## Statements that are left -/

/-- The number of statements about nodes that have not been walked. -/
def left (s : Store) (walked : List String) : Nat :=
  s.triples.countP fun t => t.subject ∉ walked

theorem left_lt_of_objects {node predicate : String} {walked : List String}
    (hnode : node ∉ walked) (hobjects : s.objects node predicate ≠ []) :
    s.left (node :: walked) < s.left walked := by
  obtain ⟨object, hobject⟩ := List.exists_mem_of_ne_nil _ hobjects
  obtain ⟨t, ht, hsubject⟩ : ∃ t ∈ s.triples, t.subject = node := by
    simp only [objects, List.mem_filterMap] at hobject
    obtain ⟨t, ht, hsome⟩ := hobject
    split at hsome
    next hboth => exact ⟨t, ht, hboth.1⟩
    next => simp at hsome
  obtain ⟨before, after, hsplit⟩ := List.append_of_mem ht
  have hless (part : List Triple) :
      part.countP (fun t => t.subject ∉ node :: walked) ≤ part.countP fun t => t.subject ∉ walked :=
    List.countP_mono_left fun t _ => by simp
  have hbefore := hless before
  have hafter := hless after
  have hsubjectLeft : t.subject ∉ walked := by rwa [hsubject]
  have hsubjectWalked : t.subject ∈ node :: walked := by simp [hsubject]
  rw [left, left, hsplit, List.countP_append, List.countP_append, List.countP_cons_of_neg,
    List.countP_cons_of_pos]
  · omega
  · simpa using hsubjectLeft
  · simp only [hsubjectWalked, not_true, decide_false, Bool.false_eq_true, not_false_iff]

/-- What a branch may still cost that has walked some nodes. -/
def weight (s : Store) (walked : List String) : Nat := (s.size ^ 2 + 2) ^ (s.left walked + 1)

theorem two_le_weight (s : Store) (walked : List String) : 2 ≤ s.weight walked := by
  have hpos : 1 ≤ (s.size ^ 2 + 2) ^ s.left walked := Nat.one_le_pow _ _ (by omega)
  rw [weight, Nat.pow_succ]
  nlinarith

theorem weight_nil (s : Store) : s.weight [] = (s.size ^ 2 + 2) ^ (s.size + 1) := by
  simp [weight, left, size]

theorem weight_opened {node : String} {walked : List String} (hnode : node ∉ walked)
    (predicate : String) :
    (s.objects node predicate).length * s.size * s.weight (node :: walked) + 2 ≤
      s.weight walked := by
  by_cases hobjects : s.objects node predicate = []
  · simpa [hobjects] using s.two_le_weight walked
  · have hleft := left_lt_of_objects hnode hobjects
    have hcells : (s.objects node predicate).length * s.size ≤ s.size ^ 2 := by
      rw [Nat.pow_two]
      exact Nat.mul_le_mul_right _ (s.length_objects_le node predicate)
    have hlighter : s.weight (node :: walked) ≤ (s.size ^ 2 + 2) ^ s.left walked :=
      Nat.pow_le_pow_right (by omega) hleft
    have hpos : 1 ≤ (s.size ^ 2 + 2) ^ s.left walked := Nat.one_le_pow _ _ (by omega)
    calc (s.objects node predicate).length * s.size * s.weight (node :: walked) + 2
        ≤ s.size ^ 2 * (s.size ^ 2 + 2) ^ s.left walked + 2 * (s.size ^ 2 + 2) ^ s.left walked := by
          have := Nat.mul_le_mul hcells hlighter
          omega
      _ = s.weight walked := by rw [weight, Nat.pow_succ]; ring

end Store

/-! ## Every step costs -/

namespace ListReading

def weight (s : Store) : ListReading → Nat
  | .once _ => 1
  | .walk pending => (pending.map fun b => s.weight b.visited).sum
  | .opened b _ firsts pending =>
      firsts.length * s.size * s.weight b.visited + 1 +
        (pending.map fun b => s.weight b.visited).sum
  | .done => 0

variable {s : Store} {ask : Connection}

theorem weight_open (s : Store) (b : Branch) (firsts rests : List Value) :
    ((b.open firsts rests).map fun b => s.weight b.visited).sum =
      firsts.length * rests.length * s.weight b.visited := by
  have hsame : ∀ opened ∈ b.open firsts rests, opened.visited = b.visited := by
    intro opened hopened
    simp only [Branch.open, List.mem_flatMap, List.mem_map] at hopened
    obtain ⟨_, _, _, _, rfl⟩ := hopened
    rfl
  have hlength : (b.open firsts rests).length = firsts.length * rests.length := by
    simp [Branch.open, List.map_const']
  have hweights : (b.open firsts rests).map (fun b => s.weight b.visited) =
      List.replicate (firsts.length * rests.length) (s.weight b.visited) := by
    rw [← hlength, ← List.map_const']
    exact List.map_congr_left fun opened hopened => by rw [hsame opened hopened]
  rw [hweights, List.sum_replicate_nat]

theorem weight_step (hshown : s.ShownBy ask) (reading : ListReading) :
    (reading.step ask).Leaves (weight s · < weight s reading) := by
  cases reading with
  | done => exact True.intro
  | once result => simp [step, Progress.Leaves, weight]
  | walk pending =>
      cases pending with
      | nil => exact True.intro
      | cons b pending =>
          have hpast : weight s (.walk pending) < weight s (.walk (b :: pending)) := by
            have := s.two_le_weight b.visited
            simp only [weight, List.map_cons, List.sum_cons]
            omega
          cases hrest : b.rest with
          | resource node =>
              cases hnil : Value.isNil node with
              | true => simpa [step, hrest, hnil] using hpast
              | false =>
                  by_cases hwalked : node ∈ b.visited
                  · simpa [step, hrest, hnil, hwalked] using hpast
                  · cases hfirsts : ask node Vocabulary.rdfFirst with
                    | waiting => simp [step, hrest, hnil, hwalked, hfirsts, Progress.Leaves]
                    | failed error => simpa [step, hrest, hnil, hwalked, hfirsts] using hpast
                    | found firsts =>
                        have hopened := s.weight_opened hwalked Vocabulary.rdfFirst
                        rw [← hshown _ _ _ hfirsts] at hopened
                        simp only [step, hrest, hnil, List.contains_iff_mem, hwalked, hfirsts,
                          Bool.false_eq_true, if_false, Progress.Leaves, weight, List.map_cons,
                          List.sum_cons]
                        omega
          | _ => simpa [step, hrest] using hpast
  | opened b node firsts pending =>
      have hpast : weight s (.walk pending) < weight s (.opened b node firsts pending) := by
        simp only [weight]
        omega
      cases hrests : ask node Vocabulary.rdfRest with
      | waiting => simp [step, hrests, Progress.Leaves]
      | failed error => simpa [step, hrests] using hpast
      | found rests =>
          by_cases hempty : (firsts.isEmpty || rests.isEmpty) = true
          · simpa [step, hrests, hempty] using hpast
          · have hlength : rests.length ≤ s.size := by
              rw [hshown _ _ _ hrests]
              exact s.length_objects_le node Vocabulary.rdfRest
            have hcells : firsts.length * rests.length * s.weight b.visited ≤
                firsts.length * s.size * s.weight b.visited :=
              Nat.mul_le_mul_right _ (Nat.mul_le_mul_left _ hlength)
            have hwalks : (ListReading.opened b node firsts pending).step ask =
                .working (.walk (b.open firsts rests ++ pending)) := by
              simp only [step, hrests, if_neg hempty]
            rw [hwalks, Progress.leaves_working]
            simp only [weight, List.map_append, List.sum_append, weight_open]
            omega

theorem weight_ofValue_le (s : Store) (v : Value) :
    weight s (.ofValue v) ≤ (s.size ^ 2 + 2) ^ (s.size + 1) := by
  rw [← s.weight_nil]
  have := s.two_le_weight []
  cases v with
  | resource node =>
      simp only [ofValue]
      split
      next =>
        simp only [weight]
        omega
      next => simp [weight]
  | _ =>
      simp only [ofValue, weight]
      omega

theorem step_connection_ne_waiting (s : Store) (reading : ListReading) :
    reading.step s.connection ≠ .waiting := by
  fun_cases step s.connection reading <;> simp_all [Store.connection]

end ListReading

/--
Whatever cycles and branches a finite graph has, the lists of a value are read
to their end: however the store answers, fails or delays, the reading goes on
only a bounded number of times, and with every step it puts at most one
question.  Where the store answers at once, every pull brings an item or the
end within the bound, and the end is reached.
-/
theorem reading_comes_to_end (s : Store) (v : Value) :
    (∃ steps items reading,
      Runs ListReading.step (List.replicate steps s.connection) (.ofValue v) items reading ∧
      reading.step s.connection = .ended) ∧
    ∀ moments, (∀ ask ∈ moments, s.ShownBy ask) → ∀ items reading,
      Runs ListReading.step moments (.ofValue v) items reading →
      moments.length ≤ (s.size ^ 2 + 2) ^ (s.size + 1) ∧ items.length ≤ moments.length ∧
      (∀ fuel, (s.size ^ 2 + 2) ^ (s.size + 1) < fuel →
        (∃ result next, pull (ListReading.step s.connection) fuel reading = .item result next) ∨
        pull (ListReading.step s.connection) fuel reading = .ended) ∧
      ∀ ask ask' : Connection,
        (∀ subject predicate, reading.question? = some (subject, predicate) →
          ask subject predicate = ask' subject predicate) →
        reading.step ask = reading.step ask' := by
  have hwaits := ListReading.step_connection_ne_waiting s
  have hdown := ListReading.weight_step s.shownBy_connection
  constructor
  · exact exists_end hwaits hdown _
  · intro moments hshown items reading hruns
    have hcost := hruns.length_add_le fun ask hask => ListReading.weight_step (hshown ask hask)
    have hbound := ListReading.weight_ofValue_le s v
    refine ⟨by omega, hruns.items_length_le, fun fuel hfuel => ?_, fun _ _ => reading.step_congr⟩
    exact pull_of_runs_down hwaits hdown (by omega)

end StackQuery
