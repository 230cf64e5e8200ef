import StackQuery.Proofs.Command.Outcomes
import StackQuery.Proofs.CommandQueue.Quiet

/-!
# Commands of a session, one by one

However callers and the worker take turns, the commands of a session come to
what they would come to one by one.  A query leaves the session as it is, so
nothing else changes when one is left out.
-/

namespace StackQuery

variable {σ : Type}

/-- A queue that has gone idle shows what its commands have come to. -/
structure Shows (services : Services σ) (session : Session) (state : σ) (commands : List Command)
    (outcomes : List Outcome) (s : Scene Command Run (World σ)) : Prop where
  events : s.queue.world.sink = services.sink.putAll state (eventsOf s.pushed outcomes)
  statuses : s.pushed.map s.queue.status? = outcomes.map fun outcome => some outcome.status
  session : s.queue.world.session = commands.foldl Session.leftBy session

/--
Whatever turns are taken, without a stop, to push these commands in this order:
when the queue is idle the commands have come to the outcomes, and it will be
idle once the worker has been told and left to go on.
-/
def ComeTo (services : Services σ) (session : Session) (state : σ) (commands : List Command)
    (outcomes : List Outcome) : Prop :=
  ∀ turns : List (Turn Command (World σ)), (∀ turn ∈ turns, turn.IsQuiet) →
    let start : Scene Command Run (World σ) := .start ⟨session, state, .closed⟩
    let s := start.run (Command.behaviour services) turns
    (Scene.entries turns s).map (·.2) = commands →
      (s.queue.idle = true → Shows services session state commands outcomes s) ∧
        ∃ fuel, (start.run (Command.behaviour services)
          (turns ++ .notify :: List.replicate fuel .work)).queue.idle = true

theorem PerformsAll.comeTo {services : Services σ} (haccepts : services.sink.Accepts)
    {session : Session} {commands : List Command} {outcomes : List Outcome}
    (h : PerformsAll services.store session commands outcomes) (state : σ) :
    ComeTo services session state commands outcomes := by
  intro turns hquiet start s hcommands
  subst hcommands
  obtain ⟨results, hstatus, hone⟩ := h.oneByOne haccepts state
  refine ⟨fun hidle => ?_, Scene.idle_reached hquiet hone⟩
  obtain ⟨results', hone', hended⟩ := Scene.oneByOne_of_idle hquiet hidle
  obtain ⟨rfl, hworld⟩ := hone.unique hone'
  have hpushed : (Scene.entries turns s).map (·.1) = s.pushed := Scene.map_fst_entries hquiet
  refine ⟨?_, ?_, ?_⟩
  · rw [← hworld, hpushed]
  · rw [← hpushed, List.map_map]
    have hsome := congrArg (List.map some) hstatus
    rw [List.map_map, List.map_map] at hsome
    exact hended.trans hsome.symm
  · rw [← hworld]

/--
Queued in any interleaving and never stopped, commands come to what each of
them comes to alone in the session that the definitions and directives before
it have left, and without any one of their queries the others come to the same.
-/
theorem commands_come_to_their_outcomes (services : Services σ)
    (haccepts : services.sink.Accepts) (session : Session) (state : σ) (commands : List Command)
    (outcomes : List Outcome) (h : PerformsAll services.store session commands outcomes) :
    ComeTo services session state commands outcomes ∧
      ∀ place tokens aborted, commands[place]? = some (.query tokens aborted) →
        ComeTo services session state (commands.eraseIdx place) (outcomes.eraseIdx place) := by
  refine ⟨h.comeTo haccepts state, fun place tokens aborted hquery => ?_⟩
  exact (h.eraseIdx_query hquery).comeTo haccepts state

/-- The first query fails and the last one comes too late; neither touches what the others do. -/
theorem definition_between_queries :
    let services : Services (List Event) :=
      ⟨⟨fun events event => (events ++ [event], .ok ())⟩, fun _ _ => .found [], none⟩
    let session : Session := ⟨.empty, {}⟩
    let commands : List Command :=
      [.define "one" [.push (.boolean true)], .query [.call "two"] false,
        .query [.call "one"] false, .directive (.undefine "one"), .query [.call "one"] false]
    let outcomes : List Outcome :=
      [.returned "define one" [.message "one := (true)"] (.ok ()),
        .returned "query" [] (.error (.eval (.undefined "two"))),
        .returned "query" [.solution 0 [.boolean true]] (.ok ()),
        .returned "undefine one" [.message "undefined urn:ripple:user#one"] (.ok ()),
        .returned "query" [] (.error (.eval (.undefined "one")))]
    services.sink.Accepts ∧ PerformsAll services.store session commands outcomes ∧
      ComeTo services session [] commands outcomes ∧
      ComeTo services session [] (commands.eraseIdx 1) (outcomes.eraseIdx 1) := by
  intro services session commands outcomes
  have haccepts : services.sink.Accepts := fun _ _ => rfl
  let defined : Session := session.leftBy (.define "one" [.push (.boolean true)])
  let moment : Surroundings := ⟨defined.library, services.store, false⟩
  have hquery : Performs services.store defined (.query [.call "one"] false)
      (.returned "query" (delivered 0 [.ok [.boolean true]]) (.ok ())) :=
    @Performs.answered _ _ _ _ _ (List.replicate 5 moment) [.ok [.boolean true]] rfl
      (fun _ => List.eq_of_mem_replicate)
      (.working rfl (.working rfl (.item rfl (.working rfl (.working rfl (.refl _)))))) (.inl rfl)
  have hperforms : PerformsAll services.store session commands outcomes :=
    .cons (.announced rfl) (.cons (.refused rfl) (.cons hquery (.cons (.announced rfl)
      (.cons (.refused rfl) (.nil _)))))
  obtain ⟨hall, hwithout⟩ := commands_come_to_their_outcomes services haccepts session [] commands
    outcomes hperforms
  exact ⟨haccepts, hperforms, hall, hwithout 1 [.call "two"] false rfl⟩

end StackQuery
