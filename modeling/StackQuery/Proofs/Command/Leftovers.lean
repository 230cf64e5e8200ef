import StackQuery.Proofs.Command.Outcomes
import StackQuery.Proofs.CommandQueue.Judging
import StackQuery.Proofs.CommandQueue.Origins

/-!
# What failed and aborted commands leave behind

A definition or a directive first acts on the session and then puts out its
message, and only after that it is judged.  Nothing is undone.  So a command
that has failed or has been aborted has left the session alone, apart from two
cases: the sink has refused the message of what was done, or a stop has asked
the command to stop while the worker held it.

Other commands may change the session in the meantime, and so may something
outside.  Their turns are set aside: what is said here is about all other turns.

A command whose run has returned an error also leaves a report of it behind,
under the name that the command was added with.
-/

namespace StackQuery

/-- A definition or a directive: it acts at once and then announces what it has done. -/
def Command.Announces : Command → Prop
  | .define _ _ | .directive _ => True
  | .query _ _ | .script _ => False

theorem Command.Announces.act? {command : Command} (h : command.Announces) (s : Session) :
    ∃ made, s.act? command = some made := by
  cases command with
  | define | directive => exact ⟨_, rfl⟩
  | query | script => exact h.elim

/-- Asking a definition or a directive to stop does nothing. -/
theorem Command.Announces.abort {σ : Type} {command : Command} (h : command.Announces)
    (w : World σ) : command.abort w = (command, w) := by
  cases command with
  | define | directive => rfl
  | query | script => exact h.elim

/-! ## The run of such a command -/

/-- A run is ready until the command has acted, and then about to announce what was done. -/
def Phase.OnTheWay (done? : Option String) : Phase Run → Prop
  | .taken | .started .ready => done? = none
  | .started (.announcing text) => done? = some text
  | .started _ => False
  | .returned _ | .judged _ _ | .reported _ _ | .recorded _ _ => True

/-- One step of the run: the command acts, or fails to, or announces what it has done. -/
theorem Command.Announces.step {σ : Type} {command : Command} (h : command.Announces) {run : Run}
    {done? : Option String} (hrun : (Phase.started run).OnTheWay done?) (services : Services σ)
    (id : CommandId) (w : World σ) :
    (∃ left text, done? = none ∧ w.session.act? command = some (.ok (left, text)) ∧
      command.step services id run w = .working (.announcing text) { w with session := left }) ∨
    (∃ error, done? = none ∧
      command.step services id run w = .returned (.error (.eval error)) w) ∨
    (∃ text, done? = some text ∧ run = .announcing text ∧
      command.step services id run w = w.putLast services (.message (some id) text)) := by
  obtain ⟨made, hact⟩ := h.act? w.session
  cases run with
  | ready =>
      have hstep : command.step services id .ready w = w.announce made :=
        step_act services id w hact
      rw [hstep]
      cases made with
      | ok made => exact .inl ⟨made.1, made.2, hrun, hact, rfl⟩
      | error error => exact .inr (.inl ⟨error, hrun, rfl⟩)
  | announcing text =>
      exact .inr (.inr ⟨text, hrun, rfl, step_announcing services id w hact text⟩)
  | pulling | delivering | saying | holding | closing => exact hrun.elim

namespace Scene

/-! ## Turns of others -/

section Others

variable {κ ρ ω α : Type} {b : Behaviour κ ρ ω} {s s' : Scene κ ρ ω} {turn : Turn κ ω}
  {turns : List (Turn κ ω)} {id : CommandId} {view : ω → α}

/-- The worker holds the command. -/
def Holds (s : Scene κ ρ ω) (id : CommandId) : Prop :=
  ∃ job, s.queue.worker = .busy job ∧ job.id = id

/-- The world is changed from outside, or the worker holds another command. -/
def OfOthers (s : Scene κ ρ ω) (id : CommandId) (turn : Turn κ ω) : Prop :=
  (∃ world, turn = .change world) ∨ ∃ other, s.Holds other ∧ other ≠ id

theorem Holds.not_ofOthers (h : s.Holds id) : ¬s.OfOthers id .work := by
  obtain ⟨job, hworker, rfl⟩ := h
  rintro (⟨_, hchange⟩ | ⟨_, ⟨job', hworker', rfl⟩, hother⟩)
  · cases hchange
  · cases hworker.symm.trans hworker'
    exact hother rfl

/-- Apart from the turns of others, nothing changes what is seen of the world. -/
def Untouched (b : Behaviour κ ρ ω) (id : CommandId) (view : ω → α) :
    Scene κ ρ ω → List (Turn κ ω) → Prop
  | _, [] => True
  | s, turn :: later =>
      (s.OfOthers id turn ∨ view (s.after b turn).queue.world = view s.queue.world) ∧
        Untouched b id view (s.after b turn) later

theorem Untouched.concat (h : Untouched b id view s turns)
    (hturn : (s.run b turns).OfOthers id turn ∨
      view (s.run b (turns ++ [turn])).queue.world = view (s.run b turns).queue.world) :
    Untouched b id view s (turns ++ [turn]) := by
  induction turns generalizing s with
  | nil => exact ⟨hturn, True.intro⟩
  | cons first later ih => exact ⟨h.1, ih h.2 hturn⟩

/-- If there are no turns of others, then at the end all that is seen is as it was. -/
theorem Untouched.eq_of_alone (h : Untouched b id view s turns)
    (halone : ∀ earlier turn later, turns = earlier ++ turn :: later →
      ¬(s.run b earlier).OfOthers id turn) :
    view (s.run b turns).queue.world = view s.queue.world := by
  induction turns generalizing s with
  | nil => rfl
  | cons first later ih =>
      refine (ih h.2 fun earlier turn rest hsplit => ?_).trans
        (h.1.resolve_left (halone [] first later rfl))
      exact halone (first :: earlier) turn rest (congrArg (first :: ·) hsplit)

/-- A command that the worker does not hold changes nothing. -/
theorem Leads.of_not_holds (h : Leads b s turn s') (hfree : ¬s.Holds id) :
    s.OfOthers id turn ∨ view s'.queue.world = view s.queue.world := by
  rcases h.touches with hsame | hchange | ⟨job, hworker, _⟩
  · exact .inr (congrArg view hsame)
  · exact .inl (.inl hchange)
  · exact .inl (.inr ⟨job.id, ⟨job, hworker, rfl⟩, fun hid => hfree ⟨job, hworker, hid⟩⟩)

/-- A finished command is never taken up again. -/
theorem not_holds_acts (htracked : s.Tracked) (hfree : ¬s.Holds id)
    {status : CommandStatus} (hstatus : s.queue.status? id = some status)
    (hfinished : status.isFinished = true) (hacts : Acts b s s') : ¬s'.Holds id := by
  rintro ⟨job', hworker, hid⟩
  cases hacts with
  | works _ hstep =>
      cases hstep with
      | takes _ hpending =>
          cases hworker
          have hwaits : id ∈ s.queue.waiting := by
            simp [CommandQueue.waiting, hpending, ← hid]
          have hqueued := htracked.queued id (.inr hwaits)
          rw [hqueued] at hstatus
          cases hstatus
          cases hfinished
      | starts hbusy | goesOn _ hbusy | records hbusy =>
          cases hworker
          exact hfree ⟨_, hbusy, hid⟩
      | parks | releases => cases hworker
      | rests _ hafter => exact hafter job' hworker
  | asks _ _ hbusy =>
      cases hworker
      exact hfree ⟨_, hbusy, hid⟩
  | stays | enrolls | pushes | drops | idles | aside => exact hfree ⟨job', hworker, hid⟩

/--
If asking the command that the worker holds to stop does nothing to it, every
turn but the worker's own leaves it as it is, except for the request.
-/
theorem Leads.held (h : Leads b s turn s') (hturn : turn ≠ .work) {job : Job κ ρ}
    (hworker : s.queue.worker = .busy job)
    (habort : b.abort job.command s.queue.world = (job.command, s.queue.world)) :
    ((∃ world, turn = .change world) ∨ s'.queue.world = s.queue.world) ∧
      (s'.queue.worker = .busy job ∨
        turn = .endStop ∧ s.stopping = true ∧ s.queue.pending = [] ∧
          s'.queue.worker = .busy { job with abortRequested := true }) := by
  cases h with
  | works => exact absurd rfl hturn
  | unlocks hlocked hpending =>
      simp only [CommandQueue.endStop, hworker, habort]
      exact ⟨.inr trivial, .inr ⟨trivial, hlocked, hpending, trivial⟩⟩
  | signals =>
      simp only [CommandQueue.signalExit, hworker]
      exact ⟨.inr trivial, .inl trivial⟩
  | changes world => exact ⟨.inl ⟨world, rfl⟩, .inl hworker⟩
  | stays | enrolls | pushes | notifies | locks | drops | takesFailure =>
      exact ⟨.inr rfl, .inl hworker⟩

/-- A stop has come to its end while the worker held the command. -/
def Asked (b : Behaviour κ ρ ω) (id : CommandId) (s : Scene κ ρ ω) (turns : List (Turn κ ω)) :
    Prop :=
  ∃ earlier later, turns = earlier ++ .endStop :: later ∧ (s.run b earlier).stopping = true ∧
    (s.run b earlier).queue.pending = [] ∧ (s.run b earlier).Holds id

theorem Asked.append (h : Asked b id s turns) (more : List (Turn κ ω)) :
    Asked b id s (turns ++ more) := by
  obtain ⟨earlier, later, rfl, hasked⟩ := h
  exact ⟨earlier, later ++ more, by simp, hasked⟩

/-- A command that has not been taken yet has its place among those enrolled or waiting. -/
def Awaits (s : Scene κ ρ ω) (id : CommandId) (command : κ) : Prop :=
  (id, command) ∈ s.enrolled ++ s.queue.pending

theorem Awaits.not_holds {command : κ} (h : s.Awaits id command) (hinOrder : s.InOrder) :
    ¬s.Holds id := by
  rintro ⟨job, hworker, rfl⟩
  rcases List.mem_append.mp h with henrolled | hpending
  · exact hinOrder.not_enrolled (hinOrder.held_pushed hworker)
      (List.mem_map_of_mem (f := (·.1)) henrolled)
  · exact hinOrder.not_waiting hworker (List.mem_map_of_mem (f := (·.1)) hpending)

theorem Awaits.queued {command : κ} (h : s.Awaits id command) (htracked : s.Tracked) :
    s.queue.status? id = some .queued := by
  refine htracked.queued id ?_
  rcases List.mem_append.mp h with henrolled | hpending
  · exact .inl (List.mem_map_of_mem (f := (·.1)) henrolled)
  · exact .inr (List.mem_map_of_mem (f := (·.1)) hpending)

/-- Such a command goes on awaiting, or it is dropped, or the worker takes it. -/
theorem Awaits.acts {command : κ} (h : s.Awaits id command) (hinOrder : s.InOrder)
    (htracked : s.Tracked) (hacts : Acts b s s') :
    s'.Awaits id command ∨ (¬s'.Holds id ∧ s'.queue.status? id = some .aborted) ∨
      s'.queue.worker = .busy ⟨id, command, false, .taken⟩ := by
  have hfirst {first : CommandId × κ} {pending : List (CommandId × κ)}
      (hpending : s.queue.pending = first :: pending) :
      (id, command) = first ∨ (id, command) ∈ s.enrolled ++ pending := by
    simp only [Awaits, hpending, List.mem_append, List.mem_cons] at h ⊢
    tauto
  cases hacts with
  | enrolls new =>
      refine .inl ?_
      simp only [Awaits, CommandQueue.enroll, List.mem_append] at h ⊢
      tauto
  | pushes _ hplace =>
      refine .inl ?_
      obtain ⟨hlt, hget⟩ := List.getElem?_eq_some_iff.mp hplace
      have hperm := List.getElem_cons_eraseIdx_perm hlt
      simp only [Awaits, List.mem_append, ← hperm.mem_iff, hget, List.mem_cons] at h
      simp only [Awaits, CommandQueue.push, List.mem_append, List.mem_singleton]
      tauto
  | drops _ hpending =>
      rcases hfirst hpending with heq | hin
      · cases heq
        exact .inr (.inl ⟨h.not_holds hinOrder,
          CommandQueue.status?_record_of_some (h.queued htracked) .aborted⟩)
      · exact .inl hin
  | works _ hstep =>
      cases hstep with
      | takes _ hpending =>
          rcases hfirst hpending with heq | hin
          · cases heq
            exact .inr (.inr rfl)
          · exact .inl hin
      | parks | starts | goesOn | records | releases | rests => exact .inl h
  | stays | asks | idles | aside => exact .inl h

end Others

/-! ## What a command has done -/

section Done

variable {σ : Type} {services : Services σ} {s : Scene Command Run (World σ)}
  {turns : List (Turn Command (World σ))} {turn : Turn Command (World σ)} {id : CommandId}
  {command : Command} {done? : Option String}

/--
What the command has done to the session: nothing at all, or in a single turn
just what it is to do, for which it has a message.
-/
def Done (services : Services σ) (s : Scene Command Run (World σ))
    (turns : List (Turn Command (World σ))) (id : CommandId) (command : Command) :
    Option String → Prop
  | none => Untouched (Command.behaviour services) id World.session s turns
  | some text => ∃ earlier later, turns = earlier ++ .work :: later ∧
      Untouched (Command.behaviour services) id World.session s earlier ∧
      (s.run (Command.behaviour services) earlier).Holds id ∧
      (s.run (Command.behaviour services) earlier).queue.world.session.act? command =
        some (.ok ((s.run (Command.behaviour services) (earlier ++ [.work])).queue.world.session,
          text)) ∧
      Untouched (Command.behaviour services) id World.session
        (s.run (Command.behaviour services) (earlier ++ [.work])) later

theorem Done.concat (h : Done services s turns id command done?)
    (hturn : (s.run (Command.behaviour services) turns).OfOthers id turn ∨
      (s.run (Command.behaviour services) (turns ++ [turn])).queue.world.session =
        (s.run (Command.behaviour services) turns).queue.world.session) :
    Done services s (turns ++ [turn]) id command done? := by
  cases done? with
  | none => exact Untouched.concat h hturn
  | some text =>
      obtain ⟨earlier, later, rfl, hbefore, hholds, hact, hafter⟩ := h
      have hnow : earlier ++ .work :: later = earlier ++ [.work] ++ later := by simp
      have hnext : earlier ++ .work :: later ++ [turn] =
          earlier ++ [.work] ++ (later ++ [turn]) := by simp
      rw [hnext, hnow, run_append _ s _ (later ++ [turn]), run_append _ s _ later] at hturn
      exact ⟨earlier, later ++ [turn], by simp, hbefore, hholds, hact, hafter.concat hturn⟩

/-- In one of the turns the command has put out its message, and the sink has answered. -/
def Announced (services : Services σ) (s : Scene Command Run (World σ))
    (turns : List (Turn Command (World σ))) (id : CommandId) (text : String)
    (answer : Except SinkError Unit) : Prop :=
  ∃ earlier later job, turns = earlier ++ .work :: later ∧
    (s.run (Command.behaviour services) earlier).queue.worker = .busy job ∧ job.id = id ∧
    job.phase = .started (.announcing text) ∧
    (services.sink.put (s.run (Command.behaviour services) earlier).queue.world.sink
      (.message (some id) text)).2 = answer

/-- What the result of the command says of what it has done. -/
inductive Explained (services : Services σ) (s : Scene Command Run (World σ))
    (turns : List (Turn Command (World σ))) (id : CommandId) :
    Option String → Except Failure Unit → Prop where
  | failed (error : EvalError) : Explained services s turns id none (.error (.eval error))
  | announced {text : String} {answer : Except SinkError Unit}
      (h : Announced services s turns id text answer) :
      Explained services s turns id (some text) (answer.mapError .sink)

theorem Explained.append {result : Except Failure Unit}
    (h : Explained services s turns id done? result) (more : List (Turn Command (World σ))) :
    Explained services s (turns ++ more) id done? result := by
  cases h with
  | failed error => exact .failed error
  | announced h =>
      obtain ⟨earlier, later, job, rfl, hannounced⟩ := h
      exact .announced ⟨earlier, later ++ more, job, by simp, hannounced⟩

/-- How a command has ended: dropped before it was taken, or judged by its result. -/
inductive Ended (services : Services σ) (s : Scene Command Run (World σ))
    (turns : List (Turn Command (World σ))) (id : CommandId) :
    Option String → CommandStatus → Prop where
  | dropped : Ended services s turns id none .aborted
  | judged {done? : Option String} {asked : Bool} {result : Except Failure Unit}
      (hexplained : Explained services s turns id done? result)
      (hasked : asked = true → Asked (Command.behaviour services) id s turns) :
      Ended services s turns id done? (.ofResult asked result)

theorem Ended.append {status : CommandStatus} (h : Ended services s turns id done? status)
    (more : List (Turn Command (World σ))) : Ended services s (turns ++ more) id done? status := by
  cases h with
  | dropped => exact .dropped
  | judged hexplained hasked =>
      exact .judged (hexplained.append more) fun hyes => (hasked hyes).append more

/-- How things stand with a command that the worker holds. -/
structure InHand (services : Services σ) (s : Scene Command Run (World σ))
    (turns : List (Turn Command (World σ))) (job : Job Command Run) (done? : Option String)
    (asked : Bool) : Prop where
  done : Done services s turns job.id job.command done?
  phase : job.phase.OnTheWay done?
  judged : job.phase.JudgedBy asked (Explained services s turns job.id done?)
  asked : asked = true ∨ job.abortRequested = true →
    Asked (Command.behaviour services) job.id s turns

/-- How things stand with the command and with what it has done to the session. -/
inductive Standing (services : Services σ) (s : Scene Command Run (World σ))
    (turns : List (Turn Command (World σ))) (id : CommandId) (command : Command) : Prop where
  | awaits (hdone : Done services s turns id command none)
      (hawaits : (s.run (Command.behaviour services) turns).Awaits id command)
  | held {job : Job Command Run} {done? : Option String} {asked : Bool}
      (hworker : (s.run (Command.behaviour services) turns).queue.worker = .busy job)
      (hinHand : InHand services s turns job done? asked) (hid : job.id = id)
      (hcommand : job.command = command)
  | finished {done? : Option String} {status : CommandStatus}
      (hdone : Done services s turns id command done?)
      (hfree : ¬(s.run (Command.behaviour services) turns).Holds id)
      (hstatus : (s.run (Command.behaviour services) turns).queue.status? id = some status)
      (hfinished : status.isFinished = true) (hended : Ended services s turns id done? status)

section Step

variable {asked : Bool} {job : Job Command Run}

theorem InHand.concat (h : InHand services s turns job done? asked)
    (hturn : (s.run (Command.behaviour services) turns).OfOthers job.id turn ∨
      (s.run (Command.behaviour services) (turns ++ [turn])).queue.world.session =
        (s.run (Command.behaviour services) turns).queue.world.session) :
    InHand services s (turns ++ [turn]) job done? asked where
  done := h.done.concat hturn
  phase := h.phase
  judged := h.judged.mono fun _ hexplained => hexplained.append [turn]
  asked := fun hyes => (h.asked hyes).append [turn]

theorem InHand.atPhase (h : InHand services s turns job done? asked) {phase : Phase Run}
    (hphase : phase.OnTheWay done?)
    (hjudged : phase.JudgedBy asked (Explained services s turns job.id done?)) :
    InHand services s turns { job with phase } done? asked :=
  ⟨h.done, hphase, hjudged, h.asked⟩

private theorem standing_asks (hcommand : job.command.Announces)
    (h : InHand services s turns job done? asked)
    (hworker : (s.run (Command.behaviour services) turns).queue.worker = .busy job)
    (hturn : turn ≠ .work) : Standing services s (turns ++ [turn]) job.id job.command := by
  have hleads := leads_concat (Command.behaviour services) s turns turn
  obtain ⟨hsame, hjob⟩ := hleads.held hturn hworker (hcommand.abort _)
  have hnext := h.concat (hsame.imp .inl (congrArg World.session))
  rcases hjob with hkept | ⟨rfl, hlocked, hpending, hrequested⟩
  · exact .held hkept hnext rfl rfl
  · have hasked : Asked (Command.behaviour services) job.id s (turns ++ [.endStop]) :=
      ⟨turns, [], rfl, hlocked, hpending, job, hworker, rfl⟩
    exact .held hrequested ⟨hnext.done, hnext.phase, hnext.judged, fun _ => hasked⟩ rfl rfl

private theorem standing_works (hcommand : job.command.Announces)
    (htracked : (s.run (Command.behaviour services) turns).Tracked)
    (h : InHand services s turns job done? asked)
    (hworker : (s.run (Command.behaviour services) turns).queue.worker = .busy job) :
    Standing services s (turns ++ [.work]) job.id job.command := by
  have hholds : (s.run (Command.behaviour services) turns).Holds job.id := ⟨job, hworker, rfl⟩
  have hnext (hsame : (s.run (Command.behaviour services) (turns ++ [.work])).queue.world.session =
      (s.run (Command.behaviour services) turns).queue.world.session) := h.concat (.inr hsame)
  have hleads := leads_concat (Command.behaviour services) s turns .work
  generalize hafter : s.run (Command.behaviour services) (turns ++ [.work]) = s' at hleads hnext
  cases hleads with
  | stays => exact .held (hafter ▸ hworker) (hnext rfl) rfl rfl
  | @works queue hlock hstep =>
      rw [CommandQueue.advance?_of_busy hworker] at hstep
      have hheld {phase : Phase Run} {done? : Option String} {asked : Bool}
          (hqueue : queue.worker = .busy { job with phase })
          (hinHand : InHand services s (turns ++ [.work]) { job with phase } done? asked) :
          Standing services s (turns ++ [.work]) job.id job.command := by
        refine .held ?_ hinHand rfl rfl
        rwa [hafter]
      cases CommandQueue.proceeds_of_advanceJob? hstep with
      | begins htaken =>
          have hphase := h.phase
          rw [htaken] at hphase
          exact hheld rfl ((hnext rfl).atPhase hphase True.intro)
      | works hstarted hworks =>
          have hphase := h.phase
          rw [hstarted] at hphase
          rcases hcommand.step hphase services job.id
              (s.run (Command.behaviour services) turns).queue.world with
            ⟨left, text, rfl, hact, hstep⟩ | ⟨error, _, hstep⟩ | ⟨text, _, _, hstep⟩
          · cases hworks.symm.trans hstep
            have hdone : Done services s (turns ++ [.work]) job.id job.command (some text) := by
              refine ⟨turns, [], rfl, h.done, hholds, ?_, True.intro⟩
              rw [hafter]
              exact hact
            exact hheld rfl ⟨hdone, rfl, True.intro, fun hyes => (h.asked hyes).append [.work]⟩
          · cases hworks.symm.trans hstep
          · cases hworks.symm.trans hstep
      | returns hstarted hreturns =>
          have hphase := h.phase
          rw [hstarted] at hphase
          rcases hcommand.step hphase services job.id
              (s.run (Command.behaviour services) turns).queue.world with
            ⟨left, text, _, hact, hstep⟩ | ⟨error, rfl, hstep⟩ | ⟨text, rfl, rfl, hstep⟩
          · cases hreturns.symm.trans hstep
          · cases hreturns.symm.trans hstep
            exact hheld rfl ((hnext rfl).atPhase True.intro (.failed error))
          · cases hreturns.symm.trans hstep
            refine hheld rfl ((hnext rfl).atPhase True.intro (.announced ?_))
            exact ⟨turns, [], job, rfl, hworker, rfl, hstarted, rfl⟩
      | judges hreturned =>
          have hjudged := (hnext rfl).judged
          rw [hreturned] at hjudged
          exact hheld rfl ⟨(hnext rfl).done, True.intro, ⟨rfl, hjudged⟩,
            fun hyes => (hnext rfl).asked (.inr (hyes.elim id id))⟩
      | @reports _ result hwas =>
          have hsame : ((s.run (Command.behaviour services) turns).queue.report
              (Command.behaviour services) job result).world.session =
              (s.run (Command.behaviour services) turns).queue.world.session := by
            cases result <;> rfl
          have hjudged := (hnext hsame).judged
          rw [hwas] at hjudged
          exact hheld rfl ((hnext hsame).atPhase True.intro hjudged)
      | records hreported =>
          have hjudged := (hnext rfl).judged
          rw [hreported] at hjudged
          exact hheld rfl ((hnext rfl).atPhase True.intro hjudged)
      | @releases status result hrecorded =>
          have hjudged := (hnext rfl).judged
          have hstatus := (htracked.held job hworker).1
          rw [hrecorded] at hjudged hstatus
          obtain ⟨rfl, hexplained⟩ := hjudged
          refine .finished (hnext rfl).done ?_ (hafter ▸ hstatus)
            (CommandStatus.isFinished_ofResult asked result)
            (.judged hexplained fun hyes => (hnext rfl).asked (.inl hyes))
          rw [hafter]
          rintro ⟨_, hbusy, _⟩
          cases hbusy

theorem Standing.concat (h : Standing services s turns id command)
    (hcommand : command.Announces)
    (hinOrder : (s.run (Command.behaviour services) turns).InOrder)
    (htracked : (s.run (Command.behaviour services) turns).Tracked)
    (turn : Turn Command (World σ)) : Standing services s (turns ++ [turn]) id command := by
  have hleads := leads_concat (Command.behaviour services) s turns turn
  have hacts := acts_concat (Command.behaviour services) s turns turn
  cases h with
  | awaits hdone hawaits =>
      have hdone := hdone.concat (hleads.of_not_holds (hawaits.not_holds hinOrder))
      rcases hawaits.acts hinOrder htracked hacts with hawaits | ⟨hfree, hdropped⟩ | htaken
      · exact .awaits hdone hawaits
      · exact .finished hdone hfree hdropped rfl .dropped
      · have hunjudged : Phase.JudgedBy false
            (Explained services s (turns ++ [turn]) id none) (.taken : Phase Run) := True.intro
        exact .held htaken ⟨hdone, rfl, hunjudged, by simp⟩ rfl rfl
  | held hworker hinHand hid hsame =>
      subst hid hsame
      by_cases hturn : turn = .work
      · subst hturn
        exact standing_works hcommand htracked hinHand hworker
      · exact standing_asks hcommand hinHand hworker hturn
  | finished hdone hfree hstatus hfinished hended =>
      have hmoves := htracked.moves hacts id
      rw [hstatus] at hmoves
      exact .finished (hdone.concat (hleads.of_not_holds hfree))
        (not_holds_acts htracked hfree hstatus hfinished hacts) (hmoves.finished hfinished)
        hfinished (hended.append [turn])

/-- From the turn on in which the command is enrolled. -/
theorem standing (services : Services σ) (world : World σ)
    (before later : List (Turn Command (World σ))) (hcommand : command.Announces) :
    let s := (start world).run (Command.behaviour services) before
    Standing services s (.enroll command :: later) s.queue.records.length command := by
  intro s
  induction later using List.reverseRecOn with
  | nil =>
      refine .awaits ⟨.inr rfl, True.intro⟩ (List.mem_append_left _ ?_)
      exact List.mem_append_right _ (List.mem_singleton_self _)
  | append_singleton later turn ih =>
      obtain ⟨hinOrder, htracked⟩ := run_inOrder_tracked (Command.behaviour services) world
        (before ++ .enroll command :: later)
      rw [run_append] at hinOrder htracked
      exact ih.concat hcommand hinOrder htracked turn

theorem Standing.ended (h : Standing services s turns id command)
    (htracked : (s.run (Command.behaviour services) turns).Tracked) {status : CommandStatus}
    (hstatus : (s.run (Command.behaviour services) turns).queue.status? id = some status)
    (hfinished : status.isFinished = true) :
    ∃ done?, Done services s turns id command done? ∧ Ended services s turns id done? status := by
  cases h with
  | awaits _ hawaits =>
      cases (hawaits.queued htracked).symm.trans hstatus
      cases hfinished
  | @held job done? asked hworker hinHand hid hsame =>
      subst hid hsame
      cases (htracked.held job hworker).1.symm.trans hstatus
      cases hphase : job.phase with
      | recorded status result =>
          have hjudged := hinHand.judged
          rw [hphase] at hjudged
          refine ⟨done?, hinHand.done, ?_⟩
          rw [Phase.status, hjudged.1]
          exact .judged hjudged.2 fun hyes => hinHand.asked (.inl hyes)
      | taken | started | returned | judged | reported =>
          simp [hphase, Phase.status, CommandStatus.isFinished] at hfinished
  | @finished done? _ hdone _ hnow _ hended =>
      cases hnow.symm.trans hstatus
      exact ⟨done?, hdone, hended⟩

end Step

/--
A definition or a directive that has failed or has been aborted has left the
session as it was before it was added, other commands aside; unless it has done
all that it was to do, and then either the sink has refused its message or,
the message being out, a stop has asked it to stop while the worker held it.
-/
theorem failed_or_aborted_leaves_session (services : Services σ) (world : World σ)
    (before later : List (Turn Command (World σ))) (command : Command)
    (hcommand : command.Announces) {status : CommandStatus}
    (hunsuccessful : status = .failed ∨ status = .aborted) :
    let b := Command.behaviour services
    let s := (start world).run b before
    let id := s.queue.records.length
    let turns := .enroll command :: later
    (s.run b turns).queue.status? id = some status →
      Untouched b id World.session s turns ∨
        ∃ text, Done services s turns id command (some text) ∧
          (status = .failed ∧ (∃ error, Announced services s turns id text (.error error)) ∨
            status = .aborted ∧ Announced services s turns id text (.ok ()) ∧
              Asked b id s turns) := by
  intro b s id turns hstatus
  have hstanding : Standing services s turns id command :=
    standing services world before later hcommand
  have htracked := (run_inOrder_tracked b world (before ++ turns)).2
  rw [run_append] at htracked
  have hfinished : status.isFinished = true := by
    rcases hunsuccessful with rfl | rfl <;> rfl
  obtain ⟨done?, hdone, hended⟩ := hstanding.ended htracked hstatus hfinished
  cases hended with
  | dropped => exact .inl hdone
  | @judged _ asked _ hexplained hasked =>
      cases hexplained with
      | failed => exact .inl hdone
      | @announced text answer hannounced =>
          refine .inr ⟨text, hdone, ?_⟩
          cases answer with
          | error error => exact .inl ⟨rfl, error, hannounced⟩
          | ok _ =>
              cases asked with
              | true => exact .inr ⟨rfl, hannounced, hasked rfl⟩
              | false => simp [CommandStatus.ofResult, Except.mapError] at hunsuccessful

/-- Commands of a session with a log. -/
def logging : Services EventLog := ⟨EventLog.sink, fun _ _ => .found [], none⟩

/-- A definition is taken away when a stop comes, and is announced as taken away. -/
theorem asked_when_undefined :
    let b := Command.behaviour logging
    let session : Session := Session.leftBy ⟨.empty, {}⟩ (.define "two" [.push (.integer 2)])
    let s : Scene Command Run (World EventLog) := start ⟨session, .empty none, .closed⟩
    let command : Command := .directive (.undefine "two")
    let turns : List (Turn Command (World EventLog)) :=
      [.enroll command, .push 0, .work, .work, .work, .beginStop, .endStop, .work, .work, .work,
        .work]
    command.Announces ∧ (s.run b turns).queue.status? 0 = some .aborted ∧
      ¬Untouched b 0 World.session s turns ∧
      ∃ text, Done logging s turns 0 command (some text) ∧
        Announced logging s turns 0 text (.ok ()) ∧ Asked b 0 s turns := by
  intro b session s command turns
  have haborted : (s.run b turns).queue.status? 0 = some .aborted := by decide
  have htouched : ¬Untouched b 0 World.session s turns := by
    rintro ⟨-, -, -, -, hacts, -⟩
    rcases hacts with hothers | hsame
    · exact absurd hothers (Holds.not_ofOthers ⟨_, rfl, rfl⟩)
    · have hnot := congrArg (fun session => (session.library.resolve? "two").isSome) hsame
      revert hnot
      decide
  refine ⟨True.intro, haborted, htouched, ?_⟩
  obtain ⟨text, hdone, ⟨hfailed, _⟩ | ⟨_, hannounced, hasked⟩⟩ :=
    (failed_or_aborted_leaves_session logging ⟨session, .empty none, .closed⟩ [] turns.tail command
      True.intro (.inr rfl) haborted).resolve_left htouched
  · cases hfailed
  · exact ⟨text, hdone, hannounced, hasked⟩

/-- The message of a definition is refused: the definition has failed, and the name is bound. -/
theorem refused_definition_stays :
    let b := Command.behaviour logging
    let s : Scene Command Run (World EventLog) := start ⟨⟨.empty, {}⟩, .empty (some 0), .closed⟩
    let turns : List (Turn Command (World EventLog)) :=
      .enroll (.define "two" [.push (.integer 2)]) :: .push 0 :: List.replicate 8 .work
    (s.run b turns).queue.status? 0 = some .failed ∧
      (s.queue.world.session.library.resolve? "two").isSome = false ∧
      ((s.run b turns).queue.world.session.library.resolve? "two").isSome = true ∧
      ¬Untouched b 0 (fun w => w.session.library.resolve?) s turns := by
  intro b s turns
  refine ⟨by decide, by decide, by decide, ?_⟩
  rintro ⟨-, -, -, -, hacts, -⟩
  rcases hacts with hothers | hsame
  · exact absurd hothers (Holds.not_ofOthers ⟨_, rfl, rfl⟩)
  · have hnot := congrArg Option.isSome (congrFun hsame "two")
    revert hnot
    decide

end Done

/-! ## Its report -/

/-- No command changes its name when it is asked to stop. -/
theorem reported_under_own_name {σ : Type} (services : Services σ) (world : World σ)
    {turns : List (Turn Command (World σ))} {id : CommandId} {report : ErrorReport}
    (h : .offered id report ∈ (start world).log (Command.behaviour services) turns) :
    (added turns)[id]?.map Command.name = some report.commandName :=
  reported_name (fun command _ => by cases command <;> rfl) h

end Scene

end StackQuery
