import Mathlib.Data.List.Nodup
import StackQuery.Proofs.CommandQueue.Judging
import StackQuery.Proofs.CommandQueue.Waking

/-!
# What a stop does

A stop that has the lock finds the queue with some commands that wait and at
most one that the worker holds.  The waiting ones leave the order of what is to
start without having started, and nothing puts them back.  The worker can go on
with its command under the lock, but not past the look for a request to abort,
so a command that has not returned before the stop is judged as one that was
asked to stop.  A command that is pushed after the stop can only be pushed when
the lock is free again, and then only another stop could ask it to stop.
-/

namespace StackQuery

namespace CommandQueue

variable {κ ρ ω : Type} {b : Behaviour κ ρ ω} {q q' : CommandQueue κ ρ ω}

theorem Advances.of_unlocked (h : q.Advances q') (hlock : q.worker.needsLock = false) :
    q'.waiting = q.waiting ∧ q'.worker.starting = [] := by
  have hwaiting : q'.waiting = q.waiting := by
    cases h with
    | takes hworker => simp [hworker, Worker.needsLock] at hlock
    | parks | starts | goesOn | records | releases | rests => rfl
  have hawaited := h.awaited
  simp only [CommandQueue.awaited, hwaiting] at hawaited
  have hlength := congrArg List.length hawaited
  simp only [List.length_append] at hlength
  exact ⟨hwaiting, List.eq_nil_of_length_eq_zero (by omega)⟩

end CommandQueue

namespace Scene

variable {κ ρ ω : Type} {b : Behaviour κ ρ ω} {world : ω} {s s' : Scene κ ρ ω}
  {turns : List (Turn κ ω)} {turn : Turn κ ω} {id : CommandId}

/-! ## The lock -/

theorem Leads.free (h : Leads b s turn s') (hturn : turn ≠ .beginStop)
    (hfree : s.stopping = false) : s'.stopping = false := by
  cases h with
  | locks => exact absurd rfl hturn
  | unlocks => rfl
  | stays | enrolls | pushes | notifies | drops | works | takesFailure | signals | changes =>
      exact hfree

theorem free_run (hturns : .beginStop ∉ turns) (hfree : s.stopping = false) :
    (s.run b turns).stopping = false := by
  induction turns generalizing s with
  | nil => exact hfree
  | cons turn rest ih =>
      simp only [List.mem_cons, not_or] at hturns
      exact ih hturns.2 ((leads_after b s turn).free (Ne.symm hturns.1) hfree)

theorem stopping_run_drops (b : Behaviour κ ρ ω) (s : Scene κ ρ ω) :
    (s.run b (List.replicate s.queue.pending.length .dropFirst ++ [.endStop])).stopping =
      false := by
  cases hlocked : s.stopping with
  | false => exact free_run (by simp) hlocked
  | true => rw [run_drops hlocked]

/-! ## The order of what is started and what is to start -/

/-- All commands that have been started or are still to start, in this order. -/
def lineup (s : Scene κ ρ ω) : List CommandId := s.started ++ s.queue.awaited

/-- A push adds at the end of the order, a stop takes from it, and nothing else changes it. -/
theorem Acts.lineup (h : Acts b s s') :
    s'.pushed = s.pushed ∧ s'.lineup = s.lineup ∨
      (∃ id ∈ s.enrolled.map (·.1), s'.pushed = s.pushed ++ [id] ∧
        s'.lineup = s.lineup ++ [id] ∧ id ∈ s'.queue.waiting) ∨
      s.stopping = true ∧ s'.pushed = s.pushed ∧ s'.lineup.Sublist s.lineup := by
  cases h with
  | @pushes place id command _ hplace =>
      have hid : id ∈ s.enrolled.map (·.1) :=
        List.mem_map_of_mem (f := (·.1)) (List.mem_of_getElem? hplace)
      refine .inr (.inl ⟨id, hid, rfl, ?_, ?_⟩)
      · simp [Scene.lineup, CommandQueue.awaited, CommandQueue.waiting, CommandQueue.push]
      · simp [CommandQueue.waiting, CommandQueue.push]
  | @drops id command pending hlocked hpending =>
      refine .inr (.inr ⟨hlocked, rfl, ?_⟩)
      refine .append_left (.append_left ?_ _) _
      simp [CommandQueue.waiting, hpending]
  | @asks job _ _ hworker command world =>
      refine .inl ⟨rfl, ?_⟩
      rw [Scene.lineup, Scene.lineup, CommandQueue.awaited_of_busy hworker]
      rfl
  | @works queue _ hstep =>
      refine .inl ⟨rfl, ?_⟩
      rw [Scene.lineup, Scene.lineup, List.append_assoc, hstep.awaited]
  | stays | enrolls | idles | aside => exact .inl ⟨rfl, rfl⟩

theorem InOrder.lineup_nodup (h : s.InOrder) : s.lineup.Nodup :=
  (List.nodup_append.mp h.distinct).1.sublist h.ordered

/-! ## Commands that are passed over -/

/-- A command has been pushed and aborted, and is out of the order in which commands start. -/
structure PassedOver (s : Scene κ ρ ω) (id : CommandId) : Prop where
  pushed : id ∈ s.pushed
  left_out : id ∉ s.lineup
  aborted : s.queue.status? id = some .aborted

theorem PassedOver.acts (h : s.PassedOver id) (hinOrder : s.InOrder) (htracked : s.Tracked)
    (hacts : Acts b s s') : s'.PassedOver id := by
  have haborted : s'.queue.status? id = some .aborted := by
    have hmoves := htracked.moves hacts id
    rw [h.aborted] at hmoves
    exact hmoves.finished rfl
  rcases hacts.lineup with ⟨hpushed, hlineup⟩ | ⟨new, hnew, hpushed, hlineup, _⟩ |
    ⟨_, hpushed, hlineup⟩
  · exact ⟨hpushed ▸ h.pushed, hlineup ▸ h.left_out, haborted⟩
  · refine ⟨?_, ?_, haborted⟩
    · rw [hpushed]
      exact List.mem_append_left _ h.pushed
    · rw [hlineup, List.mem_append, List.mem_singleton]
      rintro (hin | rfl)
      · exact h.left_out hin
      · exact hinOrder.not_enrolled h.pushed hnew
  · exact ⟨hpushed ▸ h.pushed, fun hin => h.left_out (hlineup.subset hin), haborted⟩

theorem PassedOver.not_held (h : s.PassedOver id) (hinOrder : s.InOrder) {job : Job κ ρ}
    (hworker : s.queue.worker = .busy job) : job.id ≠ id := by
  rintro rfl
  refine h.left_out ?_
  rw [lineup, CommandQueue.awaited, ← List.append_assoc]
  exact List.mem_append_left _ (hinOrder.held job hworker)

theorem waits_or_passedOver (hinOrder : s.InOrder) (htracked : s.Tracked)
    (hlocked : s.stopping = true) (hwaits : id ∈ s.queue.waiting) (hacts : Acts b s s') :
    s'.stopping = true ∧ id ∈ s'.queue.waiting ∨ s'.PassedOver id := by
  have hempty {P : Prop} (hpending : s.queue.pending = []) : P := by
    simp [CommandQueue.waiting, hpending] at hwaits
  cases hacts with
  | stays => exact .inl ⟨hlocked, hwaits⟩
  | enrolls command => exact .inl ⟨hlocked, hwaits⟩
  | pushes hfree => simp [hlocked] at hfree
  | @drops first command pending _ hpending =>
      have hwaiting : s.queue.waiting = first :: pending.map (·.1) := by
        rw [CommandQueue.waiting, hpending, List.map_cons]
      by_cases hid : id = first
      · subst hid
        refine .inr ⟨hinOrder.waiting_subset hwaits, ?_, ?_⟩
        · have hnodup := hinOrder.lineup_nodup
          rw [lineup, CommandQueue.awaited, hwaiting, ← List.append_assoc] at hnodup
          have hfirst := List.nodup_middle.mp hnodup
          rw [List.nodup_cons, List.append_assoc] at hfirst
          exact hfirst.1
        · exact CommandQueue.status?_record_of_some (htracked.queued id (.inr hwaits)) _
      · rw [hwaiting, List.mem_cons] at hwaits
        exact .inl ⟨hlocked, hwaits.resolve_left hid⟩
  | asks _ hpending => exact hempty hpending
  | idles _ hpending => exact hempty hpending
  | works hlock hstep =>
      refine .inl ⟨hlocked, ?_⟩
      rwa [(hstep.of_unlocked (hlock hlocked)).1]
  | aside hlock => exact .inl ⟨hlock hlocked, hwaits⟩

/-! ## What a stop finds, and what comes after it -/

section Stop

variable {before later : List (Turn κ ω)}

theorem concat_later (before later : List (Turn κ ω)) (turn : Turn κ ω) :
    before ++ .beginStop :: (later ++ [turn]) = before ++ .beginStop :: later ++ [turn] := by
  simp

theorem stop_finds_waiting (hid : id ∈ ((start world).run b before).queue.waiting)
    (later : List (Turn κ ω)) :
    let s' := (start world).run b (before ++ .beginStop :: later)
    s'.stopping = true ∧ id ∈ s'.queue.waiting ∨ s'.PassedOver id := by
  induction later using List.reverseRecOn with
  | nil =>
      simp only [run_concat]
      exact .inl ⟨rfl, hid⟩
  | append_singleton later turn ih =>
      rw [concat_later]
      obtain ⟨hinOrder, htracked⟩ := run_inOrder_tracked b world (before ++ .beginStop :: later)
      have hacts := acts_concat b (start world) (before ++ .beginStop :: later) turn
      rcases ih with ⟨hlocked, hwaits⟩ | hpassed
      · exact waits_or_passedOver hinOrder htracked hlocked hwaits hacts
      · exact .inr (hpassed.acts hinOrder htracked hacts)

theorem stop_finds_running {job : Job κ ρ}
    (hworker : ((start world).run b before).queue.worker = .busy job)
    (hphase : job.phase = .taken ∨ ∃ run, job.phase = .started run)
    (later : List (Turn κ ω)) : Bound b world true (before ++ .beginStop :: later) job.id := by
  induction later using List.reverseRecOn with
  | nil =>
      have hheld : ((start world).run b (before ++ [.beginStop])).queue.worker = .busy job := by
        rwa [run_concat]
      refine .held hheld rfl ?_ (.inr ⟨rfl, ?_⟩)
      · rcases hphase with htaken | ⟨run, hstarted⟩
        · rw [htaken]
          exact True.intro
        · rw [hstarted]
          exact True.intro
      · rw [run_concat]
        rfl
  | append_singleton later turn ih =>
      rw [concat_later]
      exact ih.concat (fun hasked => by cases hasked) turn

theorem waits_or_taken (hfree : s.stopping = false) (hwaits : id ∈ s.queue.waiting)
    (hacts : Acts b s s') :
    id ∈ s'.queue.waiting ∨ ∃ command, s'.queue.worker = .busy ⟨id, command, false, .taken⟩ := by
  have hunlocked {P : Prop} (hlocked : s.stopping = true) : P := by simp [hlocked] at hfree
  cases hacts with
  | pushes =>
      refine .inl ?_
      simp only [CommandQueue.waiting, CommandQueue.push, List.map_append, List.mem_append]
      exact .inl hwaits
  | drops hlocked => exact hunlocked hlocked
  | asks hlocked => exact hunlocked hlocked
  | idles hlocked => exact hunlocked hlocked
  | stays | enrolls | aside => exact .inl hwaits
  | works _ hstep =>
      cases hstep with
      | @takes first command pending _ hpending =>
          simp only [CommandQueue.waiting, hpending, List.map_cons, List.mem_cons] at hwaits
          rcases hwaits with rfl | hwaits
          · exact .inr ⟨command, rfl⟩
          · exact .inl hwaits
      | parks | starts | goesOn | records | releases | rests => exact .inl hwaits

/-- The stop still has the lock, and what the worker is to start is what it found there. -/
private structure Underway (s s' : Scene κ ρ ω) : Prop where
  locked : s'.stopping = true
  pushed : s'.pushed = s.pushed
  starting : s'.started ++ s'.queue.worker.starting = s.started ++ s.queue.worker.starting

/-- The stop is over, and some commands have been pushed since. -/
private structure Over (b : Behaviour κ ρ ω) (world : ω) (turns : List (Turn κ ω))
    (s : Scene κ ρ ω) (since : List CommandId) : Prop where
  free : ((start world).run b turns).stopping = false
  pushed : ((start world).run b turns).pushed = s.pushed ++ since
  lineup : ((start world).run b turns).lineup =
    s.started ++ s.queue.worker.starting ++ since
  spared : ∀ id ∈ since, id ∈ ((start world).run b turns).queue.waiting ∨
    Bound b world false turns id

private theorem underway_acts {found : Scene κ ρ ω} (h : Underway found s) (hacts : Acts b s s') :
    Underway found s' ∨
      s'.stopping = false ∧ s'.pushed = found.pushed ∧
        s'.lineup = found.started ++ found.queue.worker.starting := by
  cases hacts with
  | stays => exact .inl h
  | enrolls command => exact .inl ⟨h.locked, h.pushed, h.starting⟩
  | pushes hfree => simp [h.locked] at hfree
  | drops => exact .inl ⟨h.locked, h.pushed, h.starting⟩
  | @asks job _ hpending hworker command world =>
      refine .inr ⟨rfl, h.pushed, ?_⟩
      rw [← h.starting, hworker]
      simp [lineup, CommandQueue.awaited, CommandQueue.waiting, hpending, Worker.starting,
        Job.starting]
  | idles _ hpending =>
      refine .inr ⟨rfl, h.pushed, ?_⟩
      rw [← h.starting]
      simp [lineup, CommandQueue.awaited, CommandQueue.waiting, hpending]
  | works hlock hstep =>
      refine .inl ⟨h.locked, h.pushed, ?_⟩
      rw [(hstep.of_unlocked (hlock h.locked)).2, List.append_nil]
      exact h.starting
  | aside hlock => exact .inl ⟨hlock h.locked, h.pushed, h.starting⟩

private theorem Over.concat {since : List CommandId} (h : Over b world turns s since)
    (hturn : turn ≠ .beginStop) : ∃ since, Over b world (turns ++ [turn]) s since := by
  have hfree := (leads_concat b (start world) turns turn).free hturn h.free
  have hacts := acts_concat b (start world) turns turn
  have hspared : ∀ id ∈ since, id ∈ ((start world).run b (turns ++ [turn])).queue.waiting ∨
      Bound b world false (turns ++ [turn]) id := by
    intro id hid
    rcases h.spared id hid with hwaits | hbound
    · refine (waits_or_taken h.free hwaits hacts).imp_right fun htaken => ?_
      obtain ⟨command, hworker⟩ := htaken
      exact .held hworker rfl True.intro (.inl rfl)
    · exact .inr (hbound.concat (fun _ => h.free) turn)
  rcases hacts.lineup with ⟨hpushed, hlineup⟩ | ⟨new, _, hpushed, hlineup, hwaits⟩ |
    ⟨hlocked, _⟩
  · exact ⟨since, hfree, hpushed.trans h.pushed, hlineup.trans h.lineup, hspared⟩
  · refine ⟨since ++ [new], hfree, ?_, ?_, ?_⟩
    · rw [hpushed, h.pushed, List.append_assoc]
    · rw [hlineup, h.lineup, List.append_assoc]
    · intro id hid
      rcases List.mem_append.mp hid with hold | hnew
      · exact hspared id hold
      · rw [List.mem_singleton.mp hnew]
        exact .inl hwaits
  · simp [h.free] at hlocked

private theorem underway_or_over (b : Behaviour κ ρ ω) (world : ω) (before : List (Turn κ ω))
    (hlater : .beginStop ∉ later) :
    Underway ((start world).run b before) ((start world).run b (before ++ .beginStop :: later)) ∨
      ∃ since, Over b world (before ++ .beginStop :: later) ((start world).run b before) since := by
  induction later using List.reverseRecOn with
  | nil =>
      rw [run_concat]
      exact .inl ⟨rfl, rfl, rfl⟩
  | append_singleton later turn ih =>
      simp only [List.mem_append, List.mem_singleton, not_or] at hlater
      rw [concat_later]
      rcases ih hlater.1 with hunderway | ⟨since, hover⟩
      · have hacts := acts_concat b (start world) (before ++ .beginStop :: later) turn
        rcases underway_acts hunderway hacts with hunderway | ⟨hfree, hpushed, hlineup⟩
        · exact .inl hunderway
        · exact .inr ⟨[], hfree, by simpa using hpushed, by simpa using hlineup, by simp⟩
      · exact .inr (hover.concat (Ne.symm hlater.2))

/-- What a stop comes to that took the lock in the scene `s`, seen in the scene `s'`. -/
structure Stopped (b : Behaviour κ ρ ω) (world : ω) (turns : List (Turn κ ω))
    (s s' : Scene κ ρ ω) : Prop where
  /-- Whenever it is given its turns, the stop comes to its end. -/
  ends : (s'.run b (List.replicate s'.queue.pending.length .dropFirst ++ [.endStop])).stopping =
    false
  never_starts : ∀ id ∈ s.queue.waiting, id ∉ s'.started
  aborted : s'.stopping = false → ∀ id ∈ s.queue.waiting, ∀ more,
    (s'.run b more).queue.status? id = some .aborted
  /-- The world is changed only from outside and by commands that did not wait. -/
  silent : ∀ turn, (s'.after b turn).queue.world = s'.queue.world ∨
    (∃ world, turn = .change world) ∨
    ∃ job, s'.queue.worker = .busy job ∧ job.id ∉ s.queue.waiting ∧
      b.Touches job.id job.command s'.queue.world (s'.after b turn).queue.world
  /-- A command that had not returned ends by its result, but never completed. -/
  interrupted : ∀ job, s.queue.worker = .busy job →
    (job.phase = .taken ∨ ∃ run, job.phase = .started run) →
    ∀ status, s'.queue.status? job.id = some status → status.isFinished = true →
      (status = .aborted ∨ status = .failed) ∧
        ∃ result, Returned b (start world) turns job.id result ∧ status = .ofResult true result

/-- The commands `since` have been pushed after the stop, and it is as if it had not been. -/
structure Spared (b : Behaviour κ ρ ω) (world : ω) (turns : List (Turn κ ω))
    (s s' : Scene κ ρ ω) (since : List CommandId) : Prop where
  pushed : s'.pushed = s.pushed ++ since
  in_order : s'.started ++ s'.queue.awaited = s.started ++ s.queue.worker.starting ++ since
  own_result : ∀ id ∈ since, id ∈ s'.queue.waiting ∨
    (∃ job, s'.queue.worker = .busy job ∧ job.id = id ∧ job.abortRequested = false) ∨
    ∃ result, Returned b (start world) turns id result ∧
      s'.queue.status? id = some (.ofResult false result)
  /-- Nothing holds up those that wait but the run of an earlier command. -/
  goes_on : s'.untold = 0 → s'.queue.exitSign = .unset → s'.queue.worker ≠ .exited →
    s'.queue.waiting ≠ [] →
    (∃ queue, s'.queue.advance? b = some queue) ∨
      ∃ job run, s'.queue.worker = .busy job ∧ job.phase = .started run ∧
        b.step job.id job.command run s'.queue.world = .waiting

private theorem stopped (before later : List (Turn κ ω)) :
    Stopped b world (before ++ .beginStop :: later) ((start world).run b before)
      ((start world).run b (before ++ .beginStop :: later)) := by
  generalize hturns : before ++ .beginStop :: later = turns
  obtain ⟨hinOrder, htracked⟩ := run_inOrder_tracked b world turns
  have hfound : ∀ id ∈ ((start world).run b before).queue.waiting,
      ((start world).run b turns).stopping = true ∧
          id ∈ ((start world).run b turns).queue.waiting ∨
        ((start world).run b turns).PassedOver id := by
    intro id hid
    rw [← hturns]
    exact stop_finds_waiting hid later
  refine ⟨stopping_run_drops b _, ?_, ?_, ?_, ?_⟩
  · intro id hid hstarted
    rcases hfound id hid with ⟨_, hwaits⟩ | hpassed
    · refine (List.nodup_append.mp hinOrder.lineup_nodup).2.2 id hstarted id ?_ rfl
      exact List.mem_append_right _ hwaits
    · exact hpassed.left_out (List.mem_append_left _ hstarted)
  · intro hover id hid more
    rcases hfound id hid with ⟨hlocked, _⟩ | hpassed
    · simp [hover] at hlocked
    · exact finished_run rfl hinOrder htracked hpassed.aborted more
  · intro turn
    rcases (leads_after b ((start world).run b turns) turn).touches with hsame | hchange |
      ⟨job, hworker, htouches⟩
    · exact .inl hsame
    · exact .inr (.inl hchange)
    · refine .inr (.inr ⟨job, hworker, fun hid => ?_, htouches⟩)
      rcases hfound job.id hid with ⟨_, hwaits⟩ | hpassed
      · exact hinOrder.not_waiting hworker hwaits
      · exact hpassed.not_held hinOrder hworker rfl
  · intro job hworker hphase status hstatus hfinished
    have hbound := stop_finds_running hworker hphase later
    rw [hturns] at hbound
    obtain ⟨result, hreturned, rfl⟩ := hbound.status_of_finished hstatus hfinished
    exact ⟨CommandStatus.ofResult_true result, result, hreturned, rfl⟩

private theorem Over.spares {since : List CommandId} {found : Scene κ ρ ω}
    (h : Over b world turns found since) :
    Spared b world turns found ((start world).run b turns) since := by
  refine ⟨h.pushed, h.lineup, ?_, ?_⟩
  · intro id hid
    rcases h.spared id hid with hwaits | hbound
    · exact .inl hwaits
    · cases hbound with
      | held hworker hid _ hrequest => exact .inr (.inl ⟨_, hworker, hid, by simpa using hrequest⟩)
      | finished hreturned hstatus => exact .inr (.inr ⟨_, hreturned, hstatus⟩)
  · intro htold _ hstays hwaiting
    refine (run_heard b world turns).goes_on htold hstays fun hpending => hwaiting ?_
    simp [CommandQueue.waiting, hpending]

/--
Wherever a stop falls, the commands that wait then never run and are aborted,
one that runs and has not returned does not end completed, and those that are
pushed later run in order and end as they would have.
-/
theorem stop_aborts_and_spares (b : Behaviour κ ρ ω) (world : ω)
    (before later : List (Turn κ ω)) :
    let s := (start world).run b before
    let turns := before ++ .beginStop :: later
    let s' := (start world).run b turns
    Stopped b world turns s s' ∧
      (.beginStop ∉ later → s'.stopping = false →
        ∃ since, Spared b world turns s s' since) := by
  intro s turns s'
  refine ⟨stopped before later, fun hlater hover => ?_⟩
  rcases underway_or_over b world before hlater with hunderway | ⟨since, hsince⟩
  · have hlocked := hunderway.locked
    simp [s', turns] at hover
    simp [hover] at hlocked
  · exact ⟨since, hsince.spares⟩

end Stop

/-! Of two commands the first runs when everything is stopped; a third one is added afterwards. -/

example :
    let b : Behaviour Unit Unit Bool :=
      ⟨fun _ => "", fun _ => (),
        fun _ _ _ world => if world then .returned (.ok ()) world else .waiting,
        fun command world => (command, world), fun _ world => world⟩
    let s := (start false).run b
      ([.enroll (), .enroll (), .push 0, .push 0, .work, .work, .beginStop, .dropFirst, .endStop,
        .enroll (), .push 0, .change true] ++ List.replicate 13 .work)
    s.started = [0, 2] ∧ s.queue.status? 0 = some .aborted ∧ s.queue.status? 1 = some .aborted ∧
      s.queue.status? 2 = some .completed := by decide

end Scene

end StackQuery
