import StackQuery.Proofs.CommandQueue.Results

/-!
# Where commands come from

A command is carried from the one who adds it through the queue to the worker
together with its number, and is never mixed up with another one.  Only while
the worker holds it may it be asked to stop, any number of times.  So whatever
is reported about a number is about the command that was added under it.
-/

namespace StackQuery

variable {κ ρ ω : Type} {b : Behaviour κ ρ ω}

/-! ## Asking a command to stop -/

/-- What a command may become by being asked to stop, any number of times. -/
inductive Behaviour.Becomes (b : Behaviour κ ρ ω) (command : κ) : κ → Prop where
  | itself : Becomes b command command
  | asked {asked : κ} (h : Becomes b command asked) (world : ω) :
      Becomes b command (b.abort asked world).1

theorem Behaviour.Becomes.name_eq {command asked : κ} (h : b.Becomes command asked)
    (hkeeps : ∀ command world, b.name (b.abort command world).1 = b.name command) :
    b.name asked = b.name command := by
  induction h with
  | itself => rfl
  | asked _ world ih => exact (hkeeps _ world).trans ih

/-! ## Commands and their numbers -/

namespace Scene

variable {s s' : Scene κ ρ ω} {turns : List (Turn κ ω)} {turn : Turn κ ω} {all : List κ}

/-- Wherever a command is, it is the one that was added under its number. -/
structure Traced (b : Behaviour κ ρ ω) (all : List κ) (s : Scene κ ρ ω) : Prop where
  numbered : s.queue.records.length = all.length
  enrolled : ∀ pair ∈ s.enrolled, all[pair.1]? = some pair.2
  pending : ∀ pair ∈ s.queue.pending, all[pair.1]? = some pair.2
  held : ∀ job, s.queue.worker = .busy job →
    ∃ command, all[job.id]? = some command ∧ b.Becomes command job.command

theorem traced_start (b : Behaviour κ ρ ω) (world : ω) : Traced b [] (start world) where
  numbered := rfl
  enrolled := by simp [start]
  pending := by simp [start, CommandQueue.empty]
  held := by simp [start, CommandQueue.empty]

end Scene

/-- A step of the worker leaves it with the command that it holds, or with one that has waited. -/
theorem CommandQueue.Steps.holds {q q' : CommandQueue κ ρ ω} (h : Steps b q q')
    {job' : Job κ ρ} (hworker' : q'.worker = .busy job') :
    (∃ job, q.worker = .busy job ∧ job'.id = job.id ∧ job'.command = job.command) ∨
      (job'.id, job'.command) ∈ q.pending := by
  cases h with
  | @proceeds job _ hworker hproceeds =>
      cases hproceeds with
      | begins | works | returns | judges | reports | records =>
          cases hworker'
          exact .inl ⟨job, hworker, rfl, rfl⟩
      | releases => cases hworker'
  | takes _ hpending =>
      cases hworker'
      exact .inr (hpending ▸ List.mem_cons_self)
  | parks | seeks | exits => cases hworker'

theorem CommandQueue.Steps.pending_subset {q q' : CommandQueue κ ρ ω} (h : Steps b q q') :
    q'.pending ⊆ q.pending := by
  cases h with
  | @proceeds job _ _ hproceeds =>
      cases hproceeds with
      | @reports _ result => cases result <;> exact List.Subset.refl _
      | begins | works | returns | judges | records | releases => exact List.Subset.refl _
  | takes _ hpending => exact hpending ▸ List.subset_cons_self _ _
  | parks | seeks | exits => exact List.Subset.refl _

theorem CommandQueue.Handles.of_offered {q q' : CommandQueue κ ρ ω}
    {occurrences : List Occurrence} (h : Handles b q occurrences q') {id : CommandId}
    {report : ErrorReport} (hmem : .offered id report ∈ occurrences) :
    ∃ job failure, q.worker = .busy job ∧ job.id = id ∧
      report = .ofFailure (some id) (b.name job.command) failure := by
  cases h with
  | reports hworker =>
      obtain ⟨failure, _, hoffered⟩ := mem_reports hmem
      cases hoffered
      exact ⟨_, failure, hworker, rfl, rfl⟩
  | returns | releases => simp at hmem
  | takes | begins | works | judges | records | rests => cases hmem

namespace Scene

variable {s s' : Scene κ ρ ω} {turns : List (Turn κ ω)} {turn : Turn κ ω} {all : List κ}

theorem Traced.leads (h : Traced b all s) (hleads : Leads b s turn s') :
    Traced b (all ++ turn.command?.toList) s' := by
  cases hleads with
  | stays hturn =>
      rw [hturn, Option.toList_none, List.append_nil]
      exact h
  | enrolls command =>
      refine ⟨by simp [CommandQueue.enroll, h.numbered, Turn.command?], fun pair hpair => ?_,
        fun pair hpair => getElem?_append_of_some (h.pending pair hpair) [command],
        fun job hjob => ?_⟩
      · rcases List.mem_append.mp hpair with hold | hnew
        · exact getElem?_append_of_some (h.enrolled pair hold) [command]
        · rw [List.mem_singleton.mp hnew, h.numbered]
          simp [Turn.command?]
      · obtain ⟨known, hknown, hbecomes⟩ := h.held job hjob
        exact ⟨known, getElem?_append_of_some hknown [command], hbecomes⟩
  | @pushes place id command _ hplace =>
      simp only [Turn.command?, Option.toList_none, List.append_nil]
      refine ⟨h.numbered, fun pair hpair => ?_, fun pair hpair => ?_, h.held⟩
      · exact h.enrolled pair ((List.eraseIdx_sublist _ _).subset hpair)
      · rcases List.mem_append.mp hpair with hold | hnew
        · exact h.pending pair hold
        · rw [List.mem_singleton.mp hnew]
          exact h.enrolled (id, command) (List.mem_of_getElem? hplace)
  | @drops id command pending _ hpending =>
      simp only [Turn.command?, Option.toList_none, List.append_nil]
      refine ⟨?_, h.enrolled, fun pair hpair => ?_, h.held⟩
      · simpa [CommandQueue.record] using h.numbered
      · exact h.pending pair (hpending ▸ List.mem_cons_of_mem _ hpair)
  | unlocks =>
      simp only [Turn.command?, Option.toList_none, List.append_nil]
      unfold CommandQueue.endStop
      split
      next job hworker =>
        refine ⟨h.numbered, h.enrolled, h.pending, fun job' hjob' => ?_⟩
        cases hjob'
        obtain ⟨known, hknown, hbecomes⟩ := h.held job hworker
        exact ⟨known, hknown, hbecomes.asked _⟩
      next => exact ⟨h.numbered, h.enrolled, h.pending, h.held⟩
  | works _ hstep =>
      simp only [Turn.command?, Option.toList_none, List.append_nil]
      have hsteps := CommandQueue.steps_of_advance? hstep
      have hlength := (CommandQueue.advances_of_advance? hstep).records_length
      refine ⟨hlength.trans h.numbered, h.enrolled,
        fun pair hpair => h.pending pair (hsteps.pending_subset hpair), fun job' hjob' => ?_⟩
      rcases hsteps.holds hjob' with ⟨job, hjob, hid, hcommand⟩ | hwaited
      · rw [hid, hcommand]
        exact h.held job hjob
      · exact ⟨job'.command, h.pending _ hwaited, .itself⟩
  | signals =>
      simp only [Turn.command?, Option.toList_none, List.append_nil]
      unfold CommandQueue.signalExit
      split <;> exact ⟨h.numbered, h.enrolled, h.pending, h.held⟩
  | notifies | locks | takesFailure | changes =>
      simp only [Turn.command?, Option.toList_none, List.append_nil]
      exact ⟨h.numbered, h.enrolled, h.pending, h.held⟩

theorem traced_run (b : Behaviour κ ρ ω) (world : ω) (turns : List (Turn κ ω)) :
    Traced b (added turns) ((start world).run b turns) := by
  induction turns using List.reverseRecOn with
  | nil => exact traced_start b world
  | append_singleton turns turn ih =>
      rw [added_concat]
      exact ih.leads (leads_concat b (start world) turns turn)

/-- What is reported about a number is about the command that was added under it. -/
theorem reported_of_added {world : ω} {id : CommandId} {report : ErrorReport}
    (h : .offered id report ∈ (start world).log b turns) :
    ∃ command asked failure, (added turns)[id]? = some command ∧ b.Becomes command asked ∧
      report = .ofFailure (some id) (b.name asked) failure := by
  induction turns using List.reverseRecOn with
  | nil => cases h
  | append_singleton turns turn ih =>
      rw [added_concat]
      rw [log_concat, List.mem_append] at h
      rcases h with hbefore | hnow
      · obtain ⟨command, asked, failure, hcommand, hreport⟩ := ih hbefore
        exact ⟨command, asked, failure, getElem?_append_of_some hcommand _, hreport⟩
      · have hoccurs := occurs_after b ((start world).run b turns) turn
        generalize ((start world).run b turns).occurrences b turn = occurrences at hnow hoccurs
        generalize ((start world).run b turns).after b turn = s' at hoccurs
        cases hoccurs with
        | works hstep =>
            obtain ⟨job, failure, hworker, rfl, hreport⟩ := hstep.of_offered hnow
            obtain ⟨command, hcommand, hbecomes⟩ := (traced_run b world turns).held job hworker
            exact ⟨command, job.command, failure, getElem?_append_of_some hcommand _, hbecomes,
              hreport⟩
        | hands => simp at hnow
        | aside => cases hnow

theorem reported_name {world : ω} {id : CommandId} {report : ErrorReport}
    (hkeeps : ∀ command world, b.name (b.abort command world).1 = b.name command)
    (h : .offered id report ∈ (start world).log b turns) :
    (added turns)[id]?.map b.name = some report.commandName := by
  obtain ⟨command, asked, failure, hadded, hbecomes, rfl⟩ := reported_of_added h
  rw [hadded, Option.map_some, ← hbecomes.name_eq hkeeps]
  rfl

end Scene

end StackQuery
