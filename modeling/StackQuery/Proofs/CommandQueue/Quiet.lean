import Mathlib.Data.List.Induction
import StackQuery.Proofs.CommandQueue.Idle
import StackQuery.Proofs.CommandQueue.Serial
import StackQuery.Proofs.CommandQueue.Waking

/-!
# Queues that are left in peace

Callers may add commands to a queue in any order and look at what has become of
them.  As long as they neither stop it nor tell its worker to exit, what has
been pushed is run one by one in the order of the pushes, wherever the steps of
the worker fall between those of the callers.
-/

namespace StackQuery

/-- Nothing is stopped, told to exit or changed from outside. -/
def Turn.IsQuiet {κ ω : Type} : Turn κ ω → Prop
  | .beginStop | .signalExit | .change _ => False
  | _ => True

namespace Scene

variable {κ ρ ω : Type} {b : Behaviour κ ρ ω} {world : ω} {s s' : Scene κ ρ ω}
  {turns : List (Turn κ ω)} {turn : Turn κ ω} {all : List κ} {pairs : List (CommandId × κ)}

/-- The commands with their numbers, in the order in which they have been pushed. -/
def entries (turns : List (Turn κ ω)) (s : Scene κ ρ ω) : List (CommandId × κ) :=
  s.pushed.filterMap fun id => (added turns)[id]?.map (id, ·)

/-- Of all commands that have been enrolled some have been pushed, and played in this order. -/
structure Quiet (b : Behaviour κ ρ ω) (world : ω) (all : List κ) (s : Scene κ ρ ω)
    (pairs : List (CommandId × κ)) : Prop where
  free : s.stopping = false
  unset : s.queue.exitSign = .unset
  stays : s.queue.worker ≠ .exited
  numbered : s.queue.records.length = all.length
  enrolled : ∀ pair ∈ s.enrolled, all[pair.1]? = some pair.2
  pushed : pairs.map (·.1) = s.pushed
  commands : ∀ pair ∈ pairs, all[pair.1]? = some pair.2
  played : s.queue.Played b world pairs

theorem quiet_start (b : Behaviour κ ρ ω) (world : ω) : Quiet b world [] (start world) [] where
  free := rfl
  unset := rfl
  stays := by simp [start, CommandQueue.empty]
  numbered := rfl
  enrolled := by simp [start]
  pushed := rfl
  commands := by simp
  played := .apart (q := .empty world) (.nil world) rfl (by simp [CommandQueue.empty])

private theorem quiet_enrolls (h : Quiet b world all s pairs) (command : κ)
    (hkeeps : s.queue.Keeps (s.queue.enroll (b.name command)).1) :
    Quiet b world (all ++ [command])
      { s with
        queue := (s.queue.enroll (b.name command)).1
        enrolled := s.enrolled ++ [(s.queue.records.length, command)] } pairs := by
  refine ⟨h.free, h.unset, h.stays, ?_, ?_, h.pushed,
    fun pair hpair => getElem?_append_of_some (h.commands pair hpair) [command],
    h.played.kept hkeeps rfl rfl rfl⟩
  · simp [CommandQueue.enroll, h.numbered]
  · intro pair hpair
    rcases List.mem_append.mp hpair with hold | hnew
    · exact getElem?_append_of_some (h.enrolled pair hold) [command]
    · rw [List.mem_singleton.mp hnew, h.numbered]
      simp

private theorem quiet_pushes (h : Quiet b world all s pairs) {place : Nat} {id : CommandId}
    {command : κ} (hplace : s.enrolled[place]? = some (id, command)) :
    Quiet b world all
      { s with
        queue := s.queue.push id command
        enrolled := s.enrolled.eraseIdx place
        untold := s.untold + 1
        pushed := s.pushed ++ [id] } (pairs ++ [(id, command)]) := by
  have hcommand := h.enrolled (id, command) (List.mem_of_getElem? hplace)
  refine ⟨h.free, h.unset, h.stays, h.numbered, ?_, ?_, ?_, h.played.push id command⟩
  · exact fun pair hpair => h.enrolled pair ((List.eraseIdx_sublist _ _).subset hpair)
  · simp [h.pushed]
  · intro pair hpair
    rcases List.mem_append.mp hpair with hold | hnew
    · exact h.commands pair hold
    · rw [List.mem_singleton.mp hnew]
      exact hcommand

theorem Quiet.leads (h : Quiet b world all s pairs) (htracked : s.Tracked)
    (hkeeps : s.queue.Keeps s'.queue) (hquiet : turn.IsQuiet) (hleads : Leads b s turn s') :
    ∃ pairs, Quiet b world (all ++ turn.command?.toList) s' pairs := by
  cases hleads with
  | stays hturn =>
      rw [hturn, Option.toList_none, List.append_nil]
      exact ⟨pairs, h⟩
  | enrolls command => exact ⟨pairs, quiet_enrolls h command hkeeps⟩
  | pushes _ hplace =>
      simp only [Turn.command?, Option.toList_none, List.append_nil]
      exact ⟨_, quiet_pushes h hplace⟩
  | notifies =>
      simp only [Turn.command?, Option.toList_none, List.append_nil]
      exact ⟨pairs, h.free, h.unset, h.stays, h.numbered, h.enrolled, h.pushed, h.commands,
        h.played.kept hkeeps rfl rfl rfl⟩
  | takesFailure =>
      simp only [Turn.command?, Option.toList_none, List.append_nil]
      exact ⟨pairs, h.free, h.unset, h.stays, h.numbered, h.enrolled, h.pushed, h.commands,
        h.played.kept hkeeps rfl rfl rfl⟩
  | @works queue _ hstep =>
      simp only [Turn.command?, Option.toList_none, List.append_nil]
      have hsteps := CommandQueue.steps_of_advance? hstep
      obtain ⟨hunset, hstays⟩ := hsteps.unset h.unset
      have hplayed := h.played.steps h.unset (fun job hjob => (htracked.held job hjob).1) hkeeps
        hsteps
      have hlength := (CommandQueue.advances_of_advance? hstep).records_length
      exact ⟨pairs, h.free, hunset, hstays, hlength.trans h.numbered, h.enrolled, h.pushed,
        h.commands, hplayed⟩
  | drops hlocked => simp [h.free] at hlocked
  | unlocks hlocked => simp [h.free] at hlocked
  | locks => exact hquiet.elim
  | signals => exact hquiet.elim
  | changes => exact hquiet.elim

theorem quiet_run (b : Behaviour κ ρ ω) (world : ω) (hquiet : ∀ turn ∈ turns, turn.IsQuiet) :
    ∃ pairs, Quiet b world (added turns) ((start world).run b turns) pairs := by
  induction turns using List.reverseRecOn with
  | nil => exact ⟨[], quiet_start b world⟩
  | append_singleton turns turn ih =>
      simp only [List.mem_append, List.mem_singleton, or_imp, forall_and, forall_eq] at hquiet
      obtain ⟨pairs, h⟩ := ih hquiet.1
      obtain ⟨_, htracked⟩ := run_inOrder_tracked b world turns
      have hacts := acts_concat b (start world) turns turn
      have hkeeps : ((start world).run b turns).queue.Keeps
          ((start world).run b (turns ++ [turn])).queue := by
        intro id status hstatus hfinished
        have hmoves := htracked.moves hacts id
        rw [hstatus] at hmoves
        exact hmoves.finished hfinished
      rw [added_concat]
      exact h.leads htracked hkeeps hquiet.2 (leads_concat b (start world) turns turn)

theorem Quiet.entries_eq (h : Quiet b world (added turns) s pairs) : entries turns s = pairs := by
  rw [entries, ← h.pushed, List.filterMap_map]
  calc
    List.filterMap _ pairs = List.filterMap some pairs := by
      refine List.filterMap_congr fun pair hpair => ?_
      simp [h.commands pair hpair]
    _ = pairs := List.filterMap_some

theorem map_fst_entries (hquiet : ∀ turn ∈ turns, turn.IsQuiet) :
    (entries turns ((start world).run b turns)).map (·.1) = ((start world).run b turns).pushed := by
  obtain ⟨pairs, h⟩ := quiet_run b world hquiet
  rw [h.entries_eq, h.pushed]

/-- Once a quiet queue is idle, what has been pushed has been run one by one. -/
theorem oneByOne_of_idle (hquiet : ∀ turn ∈ turns, turn.IsQuiet)
    (hidle : ((start world).run b turns).queue.idle = true) :
    let s := (start world).run b turns
    ∃ results, b.OneByOne world (entries turns s) results s.queue.world ∧
      s.queue.Ended (entries turns s) results := by
  intro s
  obtain ⟨pairs, h⟩ := quiet_run b world hquiet
  have hflagged := run_flagged b world turns
  rw [show entries turns s = pairs from h.entries_eq]
  cases h.played with
  | amid _ _ hworker => exact absurd hidle (hflagged.not_idle hworker)
  | apart hdone hended =>
      rw [(hflagged.nothing_left hidle).1, List.append_nil]
      exact ⟨_, hdone, hended⟩

private theorem awake_after_notify (hheard : s.Heard) (hflagged : s.Flagged)
    (hfree : s.stopping = false) (hparked : (s.after b .notify).queue.worker = .parked) :
    (s.after b .notify).queue.idle = true ∨ (s.after b .notify).queue.notice = true := by
  simp only [after] at hparked ⊢
  split at hparked
  next htold =>
    rw [if_pos htold]
    rcases hheard hparked with hpending | hnotice | huntold
    · have hnone := CommandQueue.running?_eq_none (q := s.queue) (by simp [hparked])
      exact .inl (hflagged.raised hfree hpending hnone)
    · exact .inr hnotice
    · omega
  next htold =>
    rw [if_neg htold]
    exact .inr rfl

theorem entries_notify (b : Behaviour κ ρ ω) (s : Scene κ ρ ω) (turns : List (Turn κ ω)) :
    entries (turns ++ [.notify]) (s.after b .notify) = entries turns s := by
  have hpushed : (s.after b .notify).pushed = s.pushed := by
    simp only [after]
    split <;> rfl
  simp only [entries, hpushed, added_concat, Turn.command?, Option.toList_none, List.append_nil]

/-- A quiet queue whose commands would run one by one becomes idle, once it is told of them. -/
theorem idle_reached {results : List (Except Failure Unit)} {final : ω}
    (hquiet : ∀ turn ∈ turns, turn.IsQuiet)
    (hall : b.OneByOne world (entries turns ((start world).run b turns)) results final) :
    ∃ fuel, ((start world).run b (turns ++ .notify :: List.replicate fuel .work)).queue.idle =
      true := by
  have hquiet' : ∀ turn ∈ turns ++ [.notify], turn.IsQuiet := by
    simpa [or_imp, forall_and, Turn.IsQuiet] using hquiet
  obtain ⟨_, hbefore⟩ := quiet_run b world hquiet
  obtain ⟨pairs, h⟩ := quiet_run b world hquiet'
  have hpairs := h.entries_eq
  rw [run_concat] at h hpairs
  rw [← entries_notify b, hpairs] at hall
  have hawake := awake_after_notify (b := b) (run_heard b world turns) (run_flagged b world turns)
    hbefore.free
  obtain ⟨fuel, hidle⟩ := h.played.ends hall h.unset h.stays hawake
  refine ⟨fuel, ?_⟩
  rw [List.append_cons, run_append, run_concat, run_work h.free]
  exact hidle

end Scene

end StackQuery
