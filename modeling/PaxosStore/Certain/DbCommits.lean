import PaxosStore.Certain.DbWorkers

set_option autoImplicit false

namespace PaxosStore.Certain

open PaxosStore.Consensus

-- The chosen log from `first` on.
def chosenLog (chosen : Nat → Bytes) (first length : Nat) : List (Nat × Bytes) :=
  (List.range length).map fun k => (first + k, chosen (first + k))

-- A command of the limited worker has the value of its entry or none at all.
def Paired (chosen : Nat → Bytes) (cmd : DbCmd) : Prop :=
  (cmd.value = [] ∨ cmd.value = chosen cmd.entry) ∧ cmd.entry < 2 ^ 64

structure CommitInv (chosen : Nat → Bytes) (initial : Nat) (s : DbState) : Prop where
  log : s.commits = chosenLog chosen (initial + 1) s.commits.length
  status : s.maxCommittedEntry = initial + s.commits.length
  bounded : s.maxCommittedEntry < 2 ^ 64
  plog : ∀ entry record, s.plog entry = some record → record.chosen = true → record.value = chosen entry
  handed : ∀ cmd, cmd ∈ s.dbQueue → cmd.value = chosen cmd.entry ∧ 0 < cmd.entry ∧ cmd.entry < 2 ^ 64
  queued : ∀ cmd, cmd ∈ s.limitedQueue → Paired chosen cmd
  waiting : ∀ cmd, s.pending = some cmd → Paired chosen cmd
  running : ∀ cmd, cmd ∈ s.limitedJobs → Paired chosen cmd
  replays : ∀ job, job ∈ s.replays → job.maxChosenEntry < 2 ^ 64 ∧ (s.status = none → job.maxCommittedEntry = 0)

theorem chosen_log_succ (chosen : Nat → Bytes) (first length : Nat) :
    chosenLog chosen first (length + 1) = chosenLog chosen first length ++ [(first + length, chosen (first + length))] := by
  simp [chosenLog, List.range_succ]

theorem write_value_chosen (chosen : Nat → Bytes) (initial : Nat) (s : DbState) (calls : Calls) (entry : Nat) (value : Bytes)
    (inv : CommitInv chosen initial s) (found : s.getWriteValue calls entry = .ok value) : value = chosen entry := by
  unfold DbState.getWriteValue at found
  split at found
  · cases found
  · cases known : s.plog entry with
    | none => simp [known] at found
    | some record =>
        simp only [known] at found
        split at found
        · rename_i marked
          cases found
          exact inv.plog entry record known marked
        · cases found

-- The one way a commit happens: the next entry with its chosen value.
theorem commit_inv (chosen : Nat → Bytes) (initial : Nat) (s next : DbState) (calls : Calls) (entry : Nat) (value : Bytes)
    (inv : CommitInv chosen initial s) (here : entry = s.maxCommittedEntry + 1) (bounded : entry < 2 ^ 64)
    (right : value = chosen entry) (done : s.commit calls entry value = some next) : CommitInv chosen initial next := by
  unfold DbState.commit at done
  split at done
  · cases done
  · cases done
    have position : entry = initial + 1 + s.commits.length := by
      rw [here, inv.status]
      omega
    constructor
    · rw [List.length_append, List.length_singleton, chosen_log_succ, ← inv.log, right, position]
    · simp only [DbState.maxCommittedEntry, Option.getD_some, List.length_append, List.length_singleton]
      omega
    · exact bounded
    · exact inv.plog
    · exact inv.handed
    · exact inv.queued
    · exact inv.waiting
    · exact inv.running
    · exact fun job member => ⟨(inv.replays job member).1, fun impossible => by cases impossible⟩

theorem commit_keeps (s next : DbState) (calls : Calls) (entry : Nat) (value : Bytes) (done : s.commit calls entry value = some next) :
    next.replays = s.replays ∧ next.limitedJobs = s.limitedJobs ∧ next.status = some entry := by
  unfold DbState.commit at done
  split at done
  · cases done
  · cases done
    exact ⟨rfl, rfl, rfl⟩

theorem db_do_job_inv (chosen : Nat → Bytes) (initial : Nat) (s : DbState) (calls : Calls) (cmd : DbCmd)
    (inv : CommitInv chosen initial s) (right : cmd.value = chosen cmd.entry) (positive : 0 < cmd.entry) (bounded : cmd.entry < 2 ^ 64) :
    CommitInv chosen initial (s.dbDoJob calls cmd) := by
  unfold DbState.dbDoJob
  split
  · exact inv
  · split
    · exact inv
    · split
      · exact inv
      · split
        · refine ⟨inv.log, inv.status, inv.bounded, inv.plog, inv.handed, ?_, inv.waiting, inv.running, inv.replays⟩
          intro other member
          rcases List.mem_append.mp member with old | new
          · exact inv.queued other old
          · rw [List.mem_singleton.mp new]
            exact ⟨.inr right, bounded⟩
        · rename_i low high
          have next : cmd.entry = s.maxCommittedEntry + 1 := by
            have limit := inv.bounded
            unfold u64 at low high
            omega
          cases done : s.commit calls cmd.entry cmd.value with
          | none => exact inv
          | some later => exact commit_inv chosen initial s later calls cmd.entry cmd.value inv next bounded right done

-- Raising the entry of a pending command is right only while it has no value of its own.
def DbState.mergeable (chosen : Nat → Bytes) (s : DbState) : Bool :=
  match s.limitedQueue, s.pending with
  | cmd :: _, some waiting => waiting.entry < cmd.entry → waiting.value = [] ∨ waiting.value = chosen cmd.entry
  | _, _ => true

theorem tick_inv (chosen : Nat → Bytes) (initial : Nat) (s : DbState) (inv : CommitInv chosen initial s)
    (mergeable : s.mergeable chosen = true) : CommitInv chosen initial s.tick := by
  unfold DbState.tick
  cases queue : s.limitedQueue with
  | nil => exact inv
  | cons cmd rest =>
      have head := inv.queued cmd (by rw [queue]; exact List.mem_cons_self)
      have later : ∀ other, other ∈ rest → Paired chosen other := by
        intro other member
        exact inv.queued other (by rw [queue]; exact List.mem_cons_of_mem _ member)
      cases known : s.pending with
      | none =>
          refine ⟨inv.log, inv.status, inv.bounded, inv.plog, inv.handed, later, ?_, inv.running, inv.replays⟩
          intro other same
          cases same
          exact head
      | some waiting =>
          dsimp only
          split
          · rename_i raised
            refine ⟨inv.log, inv.status, inv.bounded, inv.plog, inv.handed, later, ?_, inv.running, inv.replays⟩
            intro other same
            cases same
            have right : waiting.entry < cmd.entry → waiting.value = [] ∨ waiting.value = chosen cmd.entry := by
              simpa only [DbState.mergeable, queue, known, decide_eq_true_eq] using mergeable
            exact ⟨right raised, head.2⟩
          · refine ⟨inv.log, inv.status, inv.bounded, inv.plog, inv.handed, later, ?_, inv.running, inv.replays⟩
            exact fun other same => inv.waiting other (known.trans same)

theorem get_job_inv (chosen : Nat → Bytes) (initial : Nat) (s : DbState) (inv : CommitInv chosen initial s) :
    CommitInv chosen initial s.getJob := by
  refine ⟨inv.log, inv.status, inv.bounded, inv.plog, inv.handed, inv.queued, fun _ impossible => (by cases impossible), ?_, inv.replays⟩
  intro cmd member
  rcases List.mem_append.mp member with new | old
  · exact inv.waiting cmd (by simpa using new)
  · exact inv.running cmd old

theorem limited_do_job_inv (chosen : Nat → Bytes) (initial : Nat) (s : DbState) (calls : Calls) (cmd : DbCmd)
    (inv : CommitInv chosen initial s) (paired : Paired chosen cmd) : CommitInv chosen initial (s.limitedDoJob calls cmd).1 := by
  unfold DbState.limitedDoJob
  split
  · exact inv
  · split
    · exact inv
    · split
      · exact inv
      · rename_i behind
        have bounded := paired.2
        have exact_ : u64 (s.maxCommittedEntry + 1) = s.maxCommittedEntry + 1 := by
          unfold u64
          omega
        rw [exact_]
        dsimp only
        split
        · exact inv
        · rename_i value found
          have right : value = chosen (s.maxCommittedEntry + 1) := by
            split at found
            · rename_i own
              cases found
              rcases paired.1 with empty | same
              · simp [empty] at own
              · rw [same, own.1]
            · exact write_value_chosen chosen initial s calls _ value inv found
          cases done : s.commit calls (s.maxCommittedEntry + 1) value with
          | none => exact inv
          | some next => exact commit_inv chosen initial s next calls _ value inv rfl (by omega) right done

theorem replay_inv (chosen : Nat → Bytes) (initial : Nat) (s : DbState) (calls : Calls) (maxReplayNum maxChosenEntry : Nat)
    (inv : CommitInv chosen initial s) (bounded : maxChosenEntry < 2 ^ 64) :
    CommitInv chosen initial (s.replay calls maxReplayNum maxChosenEntry) := by
  unfold DbState.replay
  split
  · exact inv
  · split
    · exact inv
    · split
      · refine ⟨inv.log, inv.status, inv.bounded, inv.plog, inv.handed, ?_, inv.waiting, inv.running, inv.replays⟩
        intro cmd member
        rcases List.mem_append.mp member with old | new
        · exact inv.queued cmd old
        · rw [List.mem_singleton.mp new]
          exact ⟨.inl rfl, bounded⟩
      · refine ⟨inv.log, inv.status, inv.bounded, inv.plog, inv.handed, inv.queued, inv.waiting, inv.running, ?_⟩
        intro job member
        rcases List.mem_cons.mp member with new | old
        · subst new
          refine ⟨bounded, fun absent => ?_⟩
          have absent : s.status = none := absent
          simp [DbState.maxCommittedEntry, absent]
        · exact inv.replays job old

theorem replay_round_inv (chosen : Nat → Bytes) (initial : Nat) (s : DbState) (calls : Calls) (job : ReplayJob)
    (inv : CommitInv chosen initial s) (member : job ∈ s.replays) :
    CommitInv chosen initial (s.replayRound calls job).1 ∧ (s.replayRound calls job).1.replays = s.replays ∧
      ∀ again, (s.replayRound calls job).2 = some again →
        again.maxChosenEntry < 2 ^ 64 ∧ (s.replayRound calls job).1.status ≠ none := by
  have quiet : CommitInv chosen initial s ∧ s.replays = s.replays ∧
      ∀ again, (none : Option ReplayJob) = some again → again.maxChosenEntry < 2 ^ 64 ∧ s.status ≠ none :=
    ⟨inv, rfl, fun _ impossible => by cases impossible⟩
  obtain ⟨bounded, fresh⟩ := inv.replays job member
  have current : s.status.getD job.maxCommittedEntry = s.maxCommittedEntry := by
    cases known : s.status with
    | none => simp [DbState.maxCommittedEntry, known, fresh known]
    | some entry => simp [DbState.maxCommittedEntry, known]
  unfold DbState.replayRound
  split
  · exact quiet
  · split
    · exact quiet
    · split
      · exact quiet
      · split
        · exact quiet
        · rw [current]
          dsimp only
          split
          · exact quiet
          · rename_i behind
            have exact_ : u64 (s.maxCommittedEntry + 1) = s.maxCommittedEntry + 1 := by
              unfold u64
              omega
            rw [exact_]
            cases found : s.getWriteValue calls (s.maxCommittedEntry + 1) with
            | error => exact quiet
            | ok value =>
                have right := write_value_chosen chosen initial s calls _ value inv found
                dsimp only
                cases done : s.commit calls (s.maxCommittedEntry + 1) value with
                | none => exact quiet
                | some next =>
                    obtain ⟨sameReplays, _, status⟩ := commit_keeps s next calls _ value done
                    refine ⟨commit_inv chosen initial s next calls _ value inv rfl (by omega) right done, sameReplays, ?_⟩
                    intro again same
                    cases same
                    exact ⟨bounded, by rw [status]; simp⟩

def DbState.mergeAct (chosen : Nat → Bytes) (s : DbState) (a : DbAction) : Option DbState :=
  if a = .tick → s.mergeable chosen = true then s.act chosen a else none

theorem commit_inv_step (chosen : Nat → Bytes) (initial : Nat) (s : DbState) (a : DbAction) (t : DbState)
    (inv : CommitInv chosen initial s) (done : s.mergeAct chosen a = some t) : CommitInv chosen initial t := by
  rw [DbState.mergeAct] at done
  split at done
  · rename_i mergeable
    cases a with
    | handOver entry =>
        rw [DbState.act] at done
        split at done
        · rename_i range
          cases done
          refine ⟨inv.log, inv.status, inv.bounded, inv.plog, ?_, inv.queued, inv.waiting, inv.running, inv.replays⟩
          intro cmd member
          rcases List.mem_append.mp member with old | new
          · exact inv.handed cmd old
          · rw [List.mem_singleton.mp new]
            exact ⟨rfl, range⟩
        · cases done
    | store entry record =>
        rw [DbState.act] at done
        split at done
        · rename_i honest
          cases done
          refine ⟨inv.log, inv.status, inv.bounded, ?_, inv.handed, inv.queued, inv.waiting, inv.running, inv.replays⟩
          intro other found known marked
          dsimp only at known
          split at known
          · rename_i here
            cases known
            rw [here]
            exact honest marked
          · exact inv.plog other found known marked
        · cases done
    | dbDoJob k calls =>
        obtain ⟨cmd, found, rfl⟩ := Option.map_eq_some_iff.mp done
        obtain ⟨right, positive, bounded⟩ := inv.handed cmd (List.mem_of_getElem? found)
        apply db_do_job_inv chosen initial _ calls cmd _ right positive bounded
        refine ⟨inv.log, inv.status, inv.bounded, inv.plog, ?_, inv.queued, inv.waiting, inv.running, inv.replays⟩
        exact fun other member => inv.handed other (List.mem_of_mem_eraseIdx member)
    | tick =>
        cases done
        exact tick_inv chosen initial s inv (mergeable rfl)
    | getJob =>
        cases done
        exact get_job_inv chosen initial s inv
    | limitedDoJob k calls =>
        obtain ⟨cmd, found, rfl⟩ := Option.map_eq_some_iff.mp done
        have next := limited_do_job_inv chosen initial s calls cmd inv (inv.running cmd (List.mem_of_getElem? found))
        dsimp only
        split
        · exact next
        · refine ⟨next.log, next.status, next.bounded, next.plog, next.handed, next.queued, next.waiting, ?_, next.replays⟩
          exact fun other member => next.running other (List.mem_of_mem_eraseIdx member)
    | replay calls maxReplayNum maxChosenEntry =>
        rw [DbState.act] at done
        split at done
        · rename_i bounded
          cases done
          exact replay_inv chosen initial s calls maxReplayNum maxChosenEntry inv bounded
        · cases done
    | replayRound k calls =>
        obtain ⟨job, found, rfl⟩ := Option.map_eq_some_iff.mp done
        obtain ⟨next, _, again⟩ := replay_round_inv chosen initial s calls job inv (List.mem_of_getElem? found)
        refine ⟨next.log, next.status, next.bounded, next.plog, next.handed, next.queued, next.waiting, next.running, ?_⟩
        intro other member
        rcases List.mem_append.mp member with new | old
        · obtain ⟨bounded, known⟩ := again other (by simpa using new)
          exact ⟨bounded, fun absent => absurd absent known⟩
        · exact next.replays other (List.mem_of_mem_eraseIdx old)
  · cases done

-- The Db has committed exactly the chosen log, from the entry after the one it started at.
theorem commits_are_chosen_log (chosen : Nat → Bytes) (status : Option Nat) (plog : Nat → Option EntryRecord) (s : DbState)
    (bounded : status.getD 0 < 2 ^ 64)
    (honest : ∀ entry record, plog entry = some record → record.chosen = true → record.value = chosen entry)
    (run : Reaches (DbState.mergeAct chosen) { status := status, plog := plog } s) :
    s.commits = chosenLog chosen (status.getD 0 + 1) s.commits.length := by
  have start : CommitInv chosen (status.getD 0) { status := status, plog := plog } := by
    constructor
    · rfl
    · rfl
    · exact bounded
    · exact honest
    · exact fun _ member => by cases member
    · exact fun _ member => by cases member
    · exact fun _ impossible => by cases impossible
    · exact fun _ member => by cases member
    · exact fun _ member => by cases member
  exact (run_invariant (DbState.mergeAct chosen) (CommitInv chosen (status.getD 0)) (commit_inv_step chosen (status.getD 0)) _ s start run).log

-- Three entries, each with its own number as its value.
def numbered (entry : Nat) : Bytes := [UInt8.ofNat entry]

def numberedPlog (entry : Nat) : Option EntryRecord :=
  if 0 < entry ∧ entry ≤ 3 then
    some { promisedNum := 1, acceptedNum := 1, valueId := 1, value := numbered entry, chosen := true }
  else none

-- The commit of entry 1 fails, so the commands of 2 and 3 meet in the limited worker.
def lateCommands : List DbAction :=
  [.handOver 1, .dbDoJob 0 { commitFails := true }, .handOver 2, .dbDoJob 0 {}, .handOver 3, .dbDoJob 0 {}]

def mergedCommands : List DbAction :=
  lateCommands ++ [.tick, .tick, .getJob, .limitedDoJob 0 {}, .limitedDoJob 0 {}, .limitedDoJob 0 {}]

theorem merged_command_wrong_value : ∃ s, Reaches (DbState.act numbered) { status := none, plog := numberedPlog } s ∧
    s.commits = [(1, [1]), (2, [2]), (3, [2])] ∧ numbered 3 = [3] := by
  have run := reaches_end (DbState.act numbered) { status := none, plog := numberedPlog } mergedCommands (by decide +kernel)
  exact ⟨_, run, by decide +kernel, by decide⟩

-- One after the other, with a replay in between.
def separateCommands : List DbAction :=
  lateCommands ++ [.tick, .getJob, .limitedDoJob 0 {}, .replay {} 100 3, .replayRound 0 {}, .tick, .getJob, .limitedDoJob 0 {}]

theorem separate_commands_in_order : ∃ s, Reaches (DbState.mergeAct numbered) { status := none, plog := numberedPlog } s ∧
    s.commits.length = 3 ∧ s.commits = chosenLog numbered 1 3 := by
  have run := reaches_end (DbState.mergeAct numbered) { status := none, plog := numberedPlog } separateCommands (by decide +kernel)
  have long : (endOf (DbState.mergeAct numbered) { status := none, plog := numberedPlog } separateCommands).commits.length = 3 := by
    decide +kernel
  have honest : ∀ entry record, numberedPlog entry = some record → record.chosen = true → record.value = numbered entry := by
    intro entry record known _
    unfold numberedPlog at known
    split at known
    · cases known
      rfl
    · cases known
  have result := commits_are_chosen_log numbered none numberedPlog _ (by decide) honest run
  rw [long] at result
  exact ⟨_, run, long, result⟩

end PaxosStore.Certain
