import PaxosStore.PaxosKv.LogGroup

set_option autoImplicit false

namespace PaxosStore.PaxosKv

open PaxosStore.Consensus

-- What one server does at one index, as though every index were kept for ever: an
-- instance that the log has, or will have, and the cached proposer.
structure Mirrors (s : LogServer) (index : Nat) (server : Server) : Prop where
  stored : ∀ pins, (index, pins) ∈ s.log → server.pins = pins
  fresh : getMaxIndex s.log < index → server.pins = {}
  alive : server.alive = s.cached index

-- An index nobody has proposed anything for.
def Blank (s : Servers) : Prop := (∀ i, s.server i = {}) ∧ s.sent = []

-- The steps of the index after which it mirrors the server again. The servers that may take
-- the fast path there are the allowed ones, and nobody begins before the index is opened.
structure Shadow (allowed : Fin 3 → Prop) (opened : Prop) (i : Fin 3) (index : Nat) (s : LogServer) (reply : Option LogMessage)
    (before after : Servers) : Prop where
  reached : ∀ fast, allowed fast → Reaches (Servers.act fast) before after
  mirrors : Mirrors s index (after.server i)
  others : ∀ j, j ≠ i → after.server j = before.server j
  sent : ∀ msg ∈ before.sent, msg ∈ after.sent
  replied : ∀ rsp, reply = some rsp → rsp.index = index → rsp.msg ∈ after.sent
  quiet : ¬ opened → Blank before → Blank after

section Handle

variable (s : Servers) (i : Fin 3) (msg : Message) (learnerOnly written : Bool)

theorem handle_others (j : Fin 3) (other : j ≠ i) : (s.handle i msg learnerOnly written).server j = s.server j := by
  unfold Servers.handle
  split
  · exact Function.update_of_ne other _ _
  · dsimp only
    split
    · exact Function.update_of_ne other _ _
    · exact Function.update_of_ne other _ _

theorem handle_sent (other : Message) (there : other ∈ s.sent) : other ∈ (s.handle i msg learnerOnly written).sent := by
  unfold Servers.handle
  split
  · exact there
  · dsimp only
    split
    · exact there
    · exact List.mem_append_right _ there

theorem request_reaches (fast : Fin 3) (request : Servers.isRequest msg.type = true) (quick : msg.type = .beginFastProp → i = fast) :
    Reaches (Servers.act fast) s (s.handle i msg learnerOnly written) :=
  reaches_step _ s (.request i msg learnerOnly written) _ (by rw [Servers.act, if_pos ⟨request, quick⟩])

theorem receive_reaches (fast : Fin 3) (sent : msg ∈ s.sent) (addressed : Servers.addressed i msg = true) :
    Reaches (Servers.act fast) s (s.handle i msg learnerOnly written) :=
  reaches_step _ s (.receive i msg learnerOnly written) _ (by rw [Servers.act, if_pos ⟨sent, addressed⟩])

-- A question at an index where nothing has happened.
theorem question_blank {s : Servers} {i : Fin 3} {msg : Message} {learnerOnly written : Bool} (blank : Blank s)
    (question : isQuestion msg.type = true) : Blank (s.handle i msg learnerOnly written) := by
  have asked : msg.type = .getChosen ∨ msg.type = .noop := of_decide_eq_true question
  have stepped : wrapperStep learnerOnly i msg (s.server i).alive (s.server i).pins = some (false, none, none, {}) := by
    rw [blank.1 i, wrapperStep, if_neg Bool.false_ne_true, stepNotChosen]
    split
    · rfl
    · rcases asked with kind | kind
      · rw [stepByType, kind]
        rfl
      · rw [stepByType, kind]
        rfl
  unfold Servers.handle
  rw [stepped, blank.1 i]
  dsimp only
  rw [if_neg (by simp)]
  refine ⟨fun j => ?_, blank.2⟩
  by_cases here : j = i
  · subst here
    exact Function.update_self _ _ _
  · exact (Function.update_of_ne here _ _).trans (blank.1 j)

variable {s i msg learnerOnly}

-- A step whose instance is written, or needs no write.
theorem handle_stores {write : Bool} {rsp : Option Message} {next : Option PInsAliveState} {stored : PaxosInstance}
    (done : wrapperStep learnerOnly i msg (s.server i).alive (s.server i).pins = some (write, rsp, next, stored))
    (kept : ((write || (!(s.server i).pins.chosen && stored.chosen)) && !written) = false) :
    (s.handle i msg learnerOnly written).server i = ⟨stored, next⟩ ∧
      ∀ reply, rsp = some reply → reply ∈ (s.handle i msg learnerOnly written).sent := by
  unfold Servers.handle
  rw [done]
  dsimp only
  rw [if_neg (by rw [kept]; exact Bool.false_ne_true)]
  refine ⟨Function.update_self _ _ _, ?_⟩
  rintro reply rfl
  exact List.mem_append_left _ (List.mem_singleton_self _)

-- Without a write the instance stays.
theorem handle_unwritten {write : Bool} {rsp : Option Message} {next : Option PInsAliveState} {stored : PaxosInstance}
    (done : wrapperStep learnerOnly i msg (s.server i).alive (s.server i).pins = some (write, rsp, next, stored)) :
    (s.handle i msg learnerOnly false).server i = ⟨(s.server i).pins, next⟩ := by
  cases lost : write || (!(s.server i).pins.chosen && stored.chosen) with
  | true =>
      unfold Servers.handle
      rw [done]
      dsimp only
      rw [lost, if_pos (show (true && !false) = true from rfl)]
      exact Function.update_self _ _ _
  | false =>
      obtain ⟨quiet, unmarked⟩ := Bool.or_eq_false_iff.mp lost
      rw [(handle_stores false done (by rw [lost]; rfl)).1, wrapper_unwritten _ _ _ _ _ _ _ _ _ done quiet unmarked]

end Handle

section Shadows

variable {allowed : Fin 3 → Prop} {opened : Prop} {i : Fin 3} {index : Nat} {s : LogServer} {reply : Option LogMessage}
  {before : Servers} (middle : Servers)

-- A proposer that is cached no longer is lost.
theorem shadow_settles (reached : ∀ fast, allowed fast → Reaches (Servers.act fast) before middle)
    (stored : ∀ pins, (index, pins) ∈ s.log → (middle.server i).pins = pins)
    (fresh : getMaxIndex s.log < index → (middle.server i).pins = {})
    (alive : s.cached index = none ∨ (middle.server i).alive = s.cached index)
    (others : ∀ j, j ≠ i → middle.server j = before.server j) (sent : ∀ msg ∈ before.sent, msg ∈ middle.sent)
    (replied : ∀ rsp, reply = some rsp → rsp.index = index → rsp.msg ∈ middle.sent) (quiet : ¬ opened → Blank before → Blank middle) :
    ∃ after, Shadow allowed opened i index s reply before after := by
  by_cases same : (middle.server i).alive = s.cached index
  · exact ⟨middle, reached, ⟨stored, fresh, same⟩, others, sent, replied, quiet⟩
  · have gone : s.cached index = none := alive.resolve_right same
    refine ⟨middle.setServer i { middle.server i with alive := none }, fun fast quick => ?_, ?_, fun j other => ?_, sent, replied, fun closed blank => ?_⟩
    · exact reaches_trans _ _ _ _ (reached fast quick) (reaches_step _ _ (.lose i) _ rfl)
    · have here : (middle.setServer i { middle.server i with alive := none }).server i = { middle.server i with alive := none } :=
        Function.update_self _ _ _
      rw [here]
      exact ⟨stored, fresh, gone.symm⟩
    · exact (Function.update_of_ne other _ _).trans (others j other)
    · obtain ⟨still, silent⟩ := quiet closed blank
      refine ⟨fun j => ?_, silent⟩
      by_cases here : j = i
      · subst here
        exact (Function.update_self _ _ _).trans (by rw [still])
      · exact (Function.update_of_ne here _ _).trans (still j)

end Shadows

section Instances

variable {learnerOnly : Bool} {selfId : Fin 3} {m : LogMessage} {alive : Option PInsAliveState} {log : PaxosLog}

-- What an instance in the log makes of a message.
theorem instance_cases {fresh : Bool} {out : StepOut} (done : stepInstance learnerOnly selfId m alive log fresh = some out) :
    ∃ pins, findIns log m.index = some pins ∧
      (out = ⟨-50221, none, log, alive, false⟩ ∨
        ∃ write rsp state stored cut kept,
          wrapperStep learnerOnly selfId m.msg (if fresh then none else alive) pins = some (write, rsp, state, stored) ∧
            shrinkPlog (setIns log m.index stored) = some (cut, kept) ∧
            out = ⟨0, rsp.map fun rsp => ⟨m.index, rsp⟩, kept, if fresh then alive else state,
              write || (!pins.chosen && stored.chosen) || cut⟩) := by
  unfold stepInstance at done
  split at done
  · cases done
  · rename_i pins found
    refine ⟨pins, found, ?_⟩
    split at done
    · cases done
      exact .inl rfl
    · obtain ⟨⟨write, rsp, state, stored⟩, stepped, rest⟩ := Option.bind_eq_some_iff.mp done
      obtain ⟨⟨cut, kept⟩, shrunk, same⟩ := Option.map_eq_some_iff.mp rest
      exact .inr ⟨write, rsp, state, stored, cut, kept, stepped, shrunk, same.symm⟩

theorem shrink_uncut {kept : PaxosLog} (shrunk : shrinkPlog log = some (false, kept)) : kept = log := by
  unfold shrinkPlog at shrunk
  split at shrunk
  · cases shrunk
    rfl
  · split at shrunk
    · obtain ⟨_, wrong⟩ := (asserting_some _ _ _).mp shrunk
      cases wrong
    · cases shrunk

theorem chosen_answer {msg rsp : Message} {pins : PaxosInstance} (done : stepChosen selfId { msg with type := .getChosen } pins = some (some rsp)) :
    { rsp with toId := some msg.fromId } = rsp := by
  obtain ⟨_, same⟩ := (asserting_some _ _ _).mp done
  cases same
  rfl

-- Below the log it is the chosen instance that answers.
theorem invalid_reply {out : StepOut} (done : stepInvalidIndex selfId m alive log = some out) (rsp : LogMessage) (sent : out.rsp = some rsp) :
    ∃ pins, (rsp.index, pins) ∈ log ∧ pins.chosen = true ∧
      stepChosen selfId { m.msg with type := .getChosen } pins = some (some rsp.msg) := by
  obtain ⟨_, rest⟩ := (asserting_some _ _ _).mp done
  split at rest
  · cases rest
    cases sent
  · obtain ⟨_, rest⟩ := (asserting_some _ _ _).mp rest
    cases kind : m.msg.type <;> rw [kind] at rest <;> dsimp only at rest
    case getChosen | prop | accpt | fastAccpt =>
      split at rest
      · cases rest
        cases sent
      · rename_i index pins found
        obtain ⟨_, rest⟩ := (asserting_some _ _ _).mp rest
        obtain ⟨reply, answered, mapped⟩ := Option.bind_eq_some_iff.mp rest
        obtain ⟨answer, rfl, same⟩ := Option.map_eq_some_iff.mp mapped
        cases same
        cases sent
        rw [getChosenIns] at found
        have marked := List.find?_some found
        refine ⟨pins, List.mem_reverse.mp (List.mem_of_find?_eq_some found), marked, ?_⟩
        dsimp only
        rw [chosen_answer answered]
        exact answered
    case chosen =>
      split at rest
      · cases rest
        cases sent
      · obtain ⟨_, rest⟩ := (asserting_some _ _ _).mp rest
        obtain ⟨wrong, _⟩ := (asserting_some _ _ _).mp rest
        rw [reinsert_fails] at wrong
        cases wrong
    all_goals
      cases rest
      cases sent

end Instances

namespace LogServer

variable {s : LogServer} {index other : Nat}

theorem cached_some {state : PInsAliveState} (held : s.cached index = some state) : s.alive = some (index, state) ∧ state.propState ≠ .chosen := by
  obtain ⟨⟨key, kept⟩, known, fits⟩ := Option.bind_eq_some_iff.mp held
  dsimp only at fits
  split at fits
  · rename_i here
    cases fits
    rw [known, here.1]
    exact ⟨rfl, here.2⟩
  · cases fits

theorem cached_elsewhere {key : Nat} {log : PaxosLog} {alive : Option PInsAliveState} (apart : other ≠ key) :
    (LogServer.mk log (alive.map fun state => (key, state))).cached other = none := by
  cases alive with
  | none => rfl
  | some state =>
      rw [cached, Option.map_some, Option.bind_some]
      dsimp only
      rw [if_neg (fun here => apart here.1.symm)]

theorem cached_here {log : PaxosLog} (alive : Option PInsAliveState) :
    (LogServer.mk log (alive.map fun state => (index, state))).cached index = none ∨
      (LogServer.mk log (alive.map fun state => (index, state))).cached index = alive := by
  cases alive with
  | none => exact .inl rfl
  | some state =>
      rw [cached, Option.map_some, Option.bind_some]
      dsimp only
      split
      · exact .inr rfl
      · exact .inl rfl

-- The cache after a step of the index.
def recached (s : LogServer) (index : Nat) (alive : Option PInsAliveState) : Option (Nat × PInsAliveState) :=
  if (s.cached index).isSome then alive.map fun state => (index, state) else s.alive

theorem recached_here (log : PaxosLog) (alive : Option PInsAliveState) :
    (LogServer.mk log (s.recached index alive)).cached index = none ∨ (LogServer.mk log (s.recached index alive)).cached index = alive := by
  unfold recached
  split
  · exact cached_here alive
  · rename_i absent
    exact .inl (show s.cached index = none by simpa using absent)

theorem recached_same (log : PaxosLog) (key : Nat) : (LogServer.mk log (s.recached index (s.cached index))).cached key = s.cached key := by
  unfold recached
  split
  · rename_i held
    obtain ⟨state, known⟩ := Option.isSome_iff_exists.mp held
    have alive := (cached_some known).1
    rw [known, Option.map_some, ← alive]
    rfl
  · rfl

theorem recached_elsewhere (log : PaxosLog) (alive : Option PInsAliveState) (apart : other ≠ index) :
    (LogServer.mk log (s.recached index alive)).cached other = s.cached other := by
  unfold recached
  split
  · rename_i held
    obtain ⟨state, known⟩ := Option.isSome_iff_exists.mp held
    rw [cached_elsewhere apart, cached, (cached_some known).1, Option.bind_some]
    dsimp only
    rw [if_neg (fun here => apart here.1.symm)]
  · rfl

end LogServer

section Steps

variable {allowed : Fin 3 → Prop} {opened : Prop} {i : Fin 3} {s : LogServer} {before : Servers}

theorem handle_some (index : Nat) (written : Bool) (out : StepOut) :
    s.handle index written (some out) = s.commit out written (s.recached index out.alive) := rfl

-- A step that is refused or whose write fails keeps the log.
theorem commit_refused {out : StepOut} {written : Bool} (alive : Option (Nat × PInsAliveState)) (refused : out.code ≠ 0 ∨ out.write ∧ !written) :
    s.commit out written alive = (⟨s.log, alive⟩, none) := if_pos refused

theorem commit_taken {out : StepOut} {written : Bool} (alive : Option (Nat × PInsAliveState)) (taken : ¬ (out.code ≠ 0 ∨ out.write ∧ !written)) :
    s.commit out written alive = (⟨if out.write then out.log else s.log, alive⟩, out.rsp) := if_neg taken

-- What is known of a server between two steps.
structure Housed (s : LogServer) : Prop where
  formed : LogFormed s.log
  below : ∀ key state, s.alive = some (key, state) → 0 < key ∧ key ≤ getMaxIndex s.log

theorem cached_below (housed : Housed s) {index : Nat} (above : getMaxIndex s.log < index) : s.cached index = none := by
  cases held : s.cached index with
  | none => rfl
  | some state =>
      have bound := (housed.below index state (LogServer.cached_some held).1).2
      omega

-- A server that does nothing at an index.
theorem shadow_rests {index : Nat} {next : LogServer} (mirrors : Mirrors s index (before.server i)) (log : next.log = s.log)
    (alive : next.cached index = none ∨ next.cached index = s.cached index) : ∃ after, Shadow allowed opened i index next none before after := by
  refine shadow_settles before (fun fast _ => reaches_refl _ _) ?_ ?_ ?_ (fun _ _ => rfl) (fun _ there => there)
    (fun _ wrong => by cases wrong) (fun _ blank => blank)
  · rw [log]
    exact mirrors.stored
  · rw [log]
    exact mirrors.fresh
  · rw [mirrors.alive]
    exact alive.imp_right Eq.symm

-- A code other than 0 leaves the server as it is.
theorem idle_shadow {index key : Nat} (mirrors : Mirrors s index (before.server i)) (written : Bool) {out : StepOut} (code : out.code ≠ 0)
    (alive : out.alive = s.cached key) :
    ∃ after, Shadow allowed opened i index (s.handle key written (some out)).1 (s.handle key written (some out)).2 before after := by
  rw [handle_some, commit_refused _ (.inl code), alive]
  refine shadow_rests mirrors rfl (.inr ?_)
  exact LogServer.recached_same s.log index

-- A step of an instance, at its own index.
theorem instance_shadow (housed : Housed s) {m : LogMessage} {learnerOnly written : Bool} (mirrors : Mirrors s m.index (before.server i))
    (enters : ∀ fast, allowed fast → Reaches (Servers.act fast) before (before.handle i m.msg learnerOnly written))
    (quiet : ¬ opened → Blank before → Blank (before.handle i m.msg learnerOnly written)) {grown : PaxosLog}
    {fresh : Bool} (grows : Grown s.log grown m.index fresh) (top : m.index ≤ getMaxIndex grown) {out : StepOut}
    (done : stepInstance learnerOnly i m (s.cached m.index) grown fresh = some out) :
    ∃ after, Shadow allowed opened i m.index (s.handle m.index written (some out)).1 (s.handle m.index written (some out)).2 before after := by
  obtain ⟨pins, found, rfl | ⟨write, rsp, state, stored, cut, kept, stepped, shrunk, rfl⟩⟩ := instance_cases done
  · exact idle_shadow mirrors written (show (-50221 : Int) ≠ 0 by decide) rfl
  · have here : (before.server i).pins = pins := by
      rcases grows.entries m.index pins (find_member grown m.index pins found) with there | ⟨_, rfl, isFresh⟩
      · exact mirrors.stored pins there
      · exact mirrors.fresh (grows.above isFresh)
    have alive : (before.server i).alive = if fresh then none else s.cached m.index := by
      rw [mirrors.alive]
      cases isFresh : fresh with
      | false => rfl
      | true => exact cached_below housed (grows.above isFresh)
    rw [← here, ← alive] at stepped
    have others := fun j other => handle_others before i m.msg learnerOnly written j other
    have sent := fun msg there => handle_sent before i m.msg learnerOnly written msg there
    have next : (LogServer.mk s.log (s.recached m.index (if fresh then s.cached m.index else state))).cached m.index = none ∨
        (LogServer.mk s.log (s.recached m.index (if fresh then s.cached m.index else state))).cached m.index = state := by
      cases isFresh : fresh with
      | false => exact LogServer.recached_here s.log state
      | true =>
          rw [if_pos rfl, LogServer.recached_same]
          exact .inl (cached_below housed (grows.above isFresh))
    rw [handle_some]
    by_cases refused : (write || (!pins.chosen && stored.chosen) || cut) = true ∧ (!written) = true
    · rw [commit_refused _ (.inr refused)]
      obtain rfl : written = false := by simpa using refused.2
      have result := handle_unwritten stepped
      refine shadow_settles _ enters ?_ ?_ ?_ others sent (fun _ wrong => by cases wrong) quiet
      · rw [result]
        exact mirrors.stored
      · rw [result]
        exact mirrors.fresh
      · rw [result]
        exact next.imp_right Eq.symm
    · have taken : ¬ ((0 : Int) ≠ 0 ∨ (write || (!pins.chosen && stored.chosen) || cut) = true ∧ (!written) = true) := by
        rintro (wrong | wrong)
        · exact wrong rfl
        · exact refused wrong
      rw [commit_taken _ taken]
      have fine : ((write || (!(before.server i).pins.chosen && stored.chosen)) && !written) = false := by
        rw [here]
        cases asked : write || (!pins.chosen && stored.chosen) with
        | false => rfl
        | true => simpa [asked] using refused
      obtain ⟨result, replied⟩ := handle_stores written stepped fine
      have settled : (write || (!pins.chosen && stored.chosen) || cut) = false → stored = pins := by
        intro quiet
        obtain ⟨asked, _⟩ := Bool.or_eq_false_iff.mp quiet
        obtain ⟨unwritten, unmarked⟩ := Bool.or_eq_false_iff.mp asked
        rw [wrapper_unwritten _ _ _ _ _ _ _ _ _ stepped unwritten (by rw [here]; exact unmarked), here]
      obtain ⟨_, _, again, _, included, max⟩ := shrink_run (setIns grown m.index stored)
      obtain ⟨rfl, rfl⟩ := Prod.mk.inj (Option.some.inj (shrunk.symm.trans again))
      refine shadow_settles _ enters ?_ ?_ ?_ others sent ?_ quiet
      · rw [result]
        intro held member
        cases asked : write || (!pins.chosen && stored.chosen) || cut with
        | true =>
            rw [asked, if_pos rfl] at member
            rcases set_member grown m.index m.index stored held (included _ member) with ⟨wrong, _⟩ | ⟨_, same, _⟩
            · exact absurd rfl wrong
            · exact same.symm
        | false =>
            rw [asked, if_neg Bool.false_ne_true] at member
            rw [← mirrors.stored held member, here]
            exact settled asked
      · rw [result]
        intro above
        cases asked : write || (!pins.chosen && stored.chosen) || cut with
        | true =>
            rw [asked, if_pos rfl] at above
            rw [max, set_max] at above
            exact absurd top (Nat.not_le.mpr above)
        | false =>
            rw [asked, if_neg Bool.false_ne_true] at above
            rw [← mirrors.fresh above, here]
            exact settled asked
      · rw [result]
        exact next.imp_right Eq.symm
      · intro answer given _
        obtain ⟨reply, there, rfl⟩ := Option.map_eq_some_iff.mp given
        exact replied reply there

-- The same step at any other index.
theorem instance_elsewhere {index : Nat} (mirrors : Mirrors s index (before.server i)) {m : LogMessage} (apart : index ≠ m.index)
    {learnerOnly written : Bool} {grown : PaxosLog} {fresh : Bool} (grows : Grown s.log grown m.index fresh) {out : StepOut}
    (done : stepInstance learnerOnly i m (s.cached m.index) grown fresh = some out) :
    ∃ after, Shadow allowed opened i index (s.handle m.index written (some out)).1 (s.handle m.index written (some out)).2 before after := by
  obtain ⟨pins, found, rfl | ⟨write, rsp, state, stored, cut, kept, stepped, shrunk, rfl⟩⟩ := instance_cases done
  · exact idle_shadow mirrors written (show (-50221 : Int) ≠ 0 by decide) rfl
  · rw [handle_some]
    by_cases refused : (0 : Int) ≠ 0 ∨ (write || (!pins.chosen && stored.chosen) || cut) = true ∧ (!written) = true
    · rw [commit_refused _ refused]
      exact shadow_rests mirrors rfl (.inr (LogServer.recached_elsewhere s.log _ apart))
    · rw [commit_taken _ refused]
      obtain ⟨_, _, again, _, included, max⟩ := shrink_run (setIns grown m.index stored)
      obtain ⟨rfl, rfl⟩ := Prod.mk.inj (Option.some.inj (shrunk.symm.trans again))
      refine shadow_settles before (fun fast _ => reaches_refl _ _) ?_ ?_ (.inr ?_) (fun _ _ => rfl) (fun _ there => there) ?_
        (fun _ blank => blank)
      · intro held member
        cases asked : write || (!pins.chosen && stored.chosen) || cut with
        | true =>
            rw [asked, if_pos rfl] at member
            rcases set_member grown m.index index stored held (included _ member) with ⟨_, there⟩ | ⟨here, _⟩
            · rcases grows.entries index held there with old | ⟨here, _⟩
              · exact mirrors.stored held old
              · exact absurd here apart
            · exact absurd here apart
        | false =>
            rw [asked, if_neg Bool.false_ne_true] at member
            exact mirrors.stored held member
      · intro above
        cases asked : write || (!pins.chosen && stored.chosen) || cut with
        | true =>
            rw [asked, if_pos rfl] at above
            rw [max, set_max] at above
            exact mirrors.fresh (Nat.lt_of_le_of_lt grows.max above)
        | false =>
            rw [asked, if_neg Bool.false_ne_true] at above
            exact mirrors.fresh above
      · rw [LogServer.recached_elsewhere _ _ apart]
        exact mirrors.alive
      · intro answer given here
        obtain ⟨reply, _, rfl⟩ := Option.map_eq_some_iff.mp given
        exact absurd here.symm apart

-- The chosen instance answers for an index below the log.
theorem invalid_shadow {index : Nat} (mirrors : Mirrors s index (before.server i)) {m : LogMessage} (written : Bool) {out : StepOut}
    (done : stepInvalidIndex i m (s.cached m.index) s.log = some out) :
    ∃ after, Shadow allowed opened i index (s.handle m.index written (some out)).1 (s.handle m.index written (some out)).2 before after := by
  obtain ⟨log, _, alive, write⟩ := invalid_quiet i m _ s.log out done
  have answers := invalid_reply done
  by_cases code : out.code = 0
  · have taken : ¬ (out.code ≠ 0 ∨ out.write = true ∧ (!written) = true) := by
      rw [code, write]
      simp
    rw [handle_some, commit_taken _ taken, write, if_neg Bool.false_ne_true, alive]
    by_cases here : ∃ rsp, out.rsp = some rsp ∧ rsp.index = index
    · obtain ⟨rsp, sent, rfl⟩ := here
      obtain ⟨pins, there, marked, answered⟩ := answers rsp sent
      have same := mirrors.stored pins there
      have stepped : wrapperStep false i { m.msg with type := .getChosen } (before.server i).alive (before.server i).pins =
          some (false, some rsp.msg, (before.server i).alive, (before.server i).pins) := by
        rw [same, wrapperStep, if_pos marked, answered]
        rfl
      obtain ⟨result, replied⟩ := handle_stores true stepped (by rw [Bool.not_true, Bool.and_false])
      have enters : ∀ fast, allowed fast →
          Reaches (Servers.act fast) before (before.handle i { m.msg with type := .getChosen } false true) := by
        intro fast _
        exact request_reaches before i _ false true fast rfl (fun wrong => by cases wrong)
      refine shadow_settles _ enters ?_ ?_ (.inr ?_) (fun j other => handle_others before i _ false true j other)
        (fun msg held => handle_sent before i _ false true msg held) ?_ (fun _ blank => question_blank blank rfl)
      · rw [result]
        exact mirrors.stored
      · rw [result]
        exact mirrors.fresh
      · rw [result, LogServer.recached_same]
        exact mirrors.alive
      · intro answer given _
        obtain rfl := Option.some.inj (given.symm.trans sent)
        exact replied _ rfl
    · refine shadow_settles before (fun fast _ => reaches_refl _ _) mirrors.stored mirrors.fresh (.inr ?_) (fun _ _ => rfl)
        (fun _ there => there) (fun rsp sent same => absurd ⟨rsp, sent, same⟩ here) (fun _ blank => blank)
      rw [LogServer.recached_same]
      exact mirrors.alive
  · exact idle_shadow mirrors written code alive

theorem stopped_shadow {index : Nat} (key : Nat) (mirrors : Mirrors s index (before.server i)) (written : Bool) :
    ∃ after, Shadow allowed opened i index (s.handle key written none).1 (s.handle key written none).2 before after :=
  shadow_rests mirrors rfl (.inl rfl)

theorem message_shadow (housed : Housed s) {index : Nat} (mirrors : Mirrors s index (before.server i)) (m : LogMessage)
    (learnerOnly written : Bool) (memberId : Nat)
    (enters : index = m.index → ∀ fast, allowed fast → Reaches (Servers.act fast) before (before.handle i m.msg learnerOnly written))
    (quiet : index = m.index → Blank before → Blank (before.handle i m.msg learnerOnly written)) :
    ∃ after, Shadow allowed opened i index (s.perform i memberId (.message m learnerOnly written)).1
      (s.perform i memberId (.message m learnerOnly written)).2 before after := by
  rw [LogServer.perform, asserting_pos _ _ (wrapper_ok s.log housed.formed)]
  cases done : PLogWrapper.step learnerOnly i m (s.cached m.index) s.log with
  | none => exact stopped_shadow m.index mirrors written
  | some out =>
      unfold PLogWrapper.step at done
      split at done
      · split at done
        · exact invalid_shadow mirrors written done
        · cases done
          exact idle_shadow mirrors written (show (-1 : Int) ≠ 0 by decide) rfl
      · obtain ⟨found, known, rest⟩ := Option.bind_eq_some_iff.mp done
        cases found with
        | none => exact invalid_shadow mirrors written rest
        | some pair =>
            obtain ⟨grown, fresh⟩ := pair
            obtain ⟨grows, positive⟩ := instance_grown s.log grown m.index fresh known
            by_cases here : index = m.index
            · subst here
              have top : m.index ≤ getMaxIndex grown := by
                rw [get_instance_spec s.log housed.formed m.index positive] at known
                split at known
                · rename_i there
                  cases known
                  obtain ⟨pins, held⟩ := Option.isSome_iff_exists.mp there
                  exact (index_bounds s.log housed.formed m.index pins (find_member _ _ _ held)).1
                · split at known
                  · cases known
                    rw [max_append]
                  · cases known
              exact instance_shadow housed mirrors (enters rfl) (fun _ => quiet rfl) grows top rest
            · exact instance_elsewhere mirrors here grows rest

theorem step_present {learnerOnly : Bool} {index : Nat} {msg : Message} {alive : Option PInsAliveState} {log : PaxosLog} {pins : PaxosInstance}
    (formed : LogFormed log) (positive : 0 < index) (target : msg.toId = some i) (found : findIns log index = some pins) :
    PLogWrapper.step learnerOnly i ⟨index, msg⟩ alive log = stepInstance learnerOnly i ⟨index, msg⟩ alive log false := by
  have aimed : ¬ (index = 0 ∨ msg.toId ≠ some i) := by
    rintro (zero | wrong)
    · omega
    · exact wrong target
  rw [PLogWrapper.step, if_neg aimed, get_instance_spec log formed index positive, found]
  rfl

theorem redo_shadow (housed : Housed s) {index : Nat} (mirrors : Mirrors s index (before.server i)) (learnerOnly written : Bool)
    (memberId : Nat) :
    ∃ after, Shadow allowed opened i index (s.perform i memberId (.tryRedoProp learnerOnly written)).1
      (s.perform i memberId (.tryRedoProp learnerOnly written)).2 before after := by
  rw [LogServer.perform]
  split
  · exact shadow_rests mirrors rfl (.inr rfl)
  · rename_i key state alive
    split
    · exact shadow_rests mirrors rfl (.inr rfl)
    · rename_i open_
      rw [asserting_pos _ _ (wrapper_ok s.log housed.formed)]
      have cached : s.cached key = some state := by
        rw [LogServer.cached, alive, Option.bind_some]
        dsimp only
        rw [if_pos ⟨rfl, open_⟩]
      cases done : PLogWrapper.tryRedoProp learnerOnly i key state s.log with
      | none => exact stopped_shadow key mirrors written
      | some out =>
          obtain ⟨_, rest⟩ := (asserting_some _ _ _).mp done
          split at rest
          · cases rest
            exact idle_shadow mirrors written (show (1 : Int) ≠ 0 by decide) cached.symm
          · rename_i last ins known
            split at rest
            · cases rest
              exact idle_shadow mirrors written (show (1 : Int) ≠ 0 by decide) cached.symm
            · obtain ⟨rfl, rest⟩ := (asserting_some _ _ _).mp rest
              obtain ⟨gen, _, rest⟩ := Option.bind_eq_some_iff.mp rest
              dsimp only at rest
              have there := List.mem_of_getLast? known
              have found := (find_iff s.log housed.formed key ins).mpr there
              have positive := (housed.formed.entries key ins there).1
              have again (value : Entry)
                  (rest : PLogWrapper.step learnerOnly i ⟨key,
                    { type := .tryRedoProp, fromId := i, toId := some i, proposedNum := gen.get, acceptedValue := some value }⟩
                    (some state) s.log = some out) :
                  ∃ after, Shadow allowed opened i index (s.handle key written (some out)).1 (s.handle key written (some out)).2 before after := by
                rw [step_present housed.formed positive rfl found, ← cached] at rest
                have grows : Grown s.log s.log key false :=
                  ⟨Nat.le_refl _, fun _ _ here => .inl here, fun wrong => (by cases wrong), fun _ => rfl⟩
                by_cases here : index = key
                · subst here
                  exact instance_shadow housed (m := ⟨index, _⟩) mirrors
                    (fun fast _ => request_reaches before i _ learnerOnly written fast rfl (fun wrong => by cases wrong))
                    (fun _ blank => absurd (mirrors.alive.trans cached) (by rw [blank.1 i]; exact fun wrong => by cases wrong)) grows
                    (index_bounds s.log housed.formed index ins there).1 rest
                · exact instance_elsewhere mirrors (m := ⟨key, _⟩) here grows rest
              split at rest
              · exact again _ rest
              · split at rest
                · split at rest
                  · cases rest
                    exact idle_shadow mirrors written (show (-21 : Int) ≠ 0 by decide) cached.symm
                  · exact again _ rest
                · cases rest

end Steps

end PaxosStore.PaxosKv
