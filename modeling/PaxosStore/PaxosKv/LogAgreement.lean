import PaxosStore.PaxosKv.LogProposals
import PaxosStore.PaxosKv.Agreement

set_option autoImplicit false

namespace PaxosStore.PaxosKv

open PaxosStore.Consensus

section Instances

variable {fast : Fin 3} {s t : Servers}

theorem set_here (i : Fin 3) (server : Server) : (s.setServer i server).server i = server := Function.update_self _ _ _

theorem handle_keeps_chosen (i : Fin 3) (msg : Message) (learnerOnly written : Bool) (j : Fin 3) (marked : (s.server j).pins.chosen = true) :
    ((s.handle i msg learnerOnly written).server j).pins = (s.server j).pins := by
  by_cases here : j = i
  · subst here
    unfold Servers.handle
    cases stepped : wrapperStep learnerOnly j msg (s.server j).alive (s.server j).pins with
    | none =>
        dsimp only
        rw [set_here]
    | some result =>
        rw [wrapperStep, if_pos marked] at stepped
        obtain ⟨rsp, _, rfl⟩ := Option.map_eq_some_iff.mp stepped
        dsimp only
        split
        · rw [set_here]
        · rw [set_here]
  · rw [handle_others s i msg learnerOnly written j here]

theorem set_keeps_pins (i : Fin 3) (alive : Option PInsAliveState) (j : Fin 3) :
    ((s.setServer i { s.server i with alive := alive }).server j).pins = (s.server j).pins := by
  by_cases here : j = i
  · subst here
    rw [set_here]
  · exact congrArg Server.pins (Function.update_of_ne here _ _)

-- A chosen instance never changes again.
theorem run_keeps_chosen (run : Reaches (Servers.act fast) s t) (i : Fin 3) (marked : (s.server i).pins.chosen = true) :
    (t.server i).pins = (s.server i).pins := by
  refine run_invariant (Servers.act fast) (fun u => (u.server i).pins = (s.server i).pins) ?_ s t rfl run
  intro u event v same done
  cases event with
  | request j msg learnerOnly written =>
      rw [Servers.act] at done
      split at done
      · cases done
        rw [handle_keeps_chosen j msg learnerOnly written i (by rw [same]; exact marked), same]
      · cases done
  | receive j msg learnerOnly written =>
      rw [Servers.act] at done
      split at done
      · cases done
        rw [handle_keeps_chosen j msg learnerOnly written i (by rw [same]; exact marked), same]
      · cases done
  | create j propCnt =>
      cases done
      rw [set_keeps_pins, same]
  | lose j =>
      cases done
      rw [set_keeps_pins, same]

-- The value that is chosen, at whichever server and in whichever message.
theorem one_value (run : Reaches (Servers.act fast) Servers.start s) : ∃ h : History, h.Sound lastFast ∧
    (∀ i, (s.server i).pins.chosen = true → ∃ value ballot, (s.server i).pins.acceptedValue = some value ∧ h.Chosen ballot value) ∧
    ∀ msg ∈ s.sent, msg.type = .chosen → ∀ value, msg.acceptedValue = some value → ∃ ballot, h.Chosen ballot value := by
  obtain ⟨_, h, backed⟩ := run_invariant (Servers.act fast) (fun s => NoBegin s ∧ ∃ h, Backed fast h s) (backed_act fast)
    Servers.start s (backed_start fast) run
  exact ⟨h, backed.ledger.sound, fun i marked => (backed.pins i).chosen marked,
    fun msg there kind value held => (backed.flight msg there).chosen kind value held⟩

theorem chosen_pins_agree (run : Reaches (Servers.act fast) Servers.start s) (i j : Fin 3) (left : (s.server i).pins.chosen = true)
    (right : (s.server j).pins.chosen = true) : (s.server i).pins.acceptedValue = (s.server j).pins.acceptedValue := by
  obtain ⟨h, sound, chosen, _⟩ := one_value run
  obtain ⟨first, low, held, before⟩ := chosen i left
  obtain ⟨second, high, heldToo, after⟩ := chosen j right
  rw [held, heldToo, Voting.chosen_agree lastFast h sound low high first second before after]

theorem chosen_message_agrees (run : Reaches (Servers.act fast) Servers.start s) (i : Fin 3) (marked : (s.server i).pins.chosen = true)
    (msg : Message) (there : msg ∈ s.sent) (kind : msg.type = .chosen) (value : Entry) (says_ : msg.acceptedValue = some value) :
    (s.server i).pins.acceptedValue = some value := by
  obtain ⟨h, sound, chosen, told⟩ := one_value run
  obtain ⟨first, low, held, before⟩ := chosen i marked
  obtain ⟨high, after⟩ := told msg there kind value says_
  rw [held, Voting.chosen_agree lastFast h sound low high first value before after]

end Instances

-- Whoever may begin with the fast path at an index: the member the value before it is of.
def Quick (members : Fin 3 → Nat) (instances : Nat → Servers) (index : Nat) (fast : Fin 3) : Prop :=
  ∀ last i value, index = last + 1 → ((instances last).server i).pins.chosen = true →
    ((instances last).server i).pins.acceptedValue = some value → ∀ j, PLogWrapper.belongTo value.reqid (members j) = true → j = fast

-- The first index, and every index whose predecessor some server has had as chosen.
def Opened (members : Fin 3 → Nat) (g : LogGroup) (index : Nat) : Prop :=
  index = 1 ∨ ∃ last before j pins, index = last + 1 ∧ Reaches (LogGroup.act members) LogGroup.start before ∧
    Reaches (LogGroup.act members) before g ∧ (last, pins) ∈ (before.server j).log ∧ pins.chosen = true

-- The logs of the three servers as the instances of all indexes, each with its own run.
structure Unfolds (members : Fin 3 → Nat) (g : LogGroup) (instances : Nat → Servers) : Prop where
  housed : ∀ i, Housed (g.server i)
  mirrors : ∀ i index, Mirrors (g.server i) index ((instances index).server i)
  flight : ∀ m ∈ g.sent, m.msg ∈ (instances m.index).sent
  reached : ∀ index fast, Quick members instances index fast → Reaches (Servers.act fast) Servers.start (instances index)
  blank : ∀ index, ¬ Opened members g index → Blank (instances index)

def Kept (before after : Nat → Servers) : Prop :=
  ∀ index i, ((before index).server i).pins.chosen = true → ((after index).server i).pins = ((before index).server i).pins

section Groups

variable {members : Fin 3 → Nat} {g next : LogGroup} {instances : Nat → Servers}

theorem unfolds_start : Unfolds members LogGroup.start fun _ => Servers.start where
  housed := fun _ => ⟨formed_nil, fun _ _ wrong => by cases wrong⟩
  mirrors := fun _ _ => ⟨fun _ wrong => (by cases wrong), fun _ => rfl, rfl⟩
  flight := fun _ wrong => by cases wrong
  reached := fun _ _ _ => reaches_refl _ _
  blank := fun _ _ => ⟨fun _ => rfl, rfl⟩

-- At every index there is a server that may begin so: the values before it agree.
theorem quick_exists (apart : Function.Injective members) (unfolds : Unfolds members g instances) (index : Nat) :
    ∃ fast, Quick members instances index fast := by
  induction index with
  | zero => exact ⟨0, fun _ _ _ wrong => by cases wrong⟩
  | succ last ih =>
      obtain ⟨fast, quick⟩ := ih
      have run := unfolds.reached last fast quick
      by_cases made : ∃ i value j, ((instances last).server i).pins.chosen = true ∧
          ((instances last).server i).pins.acceptedValue = some value ∧ PLogWrapper.belongTo value.reqid (members j) = true
      · obtain ⟨i, value, j, marked, held, mine⟩ := made
        refine ⟨j, fun before other found next chosen known k own => apart ?_⟩
        obtain rfl := Nat.succ.inj next
        have same := chosen_pins_agree run i other marked chosen
        rw [held, known] at same
        obtain rfl := Option.some.inj same
        have left : _ ∧ _ := of_decide_eq_true own
        have right : _ ∧ _ := of_decide_eq_true mine
        exact left.2.symm.trans right.2
      · refine ⟨0, fun before other found next chosen known k own => absurd ?_ made⟩
        obtain rfl := Nat.succ.inj next
        exact ⟨other, found, k, chosen, known, own⟩

theorem quick_kept {after : Nat → Servers} (kept : Kept instances after) {index : Nat} {fast : Fin 3} (quick : Quick members after index fast) :
    Quick members instances index fast := by
  intro last i value next marked held j own
  have same := kept last i marked
  exact quick last i value next (by rw [same]; exact marked) (by rw [same]; exact held) j own

theorem opened_later (run : Reaches (LogGroup.act members) g next) {index : Nat} (opened : Opened members g index) :
    Opened members next index := by
  rcases opened with first | ⟨last, before, j, pins, follows, known, later, there, marked⟩
  · exact .inl first
  · exact .inr ⟨last, before, j, pins, follows, known, reaches_trans _ _ _ _ later run, there, marked⟩

-- One operation of one server is a few steps at every index.
theorem unfolds_perform (apart : Function.Injective members) (known : Reaches (LogGroup.act members) LogGroup.start g)
    (arrives : Reaches (LogGroup.act members) g next) (unfolds : Unfolds members g instances) (i : Fin 3) (op : LogOp)
    (enters : ∀ m learnerOnly written, op = .message m learnerOnly written → ∀ fast,
      Reaches (Servers.act fast) (instances m.index) ((instances m.index).handle i m.msg learnerOnly written))
    (quiet : ∀ m learnerOnly written, op = .message m learnerOnly written → Blank (instances m.index) →
      Blank ((instances m.index).handle i m.msg learnerOnly written))
    (done : g.perform members i op = some next) : ∃ after, Unfolds members next after ∧ Kept instances after := by
  unfold LogGroup.perform at done
  split at done
  · rename_i small
    cases done
    have shadows (index : Nat) : ∃ after, Shadow (Quick members instances index) (Opened members g index) i index ((g.server i).perform i (members i) op).1
        ((g.server i).perform i (members i) op).2 (instances index) after := by
      refine perform_shadow (unfolds.housed i) (unfolds.mirrors i index) op ?_ ?_ ?_ ?_
      · rintro m learnerOnly written asked rfl fast _
        exact enters m learnerOnly written asked fast
      · rintro m learnerOnly written asked rfl
        exact quiet m learnerOnly written asked
      · intro last pins follows there marked mine fast usable
        have same := (unfolds.mirrors i last).stored pins there
        cases held : pins.acceptedValue with
        | none =>
            rw [held] at mine
            cases mine
        | some value =>
            rw [held] at mine
            exact usable last i value follows (by rw [same]; exact marked) (by rw [same]; exact held) i mine
      · rintro (first | ⟨last, pins, follows, there, marked⟩)
        · exact .inl first
        · exact .inr ⟨last, g, i, pins, follows, known, reaches_refl _ _, there, marked⟩
    choose after shadow using shadows
    have kept : Kept instances after := by
      intro index j marked
      obtain ⟨fast, quick⟩ := quick_exists apart unfolds index
      exact run_keeps_chosen ((shadow index).reached fast quick) j marked
    refine ⟨after, ⟨fun j => ?_, fun j index => ?_, fun m there => ?_, fun index fast quick => ?_, fun index closed => ?_⟩, kept⟩
    · by_cases here : j = i
      · subst here
        dsimp only
        rw [Function.update_self]
        exact perform_housed (unfolds.housed j) op small
      · dsimp only
        rw [Function.update_of_ne here]
        exact unfolds.housed j
    · by_cases here : j = i
      · subst here
        dsimp only
        rw [Function.update_self]
        exact (shadow index).mirrors
      · dsimp only
        rw [Function.update_of_ne here, (shadow index).others j here]
        exact unfolds.mirrors j index
    · rcases List.mem_append.mp there with new | old
      · exact (shadow m.index).replied m (Option.mem_toList.mp new) rfl
      · exact (shadow m.index).sent m.msg (unfolds.flight m old)
    · have before := quick_kept kept quick
      exact reaches_trans _ _ _ _ (unfolds.reached index fast before) ((shadow index).reached fast before)
    · have before : ¬ Opened members g index := fun opened => closed (opened_later arrives opened)
      exact (shadow index).quiet before (unfolds.blank index before)
  · cases done

theorem unfolds_act (apart : Function.Injective members) (known : Reaches (LogGroup.act members) LogGroup.start g)
    (unfolds : Unfolds members g instances) (event : GroupEvent) (done : g.act members event = some next) :
    ∃ after, Unfolds members next after ∧ Kept instances after := by
  have arrives := reaches_step (LogGroup.act members) g event next done
  cases event with
  | deliver i m learnerOnly written =>
      rw [LogGroup.act] at done
      split at done
      · rename_i allowed
        have sent := unfolds.flight m allowed.1
        refine unfolds_perform apart known arrives unfolds i _ ?_ ?_ done
        · rintro _ _ _ ⟨⟩ fast
          exact receive_reaches (instances m.index) i m.msg learnerOnly written fast sent allowed.2
        · rintro _ _ _ ⟨⟩ blank
          rw [show (m.sentTo i).index = m.index from rfl] at blank
          rw [blank.2] at sent
          cases sent
      · cases done
  | operate i op =>
      rw [LogGroup.act] at done
      split at done
      · rename_i own
        refine unfolds_perform apart known arrives unfolds i op ?_ ?_ done
        · rintro m learnerOnly written rfl fast
          have question : m.msg.type = .getChosen ∨ m.msg.type = .noop := of_decide_eq_true own
          refine request_reaches (instances m.index) i m.msg learnerOnly written fast ?_ ?_
          · rcases question with kind | kind
            · rw [kind]
              rfl
            · rw [kind]
              rfl
          · intro wrong
            rcases question with kind | kind
            · rw [kind] at wrong
              cases wrong
            · rw [kind] at wrong
              cases wrong
        · rintro m learnerOnly written rfl blank
          exact question_blank blank own
      · cases done

theorem unfolds_run (apart : Function.Injective members) (known : Reaches (LogGroup.act members) LogGroup.start g)
    (unfolds : Unfolds members g instances) (run : Reaches (LogGroup.act members) g next) :
    ∃ after, Unfolds members next after ∧ Kept instances after := by
  refine (run_invariant (LogGroup.act members)
    (fun g => Reaches (LogGroup.act members) LogGroup.start g ∧ ∃ after, Unfolds members g after ∧ Kept instances after) ?_ g next
    ⟨known, instances, unfolds, fun _ _ _ => rfl⟩ run).2
  rintro middle event later ⟨reached, before, unfolded, kept⟩ done
  obtain ⟨after, now, still⟩ := unfolds_act apart reached unfolded event done
  refine ⟨reaches_trans _ _ _ _ reached (reaches_step _ _ event later done), after, now, fun index i marked => ?_⟩
  have same := kept index i marked
  rw [still index i (by rw [same]; exact marked), same]

-- Nothing is stored or sent for an index before its predecessor was chosen.
theorem touched_opened (unfolds : Unfolds members g instances) {index : Nat}
    (touched : (∃ i pins, findIns (g.server i).log index = some pins ∧ pins ≠ {}) ∨ ∃ m ∈ g.sent, m.index = index) : Opened members g index := by
  by_contra closed
  obtain ⟨still, silent⟩ := unfolds.blank index closed
  rcases touched with ⟨i, pins, held, changed⟩ | ⟨m, sent, rfl⟩
  · have same := (unfolds.mirrors i index).stored pins (find_member _ _ _ held)
    rw [still i] at same
    exact changed same.symm
  · have there := unfolds.flight m sent
    rw [silent] at there
    cases there

end Groups

-- Whatever the three servers of a key do, the values chosen at an index are one and the same: at
-- every server, at any two times, and in every message that announces it.
theorem logs_agree (members : Fin 3 → Nat) (apart : Function.Injective members) (g later : LogGroup)
    (first : Reaches (LogGroup.act members) LogGroup.start g) (rest : Reaches (LogGroup.act members) g later) (index : Nat) (i : Fin 3)
    (pins : PaxosInstance) (held : findIns (g.server i).log index = some pins) (chosen : pins.chosen = true) :
    (∀ j other, findIns (later.server j).log index = some other → other.chosen = true → other.acceptedValue = pins.acceptedValue) ∧
    ∀ m ∈ later.sent, m.index = index → m.msg.type = .chosen → m.msg.acceptedValue.isSome = true →
      m.msg.acceptedValue = pins.acceptedValue := by
  obtain ⟨before, known, _⟩ := unfolds_run apart (reaches_refl _ _) unfolds_start first
  obtain ⟨after, now, kept⟩ := unfolds_run apart first known rest
  obtain ⟨fast, quick⟩ := quick_exists apart now index
  have run := now.reached index fast quick
  have same := (known.mirrors i index).stored pins (find_member _ _ _ held)
  have still := (kept index i (by rw [same]; exact chosen)).trans same
  have marked : ((after index).server i).pins.chosen = true := by rw [still]; exact chosen
  refine ⟨fun j other there taken => ?_, fun m there here kind valued => ?_⟩
  · have equal := (now.mirrors j index).stored other (find_member _ _ _ there)
    have agreed := chosen_pins_agree run j i (by rw [equal]; exact taken) marked
    rw [equal, still] at agreed
    exact agreed
  · subst here
    obtain ⟨value, told⟩ := Option.isSome_iff_exists.mp valued
    have agreed := chosen_message_agrees run i marked m.msg (now.flight m there) kind value told
    rw [still] at agreed
    rw [told, agreed]

def threeMembers (i : Fin 3) : Nat := i + 7

-- Server 0 gets the first value through, then the second one by the fast path, and server 2
-- learns the first in between.
def twoValues : List GroupEvent :=
  let first : Entry := ⟨7 * 2 ^ 48 + 1, [1]⟩
  let second : Entry := ⟨7 * 2 ^ 48 + 2, [2]⟩
  let prop : Message := { type := .prop, fromId := 0, toId := none, proposedNum := 65537 }
  let promise : Message := { type := .propRsp, fromId := 1, toId := some 0, proposedNum := 65537, promisedNum := some 65537 }
  let accpt : Message := { type := .accpt, fromId := 0, toId := none, proposedNum := 65537, acceptedValue := some first }
  let vote : Message := { type := .accptRsp, fromId := 1, toId := some 0, proposedNum := 65537, acceptedNum := some 65537 }
  let chosen : Message := { type := .chosen, fromId := 0, toId := none, proposedNum := 65537, acceptedValue := some first }
  let fast : Message := { type := .fastAccpt, fromId := 0, toId := none, proposedNum := 1, acceptedValue := some second }
  let voteToo : Message := { type := .fastAccptRsp, fromId := 1, toId := some 0, proposedNum := 1, acceptedNum := some 1 }
  [.operate 0 (.normalSet first true false true), .deliver 1 ⟨1, prop⟩ false true, .deliver 0 ⟨1, promise⟩ false true,
    .deliver 1 ⟨1, accpt⟩ false true, .deliver 0 ⟨1, vote⟩ false true, .operate 0 .lose, .operate 0 (.normalSet second true false true),
    .deliver 2 ⟨1, chosen⟩ false true, .deliver 1 ⟨2, fast⟩ false true, .deliver 0 ⟨2, voteToo⟩ false true]

theorem two_values_agree : ∃ g later pins other, Reaches (LogGroup.act threeMembers) LogGroup.start g ∧
    Reaches (LogGroup.act threeMembers) g later ∧ findIns (g.server 0).log 1 = some pins ∧ pins.chosen = true ∧
    findIns (later.server 2).log 1 = some other ∧ other.chosen = true ∧ other.acceptedValue = pins.acceptedValue ∧
    getMaxIndex (later.server 0).log = 2 := by
  let act := LogGroup.act threeMembers
  have apart : Function.Injective threeMembers := fun i j same => Fin.ext (Nat.add_right_cancel same)
  have first := reaches_end act LogGroup.start (twoValues.take 7) (by decide +kernel)
  have rest := reaches_end act (endOf act LogGroup.start (twoValues.take 7)) (twoValues.drop 7) (by decide +kernel)
  obtain ⟨pins, held, chosen⟩ : ∃ pins, findIns ((endOf act LogGroup.start (twoValues.take 7)).server 0).log 1 = some pins ∧ pins.chosen = true :=
    ⟨{ proposedNum := 65537, promisedNum := some 65537, acceptedNum := some 65537, acceptedValue := some ⟨7 * 2 ^ 48 + 1, [1]⟩, chosen := true },
      by decide +kernel⟩
  obtain ⟨other, there, taken⟩ : ∃ other, findIns ((endOf act (endOf act LogGroup.start (twoValues.take 7)) (twoValues.drop 7)).server 2).log 1 =
      some other ∧ other.chosen = true :=
    ⟨((findIns ((endOf act (endOf act LogGroup.start (twoValues.take 7)) (twoValues.drop 7)).server 2).log 1)).getD {}, by decide +kernel⟩
  have top : getMaxIndex ((endOf act (endOf act LogGroup.start (twoValues.take 7)) (twoValues.drop 7)).server 0).log = 2 := by decide +kernel
  exact ⟨_, _, pins, other, first, rest, held, chosen, there, taken,
    (logs_agree threeMembers apart _ _ first rest 1 0 pins held chosen).1 2 other there taken, top⟩

-- A log is filled in order: before anything is stored or sent for an index, every index below
-- it was chosen at some server.
theorem log_fills_in_order (members : Fin 3 → Nat) (apart : Function.Injective members) (g : LogGroup)
    (run : Reaches (LogGroup.act members) LogGroup.start g) (index : Nat)
    (touched : (∃ i pins, findIns (g.server i).log index = some pins ∧ pins ≠ {}) ∨ ∃ m ∈ g.sent, m.index = index) (lower : Nat)
    (positive : 0 < lower) (below : lower < index) : ∃ before j pins, Reaches (LogGroup.act members) LogGroup.start before ∧
      Reaches (LogGroup.act members) before g ∧ findIns (before.server j).log lower = some pins ∧ pins.chosen = true := by
  induction index generalizing g with
  | zero => omega
  | succ last ih =>
      obtain ⟨instances, unfolds, _⟩ := unfolds_run apart (reaches_refl _ _) unfolds_start run
      rcases touched_opened unfolds touched with first | ⟨prev, before, j, pins, follows, known, later, there, marked⟩
      · omega
      · obtain rfl := Nat.succ.inj follows
        obtain ⟨unfolded, now, _⟩ := unfolds_run apart (reaches_refl _ _) unfolds_start known
        have found := (find_iff _ (now.housed j).formed last pins).mpr there
        by_cases here : lower = last
        · subst here
          exact ⟨before, j, pins, known, later, found, marked⟩
        · have changed : pins ≠ {} := by
            rintro rfl
            cases marked
          obtain ⟨start, k, held, reached, onward, here, chosen⟩ := ih before known (.inl ⟨j, pins, found, changed⟩) (by omega)
          exact ⟨start, k, held, reached, reaches_trans _ _ _ _ onward later, here, chosen⟩

-- When the second value is under way the first one has been chosen.
theorem second_value_follows : ∃ g before j pins, Reaches (LogGroup.act threeMembers) LogGroup.start g ∧
    (∃ m ∈ g.sent, m.index = 2) ∧ Reaches (LogGroup.act threeMembers) before g ∧ findIns (before.server j).log 1 = some pins ∧
    pins.chosen = true := by
  let act := LogGroup.act threeMembers
  have apart : Function.Injective threeMembers := fun i j same => Fin.ext (Nat.add_right_cancel same)
  have run := reaches_end act LogGroup.start twoValues (by decide +kernel)
  have sent : ∃ m ∈ (endOf act LogGroup.start twoValues).sent, m.index = 2 := by decide +kernel
  obtain ⟨before, j, pins, _, later, held, chosen⟩ := log_fills_in_order threeMembers apart _ run 2 (.inr sent) 1 (by decide) (by decide)
  exact ⟨_, before, j, pins, run, sent, later, held, chosen⟩

end PaxosStore.PaxosKv
