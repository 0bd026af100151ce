import PaxosStore.Certain.AcceptorSteps
import PaxosStore.Consensus.Run

set_option autoImplicit false

namespace PaxosStore.Certain

open PaxosStore.Consensus

variable {n : Nat}

theorem local_set_elsewhere (s : Acceptors n) (i j : Fin n) (m : EntryStateMachine n) (other : j ≠ i) :
    (s.setMachine i m).localRecord j = s.localRecord j := by
  simp [Acceptors.setMachine, Acceptors.localRecord, other]

-- One step keeps chosen records, and only Promise touches the prepared number.
theorem act_keeps (h : History n) (s t : Acceptors n) (a : Action n) (backed : Backed h s) (done : s.act a = some t) (j : Fin n) :
    EntryStateMachine.Keeps (s.localRecord j) (t.localRecord j) ∧
      ((t.localRecord j).preparedNum = (s.localRecord j).preparedNum ∨
        ∃ preAuth, a = .promise j preAuth ∧ (t.localRecord j).preparedNum = (s.machines j).nextNum preAuth) := by
  cases a with
  | send i =>
      cases done
      exact ⟨EntryStateMachine.keeps_refl _, .inl rfl⟩
  | promise i preAuth =>
      obtain ⟨⟨code, m⟩, computed, rfl⟩ := Option.map_eq_some_iff.mp done
      by_cases here : j = i
      · subst here
        obtain ⟨keeps, prepared⟩ := EntryStateMachine.promise_keeps (s.machines j) m preAuth code computed
        rw [local_set_machine]
        exact ⟨keeps, .inr ⟨preAuth, rfl, prepared⟩⟩
      · rw [local_set_elsewhere s i j m here]
        exact ⟨EntryStateMachine.keeps_refl _, .inl rfl⟩
  | accept i value uuids =>
      obtain ⟨⟨code, own, m⟩, computed, rfl⟩ := Option.map_eq_some_iff.mp done
      by_cases here : j = i
      · subst here
        obtain ⟨keeps, prepared⟩ :=
          EntryStateMachine.accept_keeps (s.machines j) m value _ uuids code own (backed.current j).tidy computed
        rw [local_set_machine]
        exact ⟨keeps, .inl prepared⟩
      · rw [local_set_elsewhere s i j m here]
        exact ⟨EntryStateMachine.keeps_refl _, .inl rfl⟩
  | update i peer record =>
      rw [Acceptors.act] at done
      by_cases delivered : (peer, record) ∈ s.sent ∧ peer ≠ i
      · rw [if_pos delivered] at done
        obtain ⟨⟨code, m⟩, computed, rfl⟩ := Option.map_eq_some_iff.mp done
        by_cases here : j = i
        · subst here
          have remote : peer ≠ (s.machines j).localAcceptorId := fun eq => delivered.2 (eq.trans (backed.current j).self)
          obtain ⟨keeps, prepared⟩ :=
            EntryStateMachine.update_keeps (s.machines j) m peer record code (backed.current j).tidy remote computed
          rw [local_set_machine]
          exact ⟨keeps, .inl prepared⟩
        · rw [local_set_elsewhere s i j m here]
          exact ⟨EntryStateMachine.keeps_refl _, .inl rfl⟩
      · rw [if_neg delivered] at done
        cases done

theorem backed_agree (h : History n) (s : Acceptors n) (i j : Fin n) (backed : Backed h s)
    (left : (s.localRecord i).chosen = true) (right : (s.localRecord j).chosen = true) :
    (s.localRecord i).proposal = (s.localRecord j).proposal := by
  have first := (current_own h i _ (backed.current i)).chosen left
  have second := (current_own h j _ (backed.current j)).chosen right
  exact Voting.chosen_agree n h backed.sound _ _ _ _ first second

-- Promise is called without pre-authorisation.
def Action.plain : Action n → Bool
  | .promise _ preAuth => !preAuth
  | _ => true

def Acceptors.plainAct (s : Acceptors n) (a : Action n) : Option (Acceptors n) :=
  if a.plain ∧ a.fits s then s.act a else none

structure PlainInv (s : Acceptors n) : Prop where
  backed : ∃ h, Backed h s
  rounds : ∀ i, (s.localRecord i).preparedNum = 0 ∨ n < (s.localRecord i).preparedNum

theorem plain_inv_start (flags : Fin n → Fin n → Bool) : PlainInv (Acceptors.start flags) :=
  ⟨⟨Voting.empty, backed_start flags⟩, fun _ => .inl rfl⟩

theorem plain_inv_step (small : n ≤ kMaxAcceptorNum) (s : Acceptors n) (a : Action n) (t : Acceptors n) (inv : PlainInv s)
    (done : s.plainAct a = some t) :
    PlainInv t ∧ ∀ i, EntryStateMachine.Keeps (s.localRecord i) (t.localRecord i) := by
  rw [Acceptors.plainAct] at done
  by_cases allowed : a.plain ∧ a.fits s
  · rw [if_pos allowed] at done
    obtain ⟨plain, fits⟩ := allowed
    obtain ⟨⟨h, backed⟩, rounds⟩ := inv
    obtain ⟨next, grown, _⟩ := backed_act h s t a small backed fits (fun i positive low => by have := rounds i; omega) done
    have keeps := act_keeps h s t a backed done
    refine ⟨⟨⟨next, grown⟩, fun i => ?_⟩, fun i => (keeps i).1⟩
    rcases (keeps i).2 with same | ⟨preAuth, rfl, prepared⟩
    · rw [same]
      exact rounds i
    · right
      rw [prepared, EntryStateMachine.next_num_exact (s.machines i) preAuth small (of_decide_eq_true fits)]
      by_contra low
      obtain ⟨authorised, _, _⟩ := EntryStateMachine.exact_num_first (s.machines i) preAuth (by omega)
      rw [authorised] at plain
      cases plain
  · rw [if_neg allowed] at done
    cases done

theorem plain_run (small : n ≤ kMaxAcceptorNum) (s t : Acceptors n) (inv : PlainInv s) (run : Reaches Acceptors.plainAct s t) :
    PlainInv t ∧ ∀ i, EntryStateMachine.Keeps (s.localRecord i) (t.localRecord i) := by
  apply run_relation Acceptors.plainAct PlainInv (fun u v => ∀ i, EntryStateMachine.Keeps (u.localRecord i) (v.localRecord i))
    _ _ (plain_inv_step small) s t inv run
  · exact fun u i => EntryStateMachine.keeps_refl (u.localRecord i)
  · exact fun u v w first second i => EntryStateMachine.keeps_trans _ _ _ (first i) (second i)

theorem chosen_records_agree (upper : n ≤ kMaxAcceptorNum) (flags : Fin n → Fin n → Bool) (s : Acceptors n)
    (run : Reaches Acceptors.plainAct (Acceptors.start flags) s) :
    (∀ i j, (s.localRecord i).chosen = true → (s.localRecord j).chosen = true →
      (s.localRecord i).valueId = (s.localRecord j).valueId ∧ (s.localRecord i).value = (s.localRecord j).value ∧
        (s.localRecord i).uuids = (s.localRecord j).uuids) ∧
    ∀ t, Reaches Acceptors.plainAct s t → ∀ i, (s.localRecord i).chosen = true →
      (t.localRecord i).chosen = true ∧ (t.localRecord i).valueId = (s.localRecord i).valueId ∧
        (t.localRecord i).value = (s.localRecord i).value ∧ (t.localRecord i).uuids = (s.localRecord i).uuids := by
  have inv := (plain_run upper _ s (plain_inv_start flags) run).1
  constructor
  · intro i j left right
    obtain ⟨h, backed⟩ := inv.backed
    have same := backed_agree h s i j backed left right
    exact ⟨congrArg Proposal.valueId same, congrArg Proposal.value same, congrArg Proposal.uuids same⟩
  · intro t later i marked
    obtain ⟨kept, _, same⟩ := (plain_run upper s t inv later).2 i marked
    exact ⟨kept, congrArg Proposal.valueId same, congrArg Proposal.value same, congrArg Proposal.uuids same⟩

-- Three acceptors: a full round by acceptor 0 that acceptor 1 answers.
def fullRound : List (Action 3) :=
  let promise : EntryRecord := { preparedNum := 4, promisedNum := 4 }
  let answer : EntryRecord := { promisedNum := 4 }
  let proposal : EntryRecord := { preparedNum := 4, promisedNum := 4, acceptedNum := 4, valueId := 4, value := [7], uuids := [1] }
  let learnt : EntryRecord := { promisedNum := 4, acceptedNum := 4, valueId := 4, value := [7], uuids := [1], chosen := true }
  [.promise 0 false, .send 0, .update 1 0 promise, .send 1, .update 0 1 answer, .accept 0 [7] [1], .send 0,
    .update 1 0 proposal, .send 1, .update 0 1 learnt]

theorem full_round_agrees : ∃ s : Acceptors 3, Reaches Acceptors.plainAct (Acceptors.start fun _ _ => false) s ∧
    (s.localRecord 0).chosen = true ∧ (s.localRecord 1).chosen = true ∧ (s.localRecord 0).value = (s.localRecord 1).value := by
  have run := reaches_end Acceptors.plainAct (Acceptors.start fun _ _ => false) fullRound (by decide +kernel)
  have left : ((endOf Acceptors.plainAct (Acceptors.start fun _ _ => false) fullRound).localRecord 0).chosen = true := by
    decide +kernel
  have right : ((endOf Acceptors.plainAct (Acceptors.start fun _ _ => false) fullRound).localRecord 1).chosen = true := by
    decide +kernel
  exact ⟨_, run, left, right, ((chosen_records_agree (by decide) _ _ run).1 0 1 left right).2.1⟩

end PaxosStore.Certain
