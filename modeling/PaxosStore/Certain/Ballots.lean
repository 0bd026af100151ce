import PaxosStore.Certain.MachineCalls

set_option autoImplicit false

namespace PaxosStore.Certain.EntryStateMachine

open PaxosStore.Consensus

variable {n : Nat}

-- What a ballot is for: Promise leaves the record, or it takes a larger number that no
-- other acceptor takes.
def PromiseLawful (m : EntryStateMachine n) (preAuth : Bool) : Prop :=
  ∃ code next, m.promise preAuth = some (code, next) ∧
    (code ≠ .ok ∧ next.localRecord = m.localRecord ∨
      code = .ok ∧ m.localRecord.promisedNum < next.localRecord.promisedNum ∧
        next.localRecord.promisedNum % n = (m.localAcceptorId + 1) % n ∧ (preAuth = false → n < next.localRecord.promisedNum))

-- The largest promised number from which an acceptor still finds a ballot in 32 bits.
def lastPromise (m : EntryStateMachine n) : Nat := (2 ^ 32 - 2 - m.localAcceptorId) / n * n

theorem exact_fits_iff (m : EntryStateMachine n) (two : 2 ≤ n) (few : n ≤ kMaxAcceptorNum) (preAuth : Bool) :
    m.exactNum preAuth < 2 ^ 32 ↔ m.localRecord.promisedNum ≤ m.lastPromise := by
  have idBound := m.localAcceptorId.isLt
  unfold kMaxAcceptorNum at few
  unfold exactNum lastPromise
  dsimp only
  generalize (m.localAcceptorId : Nat) = id at idBound ⊢
  generalize m.localRecord.promisedNum = promised
  clear m
  interval_cases n <;> split <;> omega

-- Past that the ballot starts again from the smallest numbers.
theorem next_num_wrapped (m : EntryStateMachine n) (two : 2 ≤ n) (few : n ≤ kMaxAcceptorNum) (preAuth : Bool)
    (word : m.localRecord.promisedNum < 2 ^ 32) (large : m.lastPromise < m.localRecord.promisedNum) :
    m.nextNum preAuth < m.localRecord.promisedNum := by
  have idBound := m.localAcceptorId.isLt
  have overflows : ¬ m.exactNum preAuth < 2 ^ 32 := fun fits => by
    have low := (exact_fits_iff m two few preAuth).mp fits
    omega
  unfold kMaxAcceptorNum at few
  unfold exactNum at overflows
  unfold nextNum
  dsimp only at overflows ⊢
  generalize (m.localAcceptorId : Nat) = id at idBound overflows ⊢
  generalize m.localRecord.promisedNum = promised at word overflows ⊢
  have rounded := Nat.div_mul_le_self (promised + n - 1) n
  have inner : u32 (u32 (promised + n - 1) / n * n + id + 1) ≤ 2 * n := by
    by_cases exact_ : promised + n - 1 < 2 ^ 32
    · rw [u32, u32, Nat.mod_eq_of_lt exact_]
      generalize (promised + n - 1) / n * n = multiple at rounded overflows ⊢
      split at overflows <;> omega
    · have back : u32 (promised + n - 1) = promised + n - 1 - 2 ^ 32 := by
        rw [u32, Nat.mod_eq_sub_mod (by omega), Nat.mod_eq_of_lt (by omega)]
      rw [back, Nat.div_eq_of_lt (by omega), Nat.zero_mul, Nat.zero_add, u32, Nat.mod_eq_of_lt (by omega)]
      omega
  have far : 3 * n < promised := by
    split at overflows <;> omega
  split
  · have bound := Nat.mod_le (u32 (u32 (promised + n - 1) / n * n + id + 1) + n) (2 ^ 32)
    rw [← u32] at bound
    omega
  · omega

theorem exact_num_class (m : EntryStateMachine n) (preAuth : Bool) : m.exactNum preAuth % n = (m.localAcceptorId + 1) % n := by
  have owned := exact_num_owned m preAuth
  have above := exact_num_above m preAuth
  unfold Owns at owned
  rw [← owned, Nat.mod_add_mod, Nat.sub_add_cancel (by omega)]

theorem exact_num_high (m : EntryStateMachine n) : n < m.exactNum false := by
  by_contra low
  have first := (exact_num_first m false (Nat.le_of_not_lt low)).1
  cases first

-- A promise that nobody else has made.
theorem promise_succeeds (m : EntryStateMachine n) (sane : m.Sane) (two : 2 ≤ n) (preAuth : Bool) (open_ : m.localRecord.chosen = false)
    (above : m.localRecord.promisedNum < m.nextNum preAuth) :
    ∃ next, m.promise preAuth = some (.ok, next) ∧ next.localRecord.promisedNum = m.nextNum preAuth := by
  obtain ⟨code, next, done, fine, -, prepared, promised⟩ := sane_promise m sane preAuth open_ above
  refine ⟨next, ?_, promised⟩
  have computed := promise_cases m next preAuth code done
  have still_open := promise_open m next preAuth code sane.tidy open_ done
  generalize raised : ({ m.localRecord with preparedNum := m.nextNum preAuth, promisedNum := m.nextNum preAuth } : EntryRecord) = record at computed
  have numbers : record.preparedNum = m.nextNum preAuth ∧ record.promisedNum = m.nextNum preAuth ∧
      record.acceptedNum = m.localRecord.acceptedNum ∧ record.chosen = m.localRecord.chosen := by
    subst raised
    exact ⟨rfl, rfl, rfl, rfl⟩
  have new_local := local_set_local m record
  have result := calc_local _ next computed
  rw [new_local] at result
  have undecided : (m.setLocal record).decided = false := by
    rw [result] at still_open
    exact still_open
  obtain ⟨fine_local, whole⟩ := sane.valid m.localAcceptorId
  obtain ⟨-, accepted, -, -⟩ := (valid_iff _ whole).mp fine_local
  change m.localRecord.acceptedNum ≤ m.localRecord.promisedNum at accepted
  have alone : (m.setLocal record).promisedBy record.promisedNum ⊆ {m.localAcceptorId} := by
    intro i member
    rw [promisedBy, Finset.mem_filter] at member
    rw [Finset.mem_singleton]
    by_contra other
    have old := sane.promised open_ i
    rw [show (m.setLocal record).entryRecords i = m.entryRecords i from set_record_other m m.localAcceptorId i record other] at member
    omega
  have few := Finset.card_le_card alone
  rw [Finset.card_singleton] at few
  have counted : ¬ (record.acceptedNum > 0 ∧ ((m.setLocal record).acceptedBy record.acceptedNum).card ≥ n / 2 + 1) := by
    rw [decided, new_local] at undecided
    simp only [decide_eq_false_iff_not, not_or] at undecided
    exact undecided.2
  have state : next.entryState = .promiseLocal := by
    unfold calcEntryState at computed
    dsimp only at computed
    rw [new_local, if_neg (by rw [numbers.2.2.2, open_]; exact Bool.false_ne_true), if_neg counted, if_neg (by omega), if_pos (by omega),
      if_neg (by omega), if_neg (by omega), if_neg (by omega)] at computed
    exact (congrArg EntryStateMachine.entryState (Option.some.inj computed)).symm
  rw [promise] at done
  dsimp only at done
  rw [raised, computed] at done
  have code_eq := (Prod.mk.inj (Option.some.inj done)).1
  rw [if_neg (not_not.mpr state)] at code_eq
  rw [promise]
  dsimp only
  rw [raised, computed]
  simp [state]

theorem promise_chosen (m next : EntryStateMachine n) (preAuth : Bool) (code : RetCode) (tidy : m.Tidy) (closed : m.entryState = .chosen)
    (done : m.promise preAuth = some (code, next)) : code = .invalidEntryState := by
  have computed := promise_cases m next preAuth code done
  have chosen := tidy.chosen.mp closed
  have new_local := local_set_local m { m.localRecord with preparedNum := m.nextNum preAuth, promisedNum := m.nextNum preAuth }
  have state : next.entryState = .chosen := by
    unfold calcEntryState at computed
    rw [new_local] at computed
    dsimp only at computed
    rw [if_pos chosen] at computed
    exact (congrArg EntryStateMachine.entryState (Option.some.inj computed)).symm
  obtain ⟨result, same, pair⟩ := Option.map_eq_some_iff.mp done
  obtain rfl : result = next := (Prod.mk.inj pair).2
  rw [← (Prod.mk.inj pair).1, state]
  rfl

theorem promise_number (m next : EntryStateMachine n) (preAuth : Bool) (code : RetCode) (done : m.promise preAuth = some (code, next)) :
    next.localRecord.promisedNum = m.nextNum preAuth := by
  rw [calc_local _ next (promise_cases m next preAuth code done), local_set_local]

-- Promise does what it is for as long as the entry is open and 32 bits hold the ballot;
-- then no two acceptors take the same one.
theorem promise_lawful_iff (two : 2 ≤ n) (few : n ≤ kMaxAcceptorNum) (m : EntryStateMachine n) (called : Called m) (preAuth : Bool)
    (word : m.localRecord.promisedNum < 2 ^ 32) :
    (m.PromiseLawful preAuth ↔ m.entryState ≠ .chosen ∧ m.localRecord.promisedNum ≤ m.lastPromise) ∧
      ∀ (other next otherNext : EntryStateMachine n) (otherAuth : Bool), Called other → other.localAcceptorId ≠ m.localAcceptorId →
        m.PromiseLawful preAuth → other.PromiseLawful otherAuth → m.promise preAuth = some (.ok, next) →
        other.promise otherAuth = some (.ok, otherNext) → next.localRecord.promisedNum ≠ otherNext.localRecord.promisedNum := by
  have sane := called_sane two few m called
  constructor
  · constructor
    · rintro ⟨code, next, done, law⟩
      have number := promise_number m next preAuth code done
      have low : m.localRecord.promisedNum ≤ m.lastPromise := by
        by_contra large
        have wrapped := next_num_wrapped m two few preAuth word (Nat.lt_of_not_le large)
        rcases law with ⟨-, same⟩ | ⟨-, above, -⟩
        · rw [same] at number
          omega
        · omega
      refine ⟨fun closed => ?_, low⟩
      have above := (exact_of_next m few preAuth ((exact_fits_iff m two few preAuth).mpr low)).2
      rcases law with ⟨-, same⟩ | ⟨fine, -⟩
      · rw [same] at number
        omega
      · rw [promise_chosen m next preAuth code sane.tidy closed done] at fine
        cases fine
    · rintro ⟨open_state, low⟩
      have open_ : m.localRecord.chosen = false := by
        cases marked : m.localRecord.chosen with
        | false => rfl
        | true => exact absurd (sane.tidy.chosen.mpr marked) open_state
      obtain ⟨exact_, above⟩ := exact_of_next m few preAuth ((exact_fits_iff m two few preAuth).mpr low)
      obtain ⟨next, done, number⟩ := promise_succeeds m sane two preAuth open_ above
      refine ⟨.ok, next, done, .inr ⟨rfl, by omega, ?_, fun noAuth => ?_⟩⟩
      · rw [number, exact_]
        exact exact_num_class m preAuth
      · subst noAuth
        rw [number, exact_]
        exact exact_num_high m
  · rintro other next otherNext otherAuth - apart ⟨code, next', done', law⟩ ⟨otherCode, otherNext', otherDone', otherLaw⟩ done otherDone same
    rw [done] at done'
    rw [otherDone] at otherDone'
    cases done'
    cases otherDone'
    rcases law with ⟨wrong, -⟩ | ⟨-, -, class_, -⟩
    · exact wrong rfl
    · rcases otherLaw with ⟨wrong, -⟩ | ⟨-, -, otherClass, -⟩
      · exact wrong rfl
      · rw [← same, class_] at otherClass
        have idBound := m.localAcceptorId.isLt
        have otherBound := other.localAcceptorId.isLt
        refine apart (Fin.ext ?_)
        generalize (m.localAcceptorId : Nat) = i at *
        generalize (other.localAcceptorId : Nat) = j at *
        by_cases last : i + 1 = n
        · by_cases otherLast : j + 1 = n
          · omega
          · rw [last, Nat.mod_self, Nat.mod_eq_of_lt (show j + 1 < n by omega)] at otherClass
            omega
        · by_cases otherLast : j + 1 = n
          · rw [otherLast, Nat.mod_self, Nat.mod_eq_of_lt (show i + 1 < n by omega)] at otherClass
            omega
          · rw [Nat.mod_eq_of_lt (show i + 1 < n by omega), Nat.mod_eq_of_lt (show j + 1 < n by omega)] at otherClass
            omega

theorem first_promise_lawful :
    (create (0 : Fin 3) (fun _ => false)).PromiseLawful false :=
  ((promise_lawful_iff (by decide) (by decide) (create (0 : Fin 3) fun _ => false) (Called.created 0 _) false (by decide)).1).mpr
    (by decide +kernel)

-- A machine of three that has loaded a promised number close to 2^32.
def lateMachine : EntryStateMachine 3 :=
  { create 0 (fun _ => false) with
    entryRecords := Function.update (fun _ => {}) 0 { promisedNum := 4294967293 }, entryState := .promiseRemote }

-- It goes back to the number that acceptor 2 takes first.
theorem late_promise_collides :
    ¬ (∀ m : EntryStateMachine 3, Called m → m.localRecord.promisedNum < 2 ^ 32 → m.PromiseLawful false) ∧
      (lateMachine.promise false).map (fun result => (result.1, result.2.localRecord.promisedNum)) = some (.ok, 3) ∧
      ((create (2 : Fin 3) fun _ => false).promise true).map (fun result => (result.1, result.2.localRecord.promisedNum)) = some (.ok, 3) := by
  have back : (lateMachine.promise false).map (fun result => (result.1, result.2.localRecord.promisedNum)) = some (.ok, 3) := by decide +kernel
  refine ⟨fun lawful => ?_, back, by decide +kernel⟩
  have loaded : (create (0 : Fin 3) fun _ => false).update 0 { promisedNum := 4294967293 } = some (.ok, lateMachine) := by decide +kernel
  obtain ⟨code, next, done, law⟩ := lawful lateMachine (Called.loaded 0 (fun _ => false) _ .ok lateMachine loaded) (by decide +kernel)
  rw [done, Option.map_some, Option.some.injEq, Prod.mk.injEq] at back
  obtain ⟨rfl, number⟩ := back
  rcases law with ⟨wrong, -⟩ | ⟨-, above, -⟩
  · exact wrong rfl
  · rw [number] at above
    revert above
    decide +kernel

end PaxosStore.Certain.EntryStateMachine
