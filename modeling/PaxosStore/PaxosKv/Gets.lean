import PaxosStore.PaxosKv.ChosenIndex

set_option autoImplicit false

namespace PaxosStore.PaxosKv

open PaxosStore.Consensus

def paxosGetLocalOut : Int := -50300

def paxosGetMayLocalOut : Int := -50301

def paxosGetMaxConcurWaitCount : Int := -50304

def brokenDbData : Int := -50101

-- PEER_STATUS: the two low bits tell of one peer, bits 4 and 5 of the other.
namespace PeerStatus

def dChosen : Nat := 0x03

def cChosen : Nat := 0x30

def ignore : Nat := 0xFF

end PeerStatus

def isPeerChosen (peerStatus : Nat) : Bool := peerStatus &&& PeerStatus.dChosen ≠ 0 || peerStatus &&& PeerStatus.cChosen ≠ 0

def canRead3svr (localChosenIndex localMaxIndex otherMaxIndex peerStatus : Nat) : Option Int :=
  if peerStatus = PeerStatus.ignore then some 0
  else if u64 (localChosenIndex + 1) < localMaxIndex ∨ u64 (localChosenIndex + 1) < otherMaxIndex ∨ localMaxIndex < otherMaxIndex then
    some paxosGetLocalOut
  else
    asserting (localMaxIndex ≤ u64 (localChosenIndex + 1) ∧ localChosenIndex ≤ localMaxIndex ∧
        otherMaxIndex ≤ u64 (localChosenIndex + 1) ∧ otherMaxIndex ≤ localMaxIndex) <|
      if otherMaxIndex ≤ localChosenIndex then some 0
      else
        asserting (otherMaxIndex = u64 (localChosenIndex + 1) ∧ otherMaxIndex = localMaxIndex) <|
          some (if isPeerChosen peerStatus then paxosGetLocalOut else paxosGetMayLocalOut)

-- A call of Get. `crowded` says whether too many callers wait for the same proposer.
structure GetRequest where
  otherMaxIndex : Nat
  peerStatus : Nat
  readCode : Int := 0
  crowded : Bool := false
deriving DecidableEq

-- How a Get goes on. `localOut` also queues the key with its max index to catch up.
inductive GetStep where
  | failed (code : Int)
  | localOut (code : Int) (maxIndex : Nat)
  | found (value : List UInt8) (version : Nat)
  | waits (prevChosenIndex : Nat)
deriving DecidableEq

namespace DBImpl

variable (codec : DataCodec)

def readValue (header : PaxosLogHeader) (log : PaxosLog) : Option GetStep :=
  match getChosenIns log with
  | none => some (.found [] header.version)
  | some (index, pins) =>
      if index = 0 then some (.found [] header.version)
      else
        asserting pins.acceptedValue.isSome <|
          match codec.parseFromString (entryData pins) with
          | none => some (.failed brokenDbData)
          | some data => asserting (data.version = header.version) (some (.found data.value header.version))

-- Get up to its wait. TryRedo always returns -1.
def get (req : GetRequest) (s : KeyState) : Option GetStep :=
  if req.readCode ≠ 0 then some (.failed req.readCode)
  else
    asserting (assertCheck codec s.header s.log) <|
      (canRead3svr s.header.chosenIndex s.header.maxIndex req.otherMaxIndex req.peerStatus).bind fun code =>
        if code = 0 then readValue codec s.header s.log
        else if code ≠ paxosGetMayLocalOut then some (.localOut code s.header.maxIndex)
        else
          asserting (req.otherMaxIndex = s.header.maxIndex ∧ req.otherMaxIndex = u64 (s.header.chosenIndex + 1)) <|
            match PInsAliveStateTimeoutCache.get s.header.maxIndex s.cache with
            | none => some (.failed code)
            | some _ => if req.crowded then some (.failed paxosGetMaxConcurWaitCount) else some (.waits s.header.chosenIndex)

-- Get after its wait.
def getAgain (otherMaxIndex prevChosenIndex : Nat) (notified : Bool) (readCode : Int) (s : KeyState) : Option GetStep :=
  if !notified then some (.failed paxosGetMayLocalOut)
  else if readCode ≠ 0 then some (.failed readCode)
  else if prevChosenIndex = s.header.chosenIndex then some (.failed paxosGetMayLocalOut)
  else
    asserting (prevChosenIndex < s.header.chosenIndex ∧ otherMaxIndex ≤ s.header.chosenIndex) (readValue codec s.header s.log)

variable (selfId : Fin 3) (memberId : Nat) (key : List UInt8)

theorem sound_header (s : KeyState) (sound : Sound codec key s) :
    s.header.maxIndex = getMaxIndex s.log ∧ s.header.chosenIndex = getChosenIndex s.log := by
  have whole := sound.checked
  simp only [assertCheck, Bool.and_eq_true, decide_eq_true_eq] at whole
  exact whole.1.1

-- The value of a stored log can be read.
theorem read_value_runs (s : KeyState) (sound : Sound codec key s) : (readValue codec s.header s.log).isSome = true := by
  rw [readValue]
  have checked := sound.checked
  simp only [assertCheck, Bool.and_eq_true, decide_eq_true_eq] at checked
  have version := checked.2
  cases found : getChosenIns s.log with
  | none => rfl
  | some entry =>
      obtain ⟨index, pins⟩ := entry
      rw [found] at version
      dsimp only at version ⊢
      by_cases zero : index = 0
      · rw [if_pos zero]
        rfl
      · rw [if_neg zero] at version ⊢
        simp only [Bool.and_eq_true] at version
        rw [asserting_pos _ _ version.1]
        cases parsed : codec.parseFromString (entryData pins) with
        | none => rfl
        | some data =>
            have same : data.version = s.header.version := by simpa [parsed] using version.2
            dsimp only
            rw [asserting_pos _ _ same]
            rfl

theorem can_read_runs (chosen max other peerStatus : Nat) (below : chosen ≤ max) :
    (canRead3svr chosen max other peerStatus).isSome = true ∧
      (canRead3svr chosen max other peerStatus = some paxosGetMayLocalOut → other = max ∧ other = u64 (chosen + 1)) := by
  unfold canRead3svr
  by_cases ignored : peerStatus = PeerStatus.ignore
  · rw [if_pos ignored]
    exact ⟨rfl, fun wrong => by cases wrong⟩
  · rw [if_neg ignored]
    by_cases behind : u64 (chosen + 1) < max ∨ u64 (chosen + 1) < other ∨ max < other
    · rw [if_pos behind]
      exact ⟨rfl, fun wrong => by cases wrong⟩
    · rw [if_neg behind, asserting_pos _ _ (by omega)]
      by_cases known : other ≤ chosen
      · rw [if_pos known]
        exact ⟨rfl, fun wrong => by cases wrong⟩
      · have wrapped : u64 (chosen + 1) ≤ chosen + 1 := Nat.mod_le _ _
        have same : other = u64 (chosen + 1) ∧ other = max := by omega
        rw [if_neg known, asserting_pos _ _ same]
        exact ⟨rfl, fun _ => ⟨same.2, same.1⟩⟩

-- The first half of Get passes its assertions, and waits only for the index after the chosen one.
theorem get_runs (s : KeyState) (sound : Sound codec key s) (req : GetRequest) :
    (get codec req s).isSome = true ∧
      ∀ prev, get codec req s = some (.waits prev) → prev = s.header.chosenIndex ∧ req.otherMaxIndex = u64 (prev + 1) := by
  obtain ⟨max, chosen⟩ := sound_header codec key s sound
  have below : s.header.chosenIndex ≤ s.header.maxIndex := by
    rw [max, chosen]
    exact chosen_below s.log sound.formed
  obtain ⟨runs, waits⟩ := can_read_runs s.header.chosenIndex s.header.maxIndex req.otherMaxIndex req.peerStatus below
  obtain ⟨code, asked⟩ := Option.isSome_iff_exists.mp runs
  unfold get
  by_cases read : req.readCode ≠ 0
  · rw [if_pos read]
    exact ⟨rfl, fun _ wrong => by cases wrong⟩
  · rw [if_neg read, asserting_pos _ _ sound.checked, asked, Option.bind_some]
    by_cases fine : code = 0
    · rw [if_pos fine]
      refine ⟨read_value_runs codec key s sound, fun prev wrong => ?_⟩
      unfold readValue at wrong
      split at wrong
      · cases wrong
      · split at wrong
        · cases wrong
        · obtain ⟨_, wrong⟩ := (asserting_some _ _ _).mp wrong
          split at wrong
          · cases wrong
          · obtain ⟨_, wrong⟩ := (asserting_some _ _ _).mp wrong
            cases wrong
    · rw [if_neg fine]
      by_cases out : code ≠ paxosGetMayLocalOut
      · rw [if_pos out]
        exact ⟨rfl, fun _ wrong => by cases wrong⟩
      · have target := waits (by rw [asked]; simpa using out)
        rw [if_neg out, asserting_pos _ _ target]
        cases PInsAliveStateTimeoutCache.get s.header.maxIndex s.cache with
        | none => exact ⟨rfl, fun _ wrong => by cases wrong⟩
        | some held =>
            dsimp only
            split
            · exact ⟨rfl, fun _ wrong => by cases wrong⟩
            · refine ⟨rfl, fun prev same => ?_⟩
              cases same
              exact ⟨rfl, target.2⟩

-- The steps between the two halves of a Get, without those that lose the chosen instance.
def keepingAct (s : KeyState) (op : DbOp) : Option KeyState := if losesChosen s op then none else act codec selfId memberId key s op

theorem keeping_grows (s t : KeyState) (sound : Sound codec key s) (run : Reaches (keepingAct codec selfId memberId key) s t) :
    Sound codec key t ∧ getChosenIndex s.log ≤ getChosenIndex t.log := by
  refine run_relation (keepingAct codec selfId memberId key) (Sound codec key) (fun u v => getChosenIndex u.log ≤ getChosenIndex v.log)
    (fun _ => Nat.le_refl _) (fun _ _ _ left right => Nat.le_trans left right) ?_ s t sound run
  intro u op v known done
  rw [keepingAct] at done
  split at done
  · cases done
  · rename_i keeps
    rw [act] at done
    split at done
    · rename_i allowed
      cases done
      refine ⟨perform_sound codec selfId memberId key u op known allowed, ?_⟩
      by_contra lowers
      exact keeps ((loses_chosen_iff codec selfId memberId key u known op allowed).mp (by omega))
    · cases done

-- A Get whose assertions hold in both halves, and that reads no older chosen
-- index after its wait. `between` says what may happen meanwhile.
structure GetsWell (between : KeyState → DbOp → Option KeyState) (s : KeyState) (req : GetRequest) : Prop where
  starts : (get codec req s).isSome = true
  ends : ∀ prev, get codec req s = some (.waits prev) → ∀ t, Reaches between s t → prev ≤ t.header.chosenIndex ∧
    ∀ notified readCode, (getAgain codec req.otherMaxIndex prev notified readCode t).isSome = true

theorem waiting_get_advances (s : KeyState) (run : Reaches (act codec selfId memberId key) {} s) (req : GetRequest) :
    GetsWell codec (keepingAct codec selfId memberId key) s req := by
  have sound := run_sound codec selfId memberId key s run
  obtain ⟨starts, waits⟩ := get_runs codec key s sound req
  refine ⟨starts, fun prev waited t later => ?_⟩
  obtain ⟨same, target⟩ := waits prev waited
  obtain ⟨kept, grows⟩ := keeping_grows codec selfId memberId key s t sound later
  have above : prev ≤ t.header.chosenIndex := by
    rw [same, (sound_header codec key s sound).2, (sound_header codec key t kept).2]
    exact grows
  refine ⟨above, fun notified readCode => ?_⟩
  unfold getAgain
  split
  · rfl
  · split
    · rfl
    · split
      · rfl
      · rename_i moved
        have wrapped : u64 (prev + 1) ≤ prev + 1 := Nat.mod_le _ _
        rw [asserting_pos _ _ (by omega)]
        exact read_value_runs codec key t kept

-- Index 1 is chosen, a Set proposes at index 2, and while a Get waits for it a
-- PROP for index 4 comes.
def firstValue : Entry := ⟨9, (wireCodec.serializeToString ⟨1, 0, [1], 0⟩).getD []⟩

def firstChosen : DbOp :=
  .message ⟨1, { type := .chosen, fromId := 1, toId := some 0, proposedNum := 65538, acceptedValue := some firstValue }⟩ false 0 0

def waitedFor : KeyState := endOf (act wireCodec 0 1 someKey) {} [firstChosen, .set secondSet]

def farProposal : DbOp := .message ⟨4, { type := .prop, fromId := 1, toId := some 0, proposedNum := 65538 }⟩ false 0 0

def nextProposal : DbOp := .message ⟨2, { type := .prop, fromId := 1, toId := some 0, proposedNum := 2 ^ 40 }⟩ false 0 0

theorem far_proposal_stops_get : ¬ ∀ codec selfId memberId key s, Reaches (act codec selfId memberId key) {} s → ∀ req,
    GetsWell codec (act codec selfId memberId key) s req := by
  intro always
  have well := always wireCodec 0 1 someKey waitedFor (reaches_end _ _ _ (by decide +kernel)) ⟨2, 0, 0, false⟩
  have later := (well.ends 1 (by decide +kernel) (endOf (act wireCodec 0 1 someKey) waitedFor [farProposal])
    (reaches_end _ _ _ (by decide +kernel))).1
  exact absurd later (by decide +kernel)

theorem near_proposal_keeps_get : GetsWell wireCodec (keepingAct wireCodec 0 1 someKey) waitedFor ⟨2, 0, 0, false⟩ ∧
    get wireCodec ⟨2, 0, 0, false⟩ waitedFor = some (.waits 1) ∧ (keepingAct wireCodec 0 1 someKey waitedFor nextProposal).isSome = true :=
  ⟨waiting_get_advances wireCodec 0 1 someKey waitedFor (reaches_end _ _ _ (by decide +kernel)) _, by decide +kernel, by decide +kernel⟩

end DBImpl

end PaxosStore.PaxosKv
