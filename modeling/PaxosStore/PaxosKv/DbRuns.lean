import PaxosStore.PaxosKv.DbSets

set_option autoImplicit false

namespace PaxosStore.PaxosKv

open PaxosStore.Consensus

namespace PInsAliveStateTimeoutCache

theorem destroy_run (key : List UInt8) (index : Nat) (cache : Option CachedState) (keyed : ∀ held, cache = some held → held.key = key) :
    ∃ left, destroy key index cache = some left ∧ ∀ held, left = some held → cache = some held := by
  cases cache with
  | none => exact ⟨none, rfl, fun _ wrong => by cases wrong⟩
  | some held =>
      refine ⟨_, asserting_pos _ _ (keyed held rfl), fun kept known => ?_⟩
      split at known
      · cases known
      · exact known

theorem expire_run (index : Nat) (sameNum : Bool) (cache : Option CachedState) (positive : 0 < index) :
    ∃ left, destroyActive index sameNum cache = some left ∧ ∀ held, left = some held → cache = some held :=
  ⟨_, asserting_pos _ _ positive, fun _ known => (Option.filter_eq_some_iff.mp known).1⟩

end PInsAliveStateTimeoutCache

section Sound

variable (codec : DataCodec) (key : List UInt8) (s : KeyState) (sound : Sound codec key s)

include sound

theorem sound_cache (cache : Option CachedState) (kept : ∀ held, cache = some held → s.cache = some held) :
    Sound codec key { s with cache := cache } where
  formed := sound.formed
  checked := sound.checked
  keyed := fun held known => sound.keyed held (kept held known)
  below := fun held known => sound.below held (kept held known)
  queued := sound.queued

theorem sound_stored (header : PaxosLogHeader) (log : PaxosLog) (checked : assertCheck codec header log = true) (next : LogNext s.log log) :
    Sound codec key { s with header := header, log := log } where
  formed := next.formed
  checked := checked
  keyed := sound.keyed
  below := fun held known => Nat.le_trans (sound.below held known) next.max
  queued := sound.queued

end Sound

namespace DBImpl

section Set

variable (codec : DataCodec) (selfId : Fin 3) (memberId : Nat) (key : List UInt8) (req : SetRequest) (s : KeyState) (sound : Sound codec key s)

-- A Set that gets to the wrapper finds the server voting, and if it is written
-- it finds no other proposer of the key in the cache.
def Admitted : Prop :=
  key ≠ [] → proposesTo codec req s = true → req.learnerOnly = false ∧ (req.writeCode = 0 → s.cache = none)

-- A call that comes back, and whose code is an error if it met a cached state.
def ComesBack (result : CallResult) : Prop :=
  ∃ code after rsp alive, result = .returned code after rsp alive ∧ (s.cache.isSome = true → code ≠ 0) ∧
    (code ≠ 0 → alive = none) ∧ ∀ held, alive = some held → 0 < held.index

-- No assertion of SetNoLock, of what it calls in the same file or of the cache
-- fails, and a Set that meets a cached state returns an error.
structure SetsWell (result : CallResult) : Prop where
  site : ∀ site after, result = .aborted site after → site = .canWrite ∨ site = .wrapper
  code : ∀ code after rsp alive, result = .returned code after rsp alive → s.cache.isSome = true → code ≠ 0

include sound

theorem write_failed (ready : Ready) (fine : ReadyFor codec s ready) (fails : req.writeCode ≠ 0) :
    ∃ cache, writeAndInsert codec key req s ready = .returned req.writeCode { s with cache := cache } none none ∧
      Sound codec key { s with cache := cache } := by
  obtain ⟨left, destroyed, kept⟩ := PInsAliveStateTimeoutCache.destroy_run key ready.index s.cache sound.keyed
  refine ⟨left, ?_, sound_cache codec key s sound left kept⟩
  rw [writeAndInsert, if_neg (by simp [fine.checked]), if_pos fails, destroyed]

theorem inserted (ready : Ready) (fine : ReadyFor codec s ready) (written : req.writeCode = 0) (free : s.cache = none) :
    ∃ after, writeAndInsert codec key req s ready = .returned 0 after (some ready.rsp) (some ⟨key, ready.index, ready.alive⟩) ∧
      Sound codec key after := by
  refine ⟨⟨ready.header, ready.log, some ⟨key, ready.index, ready.alive⟩, s.timeouts ++ [ready.index]⟩, ?_, ?_⟩
  · rw [writeAndInsert, if_neg (by simp [fine.checked]), if_neg (by simp [written]), free]
    rfl
  · refine ⟨fine.next.formed, fine.checked, fun held known => ?_, fun held known => ?_, fun index member => ?_⟩
    · cases known
      rfl
    · cases known
      exact Nat.le_of_eq fine.max.symm
    · rcases List.mem_append.mp member with old | new
      · exact sound.queued index old
      · rw [List.mem_singleton.mp new]
        exact fine.positive

-- The cached state is replaced, and the code 1 that says so stops the process.
theorem collides (ready : Ready) (fine : ReadyFor codec s ready) (written : req.writeCode = 0) (taken : s.cache.isSome = true) :
    ∃ after, writeAndInsert codec key req s ready = .aborted .setNoLock after ∧ Sound codec key after := by
  obtain ⟨held, cached⟩ := Option.isSome_iff_exists.mp taken
  have above : held.index ≤ ready.index := by
    have low := sound.below held cached
    have high := fine.next.max
    rw [fine.max] at high
    omega
  refine ⟨_, ?_, sound_restart codec key _ (sound_stored codec key s sound ready.header ready.log fine.checked fine.next)⟩
  rw [writeAndInsert, if_neg (by simp [fine.checked]), if_neg (by simp [written]), cached]
  dsimp only
  rw [PInsAliveStateTimeoutCache.insert, asserting_pos _ _ above]
  rfl

-- What a Set under the lock of its key comes to.
theorem set_no_lock_cases :
    (∃ code, code ≠ 0 ∧ proposesTo codec req s = false ∧ setNoLock codec selfId memberId key req s = .returned code s none none) ∨
    (proposesTo codec req s = false ∧ setNoLock codec selfId memberId key req s = .aborted .canWrite s.restart) ∨
    (proposesTo codec req s = true ∧ setNoLock codec selfId memberId key req s = .aborted .wrapper s.restart) ∨
    (proposesTo codec req s = true ∧ req.learnerOnly = true ∧ setNoLock codec selfId memberId key req s = .aborted .setNoLock s.restart) ∨
    ∃ ready, proposesTo codec req s = true ∧ req.learnerOnly = false ∧ ReadyFor codec s ready ∧
      setNoLock codec selfId memberId key req s = writeAndInsert codec key req s ready := by
  cases reaches : proposesTo codec req s with
  | false =>
      rcases early_end codec selfId memberId key req s sound reaches with ⟨code, wrong, refused⟩ | crashed
      · exact .inl ⟨code, wrong, rfl, by rw [setNoLock, refused]; rfl⟩
      · exact .inr (.inl ⟨rfl, by rw [setNoLock, crashed]⟩)
  | true =>
      right
      right
      obtain ⟨rawValue, front, open_, same⟩ := late_end codec selfId memberId key req s sound reaches
      cases done : PLogWrapper.set req.learnerOnly selfId memberId ⟨req.reqid, rawValue⟩ true s.log with
      | none =>
          rw [done] at same
          exact .inl ⟨rfl, by rw [setNoLock, same]; rfl⟩
      | some out =>
          right
          have called : setNoLockNoWrite codec selfId memberId req s = proposed codec s out := by
            rw [same, done]
            rfl
          cases learner : req.learnerOnly with
          | true =>
              rw [learner] at done
              obtain ⟨wrong, silent, gone⟩ := PLogWrapper.set_refused selfId memberId _ front s.log out sound.formed open_ done
              refine .inl ⟨rfl, rfl, ?_⟩
              rw [setNoLock, called, proposed, if_pos wrong, assertAt, if_pos ⟨silent, gone⟩]
              rfl
          | false =>
              rw [learner] at done
              obtain ⟨ready, planned, fine⟩ := proposed_ready codec selfId memberId key s sound front out open_ _ done
              exact .inr ⟨ready, rfl, rfl, fine, by rw [setNoLock, called, planned]⟩

theorem set_admitted (admitted : Admitted codec key req s) :
    (ComesBack s (set codec selfId memberId key req s) ∨
      ∃ site, (site = .canWrite ∨ site = .wrapper) ∧ set codec selfId memberId key req s = .aborted site s.restart) ∧
      Sound codec key (set codec selfId memberId key req s).after := by
  unfold set
  by_cases empty : key = []
  · rw [if_pos empty]
    exact ⟨.inl ⟨_, _, _, _, rfl, fun _ => (by decide), fun _ => rfl, fun _ wrong => by cases wrong⟩, sound⟩
  · rw [if_neg empty]
    have restarted := sound_restart codec key s sound
    rcases set_no_lock_cases codec selfId memberId key req s sound with
      ⟨code, wrong, _, same⟩ | ⟨_, same⟩ | ⟨_, same⟩ | ⟨reaches, learner, _⟩ | ⟨ready, reaches, _, fine, same⟩
    · rw [same]
      dsimp only
      rw [if_pos wrong]
      exact ⟨.inl ⟨code, s, none, none, rfl, fun _ => wrong, fun _ => rfl, fun _ wrong => by cases wrong⟩, sound⟩
    · rw [same]
      exact ⟨.inr ⟨_, .inl rfl, rfl⟩, restarted⟩
    · rw [same]
      exact ⟨.inr ⟨_, .inr rfl, rfl⟩, restarted⟩
    · have wrong := (admitted empty reaches).1
      rw [learner] at wrong
      cases wrong
    · rw [same]
      by_cases written : req.writeCode = 0
      · have free := (admitted empty reaches).2 written
        obtain ⟨after, done, kept⟩ := inserted codec key req s sound ready fine written free
        rw [done]
        dsimp only
        rw [if_neg (by simp), if_pos (by simp [fine.positive])]
        refine ⟨.inl ⟨0, after, _, _, rfl, fun wrong => ?_, fun wrong => absurd rfl wrong, fun held known => ?_⟩, kept⟩
        · rw [free] at wrong
          cases wrong
        · cases known
          exact fine.positive
      · obtain ⟨cache, done, kept⟩ := write_failed codec key req s sound ready fine written
        rw [done]
        dsimp only
        rw [if_pos written]
        exact ⟨.inl ⟨req.writeCode, _, none, none, rfl, fun _ => written, fun _ => rfl, fun _ wrong => by cases wrong⟩, kept⟩

theorem set_refused (refused : ¬ Admitted codec key req s) :
    ∃ site after, (site = .setNoLock ∨ site = .wrapper) ∧ set codec selfId memberId key req s = .aborted site after ∧
      Sound codec key after := by
  simp only [Admitted, Classical.not_imp] at refused
  obtain ⟨named, reaches, refused⟩ := refused
  rw [set, if_neg named]
  have restarted := sound_restart codec key s sound
  rcases set_no_lock_cases codec selfId memberId key req s sound with
    ⟨_, _, stays, _⟩ | ⟨stays, _⟩ | ⟨_, same⟩ | ⟨_, _, same⟩ | ⟨ready, _, votes, fine, same⟩
  · rw [reaches] at stays
    cases stays
  · rw [reaches] at stays
    cases stays
  · rw [same]
    exact ⟨_, _, .inr rfl, rfl, restarted⟩
  · rw [same]
    exact ⟨_, _, .inl rfl, rfl, restarted⟩
  · have both : req.writeCode = 0 ∧ s.cache.isSome = true := by
      by_contra other
      refine refused ⟨votes, fun written => ?_⟩
      cases cached : s.cache with
      | none => rfl
      | some held => exact absurd ⟨written, by rw [cached]; rfl⟩ other
    obtain ⟨after, done, kept⟩ := collides codec key req s sound ready fine both.1 both.2
    rw [same, done]
    exact ⟨_, _, .inl rfl, rfl, kept⟩

end Set

-- Where a message, a wake-up or a time-out may still stop the process.
def isMessageSite (site : Site) : Bool := site = .wrapper ∨ site = .updateHeader ∨ site = .assertCheck

-- A result that keeps the state sound and stops at one of these places, if at all.
structure Harmless (codec : DataCodec) (key : List UInt8) (result : CallResult) : Prop where
  sound : Sound codec key result.after
  site : ∀ site after, result = .aborted site after → isMessageSite site = true

theorem harmless_return (codec : DataCodec) (key : List UInt8) (code : Int) (after : KeyState) (rsp : Option LogMessage)
    (alive : Option CachedState) (sound : Sound codec key after) : Harmless codec key (.returned code after rsp alive) :=
  ⟨sound, fun _ _ wrong => by cases wrong⟩

theorem harmless_stop (codec : DataCodec) (key : List UInt8) (site : Site) (s : KeyState) (sound : Sound codec key s)
    (known : isMessageSite site = true) : Harmless codec key (.aborted site s.restart) :=
  ⟨sound_restart codec key s sound, fun _ _ same => by cases same; exact known⟩

section Others

variable (codec : DataCodec) (key : List UInt8) (s : KeyState) (sound : Sound codec key s)

include sound

theorem finish_harmless (index reqid : Nat) (notified : Bool) (readCode : Int) :
    Harmless codec key (finish key s index reqid notified readCode) := by
  obtain ⟨left, destroyed, kept⟩ := PInsAliveStateTimeoutCache.destroy_run key index s.cache sound.keyed
  unfold finish
  rw [destroyed]
  split
  · exact harmless_return codec key _ s _ _ sound
  · exact harmless_return codec key _ _ _ _ (sound_cache codec key s sound left kept)

theorem expire_harmless (index : Nat) (sameNum : Bool) (queued : index ∈ s.timeouts) : Harmless codec key (expire s index sameNum) := by
  obtain ⟨left, destroyed, kept⟩ := PInsAliveStateTimeoutCache.expire_run index sameNum s.cache (sound.queued index queued)
  rw [expire, destroyed]
  exact harmless_return codec key _ _ _ _ (sound_cache codec key s sound left kept)

omit sound in
theorem outdated_run (index conflictIndex maxIndex : Nat) (alive cache : Option CachedState)
    (keyed : ∀ held, cache = some held → held.key = key) :
    ∃ left, dropOutdated key index conflictIndex maxIndex alive cache = some left ∧ ∀ held, left = some held → cache = some held := by
  have first : ∃ left, (if alive.any (·.state.propState = .chosen) then PInsAliveStateTimeoutCache.destroy key index cache else some cache) =
      some left ∧ ∀ held, left = some held → cache = some held := by
    split
    · exact PInsAliveStateTimeoutCache.destroy_run key index cache keyed
    · exact ⟨cache, rfl, fun _ known => known⟩
  obtain ⟨middle, done, kept⟩ := first
  rw [dropOutdated, done, Option.bind_some]
  split
  · obtain ⟨left, again, rest⟩ :=
      PInsAliveStateTimeoutCache.destroy_run key conflictIndex middle (fun held known => keyed held (kept held known))
    exact ⟨left, again, fun held known => kept held (rest held known)⟩
  · exact ⟨middle, rfl, kept⟩

theorem stepped_harmless (index conflictIndex : Nat) (writeCode : Int) (alive : Option CachedState) (out : StepOut)
    (given : ∀ held, alive = some held → s.cache = some held) (next : OutNext s.log out) :
    Harmless codec key (stepped codec key s index conflictIndex writeCode alive out) := by
  have moved : Sound codec key
      { s with cache := (alive.bind fun held => out.alive.map fun state => { held with state := state }).or s.cache } := by
    refine ⟨sound.formed, sound.checked, fun held known => ?_, fun held known => ?_, sound.queued⟩
    all_goals
      rcases Option.or_eq_some_iff.mp known with changed | ⟨_, same⟩
      · obtain ⟨old, here, mapped⟩ := Option.bind_eq_some_iff.mp changed
        obtain ⟨state, _, rfl⟩ := Option.map_eq_some_iff.mp mapped
        first
          | exact sound.keyed old (given old here)
          | exact sound.below old (given old here)
      · first
          | exact sound.keyed held same
          | exact sound.below held same
  unfold stepped
  dsimp only
  split
  · exact harmless_return codec key _ _ _ _ moved
  · rename_i fine
    split
    · exact harmless_stop codec key _ s sound rfl
    · rename_i header _
      split
      · exact harmless_stop codec key _ s sound rfl
      · rename_i checked
        split
        · exact harmless_return codec key _ _ _ _ moved
        · obtain ⟨left, dropped, kept⟩ := outdated_run key index conflictIndex header.maxIndex
            (alive.bind fun held => out.alive.map fun state => { held with state := state }) _ moved.keyed
          rw [dropped]
          refine harmless_return codec key _ _ _ _ ?_
          split
          · have stored := sound_stored codec key _ moved header out.log (by simpa using checked) (next.moved (by simpa using fine))
            exact sound_cache codec key _ stored left kept
          · exact sound_cache codec key _ moved left kept

omit sound in
theorem cached_given (index : Nat) (held : CachedState) (known : (PInsAliveStateTimeoutCache.moreGet index s.cache).2 = some held) :
    s.cache = some held ∧ (PInsAliveStateTimeoutCache.moreGet index s.cache).1 = 0 := by
  cases cached : s.cache with
  | none =>
      rw [cached] at known
      cases known
  | some old =>
      rw [cached] at known
      simp only [PInsAliveStateTimeoutCache.moreGet] at known ⊢
      split at known
      · cases known
      · split at known
        · cases known
        · rename_i same open_
          cases known
          rw [if_neg same, if_neg open_]
          exact ⟨rfl, rfl⟩

-- A message whose log could be read gets to the wrapper.
theorem message_delivered (m : LogMessage) (learnerOnly : Bool) (writeCode : Int) :
    postPaxosMsg codec key m learnerOnly 0 writeCode s =
      match m.msg.toId.bind fun self => asserting (wrapperOk s.log)
          (PLogWrapper.step learnerOnly self m ((PInsAliveStateTimeoutCache.moreGet m.index s.cache).2.map (·.state)) s.log) with
      | none => .aborted .wrapper s.restart
      | some out => stepped codec key s m.index (PInsAliveStateTimeoutCache.moreGet m.index s.cache).1 writeCode
          (PInsAliveStateTimeoutCache.moreGet m.index s.cache).2 out := by
  have fine : ¬ (PInsAliveStateTimeoutCache.moreGet m.index s.cache).2.any
      (fun held => (PInsAliveStateTimeoutCache.moreGet m.index s.cache).1 ≠ 0 || held.key ≠ key) = true := by
    cases known : (PInsAliveStateTimeoutCache.moreGet m.index s.cache).2 with
    | none => simp
    | some held =>
        obtain ⟨cached, zero⟩ := cached_given s m.index held known
        simp [zero, sound.keyed held cached]
  rw [postPaxosMsg, if_neg (by simp), if_neg (by simp [sound.checked])]
  exact if_neg fine

theorem message_harmless (m : LogMessage) (learnerOnly : Bool) (readCode writeCode : Int) (small : m.index < 2 ^ 64) :
    Harmless codec key (postPaxosMsg codec key m learnerOnly readCode writeCode s) := by
  by_cases unread : readCode = 0
  · subst unread
    rw [message_delivered codec key s sound m learnerOnly writeCode]
    split
    · exact harmless_stop codec key _ s sound rfl
    · rename_i out done
      obtain ⟨self, _, done⟩ := Option.bind_eq_some_iff.mp done
      obtain ⟨_, done⟩ := (asserting_some _ _ _).mp done
      have next := PLogWrapper.step_next learnerOnly self m _ s.log out sound.formed small done
      exact stepped_harmless codec key s sound m.index _ writeCode _ out (fun held known => (cached_given s m.index held known).1) next
  · rw [postPaxosMsg, if_pos unread]
    exact harmless_return codec key _ s _ _ sound

end Others

section Runs

variable (codec : DataCodec) (selfId : Fin 3) (memberId : Nat) (key : List UInt8)

theorem set_sound (req : SetRequest) (s : KeyState) (sound : Sound codec key s) :
    Sound codec key (set codec selfId memberId key req s).after := by
  by_cases admitted : Admitted codec key req s
  · exact (set_admitted codec selfId memberId key req s sound admitted).2
  · obtain ⟨site, after, _, same, kept⟩ := set_refused codec selfId memberId key req s sound admitted
    rw [same]
    exact kept

theorem other_harmless (s : KeyState) (op : DbOp) (sound : Sound codec key s) (allowed : possible s op = true)
    (other : ∀ req, op ≠ .set req) : Harmless codec key (perform codec selfId memberId key s op) := by
  cases op with
  | set req => exact absurd rfl (other req)
  | finish index reqid notified readCode => exact finish_harmless codec key s sound index reqid notified readCode
  | message m learnerOnly readCode writeCode =>
      exact message_harmless codec key s sound m learnerOnly readCode writeCode (of_decide_eq_true allowed)
  | expire index sameNum => exact expire_harmless codec key s sound index sameNum (of_decide_eq_true allowed)
  | restart => exact harmless_return codec key _ _ _ _ (sound_restart codec key s sound)

theorem perform_sound (s : KeyState) (op : DbOp) (sound : Sound codec key s) (allowed : possible s op = true) :
    Sound codec key (perform codec selfId memberId key s op).after := by
  cases op with
  | set req => exact set_sound codec selfId memberId key req s sound
  | restart => exact sound_restart codec key s sound
  | finish | message | expire => exact (other_harmless codec selfId memberId key s _ sound allowed (fun _ wrong => by cases wrong)).sound

theorem run_sound (s : KeyState) (run : Reaches (act codec selfId memberId key) {} s) : Sound codec key s := by
  refine run_invariant (act codec selfId memberId key) (Sound codec key) ?_ {} s (sound_start codec key) run
  intro u op v sound done
  rw [act] at done
  split at done
  · rename_i allowed
    cases done
    exact perform_sound codec selfId memberId key u op sound allowed
  · cases done

-- After any run of Sets, messages and time-outs: a Set that meets the condition
-- passes every assertion of its own and of the cache, one that does not meet it
-- fails there unless the wrapper stops it before, and nothing else fails there.
theorem repeated_sets_iff (s : KeyState) (run : Reaches (act codec selfId memberId key) {} s) :
    (∀ req, (Admitted codec key req s → SetsWell s (set codec selfId memberId key req s)) ∧
      (SetsWell s (set codec selfId memberId key req s) →
        Admitted codec key req s ∨ ∃ after, set codec selfId memberId key req s = .aborted .wrapper after)) ∧
    ∀ op, possible s op = true → (∀ req, op ≠ .set req) → ∀ site after, perform codec selfId memberId key s op = .aborted site after →
      isMessageSite site = true := by
  have sound := run_sound codec selfId memberId key s run
  refine ⟨fun req => ⟨fun admitted => ?_, fun well => ?_⟩, fun op allowed other => ?_⟩
  · rcases (set_admitted codec selfId memberId key req s sound admitted).1 with ⟨code, after, rsp, alive, same, cached, _⟩ | ⟨site, known, same⟩
    · rw [same]
      exact ⟨fun _ _ wrong => (by cases wrong), fun _ _ _ _ equal => by cases equal; exact cached⟩
    · rw [same]
      refine ⟨fun _ _ equal => ?_, fun _ _ _ _ wrong => by cases wrong⟩
      cases equal
      exact known
  · by_cases admitted : Admitted codec key req s
    · exact .inl admitted
    · obtain ⟨site, after, known, same, _⟩ := set_refused codec selfId memberId key req s sound admitted
      rcases known with rfl | rfl
      · rcases well.site _ after same with wrong | wrong <;> cases wrong
      · exact .inr ⟨after, same⟩
  · exact (other_harmless codec selfId memberId key s op sound allowed other).site

end Runs

-- The wire format of DBData, its fields in order and each of them once.
def varint : Nat → Nat → List UInt8
  | 0, _ => []
  | fuel + 1, number => if number < 128 then [UInt8.ofNat number] else UInt8.ofNat (number % 128 + 128) :: varint fuel (number / 128)

def readVarint : Nat → List UInt8 → Option (Nat × List UInt8)
  | 0, _ => none
  | _, [] => none
  | fuel + 1, byte :: rest =>
      if byte < 128 then some (byte.toNat, rest)
      else (readVarint fuel rest).map fun (number, rest) => (byte.toNat - 128 + 128 * number, rest)

def readField (tag : UInt8) : List UInt8 → Option (Nat × List UInt8)
  | [] => none
  | first :: rest => if first = tag then readVarint 10 rest else none

def wireCodec : DataCodec where
  serializeToString := fun data =>
    some (8 :: varint 10 data.version ++ 16 :: varint 10 data.flag ++ 26 :: varint 10 data.value.length ++ data.value ++
      32 :: varint 10 data.timestamp)
  parseFromString := fun raw =>
    (readField 8 raw).bind fun (version, raw) =>
    (readField 16 raw).bind fun (flag, raw) =>
    (readField 26 raw).bind fun (length, raw) =>
    (readField 32 (raw.drop length)).bind fun (timestamp, rest) =>
      if rest = [] then some ⟨version, flag, raw.take length, timestamp⟩ else none
  nonempty := fun _ wrong => by cases wrong

def someKey : List UInt8 := [1, 0, 0, 0, 0, 0, 0, 0]

def firstSet : SetRequest := { reqid := 2 ^ 48 + 1, value := [1] }

def secondSet : SetRequest := { reqid := 2 ^ 48 + 2, value := [2] }

def afterFirst : KeyState := endOf (act wireCodec 0 1 someKey) {} [.set firstSet]

def CallResult.stop : CallResult → Option Site
  | .returned _ _ _ _ => none
  | .aborted site _ => some site

-- A second Set comes while the first one is not yet chosen.
theorem second_set_stops : ¬ ∀ codec selfId memberId key s, Reaches (act codec selfId memberId key) {} s → ∀ req,
    SetsWell s (set codec selfId memberId key req s) := by
  intro always
  have well := always wireCodec 0 1 someKey afterFirst (reaches_end _ _ _ (by decide +kernel)) secondSet
  have stopped : CallResult.stop (set wireCodec 0 1 someKey secondSet afterFirst) = some .setNoLock := by decide +kernel
  cases result : set wireCodec 0 1 someKey secondSet afterFirst with
  | returned code after rsp alive =>
      rw [result] at stopped
      cases stopped
  | aborted site after =>
      rw [result] at stopped
      cases stopped
      rcases well.site _ after result with wrong | wrong <;> cases wrong

def afterTimeout : KeyState := endOf (act wireCodec 0 1 someKey) {} [.set firstSet, .expire 1 true]

-- Once the first one has timed out, the second one comes back.
theorem later_set_comes_back : SetsWell afterTimeout (set wireCodec 0 1 someKey secondSet afterTimeout) :=
  ((repeated_sets_iff wireCodec 0 1 someKey afterTimeout (reaches_end _ _ _ (by decide +kernel))).1 secondSet).1
    fun _ _ => ⟨rfl, fun _ => by decide +kernel⟩

end DBImpl

end PaxosStore.PaxosKv
