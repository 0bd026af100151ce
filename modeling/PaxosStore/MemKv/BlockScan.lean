import PaxosStore.MemKv.DataBlock

set_option autoImplicit false

namespace PaxosStore.MemKv

open PaxosStore.PaxosKv PaxosStore.Codec

namespace DataBlock

theorem used_small (b : DataBlock) : b.usedSize ≤ maxBlockSize := Nat.le_trans b.inside b.small

section Tries

variable (b : DataBlock) (offset : Nat)

theorem data_len_inside (head : HeadWrapper) (inside : head.dataLenOffset + 4 ≤ b.pBlock.length) : ∃ len, b.dataLen head = some len := by
  have long : 4 ≤ (b.pBlock.drop head.dataLenOffset).length := by
    rw [List.length_drop]
    omega
  rw [dataLen]
  match (b.pBlock.drop head.dataLenOffset), long with
  | a :: b :: c :: d :: _, _ => exact ⟨_, rfl⟩

theorem data_len_outside (head : HeadWrapper) (outside : b.pBlock.length < head.dataLenOffset + 4) : b.dataLen head = none := by
  have short : (b.pBlock.drop head.dataLenOffset).length < 4 := by
    rw [List.length_drop]
    omega
  rw [dataLen]
  match (b.pBlock.drop head.dataLenOffset), short with
  | [], _ => rfl
  | [_], _ => rfl
  | [_, _], _ => rfl
  | [_, _, _], _ => rfl
  | _ :: _ :: _ :: _ :: rest, short =>
      simp only [List.length_cons] at short
      omega

theorem head_offset (head : HeadWrapper) (found : b.getHeadWrapper offset = some (some head)) : head.offset = offset := by
  obtain ⟨flag, -, shape⟩ := Option.map_eq_some_iff.mp found
  split at shape
  · cases shape
    rfl
  · split at shape
    · cases shape
      rfl
    · cases shape

theorem tried_end (inside : offset ≤ b.usedSize) (past : b.usedSize < offset + liteMinRecordSize) :
    b.newIsRecordOK offset = some invalidReachEnd := by
  have small := used_small b
  rw [newIsRecordOK, wrap32_small _ (by simp only [maxBlockSize, liteMinRecordSize] at *; omega), if_pos past]

theorem tried_room (room : offset + liteMinRecordSize ≤ b.usedSize) :
    ¬ wrap32 (offset + liteMinRecordSize) > b.usedSize := by
  have small := used_small b
  rw [wrap32_small _ (by simp only [maxBlockSize] at small; omega)]
  omega

theorem tried_no_head (room : offset + liteMinRecordSize ≤ b.usedSize) (absent : b.getHeadWrapper offset = some none) :
    b.newIsRecordOK offset = some invalidOffset := by
  rw [newIsRecordOK, if_neg (tried_room b offset room), absent]
  rfl

theorem tried_head (head : HeadWrapper) (size : Nat) (room : offset + liteMinRecordSize ≤ b.usedSize)
    (found : b.getHeadWrapper offset = some (some head)) (length : b.recordSize head = some size) :
    b.newIsRecordOK offset =
      if wrap32 (offset + size) > b.usedSize then some invalidRecordLen
      else (b.byteBefore (wrap32 (offset + size))).bind fun flag => some (if flag ≠ cEndFlag then invalidOffset else 0) := by
  rw [newIsRecordOK, if_neg (tried_room b offset room), found, Option.bind_some]
  dsimp only
  rw [length, Option.bind_some, wrap32_add]

theorem byte_before_inside (position : Nat) (inside : position ≤ b.usedSize) : ∃ flag, b.byteBefore position = some flag := by
  rw [byteBefore]
  by_cases zero : position = 0
  · exact ⟨b.reserve, if_pos zero⟩
  · rw [if_neg zero]
    have used := b.inside
    exact ⟨_, List.getElem?_eq_getElem (by omega)⟩

theorem record_size_pos (head : HeadWrapper) (size : Nat) (length : b.recordSize head = some size) : 0 < size := by
  obtain ⟨len, -, sum⟩ := Option.map_eq_some_iff.mp length
  omega

-- What is found at a position that does not overrun.
theorem tried_fine (room : offset + liteMinRecordSize ≤ b.usedSize) (fine : ¬ b.Overruns offset) :
    ∃ ret, b.newIsRecordOK offset = some ret ∧ ret ≠ invalidReachEnd ∧
      (ret = 0 → ∃ head size, b.getHeadWrapper offset = some (some head) ∧ b.recordSize head = some size ∧ offset + size ≤ b.usedSize) := by
  have used := b.inside
  have present : ∃ found, b.getHeadWrapper offset = some found := by
    rw [getHeadWrapper, List.getElem?_eq_getElem (by simp only [liteMinRecordSize] at room; omega)]
    exact ⟨_, rfl⟩
  obtain ⟨found, there⟩ := present
  cases found with
  | none => exact ⟨invalidOffset, tried_no_head b offset room there, by decide, fun zero => absurd zero (by decide)⟩
  | some head =>
      have inside : head.dataLenOffset + 4 ≤ b.pBlock.length := by
        by_contra outside
        exact fine ⟨room, head, there, .inl (by omega)⟩
      obtain ⟨len, read⟩ := data_len_inside b head inside
      have length : b.recordSize head = some (head.headSize + len + 2) := by rw [recordSize, read]; rfl
      generalize head.headSize + len + 2 = size at length
      rw [tried_head b offset head size room there length]
      by_cases long : wrap32 (offset + size) > b.usedSize
      · exact ⟨invalidRecordLen, if_pos long, by decide, fun zero => absurd zero (by decide)⟩
      · obtain ⟨flag, last⟩ := byte_before_inside b (wrap32 (offset + size)) (by omega)
        rw [if_neg long, last, Option.bind_some]
        by_cases final : flag = cEndFlag
        · refine ⟨0, by rw [if_neg (not_not_intro final)], by decide, fun _ => ⟨head, size, there, length, ?_⟩⟩
          have narrow : offset + size < 2 ^ 32 := by
            by_contra wide
            exact fine ⟨room, head, there, .inr ⟨size, length, by omega, by omega, by rw [last, final]⟩⟩
          rw [wrap32_small _ narrow] at long
          omega
        · exact ⟨invalidOffset, by rw [if_pos final], by decide, fun zero => absurd zero (by decide)⟩

-- What is found at a position that does.
theorem tried_overrun (past : b.Overruns offset) :
    b.newIsRecordOK offset = none ∨ b.newIsRecordOK offset = some 0 ∧
      ∃ head size, b.getHeadWrapper offset = some (some head) ∧ b.recordSize head = some size ∧ 2 ^ 32 ≤ offset + size := by
  obtain ⟨room, head, found, outside | ⟨size, length, wide, low, last⟩⟩ := past
  · refine .inl ?_
    rw [newIsRecordOK, if_neg (tried_room b offset room), found, Option.bind_some]
    dsimp only
    rw [recordSize, data_len_outside b head outside]
    rfl
  · refine .inr ⟨?_, head, size, found, length, wide⟩
    rw [tried_head b offset head size room found length, if_neg (by omega), last]
    rfl

theorem tried_room_of (ret : Int) (inside : offset ≤ b.usedSize) (tried : b.newIsRecordOK offset = some ret)
    (more : ret ≠ invalidReachEnd) : offset + liteMinRecordSize ≤ b.usedSize := by
  by_contra past
  rw [tried_end b offset inside (by omega)] at tried
  exact more (Option.some.inj tried).symm

end Tries

section Fine

variable (b : DataBlock) (fine : ∀ position, b.Examined position → ¬ b.Overruns position)

include fine

theorem tried_examined (position : Nat) (examined : b.Examined position) (inside : position ≤ b.usedSize) :
    ∃ ret, b.newIsRecordOK position = some ret ∧
      (ret = 0 → ∃ head size, b.getHeadWrapper position = some (some head) ∧ b.recordSize head = some size ∧
        position + size ≤ b.usedSize) := by
  by_cases room : position + liteMinRecordSize ≤ b.usedSize
  · obtain ⟨ret, tried, -, record⟩ := tried_fine b position room (fine position examined)
    exact ⟨ret, tried, record⟩
  · exact ⟨invalidReachEnd, tried_end b position inside (by omega), fun zero => absurd zero (by decide)⟩

theorem skip_loop_fine (offset fuel skipLen : Nat) (ret : Int) (examined : b.Examined (offset + skipLen))
    (inside : offset + skipLen ≤ b.usedSize) (tried : b.newIsRecordOK (offset + skipLen) = some ret)
    (enough : b.usedSize < offset + skipLen + fuel) :
    ∃ last final, b.skipLoop offset fuel skipLen ret = some (last, final) ∧ b.Examined (offset + last) ∧ offset + last ≤ b.usedSize ∧
      b.newIsRecordOK (offset + last) = some final ∧ (final = 0 ∨ final = invalidReachEnd) := by
  have small := used_small b
  simp only [maxBlockSize] at small
  induction fuel generalizing skipLen ret with
  | zero => omega
  | succ fuel ih =>
      rw [skipLoop]
      by_cases wrong : ret ≠ 0 ∧ ret ≠ invalidReachEnd
      · have room := tried_room_of b (offset + skipLen) ret inside tried wrong.2
        simp only [liteMinRecordSize] at room
        have next := Examined.skip (offset + skipLen) ret examined tried wrong.1 wrong.2
        obtain ⟨later, triedNext, -⟩ := tried_examined b fine (offset + skipLen + 1) next (by omega)
        rw [if_pos wrong, wrap32_small (skipLen + 1) (by omega), wrap32_small _ (by omega), ← Nat.add_assoc, triedNext, Option.bind_some]
        exact ih (skipLen + 1) later next (by omega) triedNext (by omega)
      · refine ⟨skipLen, ret, if_neg wrong, examined, inside, tried, ?_⟩
        by_cases zero : ret = 0
        · exact .inl zero
        · exact .inr (Classical.not_not.mp fun more => wrong ⟨zero, more⟩)

theorem read_fine (offset : Nat) (examined : b.Examined offset) (inside : offset ≤ b.usedSize) :
    ∃ result, b.getRecordSkipErr offset = some result ∧ (result.readLen = 0 ∨
      ∃ head, result.head = some head ∧ b.Inside ⟨offset, result.skipLen, result.readLen, head⟩ ∧
        b.Examined (offset + result.readLen.toNat)) := by
  have small := used_small b
  simp only [maxBlockSize] at small
  obtain ⟨first, tried, -⟩ := tried_examined b fine offset examined inside
  obtain ⟨last, final, loop, reached, within, triedLast, stop⟩ :=
    skip_loop_fine b fine offset (b.usedSize + 1) 0 first examined inside tried (by omega)
  rw [getRecordSkipErr, tried, Option.bind_some, loop, Option.bind_some]
  dsimp only
  rw [asserting, if_pos stop]
  by_cases past : final = invalidReachEnd
  · exact ⟨⟨0, none, last⟩, if_pos past, .inl rfl⟩
  · have zero := stop.resolve_right past
    subst zero
    obtain ⟨ret, again, record⟩ := tried_examined b fine (offset + last) reached within
    have same : ret = 0 := Option.some.inj (again.symm.trans triedLast)
    obtain ⟨head, size, found, length, used⟩ := record same
    have positive := record_size_pos b head size length
    have value : int32 (size + last) = ((size + last : Nat) : Int) := int32_small _ (by omega)
    have result : (0 : Int) < int32 (size + last) := by
      rw [value]
      omega
    refine ⟨⟨int32 (size + last), some head, last⟩, ?_, .inr ⟨head, rfl, ⟨?_, ⟨size, length, value⟩, result, ?_⟩, ?_⟩⟩
    · rw [if_neg past, wrap32_small _ (by omega), found, Option.bind_some, Option.bind_some, length, Option.bind_some,
        asserting, if_pos positive, asserting, if_pos result]
    · exact head_offset b _ head found
    · dsimp only
      rw [value, Int.toNat_natCast]
      omega
    · dsimp only
      rw [value, Int.toNat_natCast, show offset + (size + last) = offset + last + size by omega]
      exact .record _ head size reached triedLast found length

theorem scan_fine (fuel offset : Nat) (examined : b.Examined offset) (inside : offset ≤ b.usedSize) (enough : b.usedSize < offset + fuel) :
    ∃ reads, b.buildMemIdxOnOneBlock fuel offset = some reads ∧ (∀ read ∈ reads, b.Inside read) ∧ Chained offset reads := by
  have small := used_small b
  simp only [maxBlockSize] at small
  induction fuel generalizing offset with
  | zero => omega
  | succ fuel ih =>
      obtain ⟨result, read, past | ⟨head, found, whole, next⟩⟩ := read_fine b fine offset examined inside
      · refine ⟨[], ?_, by simp, trivial⟩
        rw [buildMemIdxOnOneBlock, read, Option.bind_some, asserting, if_pos (by omega), if_pos past]
      · have positive : 0 < result.readLen := whole.positive
        have used : offset + result.readLen.toNat ≤ b.usedSize := whole.used
        obtain ⟨reads, rest, all, chained⟩ := ih (offset + result.readLen.toNat) next used (by omega)
        refine ⟨⟨offset, result.skipLen, result.readLen, head⟩ :: reads, ?_, ?_, rfl, chained⟩
        · rw [buildMemIdxOnOneBlock, read, Option.bind_some, asserting, if_pos (by omega), if_neg (by omega), found, Option.bind_some,
            wrap32_small _ (by omega), rest]
          rfl
        · intro one member
          rcases List.mem_cons.mp member with rfl | later
          · exact whole
          · exact all one later

end Fine

-- A call that goes through tries every position up to the first record.
theorem skip_loop_tries (b : DataBlock) (offset fuel skipLen steps : Nat) (ret : Int) (inside : offset + skipLen + steps ≤ b.usedSize)
    (tried : b.newIsRecordOK (offset + skipLen) = some ret)
    (wrong : ∀ step, step < steps → ∃ ret, b.newIsRecordOK (offset + skipLen + step) = some ret ∧ ret ≠ 0 ∧ ret ≠ invalidReachEnd)
    (result : Nat × Int) (done : b.skipLoop offset fuel skipLen ret = some result) :
    ∃ fuel final, b.newIsRecordOK (offset + skipLen + steps) = some final ∧
      b.skipLoop offset fuel (skipLen + steps) final = some result := by
  have small := used_small b
  simp only [maxBlockSize] at small
  induction steps generalizing fuel skipLen ret with
  | zero => exact ⟨fuel, ret, tried, done⟩
  | succ steps ih =>
      obtain ⟨here, triedHere, bad⟩ := wrong 0 (by omega)
      have same : here = ret := Option.some.inj (triedHere.symm.trans tried)
      subst same
      cases fuel with
      | zero => cases done
      | succ fuel =>
          rw [skipLoop, if_pos bad, wrap32_small (skipLen + 1) (by omega), wrap32_small _ (by omega)] at done
          obtain ⟨next, triedNext, later⟩ := Option.bind_eq_some_iff.mp done
          obtain ⟨rest, final, reached, goesOn⟩ := ih fuel (skipLen + 1) next (by omega) triedNext
            (fun step less => by
              have there := wrong (step + 1) (by omega)
              rwa [show offset + skipLen + (step + 1) = offset + (skipLen + 1) + step by omega] at there) later
          refine ⟨rest, final, ?_, ?_⟩
          · rw [show offset + skipLen + (steps + 1) = offset + (skipLen + 1) + steps by omega]
            exact reached
          · rw [show skipLen + (steps + 1) = skipLen + 1 + steps by omega]
            exact goesOn

-- Where a scan that ends and reads inside has come to: the call at `offset` is under
-- way and has found nothing up to `position`.
def UnderWay (b : DataBlock) (position : Nat) : Prop :=
  ∃ fuel offset reads, b.buildMemIdxOnOneBlock fuel offset = some reads ∧ (∀ read ∈ reads, b.Inside read) ∧ offset ≤ position ∧
    position ≤ b.usedSize ∧
    ∀ earlier, offset ≤ earlier → earlier < position → ∃ ret, b.newIsRecordOK earlier = some ret ∧ ret ≠ 0 ∧ ret ≠ invalidReachEnd

theorem under_way_tries (b : DataBlock) (position : Nat) (under : b.UnderWay position) :
    ∃ ret, b.newIsRecordOK position = some ret ∧
      (ret = 0 → ∀ head size, b.getHeadWrapper position = some (some head) → b.recordSize head = some size →
        position + size ≤ b.usedSize ∧ b.UnderWay (position + size)) := by
  obtain ⟨fuel, offset, reads, scan, whole, before, inside, wrong⟩ := under
  have small := used_small b
  simp only [maxBlockSize] at small
  cases fuel with
  | zero => cases scan
  | succ fuel =>
      rw [buildMemIdxOnOneBlock] at scan
      obtain ⟨result, read, next⟩ := Option.bind_eq_some_iff.mp scan
      rw [getRecordSkipErr] at read
      obtain ⟨first, tried, looped⟩ := Option.bind_eq_some_iff.mp read
      obtain ⟨⟨last, final⟩, loop, shape⟩ := Option.bind_eq_some_iff.mp looped
      have sum : offset + 0 + (position - offset) = position := by omega
      obtain ⟨rest, ret, here, goesOn⟩ := skip_loop_tries b offset (b.usedSize + 1) 0 (position - offset) first (by omega) tried
        (fun step less => wrong (offset + 0 + step) (by omega) (by omega)) (last, final) loop
      rw [sum] at here
      refine ⟨ret, here, fun zero head size found length => ?_⟩
      subst zero
      cases rest with
      | zero => cases goesOn
      | succ rest =>
          rw [skipLoop, if_neg fun both => both.1 rfl] at goesOn
          obtain ⟨rfl, rfl⟩ := Prod.mk.inj (Option.some.inj goesOn)
          obtain ⟨-, chosen⟩ := (asserting_some _ _ _).mp shape
          rw [if_neg (by decide), show offset + (0 + (position - offset)) = position by omega, wrap32_small _ (by omega), found,
            Option.bind_some, Option.bind_some, length, Option.bind_some] at chosen
          obtain ⟨-, chosen⟩ := (asserting_some _ _ _).mp chosen
          obtain ⟨positive, chosen⟩ := (asserting_some _ _ _).mp chosen
          obtain rfl := Option.some.inj chosen
          obtain ⟨-, next⟩ := (asserting_some _ _ _).mp next
          rw [if_neg (by dsimp only; omega), Option.bind_some] at next
          obtain ⟨later, scanned, rfl⟩ := Option.map_eq_some_iff.mp next
          obtain ⟨-, ⟨same, sized, value⟩, -, used⟩ := whole _ List.mem_cons_self
          rw [length] at sized
          obtain rfl := Option.some.inj sized
          dsimp only at value used scanned
          rw [value, Int.toNat_natCast] at used
          rw [value, Int.toNat_natCast, wrap32_small _ (by omega)] at scanned
          have target : offset + (size + (0 + (position - offset))) = position + size := by omega
          rw [target] at used scanned
          exact ⟨used, fuel, position + size, later, scanned, fun one member => whole one (List.mem_cons_of_mem _ member), Nat.le_refl _,
            used, fun earlier low high => by omega⟩

theorem examined_under_way (b : DataBlock) (scans : b.Scans) (position : Nat) (examined : b.Examined position) : b.UnderWay position := by
  induction examined with
  | start =>
      obtain ⟨fuel, reads, scan, whole, -⟩ := scans
      exact ⟨fuel, 0, reads, scan, whole, Nat.le_refl _, Nat.zero_le _, fun earlier _ high => by omega⟩
  | skip position ret _ tried wrong more ih =>
      obtain ⟨fuel, offset, reads, scan, whole, before, inside, others⟩ := ih
      have room := tried_room_of b position ret inside tried more
      simp only [liteMinRecordSize] at room
      refine ⟨fuel, offset, reads, scan, whole, by omega, by omega, fun earlier low high => ?_⟩
      by_cases here : earlier = position
      · exact ⟨ret, here ▸ tried, wrong, more⟩
      · exact others earlier low (by omega)
  | record position head size _ tried found length ih =>
      obtain ⟨ret, again, next⟩ := under_way_tries b position ih
      have same : ret = 0 := Option.some.inj (again.symm.trans tried)
      exact (next same head size found length).2

-- The scan of a block ends and stays inside what is used exactly when no position it
-- tries overruns.
theorem block_scan_inside (b : DataBlock) : b.Scans ↔ ∀ position, b.Examined position → ¬ b.Overruns position := by
  constructor
  · intro scans position examined past
    obtain ⟨ret, tried, next⟩ := under_way_tries b position (examined_under_way b scans position examined)
    rcases tried_overrun b position past with fault | ⟨zero, head, size, found, length, wide⟩
    · rw [fault] at tried
      cases tried
    · have same : ret = 0 := Option.some.inj (tried.symm.trans zero)
      have used := (next same head size found length).1
      have small := used_small b
      simp only [maxBlockSize] at small
      omega
  · intro fine
    obtain ⟨reads, scan, whole, chained⟩ := scan_fine b fine (b.usedSize + 1) 0 .start (Nat.zero_le _) (by omega)
    exact ⟨_, reads, scan, whole, chained⟩

-- An empty record, and behind it a damaged one whose length brings the sum back to
-- where it starts, on the end flag of the first.
def damagedBlock : DataBlock where
  reserve := 0
  pBlock := [0x13, 1, 0, 0, 0, 0, 0, 0, 0, 0, 0, 0, 0, 0, 0, 0, 0, 0, 0x34,
    0x13, 2, 0, 0, 0, 0, 0, 0, 0, 0, 0, 0, 0, 0, 0xED, 0xFF, 0xFF, 0xFF, 0, 0x34]
  usedSize := 39
  small := by decide
  inside := by decide

theorem damaged_block_aborts : ¬ damagedBlock.Scans := by
  rintro ⟨fuel, reads, scan, -⟩
  have first : damagedBlock.getRecordSkipErr 0 = some ⟨19, some ⟨0, true⟩, 0⟩ := by decide +kernel
  have second : damagedBlock.getRecordSkipErr 19 = none := by decide +kernel
  have next : ∀ fuel, damagedBlock.buildMemIdxOnOneBlock fuel 19 = none := by
    intro fuel
    cases fuel with
    | zero => rfl
    | succ fuel =>
        rw [buildMemIdxOnOneBlock, second]
        rfl
  cases fuel with
  | zero => cases scan
  | succ fuel =>
      rw [buildMemIdxOnOneBlock, first, Option.bind_some, asserting, if_pos (by decide), if_neg (by decide), Option.bind_some,
        show wrap32 (0 + (19 : Int).toNat) = 19 from rfl, next fuel] at scan
      cases scan

end DataBlock

end PaxosStore.MemKv
