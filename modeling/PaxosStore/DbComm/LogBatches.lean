import PaxosStore.DbComm.LogWrites

set_option autoImplicit false

namespace PaxosStore.DbComm

open PaxosStore.Codec
open PaxosStore.PaxosKv

-- Where a batch stands before its next value: past the rest of a block that is too small.
def entered (info : WriteInfo) (at_ : Dumping) : Dumping :=
  if at_.next - at_.pos ≤ info.minTail then { at_ with pos := at_.next, next := blockAfter info.blockSize info.maxBuf at_.next } else at_

section Dumping

variable {crc : Crc32c} {fileSeq : Nat} {info : WriteInfo} {base : Nat} {at_ : Dumping} {content : Bytes} {blocks : List Block} {values : List Bytes}
  {offsets : List Nat}
  (tuned : Tuned info.blockSize info.maxBuf info.minTail fileSeq) (aligned : info.directOffset % info.blockSize = 0)
  (dumps : Dumps crc fileSeq info base at_ content blocks values offsets)
include tuned aligned dumps

-- The next value of a batch goes where its size was taken.
theorem dumps_enter (limit : Nat) (blocks_to : limit % info.blockSize = 0) (least : at_.next ≤ limit) (most : limit ≤ info.maxBuf)
    (valLen size : Nat) (some_value : 0 < valLen)
    (sized : nextSize info.blockSize info.minTail (content.length % info.blockSize) valLen = some size) (fits : at_.pos + size ≤ limit) :
    ∃ gap inner, Dumps crc fileSeq info base (entered info at_) (content ++ List.replicate gap 0) blocks values offsets ∧
      info.minTail < (entered info at_).next - (entered info at_).pos ∧ (entered info at_).next ≤ limit ∧
      calculateDumpSize info.blockSize ((content ++ List.replicate gap 0).length % info.blockSize) valLen = some inner ∧
      size = gap + inner ∧ (entered info at_).pos = at_.pos + gap := by
  have positive := tuned_positive tuned
  have short := tuned.short
  have lower := dumps.lower
  have near := dumps.near
  have place := dumps.place
  have room := dumps_room aligned dumps
  have remains := Nat.mod_lt content.length positive
  rw [nextSize] at sized
  by_cases tight : at_.next - at_.pos ≤ info.minTail
  · -- The rest of the block is skipped: it is empty, or its zeros are part of the data now.
    have inner_size : calculateDumpSize info.blockSize 0 valLen = some (size - (at_.next - at_.pos)) ∧ at_.next - at_.pos ≤ size := by
      by_cases zero : content.length % info.blockSize = 0
      · rw [if_pos zero] at room
        have closed : at_.next - at_.pos = 0 := by omega
        rw [zero, if_pos (by omega)] at sized
        rw [closed]
        exact ⟨sized, Nat.zero_le _⟩
      · rw [if_neg zero] at room
        rw [if_neg (by omega)] at sized
        obtain ⟨inner, dumped, same⟩ := Option.map_eq_some_iff.mp sized
        rw [← same, room, Nat.add_sub_cancel]
        exact ⟨dumped, Nat.le_add_left _ _⟩
    obtain ⟨inner_size, longer⟩ := inner_size
    obtain ⟨other, again, some_inner, _⟩ := dump_size_some tuned 0 valLen (enters_head tuned) some_value
    obtain rfl : size - (at_.next - at_.pos) = other := Option.some.inj (inner_size.symm.trans again)
    have whole : (content.length + (at_.next - at_.pos)) % info.blockSize = 0 := by
      rw [← place, show info.directOffset + at_.pos + (at_.next - at_.pos) = info.directOffset + at_.next by omega, Nat.add_mod, aligned,
        dumps.aligned, Nat.zero_add, Nat.zero_mod]
    have another : at_.next + info.blockSize ≤ limit := by
      have gap : (limit - at_.next) % info.blockSize = 0 := Nat.sub_mod_eq_zero_of_mod_eq (blocks_to.trans dumps.aligned.symm)
      have block := Nat.le_of_dvd (show 0 < limit - at_.next by omega) (Nat.dvd_of_mod_eq_zero gap)
      omega
    have upper := dumps.upper
    have moved : entered info at_ = { at_ with pos := at_.next, next := at_.next + info.blockSize } := by
      rw [entered, if_pos tight, blockAfter, if_neg (by omega)]
    have length : (content ++ List.replicate (at_.next - at_.pos) 0).length = content.length + (at_.next - at_.pos) := by
      rw [List.length_append, List.length_replicate]
    have size_at : at_.buffer.length = info.maxBuf := dumps.size
    have start := dumps.start
    refine ⟨at_.next - at_.pos, size - (at_.next - at_.pos), ?_, ?_, ?_, ?_, by omega, ?_⟩
    · rw [moved]
      refine ⟨content_padded dumps.holds _ whole (by omega), size_at, ?_, ?_, Nat.le_add_right _ _, Nat.le_refl _, ?_, ?_, ?_, ?_⟩
      · dsimp only
        rw [length]
        omega
      · dsimp only
        omega
      · dsimp only
        rw [Nat.add_mod_right, dumps.aligned]
      · dsimp only
        omega
      · dsimp only
        have parts : at_.buffer.take at_.next = at_.buffer.take at_.pos ++ List.replicate (at_.next - at_.pos) 0 := by
          have split := List.take_append_drop at_.pos (at_.buffer.take at_.next)
          rw [List.take_take, Nat.min_eq_left lower, dumps.gap tight] at split
          exact split.symm
        rw [parts, drop_append_window _ _ _ _ (by omega) start, dumps.window, List.drop_append_of_le_length (by omega)]
      · dsimp only
        intro wrong
        omega
    · rw [moved]
      dsimp only
      omega
    · rw [moved]
      exact another
    · rw [length, whole]
      exact inner_size
    · rw [moved]
      dsimp only
      omega
  · have same : entered info at_ = at_ := if_neg tight
    have inside : content.length % info.blockSize + info.minTail < info.blockSize := by
      split at room
      · omega
      · omega
    rw [if_pos inside] at sized
    rw [same]
    refine ⟨0, size, ?_, by omega, least, ?_, by omega, rfl⟩
    · rw [List.replicate_zero, List.append_nil]
      exact dumps
    · rw [List.replicate_zero, List.append_nil]
      exact sized

end Dumping

theorem settled (at_ : Dumping) (same : at_.newPos = at_.pos) : { at_ with pos := at_.newPos } = at_ := by
  obtain ⟨seq, buffer, pos, next, newPos⟩ := at_
  exact congrArg (fun place => (⟨seq, buffer, place, next, newPos⟩ : Dumping)) same

theorem dump_batch_cons (crc : Crc32c) (info : WriteInfo) (value : Bytes) (rest : List Bytes) (at_ done : Dumping) (some_value : value ≠ [])
    (ran : dumpOne crc info.blockSize info.minTail info.maxBuf true (entered info at_) value = some (done, true)) (grows : done.pos < done.newPos)
    (lower : done.newPos ≤ done.next) (later : 0 < info.directOffset + (entered info at_).pos) :
    dumpBatch crc info (value :: rest) at_ =
      (dumpBatch crc info rest { done with pos := done.newPos }).map
        (fun last => (last.1, last.2.1, (info.directOffset + (entered info at_).pos) :: last.2.2)) := by
  rw [entered] at ran later ⊢
  rw [dumpBatch, asserting_pos _ _ some_value]
  dsimp only
  rw [ran, Option.bind_some]
  dsimp only
  rw [asserting_pos _ _ ⟨grows, lower⟩, if_neg (Nat.ne_of_gt later)]

section Batches

variable {crc : Crc32c} {fileSeq : Nat} {info : WriteInfo} {base : Nat} (tuned : Tuned info.blockSize info.maxBuf info.minTail fileSeq)
  (aligned : info.directOffset % info.blockSize = 0) (limit : Nat) (blocks_to : limit % info.blockSize = 0) (most : limit ≤ info.maxBuf)
  (file_limit : info.directOffset + limit ≤ maxLogFileSize)
include tuned aligned blocks_to most file_limit

theorem dumps_batch (rest : List Bytes) (some_values : ∀ value ∈ rest, value ≠ []) (at_ : Dumping) (content : Bytes) (blocks : List Block)
    (values : List Bytes) (offsets : List Nat) (dumps : Dumps crc fileSeq info base at_ content blocks values offsets) (least : at_.next ≤ limit)
    (last : rest = [] → at_.newPos = at_.pos ∧ at_.next < at_.newPos + info.blockSize) (dumped : Nat)
    (place : content.length % info.blockSize = (info.offset + dumped) % info.blockSize) (size : Nat)
    (sized : batchDumpSize info.blockSize info.minTail info.offset (rest.map List.length) dumped = some size)
    (fits : at_.pos + (size - dumped) ≤ limit) :
    ∃ done bytes more reports, dumpBatch crc info rest at_ = some (done, true, reports) ∧ dumped ≤ size ∧ bytes.length = size - dumped ∧
      done.newPos = at_.pos + (size - dumped) ∧ done.next ≤ limit ∧ done.next < done.newPos + info.blockSize ∧
      Dumps crc fileSeq info base { done with pos := done.newPos } (content ++ bytes) more (values ++ rest) (offsets ++ reports) := by
  induction rest generalizing at_ content blocks values offsets dumped with
  | nil =>
      obtain ⟨same, near⟩ := last rfl
      cases sized
      refine ⟨at_, [], blocks, [], rfl, Nat.le_refl _, by rw [Nat.sub_self]; rfl, by omega, least, near, ?_⟩
      rw [List.append_nil, List.append_nil, List.append_nil, settled at_ same]
      exact dumps
  | cons value rest ih =>
      have some_value := some_values value (List.mem_cons_self ..)
      have positive := List.length_pos_iff.mpr some_value
      have others : ∀ valLen ∈ rest.map List.length, 0 < valLen := by
        intro valLen member
        obtain ⟨other, there, same⟩ := List.mem_map.mp member
        rw [← same]
        exact List.length_pos_iff.mpr (some_values other (List.mem_cons_of_mem _ there))
      have start := content_start dumps.holds
      obtain ⟨more_size, next_sized, longer, _, ends⟩ := next_size_some tuned (content.length % info.blockSize) value.length
        (Nat.mod_lt _ (tuned_positive tuned)) start positive
      rw [List.map_cons, batch_size_cons info.offset value.length dumped _ positive more_size (by rw [← place]; exact next_sized) longer] at sized
      have later : (content.length + more_size) % info.blockSize = (info.offset + (dumped + more_size)) % info.blockSize := by
        rw [Nat.add_mod, place, ← Nat.add_mod, Nat.add_assoc]
      rw [Nat.mod_add_mod, later] at ends
      obtain ⟨again, same, beyond, _⟩ := batch_size_some tuned info.offset (rest.map List.length) others (dumped + more_size) ends
      obtain rfl : again = size := Option.some.inj (same.symm.trans sized)
      obtain ⟨gap, inner, dumps_in, tail, within, inner_sized, total, pos⟩ := dumps_enter tuned aligned dumps limit blocks_to least most value.length
        more_size positive next_sized (by omega)
      obtain ⟨done, bytes, more, ran, length, new_pos, ended, begun, dumps, near⟩ := dumps_value aligned dumps_in tuned true value some_value tail limit
        blocks_to within most file_limit inner inner_sized (by omega)
      have grown : (content ++ List.replicate gap 0 ++ bytes).length = content.length + more_size := by
        rw [List.length_append, List.length_append, List.length_replicate, length]
        omega
      obtain ⟨final, tail_bytes, blocks', reports, whole, _, tail_length, final_pos, final_next, final_near, final_dumps⟩ :=
        ih (fun other there => some_values other (List.mem_cons_of_mem _ there)) { done with pos := done.newPos } _ more _ _ dumps ended
          (fun _ => ⟨rfl, near⟩) (dumped + more_size) (by rw [grown, later]) sized (by dsimp only; omega)
      dsimp only at final_pos
      have place_in := dumps_in.place
      have head := content_head dumps_in.holds
      have report : info.directOffset + (entered info at_).pos = (content ++ List.replicate gap 0).length := dumps_in.place
      have positive_block := tuned_positive tuned
      refine ⟨final, List.replicate gap 0 ++ bytes ++ tail_bytes, blocks', (content ++ List.replicate gap 0).length :: reports, ?_, by omega, ?_, by omega,
        final_next, final_near, ?_⟩
      · rw [dump_batch_cons crc info value rest at_ done some_value ran begun dumps.lower (by omega), whole, report]
        rfl
      · rw [List.length_append, List.length_append, List.length_replicate, length, tail_length]
        omega
      · simp only [List.append_assoc, List.singleton_append] at final_dumps ⊢
        exact final_dumps

end Batches

theorem batch_leaves {crc : Crc32c} {fileSeq : Nat} {info : WriteInfo} {file content : Bytes} {blocks : List Block} {values : List Bytes} {offsets : List Nat}
    (kept : Kept crc fileSeq info file content blocks values offsets) (added : List Bytes) (some_values : added ≠ [] ∧ ∀ value ∈ added, value ≠ [])
    (bound : (Load.batch (added.map List.length)).bound info.blockSize < 2 ^ 31) :
    Leaves crc fileSeq info file values offsets (.batch (added.map List.length)) added (fun reports => reports) (batchDirectIOWrite crc info file added) := by
  obtain ⟨good, fixed, kept, same⟩ := kept_fixed kept
  rw [batchDirectIOWrite, fixed, Option.bind_some, if_neg some_values.1]
  have filled : (Load.batch (added.map List.length)).Filled := by
    refine ⟨fun none_left => some_values.1 (List.map_eq_nil_iff.mp none_left), fun valLen member => ?_⟩
    obtain ⟨value, there, length⟩ := List.mem_map.mp member
    rw [← length]
    exact List.length_pos_iff.mpr (some_values.2 value there)
  obtain ⟨after, result, content', adjusted, kept, again, refusal, answers⟩ := kept_adjusted kept _ filled (by rw [same.1]; exact bound)
  have writer := same_trans_writer info good after same again
  rw [adjusted, Option.bind_some]
  cases result with
  | error code =>
      exact ⟨_, _, _, content', blocks, rfl, writer, rfl, kept_status kept code, refused_fixed fixed same (refusal code rfl)⟩
  | ok sizes =>
      obtain ⟨dump, ready, rfl⟩ := answers sizes rfl
      clear answers
      have tuned := kept.tuned
      have limit := ready_limit tuned _ dump ready
      have room := ready.room
      have file_limit := ready.limit
      obtain ⟨multiple, least, most⟩ := estimate_bounds after (dump + after.metaSize) (tuned_positive tuned)
      obtain ⟨head, whole, same_place⟩ := begin_block after kept.aligned kept.low
      obtain ⟨begun, start, begins, dumps, place, before, pos, next, tail⟩ := holding_begins kept.toHolding (Nat.le_refl _) (by omega)
      dsimp only
      rw [asserting_pos _ _ (by omega), begins, Option.bind_some]
      obtain ⟨done, bytes, more, reports, ran, _, length, ends, within, near, dumps⟩ := dumps_batch tuned kept.aligned
        (after.beginBlock + after.estimateOf (dump + after.metaSize)) (by rw [Nat.add_mod, whole, multiple, Nat.zero_add, Nat.zero_mod]) room
        (by omega) added some_values.2 begun start blocks values offsets dumps (by omega) (fun none_left => absurd none_left some_values.1) 0
        (by rw [place, reported_place]; rfl) dump ready.sized (by omega)
      obtain ⟨buffer, stored, last, content'', out, estimated, written, moved, reported, same_last, kept⟩ :=
        kept_finishes kept _ dump ready done start bytes more _ _ dumps (List.append_ne_nil_of_right_ne_nil _ some_values.1) place before length near within
      rw [ran, Option.bind_some]
      dsimp only
      rw [out, Option.bind_some]
      dsimp only
      rw [asserting_pos _ _ ⟨estimated, written⟩, moved, Option.map_some]
      exact ⟨_, _, _, content'', more, rfl, same_trans_writer info after last writer same_last, kept⟩

end PaxosStore.DbComm
