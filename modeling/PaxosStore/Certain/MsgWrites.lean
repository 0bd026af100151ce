import PaxosStore.Certain.MsgChannel
import Mathlib.Data.List.Forall2

set_option autoImplicit false

namespace PaxosStore.Certain

open PaxosStore.PaxosKv PaxosStore.Codec

namespace WriteItem

-- What of an item is still to be written.
def tail (item : WriteItem) : Codec.Bytes := item.rawData.drop item.offset

def toVec (item : WriteItem) : IoVec := { data := item.rawData, base := item.offset, len := sub32 item.len item.offset }

-- Between two rounds: in no iovec, and not fully written.
structure Loose (item : WriteItem) : Prop where
  free : item.ioVec = none
  filled : item.rawData.length = item.len
  rest : item.offset < item.len

theorem to_vec_len (item : WriteItem) (loose : item.Loose) : item.toVec.len = item.len - item.offset :=
  sub32_le _ _ (Nat.le_of_lt loose.rest)

theorem tail_length (item : WriteItem) (loose : item.Loose) : item.tail.length = item.len - item.offset := by
  rw [tail, List.length_drop, loose.filled]

theorem gathered_to_vec (item : WriteItem) (loose : item.Loose) : (item.toVec.data.drop item.toVec.base).take item.toVec.len = item.tail := by
  rw [to_vec_len item loose]
  exact List.take_of_length_le (by rw [← tail_length item loose]; exact Nat.le_refl _)

end WriteItem

namespace WriteItemList

open WriteItem

def mark : Nat → WriteItemList → WriteItemList
  | _, [] => []
  | place, item :: rest => { item with ioVec := some place } :: mark (place + 1) rest

theorem mark_append (place : Nat) (front back : WriteItemList) :
    mark place (front ++ back) = mark place front ++ mark (place + front.length) back := by
  induction front generalizing place with
  | nil => rfl
  | cons item front ih =>
      rw [List.cons_append, mark, mark, ih, List.cons_append, List.length_cons, show place + 1 + front.length = place + (front.length + 1) by omega]

theorem mark_length (place : Nat) (items : WriteItemList) : (mark place items).length = items.length := by
  induction items generalizing place with
  | nil => rfl
  | cons item rest ih => rw [mark, List.length_cons, List.length_cons, ih]

theorem get_loop_marked (left : Nat) (fresh marked : WriteItemList) (vecs : List IoVec) (free : ∀ item ∈ fresh, item.ioVec = none)
    (taken : ∀ item ∈ marked, item.ioVec.isSome = true) :
    getLoop left (fresh ++ marked) vecs =
      (fresh.drop left ++ (marked ++ mark vecs.length (fresh.take left)), vecs ++ (fresh.take left).map toVec) := by
  induction left generalizing fresh marked vecs with
  | zero => simp [getLoop, mark]
  | succ left ih =>
      cases fresh with
      | nil =>
          cases marked with
          | nil => simp [getLoop, mark]
          | cons item rest =>
              have some := taken item List.mem_cons_self
              simp only [List.nil_append, getLoop]
              rw [if_pos some]
              simp [mark]
      | cons item rest =>
          have none := free item List.mem_cons_self
          rw [List.cons_append, getLoop, if_neg (by rw [none]; decide), List.append_assoc]
          have next := ih rest (marked ++ [{ item with ioVec := some vecs.length }])
            (vecs ++ [{ data := item.rawData, base := item.offset, len := sub32 item.len item.offset }])
            (fun other member => free other (List.mem_cons_of_mem _ member))
            (fun other member => by
              rcases List.mem_append.mp member with old | new
              · exact taken other old
              · rw [List.mem_singleton.mp new]
                rfl)
          rw [next]
          simp [mark, toVec]

theorem get_first_loose (items : WriteItemList) (n : Nat) (loose : ∀ item ∈ items, item.Loose) :
    items.getFirstNIterms n = (items.drop n ++ mark 0 (items.take n), (items.take n).map toVec) := by
  have got := get_loop_marked n items [] [] (fun item member => (loose item member).free) (fun item member => by cases member)
  rw [List.append_nil] at got
  rw [getFirstNIterms, got]
  rfl

-- The same item after more bytes of it were written.
structure Alike (item later : WriteItem) : Prop where
  data : later.rawData = item.rawData
  len : later.len = item.len

def whole (item : WriteItem) : IoVec := { data := item.rawData, base := item.len, len := 0 }

theorem mark_snoc_last (kept front : WriteItemList) (item : WriteItem) :
    (kept ++ mark 0 (front ++ [item])).getLast? = some { item with ioVec := some front.length } ∧
      (kept ++ mark 0 (front ++ [item])).dropLast = kept ++ mark 0 front := by
  have split : kept ++ mark 0 (front ++ [item]) = kept ++ mark 0 front ++ [{ item with ioVec := some front.length }] := by
    rw [mark_append, Nat.zero_add, mark, mark, List.append_assoc]
  rw [split]
  exact ⟨by rw [List.getLast?_append]; rfl, List.dropLast_concat⟩

-- One round of the loop at the item that is marked with the place behind `front`.
theorem clean_loop_last (fuel free : Nat) (flag : Bool) (kept front : WriteItemList) (item : WriteItem) (before after : List IoVec)
    (vec : IoVec) (place : before.length = front.length) (fits : vec.base + vec.len = item.len) (part : vec.len ≤ item.len) :
    cleanLoop (before ++ vec :: after) (fuel + 1) (kept ++ mark 0 (front ++ [item])) flag free =
      if vec.len = 0 then cleanLoop (before ++ vec :: after) fuel (kept ++ mark 0 front) true (free + item.len)
      else
        asserting (flag = false)
          (cleanLoop (before ++ vec :: after) fuel ({ item with offset := item.len - vec.len, ioVec := none } :: (kept ++ mark 0 front)) flag free) := by
  obtain ⟨last, rest⟩ := mark_snoc_last kept front item
  have there : (before ++ vec :: after)[front.length]? = some vec := by
    rw [List.getElem?_append_right (by omega), place, Nat.sub_self]
    rfl
  rw [cleanLoop, last]
  dsimp only
  rw [there, Option.bind_some, asserting, if_pos fits, asserting, if_pos part, rest]

-- From the back: the items with bytes left go to the front again.
theorem clean_loop_left (todo left : WriteItemList) (alike : List.Forall₂ Alike todo left) (loose : ∀ item ∈ left, item.Loose)
    (fuel free : Nat) (kept front : WriteItemList) (before after : List IoVec) (place : before.length = front.length) :
    cleanLoop (before ++ left.map toVec ++ after) (fuel + todo.length) (kept ++ mark 0 (front ++ todo)) false free =
      cleanLoop (before ++ left.map toVec ++ after) fuel (left ++ kept ++ mark 0 front) false free := by
  induction alike generalizing fuel kept front before with
  | nil => simp
  | @cons item later todo left same _ ih =>
      have first := loose later List.mem_cons_self
      have next := ih (fun other member => loose other (List.mem_cons_of_mem _ member)) (fuel + 1) kept (front ++ [item])
        (before ++ [later.toVec]) (by simp [place])
      rw [List.append_assoc front, List.append_assoc before] at next
      have width := to_vec_len later first
      have fits : later.toVec.base + later.toVec.len = item.len := by
        rw [width, ← same.len]
        show later.offset + (later.len - later.offset) = later.len
        have rest := first.rest
        omega
      have final := clean_loop_last fuel free false (left ++ kept) front item before (left.map toVec ++ after) later.toVec place fits (by omega)
      rw [if_neg (by rw [width]; have rest := first.rest; omega), asserting, if_pos rfl] at final
      have pushed : { item with offset := item.len - later.toVec.len, ioVec := none } = later := by
        have rest := first.rest
        have offset : item.len - later.toVec.len = later.offset := by
          rw [width, ← same.len]
          omega
        rw [offset, ← same.data, ← same.len, ← first.free]
      rw [pushed] at final
      rw [List.map_cons, List.length_cons, show fuel + (todo.length + 1) = fuel + 1 + todo.length by omega]
      simp only [List.nil_append, List.cons_append, List.append_assoc] at next final ⊢
      rw [next, final]

theorem clean_loop_done (done : WriteItemList) (fuel free : Nat) (flag : Bool) (kept front : WriteItemList) (before after : List IoVec)
    (place : before.length = front.length) :
    ∃ flag', cleanLoop (before ++ done.map whole ++ after) (fuel + done.length) (kept ++ mark 0 (front ++ done)) flag free =
      cleanLoop (before ++ done.map whole ++ after) fuel (kept ++ mark 0 front) flag' (free + (done.map WriteItem.len).sum) := by
  induction done generalizing fuel free flag front before with
  | nil => exact ⟨flag, by simp⟩
  | cons item done ih =>
      obtain ⟨flag', next⟩ := ih (fuel + 1) free flag (front ++ [item]) (before ++ [whole item]) (by simp [place])
      rw [List.append_assoc front, List.append_assoc before] at next
      have final := clean_loop_last fuel (free + (done.map WriteItem.len).sum) flag' kept front item before (done.map whole ++ after)
        (whole item) place rfl (Nat.zero_le _)
      rw [if_pos (show (whole item).len = 0 from rfl)] at final
      refine ⟨true, ?_⟩
      rw [List.map_cons, List.map_cons, List.sum_cons, List.length_cons, show fuel + (done.length + 1) = fuel + 1 + done.length by omega,
        show free + (item.len + (done.map WriteItem.len).sum) = free + (done.map WriteItem.len).sum + item.len by omega]
      simp only [List.nil_append, List.cons_append, List.append_assoc] at next final ⊢
      rw [next, final]

theorem clean_loop_loose (vecs : List IoVec) (fuel free : Nat) (flag : Bool) (items : WriteItemList) (loose : ∀ item ∈ items, item.ioVec = none) :
    cleanLoop vecs fuel items flag free = some (items, free) := by
  cases fuel with
  | zero => rfl
  | succ fuel =>
      rw [cleanLoop]
      cases last : items.getLast? with
      | none => rfl
      | some item =>
          dsimp only
          rw [loose item (List.mem_of_getLast? last)]

-- The first items of the batch are written, of the next ones some bytes are left.
theorem clean_written (kept done todo left : WriteItemList) (alike : List.Forall₂ Alike todo left) (loose : ∀ item ∈ left, item.Loose)
    (free : ∀ item ∈ kept, item.ioVec = none) :
    (kept ++ mark 0 (done ++ todo) : WriteItemList).cleanWrittenItems (done.map whole ++ left.map toVec) =
      some (left ++ kept, (done.map WriteItem.len).sum) := by
  have length : (kept ++ mark 0 (done ++ todo) : WriteItemList).length = kept.length + done.length + todo.length := by
    rw [List.length_append, mark_length, List.length_append]
    omega
  have first := clean_loop_left todo left alike loose (kept.length + done.length) 0 kept done (done.map whole) [] (List.length_map ..)
  obtain ⟨flag, second⟩ := clean_loop_done done kept.length 0 false (left ++ kept) [] [] (left.map toVec) rfl
  simp only [List.nil_append, List.append_nil, Nat.zero_add] at first second
  rw [cleanWrittenItems, length, first, second, mark, List.append_nil]
  refine clean_loop_loose _ _ _ _ _ fun item member => ?_
  rcases List.mem_append.mp member with back | old
  · exact (loose item back).free
  · exact free item old

def tails (items : WriteItemList) : Codec.Bytes := items.flatMap tail

theorem gathered_tails (items : WriteItemList) (loose : ∀ item ∈ items, item.Loose) : MsgChannel.gathered (items.map toVec) = tails items := by
  rw [MsgChannel.gathered, tails, List.flatMap_map]
  exact List.flatMap_congr fun item member => gathered_to_vec item (loose item member)

-- What the loop behind writev does to the iovecs of a batch, as items.
theorem advance_split (batch : WriteItemList) (loose : ∀ item ∈ batch, item.Loose) (ret : Nat) (part : ret ≤ (tails batch).length) :
    ∃ done todo left, batch = done ++ todo ∧ List.Forall₂ Alike todo left ∧ (∀ item ∈ left, item.Loose) ∧
      MsgChannel.advance ret (batch.map toVec) = done.map whole ++ left.map toVec ∧ tails left = (tails batch).drop ret := by
  induction batch generalizing ret with
  | nil => exact ⟨[], [], [], rfl, .nil, fun item member => (by cases member), rfl, by simp [tails]⟩
  | cons item batch ih =>
      have first := loose item List.mem_cons_self
      have others : ∀ other ∈ batch, other.Loose := fun other member => loose other (List.mem_cons_of_mem _ member)
      have width := to_vec_len item first
      have size := tail_length item first
      have sum : tails (item :: batch) = item.tail ++ tails batch := List.flatMap_cons ..
      by_cases fits : item.toVec.len ≤ ret
      · obtain ⟨done, todo, left, split, alike, looseLeft, moved, rest⟩ := ih others (ret - item.toVec.len) (by
          rw [sum, List.length_append] at part
          omega)
        refine ⟨item :: done, todo, left, by rw [split]; rfl, alike, looseLeft, ?_, ?_⟩
        · rw [List.map_cons, MsgChannel.advance, if_pos fits, moved, List.map_cons, List.cons_append]
          have place : item.toVec.base + item.toVec.len = item.len := by
            rw [width]
            show item.offset + (item.len - item.offset) = item.len
            have rest := first.rest
            omega
          rw [place]
          rfl
        · rw [rest, sum, List.drop_append, List.drop_eq_nil_of_le (show item.tail.length ≤ ret by omega), List.nil_append, width, size]
      · have position : item.offset + ret < item.len := by omega
        have advanced : Loose { item with offset := item.offset + ret } := ⟨first.free, first.filled, position⟩
        refine ⟨[], item :: batch, { item with offset := item.offset + ret } :: batch, rfl,
          .cons ⟨rfl, rfl⟩ (List.forall₂_same.mpr fun _ _ => ⟨rfl, rfl⟩), ?_, ?_, ?_⟩
        · intro other member
          rcases List.mem_cons.mp member with rfl | old
          · exact advanced
          · exact others other old
        · rw [List.map_cons, MsgChannel.advance, if_neg fits, List.map_nil, List.nil_append, List.map_cons]
          have later := to_vec_len _ advanced
          have same : { item.toVec with base := item.toVec.base + ret, len := item.toVec.len - ret } =
              toVec { item with offset := item.offset + ret } := by
            rw [width]
            show IoVec.mk item.rawData (item.offset + ret) (item.len - item.offset - ret) = IoVec.mk item.rawData (item.offset + ret) _
            rw [sub32_le _ _ (by dsimp only; omega)]
            congr 1
            dsimp only
            omega
          rw [same]
        · rw [sum, List.drop_append_of_le_length (by omega)]
          show (item.rawData.drop (item.offset + ret)) ++ tails batch = _
          rw [tail, List.drop_drop]

end WriteItemList

namespace MsgChannel

open WriteItem WriteItemList

-- Between two rounds. The limiter is charged for the items that are not fully written.
structure Buffered (maxCapacity : Nat) (s : MsgChannel) : Prop where
  loose : ∀ item ∈ s.writeItemList, item.Loose
  charged : s.wbufLimiter = ⟨maxCapacity, (s.writeItemList.map WriteItem.len).sum⟩

theorem free_bytes_part (maxCapacity maxTotalSize others rest n : Nat) :
    CapacityLimiter.freeBytes ⟨maxCapacity, rest + n⟩ ⟨maxTotalSize, others + (rest + n)⟩ n =
      some (⟨maxCapacity, rest⟩, ⟨maxTotalSize, others + rest⟩) := by
  rw [CapacityLimiter.freeBytes, SharedLimiter.freeBytes]
  by_cases none : n = 0
  · rw [if_neg (not_not_intro none), none]
    rfl
  · rw [if_pos none, asserting, if_pos (Nat.le_add_left n rest), asserting, if_pos (show others + (rest + n) ≥ n by omega)]
    simp only [Option.map_some, Nat.add_sub_cancel, ← Nat.add_assoc]

theorem alike_lens (todo left : WriteItemList) (alike : List.Forall₂ Alike todo left) :
    (left.map WriteItem.len).sum = (todo.map WriteItem.len).sum := by
  induction alike with
  | nil => rfl
  | cons same _ ih => rw [List.map_cons, List.map_cons, List.sum_cons, List.sum_cons, same.len, ih]

-- A round: `ret` bytes of the first items go to the socket.
theorem cleaned_buffered (s : MsgChannel) (maxCapacity maxTotalSize others ret : Nat) (buffered : Buffered maxCapacity s)
    (part : ret ≤ (tails (s.writeItemList.take kBatchNum)).length) :
    ∃ t, s.cleaned ⟨maxTotalSize, others + s.wbufLimiter.currCapacity⟩ (s.writeItemList.getFirstNIterms kBatchNum).1
        (advance ret (s.writeItemList.getFirstNIterms kBatchNum).2) = some (t, ⟨maxTotalSize, others + t.wbufLimiter.currCapacity⟩) ∧
      Buffered maxCapacity t ∧ tails s.writeItemList = (tails (s.writeItemList.take kBatchNum)).take ret ++ tails t.writeItemList ∧
      t.broken = s.broken ∧ t.writable = s.writable := by
  have batchLoose : ∀ item ∈ s.writeItemList.take kBatchNum, item.Loose := fun item member => buffered.loose item (List.mem_of_mem_take member)
  have keptLoose : ∀ item ∈ s.writeItemList.drop kBatchNum, item.Loose := fun item member => buffered.loose item (List.mem_of_mem_drop member)
  obtain ⟨done, todo, left, split, alike, loose, moved, rest⟩ := advance_split _ batchLoose ret part
  have got := get_first_loose s.writeItemList kBatchNum buffered.loose
  have cleans := clean_written (s.writeItemList.drop kBatchNum) done todo left alike loose fun item member => (keptLoose item member).free
  have lens : (s.writeItemList.map WriteItem.len).sum =
      ((left ++ s.writeItemList.drop kBatchNum).map WriteItem.len).sum + (done.map WriteItem.len).sum := by
    have whole : s.writeItemList = done ++ todo ++ s.writeItemList.drop kBatchNum := by rw [← split, List.take_append_drop]
    have sums := congrArg (fun items => (items.map WriteItem.len).sum) whole
    simp only [List.map_append, List.sum_append, alike_lens todo left alike] at sums ⊢
    omega
  refine ⟨{ s with writeItemList := left ++ s.writeItemList.drop kBatchNum,
                   wbufLimiter := ⟨maxCapacity, ((left ++ s.writeItemList.drop kBatchNum).map WriteItem.len).sum⟩ }, ?_, ⟨?_, rfl⟩, ?_, rfl, rfl⟩
  · rw [got]
    dsimp only
    rw [moved, split, cleaned, cleans, Option.bind_some]
    dsimp only
    rw [buffered.charged, lens, free_bytes_part]
    rfl
  · intro item member
    rcases List.mem_append.mp member with back | old
    · exact loose item back
    · exact keptLoose item old
  · show tails s.writeItemList = _ ++ tails (left ++ s.writeItemList.drop kBatchNum)
    have parts : ∀ front back : WriteItemList, tails (front ++ back) = tails front ++ tails back := fun front back => List.flatMap_append ..
    rw [parts, rest, ← List.append_assoc, List.take_append_drop, ← parts, List.take_append_drop]

theorem advance_zero (batch : WriteItemList) (loose : ∀ item ∈ batch, item.Loose) : advance 0 (batch.map toVec) = batch.map toVec := by
  cases batch with
  | nil => rfl
  | cons item rest =>
      have first := loose item List.mem_cons_self
      have width := to_vec_len item first
      have open_ := first.rest
      rw [List.map_cons, advance, if_neg (by omega)]
      rfl

-- What a step sends is what it takes off the front of the buffered bytes.
structure Sends (maxCapacity maxTotalSize others : Nat) (s : MsgChannel) (r : Flushed) : Prop where
  buffered : Buffered maxCapacity r.channel
  shared : r.shared = ⟨maxTotalSize, others + r.channel.wbufLimiter.currCapacity⟩
  front : tails s.writeItemList = r.sent ++ tails r.channel.writeItemList

theorem flush_round_sends (s : MsgChannel) (maxCapacity maxTotalSize others : Nat) (answer : WriteAnswer) (buffered : Buffered maxCapacity s) :
    ∃ r, s.flushRound ⟨maxTotalSize, others + s.wbufLimiter.currCapacity⟩ answer = some r ∧ Sends maxCapacity maxTotalSize others s r := by
  have batchLoose : ∀ item ∈ s.writeItemList.take kBatchNum, item.Loose := fun item member => buffered.loose item (List.mem_of_mem_take member)
  have got := get_first_loose s.writeItemList kBatchNum buffered.loose
  have bytes : gathered (s.writeItemList.getFirstNIterms kBatchNum).2 = tails (s.writeItemList.take kBatchNum) := by
    rw [got]
    exact gathered_tails _ batchLoose
  have still : advance 0 (s.writeItemList.getFirstNIterms kBatchNum).2 = (s.writeItemList.getFirstNIterms kBatchNum).2 := by
    rw [got]
    exact advance_zero _ batchLoose
  obtain ⟨idle, cleansIdle, bufferedIdle, frontIdle, -, -⟩ := cleaned_buffered s maxCapacity maxTotalSize others 0 buffered (Nat.zero_le _)
  rw [still] at cleansIdle
  rw [List.take_zero, List.nil_append] at frontIdle
  rw [flushRound]
  by_cases broken : s.broken = true
  · exact ⟨_, if_pos broken, buffered, rfl, rfl⟩
  · rw [if_neg broken]
    by_cases empty : (s.writeItemList.getFirstNIterms kBatchNum).2 = []
    · exact ⟨_, if_pos empty, buffered, rfl, rfl⟩
    · dsimp only
      rw [if_neg empty]
      cases answer with
      | wrote count =>
          dsimp only
          have part : (tails (s.writeItemList.take kBatchNum)).take ((tails (s.writeItemList.take kBatchNum)).take count).length =
              (tails (s.writeItemList.take kBatchNum)).take count := by
            rw [List.length_take, ← List.take_eq_take_min]
          obtain ⟨t, cleans, after, front, -, -⟩ := cleaned_buffered s maxCapacity maxTotalSize others
            ((tails (s.writeItemList.take kBatchNum)).take count).length buffered (List.length_take_le' ..)
          rw [bytes]
          by_cases some : 0 < ((tails (s.writeItemList.take kBatchNum)).take count).length
          · rw [if_pos some, cleans]
            exact ⟨_, rfl, after, rfl, by rw [front, part]⟩
          · have none : (tails (s.writeItemList.take kBatchNum)).take count = [] := List.length_eq_zero_iff.mp (by omega)
            rw [if_neg some, cleansIdle]
            exact ⟨_, rfl, bufferedIdle, rfl, by rw [frontIdle, none]; rfl⟩
      | interrupted =>
          dsimp only
          rw [cleansIdle]
          exact ⟨_, rfl, bufferedIdle, rfl, frontIdle⟩
      | again =>
          dsimp only
          rw [cleansIdle]
          exact ⟨_, rfl, ⟨bufferedIdle.loose, bufferedIdle.charged⟩, rfl, frontIdle⟩
      | failed =>
          dsimp only
          rw [cleansIdle]
          exact ⟨_, rfl, ⟨bufferedIdle.loose, bufferedIdle.charged⟩, rfl, frontIdle⟩

theorem flush_loop_sends (answers : List WriteAnswer) (s : MsgChannel) (maxCapacity maxTotalSize others : Nat)
    (buffered : Buffered maxCapacity s) :
    ∃ r, flushLoop answers s ⟨maxTotalSize, others + s.wbufLimiter.currCapacity⟩ = some r ∧ Sends maxCapacity maxTotalSize others s r := by
  induction answers generalizing s with
  | nil => exact flush_round_sends s maxCapacity maxTotalSize others .again buffered
  | cons answer later ih =>
      obtain ⟨round, done, sends⟩ := flush_round_sends s maxCapacity maxTotalSize others answer buffered
      rw [flushLoop, done, Option.bind_some]
      by_cases more : round.more = true
      · obtain ⟨rest, goesOn, after⟩ := ih round.channel sends.buffered
        rw [if_pos more, sends.shared, goesOn]
        exact ⟨_, rfl, after.buffered, after.shared, by rw [sends.front, after.front, List.append_assoc]⟩
      · exact ⟨round, if_neg more, sends⟩

theorem serialize_batch_length (batch : List SerializeCallBack) (msgs : List Message) (done : serializeBatch batch = some msgs) :
    (msgs.flatMap serializeMsg).length = (batch.map fun cb => cb.byteSize + kMsgHeaderSize).sum := by
  induction batch generalizing msgs with
  | nil =>
      obtain rfl := Option.some.inj done
      rfl
  | cons cb later ih =>
      obtain ⟨body, serialized, rest⟩ := Option.bind_eq_some_iff.mp done
      obtain ⟨others, after, rfl⟩ := Option.map_eq_some_iff.mp rest
      rw [List.flatMap_cons, List.length_append, ih others after, List.map_cons, List.sum_cons, serializeMsg, List.length_append,
        show (MsgHeader.serializeTo { msgId := cb.msgId, len := wrap32 body.length }).length = kMsgHeaderSize from rfl, cb.fills body serialized]
      omega

-- What Write adds to the buffered bytes are the messages whose buffers it queued.
structure Queues (maxCapacity maxTotalSize others : Nat) (s : MsgChannel) (r : Written) : Prop where
  buffered : Buffered maxCapacity r.channel
  shared : r.shared = ⟨maxTotalSize, others + r.channel.wbufLimiter.currCapacity⟩
  back : tails r.channel.writeItemList = tails s.writeItemList ++ r.queued.flatMap serializeMsg

theorem write_loop_queues (later batch : List SerializeCallBack) (totalSize : Nat) (s : MsgChannel)
    (maxCapacity maxTotalSize others : Nat) (narrow : maxCapacity < 2 ^ 32) (buffered : Buffered maxCapacity s)
    (total : totalSize = (batch.map fun cb => cb.byteSize + kMsgHeaderSize).sum) :
    Queues maxCapacity maxTotalSize others s (writeLoop later batch totalSize s ⟨maxTotalSize, others + s.wbufLimiter.currCapacity⟩) := by
  induction later generalizing batch totalSize s with
  | nil => exact ⟨buffered, rfl, by simp [writeLoop]⟩
  | cons cb later ih =>
      have totalNext : totalSize + (cb.byteSize + kMsgHeaderSize) = ((batch ++ [cb]).map fun cb => cb.byteSize + kMsgHeaderSize).sum := by
        rw [List.map_append, List.sum_append, total]
        simp
      rw [writeLoop]
      dsimp only
      generalize totalSize + (cb.byteSize + kMsgHeaderSize) = sum at totalNext ⊢
      by_cases waits : later ≠ [] ∧ sum < kMaxBatchSize
      · rw [if_pos waits]
        exact ih (batch ++ [cb]) sum s buffered totalNext
      · rw [if_neg waits]
        cases serialized : serializeBatch (batch ++ [cb]) with
        | none => exact ⟨buffered, rfl, by simp⟩
        | some msgs =>
            dsimp only
            have length := (serialize_batch_length _ msgs serialized).trans totalNext.symm
            rw [buffered.charged, CapacityLimiter.allocBytes, SharedLimiter.allocBytes]
            dsimp only
            generalize used : (s.writeItemList.map WriteItem.len).sum = use at *
            by_cases full : use + sum > maxCapacity
            · rw [if_pos full]
              dsimp only
              rw [if_neg Bool.false_ne_true]
              exact ⟨⟨buffered.loose, by rw [used]⟩, rfl, by simp⟩
            · rw [if_neg full]
              by_cases crowded : others + use + sum > maxTotalSize
              · rw [if_pos crowded]
                dsimp only
                rw [if_neg Bool.false_ne_true, if_neg Bool.false_ne_true]
                exact ⟨⟨buffered.loose, by rw [used]⟩, rfl, by simp⟩
              · rw [if_neg crowded]
                dsimp only
                rw [if_pos rfl, if_pos rfl]
                have positive : 0 < sum := by
                  rw [totalNext, List.map_append, List.sum_append]
                  simp only [List.map_cons, List.map_nil, List.sum_cons, List.sum_nil, kMsgHeaderSize]
                  omega
                have exact32 : wrap32 sum = sum := wrap32_small _ (by omega)
                have queued : Buffered maxCapacity { s with
                    wbufLimiter := ⟨maxCapacity, use + sum⟩
                    writeItemList := s.writeItemList.addWriteItem (msgs.flatMap serializeMsg) sum } := by
                  constructor
                  · intro item member
                    rcases List.mem_append.mp member with old | new
                    · exact buffered.loose item old
                    · rw [List.mem_singleton.mp new]
                      exact ⟨rfl, by dsimp only; rw [exact32, length], by dsimp only; omega⟩
                  · simp only [addWriteItem, List.map_append, List.sum_append, used, List.map_cons, List.map_nil, List.sum_cons, List.sum_nil,
                      exact32, Nat.add_zero]
                obtain ⟨after, shared, back⟩ := ih [] 0 _ queued rfl
                dsimp only at after shared back
                rw [← Nat.add_assoc] at after shared back
                refine ⟨after, shared, ?_⟩
                dsimp only
                rw [back, addWriteItem, tails, tails, List.flatMap_append, List.flatMap_append, List.append_assoc]
                simp [tail]

-- What the callers of a channel do, the other channels using `others` bytes of the
-- shared limiter. FlushBuffer is called when the poller has found the fd writable.
inductive WriteCall where
  | write (callbacks : List SerializeCallBack) (others : Nat)
  | flushBuffer (answers : List WriteAnswer) (others : Nat)

structure Sending where
  channel : MsgChannel
  sent : Codec.Bytes := []
  queued : List Message := []

def writeNext (maxTotalSize : Nat) (st : Sending) : WriteCall → Option Sending
  | .write callbacks others =>
      let written := st.channel.write ⟨maxTotalSize, others + st.channel.wbufLimiter.currCapacity⟩ callbacks
      some { st with channel := written.channel, queued := st.queued ++ written.queued }
  | .flushBuffer answers others =>
      (flushBuffer { st.channel with writable := true } ⟨maxTotalSize, others + st.channel.wbufLimiter.currCapacity⟩ answers).map fun flushed =>
        { st with channel := flushed.channel, sent := st.sent ++ flushed.sent }

def runWrites (maxTotalSize : Nat) : Sending → List WriteCall → Option Sending
  | st, [] => some st
  | st, next :: later => (writeNext maxTotalSize st next).bind fun after => runWrites maxTotalSize after later

structure InOrder (maxCapacity : Nat) (st : Sending) : Prop where
  buffered : Buffered maxCapacity st.channel
  stream : st.queued.flatMap serializeMsg = st.sent ++ tails st.channel.writeItemList

theorem write_next_in_order (maxCapacity maxTotalSize : Nat) (narrow : maxCapacity < 2 ^ 32) (st : Sending) (next : WriteCall)
    (inOrder : InOrder maxCapacity st) : ∃ after, writeNext maxTotalSize st next = some after ∧ InOrder maxCapacity after := by
  cases next with
  | write callbacks others =>
      obtain ⟨buffered, -, back⟩ := write_loop_queues callbacks [] 0 st.channel maxCapacity maxTotalSize others narrow inOrder.buffered rfl
      refine ⟨_, rfl, buffered, ?_⟩
      show (st.queued ++ _).flatMap serializeMsg = st.sent ++ _
      rw [List.flatMap_append, inOrder.stream, List.append_assoc]
      exact congrArg (st.sent ++ ·) back.symm
  | flushBuffer answers others =>
      have ready : Buffered maxCapacity { st.channel with writable := true } := ⟨inOrder.buffered.loose, inOrder.buffered.charged⟩
      obtain ⟨r, done, sends⟩ := flush_loop_sends answers { st.channel with writable := true } maxCapacity maxTotalSize others ready
      rw [writeNext, flushBuffer]
      by_cases broken : st.channel.broken = true
      · rw [if_pos broken]
        exact ⟨_, rfl, ready, by dsimp only; rw [List.append_nil]; exact inOrder.stream⟩
      · rw [if_neg broken, asserting, if_pos rfl, done]
        refine ⟨_, rfl, sends.buffered, ?_⟩
        dsimp only
        rw [inOrder.stream, List.append_assoc]
        exact congrArg (st.sent ++ ·) sends.front

theorem run_writes_in_order (maxCapacity maxTotalSize : Nat) (narrow : maxCapacity < 2 ^ 32) (calls : List WriteCall) (st : Sending)
    (inOrder : InOrder maxCapacity st) : ∃ after, runWrites maxTotalSize st calls = some after ∧ InOrder maxCapacity after := by
  induction calls generalizing st with
  | nil => exact ⟨st, rfl, inOrder⟩
  | cons next later ih =>
      obtain ⟨after, step, keeps⟩ := write_next_in_order maxCapacity maxTotalSize narrow st next inOrder
      obtain ⟨final, rest, done⟩ := ih after keeps
      exact ⟨final, by rw [runWrites, step]; exact rest, done⟩

-- Whatever the callers do and the socket takes: every call returns, the bytes sent and
-- those still buffered are the queued messages in order, the limiter is charged for
-- the buffered items, of which each has bytes left, and the channel can be destroyed.
theorem writes_in_order (maxTotalSize : Nat) (calls : List WriteCall) :
    ∃ st, runWrites maxTotalSize { channel := opened kMaxBufferSize } calls = some st ∧
      (∃ rest, st.queued.flatMap serializeMsg = st.sent ++ rest ∧ rest = tails st.channel.writeItemList) ∧
      st.channel.wbufLimiter.currCapacity = (st.channel.writeItemList.map WriteItem.len).sum ∧
      (∀ item ∈ st.channel.writeItemList, item.rawData.length = item.len ∧ item.offset < item.len) ∧
      ∀ others, (st.channel.destroy ⟨maxTotalSize, others + st.channel.wbufLimiter.currCapacity⟩).isSome = true := by
  have start : InOrder kMaxBufferSize { channel := opened kMaxBufferSize } := ⟨⟨fun item member => (by cases member), rfl⟩, rfl⟩
  obtain ⟨st, ran, buffered, stream⟩ := run_writes_in_order kMaxBufferSize maxTotalSize (by decide) calls _ start
  refine ⟨st, ran, ⟨_, stream, rfl⟩, by rw [buffered.charged], fun item member => ?_, fun others => ?_⟩
  · exact ⟨(buffered.loose item member).filled, (buffered.loose item member).rest⟩
  · have freed := free_bytes_part kMaxBufferSize maxTotalSize others 0 (st.channel.writeItemList.map WriteItem.len).sum
    rw [Nat.zero_add] at freed
    rw [destroy, freeAllWriteItems, buffered.charged, freed]
    rfl

end MsgChannel

end PaxosStore.Certain
