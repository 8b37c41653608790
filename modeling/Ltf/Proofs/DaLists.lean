import Ltf.Base.Steps
import Ltf.Da

/-! What an array of `da.c` is for: the calls on it are those on a list. -/

namespace Ltf.Proofs.DaLists
open Da Steps

/-- The size is within the capacity, and for the capacity there are bytes enough in the
block, as many as can be counted. -/
structure Sound (da : DaT) : Prop where
  sized : 0 < da.elemSize
  fits : da.size ≤ da.capacity
  counted : da.capacity * da.elemSize < sizeLimit
  owned : da.capacity * da.elemSize ≤ (da.data.getD []).length

section Memory
variable {da : DaT} {memory : Memory} {n : Nat}

/-- The C library finds that many bytes, which no `size_t` counts from `sizeLimit` on. -/
def Granted (memory : Memory) (bytes : Nat) : Prop := bytes < sizeLimit ∧ memory.block.isSome

/-- The bytes that the block must have for `n` elements, if it is not large enough. -/
def room (da : DaT) (n : Nat) : Option Nat := if n ≤ da.capacity then none else some (n * da.elemSize)

/-- The size of the block that a call has to allocate, if any. -/
def needed (da : Option DaT) : Call → Option Nat
  | .init initCapacity elemSize => if initCapacity = 0 then none else some (initCapacity * elemSize)
  | .resize newSize => da.bind fun da => if newSize ≤ da.size then none else room da newSize
  | .on (.append (some _)) => da.bind fun da =>
    if da.size < da.capacity then none else room da (max 1 (da.capacity * 2))
  | .on (.reserve minCapacity) => da.bind (room · minCapacity)
  | .on _ => none

/-- Whatever the call has to allocate is allocated. -/
structure Supplied (da : Option DaT) (action : Action) : Prop where
  struct : ∀ initCapacity elemSize, action.2 = .init initCapacity elemSize → action.1.calloc = true
  block : ∀ bytes, needed da action.2 = some bytes → Granted action.1 bytes

theorem Sound.bound (sound : Sound da) (less : n ≤ da.capacity) : n * da.elemSize < sizeLimit :=
  Nat.lt_of_le_of_lt (Nat.mul_le_mul_right _ less) sound.counted

theorem Sound.capacity_lt (sound : Sound da) : da.capacity < sizeLimit :=
  Nat.lt_of_le_of_lt (Nat.le_mul_of_pos_right _ sound.sized) sound.counted

theorem sizeT_eq (small : n < sizeLimit) : sizeT n = n := Nat.mod_eq_of_lt small

/-- The check of `da_reserve` finds exactly the products that wrap around. -/
theorem overflows (sized : 0 < da.elemSize) :
    (da.elemSize ≠ 0 ∧ (sizeLimit - 1) / da.elemSize < n) ↔ sizeLimit ≤ n * da.elemSize := by
  rw [Nat.div_lt_iff_lt_mul sized]
  have positive : 0 < sizeLimit := Nat.zero_lt_succ _
  omega

theorem reserve_enough (less : n ≤ da.capacity) : reserve memory da n = (da, true) := if_pos less

theorem reserve_granted (sized : 0 < da.elemSize) (more : da.capacity < n) (granted : Granted memory (n * da.elemSize)) :
    ∃ fresh, reserve memory da n =
      ({ da with data := some (Blocks.resize (da.data.getD []) (n * da.elemSize) fresh), capacity := n }, true) := by
  obtain ⟨small, found⟩ := granted
  obtain ⟨fresh, found⟩ := Option.isSome_iff_exists.mp found
  refine ⟨fresh, ?_⟩
  rw [reserve, if_neg (by omega), if_neg (mt (overflows sized).mp (by omega)), realloc, found, sizeT_eq small]
  rfl

theorem reserve_refused (sized : 0 < da.elemSize) (more : da.capacity < n)
    (refused : ¬ Granted memory (n * da.elemSize)) : reserve memory da n = (da, false) := by
  rw [reserve, if_neg (by omega)]
  split
  · rfl
  next small =>
    rw [overflows sized] at small
    have missing : memory.block = none := by
      rw [← Option.not_isSome_iff_eq_none]
      exact fun found => refused ⟨by omega, found⟩
    rw [realloc, missing]
    rfl

theorem supplied_room : (∀ bytes, room da n = some bytes → Granted memory bytes) ↔
    n ≤ da.capacity ∨ Granted memory (n * da.elemSize) := by
  unfold room
  split
  next enough => simp [enough]
  next more => simp [more]

/-- A call that makes no array needs no more than its block. -/
theorem supplied_block {pointer : Option DaT} {call : Call}
    (other : ∀ initCapacity elemSize, call ≠ .init initCapacity elemSize) : Supplied pointer (memory, call) ↔
      ∀ bytes, needed pointer call = some bytes → Granted memory bytes :=
  ⟨Supplied.block, fun block => ⟨fun initCapacity elemSize same => absurd same (other initCapacity elemSize), block⟩⟩

theorem supplied_reserve : Supplied da (memory, .on (.reserve n)) ↔
    n ≤ da.capacity ∨ Granted memory (n * da.elemSize) := by
  rw [supplied_block (by simp), ← supplied_room]
  rfl

theorem supplied_append {elem : Pointee} : Supplied da (memory, .on (.append (some elem))) ↔
    da.size < da.capacity ∨ Granted memory (max 1 (da.capacity * 2) * da.elemSize) := by
  have more : ¬ max 1 (da.capacity * 2) ≤ da.capacity := by omega
  rw [supplied_block (by simp)]
  simp only [needed, Option.bind_some]
  split
  next spare => simp [spare]
  next full => rw [supplied_room, or_iff_right more, or_iff_right full]

theorem supplied_init {pointer : Option DaT} {capacity e : Nat} : Supplied pointer (memory, .init capacity e) ↔
    memory.calloc = true ∧ (capacity = 0 ∨ Granted memory (capacity * e)) := by
  have block : (∀ bytes, needed pointer (.init capacity e) = some bytes → Granted memory bytes) ↔
      capacity = 0 ∨ Granted memory (capacity * e) := by
    simp only [needed]
    split
    next none => simp [none]
    next some => simp [some]
  rw [← block]
  exact ⟨fun supplied => ⟨supplied.struct capacity e rfl, supplied.block⟩, fun both => ⟨fun _ _ _ => both.1, both.2⟩⟩

theorem newCap_eq (small : da.capacity * 2 < sizeLimit) : newCap da = max 1 (da.capacity * 2) := by
  unfold newCap
  rw [sizeT_eq small]
  split <;> omega

theorem grow_granted (sound : Sound da) (full : ¬ da.size < da.capacity)
    (granted : Granted memory (max 1 (da.capacity * 2) * da.elemSize)) :
    daGrowForOne memory da = reserve memory da (max 1 (da.capacity * 2)) := by
  have least := Nat.le_mul_of_pos_right (max 1 (da.capacity * 2)) sound.sized
  have small := granted.1
  have doubled := @newCap_eq da (by omega)
  rw [daGrowForOne, if_neg full, doubled, if_neg (by omega)]

theorem grow_refused (sound : Sound da) (full : ¬ da.size < da.capacity)
    (refused : ¬ Granted memory (max 1 (da.capacity * 2) * da.elemSize)) : daGrowForOne memory da = (da, false) := by
  rw [daGrowForOne, if_neg full]
  split
  · rfl
  next unwrapped =>
    by_cases small : da.capacity * 2 < sizeLimit
    · rw [newCap_eq small, reserve_refused sound.sized (by omega) refused]
    · have capacity := sound.capacity_lt
      exfalso
      unfold newCap sizeT at unwrapped
      split at unwrapped
      · rw [Nat.mod_eq_sub_mod (by omega), Nat.mod_eq_of_lt (by omega)] at unwrapped
        omega
      · omega

end Memory

section Refinement
variable {e : Nat} {da : DaT} {xs : List (Vector UInt8 e)} {memory : Memory}

/-- The elements are the first ones in the block, in their order. -/
structure Represents (da : DaT) (xs : List (Vector UInt8 e)) : Prop extends Sound da where
  width : da.elemSize = e
  length : da.size = xs.length
  holds : Blocks.Holds (da.data.getD []) xs

/-- The `e` bytes of an element that a pointer points to. -/
def element (e : Nat) (elem : Pointee) : Vector UInt8 e := Vector.ofFn fun i => elem i

theorem element_toList (e : Nat) (elem : Pointee) : (List.range e).map elem = (element e elem).toList := by
  apply List.ext_getElem <;> simp [element]

namespace Represents

/-- A part of the array that is rewritten. -/
theorem updated {data : Option (List UInt8)} {n : Nat} {ys : List (Vector UInt8 e)} (same : Represents da xs)
    (owned : da.capacity * e ≤ (data.getD []).length) (fits : n ≤ da.capacity) (length : n = ys.length)
    (holds : Blocks.Holds (data.getD []) ys) : Represents { da with data, size := n } ys where
  sized := same.sized
  fits := fits
  counted := same.counted
  owned := by
    rw [same.width]
    exact owned
  width := same.width
  length := length
  holds := holds

theorem reserved {n : Nat} (same : Represents da xs) (more : da.capacity < n)
    (granted : Granted memory (n * da.elemSize)) : ∃ after, reserve memory da n = (after, true) ∧
      Represents after xs ∧ after.size = da.size ∧ after.capacity = n := by
  obtain ⟨fresh, ran⟩ := reserve_granted same.sized more granted
  have fits := same.fits
  have less : xs.length * e ≤ n * da.elemSize := by
    rw [← same.length, same.width]
    exact Nat.mul_le_mul_right e (by omega)
  refine ⟨_, ran, ⟨⟨same.sized, ?_, granted.1, ?_⟩, same.width, same.length, same.holds.resize less fresh⟩, rfl, rfl⟩
  · exact Nat.le_trans fits (Nat.le_of_lt more)
  · exact Nat.le_of_eq (Blocks.length_resize _ _ _).symm

/-- The block is there, unless nothing fits into it. -/
theorem block (same : Represents da xs) (some : 0 < da.capacity) : ∃ block, da.data = .some block ∧
    da.capacity * e ≤ block.length ∧ Blocks.Holds block xs := by
  have owned := same.owned
  have holds := same.holds
  have positive := Nat.mul_pos some same.sized
  rw [same.width] at owned positive
  cases data : da.data with
  | none =>
    rw [data] at owned
    exact absurd owned (Nat.not_le.mpr positive)
  | some block =>
    rw [data] at owned holds
    exact ⟨block, rfl, owned, holds⟩

/-- Elements that are counted from the start of the block have their places in it. -/
theorem place {n : Nat} (same : Represents da xs) (less : n ≤ da.capacity) : sizeT (n * da.elemSize) = n * e := by
  rw [sizeT_eq (same.bound less), same.width]

theorem pushed (same : Represents da xs) (spare : da.size < da.capacity) (elem : Pointee) : ∃ data,
    memcpyTo da.data (sizeT (da.size * da.elemSize)) elem da.elemSize = .ok data ∧
      Represents { da with data := some data, size := sizeT (da.size + 1) } (xs ++ [element e elem]) := by
  obtain ⟨block, here, owned, holds⟩ := same.block (by omega)
  have within : (xs.length + 1) * e ≤ block.length := by
    rw [← same.length]
    exact Nat.le_trans (Nat.mul_le_mul_right e spare) owned
  obtain ⟨after, written, length, holds⟩ := holds.append within (element e elem)
  have small := same.capacity_lt
  refine ⟨after, ?_, ?_⟩
  · rw [memcpyTo, same.place same.fits, same.width, element_toList, here, Option.bind_some, same.length, written]
    rfl
  · rw [sizeT_eq (by omega)]
    exact same.updated (length ▸ owned) spare (by simp [same.length]) holds

theorem replaced {index : Nat} (same : Represents da xs) (inside : index < da.size) (elem : Pointee) : ∃ data,
    memcpyTo da.data (sizeT (index * da.elemSize)) elem da.elemSize = .ok data ∧
      Represents { da with data := some data } (xs.set index (element e elem)) := by
  have fits := same.fits
  obtain ⟨block, here, owned, holds⟩ := same.block (by omega)
  obtain ⟨after, written, length, holds⟩ := holds.set (same.length ▸ inside) (element e elem)
  refine ⟨after, ?_, same.updated (length ▸ owned) fits (by simp [same.length]) holds⟩
  rw [memcpyTo, same.place (by omega), same.width, element_toList, here, Option.bind_some, written]
  rfl

theorem found {index : Nat} (same : Represents da xs) (inside : index < da.size) : ∃ elem, xs[index]? = some elem ∧
    memcpyFrom da.data (sizeT (index * da.elemSize)) da.elemSize = .ok elem.toList := by
  have fits := same.fits
  obtain ⟨block, here, owned, holds⟩ := same.block (by omega)
  have within := List.getElem?_eq_getElem (same.length ▸ inside)
  refine ⟨_, within, ?_⟩
  rw [memcpyFrom, same.place (by omega), same.width, here, Option.bind_some, holds.read within]
  rfl

theorem closed {index : Nat} (same : Represents da xs) (inside : index < da.size) : ∃ after,
    closeGap da index = .ok after ∧ Represents after (xs.eraseIdx index) := by
  have fits := same.fits
  have length := same.length
  obtain ⟨block, here, owned, holds⟩ := same.block (by omega)
  have shorter : da.size - 1 = (xs.eraseIdx index).length := by
    rw [List.length_eraseIdx_of_lt (by omega), length]
  unfold closeGap
  split
  next before =>
    obtain ⟨after, moved, same', holds⟩ := holds.erase (same.length ▸ inside)
    have kept : Represents { da with data := some after, size := da.size - 1 } (xs.eraseIdx index) :=
      same.updated (same' ▸ owned) (by omega) shorter holds
    refine ⟨_, ?_, kept⟩
    rw [memmove, same.place (by omega), same.place (by omega), same.place (by omega), length, here, Option.bind_some,
      moved]
    rfl
  next last =>
    have owned := same.owned
    rw [same.width] at owned
    exact ⟨_, rfl, same.updated owned (by omega) shorter (same.holds.eraseLast (by omega))⟩

theorem grown {elem : Pointee} (same : Represents da xs) (supplied : Supplied da (memory, .on (.append (some elem)))) :
    ∃ after, daGrowForOne memory da = (after, true) ∧ Represents after xs ∧ after.size < after.capacity := by
  rw [supplied_append] at supplied
  by_cases spare : da.size < da.capacity
  · exact ⟨da, if_pos spare, same, spare⟩
  · have granted := supplied.resolve_left spare
    have fits := same.fits
    obtain ⟨after, ran, same', size, capacity⟩ := same.reserved (by omega) granted
    rw [grow_granted same.toSound spare granted]
    exact ⟨after, ran, same', by omega⟩

end Represents

theorem Sound.full {elem : Pointee} (sound : Sound da) (refused : ¬ Supplied da (memory, .on (.append (some elem)))) :
    daGrowForOne memory da = (da, false) := by
  rw [supplied_append, not_or] at refused
  exact grow_refused sound refused.1 refused.2

theorem Sound.represents (sound : Sound da) : ∃ xs : List (Vector UInt8 da.elemSize), Represents da xs := by
  have stored : da.size * da.elemSize ≤ (da.data.getD []).length :=
    Nat.le_trans (Nat.mul_le_mul_right _ sound.fits) sound.owned
  obtain ⟨xs, length, holds⟩ := Blocks.exists_holds stored
  exact ⟨xs, sound, rfl, length.symm, holds⟩

/-- What the operations are for. -/
def listOperate (xs : List (Vector UInt8 e)) : Operation → List (Vector UInt8 e) × Answer
  | .append (some elem) => (xs ++ [element e elem], .flag true)
  | .append none => (xs, .flag false)
  | .get index => (xs, .element (xs[index]?.map Vector.toList))
  | .set index (some elem) => (xs.set index (element e elem), .flag (index < xs.length))
  | .set _ none => (xs, .flag false)
  | .pop index true => (xs.eraseIdx index, .element (xs[index]?.map Vector.toList))
  | .pop _ false => (xs, .element none)
  | .remove index => (xs.eraseIdx index, .flag (index < xs.length))
  | .clear => ([], .void)
  | .reserve _ => (xs, .flag true)

/-- The code does the same to the bytes, and no copy leaves the block. -/
theorem operate_represents (same : Represents da xs) {operation : Operation}
    (supplied : Supplied da (memory, .on operation)) : ∃ after,
      operate memory da operation = .ok (some after, (listOperate xs operation).2) ∧
        Represents after (listOperate xs operation).1 := by
  have length := same.length
  cases operation with
  | append elem =>
    cases elem with
    | none => exact ⟨da, rfl, same⟩
    | some elem =>
      obtain ⟨grown, ran, same, spare⟩ := same.grown supplied
      obtain ⟨data, copied, same⟩ := same.pushed spare elem
      refine ⟨_, ?_, same⟩
      simp only [operate, daAppend, ran, copied]
      rfl
  | get index =>
    refine ⟨da, ?_, same⟩
    by_cases inside : index < da.size
    · obtain ⟨elem, there, copied⟩ := same.found inside
      simp only [operate, daGet, if_neg (Nat.not_le.mpr inside), copied, listOperate, there]
      rfl
    · have missing : xs[index]? = none := List.getElem?_eq_none (by omega)
      simp only [operate, daGet, if_pos (Nat.not_lt.mp inside), listOperate, missing]
      rfl
  | set index elem =>
    cases elem with
    | none => exact ⟨da, rfl, same⟩
    | some elem =>
      by_cases inside : index < da.size
      · obtain ⟨data, copied, same⟩ := same.replaced inside elem
        refine ⟨_, ?_, same⟩
        simp only [operate, daSet, if_neg (Nat.not_le.mpr inside), copied, listOperate, ← length, inside]
        rfl
      · refine ⟨da, ?_, ?_⟩
        · simp only [operate, daSet, if_pos (Nat.not_lt.mp inside), listOperate, ← length, inside]
          rfl
        · rw [listOperate, List.set_eq_of_length_le (by omega)]
          exact same
  | pop index out =>
    cases out with
    | false =>
      refine ⟨da, ?_, same⟩
      simp only [operate, daPop, or_true, if_pos, listOperate]
      rfl
    | true =>
      by_cases inside : index < da.size
      · obtain ⟨elem, there, copied⟩ := same.found inside
        obtain ⟨after, closes, same⟩ := same.closed inside
        refine ⟨after, ?_, same⟩
        simp only [operate, daPop, Nat.not_le.mpr inside, Bool.true_eq_false, or_self, if_false, copied, closes,
          listOperate, there]
        rfl
      · have missing : xs[index]? = none := List.getElem?_eq_none (by omega)
        refine ⟨da, ?_, ?_⟩
        · simp only [operate, daPop, Nat.not_lt.mp inside, true_or, if_pos, listOperate, missing]
          rfl
        · rw [listOperate, List.eraseIdx_of_length_le (by omega)]
          exact same
  | remove index =>
    by_cases inside : index < da.size
    · obtain ⟨after, closes, same⟩ := same.closed inside
      refine ⟨after, ?_, same⟩
      simp only [operate, daRemove, if_neg (Nat.not_le.mpr inside), closes, listOperate, ← length, inside]
      rfl
    · refine ⟨da, ?_, ?_⟩
      · simp only [operate, daRemove, if_pos (Nat.not_lt.mp inside), listOperate, ← length, inside]
        rfl
      · rw [listOperate, List.eraseIdx_of_length_le (by omega)]
        exact same
  | clear =>
    have owned := same.owned
    rw [same.width] at owned
    exact ⟨_, rfl, same.updated owned (Nat.zero_le _) rfl (.nil _)⟩
  | reserve minCapacity =>
    by_cases enough : minCapacity ≤ da.capacity
    · refine ⟨da, ?_, same⟩
      simp only [operate, daReserve, reserve_enough enough, listOperate]
      rfl
    · obtain ⟨after, ran, same, -, -⟩ :=
        same.reserved (Nat.not_le.mp enough) ((supplied_reserve.mp supplied).resolve_left enough)
      refine ⟨after, ?_, same⟩
      simp only [operate, daReserve, ran, listOperate]
      rfl

theorem operate_refused (sound : Sound da) {operation : Operation} (refused : ¬ Supplied da (memory, .on operation)) :
    operate memory da operation = .ok (some da, .flag false) := by
  cases operation with
  | append elem =>
    cases elem with
    | none => exact absurd ⟨nofun, nofun⟩ refused
    | some elem =>
      simp only [operate, daAppend, sound.full refused]
      rfl
  | reserve minCapacity =>
    rw [supplied_reserve, not_or] at refused
    simp only [operate, daReserve, reserve_refused sound.sized (Nat.not_le.mp refused.1) refused.2]
    rfl
  | _ => exact absurd ⟨nofun, nofun⟩ refused

end Refinement

section Run
variable {e capacity : Nat}

def listStep (state : List (Vector UInt8 e) × List Answer) (operation : Operation) :
    List (Vector UInt8 e) × List Answer :=
  ((listOperate state.1 operation).1, state.2 ++ [(listOperate state.1 operation).2])

/-- A program that makes an array and then operates on it. -/
def actions (e capacity : Nat) (memory : Memory) (operations : List (Memory × Operation)) : List Action :=
  (memory, .init capacity e) :: operations.map fun operation => (operation.1, .on operation.2)

theorem init_represents {memory : Memory} (positive : 1 ≤ e) (supplied : Supplied none (memory, .init capacity e)) :
    ∃ da, daInit memory capacity e = some da ∧ Represents da ([] : List (Vector UInt8 e)) := by
  obtain ⟨struct, block⟩ := supplied_init.mp supplied
  unfold daInit
  rw [if_neg (by omega), struct, if_neg (by simp)]
  split
  next none =>
    refine ⟨_, rfl, ⟨positive, ?_, ?_, ?_⟩, rfl, rfl, .nil _⟩ <;> simp [none, sizeLimit]
  next some =>
    obtain ⟨small, found⟩ := block.resolve_left some
    obtain ⟨fresh, found⟩ := Option.isSome_iff_exists.mp found
    rw [malloc, found, sizeT_eq small]
    exact ⟨_, rfl, ⟨positive, Nat.zero_le _, small, by simp⟩, rfl, rfl, .nil _⟩

theorem operations_represent {da : DaT} {xs : List (Vector UInt8 e)} {answers : List Answer} (same : Represents da xs)
    {operations : List (Memory × Operation)} (supplied : AtEach step (fun state => Supplied state.1) (some da, answers)
      (operations.map fun operation => (operation.1, .on operation.2))) :
    ∃ after, (operations.map fun operation => (operation.1, .on operation.2)).foldlM step (some da, answers) =
        .ok (some after, ((operations.map Prod.snd).foldl listStep (xs, answers)).2) ∧
      Represents after ((operations.map Prod.snd).foldl listStep (xs, answers)).1 := by
  induction operations generalizing da xs answers with
  | nil => exact ⟨da, rfl, same⟩
  | cons operation operations ih =>
    rw [List.map_cons, AtEach.cons] at supplied
    obtain ⟨first, rest⟩ := supplied
    obtain ⟨next, ran, same⟩ := operate_represents same first
    have taken : step (some da, answers) (operation.1, .on operation.2) =
        .ok (some next, answers ++ [(listOperate xs operation.2).2]) := by
      simp only [step, call, ran]
      rfl
    obtain ⟨after, ran, same⟩ := ih same (rest _ taken)
    refine ⟨after, ?_, same⟩
    rw [List.map_cons, List.foldlM_cons, bind_of_ok taken, ran]
    rfl

/-- As long as there is memory, the array is the list after any operations and the answers
are those of the list. -/
theorem run_represents {memory : Memory} (positive : 1 ≤ e) {operations : List (Memory × Operation)}
    (supplied : AtEach step (fun state => Supplied state.1) (none, []) (actions e capacity memory operations)) :
    ∃ da, run (actions e capacity memory operations) =
        .ok (some da, ((operations.map Prod.snd).foldl (@listStep e) ([], [.flag true])).2) ∧
      Represents da ((operations.map Prod.snd).foldl (@listStep e) ([], [.flag true])).1 := by
  rw [actions, AtEach.cons] at supplied
  obtain ⟨first, rest⟩ := supplied
  obtain ⟨da, made, same⟩ := init_represents positive first
  have taken : step (none, []) (memory, .init capacity e) = .ok (some da, [.flag true]) := by
    simp only [step, call, made]
    rfl
  rw [run, actions, List.foldlM_cons, bind_of_ok taken]
  exact operations_represent same (rest _ taken)

/-- Elements of two bytes in a block for one of them, which grows, and one taken out again. -/
theorem run_pairs : ∃ da, run (actions 2 1 ⟨true, some fun _ => 0⟩
      [(⟨true, none⟩, .append (some fun _ => 7)), (⟨true, some fun _ => 0⟩, .append (some fun _ => 8)),
        (⟨true, none⟩, .pop 0 true)]) =
    .ok (some da, [.flag true, .flag true, .flag true, .element (some [7, 7])]) ∧
      Represents da [element 2 fun _ => 8] := by
  apply run_represents (by omega)
  refine AtEach.cons.mpr ⟨⟨fun _ _ _ => rfl, ?_⟩, ?_⟩
  · intro bytes asked
    cases asked
    exact ⟨by decide, rfl⟩
  · intro made taken
    cases Except.ok.inj taken
    refine AtEach.cons.mpr ⟨supplied_append.mpr (.inl (by decide)), ?_⟩
    intro full taken
    cases Except.ok.inj taken
    refine AtEach.cons.mpr ⟨supplied_append.mpr (.inr ⟨by decide, rfl⟩), ?_⟩
    intro pair taken
    cases Except.ok.inj taken
    exact AtEach.cons.mpr ⟨⟨nofun, nofun⟩, fun _ _ => .nil⟩

end Run

end Ltf.Proofs.DaLists
