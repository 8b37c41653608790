import Mathlib.Data.List.Basic

/-! A block of memory, whose entries are read and written only where it has some, and
elements of one size in it, each next to the one before. -/

namespace Blocks

universe u
variable {α : Type u}

section Access

/-- The `n` entries from `offset` on. -/
def read (block : List α) (offset n : Nat) : Option (List α) :=
  if offset + n ≤ block.length then some ((block.drop offset).take n) else none

def write (block : List α) (offset : Nat) (entries : List α) : Option (List α) :=
  if offset + entries.length ≤ block.length then
    some (block.take offset ++ (entries ++ block.drop (offset + entries.length)))
  else none

/-- All entries are read before any of them is written: the two places may overlap. -/
def move (block : List α) (target source n : Nat) : Option (List α) := (read block source n).bind (write block target)

/-- A block of `n` entries with those of another one, as far as there are any. -/
def resize (block : List α) (n : Nat) (fresh : Nat → α) : List α := (List.range n).map fun i => (block[i]?).getD (fresh i)

theorem read_middle (before entries after : List α) :
    read (before ++ (entries ++ after)) before.length entries.length = some entries := by
  unfold read
  rw [if_pos (by simp), List.drop_left, List.take_left]

theorem write_middle {before old entries after : List α} (same : entries.length = old.length) :
    write (before ++ (old ++ after)) before.length entries = some (before ++ (entries ++ after)) := by
  unfold write
  rw [if_pos (by simp; omega), List.take_left, same, ← List.drop_drop, List.drop_left, List.drop_left]

/-- Entries that are moved down over the ones that stood before them. -/
theorem move_down (before gap entries after : List α) : ∃ spare,
    move (before ++ (gap ++ (entries ++ after))) before.length (before.length + gap.length) entries.length =
      some (before ++ (entries ++ (spare ++ after))) ∧ spare.length = gap.length := by
  refine ⟨(gap ++ entries).drop entries.length, ?_, by simp⟩
  have found := read_middle (before ++ gap) entries after
  rw [List.append_assoc, List.length_append] at found
  have written : write (before ++ ((gap ++ entries).take entries.length ++
      ((gap ++ entries).drop entries.length ++ after))) before.length entries =
      some (before ++ (entries ++ ((gap ++ entries).drop entries.length ++ after))) :=
    write_middle (by simp)
  rw [← List.append_assoc (List.take _ _), List.take_append_drop, List.append_assoc] at written
  rw [move, found, Option.bind_some, written]

theorem write_one {block : List α} {i : Nat} (inside : i < block.length) (entry : α) :
    write block i [entry] = some (block.set i entry) := by
  unfold write
  rw [List.length_singleton, if_pos (Nat.succ_le_of_lt inside), List.set_eq_take_append_cons_drop, if_pos inside]
  rfl

theorem write_room {block after entries : List α} {offset : Nat} (written : write block offset entries = some after) :
    offset + entries.length ≤ block.length ∧ after.length = block.length := by
  unfold write at written
  split at written
  next room =>
    injection written with same
    refine ⟨room, ?_⟩
    rw [← same, List.length_append, List.length_append, List.length_take, List.length_drop]
    omega
  · cases written

/-- Entries behind those that a block begins with. -/
theorem write_behind {part block : List α} (begins : part <+: block) (entries : List α)
    (room : part.length + entries.length ≤ block.length) :
    ∃ after, write block part.length entries = some after ∧ after.length = block.length ∧ part ++ entries <+: after := by
  obtain ⟨spare, rfl⟩ := begins
  rw [List.length_append] at room
  have written : write (part ++ (spare.take entries.length ++ spare.drop entries.length)) part.length entries =
      some (part ++ (entries ++ spare.drop entries.length)) := write_middle (by simp; omega)
  rw [List.take_append_drop] at written
  refine ⟨_, written, by simp; omega, spare.drop entries.length, ?_⟩
  rw [List.append_assoc]

@[simp] theorem length_resize (block : List α) (n : Nat) (fresh : Nat → α) : (resize block n fresh).length = n := by
  simp [resize]

theorem resize_fill (block : List α) (n : Nat) (value : α) :
    resize block n (fun _ => value) = block.take n ++ List.replicate (n - block.length) value := by
  apply List.ext_getElem?
  intro i
  by_cases inside : i < n
  · by_cases old : i < block.length
    · rw [List.getElem?_append_left (by simp; omega)]
      simp [resize, inside, old]
    · rw [List.getElem?_append_right (by simp; omega), List.getElem?_replicate_of_lt (by simp; omega)]
      simp [resize, inside, old]
  · rw [List.getElem?_eq_none (by simp; omega), List.getElem?_eq_none (by simp; omega)]

theorem prefix_resize {part block : List α} {n : Nat} (kept : part <+: block) (room : part.length ≤ n)
    (fresh : Nat → α) : part <+: resize block n fresh := by
  obtain ⟨spare, rfl⟩ := kept
  rw [List.prefix_iff_eq_take]
  apply List.ext_getElem?
  intro i
  rw [List.getElem?_take]
  by_cases inside : i < part.length
  · have within : i < n := by omega
    simp [resize, inside, within, List.getElem?_append_left inside]
  · simp [inside]

end Access

section Elements
variable {e : Nat}

def entries (xs : List (Vector α e)) : List α := xs.flatMap Vector.toList

@[simp] theorem entries_append (xs ys : List (Vector α e)) : entries (xs ++ ys) = entries xs ++ entries ys :=
  List.flatMap_append

@[simp] theorem entries_cons (x : Vector α e) (xs : List (Vector α e)) : entries (x :: xs) = x.toList ++ entries xs := rfl

@[simp] theorem entries_nil : entries ([] : List (Vector α e)) = [] := rfl

@[simp] theorem length_entries (xs : List (Vector α e)) : (entries xs).length = xs.length * e := by
  induction xs with
  | nil => simp
  | cons x xs ih =>
    rw [entries_cons, List.length_append, ih, Vector.length_toList, List.length_cons, Nat.succ_mul, Nat.add_comm]

/-- The block begins with the elements. -/
def Holds (block : List α) (xs : List (Vector α e)) : Prop := entries xs <+: block

/-- The elements around one of them. -/
theorem split_at {xs : List (Vector α e)} {i : Nat} (inside : i < xs.length) :
    ∃ before x after, xs = before ++ x :: after ∧ before.length = i := by
  refine ⟨xs.take i, xs[i], xs.drop (i + 1), ?_, by simp; omega⟩
  rw [← List.drop_eq_getElem_cons inside, List.take_append_drop]

namespace Holds
variable {block : List α} {xs : List (Vector α e)}

theorem nil (block : List α) : Holds block ([] : List (Vector α e)) := List.nil_prefix

/-- Without the last element. -/
theorem eraseLast {i : Nat} (holds : Holds block xs) (last : xs.length ≤ i + 1) : Holds block (xs.eraseIdx i) := by
  rw [List.eraseIdx_eq_take_drop_succ, List.drop_of_length_le last, List.append_nil]
  rw [Holds, ← List.take_append_drop i xs, entries_append] at holds
  exact (List.prefix_append _ _).trans holds

theorem resize {n : Nat} (holds : Holds block xs) (room : xs.length * e ≤ n) (fresh : Nat → α) :
    Holds (resize block n fresh) xs := prefix_resize holds (by rwa [length_entries]) fresh

theorem read {i : Nat} {x : Vector α e} (holds : Holds block xs) (found : xs[i]? = some x) :
    read block (i * e) e = some x.toList := by
  obtain ⟨spare, rfl⟩ := holds
  obtain ⟨before, other, after, rfl, rfl⟩ := split_at (List.getElem?_eq_some_iff.mp found).1
  obtain rfl : other = x := by simpa using found
  have middle := read_middle (entries before) other.toList (entries after ++ spare)
  rw [length_entries, Vector.length_toList] at middle
  simpa using middle

theorem set {i : Nat} (holds : Holds block xs) (inside : i < xs.length) (x : Vector α e) : ∃ after,
    write block (i * e) x.toList = some after ∧ after.length = block.length ∧ Holds after (xs.set i x) := by
  obtain ⟨spare, rfl⟩ := holds
  obtain ⟨before, old, behind, rfl, rfl⟩ := split_at inside
  have written : write (entries before ++ (old.toList ++ (entries behind ++ spare))) (entries before).length x.toList =
      some (entries before ++ (x.toList ++ (entries behind ++ spare))) := write_middle (by simp)
  rw [length_entries] at written
  refine ⟨_, by simpa using written, by simp, spare, by simp⟩

/-- An element more, where there is room for one. -/
theorem append (holds : Holds block xs) (room : (xs.length + 1) * e ≤ block.length) (x : Vector α e) : ∃ after,
    write block (xs.length * e) x.toList = some after ∧ after.length = block.length ∧ Holds after (xs ++ [x]) := by
  obtain ⟨spare, rfl⟩ := holds
  rw [List.length_append, length_entries, Nat.succ_mul] at room
  have written : write (entries xs ++ (spare.take e ++ spare.drop e)) (entries xs).length x.toList =
      some (entries xs ++ (x.toList ++ spare.drop e)) := write_middle (by simp; omega)
  rw [length_entries, List.take_append_drop] at written
  refine ⟨_, written, by simp; omega, spare.drop e, by simp⟩

/-- The elements behind one of them take its place. -/
theorem erase {i : Nat} (holds : Holds block xs) (inside : i < xs.length) : ∃ after,
    move block (i * e) ((i + 1) * e) ((xs.length - i - 1) * e) = some after ∧ after.length = block.length ∧
      Holds after (xs.eraseIdx i) := by
  obtain ⟨rest, rfl⟩ := holds
  obtain ⟨before, gone, behind, rfl, rfl⟩ := split_at inside
  obtain ⟨spare, moved, same⟩ := move_down (entries before) gone.toList (entries behind) rest
  have amount : (before ++ gone :: behind).length - before.length - 1 = behind.length := by simp
  rw [amount]
  simp only [length_entries, Vector.length_toList, ← Nat.succ_mul] at moved same
  refine ⟨_, by simpa using moved, by simp [same, Nat.add_left_comm], spare ++ rest, by simp [List.eraseIdx_append]⟩

end Holds

/-- The first entries of a block are elements, whatever they are. -/
theorem exists_holds {block : List α} {n : Nat} (room : n * e ≤ block.length) :
    ∃ xs : List (Vector α e), xs.length = n ∧ Holds block xs := by
  induction n with
  | zero => exact ⟨[], rfl, .nil block⟩
  | succ n ih =>
    rw [Nat.succ_mul] at room
    obtain ⟨xs, rfl, spare, rfl⟩ := ih (by omega)
    rw [List.length_append, length_entries] at room
    have whole : (spare.take e).toArray.size = e := by simp; omega
    refine ⟨xs ++ [⟨(spare.take e).toArray, whole⟩], by simp, spare.drop e, ?_⟩
    rw [entries_append, List.append_assoc]
    simp

end Elements
end Blocks
