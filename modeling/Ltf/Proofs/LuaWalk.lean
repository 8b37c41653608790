import Ltf.LuaWalk

/-! The Lua files of a directory are found up to the first entry that cannot be looked at. What is
behind it is as good as not there, and nothing is told of it. -/

namespace Ltf.Proofs.LuaWalk
open CString Ltf.LtfTest Ltf.LuaWalk

def visitFile (dirpath name : CStr) : List (Option CStr) :=
  if endsWithLua name then [some (entryPath dirpath name)] else []

mutual

/-- What a walk comes to, in its order: a Lua file, or something that cannot be looked at. -/
def visits (dirpath : CStr) : DirEntry → List (Option CStr)
  | .directory entries => visitsIn dirpath entries
  | .unreadable | .regular | .special | .dangling => [none]

def visitsIn (dirpath : CStr) : List (CStr × DirEntry) → List (Option CStr)
  | [] => []
  | (name, entry) :: rest =>
    (if isDots name then []
    else
      match entry with
      | .dangling => [none]
      | .regular => visitFile dirpath name
      | .special => []
      | directory => visits (entryPath dirpath name) directory) ++ visitsIn dirpath rest

end

/-- Nothing stands in the way of a walk. -/
def Clear (visited : List (Option CStr)) : Prop := none ∉ visited

instance (visited : List (Option CStr)) : Decidable (Clear visited) := inferInstanceAs (Decidable (_ ∉ _))

/-- The files in front of the first obstacle. -/
def front : List (Option CStr) → List CStr
  | [] => []
  | none :: _ => []
  | some file :: rest => file :: front rest

theorem front_clear {first : List (Option CStr)} (open_way : Clear first) (rest : List (Option CStr)) :
    front (first ++ rest) = front first ++ front rest := by
  induction first with
  | nil => rfl
  | cons visit first ih =>
    rw [Clear, List.mem_cons, not_or] at open_way
    cases visit with
    | none => exact absurd rfl open_way.1
    | some file => rw [List.cons_append, front, front, ih open_way.2, List.cons_append]

theorem front_blocked {first : List (Option CStr)} (blocked : ¬ Clear first) (rest : List (Option CStr)) :
    front (first ++ rest) = front first := by
  induction first with
  | nil => exact absurd List.not_mem_nil blocked
  | cons visit first ih =>
    cases visit with
    | none => rfl
    | some file =>
      have later : ¬ Clear first := by simpa [Clear] using blocked
      rw [List.cons_append, front, front, ih later]

theorem front_whole {visited : List (Option CStr)} (open_way : Clear visited) : (front visited).map some = visited := by
  induction visited with
  | nil => rfl
  | cons visit visited ih =>
    rw [Clear, List.mem_cons, not_or] at open_way
    cases visit with
    | none => exact absurd rfl open_way.1
    | some file => rw [front, List.map_cons, ih open_way.2]

theorem clear_append {first rest : List (Option CStr)} : Clear (first ++ rest) ↔ Clear first ∧ Clear rest := by
  rw [Clear, List.mem_append, not_or, Clear, Clear]

theorem visitFile_clear (dirpath name : CStr) : Clear (visitFile dirpath name) := by
  unfold visitFile
  split <;> simp [Clear]

theorem front_file (dirpath name : CStr) (out : List CStr) :
    out ++ front (visitFile dirpath name) = if endsWithLua name then out ++ [entryPath dirpath name] else out := by
  unfold visitFile
  split <;> simp [front]

/-- A part of a walk, seen from what it visits. -/
theorem walked_append {first rest : List (Option CStr)} {out : List CStr} {walk : Bool × List CStr} {more : List CStr → Bool × List CStr}
    (here : walk = (decide (Clear first), out ++ front first))
    (later : ∀ out, more out = (decide (Clear rest), out ++ front rest)) :
    (if walk.1 then more walk.2 else (false, walk.2)) = (decide (Clear (first ++ rest)), out ++ front (first ++ rest)) := by
  subst here
  by_cases open_way : Clear first
  · simp [open_way, later, front_clear, clear_append]
  · simp [open_way, front_blocked, clear_append]

mutual

theorem walk_eq (dirpath : CStr) (entry : DirEntry) (out : List CStr) :
    walk dirpath entry out = (decide (Clear (visits dirpath entry)), out ++ front (visits dirpath entry)) := by
  cases entry with
  | directory entries => exact walkEntries_eq dirpath entries out
  | unreadable | regular | special | dangling => simp [walk, visits, Clear, front]

theorem walkEntries_eq (dirpath : CStr) (entries : List (CStr × DirEntry)) (out : List CStr) :
    walkEntries dirpath entries out =
      (decide (Clear (visitsIn dirpath entries)), out ++ front (visitsIn dirpath entries)) := by
  match entries with
  | [] => simp [walkEntries, visitsIn, Clear, front]
  | (name, entry) :: rest =>
    have later := walkEntries_eq dirpath rest
    by_cases dots : isDots name
    · cases entry <;> simpa only [walkEntries, visitsIn, dots, if_true, List.nil_append] using later out
    · cases entry with
      | dangling => simp [walkEntries, visitsIn, dots, Clear, front]
      | special =>
        simp only [walkEntries, visitsIn, if_neg dots]
        exact later out
      | regular =>
        simp only [walkEntries, visitsIn, if_neg dots]
        rw [later, ← front_file, front_clear (visitFile_clear dirpath name), List.append_assoc]
        simp [clear_append, visitFile_clear]
      | unreadable =>
        simp only [walkEntries, visitsIn, if_neg dots]
        exact walked_append (walk_eq (entryPath dirpath name) .unreadable out) later
      | directory entries =>
        simp only [walkEntries, visitsIn, if_neg dots]
        exact walked_append (walk_eq (entryPath dirpath name) (.directory entries) out) later

end

mutual

/-- A directory without what a walk does not come to, and whether that is all of it. The entries a
walk passes over, dots and special files, are left out as well. -/
def pruned : DirEntry → DirEntry × Bool
  | .directory entries => (.directory (prunedEntries entries).1, (prunedEntries entries).2)
  | .unreadable | .regular | .special | .dangling => (.directory [], false)

def prunedEntries : List (CStr × DirEntry) → List (CStr × DirEntry) × Bool
  | [] => ([], true)
  | (name, entry) :: rest =>
    if isDots name then prunedEntries rest
    else
      match entry with
      | .dangling => ([], false)
      | .regular => ((name, .regular) :: (prunedEntries rest).1, (prunedEntries rest).2)
      | .special => prunedEntries rest
      | directory =>
        if (pruned directory).2 then ((name, (pruned directory).1) :: (prunedEntries rest).1, (prunedEntries rest).2)
        else ([(name, (pruned directory).1)], false)

end

/-- A directory in front of others, without what is not come to. -/
theorem pruned_append {dirpath name : CStr} {first rest : List (Option CStr)} {entries kept : List (CStr × DirEntry)}
    {whole all : Bool} (dots : ¬ isDots name = true)
    (here : visits (entryPath dirpath name) (.directory entries) = (front first).map some) (clear : whole = true ↔ Clear first)
    (later : visitsIn dirpath kept = (front rest).map some) (clears : all = true ↔ Clear rest) :
    let left := if whole then ((name, .directory entries) :: kept, all) else ([(name, .directory entries)], false)
    visitsIn dirpath left.1 = (front (first ++ rest)).map some ∧ (left.2 = true ↔ Clear (first ++ rest)) := by
  intro left
  by_cases open_way : Clear first
  · have all_kept : left = ((name, .directory entries) :: kept, all) := if_pos (clear.mpr open_way)
    rw [all_kept, front_clear open_way, clear_append, List.map_append, ← here, ← later]
    simp only [visitsIn, if_neg dots, true_and]
    exact clears.trans (and_iff_right open_way).symm
  · have cut : left = ([(name, .directory entries)], false) := if_neg fun full => open_way (clear.mp full)
    rw [cut, front_blocked open_way, clear_append, ← here]
    simp only [visitsIn, if_neg dots, List.append_nil, true_and]
    simp [open_way]

mutual

theorem pruned_visits (dirpath : CStr) (entry : DirEntry) :
    visits dirpath (pruned entry).1 = (front (visits dirpath entry)).map some ∧
      ((pruned entry).2 = true ↔ Clear (visits dirpath entry)) := by
  cases entry with
  | directory entries => exact prunedEntries_visits dirpath entries
  | unreadable | regular | special | dangling => simp [pruned, visits, visitsIn, Clear, front]

theorem prunedEntries_visits (dirpath : CStr) (entries : List (CStr × DirEntry)) :
    visitsIn dirpath (prunedEntries entries).1 = (front (visitsIn dirpath entries)).map some ∧
      ((prunedEntries entries).2 = true ↔ Clear (visitsIn dirpath entries)) := by
  match entries with
  | [] => simp [prunedEntries, visitsIn, Clear, front]
  | (name, entry) :: rest =>
    obtain ⟨same, whole⟩ := prunedEntries_visits dirpath rest
    by_cases dots : isDots name
    · cases entry <;> simp only [prunedEntries, visitsIn, dots, if_true, List.nil_append] <;> exact ⟨same, whole⟩
    · cases entry with
      | dangling => simp [prunedEntries, visitsIn, dots, Clear, front]
      | special =>
        simp only [prunedEntries, visitsIn, if_neg dots]
        exact ⟨same, whole⟩
      | regular =>
        simp only [prunedEntries, visitsIn, if_neg dots]
        rw [front_clear (visitFile_clear dirpath name), List.map_append, front_whole (visitFile_clear dirpath name), same, whole, clear_append]
        exact ⟨rfl, (and_iff_right (visitFile_clear dirpath name)).symm⟩
      | unreadable =>
        obtain ⟨here, clear⟩ := pruned_visits (entryPath dirpath name) .unreadable
        simp only [prunedEntries, visitsIn, if_neg dots]
        exact pruned_append dots here clear same whole
      | directory inner =>
        obtain ⟨here, clear⟩ := pruned_visits (entryPath dirpath name) (.directory inner)
        simp only [prunedEntries, visitsIn, if_neg dots]
        exact pruned_append dots here clear same whole

end

section Tree

/-- What there is for a walk in a directory and the ones in it: its Lua files, and what it cannot look at. -/
inductive Holds : CStr → DirEntry → Option CStr → Prop
  | file {dirpath name : CStr} {entries : List (CStr × DirEntry)} (listed : (name, .regular) ∈ entries)
      (plain : ¬ isDots name = true) (lua : endsWithLua name = true) :
      Holds dirpath (.directory entries) (some (entryPath dirpath name))
  | dangling {dirpath name : CStr} {entries : List (CStr × DirEntry)} (listed : (name, .dangling) ∈ entries)
      (plain : ¬ isDots name = true) : Holds dirpath (.directory entries) none
  | unreadable {dirpath : CStr} : Holds dirpath .unreadable none
  | inside {dirpath name : CStr} {entries : List (CStr × DirEntry)} {entry : DirEntry} {visit : Option CStr}
      (listed : (name, entry) ∈ entries) (plain : ¬ isDots name = true)
      (held : Holds (entryPath dirpath name) entry visit) : Holds dirpath (.directory entries) visit

/-- `S_ISDIR` -/
def isDirectory : DirEntry → Bool
  | .directory _ | .unreadable => true
  | _ => false

variable {dirpath name : CStr} {entry : DirEntry} {entries rest : List (CStr × DirEntry)} {visit : Option CStr}

/-- What is held by the rest of a directory is held by the whole. -/
theorem Holds.later (held : Holds dirpath (.directory rest) visit) : Holds dirpath (.directory ((name, entry) :: rest)) visit := by
  cases held with
  | file listed plain lua => exact .file (List.mem_cons_of_mem _ listed) plain lua
  | dangling listed plain => exact .dangling (List.mem_cons_of_mem _ listed) plain
  | inside listed plain held => exact .inside (List.mem_cons_of_mem _ listed) plain held

theorem visitsIn_cons (dirpath : CStr) (first : CStr × DirEntry) (rest : List (CStr × DirEntry)) :
    visitsIn dirpath (first :: rest) = visitsIn dirpath [first] ++ visitsIn dirpath rest := by
  obtain ⟨name, entry⟩ := first
  cases entry <;> simp only [visitsIn, List.append_nil]

/-- What a walk comes to because of one entry. -/
theorem mem_visitsIn (listed : (name, entry) ∈ entries)
    (among : visit ∈ visitsIn dirpath [(name, entry)]) : visit ∈ visitsIn dirpath entries := by
  induction entries with
  | nil => cases listed
  | cons first entries ih =>
    rw [visitsIn_cons, List.mem_append]
    obtain same | later := List.mem_cons.mp listed
    · rw [← same]
      exact .inl among
    · exact .inr (ih later)

theorem visits_held (held : Holds dirpath entry visit) : visit ∈ visits dirpath entry := by
  induction held with
  | file listed plain lua => exact mem_visitsIn listed (by simp [visitsIn, plain, visitFile, lua])
  | dangling listed plain => exact mem_visitsIn listed (by simp [visitsIn, plain])
  | unreadable => simp [visits]
  | @inside dirpath name entries entry visit listed plain held ih =>
    refine mem_visitsIn listed ?_
    cases entry with
    | regular | special | dangling => cases held
    | unreadable => simpa [visitsIn, plain] using ih
    | directory inner => simpa [visitsIn, plain] using ih

mutual

theorem held_visits (dirpath : CStr) (entry : DirEntry) (visit : Option CStr) (among : visit ∈ visits dirpath entry)
    (directory : isDirectory entry = true) : Holds dirpath entry visit := by
  cases entry with
  | directory entries => exact held_visitsIn dirpath entries visit among
  | unreadable =>
    rw [visits, List.mem_singleton] at among
    rw [among]
    exact .unreadable
  | regular | special | dangling => cases directory

theorem held_visitsIn (dirpath : CStr) (entries : List (CStr × DirEntry)) (visit : Option CStr)
    (among : visit ∈ visitsIn dirpath entries) : Holds dirpath (.directory entries) visit := by
  match entries with
  | [] => cases among
  | (name, entry) :: rest =>
    rw [visitsIn_cons, List.mem_append] at among
    obtain here | later := among
    · by_cases dots : isDots name = true
      · cases entry <;> simp [visitsIn, dots] at here
      · cases entry with
        | dangling =>
          simp only [visitsIn, if_neg dots, List.append_nil, List.mem_singleton] at here
          rw [here]
          exact .dangling List.mem_cons_self dots
        | regular =>
          simp only [visitsIn, if_neg dots, List.append_nil, visitFile] at here
          split at here
          next lua =>
            rw [List.mem_singleton] at here
            rw [here]
            exact .file List.mem_cons_self dots lua
          next => cases here
        | special => simp [visitsIn, dots] at here
        | unreadable =>
          simp only [visitsIn, if_neg dots, List.append_nil] at here
          exact .inside List.mem_cons_self dots (held_visits (entryPath dirpath name) .unreadable visit here rfl)
        | directory inner =>
          simp only [visitsIn, if_neg dots, List.append_nil] at here
          exact .inside List.mem_cons_self dots (held_visits (entryPath dirpath name) (.directory inner) visit here rfl)
    · exact (held_visitsIn dirpath rest visit later).later

end

end Tree

section Listing
variable {path : CStr} {entry : DirEntry}

theorem listed_eq (path : CStr) (entry : DirEntry) : listLuaRecursive path entry = front (visits path entry) := by
  rw [listLuaRecursive, walk_eq, List.nil_append]

theorem mem_front {visited : List (Option CStr)} {file : CStr} (among : file ∈ front visited) : some file ∈ visited := by
  induction visited with
  | nil => cases among
  | cons visit visited ih =>
    cases visit with
    | none => cases among
    | some first =>
      rw [front, List.mem_cons] at among
      obtain rfl | later := among
      · exact List.mem_cons_self
      · exact List.mem_cons_of_mem _ (ih later)

theorem front_files (files : List CStr) : front (files.map some) = files := by
  induction files with
  | nil => rfl
  | cons file files ih => rw [List.map_cons, front, ih]

/-- Only Lua files of the directory are found, and all of them as long as nothing is in the way. Otherwise
it is the ones in front of the first obstacle. -/
structure Listed (path : CStr) (entry : DirEntry) : Prop where
  lua : ∀ file ∈ listLuaRecursive path entry, Holds path entry (some file)
  whole : ¬ Holds path entry none → ∀ file, Holds path entry (some file) → file ∈ listLuaRecursive path entry
  order : listLuaRecursive path entry = front (visits path entry)

theorem lua_listed (directory : isDirectory entry = true) : Listed path entry where
  lua := by
    intro file found
    rw [listed_eq] at found
    exact held_visits path entry _ (mem_front found) directory
  whole := by
    intro unbroken file held
    have open_way : Clear (visits path entry) := fun among => unbroken (held_visits path entry none among directory)
    have among := visits_held held
    rw [← front_whole open_way, List.mem_map] at among
    obtain ⟨other, found, same⟩ := among
    cases same
    rwa [listed_eq]
  order := listed_eq path entry

/-- What a walk shows of an entry. -/
def shown (entry : DirEntry) : DirEntry := if isDirectory entry then (pruned entry).1 else entry

theorem shown_directory (entry : DirEntry) : isDirectory (shown entry) = isDirectory entry := by
  cases entry <;> rfl

theorem shown_clear (path : CStr) (directory : isDirectory entry = true) : ¬ Holds path (shown entry) none := by
  intro broken
  have among := visits_held broken
  rw [shown, if_pos directory, (pruned_visits path entry).1] at among
  simp at among

theorem shown_listed (path : CStr) (directory : isDirectory entry = true) :
    listLuaRecursive path (shown entry) = listLuaRecursive path entry := by
  rw [listed_eq, listed_eq, shown, if_pos directory, (pruned_visits path entry).1, front_files]

theorem dirOf_eq (disk : CStr → DirEntry) (code : CStr → LuaFile) (path : CStr) : dirOf disk code path =
    if isDirectory (disk path) then some ((listLuaRecursive path (disk path)).map code) else none := by
  unfold dirOf
  cases disk path <;> rfl

theorem dirOf_shown (disk : CStr → DirEntry) (code : CStr → LuaFile) :
    dirOf (fun path => shown (disk path)) code = dirOf disk code := by
  funext path
  rw [dirOf_eq, dirOf_eq, shown_directory]
  split
  next directory => rw [shown_listed path directory]
  next => rfl

end Listing

/-- On a disk with entries that cannot be looked at, a command runs just as on one where they and all that
is behind them are not there. -/
theorem broken_entry_hides (base : Setup) (disk : CStr → DirEntry) (code : CStr → LuaFile) :
    (∀ path, isDirectory (disk path) = true → Listed path (disk path) ∧ ¬ Holds path (shown (disk path)) none) ∧
      ltfTest { base with dir := dirOf disk code } =
        ltfTest { base with dir := dirOf (fun path => shown (disk path)) code } := by
  refine ⟨fun path directory => ⟨lua_listed directory, shown_clear path directory⟩, ?_⟩
  rw [dirOf_shown]

end Ltf.Proofs.LuaWalk
