import Ltf.Base.Assoc
import Ltf.Base.Paths

/-! Trees of directories and files. A place is given by the names from the root down. What
is in the tree is in a directory of the tree. -/

namespace DirTree

universe u

abbrev TreePlace := List (List UInt8)

inductive Node (α : Type u) where
  | directory
  | file (content : α)

variable {α : Type u}

def Node.isDirectory : Option (Node α) → Bool
  | some .directory => true
  | _ => false

/-- What is at a place; the root is always there. -/
def nodeAt (nodes : List (TreePlace × Node α)) (place : TreePlace) : Option (Node α) :=
  if place = [] then some .directory else (nodes.find? (place = ·.1)).map Prod.snd

theorem nodeAt_put (nodes : List (TreePlace × Node α)) {place : TreePlace} (node : Node α) (inner : place ≠ []) (other : TreePlace) :
    nodeAt (Assoc.put nodes (place, node)) other = if other = place then some node else nodeAt nodes other := by
  unfold nodeAt
  by_cases root : other = []
  · simp [root, inner.symm]
  · simp only [root, if_false, Assoc.find_snd, Assoc.lookup_put]

structure DiskTree (α : Type u) where
  nodes : List (TreePlace × Node α)
  closed : ∀ place, (nodeAt nodes place).isSome → Node.isDirectory (nodeAt nodes place.dropLast)

namespace DiskTree

def empty : DiskTree α where
  nodes := []
  closed := by
    intro place there
    by_cases root : place = []
    · rw [root]
      rfl
    · simp [nodeAt, root] at there

def get (tree : DiskTree α) (place : TreePlace) : Option (Node α) := nodeAt tree.nodes place

def isDirectory (tree : DiskTree α) (place : TreePlace) : Bool := Node.isDirectory (tree.get place)

@[simp] theorem get_root (tree : DiskTree α) : tree.get [] = some .directory := rfl

theorem isDirectory_iff {tree : DiskTree α} {place : TreePlace} : tree.isDirectory place ↔ tree.get place = some .directory := by
  unfold isDirectory
  cases tree.get place with
  | none => simp [Node.isDirectory]
  | some node => cases node <;> simp [Node.isDirectory]

theorem above {tree : DiskTree α} {place : TreePlace} (there : (tree.get place).isSome) :
    tree.get place.dropLast = some .directory := isDirectory_iff.mp (tree.closed place there)

theorem not_root {tree : DiskTree α} {place : TreePlace} (free : tree.isDirectory place = false) : place ≠ [] := by
  rintro rfl
  cases free

/-- A node is put into a directory, unless it would take the place of one. -/
def add (tree : DiskTree α) (place : TreePlace) (node : Node α) : Option (DiskTree α) :=
  if fits : tree.isDirectory place.dropLast ∧ tree.isDirectory place = false then
    some {
      nodes := Assoc.put tree.nodes (place, node)
      closed := by
        obtain ⟨parent, free⟩ := fits
        have placed := nodeAt_put tree.nodes node (not_root free)
        have apart : ∀ other, Node.isDirectory (nodeAt tree.nodes other) → other ≠ place := by
          rintro other directory rfl
          rw [isDirectory, get, directory] at free
          cases free
        intro other there
        by_cases same : other = place
        · rw [same, placed, if_neg (apart _ parent)]
          exact parent
        · rw [placed, if_neg same] at there
          have directory := tree.closed other there
          rw [placed, if_neg (apart _ directory)]
          exact directory }
  else none

theorem add_isSome {tree : DiskTree α} {place : TreePlace} {node : Node α} (parent : tree.get place.dropLast = some .directory)
    (free : tree.get place ≠ some .directory) : ∃ after, tree.add place node = some after := by
  have parent := isDirectory_iff.mpr parent
  have free : tree.isDirectory place = false := by rwa [← Bool.not_eq_true, isDirectory_iff]
  exact ⟨_, dif_pos ⟨parent, free⟩⟩

theorem get_add {tree after : DiskTree α} {place : TreePlace} {node : Node α} (added : tree.add place node = some after)
    (other : TreePlace) : after.get other = if other = place then some node else tree.get other := by
  unfold add at added
  split at added
  next fits =>
    cases added
    exact nodeAt_put tree.nodes node (not_root fits.2) other
  next => cases added

theorem add_free {tree after : DiskTree α} {place : TreePlace} {node : Node α} (added : tree.add place node = some after) :
    tree.get place ≠ some .directory := by
  unfold add at added
  split at added
  next fits =>
    rw [ne_eq, ← isDirectory_iff, fits.2]
    exact Bool.false_ne_true
  next => cases added

end DiskTree

/-- Everything that was there is still there, as it was. -/
def Extends (tree after : DiskTree α) : Prop := ∀ place node, tree.get place = some node → after.get place = some node

namespace Extends
variable {first second third : DiskTree α} {place : TreePlace} {node : Node α}

theorem refl (tree : DiskTree α) : Extends tree tree := fun _ _ there => there

theorem trans (one : Extends first second) (two : Extends second third) : Extends first third :=
  fun place node there => two place node (one place node there)

theorem add (added : first.add place node = some second) (fresh : first.get place = none) : Extends first second := by
  intro other node there
  rw [DiskTree.get_add added]
  split
  next same =>
    rw [same, fresh] at there
    cases there
  next => exact there

theorem isSome (grows : Extends first second) (there : (first.get place).isSome) : (second.get place).isSome := by
  obtain ⟨node, there⟩ := Option.isSome_iff_exists.mp there
  rw [grows place node there]
  rfl

end Extends

section Locate

/-- One segment of a path, from a place that has to be a directory. -/
def enter (tree : DiskTree α) (place : TreePlace) (segment : List UInt8) : Option TreePlace :=
  if tree.isDirectory place then some (Paths.climb place segment) else none

/-- Where segments lead. Only what is in front of the last one has to be there. -/
def locate (tree : DiskTree α) (start : TreePlace) (segments : List (List UInt8)) : Option TreePlace :=
  segments.foldlM (enter tree) start

variable {tree after : DiskTree α} {start place : TreePlace} {segment : List UInt8} {segments more : List (List UInt8)}

@[simp] theorem locate_nil (tree : DiskTree α) (start : TreePlace) : locate tree start [] = some start := rfl

theorem locate_append (tree : DiskTree α) (start : TreePlace) (segments more : List (List UInt8)) :
    locate tree start (segments ++ more) = (locate tree start segments).bind fun place => locate tree place more := by
  rw [locate, List.foldlM_append]
  rfl

theorem locate_snoc (found : locate tree start segments = some place) :
    locate tree start (segments ++ [segment]) = enter tree place segment := by
  rw [locate_append, found, Option.bind_some, locate, List.foldlM_cons]
  cases enter tree place segment <;> rfl

theorem locate_one (tree : DiskTree α) (start : TreePlace) (segment : List UInt8) :
    locate tree start [segment] = enter tree start segment := locate_snoc (locate_nil tree start)

theorem enter_extends (grows : Extends tree after) (entered : enter tree start segment = some place) :
    enter after start segment = some place := by
  unfold enter at entered ⊢
  split at entered
  next directory =>
    rw [if_pos (DiskTree.isDirectory_iff.mpr (grows _ _ (DiskTree.isDirectory_iff.mp directory)))]
    exact entered
  next => cases entered

theorem locate_extends (grows : Extends tree after) (found : locate tree start segments = some place) :
    locate after start segments = some place := by
  induction segments generalizing start with
  | nil => exact found
  | cons segment segments ih =>
    rw [locate, List.foldlM_cons, Option.bind_eq_bind, Option.bind_eq_some_iff] at found ⊢
    obtain ⟨middle, entered, found⟩ := found
    exact ⟨middle, enter_extends grows entered, ih found⟩

/-- What a segment leads to is in a directory. -/
theorem enter_above (entered : enter tree start segment = some place) :
    tree.get place.dropLast = some .directory := by
  unfold enter at entered
  split at entered
  next directory =>
    cases entered
    have here := DiskTree.isDirectory_iff.mp directory
    have up := @DiskTree.above _ tree start (by rw [here]; rfl)
    unfold Paths.climb
    split
    · exact up
    · split
      · exact DiskTree.above (by rw [up]; rfl)
      · rwa [List.dropLast_concat]
  next => cases entered

/-- Without a step up, segments lead to places below. -/
theorem locate_below (down : [46, 46] ∉ segments) (found : locate tree start segments = some place) : start <+: place := by
  induction segments generalizing start with
  | nil =>
    cases found
    exact List.prefix_refl _
  | cons segment segments ih =>
    rw [List.mem_cons, not_or] at down
    rw [locate, List.foldlM_cons, Option.bind_eq_bind, Option.bind_eq_some_iff] at found
    obtain ⟨middle, entered, found⟩ := found
    refine List.IsPrefix.trans ?_ (ih down.2 found)
    unfold enter at entered
    split at entered
    next =>
      cases entered
      unfold Paths.climb
      split
      · exact List.prefix_refl _
      · rw [if_neg (Ne.symm down.1)]
        exact List.prefix_append _ _
    next => cases entered

/-- What is above a directory is one. -/
theorem directory_above {above : TreePlace} (directory : tree.get place = some .directory) (prefixed : above <+: place) :
    tree.get above = some .directory := by
  obtain ⟨rest, rfl⟩ := prefixed
  induction rest using List.reverseRecOn with
  | nil => rwa [List.append_nil] at directory
  | append_singleton rest name ih =>
    have up := @DiskTree.above _ tree (above ++ (rest ++ [name])) (by rw [directory]; rfl)
    rw [← List.append_assoc, List.dropLast_concat] at up
    exact ih up

/-- Below a place where nothing is there is nothing. -/
theorem fresh_below {inner : TreePlace} (fresh : tree.get place = none) (below : place <+: inner) : tree.get inner = none := by
  obtain ⟨rest, rfl⟩ := below
  induction rest using List.reverseRecOn with
  | nil => rwa [List.append_nil]
  | append_singleton rest name ih =>
    by_contra there
    have up := @DiskTree.above _ tree (place ++ (rest ++ [name])) (Option.isSome_iff_ne_none.mpr there)
    rw [← List.append_assoc, List.dropLast_concat, ih] at up
    cases up

/-- Without a step up, a directory was reached already if it was there. -/
theorem locate_before (down : [46, 46] ∉ segments) (found : locate after start segments = some place)
    (directory : tree.get place = some .directory) : locate tree start segments = some place := by
  induction segments generalizing start with
  | nil => exact found
  | cons segment segments ih =>
    have here := directory_above directory (locate_below down found)
    rw [List.mem_cons, not_or] at down
    rw [locate, List.foldlM_cons, Option.bind_eq_bind, Option.bind_eq_some_iff] at found ⊢
    obtain ⟨middle, entered, found⟩ := found
    refine ⟨middle, ?_, ih down.2 found⟩
    unfold enter at entered ⊢
    rw [if_pos (DiskTree.isDirectory_iff.mpr here)]
    split at entered
    next => exact entered
    next => cases entered

/-- A name in a directory, and where it leads. -/
theorem enter_name (directory : tree.get start = some .directory) (name : Paths.Name segment) :
    enter tree start segment = some (start ++ [segment]) := by
  rw [enter, if_pos (DiskTree.isDirectory_iff.mpr directory), Paths.climb_name name]

/-- The names of a directory lead to it from the root. -/
theorem locate_names (directory : tree.get place = some .directory) (names : ∀ name ∈ place, Paths.Name name) :
    locate tree [] place = some place := by
  induction place using List.reverseRecOn with
  | nil => rfl
  | append_singleton place name ih =>
    have up := @DiskTree.above _ tree (place ++ [name]) (by rw [directory]; rfl)
    rw [List.dropLast_concat] at up
    rw [locate_snoc (ih up fun other inside => names other (by simp [inside])), enter_name up (names name (by simp))]

end Locate
end DirTree
