import Mathlib.Data.List.Basic

/-! Ordered forests that grow along one open path, as call trees do. A zipper keeps the
open path; an address is the list of child positions from the root. Pruning takes out the
nodes of a region that are entered from inside it and lifts their children. -/

namespace Forest

inductive RoseTree (α : Type) where
  | node (label : α) (kids : List (RoseTree α))

namespace RoseTree
variable {α : Type}

def label : RoseTree α → α
  | .node label _ => label

def kids : RoseTree α → List (RoseTree α)
  | .node _ kids => kids

def mapKids (f : List (RoseTree α) → List (RoseTree α)) : RoseTree α → RoseTree α
  | .node label kids => .node label (f kids)

def mapLabel (f : α → α) : RoseTree α → RoseTree α
  | .node label kids => .node (f label) kids

end RoseTree

variable {α : Type}

/-- The siblings at an address. -/
def forestAt : List Nat → List (RoseTree α) → Option (List (RoseTree α))
  | [], forest => some forest
  | i :: path, forest => forest[i]?.bind fun tree => forestAt path tree.kids

/-- Change the siblings at an address. -/
def modifyAt : List Nat → (List (RoseTree α) → List (RoseTree α)) → List (RoseTree α) → List (RoseTree α)
  | [], f, forest => f forest
  | i :: path, f, forest => forest.modify i (RoseTree.mapKids (modifyAt path f))

theorem modifyAt_append (first rest : List Nat) (f : List (RoseTree α) → List (RoseTree α))
    (forest : List (RoseTree α)) :
    modifyAt (first ++ rest) f forest = modifyAt first (modifyAt rest f) forest := by
  induction first generalizing forest with
  | nil => rfl
  | cons i first ih =>
    have same : modifyAt (first ++ rest) f = modifyAt first (modifyAt rest f) := funext ih
    rw [List.cons_append, modifyAt, modifyAt, same]

mutual
def RoseTree.size : RoseTree α → Nat
  | .node _ kids => forestSize kids + 1

def forestSize : List (RoseTree α) → Nat
  | [] => 0
  | tree :: forest => tree.size + forestSize forest
end

theorem forestSize_append (first rest : List (RoseTree α)) :
    forestSize (first ++ rest) = forestSize first + forestSize rest := by
  induction first with
  | nil => simp [forestSize]
  | cons tree first ih =>
    rw [List.cons_append, forestSize, forestSize, ih, Nat.add_assoc]

/-- An open node: its label and the siblings before it. -/
structure Frame (α : Type) where
  label : α
  before : List (RoseTree α)

/-- The children so far of the innermost open node, and the open nodes, innermost first. -/
structure Zipper (α : Type) where
  here : List (RoseTree α) := []
  context : List (Frame α) := []

def plug : List (RoseTree α) → List (Frame α) → List (RoseTree α)
  | here, [] => here
  | here, frame :: context => plug (frame.before ++ [.node frame.label here]) context

namespace Zipper

def forest (z : Zipper α) : List (RoseTree α) := plug z.here z.context

def enter (label : α) (z : Zipper α) : Zipper α := { here := [], context := { label, before := z.here } :: z.context }

def leave (finish : α → α) (z : Zipper α) : Zipper α :=
  match z.context with
  | [] => z
  | frame :: context => { here := frame.before ++ [.node (finish frame.label) z.here], context }

end Zipper

/-- The address of the innermost siblings. -/
def pathTo (context : List (Frame α)) : List Nat := (context.map (·.before.length)).reverse

@[simp] theorem pathTo_length (context : List (Frame α)) : (pathTo context).length = context.length := by simp [pathTo]

theorem pathTo_cons (frame : Frame α) (context : List (Frame α)) :
    pathTo (frame :: context) = pathTo context ++ [frame.before.length] := by simp [pathTo]

theorem modify_last (before : List (RoseTree α)) (last : RoseTree α) (f : RoseTree α → RoseTree α) :
    (before ++ [last]).modify before.length f = before ++ [f last] := by
  induction before with
  | nil => rfl
  | cons tree before ih => simp [ih]

theorem modifyAt_plug (f : List (RoseTree α) → List (RoseTree α)) (here : List (RoseTree α))
    (context : List (Frame α)) :
    modifyAt (pathTo context) f (plug here context) = plug (f here) context := by
  induction context generalizing here f with
  | nil => rfl
  | cons frame context ih =>
    rw [pathTo_cons, modifyAt_append, plug, plug, ih]
    exact congrArg (plug · context) (modify_last frame.before (.node frame.label here) (RoseTree.mapKids f))

theorem forestAt_append (first rest : List Nat) (forest : List (RoseTree α)) :
    forestAt (first ++ rest) forest = (forestAt first forest).bind (forestAt rest) := by
  induction first generalizing forest with
  | nil => rfl
  | cons i first ih =>
    simp only [List.cons_append, forestAt, Option.bind_assoc]
    exact congrArg _ (funext fun tree => ih tree.kids)

theorem forestAt_plug (here : List (RoseTree α)) (context : List (Frame α)) :
    forestAt (pathTo context) (plug here context) = some here := by
  induction context generalizing here with
  | nil => rfl
  | cons frame context ih =>
    rw [pathTo_cons, forestAt_append, plug, ih]
    simp [forestAt, RoseTree.kids]

section Prune
variable (inside : α → Bool)

mutual
/-- A node of the region that is entered from the region is replaced by its children. -/
def RoseTree.prune (entered : Bool) : RoseTree α → List (RoseTree α)
  | .node label kids =>
    let kept := pruneAll (inside label) kids
    if entered && inside label then kept else [.node label kept]

def pruneAll (entered : Bool) : List (RoseTree α) → List (RoseTree α)
  | [] => []
  | tree :: forest => tree.prune entered ++ pruneAll entered forest
end

@[simp] theorem pruneAll_nil (entered : Bool) : pruneAll inside entered [] = [] := rfl

theorem pruneAll_append (entered : Bool) (first rest : List (RoseTree α)) :
    pruneAll inside entered (first ++ rest) = pruneAll inside entered first ++ pruneAll inside entered rest := by
  induction first with
  | nil => rfl
  | cons tree first ih => simp [pruneAll, ih]

theorem pruneAll_concat (entered : Bool) (before : List (RoseTree α)) (label : α) (kids : List (RoseTree α)) :
    pruneAll inside entered (before ++ [.node label kids]) = pruneAll inside entered before ++
      (if entered && inside label then pruneAll inside (inside label) kids
        else [.node label (pruneAll inside (inside label) kids)]) := by
  rw [pruneAll_append]
  simp [pruneAll, RoseTree.prune]

theorem pruneAll_outside_length (forest : List (RoseTree α)) :
    (pruneAll inside false forest).length = forest.length := by
  induction forest with
  | nil => rfl
  | cons tree forest ih =>
    cases tree with
    | node label kids => simp [pruneAll, RoseTree.prune, ih]

def enteredBy : List (Frame α) → Bool
  | [] => false
  | frame :: _ => inside frame.label

/-- Whether an open node is one that pruning takes out. -/
def drops (frame : Frame α) (context : List (Frame α)) : Bool := enteredBy inside context && inside frame.label

theorem prune_plug_congr {here there : List (RoseTree α)} {context : List (Frame α)}
    (same : pruneAll inside (enteredBy inside context) here = pruneAll inside (enteredBy inside context) there) :
    pruneAll inside false (plug here context) = pruneAll inside false (plug there context) := by
  induction context generalizing here there with
  | nil => exact same
  | cons frame context ih =>
    have equal : pruneAll inside (inside frame.label) here = pruneAll inside (inside frame.label) there := same
    apply ih
    rw [pruneAll_concat, pruneAll_concat, equal]

/-- What is left further in is left of the whole. -/
theorem size_prune_plug {here there : List (RoseTree α)} {context : List (Frame α)} {more : Nat}
    (grown : forestSize (pruneAll inside (enteredBy inside context) there) =
      forestSize (pruneAll inside (enteredBy inside context) here) + more) :
    forestSize (pruneAll inside false (plug there context)) =
      forestSize (pruneAll inside false (plug here context)) + more := by
  induction context generalizing here there with
  | nil => exact grown
  | cons frame context ih =>
    have below : forestSize (pruneAll inside (inside frame.label) there) =
        forestSize (pruneAll inside (inside frame.label) here) + more := grown
    apply ih
    rw [pruneAll_concat, pruneAll_concat, forestSize_append, forestSize_append]
    split
    · omega
    · simp only [forestSize, RoseTree.size]
      omega

/-- The open path with everything beside it pruned. -/
def pruneContext : List (Frame α) → List (Frame α)
  | [] => []
  | frame :: context =>
    { frame with before := pruneAll inside (enteredBy inside context) frame.before } :: pruneContext context

@[simp] theorem pruneContext_length (context : List (Frame α)) :
    (pruneContext inside context).length = context.length := by
  induction context with
  | nil => rfl
  | cons frame context ih => simp [pruneContext, ih]

def Kept : List (Frame α) → Prop
  | [] => True
  | frame :: context => drops inside frame context = false ∧ Kept context

theorem prune_plug {context : List (Frame α)} (kept : Kept inside context) (here : List (RoseTree α)) :
    pruneAll inside false (plug here context) =
      plug (pruneAll inside (enteredBy inside context) here) (pruneContext inside context) := by
  induction context generalizing here with
  | nil => rfl
  | cons frame context ih =>
    have stays : (enteredBy inside context && inside frame.label) = false := kept.1
    rw [plug, ih kept.2, pruneContext, plug, pruneAll_concat, stays]
    rfl

theorem plug_length (here there : List (RoseTree α)) {context : List (Frame α)} (opened : context ≠ []) :
    (plug here context).length = (plug there context).length := by
  induction context generalizing here there with
  | nil => exact absurd rfl opened
  | cons frame context ih =>
    cases context with
    | nil => simp [plug]
    | cons parent context => exact ih _ _ (by simp)

def dropped : List (Frame α) → Bool
  | [] => false
  | frame :: context => drops inside frame context

/-- Nothing below a node that is taken out is kept. -/
def Sealed : List (RoseTree α) → List (Frame α) → Prop
  | _, [] => True
  | here, frame :: context =>
    (drops inside frame context = true → pruneAll inside true here = []) ∧
      (dropped inside context = true → drops inside frame context = true) ∧ Sealed frame.before context

variable {inside} {here : List (RoseTree α)} {frame : Frame α} {context : List (Frame α)}

theorem inside_of_drops (drop : drops inside frame context = true) : inside frame.label = true := by
  simp only [drops, Bool.and_eq_true] at drop
  exact drop.2

theorem enteredBy_of_dropped (drop : dropped inside context = true) : enteredBy inside context = true := by
  cases context with
  | nil => cases drop
  | cons frame context => exact inside_of_drops drop

/-- What is kept was entered from an open node that is kept. -/
theorem dropped_of_stays {label : α} (stays : drops inside { label, before := here } context = false)
    (inner : dropped inside context = true → inside label = true) : dropped inside context = false := by
  by_contra open_
  have gone : dropped inside context = true := eq_true_of_ne_false open_
  have region : drops inside { label, before := here } context = true := by
    simp only [drops, Bool.and_eq_true]
    exact ⟨enteredBy_of_dropped gone, inner gone⟩
  rw [stays] at region
  cases region

theorem Sealed.enter (closed : Sealed inside here context) {label : α}
    (stays : dropped inside context = true → inside label = true) :
    Sealed inside [] ({ label, before := here } :: context) := by
  refine ⟨fun _ => rfl, ?_, closed⟩
  intro drop
  simp [drops, enteredBy_of_dropped drop, stays drop]

theorem Sealed.leave (closed : Sealed inside here (frame :: context)) {label : α}
    (same : inside label = inside frame.label) :
    Sealed inside (frame.before ++ [.node label here]) context := by
  obtain ⟨below, chain, beside⟩ := closed
  cases context with
  | nil => trivial
  | cons parent context =>
    refine ⟨?_, beside.2⟩
    intro drop
    have gone := chain drop
    have region : inside label = true := same.trans (inside_of_drops gone)
    rw [pruneAll_concat, beside.1 drop, region]
    exact below gone

theorem Sealed.kept (closed : Sealed inside here context) (stays : dropped inside context = false) :
    Kept inside context := by
  induction context generalizing here with
  | nil => trivial
  | cons frame context ih =>
    have chain := closed.2.1
    refine ⟨stays, ih closed.2.2 ?_⟩
    by_contra drop
    have gone : drops inside frame context = true := chain (by simpa using drop)
    exact absurd gone (by simpa [dropped] using stays)

theorem prune_enter_dropped {label : α} (drop : drops inside { label, before := here } context = true) :
    pruneAll inside false (plug [] ({ label, before := here } :: context)) =
      pruneAll inside false (plug here context) := by
  rw [plug]
  apply prune_plug_congr
  have gone : (enteredBy inside context && inside label) = true := drop
  simp [pruneAll_concat, gone]

theorem prune_enter_kept {label : α} (stays : drops inside { label, before := here } context = false) :
    forestSize (pruneAll inside false (plug [] ({ label, before := here } :: context))) =
      forestSize (pruneAll inside false (plug here context)) + 1 := by
  rw [plug]
  apply size_prune_plug
  have kept : (enteredBy inside context && inside label) = false := stays
  rw [pruneAll_concat, kept, forestSize_append]
  simp [forestSize, RoseTree.size]

theorem prune_leave_dropped {label : α} (same : inside label = inside frame.label)
    (drop : drops inside frame context = true) :
    pruneAll inside false (plug (frame.before ++ [.node label here]) context) =
      pruneAll inside false (plug here (frame :: context)) := by
  rw [plug]
  apply prune_plug_congr
  have gone : (enteredBy inside context && inside frame.label) = true := drop
  rw [pruneAll_concat, pruneAll_concat, same, gone]
  rfl

end Prune
end Forest
