import Ltf.LogsInfo

/-! The columns in front of the lines of a keyword tree. All of the tree shares one array of
flags, of which only those of the levels above a node are still good when it is printed. -/

namespace Ltf.Proofs.KeywordTree
open CString

section Forests

def kids (node : KeywordStatus) : List KeywordStatus := node.children.getD []

/-- The node at the end of a path of positions from the root. -/
def nodeAt : List KeywordStatus → List Nat → Option KeywordStatus
  | _, [] => none
  | forest, [i] => forest[i]?
  | forest, i :: address => forest[i]?.bind fun node => nodeAt (kids node) address

/-- The node at an address has a sibling behind it. -/
def hasLater : List KeywordStatus → List Nat → Bool
  | _, [] => false
  | forest, [i] => decide (i + 1 < forest.length)
  | forest, i :: address => forest[i]?.any fun node => hasLater (kids node) address

mutual
/-- The addresses below a node. -/
def below : KeywordStatus → List (List Nat)
  | .mk none _ _ _ _ _ _ => []
  | .mk (some children) _ _ _ _ _ _ => addressesFrom 0 children

/-- The addresses of a forest in the order of printing, with `i` as the first root. -/
def addressesFrom (i : Nat) : List KeywordStatus → List (List Nat)
  | [] => []
  | node :: rest => [i] :: (below node).map (i :: ·) ++ addressesFrom (i + 1) rest
end

def addresses (forest : List KeywordStatus) : List (List Nat) := addressesFrom 0 forest

theorem below_eq (node : KeywordStatus) : below node = addressesFrom 0 (kids node) := by
  obtain ⟨children, name, started, finished, ignored, file, line⟩ := node
  cases children <;> rfl

theorem addressesFrom_cons (i : Nat) (node : KeywordStatus) (rest : List KeywordStatus) :
    addressesFrom i (node :: rest) = [i] :: (addresses (kids node)).map (i :: ·) ++ addressesFrom (i + 1) rest := by
  rw [addressesFrom, below_eq, addresses]

theorem addresses_nonempty (i : Nat) (forest : List KeywordStatus) : [] ∉ addressesFrom i forest := by
  induction forest generalizing i with
  | nil => exact List.not_mem_nil
  | cons node rest ih => simp [addressesFrom_cons, ih]

theorem nodeAt_cons {address : List Nat} (deeper : address ≠ []) (forest : List KeywordStatus) (i : Nat) :
    nodeAt forest (i :: address) = forest[i]?.bind fun node => nodeAt (kids node) address := by
  cases address with
  | nil => exact absurd rfl deeper
  | cons j address => rfl

theorem hasLater_cons {address : List Nat} (deeper : address ≠ []) (forest : List KeywordStatus) (i : Nat) :
    hasLater forest (i :: address) = forest[i]?.any fun node => hasLater (kids node) address := by
  cases address with
  | nil => exact absurd rfl deeper
  | cons j address => rfl

end Forests

section Lines

def prefixes (bars : List Bool) : List CStr := bars.map fun more => if more then .lit "│       " else .lit "        "

/-- The columns of a node: one for each of its ancestors, outermost first. -/
def bars (forest : List KeywordStatus) (address : List Nat) : List Bool :=
  (List.range (address.length - 1)).map fun i => hasLater forest (address.take (i + 1))

/-- The line of a property, behind its columns. -/
def propLine (later isLastProp : Bool) (label : CStr) (value : Option CStr) : List CStr :=
  [if later then .lit "│   " else .lit "    ", if isLastProp then .lit "└──" else .lit "├──", .lit " ", label] ++
    value.toList ++ [.lit "\n"]

/-- The lines of a node behind their columns: its header and its properties. -/
def nodeLines (later : Bool) (node : KeywordStatus) : List (List CStr) :=
  [[if later then .lit "├──" else .lit "└──", .lit "[", orNull node.name, .lit "]\n"],
    propLine later false (.lit "Started: ") node.started] ++
  ((node.finished.filter (·.bytes ≠ [])).toList.map fun finished =>
    propLine later false (.lit "Finished: ") (some finished)) ++
  [propLine later (kids node).isEmpty (.lit "Declaration: ")
    (some (snprintf (pathMax + 32) [orNull node.file, .lit ":", signedDecimal node.line]))] ++
  if (kids node).isEmpty then [] else [propLine later true (.lit "Children:") none]

/-- What is printed for the node at an address, behind the columns of the forest. -/
def linesAt (outer : List Bool) (forest : List KeywordStatus) (address : List Nat) : List CStr :=
  match nodeAt forest address with
  | none => []
  | some node => (nodeLines (hasLater forest address) node).flatMap fun line =>
    prefixes (outer ++ bars forest address) ++ line

theorem bars_cons {address : List Nat} (deeper : address ≠ []) {forest : List KeywordStatus} {i : Nat}
    {node : KeywordStatus} (found : forest[i]? = some node) :
    bars forest (i :: address) = decide (i + 1 < forest.length) :: bars (kids node) address := by
  have size : (i :: address).length - 1 = address.length - 1 + 1 := by
    have := List.length_pos_iff.mpr deeper
    rw [List.length_cons]
    omega
  rw [bars, size, List.range_succ_eq_map, List.map_cons, List.map_map, bars]
  refine congrArg₂ _ rfl (List.map_congr_left fun j inside => ?_)
  have inner : address.take (j + 1) ≠ [] := by
    rw [ne_eq, List.take_eq_nil_iff, not_or]
    exact ⟨Nat.succ_ne_zero j, deeper⟩
  simp only [Function.comp_apply, List.take_succ_cons]
  rw [hasLater_cons inner, found, Option.any_some]

theorem linesAt_cons {address : List Nat} (deeper : address ≠ []) (outer : List Bool) {forest : List KeywordStatus}
    {i : Nat} {node : KeywordStatus} (found : forest[i]? = some node) :
    linesAt outer forest (i :: address) =
      linesAt (outer ++ [decide (i + 1 < forest.length)]) (kids node) address := by
  rw [linesAt, linesAt, nodeAt_cons deeper, hasLater_cons deeper, bars_cons deeper found, found, Option.bind_some,
    Option.any_some, List.append_cons]

end Lines

section Flags
variable {flags outer : List Bool}

/-- The flags of the outer levels are right. -/
def Agrees (flags outer : List Bool) : Prop := ∀ i more, outer[i]? = some more → flags.getD i false = more

theorem ensureDepth_getD (flags : List Bool) (needed i : Nat) :
    (ensureDepth flags needed).getD i false = flags.getD i false := by
  unfold ensureDepth
  by_cases inside : i < flags.length
  · rw [List.getD_append _ _ _ _ inside]
  · have beyond := Nat.le_of_not_lt inside
    rw [List.getD_append_right _ _ _ _ beyond, List.getD_eq_default _ _ beyond, List.getD_eq_getElem?_getD,
      List.getElem?_getD_replicate_default_eq]

theorem putPrefix_agrees (agrees : Agrees flags outer) : ltfLogsInfoPutPrefix flags outer.length = prefixes outer := by
  apply List.ext_getElem?
  intro i
  unfold ltfLogsInfoPutPrefix prefixes
  rw [List.getElem?_map, List.getElem?_map]
  by_cases inside : i < outer.length
  · have found := List.getElem?_eq_getElem inside
    rw [List.getElem?_range inside, found, Option.map_some, Option.map_some, agrees i _ found]
  · rw [List.getElem?_eq_none (by rw [List.length_range]; omega), List.getElem?_eq_none (by omega)]
    rfl

theorem agrees_front {last : Bool} (agrees : Agrees flags (outer ++ [last])) : Agrees flags outer := by
  intro i more found
  refine agrees i more ?_
  rw [List.getElem?_append_left (List.getElem?_eq_some_iff.mp found).1, found]

/-- A flag is set as a node is reached, and those of the levels above it stay. -/
theorem agrees_set (agrees : Agrees flags outer) (last : Bool) :
    Agrees ((ensureDepth flags (outer.length + 1)).set outer.length last) (outer ++ [last]) := by
  intro i more found
  have deep : outer.length < (ensureDepth flags (outer.length + 1)).length := by
    rw [ensureDepth, List.length_append, List.length_replicate]
    omega
  by_cases here : i = outer.length
  · subst here
    rw [List.getElem?_concat_length] at found
    rw [List.getD_eq_getElem?_getD, List.getElem?_set_self deep]
    exact Option.some.inj found
  · have inside : i < outer.length := by
      have := (List.getElem?_eq_some_iff.mp found).1
      rw [List.length_append, List.length_singleton] at this
      omega
    rw [List.getElem?_append_left inside] at found
    rw [List.getD_eq_getElem?_getD, List.getElem?_set_ne (Ne.symm here), ← List.getD_eq_getElem?_getD, ensureDepth_getD]
    exact agrees i more found

end Flags

section Printing
variable {flags outer : List Bool}

/-- The lines of a node itself, in the words of the code. -/
theorem keyword_own (node : KeywordStatus) (isLastSibling : Bool) (agrees : Agrees flags outer) :
    ∃ set, Agrees set (outer ++ [!isLastSibling]) ∧
      ltfLogsInfoPrintKeywordRec flags outer.length isLastSibling node =
        ((nodeLines (!isLastSibling) node).flatMap (prefixes outer ++ ·) ++
            (printKeywords set (outer.length + 1) (kids node)).1,
          (printKeywords set (outer.length + 1) (kids node)).2) := by
  obtain ⟨children, name, started, finished, ignored, file, line⟩ := node
  have set := agrees_set agrees (!isLastSibling)
  refine ⟨_, set, ?_⟩
  have same := putPrefix_agrees (agrees_front set)
  unfold ltfLogsInfoPrintKeywordRec
  simp only [ltfLogsInfoPrintProp, same, nodeLines]
  generalize finished.filter (·.bytes ≠ []) = finished
  cases children with
  | none => cases isLastSibling <;> cases finished <;> simp [propLine, kids, daSize, printKeywords]
  | some children =>
    cases children with
    | nil => cases isLastSibling <;> cases finished <;> simp [propLine, kids, daSize, printKeywords]
    | cons child rest => cases isLastSibling <;> cases finished <;> simp [propLine, kids, daSize]

/-- The children of a node are printed as a forest behind the columns of the node. -/
def Prints (node : KeywordStatus) : Prop := ∀ flags outer, Agrees flags outer →
  ∃ after, Agrees after outer ∧ printKeywords flags outer.length (kids node) =
    ((addresses (kids node)).flatMap (linesAt outer (kids node)), after)

theorem linesAt_here (outer : List Bool) (before rest : List KeywordStatus) (node : KeywordStatus) :
    linesAt outer (before ++ node :: rest) [before.length] =
      (nodeLines (!rest.isEmpty) node).flatMap (prefixes outer ++ ·) := by
  have found : nodeAt (before ++ node :: rest) [before.length] = some node := by simp [nodeAt]
  have later : hasLater (before ++ node :: rest) [before.length] = !rest.isEmpty := by
    cases rest <;> simp [hasLater]
  rw [linesAt, found]
  simp only [later, bars, List.length_singleton, Nat.sub_self, List.range_zero, List.map_nil, List.append_nil]

/-- Siblings are printed one after the other, with what each leaves in the flags. -/
theorem siblings_printed (before rest : List KeywordStatus) (each : ∀ node ∈ rest, Prints node)
    (agrees : Agrees flags outer) : ∃ after, Agrees after outer ∧ printKeywords flags outer.length rest =
      ((addressesFrom before.length rest).flatMap (linesAt outer (before ++ rest)), after) := by
  induction rest generalizing before flags with
  | nil => exact ⟨flags, agrees, rfl⟩
  | cons node rest ih =>
    obtain ⟨set, ready, own⟩ := keyword_own node rest.isEmpty agrees
    obtain ⟨inner, left, children⟩ := each node List.mem_cons_self set _ ready
    rw [List.length_append, List.length_singleton] at children
    have ahead : ∀ other ∈ rest, Prints other := fun other inside => each other (List.mem_cons_of_mem _ inside)
    obtain ⟨after, kept, others⟩ := ih (before ++ [node]) ahead (agrees_front left)
    rw [List.append_assoc, List.length_append, List.length_singleton] at others
    refine ⟨after, kept, ?_⟩
    have found : (before ++ node :: rest)[before.length]? = some node := by simp
    have last : decide (before.length + 1 < (before ++ node :: rest).length) = !rest.isEmpty := by
      cases rest <;> simp
    have deeper : (addresses (kids node)).flatMap
          (fun address => linesAt outer (before ++ node :: rest) (before.length :: address)) =
        (addresses (kids node)).flatMap (linesAt (outer ++ [!rest.isEmpty]) (kids node)) := by
      refine List.flatMap_congr fun address inside => ?_
      have nonempty : address ≠ [] := fun empty => addresses_nonempty 0 (kids node) (empty ▸ inside)
      rw [linesAt_cons nonempty outer found, last]
    simp only [printKeywords, own, children, others, addressesFrom_cons, List.flatMap_append, List.flatMap_cons,
      List.flatMap_map, linesAt_here, deeper]
    rfl

theorem sizeOf_kid {node kid : KeywordStatus} (inside : kid ∈ kids node) : sizeOf kid < sizeOf node := by
  obtain ⟨children, name, started, finished, ignored, file, line⟩ := node
  cases children with
  | none => exact absurd inside List.not_mem_nil
  | some children =>
    have smaller := List.sizeOf_lt_of_mem (show kid ∈ children from inside)
    simp
    omega

theorem keyword_induction {holds : KeywordStatus → Prop} (step : ∀ node, (∀ kid ∈ kids node, holds kid) → holds node)
    (node : KeywordStatus) : holds node := by
  induction size : sizeOf node using Nat.strongRecOn generalizing node with
  | ind n ih => exact step node fun kid inside => ih (sizeOf kid) (size ▸ sizeOf_kid inside) kid rfl

theorem prints (node : KeywordStatus) : Prints node :=
  keyword_induction (fun _ each _ _ agrees => siblings_printed [] _ each agrees) node

end Printing

section Addresses

theorem mem_addressesFrom {address : List Nat} (i : Nat) (forest : List KeywordStatus) :
    address ∈ addressesFrom i forest ↔ ∃ j inner node, address = (i + j) :: inner ∧ forest[j]? = some node ∧
      (inner = [] ∨ inner ∈ addresses (kids node)) := by
  induction forest generalizing i with
  | nil => simp [addressesFrom]
  | cons first rest ih =>
    rw [addressesFrom_cons, List.mem_append, List.mem_cons, List.mem_map, ih]
    constructor
    · intro inside
      obtain (here | ⟨inner, deeper, same⟩) | ⟨j, inner, node, same, found, deeper⟩ := inside
      · exact ⟨0, [], first, here, rfl, .inl rfl⟩
      · exact ⟨0, inner, first, same.symm, rfl, .inr deeper⟩
      · refine ⟨j + 1, inner, node, ?_, found, deeper⟩
        rw [same]
        congr 1
        omega
    · intro inside
      obtain ⟨j, inner, node, same, found, deeper⟩ := inside
      cases j with
      | zero =>
        cases found
        obtain rfl | deeper := deeper
        · exact .inl (.inl same)
        · exact .inl (.inr ⟨inner, deeper, same.symm⟩)
      | succ j =>
        refine .inr ⟨j, inner, node, ?_, found, deeper⟩
        rw [same]
        congr 1
        omega

theorem nodeAt_isSome (forest : List KeywordStatus) (i : Nat) (inner : List Nat) :
    (nodeAt forest (i :: inner)).isSome ↔
      ∃ node, forest[i]? = some node ∧ (inner = [] ∨ (nodeAt (kids node) inner).isSome) := by
  cases inner with
  | nil => simp [nodeAt, Option.isSome_iff_exists]
  | cons j inner =>
    rw [nodeAt_cons (List.cons_ne_nil j inner)]
    cases forest[i]? <;> simp

/-- Every node has its place in the order. -/
theorem mem_addresses (forest : List KeywordStatus) (address : List Nat) :
    address ∈ addresses forest ↔ (nodeAt forest address).isSome := by
  have level : ∀ forest, (∀ node ∈ forest, ∀ inner, inner ∈ addresses (kids node) ↔ (nodeAt (kids node) inner).isSome) →
      ∀ address, address ∈ addresses forest ↔ (nodeAt forest address).isSome := by
    intro forest each address
    cases address with
    | nil => simp [addresses, addresses_nonempty, nodeAt]
    | cons i inner =>
      rw [addresses, mem_addressesFrom, nodeAt_isSome]
      constructor
      · intro inside
        obtain ⟨j, inner', node, same, found, deeper⟩ := inside
        rw [Nat.zero_add] at same
        cases same
        exact ⟨node, found, deeper.imp_right (each node (List.mem_of_getElem? found) inner).mp⟩
      · intro inside
        obtain ⟨node, found, deeper⟩ := inside
        exact ⟨i, inner, node, by rw [Nat.zero_add], found,
          deeper.imp_right (each node (List.mem_of_getElem? found) inner).mpr⟩
  exact level forest (fun node _ => keyword_induction (fun node each => level (kids node) each) node) address

end Addresses

/-- The tree is the lines of all its nodes, each of them behind the columns of its node. -/
theorem tree_printed (test : StateTest) :
    let forest := test.keywordStatuses.getD []
    ltfLogsInfoPrintTestKeywordTree test = (addresses forest).flatMap (fun address =>
      (nodeAt forest address).elim [] fun node =>
        (nodeLines (hasLater forest address) node).flatMap (prefixes (bars forest address) ++ ·)) ∧
      ∀ address, address ∈ addresses forest ↔ (nodeAt forest address).isSome := by
  intro forest
  have none : Agrees [] [] := by
    intro i more found
    cases found
  obtain ⟨after, _, printed⟩ := siblings_printed [] forest (fun node _ => prints node) none
  refine ⟨?_, mem_addresses forest⟩
  have whole : ltfLogsInfoPrintTestKeywordTree test = (addresses forest).flatMap (linesAt [] forest) :=
    congrArg Prod.fst printed
  rw [whole]
  refine List.flatMap_congr fun address _ => ?_
  unfold linesAt
  cases nodeAt forest address with
  | none => rfl
  | some node => rfl

end Ltf.Proofs.KeywordTree
