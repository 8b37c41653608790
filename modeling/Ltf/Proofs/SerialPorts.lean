import Ltf.Base.Monitor
import Ltf.Base.Stateful
import Ltf.Serial

/-! What becomes of every port over a whole run: it is used only while it is there, and it is
freed once, right after the first close that succeeds. Nothing else frees it: the finaliser
is not where Lua looks for one. -/

namespace Ltf.Proofs.SerialPorts
open CString Serial Stateful Monitor

inductive Life where
  | unknown
  | held
  | listed
  | closed
  | freed
deriving DecidableEq

/-- The life of a port. A port of a list is never opened, and goes with its list. -/
def Life.next (port : Nat) (life : Life) (event : SpEvent) : Option Life :=
  match event with
  | .found other => if other = port then (if life = .unknown then some .held else none) else some life
  | .listed ports => if port ∈ ports then (if life = .unknown then some .listed else none) else some life
  | .called other call code =>
    if other = some port then
      match life with
      | .held => some (if call = .close ∧ code = 0 then .closed else .held)
      | .listed => if call = .close then none else some .listed
      | _ => none
    else some life
  | .freed other => if other = port then (if life = .closed then some .freed else none) else some life
  | .listFreed ports => if port ∈ ports then (if life = .listed then some .freed else none) else some life

/-- Where a port is, going by the userdata and the list at hand. -/
def lifeOf (list : List Nat) (world : World) (port : Nat) : Life :=
  if world.ports ≤ port then .unknown
  else if some port ∈ world.handles then .held
  else if port ∈ list then .listed
  else .freed

/-- Every port has led its life up to where it is, and no two userdata share one. -/
structure Kept (list : List Nat) (world : World) : Prop where
  lives : ∀ port, Accepts (Life.next port) .unknown world.events (lifeOf list world port)
  handles : ∀ port, some port ∈ world.handles → port < world.ports
  single : ∀ (i j port : Nat), world.handles[i]? = some (some port) → world.handles[j]? = some (some port) → i = j
  list : ∀ port ∈ list, port < world.ports ∧ some port ∉ world.handles

variable {env : SerialEnv} {list : List Nat} {world : World}

theorem kept_start : Kept [] {} where
  lives := fun _ => .nil
  handles := by simp
  single := by simp
  list := by simp

theorem Kept.held (kept : Kept list world) {port : Nat} (inside : some port ∈ world.handles) :
    lifeOf list world port = .held := by
  rw [lifeOf, if_neg (Nat.not_le.mpr (kept.handles port inside)), if_pos inside]

theorem Kept.listed (kept : Kept list world) {port : Nat} (inside : port ∈ list) : lifeOf list world port = .listed := by
  obtain ⟨known, other⟩ := kept.list port inside
  rw [lifeOf, if_neg (Nat.not_le.mpr known), if_neg other, if_pos inside]

/-- A port that may be used: `NULL`, one of a userdata, or one of the list. -/
def Usable (list : List Nat) (port : Option Nat) (world : World) : Prop :=
  port = none ∨ port ∈ world.handles ∨ ∃ number ∈ list, port = some number

/-- The use of a port leaves every life where it is. -/
theorem Kept.call (kept : Kept list world) {port : Option Nat} (usable : Usable list port world) {call : SpCall} {code : Int}
    (open_port : ¬ (call = .close ∧ code = 0)) (free : call = .close → ∀ number, port = some number → number ∉ list)
    (asked : Nat) : Kept list { world with asked, events := world.events ++ [.called port call code] } := by
  refine ⟨fun other => (kept.lives other).concat ?_, kept.handles, kept.single, kept.list⟩
  show Life.next other (lifeOf list world other) (.called port call code) = some (lifeOf list world other)
  by_cases same : port = some other
  · subst same
    rcases usable with empty | inside | ⟨number, inside, equal⟩
    · cases empty
    · simp [Life.next, kept.held inside, open_port]
    · cases equal
      have use : call ≠ .close := fun close => free close other rfl inside
      simp [Life.next, kept.listed inside, use]
  · simp [Life.next, same]

/-- A program that uses one port. -/
abbrev Uses (list : List Nat) (port : Option Nat) {α : Type} (program : SerialM α) : Prop :=
  Keeps (fun world => Kept list world ∧ Usable list port world) program

theorem spCall_runs (port : Option Nat) {call : SpCall} (use : call ≠ .close) :
    Runs (fun world => Kept list world ∧ Usable list port world) (spCall env port call) := by
  rintro world ⟨kept, usable⟩
  exact ⟨_, _, rfl, kept.call usable (fun close => use close.1) (fun close => absurd close use) _, usable⟩

theorem spCall_uses (port : Option Nat) {call : SpCall} (use : call ≠ .close) : Uses list port (spCall env port call) :=
  (spCall_runs port use).keeps

theorem spCheck_uses (port : Option Nat) {call : SpCall} (use : call ≠ .close) : Uses list port (spCheck env port call) :=
  (spCall_uses port use).bind fun _ => .ite (.throw _) (.pure _)

section Arguments
variable {holds : World → Prop} (args : List SerialArg) (idx : Nat)

theorem checkLstring_keeps : Keeps holds (checkLstring env args idx) := by
  unfold checkLstring
  repeat' split
  all_goals first | exact .pure _ | exact .throw _

theorem checkString_keeps : Keeps holds (checkString env args idx) :=
  (checkLstring_keeps args idx).bind fun _ => .pure _

theorem integerOf_keeps (value : Int ⊕ UInt64) : Keeps holds (integerOf idx value) := by
  cases value with
  | inl value => exact .pure _
  | inr bits =>
    rw [integerOf.eq_def]
    dsimp only
    cases Binary64.toInt64 bits with
    | none => exact .throw _
    | some value => exact .pure _

theorem checkInteger_keeps : Keeps holds (checkInteger env args idx) := by
  unfold checkInteger
  repeat' split
  all_goals first | exact integerOf_keeps idx _ | exact .throw _

theorem optInteger_keeps (default : Int) : Keeps holds (optInteger env args idx default) := by
  unfold optInteger
  split
  · exact .pure _
  · exact .pure _
  · exact checkInteger_keeps args idx

theorem checkPort_gives : Gives holds (fun found world => holds world ∧ world.handles[found.1]? = some found.2)
    (checkPort args idx) := by
  intro world start
  have asked : (get : SerialM World) world = (.ok world, world) := rfl
  rw [checkPort, bind_apply, asked]
  cases args[idx - 1]? with
  | none => exact start
  | some arg =>
    cases arg with
    | port handle =>
      dsimp only
      cases found : world.handles[handle]? with
      | none => exact start
      | some port => exact ⟨start, found⟩
    | table => exact start
    | value value => exact start

end Arguments

/-- What is done with the port of an argument. -/
theorem on_port {α : Type} (args : List SerialArg) (idx : Nat) {body : Nat × Option Nat → SerialM α}
    (uses : ∀ handle port, Uses [] port (body (handle, port))) : Keeps (Kept []) (checkPort args idx >>= body) := by
  refine (checkPort_gives args idx).bind fun found world after => ?_
  obtain ⟨kept, here⟩ := after
  exact (uses found.1 found.2 world ⟨kept, .inr (.inl (List.mem_of_getElem? here))⟩).1

theorem setNamed_keeps {α : Type} (names : List (CStr × α)) (invalid : CStr) {call : α → SpCall}
    (use : ∀ value, call value ≠ .close) (args : List SerialArg) : Keeps (Kept []) (setNamed env names invalid call args) := by
  refine on_port args _ fun handle port => ?_
  refine (checkString_keeps args _).bind fun str => ?_
  cases names.lookup str with
  | none => exact .throw _
  | some value => exact (spCheck_uses port (use value)).bind fun _ => .pure _

theorem setNumber_keeps {call : Int → SpCall} (use : ∀ value, call value ≠ .close) (args : List SerialArg) :
    Keeps (Kept []) (setNumber env call args) := by
  refine on_port args _ fun handle port => ?_
  refine (checkInteger_keeps args _).bind fun value => ?_
  exact (spCheck_uses port (use _)).bind fun _ => .pure _

theorem readHelper_keeps (blocking : Bool) (args : List SerialArg) : Keeps (Kept []) (readHelper env blocking args) := by
  refine on_port args _ fun handle port => ?_
  refine ((checkInteger_keeps args _).map _).bind fun n => ?_
  refine ((optInteger_keeps args _ 0).map _).bind fun toMs => ?_
  apply Keeps.guard
  have use : (if blocking then .blockingRead n.toNat (toUnsigned toMs) else .nonblockingRead n.toNat) ≠ SpCall.close := by
    cases blocking <;> simp
  refine (spCall_uses port use).bind fun got => ?_
  apply Keeps.guard
  exact .pure _

theorem writeHelper_keeps (blocking : Bool) (args : List SerialArg) : Keeps (Kept []) (writeHelper env blocking args) := by
  refine on_port args _ fun handle port => ?_
  refine (checkLstring_keeps args _).bind fun buf => ?_
  refine ((optInteger_keeps args _ 0).map _).bind fun toMs => ?_
  have use : (if blocking then .blockingWrite buf (toUnsigned toMs) else .nonblockingWrite buf) ≠ SpCall.close := by
    cases blocking <;> simp
  refine (spCall_uses port use).bind fun wrote => ?_
  apply Keeps.guard
  exact .pure _

theorem statusHelper_keeps (direction : Bool) (args : List SerialArg) : Keeps (Kept []) (statusHelper env direction args) := by
  refine on_port args _ fun handle port => ?_
  have use : (if direction then .inputWaiting else .outputWaiting) ≠ SpCall.close := by cases direction <;> simp
  refine (spCall_uses port use).bind fun r => ?_
  apply Keeps.guard
  exact .pure _

theorem drain_keeps (args : List SerialArg) : Keeps (Kept []) (lModuleSerialDrain env args) := by
  refine on_port args _ fun handle port => ?_
  have use : SpCall.drain ≠ .close := by simp
  exact (spCheck_uses port use).bind fun _ => .pure _

theorem info_runs (port : Option Nat) :
    Runs (fun world => Kept list world ∧ Usable list port world) (lPortInfoHelper env port) := by
  have helper : Runs (fun world => Kept list world ∧ Usable list port world) (portInfoHelperFromPort env port) := by
    refine (spCall_runs port (by simp)).bind fun description => ?_
    refine (spCall_runs port (by simp)).bind fun path => ?_
    refine (spCall_runs port (by simp)).bind fun transport => ?_
    dsimp only
    cases SpTransport.ofCode transport.code with
    | usb =>
      refine (spCall_runs port (by simp)).bind fun usb => ?_
      refine (spCall_runs port (by simp)).bind fun manufacturer => ?_
      refine (spCall_runs port (by simp)).bind fun product => ?_
      refine (spCall_runs port (by simp)).bind fun serial => ?_
      refine (spCall_runs port (by simp)).bind fun ids => ?_
      exact .pure _
    | bluetooth =>
      refine (spCall_runs port (by simp)).bind fun address => ?_
      exact .pure _
    | native => exact .pure _
    | unknown => exact .pure _
  exact helper.bind fun pi => .pure _

theorem get_port_info_keeps (args : List SerialArg) : Keeps (Kept []) (lModuleSerialGetPortInfo env args) :=
  on_port args _ fun _ port => (info_runs port).keeps.bind fun _ => .pure _

/-! The functions that find and free ports -/

theorem lifeOf_other {after : World} {other : List Nat} {port : Nat} (ports : after.ports ≤ port ↔ world.ports ≤ port)
    (handles : some port ∈ after.handles ↔ some port ∈ world.handles) (lists : port ∈ other ↔ port ∈ list) :
    lifeOf other after port = lifeOf list world port := by
  simp only [lifeOf, ports, handles, lists]

theorem Kept.found (kept : Kept [] world) : Kept [] { world with
    handles := world.handles ++ [some world.ports]
    ports := world.ports + 1
    events := world.events ++ [SpEvent.found world.ports] } := by
  have fresh : some world.ports ∉ world.handles := fun inside => absurd (kept.handles _ inside) (Nat.lt_irrefl _)
  refine ⟨fun port => (kept.lives port).concat ?_, ?_, ?_, by simp⟩
  · by_cases same : world.ports = port
    · subst same
      simp [Life.next, lifeOf]
    · have still : lifeOf [] _ port = lifeOf [] world port := @lifeOf_other _ world
        { world with handles := world.handles ++ [some world.ports], ports := world.ports + 1 } _ _
        (by show world.ports + 1 ≤ port ↔ _; omega) (by simp [Ne.symm same]) .rfl
      simp [Life.next, same]
      exact still.symm
  · intro port inside
    rcases List.mem_append.mp inside with old | new
    · exact Nat.lt_succ_of_lt (kept.handles port old)
    · simp at new
      show port < world.ports + 1
      omega
  · -- the new number stands at the end and nowhere before
    have place : ∀ i port, (world.handles ++ [some world.ports])[i]? = some (some port) →
        (world.handles[i]? = some (some port) ∧ port ≠ world.ports) ∨ (i = world.handles.length ∧ port = world.ports) := by
      intro i port here
      rcases Nat.lt_or_ge i world.handles.length with old | new
      · rw [List.getElem?_append_left old] at here
        exact .inl ⟨here, fun same => fresh (same ▸ List.mem_of_getElem? here)⟩
      · rw [List.getElem?_append_right new, List.getElem?_singleton] at here
        split at here
        · cases here
          exact .inr ⟨by omega, rfl⟩
        · cases here
    intro i j port first second
    rcases place i port first with ⟨one, old⟩ | ⟨one, new⟩
    · rcases place j port second with ⟨two, _⟩ | ⟨_, new⟩
      · exact kept.single i j port one two
      · exact absurd new old
    · rcases place j port second with ⟨_, old⟩ | ⟨two, _⟩
      · exact absurd new old
      · rw [one, two]

theorem mem_numbersFrom (world : World) (count port : Nat) :
    port ∈ numbersFrom world count ↔ world.ports ≤ port ∧ port < world.ports + count := by
  simp only [numbersFrom, List.mem_map, List.mem_range]
  constructor
  · rintro ⟨i, small, rfl⟩
    omega
  · rintro ⟨least, small⟩
    exact ⟨port - world.ports, by omega, by omega⟩

theorem Kept.list_found (kept : Kept [] world) (count : Nat) : Kept (numbersFrom world count) { world with
    ports := world.ports + count
    events := world.events ++ [SpEvent.listed (numbersFrom world count)] } := by
  refine ⟨fun port => (kept.lives port).concat ?_, ?_, kept.single, ?_⟩
  · by_cases inside : port ∈ numbersFrom world count
    · obtain ⟨least, small⟩ := (mem_numbersFrom world count port).mp inside
      have other : some port ∉ world.handles := fun held => absurd (kept.handles port held) (by omega)
      have later : ¬ world.ports + count ≤ port := by omega
      simp [Life.next, inside, lifeOf, least, later, other]
    · have apart := mt (mem_numbersFrom world count port).mpr inside
      simp [Life.next, inside]
      exact lifeOf_other (by show world.ports ≤ port ↔ world.ports + count ≤ port; omega) .rfl (by simp [inside])
  · intro port held
    exact Nat.lt_add_right count (kept.handles port held)
  · intro port inside
    obtain ⟨least, small⟩ := (mem_numbersFrom world count port).mp inside
    exact ⟨small, fun held => absurd (kept.handles port held) (by omega)⟩

theorem Kept.list_freed (kept : Kept list world) :
    Kept [] { world with events := world.events ++ [SpEvent.listFreed list] } := by
  refine ⟨fun port => (kept.lives port).concat ?_, kept.handles, kept.single, by simp⟩
  by_cases inside : port ∈ list
  · obtain ⟨known, other⟩ := kept.list port inside
    have later : ¬ world.ports ≤ port := by omega
    simp [Life.next, inside, lifeOf, later, other]
  · simp [Life.next, inside]
    exact lifeOf_other .rfl .rfl (by simp [inside])

theorem Kept.closed (kept : Kept [] world) {handle port : Nat} (here : world.handles[handle]? = some (some port)) (asked : Nat) :
    Kept [] { world with
      handles := world.handles.set handle none
      asked
      events := world.events ++ [.called (some port) .close 0] ++ [SpEvent.freed port] } := by
  have inside : some port ∈ world.handles := List.mem_of_getElem? here
  have others : ∀ (i other : Nat), (world.handles.set handle none)[i]? = some (some other) ↔
      world.handles[i]? = some (some other) ∧ other ≠ port := by
    intro i other
    rw [List.getElem?_set]
    by_cases same : handle = i
    · subst same
      have known : handle < world.handles.length := (List.getElem?_eq_some_iff.mp here).1
      rw [if_pos rfl, if_pos known, here]
      simp [eq_comm]
    · rw [if_neg same, iff_self_and]
      rintro found rfl
      exact same (kept.single handle i _ here found)
  have members : ∀ other, some other ∈ world.handles.set handle none ↔ some other ∈ world.handles ∧ other ≠ port := by
    intro other
    simp only [List.mem_iff_getElem?, others, exists_and_right]
  refine ⟨fun other => ?_, ?_, ?_, by simp⟩
  · by_cases same : other = port
    · subst same
      have closing : Life.next other (lifeOf [] world other) (.called (some other) .close 0) = some .closed := by
        simp [Life.next, kept.held inside]
      have later : ¬ world.ports ≤ other := Nat.not_le.mpr (kept.handles other inside)
      refine ((kept.lives other).concat closing).concat ?_
      simp [Life.next, lifeOf, later, members]
    · have still : Life.next other (lifeOf [] world other) (.called (some port) .close 0) = some (lifeOf [] world other) := by
        simp [Life.next, Ne.symm same]
      refine ((kept.lives other).concat still).concat ?_
      simp [Life.next, Ne.symm same]
      exact lifeOf_other .rfl (by simp [members, same]) .rfl
  · intro other held
    exact kept.handles other ((members other).mp held).1
  · intro i j other first second
    exact kept.single i j other ((others i other).mp first).1 ((others j other).mp second).1

theorem ask_keeps : Keeps (Kept []) (ask env fun _ => []) := by
  intro world kept
  have same : world.events ++ [] = world.events := List.append_nil _
  refine ⟨fun port => ?_, kept.handles, kept.single, by simp⟩
  have lives := kept.lives port
  rw [← same] at lives
  exact lives

theorem get_port_keeps (args : List SerialArg) : Keeps (Kept []) (lModuleSerialGetPortByName env args) := by
  refine (checkString_keeps args _).bind fun _ => ?_
  refine ask_keeps.bind fun answer => ?_
  apply Keeps.guard
  intro world kept
  exact kept.found

theorem list_ports_keeps (args : List SerialArg) : Keeps (Kept []) (lModuleSerialListPorts env args) := by
  refine ask_keeps.bind fun answer => ?_
  apply Keeps.guard
  intro world kept
  have all : Runs (Kept (numbersFrom world answer.ports))
      ((numbersFrom world answer.ports).mapM fun port => lPortInfoHelper env (some port)) := by
    refine .mapM fun port inside state kept => ?_
    obtain ⟨fields, later, ran, kept', _⟩ := info_runs (some port) state ⟨kept, .inr (.inr ⟨port, inside, rfl⟩)⟩
    exact ⟨fields, later, ran, kept'⟩
  obtain ⟨infos, later, ran, kept'⟩ := all _ (kept.list_found answer.ports)
  show Kept [] (((numbersFrom world answer.ports).mapM (fun port => lPortInfoHelper env (some port)) >>= _) _).2
  rw [bind_apply, ran]
  exact kept'.list_freed

theorem spCheck_apply (port : Option Nat) (call : SpCall) (world : World) :
    spCheck env port call world =
      (if (env.answer world.asked).code ≠ 0 then .error (.error (env.answer world.asked).message) else .ok (),
        { world with
          asked := world.asked + 1
          events := world.events ++ [.called port call (env.answer world.asked).code] }) := by
  rw [spCheck, bind_apply]
  show (if _ then _ else _ : SerialM Unit) _ = _
  split <;> rfl

/-- Only a close that succeeds frees the port, and it leaves `NULL` behind. -/
theorem close_keeps (args : List SerialArg) : Keeps (Kept []) (lModuleSerialClose env args) := by
  refine (checkPort_gives args _).bind fun found world after => ?_
  obtain ⟨handle, port⟩ := found
  obtain ⟨kept, here⟩ := after
  cases port with
  | none => exact kept
  | some port =>
    have inside : some port ∈ world.handles := List.mem_of_getElem? here
    show Kept [] ((spCheck env (some port) .close >>= _) world).2
    rw [bind_apply, spCheck_apply]
    by_cases closes : (env.answer world.asked).code = 0
    · have result := kept.closed here (world.asked + 1)
      rw [if_neg (not_not.mpr closes), closes]
      exact result
    · rw [if_pos closes]
      exact kept.call (.inr (.inl inside)) (fun close => closes close.2) (fun _ _ _ => List.not_mem_nil) _

theorem port_mt_keeps : ∀ entry ∈ portMt env, ∀ args, Keeps (Kept []) (entry.2 args) := by
  simp only [portMt, List.forall_mem_cons]
  refine ⟨close_keeps, drain_keeps, setNamed_keeps _ _ ?_, get_port_info_keeps, statusHelper_keeps true,
    statusHelper_keeps false, setNamed_keeps _ _ ?_, readHelper_keeps true, readHelper_keeps false, readHelper_keeps false,
    setNumber_keeps ?_, setNumber_keeps ?_, setNamed_keeps _ _ ?_, setNamed_keeps _ _ ?_, setNamed_keeps _ _ ?_,
    setNamed_keeps _ _ ?_, setNamed_keeps _ _ ?_, setNamed_keeps _ _ ?_, setNumber_keeps ?_, setNamed_keeps _ _ ?_,
    writeHelper_keeps true, writeHelper_keeps false, writeHelper_keeps true, close_keeps, by simp⟩
  all_goals simp

theorem module_fns_keep : ∀ entry ∈ moduleFns env, ∀ args, Keeps (Kept []) (entry.2 args) := by
  simp only [moduleFns, List.forall_mem_cons]
  exact ⟨get_port_keeps, list_ports_keeps, by simp⟩

theorem op_keeps (op : SerialOp) : Keeps (Kept []) (serialOp env op) := by
  cases op with
  | method name args =>
    show Keeps _ (((portMt env).lookup name).elim missing (· args))
    cases found : (portMt env).lookup name with
    | none => exact .throw _
    | some function => exact port_mt_keeps _ (Assoc.mem_of_lookup found) args
  | function name args =>
    show Keeps _ (((moduleFns env).lookup name).elim missing (· args))
    cases found : (moduleFns env).lookup name with
    | none => exact .throw _
    | some function => exact module_fns_keep _ (Assoc.mem_of_lookup found) args
  | collect handle => exact .pure _

/-- Lua finds no finaliser in the metatable. -/
theorem collect_still (handle : Nat) : serialStep env world (.collect handle) = world := by
  have none_there : finaliser env = none := by
    have missing : (metatable env).lookup (.lit "__gc") = none := by
      have first : (CStr.lit "__gc" == CStr.lit "__name") = false := by decide
      have second : (CStr.lit "__gc" == CStr.lit "__index") = false := by decide
      simp only [metatable, List.lookup_cons, first, second, List.lookup_nil]
    rw [finaliser, missing]
  rw [serialStep, serialOp, none_there]
  rfl

/-- Whatever is called on whatever port, and however libserialport answers, every port leads
its life from the first event on, and at the end it is held by one userdata, or freed. What
Lua collects is not freed. -/
theorem ports_lead_lives (env : SerialEnv) (ops : List SerialOp) :
    Kept [] (ops.foldl (serialStep env) {}) ∧
    ∀ handle, serialStep env (ops.foldl (serialStep env) {}) (.collect handle) = ops.foldl (serialStep env) {} := by
  have each : ∀ world, Kept [] world → Kept [] (ops.foldl (serialStep env) world) := by
    induction ops with
    | nil => exact fun _ kept => kept
    | cons op ops ih => exact fun world kept => ih _ (op_keeps op world kept)
  exact ⟨each {} kept_start, fun handle => collect_still handle⟩

end Ltf.Proofs.SerialPorts
