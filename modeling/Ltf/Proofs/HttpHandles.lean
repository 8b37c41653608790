import Ltf.Base.Steps
import Ltf.Http

/-! The curl handles, header lists and callback references of HTTP objects over whole
runs, and which calls break what is promised about them. -/

namespace Ltf.Proofs.HttpHandles
open Ltf.Http Ledger Steps

/-- The callback references an object holds. -/
def refsOf (ud : LModuleHttp) : List Nat :=
  if ud.collected then [] else ud.writeRef.toList ++ ud.readRef.toList

def held (objects : List LModuleHttp) : List Nat := objects.flatMap refsOf

/-- A collected object has had its easy handle cleaned up once, and each reference is held
by an object that can still be reached or has been released once. -/
structure HttpKept (world : World) : Prop where
  cleaned : ∀ ud ∈ world.objects, ud.collected = true → ∀ easy, ud.h = some easy → easy.cleanups = 1
  refs : Accounted (held world.objects) world.host.refs

/-- There is no easy handle that was cleaned up. -/
def Usable (ud : LModuleHttp) : Prop := ∀ easy, ud.h = some easy → easy.cleanups = 0

/-- The list of the object is still installed in its easy handle. -/
def ListInstalled (ud : LModuleHttp) : Prop := ∃ list, ud.headers = some list ∧ installed ud.h list.serial = true

/-- Setting an option breaks no promise: libcurl is called on a handle that it still knows,
the list to be freed is not installed, and a function goes where it can be stored. -/
def FineOption (ud : LModuleHttp) (option : Int) : HttpValue → Prop
  | .scalar => Usable ud
  | .table items => option = optHttpHeader ∨ option = optQuote →
      ¬ ListInstalled ud ∧ ((luaToSlist items).isSome → Usable ud)
  | .function => (option = optWriteFunction ∨ option = optReadFunction) ∧ Usable ud
  | .other => True

/-- What a finaliser that does nothing may be left with. -/
structure Spent (ud : LModuleHttp) : Prop where
  cleaned : ∀ easy, ud.h = some easy → easy.cleanups = 1
  write : ud.writeRef = none
  read : ud.readRef = none

/-- An object can still be reached, and it is as the condition says. -/
def Reached (world : World) (i : Nat) (condition : LModuleHttp → Prop) : Prop :=
  ∀ ud, world.objects[i]? = some ud → ud.collected = false → condition ud

def FineCall (world : World) : HttpCall → Prop
  | .new _ => True
  | .setopt i option value _ => Reached world i (FineOption · option value)
  | .perform i _ => Reached world i Usable
  | .cleanup i => Reached world i Usable
  | .collect i => Reached world i Spent

/-- A call keeps what is promised about the object, whatever the other objects hold. -/
structure Good (others : List Nat) (ended : Ended) : Prop where
  cleaned : ended.1.collected = true → ∀ easy, ended.1.h = some easy → easy.cleanups = 1
  refs : Accounted (refsOf ended.1 ++ others) ended.2.1.refs

/-- No fault is excused. -/
abbrev Well (others : List Nat) (program : Exec Ended) : Prop := Sound (Good others) (fun _ => False) program

variable {ud : LModuleHttp} {host : Host} {others : List Nat}

theorem easyCall_of_usable (usable : Usable ud) : easyCall ud.h = .ok () := by
  unfold easyCall
  split
  next easy found => exact if_pos (usable easy found)
  next => rfl

theorem easyCall_of_not (stale : ¬ Usable ud) : easyCall ud.h = .error .cleanedHandle := by
  unfold easyCall
  split
  next easy found =>
    apply if_neg
    intro clean
    apply stale
    intro other same
    obtain rfl : easy = other := Option.some.inj (found.symm.trans same)
    exact clean
  next missing =>
    exfalso
    apply stale
    intro easy found
    simp [missing] at found

/-- Where libcurl is called the handle has to be usable, and that is all that can go wrong. -/
theorem called_iff {program : Exec Ended} {next : Unit → Exec Ended} (calls : program = easyCall ud.h >>= next)
    (rest : Usable ud → Well others (next ())) : Well others program ↔ Usable ud := by
  rw [calls]
  by_cases usable : Usable ud
  · refine iff_of_true ?_ usable
    rw [bind_of_ok (easyCall_of_usable usable)]
    exact rest usable
  · refine iff_of_false ?_ usable
    rw [bind_of_error (easyCall_of_not usable)]
    exact id

variable (ud) in
theorem refsOf_reached (reached : ud.collected = false) : refsOf ud = ud.writeRef.toList ++ ud.readRef.toList := by
  simp [refsOf, reached]

variable (ud) in
/-- An object that can still be reached owes nothing to its easy handle. -/
theorem good_reached {outcome : LuaOutcome} (reached : ud.collected = false)
    (refs : Accounted (refsOf ud ++ others) host.refs) : Good others (ud, host, outcome) where
  cleaned := by
    intro gone
    simp [reached] at gone
  refs := refs

theorem udClearSlist_of_free (free : ¬ ListInstalled ud) : udClearSlist ud = .ok { ud with headers := none } := by
  unfold udClearSlist
  split
  next missing => rw [← missing]
  next list found =>
    apply if_neg
    intro live
    exact free ⟨list, found, live⟩

/-- The reference taken for a callback is the object's in place of the old one. -/
theorem replace_ref {old kept : List Nat} (accounted : Accounted (refsOf ud ++ others) host.refs)
    (same : (refsOf ud ++ others).Perm (old ++ kept)) :
    Accounted (host.refs.next :: kept) (Book.release { host.refs with next := host.refs.next + 1 } old) := by
  apply Accounted.release
  exact accounted.acquire.perm ((same.cons _).trans List.perm_middle.symm)

section Call
variable {option : Int} {rc : Option (List UInt8)} (reached : ud.collected = false)
  (accounted : Accounted (refsOf ud ++ others) host.refs)
include reached accounted

theorem scalar_iff : Well others (lModuleHttpSetopt ud host option .scalar rc) ↔ Usable ud := by
  apply called_iff
  · simp only [lModuleHttpSetopt, curlEasySetopt, bind_assoc]
    rfl
  · intro _
    exact good_reached _ reached accounted

theorem perform_iff : Well others (lModuleHttpPerform ud host rc) ↔ Usable ud := by
  apply called_iff rfl
  intro _
  cases rc with
  | none => exact good_reached _ reached accounted
  | some text => exact good_reached _ reached accounted

theorem cleanup_iff : Well others (lModuleHttpCleanup ud host) ↔ Usable ud := by
  apply called_iff
  · simp only [lModuleHttpCleanup, easyCleanup, bind_assoc]
    rfl
  · intro _
    exact good_reached _ reached accounted

/-- A table for another option is refused before anything is done. -/
theorem table_iff {items : List (Option CString.CStr)} :
    Well others (setoptTable ud host option items rc) ↔ FineOption ud option (.table items) := by
  by_cases allowed : option = optHttpHeader ∨ option = optQuote
  · have taken : ¬ (option ≠ optHttpHeader ∧ option ≠ optQuote) := by
      rintro ⟨header, quote⟩
      exact allowed.elim header quote
    have condition : FineOption ud option (.table items) ↔
        ¬ ListInstalled ud ∧ ((luaToSlist items).isSome → Usable ud) := by
      simp only [FineOption, allowed, true_imp_iff]
    rw [condition, setoptTable, if_neg taken]
    by_cases live : ListInstalled ud
    · refine iff_of_false ?_ fun fine => fine.1 live
      obtain ⟨list, found, live⟩ := live
      have fails : udClearSlist ud = .error .installedList := by simp [udClearSlist, found, live]
      rw [bind_of_error fails]
      exact id
    · rw [bind_of_ok (udClearSlist_of_free live)]
      simp only [live, not_false_eq_true, true_and]
      cases converted : luaToSlist items with
      | none =>
        refine iff_of_true ?_ (by simp)
        exact good_reached { ud with headers := none } reached accounted
      | some lines =>
        simp only [Option.isSome_some, true_imp_iff]
        apply called_iff
        · simp only [curlEasySetopt, bind_assoc]
          rfl
        · intro _
          exact good_reached _ reached accounted
  · refine iff_of_true ?_ fun wanted => absurd wanted allowed
    have refused : option ≠ optHttpHeader ∧ option ≠ optQuote := not_or.mp allowed
    rw [setoptTable, if_pos refused]
    exact good_reached _ reached accounted

/-- A reference to a function for another option is lost at once. -/
theorem function_iff : Well others (setoptFunction ud host option rc) ↔ FineOption ud option .function := by
  have kept : refsOf ud ++ others = ud.writeRef.toList ++ (ud.readRef.toList ++ others) := by
    rw [refsOf_reached ud reached, List.append_assoc]
  by_cases write : option = optWriteFunction
  · simp only [FineOption, write, true_or, true_and]
    apply called_iff
    · rw [setoptFunction, if_pos rfl]
    · intro _
      apply good_reached { ud with writeRef := some host.refs.next } reached
      rw [refsOf_reached { ud with writeRef := some host.refs.next } reached]
      exact replace_ref accounted (kept ▸ List.Perm.refl _)
  · by_cases read : option = optReadFunction
    · simp only [FineOption, read, or_true, true_and]
      apply called_iff
      · rw [setoptFunction, if_neg (read ▸ write), if_pos rfl]
      · intro _
        apply good_reached { ud with readRef := some host.refs.next } reached
        rw [refsOf_reached { ud with readRef := some host.refs.next } reached]
        have other : (refsOf ud ++ others).Perm (ud.readRef.toList ++ (ud.writeRef.toList ++ others)) :=
          kept ▸ List.perm_append_comm_assoc ..
        apply (replace_ref accounted other).perm
        rw [List.append_assoc]
        exact List.perm_middle.symm
    · refine iff_of_false ?_ fun fine => fine.1.elim write read
      rw [setoptFunction, if_neg write, if_neg read]
      intro good
      have before := accounted.total
      have after := good.refs.total
      simp only [List.length_append] at before after
      omega

theorem setopt_iff {value : HttpValue} :
    Well others (lModuleHttpSetopt ud host option value rc) ↔ FineOption ud option value := by
  cases value with
  | scalar => exact scalar_iff reached accounted
  | table items => exact table_iff reached accounted
  | function => exact function_iff reached accounted
  | other => exact iff_of_true (good_reached _ reached accounted) trivial

theorem finalise_iff : Well others (finalise ud host) ↔ Spent ud := by
  have ran : finalise ud host =
      .ok ({ ud with collected := true }, host, raised "ltf.curl.easy expected, got userdata") := rfl
  rw [ran]
  constructor
  · intro good
    have lost : (refsOf ud).length = 0 := by
      have before := accounted.total
      have after := good.refs.total
      simp only [refsOf, if_true, List.nil_append, List.length_append] at before after ⊢
      omega
    rw [refsOf_reached ud reached, List.length_append] at lost
    constructor
    · exact good.cleaned rfl
    · cases found : ud.writeRef with
      | none => rfl
      | some ref => simp [found] at lost
    · cases found : ud.readRef with
      | none => rfl
      | some ref => simp [found] at lost
  · intro spent
    constructor
    · exact fun _ => spent.cleaned
    · rw [refsOf_reached ud reached, spent.write, spent.read] at accounted
      exact accounted

end Call

variable {objects : List LModuleHttp} {world : World} {i : Nat}

/-- The references of all objects but one. -/
def heldBeside (objects : List LModuleHttp) (i : Nat) : List Nat :=
  held (objects.take i) ++ held (objects.drop (i + 1))

theorem held_cut (found : objects[i]? = some ud) : (held objects).Perm (refsOf ud ++ heldBeside objects i) := by
  obtain ⟨inside, rfl⟩ := List.getElem?_eq_some_iff.mp found
  have cut : objects = objects.take i ++ objects[i] :: objects.drop (i + 1) := by simp
  have joined : held objects = held (objects.take i) ++ (refsOf objects[i] ++ held (objects.drop (i + 1))) := by
    conv_lhs => rw [cut]
    rw [held, List.flatMap_append, List.flatMap_cons]
    rfl
  rw [joined]
  exact List.perm_append_comm_assoc ..

theorem heldBeside_set (i : Nat) : heldBeside (objects.set i ud) i = heldBeside objects i := by
  rw [heldBeside, heldBeside, List.take_set_of_le (Nat.le_refl i), List.drop_set_of_lt (Nat.lt_succ_self i)]

/-- A call on one object keeps the promises exactly when it keeps those about this object. -/
theorem after_iff {ended : Ended} (kept : HttpKept world) (found : world.objects[i]? = some ud) :
    HttpKept { objects := world.objects.set i ended.1, host := ended.2.1 } ↔
      Good (heldBeside world.objects i) ended := by
  have inside := (List.getElem?_eq_some_iff.mp found).1
  have now : (world.objects.set i ended.1)[i]? = some ended.1 := List.getElem?_set_self inside
  have cut := held_cut now
  rw [heldBeside_set] at cut
  constructor
  · intro after
    constructor
    · exact after.cleaned ended.1 (List.mem_set inside ended.1)
    · exact after.refs.perm cut
  · intro good
    constructor
    · intro other listed
      rcases List.mem_or_eq_of_mem_set listed with before | rfl
      · exact kept.cleaned other before
      · exact good.cleaned
    · exact good.refs.perm cut.symm

theorem onObject_iff {call : LModuleHttp → Host → Exec Ended} {condition : LModuleHttp → Prop} (kept : HttpKept world)
    (each : ∀ ud others, ud.collected = false → Accounted (refsOf ud ++ others) world.host.refs →
      (Well others (call ud world.host) ↔ condition ud)) :
    Sound HttpKept (fun _ => False) (onObject world i call) ↔ Reached world i condition := by
  cases found : world.objects[i]? with
  | none =>
    rw [onObject, found]
    refine iff_of_true kept ?_
    intro ud other
    simp [found] at other
  | some ud =>
    have condition_iff : Reached world i condition ↔ (ud.collected = false → condition ud) := by
      simp [Reached, found]
    rw [condition_iff, onObject, found]
    dsimp only
    cases reached : ud.collected with
    | true => exact iff_of_true kept nofun
    | false =>
      have same := each ud _ reached (kept.refs.perm (held_cut found))
      rw [if_neg Bool.false_ne_true, ← same]
      simp only [true_imp_iff]
      cases call ud world.host with
      | error fault => exact Iff.rfl
      | ok ended => exact after_iff kept found

theorem step_iff {call : HttpCall} (kept : HttpKept world) :
    Sound HttpKept (fun _ => False) (httpStep world call) ↔ FineCall world call := by
  cases call with
  | new made =>
    refine iff_of_true ?_ trivial
    constructor
    · intro ud listed
      rcases List.mem_append.mp listed with before | fresh
      · exact kept.cleaned ud before
      · cases List.mem_singleton.mp fresh
        exact nofun
    · have same : held (world.objects ++ [lModuleHttpNew made]) = held world.objects := by
        rw [held, List.flatMap_append]
        exact List.append_nil _
      exact same ▸ kept.refs
  | setopt i option value rc =>
    simp only [httpStep, FineCall]
    apply onObject_iff kept
    intro _ _ reached accounted
    exact setopt_iff reached accounted
  | perform i rc =>
    simp only [httpStep, FineCall]
    apply onObject_iff kept
    intro _ _ reached accounted
    exact perform_iff reached accounted
  | cleanup i => exact onObject_iff kept fun _ _ reached accounted => cleanup_iff reached accounted
  | collect i => exact onObject_iff kept fun _ _ reached accounted => finalise_iff reached accounted

theorem kept_start : HttpKept {} where
  cleaned := nofun
  refs := .start

/-- A run keeps the promises at every point exactly when each of its calls is a fine one. -/
theorem http_kept_iff (calls : List HttpCall) :
    (∀ done rest, calls = done ++ rest → Sound HttpKept (fun _ => False) (done.foldlM httpStep {})) ↔
      ∀ before call rest middle, calls = before ++ call :: rest →
        before.foldlM httpStep {} = .ok middle → FineCall middle call := by
  exact Sound.foldlM_iff (fun _ _ kept => (step_iff kept).mpr) (fun _ _ kept => (step_iff kept).mp)
    (fun _ kept => kept) kept_start

/-- A test as most are: a callback, then a cleanup, and the collector at the end. -/
def cleanedUp : List HttpCall := [.new true, .setopt 0 optWriteFunction .function none, .cleanup 0, .collect 0]

/-- The finaliser never releases the callback. -/
theorem callback_lost : ¬ Sound HttpKept (fun _ => False) (cleanedUp.foldlM httpStep {}) := by
  intro kept
  exact absurd kept.refs.total (by decide)

end Ltf.Proofs.HttpHandles
