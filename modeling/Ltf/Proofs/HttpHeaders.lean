import Ltf.Proofs.HttpHandles
import Ltf.Webdriver

/-! The headers that curl has after they were set from a Lua array. -/

namespace Ltf.Proofs.HttpHeaders
open CString Ltf.Http Ltf.Webdriver Steps HttpHandles

/-- The lines of the list that the option for headers points to. -/
def carried (ud : LModuleHttp) : List CStr :=
  match ud.headers with
  | some list => if ud.h.bind (·.httpHeader) = some list.serial then list.lines else []
  | none => []

variable {ud : LModuleHttp} {host : Host}

theorem luaToSlist_strings (items : List CStr) : luaToSlist (items.map some) = some items.dropLast := by
  rw [luaToSlist, ← List.map_dropLast]
  generalize items.dropLast = items
  induction items with
  | nil => rfl
  | cons item items ih =>
    rw [List.map_cons, List.mapM_cons, ih]
    rfl

theorem dropLast_whole (items : List CStr) : items.dropLast = items ↔ items = [] := by
  obtain rfl | ⟨before, last, rfl⟩ := List.eq_nil_or_concat' items
  · simp
  · simp

/-- What is left of a handle and its list when new headers were set. -/
def renewed (ud : LModuleHttp) (n : Nat) (lines : List CStr) : LModuleHttp :=
  let list := if lines.length = 0 then none else some { serial := n, lines : SList }
  { ud with h := install ud.h optHttpHeader (list.map (·.serial)), headers := list }

theorem carried_renewed {easy : Easy} (handle : ud.h = some easy) (n : Nat) (lines : List CStr) :
    carried (renewed ud n lines) = lines := by
  by_cases empty : lines.length = 0
  · simp [renewed, carried, List.eq_nil_of_length_eq_zero empty]
  · simp [renewed, carried, empty, handle, install]

theorem carried_missing (handle : ud.h = none) (n : Nat) (lines : List CStr) : carried (renewed ud n lines) = [] := by
  by_cases empty : lines.length = 0
  · simp [renewed, carried, empty]
  · simp [renewed, carried, empty, handle, install]

theorem setopt_table (ud : LModuleHttp) (host : Host) (items : List CStr) :
    lModuleHttpSetopt ud host optHttpHeader (.table (items.map some)) none = (do
      let ud ← udClearSlist ud
      easyCall ud.h
      return (renewed ud host.lists items.dropLast, { host with lists := host.lists + 1 }, .returned)) := by
  simp only [lModuleHttpSetopt, setoptTable, ne_eq, not_true, false_and, if_false, luaToSlist_strings]
  congr 1
  funext ud
  cases called : easyCall ud.h with
  | error fault => simp only [curlEasySetopt, called, bind_of_error rfl]
  | ok _ => simp only [curlEasySetopt, called, bind_of_ok rfl]; rfl

theorem setopt_headers (free : ¬ ListInstalled ud) (usable : Usable ud) (host : Host) (items : List CStr) :
    lModuleHttpSetopt ud host optHttpHeader (.table (items.map some)) none =
      .ok (renewed ud host.lists items.dropLast, { host with lists := host.lists + 1 }, .returned) := by
  have opened : easyCall ({ ud with headers := none } : LModuleHttp).h = .ok () := easyCall_of_usable usable
  rw [setopt_table, bind_of_ok (udClearSlist_of_free free), bind_of_ok opened]
  rfl

/-- Unless setting it goes wrong by itself, an array is installed whole only if it is empty. -/
theorem setopt_carried (ud : LModuleHttp) (host : Host) (items : List CStr) :
    Sound (fun ended => carried ended.1 = items ↔ items = []) (fun _ => ¬ Usable ud ∨ ListInstalled ud)
      (lModuleHttpSetopt ud host optHttpHeader (.table (items.map some)) none) := by
  by_cases live : ListInstalled ud
  · obtain ⟨list, found, points⟩ := live
    have fails : udClearSlist ud = .error .installedList := by
      simp only [udClearSlist, found]
      exact if_pos points
    rw [setopt_table, bind_of_error fails]
    exact .inr ⟨list, found, points⟩
  by_cases usable : Usable ud
  · rw [setopt_headers live usable]
    show carried (renewed ud host.lists items.dropLast) = items ↔ items = []
    cases handle : ud.h with
    | none =>
      rw [carried_missing handle]
      exact eq_comm
    | some easy =>
      rw [carried_renewed handle]
      exact dropLast_whole items
  · have fails : easyCall ({ ud with headers := none } : LModuleHttp).h = .error .cleanedHandle := easyCall_of_not usable
    rw [setopt_table, bind_of_ok (udClearSlist_of_free live), bind_of_error fails]
    exact .inl usable

section Requests
variable {world : World}

/-- A call on the handle that was made last. -/
theorem onObject_last {objects : List LModuleHttp} {call : LModuleHttp → Host → Exec Ended} {ended : Ended}
    (reached : ud.collected = false) (ran : call ud host = .ok ended) :
    onObject { objects := objects ++ [ud], host } objects.length call =
      .ok { objects := objects ++ [ended.1], host := ended.2.1 } := by
  have found : (objects ++ [ud])[objects.length]? = some ud := by simp
  simp only [onObject, found, reached, ran, bind_of_ok rfl, Bool.false_eq_true, if_false]
  rw [List.set_append_right _ _ (Nat.le_refl _), Nat.sub_self]
  rfl

/-- Options with a single value change nothing that is looked at here. -/
theorem scalars_still {objects : List LModuleHttp} {options : List Int} (reached : ud.collected = false)
    (usable : Usable ud) (single : ∀ option ∈ options, option ≠ optHttpHeader ∧ option ≠ optQuote) :
    (options.map (HttpCall.setopt objects.length · .scalar none)).foldlM httpStep { objects := objects ++ [ud], host } =
      .ok { objects := objects ++ [ud], host } := by
  apply foldlM_still
  intro call inside
  obtain ⟨option, among, rfl⟩ := List.mem_map.mp inside
  obtain ⟨header, quote⟩ := single option among
  have same : install ud.h option none = ud.h := by
    simp only [install, header, quote, if_false]
    exact Option.map_id'
  have ran : lModuleHttpSetopt ud host option .scalar none = .ok (ud, host, .returned) := by
    simp only [lModuleHttpSetopt, curlEasySetopt, easyCall_of_usable usable, bind_of_ok rfl, Option.isNone_none,
      if_true, same]
    rfl
  exact @onObject_last _ _ _ (fun ud host => lModuleHttpSetopt ud host option .scalar none) _ reached ran

theorem fresh_usable : Usable { h := some {} } := by
  intro easy found
  cases found
  rfl

theorem fresh_free : ¬ ListInstalled { h := some {} } := by
  rintro ⟨list, found, -⟩
  cases found

theorem renewed_usable (usable : Usable ud) (n : Nat) (lines : List CStr) : Usable (renewed ud n lines) := by
  intro easy found
  obtain ⟨before, handle, rfl⟩ := Option.map_eq_some_iff.mp found
  exact usable before handle

theorem setopt_callback (usable : Usable ud) (host : Host) : ∃ after,
    lModuleHttpSetopt ud host optWriteFunction .function none =
      .ok ({ ud with writeRef := some host.refs.next }, after, .returned) := by
  simp only [lModuleHttpSetopt, setoptFunction, if_true, easyCall_of_usable usable, bind_of_ok rfl]
  exact ⟨_, rfl⟩

/-- Whatever a request sets with single values, curl gets all but the last one of its headers. -/
theorem request_carried {request : Request}
    (single : ∀ option ∈ request.options, option ≠ optHttpHeader ∧ option ≠ optQuote) (world : World) :
    ∃ after ud, (request.prepare world.objects.length).foldlM httpStep world = .ok after ∧
      after.objects[world.objects.length]? = some ud ∧ carried ud = request.headers.dropLast := by
  obtain ⟨objects, host⟩ := world
  let fresh : LModuleHttp := { h := some {} }
  have headers := setopt_headers fresh_free fresh_usable host request.headers
  have usable := renewed_usable fresh_usable host.lists request.headers.dropLast
  obtain ⟨last, callback⟩ := setopt_callback usable { host with lists := host.lists + 1 }
  have scalars := @scalars_still fresh host objects _ rfl fresh_usable single
  have installs := @onObject_last fresh host objects
    (fun ud host => lModuleHttpSetopt ud host optHttpHeader (.table (request.headers.map some)) none) _ rfl headers
  have calls := @onObject_last _ _ objects (fun ud host => lModuleHttpSetopt ud host optWriteFunction .function none)
    _ rfl callback
  let ud : LModuleHttp := { renewed fresh host.lists request.headers.dropLast with writeRef := some host.refs.next }
  have same : carried ud = _ := @carried_renewed fresh {} rfl host.lists request.headers.dropLast
  refine ⟨{ objects := objects ++ [ud], host := last }, ud, ?_, by simp, same⟩
  rw [Request.prepare, List.cons_append, List.foldlM_cons]
  refine (bind_of_ok rfl).trans ?_
  rw [List.foldlM_append]
  refine (bind_of_ok scalars).trans ?_
  rw [List.foldlM_cons]
  refine (bind_of_ok installs).trans ?_
  rw [List.foldlM_cons]
  exact (bind_of_ok calls).trans rfl

theorem requests_single :
    ∀ request ∈ requests, ∀ option ∈ request.options, option ≠ optHttpHeader ∧ option ≠ optQuote := by
  decide

/-- An array of headers gets to curl whole exactly if it is empty, and none of the arrays of
the requests is. -/
theorem headers_whole_iff (ud : LModuleHttp) (host : Host) (items : List CStr) (world : World) :
    Sound (fun ended => carried ended.1 = items ↔ items = []) (fun _ => ¬ Usable ud ∨ ListInstalled ud)
        (lModuleHttpSetopt ud host optHttpHeader (.table (items.map some)) none) ∧
      ∀ request ∈ requests, ∃ after ud,
        (request.prepare world.objects.length).foldlM httpStep world = .ok after ∧
          after.objects[world.objects.length]? = some ud ∧ (carried ud = request.headers ↔ request.headers = []) := by
  refine ⟨setopt_carried ud host items, ?_⟩
  intro request among
  obtain ⟨after, ud, ran, found, same⟩ := request_carried (requests_single request among) world
  refine ⟨after, ud, ran, found, ?_⟩
  rw [same]
  exact dropLast_whole request.headers

/-- The header that keeps curl from waiting is lost. -/
theorem expect_lost : ∃ after ud, (wdPostJson.prepare 0).foldlM httpStep {} = .ok after ∧ after.objects[0]? = some ud ∧
    carried ud = [.lit "Content-Type: application/json; charset=utf-8", .lit "Accept: application/json"] ∧
      carried ud ≠ wdPostJson.headers := by
  refine ⟨_, _, rfl, rfl, ?_⟩
  decide

end Requests

end Ltf.Proofs.HttpHeaders
