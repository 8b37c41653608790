import Ltf.Base.Steps
import Ltf.Picotui

/-! The region that scrolls and the rows of the user interface, through any sequence of calls and
resizes. A height is only held to the size of the terminal when a region is set up again. -/

namespace Ltf.Proofs.ScreenRegions
open CString Ltf.Picotui

variable {host : Host} {handle : Session → Session} {s after : Session} {t : Terminal}

section Regions

def regionOf : Output → Option (Int × Int)
  | .csr top bot => some (top, bot)
  | _ => none

/-- The region that scrolls in the end, if one was set. -/
def lastRegion (out : List Output) : Option (Int × Int) := (out.filterMap regionOf).getLast?

/-- The region and the rows of the user interface share the terminal. -/
structure Programmed (rows : Int) (ui : Pico) (out : List Output) : Prop where
  least : 1 ≤ ui.uiRows
  most : ui.uiRows < rows
  scroll : lastRegion out = some (0, rows - ui.uiRows - 1)
  base : uiBase ui = rows - ui.uiRows

def rowsOf (winsize : Option Winsize) : Int := (getTermSize winsize).rows

theorem lastRegion_set (out : List Output) (top bot : Int) : lastRegion (out ++ [.csr top bot]) = some (top, bot) := by
  simp [lastRegion, regionOf]

theorem lastRegion_other (out : List Output) {output : Output} (other : regionOf output = none) :
    lastRegion (out ++ [output]) = lastRegion out := by
  simp [lastRegion, other]

end Regions

section Still

/-- Nothing that matters to the regions has changed. -/
structure Still (s after : Session) : Prop where
  uiRows : after.ui.uiRows = s.ui.uiRows
  sz : after.ui.sz = s.ui.sz
  resized : after.ui.resized = s.ui.resized
  winsize : after.winsize = s.winsize
  region : lastRegion after.out = lastRegion s.out

namespace Still

theorem refl (s : Session) : Still s s := ⟨rfl, rfl, rfl, rfl, rfl⟩

theorem trans {last : Session} (first : Still s after) (next : Still after last) : Still s last :=
  ⟨next.uiRows.trans first.uiRows, next.sz.trans first.sz, next.resized.trans first.resized,
    next.winsize.trans first.winsize, next.region.trans first.region⟩

theorem emit (still : Still s after) (output : Output) (other : regionOf output = none) :
    Still s (Picotui.emit after output) :=
  ⟨still.uiRows, still.sz, still.resized, still.winsize, (lastRegion_other _ other).trans still.region⟩

end Still

theorem clearUiRegion_still (s : Session) : Still s (clearUiRegion s) :=
  Steps.run_always (Still s) (fun _ _ still => (still.emit _ rfl).emit _ rfl) (Still.refl s) _

theorem lines_still (s : Session) (n : Nat) :
    Still s ((List.range n).foldl (fun s _ => emit s (.text (.lit "\r\n"))) s) :=
  Steps.run_always (Still s) (fun _ _ still => still.emit _ rfl) (Still.refl s) _

theorem uiMoveAbs_still (still : Still s after) (relRow col : Int) : Still s (uiMoveAbs host after relRow col) :=
  still.emit _ rfl

theorem uiPutAt_still (s : Session) (relRow col : Int) (text : CStr) : Still s (uiPutAt host s relRow col text) := by
  have written : Still s (emit (uiMoveAbs host s (atLeast 0 relRow) (atLeast 0 col)) (.text text)) :=
    (uiMoveAbs_still (Still.refl s) _ _).emit _ rfl
  exact ⟨written.uiRows, written.sz, written.resized, written.winsize, written.region⟩

theorem uiAppend_still (s : Session) (text : CStr) : Still s (uiAppend host s text) := by
  have anchored : Still s (ensureUiAnchor s) := by
    unfold ensureUiAnchor
    split
    · exact Still.refl s
    · exact ⟨rfl, rfl, rfl, rfl, rfl⟩
  have written : Still s (emit (uiMoveAbs host (ensureUiAnchor s) (ensureUiAnchor s).ui.uiCurRow
      (ensureUiAnchor s).ui.uiCurCol) (.text text)) := (uiMoveAbs_still anchored _ _).emit _ rfl
  exact ⟨written.uiRows, written.sz, written.resized, written.winsize, written.region⟩

/-- A call that draws leaves the regions as it finds them once a resize is handled. -/
theorem uiCall_still (host : Host) (handle : Session → Session) (s : Session) (call : UiCall) :
    Still (handle s) (uiCall host handle s call) := by
  cases call with
  | puts text =>
    cases text with
    | none => exact Still.refl _
    | some text =>
      simp only [uiCall, picoUiPuts]
      split
      · exact Still.refl _
      · exact uiAppend_still _ text
  | printf text => exact uiAppend_still _ text
  | putsYx relRow col text =>
    cases text with
    | none => exact Still.refl _
    | some text => exact uiPutAt_still _ relRow col text
  | printfYx relRow col text => exact uiPutAt_still _ relRow col text
  | clearLine relRow =>
    simp only [uiCall, picoUiClearLine]
    split
    · exact Still.refl _
    · have cleared : Still (handle s)
          (emit (emit (handle s) (.cup (host.int (uiBase (handle s).ui + atLeast 0 relRow)) 0)) .el) :=
        ((Still.refl (handle s)).emit _ rfl).emit _ rfl
      exact ⟨cleared.uiRows, cleared.sz, cleared.resized, cleared.winsize, cleared.region⟩

/-- With no resize to handle, the callback leaves the regions alone. -/
theorem render_still (idle : ∀ before, before.ui.resized = s.ui.resized → handle before = before) :
    Still s (render host handle s) := by
  have counted : Still s { s with renders := s.renders + 1 } := ⟨rfl, rfl, rfl, rfl, rfl⟩
  refine Steps.run_always (Still s) (fun before call still => still.trans ?_) counted _
  have drawn := uiCall_still host handle before call
  rwa [idle before still.resized] at drawn

theorem picoRedrawUi_still (idle : ∀ before, before.ui.resized = s.ui.resized → handle before = before) :
    Still s (picoRedrawUi host handle s) := by
  have cleared := clearUiRegion_still s
  have drawn : Still s (render host handle (clearUiRegion s)) :=
    cleared.trans (render_still fun before same => idle before (same.trans cleared.resized))
  exact ⟨drawn.uiRows, drawn.sz, drawn.resized, drawn.winsize, drawn.region⟩

end Still

section Fitted
variable {winsize : Option Winsize}

/-- The regions are those of the terminal as it is. -/
structure Fitted (winsize : Option Winsize) (s : Session) : Prop where
  terminal : s.winsize = winsize
  size : s.ui.sz = getTermSize winsize
  least : 1 ≤ s.ui.uiRows
  most : s.ui.uiRows < rowsOf winsize
  scroll : lastRegion s.out = some (0, rowsOf winsize - s.ui.uiRows - 1)

theorem Fitted.still (fitted : Fitted winsize s) (still : Still s after) : Fitted winsize after := by
  obtain ⟨terminal, size, least, most, scroll⟩ := fitted
  refine ⟨still.winsize.trans terminal, still.sz.trans size, ?_, ?_, ?_⟩
  · rwa [still.uiRows]
  · rwa [still.uiRows]
  · rw [still.region, still.uiRows, scroll]

theorem Fitted.programmed (fitted : Fitted winsize s) : Programmed (rowsOf winsize) s.ui s.out := by
  obtain ⟨_, size, least, most, scroll⟩ := fitted
  refine ⟨least, most, scroll, ?_⟩
  unfold rowsOf at most ⊢
  rw [uiBase, size, atLeast, if_neg (by omega)]

theorem bottomRow_fitted (fitted : Fitted winsize s) : bottomRow s.ui = rowsOf winsize - s.ui.uiRows - 1 := by
  have most := fitted.most
  unfold rowsOf at most ⊢
  rw [bottomRow, fitted.size, atLeast, if_neg (by omega)]

theorem reprogramRegion_fitted (same : s.winsize = winsize) (tall : 2 ≤ rowsOf winsize) :
    Fitted winsize (reprogramRegion s) := by
  subst same
  have range : 1 ≤ clampRows (getTermSize s.winsize) s.ui.uiRows ∧
      clampRows (getTermSize s.winsize) s.ui.uiRows < (getTermSize s.winsize).rows := by
    unfold rowsOf at tall
    simp only [clampRows, atLeast]
    split <;> split <;> omega
  refine ⟨rfl, rfl, range.1, range.2, ?_⟩
  refine (lastRegion_set _ _ _).trans ?_
  have room : ¬ (getTermSize s.winsize).rows - clampRows (getTermSize s.winsize) s.ui.uiRows - 1 < 0 := by omega
  exact congrArg (fun bot => some (0, bot)) (if_neg room)

/-- Calls that draw keep the regions if handling a resize does. -/
theorem calls_fitted (kept : ∀ before, Fitted winsize before → Fitted winsize (handle before)) (calls : List UiCall)
    (fitted : Fitted winsize s) : Fitted winsize (calls.foldl (uiCall host handle) s) :=
  Steps.run_always (Fitted winsize)
    (fun before call fitted => (kept before fitted).still (uiCall_still host handle before call)) fitted calls

theorem picoRedrawUi_fitted (kept : ∀ before, Fitted winsize before → Fitted winsize (handle before))
    (fitted : Fitted winsize s) : Fitted winsize (picoRedrawUi host handle s) := by
  have counted : Fitted winsize { clearUiRegion s with renders := (clearUiRegion s).renders + 1 } :=
    (fitted.still (clearUiRegion_still s)).still ⟨rfl, rfl, rfl, rfl, rfl⟩
  exact (calls_fitted kept _ counted).still ⟨rfl, rfl, rfl, rfl, rfl⟩

theorem moveToBottom_still (s : Session) : Still s (dropAnchors (moveToBottomScrollLine s)) := by
  have moved : Still s (moveToBottomScrollLine s) := (Still.refl s).emit _ rfl
  exact ⟨moved.uiRows, moved.sz, moved.resized, moved.winsize, moved.region⟩

/-- Whatever the height and the terminal were before, the regions fit afterwards. -/
theorem reprogram_fitted (kept : ∀ before, Fitted winsize before → Fitted winsize (handle before))
    (same : s.winsize = winsize) (tall : 2 ≤ rowsOf winsize) : Fitted winsize (reprogramRegionAndRedraw host handle s) :=
  (picoRedrawUi_fitted kept (reprogramRegion_fitted same tall)).still (moveToBottom_still _)

variable (host) (tall : 2 ≤ rowsOf winsize)
include tall

theorem handleResize_fitted (same : s.winsize = winsize) (resized : s.ui.resized = true) :
    Fitted winsize (handleResizeIfNeeded host s) := by
  unfold handleResizeIfNeeded
  rw [if_pos resized]
  exact reprogram_fitted (fun _ fitted => fitted) same tall

omit tall in
theorem handleResize_idle (idle : s.ui.resized = false) : handleResizeIfNeeded host s = s := by
  unfold handleResizeIfNeeded
  rw [idle]
  rfl

theorem handleResize_kept (before : Session) (fitted : Fitted winsize before) :
    Fitted winsize (handleResizeIfNeeded host before) := by
  cases resized : before.ui.resized with
  | false => rwa [handleResize_idle host resized]
  | true => exact handleResize_fitted host tall fitted.terminal resized

omit tall in
theorem render_idle (idle : s.ui.resized = false) : render host id s = render host (handleResizeIfNeeded host) s := by
  unfold render
  generalize host.draws s.renders = calls
  have down : { s with renders := s.renders + 1 }.ui.resized = false := idle
  generalize { s with renders := s.renders + 1 } = begun at down ⊢
  induction calls generalizing begun with
  | nil => rfl
  | cons call calls ih =>
    have same : uiCall host (handleResizeIfNeeded host) begun call = uiCall host id begun call := by
      cases call <;> simp only [uiCall, picoUiPuts, picoUiPrintf, picoUiPutsYx, picoUiPrintfYx, picoUiClearLine,
        handleResize_idle host down, id]
    rw [List.foldl_cons, List.foldl_cons, same]
    exact ih _ ((uiCall_still host id begun call).resized.trans down)

omit tall in
/-- Handling a resize in the words of the code, where the callback gets here again. -/
theorem handleResizeIfNeeded_eq (s : Session) : handleResizeIfNeeded host s = if s.ui.resized then
    reprogramRegionAndRedraw host (handleResizeIfNeeded host) { s with ui := { s.ui with resized := false } } else s := by
  conv => lhs; unfold handleResizeIfNeeded
  split
  · unfold reprogramRegionAndRedraw picoRedrawUi
    rw [render_idle]
    exact (clearUiRegion_still _).resized
  · rfl

end Fitted

section Calls
variable {winsize : Option Winsize}

/-- The regions fit, or none was set so far. -/
structure Good (winsize : Option Winsize) (s : Session) : Prop where
  terminal : s.winsize = winsize
  least : 1 ≤ s.ui.uiRows
  regions : Fitted winsize s ∨ lastRegion s.out = none

theorem Good.still (good : Good winsize s) (still : Still s after) : Good winsize after :=
  ⟨still.winsize.trans good.terminal, still.uiRows ▸ good.least,
    good.regions.imp (fun fitted => fitted.still still) still.region.trans⟩

theorem Good.fitted (fitted : Fitted winsize s) : Good winsize s := ⟨fitted.terminal, fitted.least, .inl fitted⟩

theorem Good.text (good : Good winsize s) (text : CStr) : Good winsize (emit s (.text text)) :=
  good.still ((Still.refl s).emit _ rfl)

theorem streamAdvance_still (host : Host) (s : Session) (text : CStr) : Still s (streamAdvance host s text) :=
  ⟨rfl, rfl, rfl, rfl, rfl⟩

variable (host) (tall : 2 ≤ rowsOf winsize)
include tall

theorem handleResize_good (good : Good winsize s) : Good winsize (handleResizeIfNeeded host s) := by
  cases resized : s.ui.resized with
  | false => rwa [handleResize_idle host resized]
  | true => exact Good.fitted (handleResize_fitted host tall good.terminal resized)

theorem render_good (good : Good winsize s) : Good winsize (render host (handleResizeIfNeeded host) s) := by
  have counted : Good winsize { s with renders := s.renders + 1 } := good.still ⟨rfl, rfl, rfl, rfl, rfl⟩
  refine Steps.run_always (Good winsize) (fun before call good => ?_) counted _
  exact (handleResize_good host tall good).still (uiCall_still host _ before call)

theorem streamMove_good (good : Good winsize s) :
    Good winsize (streamMove (ensureStreamAnchor (handleResizeIfNeeded host s))) := by
  have anchored : Good winsize (ensureStreamAnchor (handleResizeIfNeeded host s)) := by
    have handled := handleResize_good host tall good
    unfold ensureStreamAnchor
    split
    · exact handled
    · exact handled.still ⟨rfl, rfl, rfl, rfl, rfl⟩
  exact anchored.still ((Still.refl _).emit _ rfl)

theorem streamLine_good (good : Good winsize s) (line : CStr) : Good winsize (streamLine host s line) := by
  have handled := handleResize_good host tall good
  have moved : Good winsize (emit (handleResizeIfNeeded host s) (.cup (bottomRow (handleResizeIfNeeded host s).ui) 0)) :=
    handled.still ((Still.refl _).emit _ rfl)
  exact render_good host tall (((moved.text line).text (.lit "\r\n")).still ⟨rfl, rfl, rfl, rfl, rfl⟩)

theorem picoSetUiRows_good (good : Good winsize s) (uiRows : Int) : Good winsize (picoSetUiRows host s uiRows) := by
  simp only [picoSetUiRows]
  split
  · exact good
  · refine Good.fitted (reprogram_fitted (handleResize_kept host tall) ?_ tall)
    split
    · exact (lines_still _ _).winsize.trans good.terminal
    · exact good.terminal

/-- Every call but `pico_attach` leaves regions that fit, if it sets any. -/
theorem runCall_good (good : Good winsize s) {call : Call} (other : call ≠ .attach) :
    Good winsize (runCall host s call) := by
  cases call with
  | attach => exact absurd rfl other
  | setUiRows uiRows => exact picoSetUiRows_good host tall good uiRows
  | redrawUi => exact (render_good host tall (good.still (clearUiRegion_still s))).still ⟨rfl, rfl, rfl, rfl, rfl⟩
  | ui call => exact (handleResize_good host tall good).still (uiCall_still host _ s call)
  | print text =>
    have moved := streamMove_good host tall good
    refine render_good host tall ?_
    cases text with
    | none => exact moved
    | some text =>
      simp only
      split
      · exact moved
      · exact (moved.text text).still (streamAdvance_still host _ text)
  | printf text =>
    exact render_good host tall (((streamMove_good host tall good).text text).still (streamAdvance_still host _ text))
  | println line => exact streamLine_good host tall good _
  | printfln line => exact streamLine_good host tall good line
  | printBlock block =>
    cases block with
    | none => exact good
    | some block =>
      have written := (streamMove_good host tall good).text block
      refine streamLine_good host tall (render_good host tall ?_) (.lit "")
      split
      · exact written.still ⟨rfl, rfl, rfl, rfl, rfl⟩
      · exact (written.still (streamAdvance_still host _ _)).still ⟨rfl, rfl, rfl, rfl, rfl⟩

end Calls

section Attach
variable {winsize : Option Winsize}

theorem clearUiRegion_renders (s : Session) : (clearUiRegion s).renders = s.renders := by
  refine Steps.run_always (fun after : Session => after.renders = s.renders) (fun _ _ same => ?_) rfl _
  exact same

theorem lines_renders (s : Session) (n : Nat) :
    ((List.range n).foldl (fun s _ => emit s (.text (.lit "\r\n"))) s).renders = s.renders := by
  refine Steps.run_always (fun after : Session => after.renders = s.renders) (fun _ _ same => ?_) rfl _
  exact same

/-- A resize that is pending is handled by the first call of the callback that draws. -/
theorem redraw_fitted (host : Host) (tall : 2 ≤ rowsOf winsize) (same : s.winsize = winsize)
    (resized : s.ui.resized = true) (draws : host.draws s.renders ≠ []) : Fitted winsize (picoRedrawUi host (handleResizeIfNeeded host) s) := by
  have cleared := clearUiRegion_still s
  have drawn : Fitted winsize (render host (handleResizeIfNeeded host) (clearUiRegion s)) := by
    unfold render
    rw [clearUiRegion_renders]
    obtain ⟨call, calls, shape⟩ := List.exists_cons_of_ne_nil draws
    rw [shape, List.foldl_cons]
    refine calls_fitted (handleResize_kept host tall) calls ?_
    refine Fitted.still ?_ (uiCall_still host _ _ call)
    exact handleResize_fitted host tall (cleared.winsize.trans same) (cleared.resized.trans resized)
  exact drawn.still ⟨rfl, rfl, rfl, rfl, rfl⟩

theorem redraw_still (host : Host) (idle : ¬ (s.ui.resized = true ∧ host.draws s.renders ≠ [])) :
    Still s (picoRedrawUi host (handleResizeIfNeeded host) s) := by
  by_cases resized : s.ui.resized = true
  · have none : host.draws s.renders = [] := by
      by_contra draws
      exact idle ⟨resized, draws⟩
    have cleared := clearUiRegion_still s
    unfold picoRedrawUi render
    rw [clearUiRegion_renders, none]
    exact ⟨cleared.uiRows, cleared.sz, cleared.resized, cleared.winsize, cleared.region⟩
  · refine picoRedrawUi_still fun before same => handleResize_idle host ?_
    rw [same]
    exact Bool.not_eq_true _ ▸ resized

theorem picoAttach_drawn (host : Host) (tall : 2 ≤ rowsOf s.winsize) : ∃ drawn,
    (s.ui.resized = true ∧ host.draws s.renders ≠ [] → Fitted s.winsize drawn) ∧
      (¬ (s.ui.resized = true ∧ host.draws s.renders ≠ []) → Still s drawn) ∧
        Still (setScrollRegion drawn 0 (bottomRow drawn.ui)) (picoAttach host s) := by
  have begun : ∃ lines, Still s lines ∧ lines.renders = s.renders ∧
      Still (setScrollRegion (picoRedrawUi host (handleResizeIfNeeded host) lines) 0
        (bottomRow (picoRedrawUi host (handleResizeIfNeeded host) lines).ui)) (picoAttach host s) :=
    ⟨_, ((Still.refl s).emit (.cup (s.ui.sz.rows - 1) 0) rfl).trans (lines_still _ _),
      lines_renders _ _, moveToBottom_still _⟩
  obtain ⟨lines, still, renders, ends⟩ := begun
  refine ⟨_, fun handled => ?_, fun idle => ?_, ends⟩
  · exact redraw_fitted host tall still.winsize (still.resized.trans handled.1) (renders ▸ handled.2)
  · exact still.trans (redraw_still host (by rwa [still.resized, renders]))

theorem picoAttach_sets (host : Host) (tall : 2 ≤ rowsOf s.winsize) : lastRegion (picoAttach host s).out ≠ none := by
  obtain ⟨drawn, _, _, ends⟩ := picoAttach_drawn host tall
  rw [ends.region, setScrollRegion, emit, lastRegion_set]
  exact Option.some_ne_none _

theorem picoAttach_least (host : Host) (tall : 2 ≤ rowsOf s.winsize) (least : 1 ≤ s.ui.uiRows) :
    1 ≤ (picoAttach host s).ui.uiRows := by
  obtain ⟨drawn, fitted, still, ends⟩ := picoAttach_drawn host tall
  rw [ends.uiRows]
  by_cases handled : s.ui.resized = true ∧ host.draws s.renders ≠ []
  · exact (fitted handled).least
  · exact (still handled).uiRows ▸ least

/-- Attaching sets up regions that fit if a resize is handled on the way, or if the height fits
the terminal and its size is known. -/
theorem picoAttach_iff (host : Host) (tall : 2 ≤ rowsOf s.winsize) (least : 1 ≤ s.ui.uiRows) :
    Programmed (rowsOf s.winsize) (picoAttach host s).ui (picoAttach host s).out ↔
      (s.ui.resized = true ∧ host.draws s.renders ≠ []) ∨
        (s.ui.uiRows < rowsOf s.winsize ∧ s.ui.sz.rows = rowsOf s.winsize) := by
  obtain ⟨drawn, fitted, still, ends⟩ := picoAttach_drawn host tall
  have scroll : lastRegion (picoAttach host s).out = some (0, bottomRow drawn.ui) := by
    rw [ends.region]
    exact lastRegion_set _ _ _
  by_cases handled : s.ui.resized = true ∧ host.draws s.renders ≠ []
  · refine iff_of_true ?_ (.inl handled)
    have fitted := fitted handled
    rw [bottomRow_fitted fitted] at scroll
    have set : Fitted s.winsize (picoAttach host s) :=
      ⟨ends.winsize.trans fitted.terminal, ends.sz.trans fitted.size, ends.uiRows ▸ fitted.least,
        ends.uiRows ▸ fitted.most, by rw [scroll, ends.uiRows]; rfl⟩
    exact set.programmed
  · have kept := still handled
    have uiRows : (picoAttach host s).ui.uiRows = s.ui.uiRows := ends.uiRows.trans kept.uiRows
    have base : uiBase (picoAttach host s).ui = atLeast 0 (s.ui.sz.rows - s.ui.uiRows) := by
      rw [uiBase, uiRows, ends.sz.trans kept.sz]
    rw [bottomRow, kept.uiRows, kept.sz] at scroll
    unfold atLeast at scroll base
    constructor
    · intro programmed
      have most := programmed.most
      have same := programmed.base.symm.trans base
      rw [uiRows] at most same
      refine .inr ⟨most, ?_⟩
      split at same <;> omega
    · intro fits
      obtain handled' | ⟨most, size⟩ := fits
      · exact absurd handled' handled
      · rw [if_neg (by omega), size] at scroll base
        exact ⟨by rwa [uiRows], by rwa [uiRows], by rw [uiRows, scroll], by rw [uiRows, base]⟩

end Attach

section Runs

/-- An object whose call sets a region, and the terminal, are set up as they should be. -/
def Programs (host : Host) (t : Terminal) (action : Action) : Prop := ∀ k call ui, action = .call k call →
  (step host t action).uis[k]? = some ui → lastRegion (step host t action).out ≠ none →
    Programmed (rowsOf (step host t action).winsize) ui (step host t action).out

/-- An object is attached with a height below that of the terminal, whose size it knows, or with a resize
pending for it and something to draw. -/
def Attachable (host : Host) (t : Terminal) (action : Action) : Prop := ∀ k ui, action = .call k .attach →
  t.uis[k]? = some ui → (ui.resized = true ∧ host.draws t.renders ≠ []) ∨
    (ui.uiRows < rowsOf t.winsize ∧ ui.sz.rows = rowsOf t.winsize)

/-- All heights are at least one row, and the terminal has two. -/
structure Ready (t : Terminal) : Prop where
  tall : 2 ≤ rowsOf t.winsize
  least : ∀ ui ∈ t.uis, 1 ≤ ui.uiRows

/-- What a call has to leave is about the object that it is on. -/
theorem programs_call (host : Host) {k : Nat} {ui : Pico} (found : t.uis[k]? = some ui) (call : Call) :
    Programs host t (.call k call) ↔
      (lastRegion (runCall host { ui, winsize := t.winsize, renders := t.renders } call).out ≠ none →
        Programmed (rowsOf t.winsize) (runCall host { ui, winsize := t.winsize, renders := t.renders } call).ui
          (runCall host { ui, winsize := t.winsize, renders := t.renders } call).out) := by
  have inside := (List.getElem?_eq_some_iff.mp found).1
  simp only [Programs, step, found]
  constructor
  · intro each set
    exact each k call _ rfl (by rw [List.getElem?_set_self inside]) set
  · intro one other call' ui' same here set
    cases same
    rw [List.getElem?_set_self inside] at here
    cases here
    exact one set

theorem programs_iff (host : Host) (ready : Ready t) (action : Action) :
    Programs host t action ↔ Attachable host t action := by
  cases action with
  | init uiRows => exact iff_of_true (fun k call ui same => by cases same) fun k ui same => by cases same
  | resize winsize => exact iff_of_true (fun k call ui same => by cases same) fun k ui same => by cases same
  | call k call =>
    cases found : t.uis[k]? with
    | none =>
      refine iff_of_true (fun other call ui same after => ?_) fun other ui same after => ?_
      · cases same
        simp only [step, found] at after
        cases after
      · cases same
        rw [found] at after
        cases after
    | some ui =>
      have least := ready.least ui (List.mem_of_getElem? found)
      rw [programs_call host found]
      by_cases attach : call = .attach
      · subst attach
        have attaches := picoAttach_iff (s := { ui, winsize := t.winsize, renders := t.renders }) host ready.tall least
        constructor
        · intro set other ui' same here
          cases same
          rw [found] at here
          cases here
          exact attaches.mp (set (picoAttach_sets host ready.tall))
        · intro attachable _
          exact attaches.mpr (attachable k ui rfl found)
      · have begun : Good t.winsize { ui, winsize := t.winsize, renders := t.renders } := ⟨rfl, least, .inr rfl⟩
        refine iff_of_true (fun set => ?_) fun other ui' same _ => ?_
        · obtain fitted | none := (runCall_good host ready.tall begun attach).regions
          · exact fitted.programmed
          · exact absurd none set
        · cases same
          exact absurd rfl attach

theorem step_ready (host : Host) (ready : Ready t) {action : Action}
    (tall : ∀ winsize, action = .resize winsize → 2 ≤ rowsOf winsize) : Ready (step host t action) := by
  cases action with
  | init uiRows =>
    refine ⟨ready.tall, fun ui inside => ?_⟩
    obtain earlier | here := List.mem_append.mp inside
    · exact ready.least ui earlier
    · rw [List.mem_singleton.mp here]
      simp only [picoInit, atLeast]
      split <;> omega
  | resize winsize =>
    refine ⟨tall winsize rfl, fun ui inside => ?_⟩
    obtain old | ⟨other, found, rfl⟩ := mem_onSigwinch inside
    · exact ready.least ui old
    · exact ready.least other found
  | call k call =>
    cases found : t.uis[k]? with
    | none =>
      simp only [step, found]
      exact ⟨ready.tall, ready.least⟩
    | some ui =>
      simp only [step, found]
      have least := ready.least ui (List.mem_of_getElem? found)
      have begun : Good t.winsize { ui, winsize := t.winsize, renders := t.renders } := ⟨rfl, least, .inr rfl⟩
      refine ⟨ready.tall, fun other inside => ?_⟩
      obtain old | new := List.mem_or_eq_of_mem_set inside
      · exact ready.least other old
      · rw [new]
        by_cases attach : call = .attach
        · subst attach
          exact picoAttach_least host ready.tall least
        · exact (runCall_good host ready.tall begun attach).least

/-- Every region that is set in a run is as it should be exactly if every object is attached when it fits. -/
theorem regions_iff (host : Host) (actions : List Action) (ready : Ready t)
    (tall : ∀ winsize, .resize winsize ∈ actions → 2 ≤ rowsOf winsize) :
    (∀ before action after, actions = before ++ action :: after → Programs host (before.foldl (step host) t) action) ↔
      ∀ before action after, actions = before ++ action :: after →
        Attachable host (before.foldl (step host) t) action := by
  have reached : ∀ before action after, actions = before ++ action :: after → Ready (before.foldl (step host) t) := by
    intro before action after split
    have kept : ∀ t action, Ready t → (∀ winsize, action = Action.resize winsize → 2 ≤ rowsOf winsize) →
        Ready (step host t action) := fun _ _ ready tall => step_ready host ready tall
    refine Steps.run_invariant kept ready ?_
    intro front other rest split' winsize same
    apply tall winsize
    rw [split, split', same]
    simp
  constructor
  · intro programs before action after split
    exact (programs_iff host (reached before action after split) action).mp (programs before action after split)
  · intro attachable before action after split
    exact (programs_iff host (reached before action after split) action).mpr (attachable before action after split)

/-- A callback that draws one line, with sums as they are. -/
def lineHost : Host where
  draws _ := [.clearLine 0]
  int n := n
  sums _ _ _ := rfl

theorem regions_fit : Programs lineHost ([Action.init 8].foldl (step lineHost) { winsize := some ⟨24, 80⟩ })
    (.call 0 .attach) := by
  have begun : Ready { winsize := some ⟨24, 80⟩ } := ⟨by decide, fun _ inside => absurd inside List.not_mem_nil⟩
  refine (regions_iff lineHost [.init 8, .call 0 .attach] begun (by simp)).mpr ?_ [.init 8] _ [] rfl
  intro before action after split k ui attach here
  subst attach
  obtain _ | ⟨first, before⟩ := before
  · cases split
  · obtain _ | ⟨second, before⟩ := before
    · cases split
      cases here
      exact .inr ⟨by decide, rfl⟩
    · have := congrArg List.length split
      simp at this

/-- A user interface of 15 rows is attached to a terminal of 10. -/
theorem attach_too_tall : ¬ Programs lineHost ([Action.init 15].foldl (step lineHost) { winsize := some ⟨10, 80⟩ })
    (.call 0 .attach) := by
  intro programs
  have programmed := programs 0 .attach _ rfl rfl (by decide)
  exact absurd programmed.most (by decide)

end Runs

end Ltf.Proofs.ScreenRegions
