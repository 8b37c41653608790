import Ltf.Base.Steps
import Ltf.Picotui

/-! The columns that `picotui.c` keeps, through any sequence of calls on a terminal of one width.
A tab is not held at the right edge, so a text that ends in one can leave the screen. -/

namespace Ltf.Proofs.ScreenColumns
open CString Ltf.Picotui

section Walk
variable {cols col : Int} {ch : UInt8} {bytes rest : List UInt8}

/-- The column behind a byte on a screen without an edge. -/
def behind (col : Int) (ch : UInt8) : Int :=
  if ch = 10 ∨ ch = 13 then 0
  else if ch = 9 then (col.tdiv 8 + 1) * 8
  else if 32 ≤ ch ∧ ch ≠ 127 then col + 1
  else col

def column (start : Int) (bytes : List UInt8) : Int := bytes.foldl behind start

/-- The column is compared with the edge behind such a byte. -/
def Ordinary (ch : UInt8) : Prop := ch ≠ 9 ∧ ch ≠ 10 ∧ ch ≠ 13

/-- Nothing but tabs and newlines gets past the edge. -/
def Clear (cols start : Int) (bytes : List UInt8) : Prop :=
  ∀ before ch, before ++ [ch] <+: bytes → Ordinary ch → column start (before ++ [ch]) < cols

/-- The text ends in a tab that takes the column past the edge, with nothing in front of it that stopped there. -/
def Leaves (cols start : Int) (bytes : List UInt8) : Prop :=
  ∃ before, bytes = before ++ [9] ∧ Clear cols start before ∧ cols ≤ column start bytes

/-- There are too many tabs for an `int`. -/
def Overflows (cols start : Int) (bytes : List UInt8) : Prop :=
  ∃ before, before ++ [9] <+: bytes ∧ Clear cols start before ∧ 2147483647 < column start (before ++ [9])

theorem clear_cons : Clear cols col (ch :: rest) ↔
    (Ordinary ch → behind col ch < cols) ∧ Clear cols (behind col ch) rest := by
  constructor
  · intro clear
    refine ⟨clear [] ch (List.prefix_append [ch] rest), ?_⟩
    intro before other begins
    exact clear (ch :: before) other (List.cons_prefix_cons.mpr ⟨rfl, begins⟩)
  · intro both before other begins ordinary
    obtain ⟨first, later⟩ := both
    cases before with
    | nil =>
      obtain rfl := (List.cons_prefix_cons.mp begins).1
      exact first ordinary
    | cons byte before =>
      obtain ⟨rfl, within⟩ := List.cons_prefix_cons.mp begins
      exact later before other within ordinary

theorem not_overflows_cons (small : ¬ Overflows cols col (ch :: rest)) (first : Ordinary ch → behind col ch < cols) :
    ¬ Overflows cols (behind col ch) rest := by
  intro overflows
  obtain ⟨before, begins, clear, large⟩ := overflows
  exact small ⟨ch :: before, List.cons_prefix_cons.mpr ⟨rfl, begins⟩, clear_cons.mpr ⟨first, clear⟩, large⟩

instance (ch : UInt8) : Decidable (Ordinary ch) := inferInstanceAs (Decidable (_ ∧ _))

/-- One turn of the loop. -/
theorem advanceLoop_cons (host : Host) (low : 0 ≤ col) (high : col < 2147483647)
    (tab : ch = 9 → behind col ch ≤ 2147483647) : advanceLoop host cols col (ch :: rest) =
      if Ordinary ch ∧ cols ≤ behind col ch then cols - 1 else advanceLoop host cols (behind col ch) rest := by
  rw [advanceLoop]
  unfold behind Ordinary
  have ahead : 0 ≤ col.tdiv 8 := Int.tdiv_nonneg low (by decide)
  by_cases newline : ch = 10 ∨ ch = 13
  · have plain : ¬ ((ch ≠ 9 ∧ ch ≠ 10 ∧ ch ≠ 13) ∧ cols ≤ 0) := by
      rintro ⟨⟨_, first, second⟩, _⟩
      exact newline.elim first second
    rw [if_pos newline, if_pos newline, if_neg plain]
  · rw [if_neg newline, if_neg newline]
    by_cases isTab : ch = 9
    · have next := tab isTab
      rw [behind, if_neg newline, if_pos isTab] at next
      have kept : host.int ((col.tdiv 8 + 1) * 8) = (col.tdiv 8 + 1) * 8 := host.sums _ (by omega) next
      rw [if_pos isTab, if_pos isTab, kept, if_neg fun stops => stops.1.1 isTab]
    · have ordinary : ch ≠ 9 ∧ ch ≠ 10 ∧ ch ≠ 13 := ⟨isTab, not_or.mp newline⟩
      have kept : host.int (col + 1) = col + 1 := host.sums _ (by omega) (by omega)
      rw [if_neg isTab, if_neg isTab, kept]
      simp only [ordinary, ne_eq, not_false_eq_true, and_self, true_and]

theorem behind_low (low : 0 ≤ col) (ch : UInt8) : 0 ≤ behind col ch := by
  have ahead : 0 ≤ col.tdiv 8 := Int.tdiv_nonneg low (by decide)
  unfold behind
  split
  · omega
  · split
    · omega
    · split <;> omega

/-- Behind a tab the column is a multiple of eight. -/
theorem behind_tab (col : Int) (isTab : ch = 9) : behind col ch % 8 = 0 := by
  subst isTab
  unfold behind
  rw [if_neg (by decide), if_pos rfl]
  omega

/-- What the loop returns is on the screen unless it never had to stop. -/
theorem advanceLoop_range (host : Host) (bytes : List UInt8) (wide : 1 ≤ cols) (edge : cols ≤ 65535) (low : 0 ≤ col)
    (high : col < 2147483647) (small : ¬ Overflows cols col bytes) :
    0 ≤ advanceLoop host cols col bytes ∧
      (cols ≤ advanceLoop host cols col bytes ↔ Clear cols col bytes ∧ cols ≤ column col bytes) := by
  induction bytes generalizing col with
  | nil =>
    refine ⟨low, fun past => ⟨?_, past⟩, fun past => past.2⟩
    intro before ch begins
    simp at begins
  | cons ch rest ih =>
    have tab : ch = 9 → behind col ch ≤ 2147483647 := by
      rintro rfl
      by_contra large
      refine small ⟨[], List.prefix_append [9] rest, ?_, by simpa [column] using large⟩
      intro before other begins
      simp at begins
    rw [advanceLoop_cons host low high tab, clear_cons]
    by_cases stops : Ordinary ch ∧ cols ≤ behind col ch
    · rw [if_pos stops]
      refine ⟨by omega, fun past => by omega, fun past => ?_⟩
      have := past.1.1 stops.1
      omega
    · rw [if_neg stops]
      have first : Ordinary ch → behind col ch < cols := by
        intro ordinary
        by_contra past
        exact stops ⟨ordinary, by omega⟩
      have next : behind col ch < 2147483647 := by
        by_cases ordinary : Ordinary ch
        · have := first ordinary
          omega
        · by_cases isTab : ch = 9
          · have := tab isTab
            have := behind_tab col isTab
            omega
          · have newline : ch = 10 ∨ ch = 13 := by
              by_contra other
              exact ordinary ⟨isTab, not_or.mp other⟩
            rw [behind, if_pos newline]
            omega
      obtain ⟨least, same⟩ := ih (behind_low low ch) next (not_overflows_cons small first)
      refine ⟨least, same.trans ?_⟩
      exact ⟨fun past => ⟨⟨first, past.1⟩, past.2⟩, fun past => ⟨past.1.2, past.2⟩⟩

/-- From a column on the screen, a text leaves it only by a tab at its end. -/
theorem past_leaves (wide : 1 ≤ cols) (start : col < cols) :
    Clear cols col bytes ∧ cols ≤ column col bytes ↔ Leaves cols col bytes := by
  constructor
  · intro past
    obtain ⟨clear, past⟩ := past
    obtain rfl | ⟨before, ch, rfl⟩ := List.eq_nil_or_concat' bytes
    · exact absurd start (by simpa [column] using past)
    · have last := clear before ch (List.prefix_refl _)
      have isTab : ch = 9 := by
        by_contra other
        by_cases newline : ch = 10 ∨ ch = 13
        · have zero : column col (before ++ [ch]) = 0 := by
            rw [column, List.foldl_append, List.foldl_cons, List.foldl_nil, behind, if_pos newline]
          omega
        · have := last ⟨other, not_or.mp newline⟩
          omega
      subst isTab
      refine ⟨before, rfl, ?_, past⟩
      intro front other begins
      exact clear front other (begins.trans (List.prefix_append before [9]))
  · intro leaves
    obtain ⟨before, rfl, clear, past⟩ := leaves
    refine ⟨?_, past⟩
    intro front other begins ordinary
    obtain whole | within := List.prefix_concat_iff.mp begins
    · obtain ⟨_, same⟩ := List.append_inj' whole rfl
      cases same
      exact absurd rfl ordinary.1
    · exact clear front other within ordinary

/-- A column that starts on the screen stays there exactly if the text does not leave it by a tab. -/
theorem advanceColText_iff (host : Host) (text : CStr) (edge : cols ≤ 65535) (low : 0 ≤ col) (start : col < cols)
    (small : ¬ Overflows cols col text.bytes) :
    (0 ≤ advanceColText host col text cols ∧ advanceColText host col text cols < cols) ↔
      ¬ Leaves cols col text.bytes := by
  obtain ⟨least, same⟩ := advanceLoop_range host text.bytes (by omega) edge low (by omega) small
  rw [← past_leaves (by omega) start, ← same]
  unfold advanceColText atLeast
  rw [if_neg (by omega)]
  omega

end Walk

variable {host : Host} {width : Int} {s : Session}

/-- A text that is followed from such a column is kept on the screen. -/
def Stays (width : Int) (walk : Int × CStr) : Prop :=
  ¬ Leaves width walk.1 walk.2.bytes ∧ ¬ Overflows width walk.1 walk.2.bytes

/-- A call that names a column names one on the screen. -/
def OnScreen (width : Int) : UiCall → Prop
  | .putsYx _ col _ => col < width
  | .printfYx _ col _ => col < width
  | _ => True

structure ColumnsIn (width : Int) (ui : Pico) : Prop where
  cols : ui.sz.cols = width
  stream : 0 ≤ ui.streamCurCol ∧ ui.streamCurCol < width
  ui : 0 ≤ ui.uiCurCol ∧ ui.uiCurCol < width

def MovesIn (width : Int) (out : List Output) : Prop := ∀ row col, .cup row col ∈ out → 0 ≤ col ∧ col < width

section Calls

structure Sound (width : Int) (s : Session) : Prop where
  terminal : (getTermSize s.winsize).cols = width
  columns : ColumnsIn width s.ui
  moves : MovesIn width s.out

/-- The session is sound as long as all texts that were followed stay on the screen. -/
def Tracks (width : Int) (s : Session) : Prop := (∀ walk ∈ s.followed, Stays width walk) → Sound width s

theorem cols_range (winsize : Option Winsize) : 1 ≤ (getTermSize winsize).cols ∧ (getTermSize winsize).cols ≤ 65535 := by
  unfold getTermSize
  split
  next ws =>
    have large := ws.col.toNat_lt
    split
    next known =>
      have : ws.col.toNat ≠ 0 := fun zero => known.2 (UInt16.toNat_inj.mp zero)
      constructor <;> simp only <;> omega
    · decide
  · decide

theorem Sound.advance (sound : Sound width s) {col : Int} {text : CStr} (start : 0 ≤ col ∧ col < width)
    (stays : Stays width (col, text)) :
    0 ≤ advanceColText host col text s.ui.sz.cols ∧ advanceColText host col text s.ui.sz.cols < width := by
  obtain ⟨_, edge⟩ := cols_range s.winsize
  rw [sound.terminal] at edge
  rw [sound.columns.cols]
  exact (advanceColText_iff host text edge start.1 start.2 stays.2).mpr stays.1

theorem Tracks.emit (tracks : Tracks width s) {output : Output}
    (move : Sound width s → ∀ row col, output = .cup row col → 0 ≤ col ∧ col < width) :
    Tracks width (emit s output) := by
  intro stays
  obtain ⟨terminal, columns, moves⟩ := tracks stays
  refine ⟨terminal, columns, fun row col inside => ?_⟩
  obtain earlier | here := List.mem_append.mp inside
  · exact moves row col earlier
  · exact move ⟨terminal, columns, moves⟩ row col (List.mem_singleton.mp here).symm

/-- Everything but a move to a column is harmless, and so is one to the first column. -/
theorem Tracks.plain (tracks : Tracks width s) {output : Output} (plain : ∀ row col, output = .cup row col → col = 0) :
    Tracks width (Picotui.emit s output) := by
  refine tracks.emit fun sound row col same => ?_
  have first := plain row col same
  have := sound.columns.ui
  omega

/-- The object is changed, and its columns are still on the screen. -/
theorem Tracks.update (tracks : Tracks width s) (ui : Pico) (columns : Sound width s → ColumnsIn width ui) :
    Tracks width { s with ui } := by
  intro stays
  have sound := tracks stays
  exact ⟨sound.terminal, columns sound, sound.moves⟩

theorem Tracks.follow (tracks : Tracks width s) {col : Int} {text : CStr} {ui : Pico}
    (columns : Sound width s → Stays width (col, text) → ColumnsIn width ui) :
    Tracks width { Picotui.follow s col text with ui } := by
  intro stays
  have sound := tracks fun walk inside => stays walk (List.mem_append_left _ inside)
  exact ⟨sound.terminal, columns sound (stays _ (List.mem_append_right _ (List.mem_singleton.mpr rfl))), sound.moves⟩

theorem atLeast_range {col : Int} (sound : Sound width s) (high : col < width) :
    0 ≤ atLeast 0 col ∧ atLeast 0 col < width := by
  have := sound.columns.ui
  unfold atLeast
  split <;> omega

theorem Tracks.text (tracks : Tracks width s) (text : CStr) : Tracks width (Picotui.emit s (.text text)) :=
  tracks.plain fun _ _ same => by cases same

theorem lines_tracks (tracks : Tracks width s) (n : Nat) :
    Tracks width ((List.range n).foldl (fun s _ => emit s (.text (.lit "\r\n"))) s) :=
  Steps.run_always (Tracks width) (fun _ _ tracks => tracks.text (.lit "\r\n")) tracks _

theorem uiMoveAbs_tracks (tracks : Tracks width s) {col : Int} (high : Sound width s → col < width) (relRow : Int) :
    Tracks width (uiMoveAbs host s relRow col) := by
  refine tracks.emit fun sound row other same => ?_
  cases same
  exact atLeast_range sound (high sound)

theorem uiPutAt_tracks (tracks : Tracks width s) {col : Int} (high : col < width) (relRow : Int) (text : CStr) :
    Tracks width (uiPutAt host s relRow col text) := by
  have moved : Tracks width (uiMoveAbs host s (atLeast 0 relRow) (atLeast 0 col)) :=
    uiMoveAbs_tracks tracks (fun sound => (atLeast_range sound high).2) _
  refine (moved.text text).follow fun sound stays => ?_
  exact ⟨sound.columns.cols, sound.columns.stream, sound.advance (atLeast_range sound high) stays⟩

theorem ensureUiAnchor_tracks (tracks : Tracks width s) : Tracks width (ensureUiAnchor s) := by
  unfold ensureUiAnchor
  split
  · exact tracks
  · refine tracks.update _ fun sound => ⟨sound.columns.cols, sound.columns.stream, ?_⟩
    have := sound.columns.ui
    constructor <;> simp only <;> omega

theorem uiAppend_tracks (tracks : Tracks width s) (text : CStr) : Tracks width (uiAppend host s text) := by
  have moved : Tracks width (uiMoveAbs host (ensureUiAnchor s) (ensureUiAnchor s).ui.uiCurRow
      (ensureUiAnchor s).ui.uiCurCol) :=
    uiMoveAbs_tracks (ensureUiAnchor_tracks tracks) (fun sound => sound.columns.ui.2) _
  refine (moved.text text).follow fun sound stays => ?_
  exact ⟨sound.columns.cols, sound.columns.stream, sound.advance sound.columns.ui stays⟩

theorem dropAnchors_tracks (tracks : Tracks width s) : Tracks width (dropAnchors s) :=
  tracks.update _ fun sound => ⟨sound.columns.cols, sound.columns.stream, sound.columns.ui⟩

theorem moveToBottom_tracks (tracks : Tracks width s) : Tracks width (moveToBottomScrollLine s) :=
  tracks.plain fun row col same => by cases same; rfl

theorem setScrollRegion_tracks (tracks : Tracks width s) (top bot : Int) : Tracks width (setScrollRegion s top bot) :=
  tracks.plain fun row col same => by cases same

theorem reprogramRegion_tracks (tracks : Tracks width s) : Tracks width (reprogramRegion s) := by
  refine setScrollRegion_tracks ?_ _ _
  refine (setScrollRegion_tracks tracks _ _).update _ fun sound => ?_
  exact ⟨sound.terminal, sound.columns.stream, sound.columns.ui⟩

section Drawing
variable {handle : Session → Session}

theorem uiCall_tracks (handled : Tracks width s → Tracks width (handle s)) (tracks : Tracks width s) {call : UiCall}
    (named : OnScreen width call) : Tracks width (uiCall host handle s call) := by
  have ready := handled tracks
  cases call with
  | puts text =>
    cases text with
    | none => exact ready
    | some text =>
      simp only [uiCall, picoUiPuts]
      split
      · exact ready
      · exact uiAppend_tracks ready text
  | printf text => exact uiAppend_tracks ready text
  | putsYx relRow col text =>
    cases text with
    | none => exact ready
    | some text => exact uiPutAt_tracks ready named relRow text
  | printfYx relRow col text => exact uiPutAt_tracks ready named relRow text
  | clearLine relRow =>
    simp only [uiCall, picoUiClearLine]
    split
    · exact ready
    · have cleared : Tracks width
          (emit (emit (handle s) (.cup (host.int (uiBase (handle s).ui + atLeast 0 relRow)) 0)) .el) :=
        (ready.plain fun row col same => by cases same; rfl).plain fun row col same => by cases same
      refine cleared.update _ fun sound => ⟨sound.columns.cols, sound.columns.stream, ?_⟩
      have := sound.columns.ui
      constructor <;> simp only <;> omega

/-- All calls of the callback name columns on the screen. -/
def DrawsOnScreen (host : Host) (width : Int) : Prop := ∀ n, ∀ call ∈ host.draws n, OnScreen width call

variable (drawn : DrawsOnScreen host width)
include drawn

theorem render_tracks (handled : ∀ s, Tracks width s → Tracks width (handle s)) (tracks : Tracks width s) :
    Tracks width (render host handle s) := by
  have counted : Tracks width { s with renders := s.renders + 1 } := fun stays => by
    obtain ⟨terminal, columns, moves⟩ := tracks stays
    exact ⟨terminal, columns, moves⟩
  exact List.foldlRecOn _ _ counted fun s tracks call inside => uiCall_tracks (handled s) tracks (drawn _ call inside)

theorem picoRedrawUi_tracks (handled : ∀ s, Tracks width s → Tracks width (handle s)) (tracks : Tracks width s) :
    Tracks width (picoRedrawUi host handle s) := by
  have cleared : Tracks width (clearUiRegion s) := Steps.run_always (Tracks width) (fun s i tracks =>
    (tracks.plain fun row col same => by cases same; rfl).plain fun row col same => by cases same) tracks _
  refine (render_tracks drawn handled cleared).update _ fun sound => ?_
  exact ⟨sound.columns.cols, sound.columns.stream, sound.columns.ui⟩

theorem reprogram_tracks (handled : ∀ s, Tracks width s → Tracks width (handle s)) (tracks : Tracks width s) :
    Tracks width (reprogramRegionAndRedraw host handle s) :=
  dropAnchors_tracks (moveToBottom_tracks (picoRedrawUi_tracks drawn handled (reprogramRegion_tracks tracks)))

theorem handleResize_tracks (s : Session) (tracks : Tracks width s) : Tracks width (handleResizeIfNeeded host s) := by
  unfold handleResizeIfNeeded
  split
  · refine reprogram_tracks drawn (fun _ tracks => tracks) (tracks.update _ fun sound => ?_)
    exact ⟨sound.columns.cols, sound.columns.stream, sound.columns.ui⟩
  · exact tracks

theorem picoAttach_tracks (tracks : Tracks width s) : Tracks width (picoAttach host s) := by
  have moved : Tracks width (emit s (.cup (s.ui.sz.rows - 1) 0)) := tracks.plain fun row col same => by cases same; rfl
  have redrawn := picoRedrawUi_tracks drawn (handleResize_tracks drawn) (lines_tracks moved s.ui.uiRows.toNat)
  exact dropAnchors_tracks (moveToBottom_tracks (setScrollRegion_tracks redrawn _ _))

theorem picoSetUiRows_tracks (tracks : Tracks width s) (uiRows : Int) : Tracks width (picoSetUiRows host s uiRows) := by
  simp only [picoSetUiRows]
  split
  · exact tracks
  · refine reprogram_tracks drawn (handleResize_tracks drawn) ?_
    have resized := (setScrollRegion_tracks (dropAnchors_tracks tracks) 0 (s.ui.sz.rows - 1)).update
      { (dropAnchors s).ui with uiRows := clampRows s.ui.sz uiRows }
      fun sound => ⟨sound.columns.cols, sound.columns.stream, sound.columns.ui⟩
    split
    · exact lines_tracks (resized.plain fun row col same => by cases same; rfl) _
    · exact resized

theorem streamMove_tracks (tracks : Tracks width s) :
    Tracks width (streamMove (ensureStreamAnchor (handleResizeIfNeeded host s))) := by
  have anchored : Tracks width (ensureStreamAnchor (handleResizeIfNeeded host s)) := by
    have handled := handleResize_tracks drawn s tracks
    unfold ensureStreamAnchor
    split
    · exact handled
    · refine handled.update _ fun sound => ⟨sound.columns.cols, ?_, sound.columns.ui⟩
      have := sound.columns.ui
      constructor <;> simp only <;> omega
  refine anchored.emit fun sound row col same => ?_
  cases same
  exact sound.columns.stream

omit drawn in
theorem streamAdvance_tracks (tracks : Tracks width s) (text : CStr) : Tracks width (streamAdvance host s text) :=
  tracks.follow fun sound stays => ⟨sound.columns.cols, sound.advance sound.columns.stream stays, sound.columns.ui⟩

theorem streamLine_tracks (tracks : Tracks width s) (line : CStr) : Tracks width (streamLine host s line) := by
  have handled := handleResize_tracks drawn s tracks
  have moved : Tracks width (emit (handleResizeIfNeeded host s) (.cup (bottomRow (handleResizeIfNeeded host s).ui) 0)) :=
    handled.plain fun row col same => by cases same; rfl
  have written := (moved.text line).text (.lit "\r\n")
  refine render_tracks drawn (handleResize_tracks drawn) (written.update _ fun sound => ?_)
  exact ⟨sound.columns.cols, sound.columns.stream, sound.columns.ui⟩

theorem picoPrintBlock_tracks (tracks : Tracks width s) (block : Option CStr) :
    Tracks width (picoPrintBlock host s block) := by
  cases block with
  | none => exact tracks
  | some block =>
    have written := (streamMove_tracks drawn tracks).text block
    refine streamLine_tracks drawn (render_tracks drawn (handleResize_tracks drawn) ?_) (.lit "")
    split
    · exact written.update _ fun sound => ⟨sound.columns.cols, sound.columns.stream, sound.columns.ui⟩
    · exact (streamAdvance_tracks written (lastLine block)).update _ fun sound =>
        ⟨sound.columns.cols, sound.columns.stream, sound.columns.ui⟩

theorem runCall_tracks (tracks : Tracks width s) {call : Call} (named : ∀ ui, call = .ui ui → OnScreen width ui) :
    Tracks width (runCall host s call) := by
  have handle := handleResize_tracks drawn
  cases call with
  | attach => exact picoAttach_tracks drawn tracks
  | setUiRows uiRows => exact picoSetUiRows_tracks drawn tracks uiRows
  | redrawUi => exact picoRedrawUi_tracks drawn handle tracks
  | ui call => exact uiCall_tracks (handle s) tracks (named call rfl)
  | print text =>
    have moved := streamMove_tracks drawn tracks
    refine render_tracks drawn handle ?_
    cases text with
    | none => exact moved
    | some text =>
      simp only
      split
      · exact moved
      · exact streamAdvance_tracks (moved.text text) text
  | printf text =>
    exact render_tracks drawn handle (streamAdvance_tracks ((streamMove_tracks drawn tracks).text text) text)
  | println line => exact streamLine_tracks drawn tracks _
  | printfln line => exact streamLine_tracks drawn tracks line
  | printBlock block => exact picoPrintBlock_tracks drawn tracks block

end Drawing
end Calls

section Runs
variable {t : Terminal}

/-- All columns are on the screen: those that are kept, and those that the last action moved to. -/
structure InRange (width : Int) (t : Terminal) : Prop where
  terminal : (getTermSize t.winsize).cols = width
  columns : ∀ ui ∈ t.uis, ColumnsIn width ui
  moves : MovesIn width t.out

/-- The width stays the same, columns are on the screen where the program names them, and no text
that is followed leaves the screen by a tab. -/
structure Permitted (width : Int) (host : Host) (t : Terminal) (action : Action) : Prop where
  fixed : ∀ winsize, action = .resize winsize → (getTermSize winsize).cols = width
  named : ∀ k call, action = .call k (.ui call) → OnScreen width call
  stays : ∀ walk ∈ (step host t action).followed, Stays width walk

theorem step_inRange (drawn : DrawsOnScreen host width) {action : Action} (range : InRange width t)
    (permitted : Permitted width host t action) : InRange width (step host t action) := by
  obtain ⟨terminal, columns, moves⟩ := range
  obtain ⟨wide, _⟩ := cols_range t.winsize
  have nothing : MovesIn width [] := fun _ _ inside => absurd inside List.not_mem_nil
  cases action with
  | init uiRows =>
    refine ⟨terminal, fun ui inside => ?_, nothing⟩
    obtain earlier | here := List.mem_append.mp inside
    · exact columns ui earlier
    · rw [List.mem_singleton.mp here]
      refine ⟨terminal, ?_, ?_⟩ <;> constructor <;> simp only [picoInit] <;> omega
  | resize winsize =>
    refine ⟨permitted.fixed winsize rfl, fun ui inside => ?_, nothing⟩
    obtain old | ⟨other, found, rfl⟩ := mem_onSigwinch inside
    · exact columns ui old
    · have kept := columns other found
      exact ⟨kept.cols, kept.stream, kept.ui⟩
  | call k call =>
    cases found : t.uis[k]? with
    | none =>
      simp only [step, found]
      exact ⟨terminal, columns, nothing⟩
    | some ui =>
      have stays := permitted.stays
      simp only [step, found] at stays ⊢
      have tracks : Tracks width { ui, winsize := t.winsize, renders := t.renders } := fun _ =>
        ⟨terminal, columns ui (List.mem_of_getElem? found), nothing⟩
      have sound := runCall_tracks drawn tracks (fun call same => permitted.named k call (by rw [same])) stays
      refine ⟨?_, fun other inside => ?_, sound.moves⟩
      · exact terminal
      · obtain old | new := List.mem_or_eq_of_mem_set inside
        · exact columns other old
        · rw [new]
          exact sound.columns

theorem stays_without_tab {walk : Int × CStr} (plain : 9 ∉ walk.2.bytes) : Stays width walk := by
  constructor
  · intro leaves
    obtain ⟨before, same, _⟩ := leaves
    exact plain (by simp [same])
  · intro overflows
    obtain ⟨before, begins, _⟩ := overflows
    exact plain (begins.subset (by simp))

/-- In every run in which no text leaves the screen by a tab, all columns stay on the screen. -/
theorem columns_stay (drawn : DrawsOnScreen host width) {actions : List Action} (start : InRange width t)
    (permitted : ∀ before action after, actions = before ++ action :: after →
      Permitted width host (before.foldl (step host) t) action) : InRange width (actions.foldl (step host) t) :=
  Steps.run_invariant (fun _ _ range permitted => step_inRange drawn range permitted) start permitted

/-- A terminal whose sums are those of the integers, with a callback that draws one line. -/
def plainHost : Host where
  draws _ := [.clearLine 0, .puts (some (.lit "LTF"))]
  int n := n
  sums _ _ _ := rfl

def plainActions : List Action := [.init 8, .call 0 .attach, .call 0 (.print (some (.lit "abc")))]

theorem columns_stay_print : InRange 80 (plainActions.foldl (step plainHost) { winsize := some ⟨24, 80⟩ }) := by
  refine columns_stay ?_ ⟨rfl, by simp, by simp [MovesIn]⟩ ?_
  · intro n call inside
    obtain rfl | rfl : call = .clearLine 0 ∨ call = .puts (some (.lit "LTF")) := by simpa [plainHost] using inside
    · trivial
    · trivial
  · intro before action after split
    have member : action ∈ plainActions := by simp [split]
    have plain : ∀ front ∈ plainActions.inits,
        ∀ walk ∈ (front.foldl (step plainHost) { winsize := some ⟨24, 80⟩ }).followed, 9 ∉ walk.2.bytes := by decide
    refine ⟨?_, ?_, fun walk inside => stays_without_tab ?_⟩
    · rintro winsize rfl
      simp [plainActions] at member
    · rintro k call rfl
      simp [plainActions] at member
    · refine plain (before ++ [action]) ?_ walk (by rwa [List.foldl_concat])
      rw [List.mem_inits, split]
      exact ⟨after, by simp⟩

/-- The second text is printed in column 16 of 10. -/
theorem tab_leaves : ¬ InRange 10 ([Action.init 1, .call 0 (.print (some (.lit "12345678\t")))].foldl (step plainHost)
      { winsize := some ⟨24, 10⟩ }) ∧
    .cup 22 16 ∈ ([Action.init 1, .call 0 (.print (some (.lit "12345678\t"))), .call 0 (.print (some (.lit "x")))].foldl
      (step plainHost) { winsize := some ⟨24, 10⟩ }).out := by
  refine ⟨fun range => ?_, by decide⟩
  have columns : ([Action.init 1, .call 0 (.print (some (.lit "12345678\t")))].foldl (step plainHost)
      { winsize := some ⟨24, 10⟩ }).uis.map (·.streamCurCol) = [16] := by decide
  obtain ⟨ui, inside, same⟩ := List.mem_map.mp (columns ▸ List.mem_singleton.mpr rfl)
  have := (range.columns ui inside).stream
  omega

end Runs

end Ltf.Proofs.ScreenColumns
