import Ltf.Base.CString

/-! `picotui.c`: a user interface in the rows at the bottom of the terminal, and text that scrolls
above it. A signal arrives between two calls of the program. Formatted texts are given as they
come out, there is memory for all of them, and a callback draws and does nothing else. -/

namespace Ltf.Picotui
open CString

/-- `struct winsize`, as the terminal gives it. -/
structure Winsize where
  row : UInt16
  col : UInt16

/-- `term_size_t` -/
structure TermSize where
  rows : Int
  cols : Int

/-- `get_term_size`, with the answer of the terminal, if there is one. -/
def getTermSize (winsize : Option Winsize) : TermSize :=
  match winsize with
  | some ws =>
    if ws.row ≠ 0 ∧ ws.col ≠ 0 then { rows := ws.row.toNat, cols := ws.col.toNat } else { rows := 24, cols := 80 }
  | none => { rows := 24, cols := 80 }

/-- What goes to the terminal. -/
inductive Output where
  | cup (row col : Int)
  | csr (top bot : Int)
  | el
  | text (text : CStr)
deriving DecidableEq

/-- A call that draws in the user interface. -/
inductive UiCall where
  | puts (text : Option CStr)
  | printf (text : CStr)
  | putsYx (relRow col : Int) (text : Option CStr)
  | printfYx (relRow col : Int) (text : CStr)
  | clearLine (relRow : Int)

/-- What the callback draws each time it is called, and what an `int` holds after a sum. -/
structure Host where
  draws : Nat → List UiCall
  int : Int → Int
  sums : ∀ n, -2147483648 ≤ n → n ≤ 2147483647 → int n = n

/-- `pico_t` -/
structure Pico where
  uiRows : Int
  sz : TermSize
  streamAnchorSet : Bool := false
  streamCurCol : Int := 0
  uiAnchorSet : Bool := false
  uiCurRow : Int := 0
  uiCurCol : Int := 0
  resized : Bool := false

/-- During a call: the object, the terminal, how often the callback was called, and what went out.
The texts that a column was taken through are kept with the columns they began in. -/
structure Session where
  ui : Pico
  winsize : Option Winsize
  renders : Nat
  out : List Output := []
  followed : List (Int × CStr) := []

def emit (s : Session) (output : Output) : Session := { s with out := s.out ++ [output] }

def atLeast (low n : Int) : Int := if n < low then low else n

section Core

def setScrollRegion (s : Session) (top bot : Int) : Session := emit s (.csr top bot)

def resetScrollRegion (s : Session) : Session := setScrollRegion s 0 (s.ui.sz.rows - 1)

/-- The last row of the region that scrolls. -/
def bottomRow (ui : Pico) : Int := atLeast 0 (ui.sz.rows - ui.uiRows - 1)

/-- The first row of the user interface. -/
def uiBase (ui : Pico) : Int := atLeast 0 (ui.sz.rows - ui.uiRows)

def moveToBottomScrollLine (s : Session) : Session := emit s (.cup (bottomRow s.ui) 0)

def clearUiRegion (s : Session) : Session :=
  (List.range s.ui.uiRows.toNat).foldl (fun s i => emit (emit s (.cup (uiBase s.ui + i) 0)) .el) s

/-- The loop of `advance_col_text`. -/
def advanceLoop (host : Host) (termCols : Int) : Int → List UInt8 → Int
  | col, [] => col
  | col, ch :: rest =>
    if ch = 10 ∨ ch = 13 then advanceLoop host termCols 0 rest
    else if ch = 9 then advanceLoop host termCols (host.int ((col.tdiv 8 + 1) * 8)) rest
    else
      let col := if 32 ≤ ch ∧ ch ≠ 127 then host.int (col + 1) else col
      if termCols ≤ col then termCols - 1 else advanceLoop host termCols col rest

def advanceColText (host : Host) (startCol : Int) (text : CStr) (termCols : Int) : Int :=
  atLeast 0 (advanceLoop host termCols startCol text.bytes)

def follow (s : Session) (col : Int) (text : CStr) : Session := { s with followed := s.followed ++ [(col, text)] }

def uiMoveAbs (host : Host) (s : Session) (relRow col : Int) : Session :=
  let r := atLeast 0 (host.int (uiBase s.ui + relRow))
  let r := if s.ui.sz.rows ≤ r then s.ui.sz.rows - 1 else r
  emit s (.cup r (atLeast 0 col))

end Core

section Drawing
variable (host : Host) (handle : Session → Session)

/-- The text at a place of the user interface. -/
def uiPutAt (s : Session) (relRow col : Int) (text : CStr) : Session :=
  let relRow := atLeast 0 relRow
  let col := atLeast 0 col
  let s := follow (emit (uiMoveAbs host s relRow col) (.text text)) col text
  { s with ui := { s.ui with
    uiAnchorSet := true
    uiCurRow := relRow
    uiCurCol := advanceColText host col text s.ui.sz.cols } }

def picoUiPutsYx (s : Session) (relRow col : Int) (text : Option CStr) : Session :=
  let s := handle s
  match text with
  | none => s
  | some text => uiPutAt host s relRow col text

def picoUiPrintfYx (s : Session) (relRow col : Int) (text : CStr) : Session := uiPutAt host (handle s) relRow col text

def ensureUiAnchor (s : Session) : Session :=
  if s.ui.uiAnchorSet then s else { s with ui := { s.ui with uiAnchorSet := true, uiCurRow := 0, uiCurCol := 0 } }

/-- The text behind the last one. -/
def uiAppend (s : Session) (text : CStr) : Session :=
  let s := ensureUiAnchor s
  let s := follow (emit (uiMoveAbs host s s.ui.uiCurRow s.ui.uiCurCol) (.text text)) s.ui.uiCurCol text
  { s with ui := { s.ui with uiCurCol := advanceColText host s.ui.uiCurCol text s.ui.sz.cols } }

def picoUiPuts (s : Session) (text : Option CStr) : Session :=
  let s := handle s
  match text with
  | none => s
  | some text => if text.bytes = [] then s else uiAppend host s text

def picoUiPrintf (s : Session) (text : CStr) : Session := uiAppend host (handle s) text

def picoUiClearLine (s : Session) (relRow : Int) : Session :=
  let s := handle s
  let relRow := atLeast 0 relRow
  let r := host.int (uiBase s.ui + relRow)
  if s.ui.sz.rows ≤ r then s
  else
    let s := emit (emit s (.cup r 0)) .el
    { s with ui := { s.ui with uiAnchorSet := true, uiCurRow := relRow, uiCurCol := 0 } }

def uiCall (s : Session) : UiCall → Session
  | .puts text => picoUiPuts host handle s text
  | .printf text => picoUiPrintf host handle s text
  | .putsYx relRow col text => picoUiPutsYx host handle s relRow col text
  | .printfYx relRow col text => picoUiPrintfYx host handle s relRow col text
  | .clearLine relRow => picoUiClearLine host handle s relRow

/-- The callback is called. -/
def render (s : Session) : Session :=
  (host.draws s.renders).foldl (uiCall host handle) { s with renders := s.renders + 1 }

def picoRedrawUi (s : Session) : Session :=
  let s := render host handle (clearUiRegion s)
  { s with ui := { s.ui with uiAnchorSet := false } }

/-- A height of at least one row that leaves a row to the text. -/
def clampRows (sz : TermSize) (uiRows : Int) : Int :=
  let uiRows := atLeast 1 uiRows
  if sz.rows ≤ uiRows then sz.rows - 1 else uiRows

/-- `reprogram_region_and_redraw`, up to the callback. -/
def reprogramRegion (s : Session) : Session :=
  let s := resetScrollRegion s
  let sz := getTermSize s.winsize
  let s := { s with ui := { s.ui with sz, uiRows := clampRows sz s.ui.uiRows } }
  setScrollRegion s 0 (bottomRow s.ui)

def dropAnchors (s : Session) : Session := { s with ui := { s.ui with streamAnchorSet := false, uiAnchorSet := false } }

def reprogramRegionAndRedraw (s : Session) : Session :=
  dropAnchors (moveToBottomScrollLine (picoRedrawUi host handle (reprogramRegion s)))

end Drawing

section Calls
variable (host : Host)

/-- The flag is down when the callback is called on the way, so none of its calls gets here again. -/
def handleResizeIfNeeded (s : Session) : Session :=
  if s.ui.resized then reprogramRegionAndRedraw host id { s with ui := { s.ui with resized := false } } else s

def picoAttach (s : Session) : Session :=
  let s := emit s (.cup (s.ui.sz.rows - 1) 0)
  let s := (List.range s.ui.uiRows.toNat).foldl (fun s _ => emit s (.text (.lit "\r\n"))) s
  let s := picoRedrawUi host (handleResizeIfNeeded host) s
  dropAnchors (moveToBottomScrollLine (setScrollRegion s 0 (bottomRow s.ui)))

def picoSetUiRows (s : Session) (uiRows : Int) : Session :=
  let uiRows := clampRows s.ui.sz uiRows
  if uiRows = s.ui.uiRows then s
  else
    let s := resetScrollRegion (dropAnchors s)
    let delta := uiRows - s.ui.uiRows
    let s := { s with ui := { s.ui with uiRows } }
    let s := if 0 < delta then
        (List.range delta.toNat).foldl (fun s _ => emit s (.text (.lit "\r\n"))) (emit s (.cup (s.ui.sz.rows - 1) 0))
      else s
    reprogramRegionAndRedraw host (handleResizeIfNeeded host) s

def ensureStreamAnchor (s : Session) : Session :=
  if s.ui.streamAnchorSet then s else { s with ui := { s.ui with streamAnchorSet := true, streamCurCol := 0 } }

def streamMove (s : Session) : Session := emit s (.cup (bottomRow s.ui) s.ui.streamCurCol)

/-- The column moves on through the text. -/
def streamAdvance (s : Session) (text : CStr) : Session :=
  let s := follow s s.ui.streamCurCol text
  { s with ui := { s.ui with streamCurCol := advanceColText host s.ui.streamCurCol text s.ui.sz.cols } }

def streamWrite (s : Session) (text : CStr) : Session := streamAdvance host (emit s (.text text)) text

def picoPrint (s : Session) (text : Option CStr) : Session :=
  let s := streamMove (ensureStreamAnchor (handleResizeIfNeeded host s))
  let s := match text with
    | none => s
    | some text => if text.bytes = [] then s else streamWrite host s text
  render host (handleResizeIfNeeded host) s

def picoPrintf (s : Session) (text : CStr) : Session :=
  let s := streamMove (ensureStreamAnchor (handleResizeIfNeeded host s))
  render host (handleResizeIfNeeded host) (streamWrite host s text)

/-- A line from the first column on. -/
def streamLine (s : Session) (line : CStr) : Session :=
  let s := handleResizeIfNeeded host s
  let s := emit (emit (emit s (.cup (bottomRow s.ui) 0)) (.text line)) (.text (.lit "\r\n"))
  render host (handleResizeIfNeeded host) { s with ui := { s.ui with streamAnchorSet := false } }

def picoPrintln (s : Session) (line : Option CStr) : Session := streamLine host s (line.getD (.lit ""))

def picoPrintfln (s : Session) (line : CStr) : Session := streamLine host s line

/-- What stands behind the last newline. -/
def lastLine (block : CStr) : CStr := .ofBytes (block.bytes.reverse.takeWhile (· ≠ 10)).reverse

def picoPrintBlock (s : Session) (block : Option CStr) : Session :=
  match block with
  | none => s
  | some block =>
    let s := streamMove (ensureStreamAnchor (handleResizeIfNeeded host s))
    let s := emit s (.text block)
    let s := if block.bytes.getLast? = some 10 then { s with ui := { s.ui with streamAnchorSet := false } }
      else
        let s := streamAdvance host s (lastLine block)
        { s with ui := { s.ui with streamAnchorSet := true } }
    picoPrintln host (render host (handleResizeIfNeeded host) s) (some (.lit ""))

end Calls

section Program

/-- A call of the program on an object. -/
inductive Call where
  | attach
  | setUiRows (uiRows : Int)
  | redrawUi
  | ui (call : UiCall)
  | print (text : Option CStr)
  | printf (text : CStr)
  | println (line : Option CStr)
  | printfln (line : CStr)
  | printBlock (block : Option CStr)

def runCall (host : Host) (s : Session) : Call → Session
  | .attach => picoAttach host s
  | .setUiRows uiRows => picoSetUiRows host s uiRows
  | .redrawUi => picoRedrawUi host (handleResizeIfNeeded host) s
  | .ui call => uiCall host (handleResizeIfNeeded host) s call
  | .print text => picoPrint host s text
  | .printf text => picoPrintf host s text
  | .println line => picoPrintln host s line
  | .printfln line => picoPrintfln host s line
  | .printBlock block => picoPrintBlock host s block

/-- The objects, the one that a signal is for, and what the last action wrote and followed. -/
structure Terminal where
  winsize : Option Winsize
  uis : List Pico := []
  singleton : Option Nat := none
  renders : Nat := 0
  out : List Output := []
  followed : List (Int × CStr) := []

inductive Action where
  | init (uiRows : Int)
  | resize (winsize : Option Winsize)
  | call (k : Nat) (call : Call)

def picoInit (winsize : Option Winsize) (uiRows : Int) : Pico where
  uiRows := atLeast 1 uiRows
  sz := getTermSize winsize

/-- `on_sigwinch` -/
def onSigwinch (t : Terminal) : List Pico :=
  match t.singleton with
  | none => t.uis
  | some k => t.uis.modify k fun ui => { ui with resized := true }

theorem mem_onSigwinch {t : Terminal} {ui : Pico} (inside : ui ∈ onSigwinch t) :
    ui ∈ t.uis ∨ ∃ other ∈ t.uis, ui = { other with resized := true } := by
  unfold onSigwinch at inside
  split at inside
  · exact .inl inside
  next k signalled =>
    obtain ⟨i, found⟩ := List.mem_iff_getElem?.mp inside
    rw [List.getElem?_modify] at found
    split at found
    · obtain ⟨other, there, same⟩ := Option.map_eq_some_iff.mp found
      exact .inr ⟨other, List.mem_of_getElem? there, same.symm⟩
    · have there : t.uis[i]? = some ui := by simpa using found
      exact .inl (List.mem_of_getElem? there)

def step (host : Host) (t : Terminal) : Action → Terminal
  | .init uiRows => { t with
      uis := t.uis ++ [picoInit t.winsize uiRows], singleton := some t.uis.length, out := [], followed := [] }
  | .resize winsize => { t with winsize, uis := onSigwinch t, out := [], followed := [] }
  | .call k call =>
    match t.uis[k]? with
    | none => { t with out := [], followed := [] }
    | some ui =>
      let s := runCall host { ui, winsize := t.winsize, renders := t.renders } call
      { t with uis := t.uis.set k s.ui, renders := s.renders, out := s.out, followed := s.followed }

end Program

end Ltf.Picotui
