import Chip8.Framebuffer
/-! Text consoles: a display that writes the screen as lines of text, and a tone shown in the window
title. Each operation gives the text to be written. -/

namespace Chip8

/-- A console display keeps the last frame; it writes only if it is live. -/
structure Console where
  on : String := "█"
  off : String := " "
  escapes : Bool := true
  live : Bool := true
  lastFrame : Option String := none
  deriving DecidableEq

namespace Console

def cursorHome : String := "\x1b[H"

def eraseScreen : String := "\x1b[2J"

def clear (c : Console) : Console × String :=
  ({ c with lastFrame := none }, if c.live && c.escapes then eraseScreen else "")

def render (c : Console) (fb : Framebuffer) : Console × String :=
  let frame := fb.toText c.on c.off
  let written := if c.live then (if c.escapes then cursorHome else "") ++ frame ++ "\n" else ""
  ({ c with lastFrame := some frame }, written)

end Console

structure TitleTone where
  title : String := "CHIP-8"
  active : Bool := false
  deriving DecidableEq

namespace TitleTone

def set (t : TitleTone) (active : Bool) : TitleTone := { t with active }

def text (t : TitleTone) : String := if t.active then t.title ++ ": BEEPING" else t.title

def escape (t : TitleTone) : String := "\x1b]0;" ++ t.text ++ "\x07"

end TitleTone

end Chip8
