import Chip8.Console
import Chip8.Host
import Chip8.Keypad
import Chip8.Random.MersenneTwister
/-! Ready-made devices for a host: silent ones, ones that record what is asked of them, and ones that
write text. What is recorded and what is written is kept in order. -/

namespace Chip8

inductive Request
  | clear
  | render
  | isPressed (key : Nat)
  | waitKey
  | tone (active : Bool)
  | title (text : String)
  deriving DecidableEq

/-- A recording display may ask for a stop at a render to come. -/
inductive Display
  | silent
  | recorded (rendersToStop : Option Nat)
  | console (c : Console)

/-- Scripted keys answer waits from a list, unchecked; a keypad plays events during the next wait. -/
inductive Keys
  | silent
  | scripted (pressed answers : List Int)
  | keypad (kp : Keypad) (events : List KeyEvent)

inductive Tone
  | silent
  | recorded
  | title (t : TitleTone) (recorded written : Bool)

inductive RandomSource
  | scripted (bytes : Array Int) (position : Nat)
  | twister (g : MersenneTwister)

structure Peripherals where
  display : Display := .silent
  keys : Keys := .silent
  tone : Tone := .silent
  random : RandomSource := .scripted #[] 0
  requests : List Request := []
  written : String := ""
  stops : Nat := 0

namespace Peripherals

def record (p : Peripherals) (r : Request) : Peripherals := { p with requests := p.requests ++ [r] }

def write (p : Peripherals) (text : String) : Peripherals := { p with written := p.written ++ text }

def clearDisplay (p : Peripherals) : Peripherals :=
  match p.display with
  | .silent => p
  | .recorded _ => p.record .clear
  | .console c =>
    let cleared := c.clear
    { p with display := .console cleared.1 }.write cleared.2

def render (fb : Framebuffer) (p : Peripherals) : Peripherals :=
  match p.display with
  | .silent => p
  | .recorded none => p.record .render
  | .recorded (some n) =>
    let p := p.record .render
    if n ≤ 1 then { p with display := .recorded none, stops := p.stops + 1 }
    else { p with display := .recorded (some (n - 1)) }
  | .console c =>
    let rendered := c.render fb
    { p with display := .console rendered.1 }.write rendered.2

def isPressed (key : Nat) (p : Peripherals) : Bool × Peripherals :=
  match p.keys with
  | .silent => (false, p)
  | .scripted pressed _ => (pressed.contains (key : Int), p.record (.isPressed key))
  | .keypad kp _ => (kp.isDown key, p)

def waitKey (p : Peripherals) : Except WaitFault Int × Peripherals :=
  match p.keys with
  | .silent => (.error (.interrupted .noSource), p)
  | .scripted pressed answers =>
    let p := p.record .waitKey
    match answers with
    | [] => (.error (.interrupted .interrupted), p)
    | key :: rest => (.ok key, { p with keys := .scripted pressed rest })
  | .keypad kp events =>
    let waited := kp.waitThrough events false
    (waited.1, { p with keys := .keypad waited.2 [] })

def setTone (active : Bool) (p : Peripherals) : Peripherals :=
  match p.tone with
  | .silent => p
  | .recorded => p.record (.tone active)
  | .title t recorded written =>
    let t := t.set active
    let p := { p with tone := .title t recorded written }
    if recorded then p.record (.title t.text)
    else if written then p.write t.escape
    else p

def randomByte (p : Peripherals) : UInt8 × Peripherals :=
  match p.random with
  | .scripted bytes position =>
    let byte := UInt8.ofNat ((bytes.getD (position % bytes.size) 0) % 256).toNat
    (byte, { p with random := .scripted bytes (position + 1) })
  | .twister g =>
    let drawn := g.nextByte
    (drawn.1, { p with random := .twister drawn.2 })

instance : Host Peripherals where
  clearDisplay := clearDisplay
  render := render
  isPressed := isPressed
  waitKey := waitKey
  setTone := setTone
  randomByte := randomByte

end Peripherals

end Chip8
