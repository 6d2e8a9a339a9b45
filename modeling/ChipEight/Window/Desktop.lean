import ChipEight.Display.Basic

namespace ChipEight

inductive Service
  | eventLoop
  | window
  | pixels
  | surface
deriving DecidableEq, Repr

def Service.message : Service → String
  | eventLoop => "event_loop unavailable"
  | window => "window unavailable"
  | pixels => "pixels unavailable"
  | surface => "surface unavailable"

structure WindowSettings where
  title : String
  width : Nat
  height : Nat
  resizable : Bool
deriving DecidableEq, Repr

/-- A buffer of pixels: four bytes for each of the 2048 cells. -/
abbrev Pixels := Vector UInt8 8192

def Rgba.bytes (c : Rgba) : Vector UInt8 4 :=
  #v[c.red, c.green, c.blue, c.alpha]

def Frame.pixels (f : Frame) : Pixels :=
  (f.map Rgba.bytes).flatten

def Pixels.colour (p : Pixels) (n : Fin 2048) : Rgba :=
  ⟨p[4 * n.val], p[4 * n.val + 1], p[4 * n.val + 2], p[4 * n.val + 3]⟩

theorem Frame.getElem_pixels (f : Frame) (n : Fin 2048) (k : Fin 4) :
    (Frame.pixels f)[4 * n.val + k.val] = f[n].bytes[k] := by
  have hdiv : (4 * n.val + k.val) / 4 = n.val := by omega
  have hmod : (4 * n.val + k.val) % 4 = k.val := by omega
  have h := @Vector.getElem_flatten UInt8 4 2048 (f.map Rgba.bytes) (4 * n.val + k.val) (by omega)
  simp only [hdiv, hmod, Vector.getElem_map] at h
  exact h

theorem Pixels.colour_pixels (f : Frame) (n : Fin 2048) :
    Pixels.colour (Frame.pixels f) n = f[n] := by
  have h := Frame.getElem_pixels f n
  have h0 := h 0
  have h1 := h 1
  have h2 := h 2
  have h3 := h 3
  simp only [Rgba.bytes, Fin.getElem_fin] at h0 h1 h2 h3
  unfold colour
  congr

inductive Call
  | createEventLoop
  /-- Delivers the events that have come. -/
  | pump
  | createWindow (settings : WindowSettings)
  /-- Prepares to show a picture of one size on a surface of another. -/
  | createPixels (width height surfaceWidth surfaceHeight : Nat)
  | render (pixels : Pixels)
  | requestRedraw
  | announcePresent
  | setTitle (title : String)
  | exit
deriving DecidableEq

structure Desktop where
  /-- The service that fails from now on. -/
  failing : Option Service := none
  /-- After how many pictures showing one fails, if it ever does. -/
  rendersLeft : Option Nat := none
  /-- The width and the height that a window gets, if they are not the ones asked for. -/
  granted : Option (Nat × Nat) := none
  /-- The status that the application is to end with. -/
  exitStatus : Option Int := none
  calls : Array Call := #[]

namespace Desktop

def record (d : Desktop) (call : Call) : Desktop :=
  { d with calls := d.calls.push call }

/-- Records a call to a service, and says whether the service does its work. -/
def useService (d : Desktop) (service : Service) (call : Call) : Desktop × Except Service Unit :=
  (d.record call, if d.failing = some service then .error service else .ok ())

def createEventLoop (d : Desktop) : Desktop × Except Service Unit :=
  d.useService .eventLoop .createEventLoop

def createWindow (d : Desktop) (settings : WindowSettings) : Desktop × Except Service Unit :=
  d.useService .window (.createWindow settings)

/-- The width and the height of a window that was asked for. -/
def innerSize (d : Desktop) (settings : WindowSettings) : Nat × Nat :=
  d.granted.getD (settings.width, settings.height)

/-- Prepares to show pictures of 64 by 32 cells in a window of some size. -/
def createPixels (d : Desktop) (size : Nat × Nat) : Desktop × Except Service Unit :=
  d.useService .pixels (.createPixels 64 32 size.1 size.2)

def render (d : Desktop) (pixels : Pixels) : Desktop × Except Service Unit :=
  let d := d.record (.render pixels)
  match d.rendersLeft with
  | none => (d, .ok ())
  | some 0 => (d, .error .surface)
  | some (n + 1) => ({ d with rendersLeft := some n }, .ok ())

def requestRedraw (d : Desktop) : Desktop :=
  d.record .requestRedraw

def announcePresent (d : Desktop) : Desktop :=
  d.record .announcePresent

def setTitle (d : Desktop) (title : String) : Desktop :=
  d.record (.setTitle title)

def exit (d : Desktop) : Desktop :=
  { d.record .exit with exitStatus := some 0 }

end Desktop

end ChipEight
