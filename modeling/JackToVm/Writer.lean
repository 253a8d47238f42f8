import JackToVm.Event

/-!
# Writing instructions to a file of limited size

A writer takes bytes up to its quota. Of a line that does not fit it takes the bytes that do, and
refuses the rest.
-/

namespace JackToVm

/-- What was written, and how many bytes there is room for; no quota is no limit. -/
structure Writer where
  written : ByteArray
  quota : Option Nat

namespace Writer

/-- Writes some bytes, as many as there is room for; the flag tells whether it was all of them. -/
def write (w : Writer) (bytes : ByteArray) : Writer × Bool :=
  match w.quota with
  | none => ({ w with written := w.written ++ bytes }, true)
  | some quota =>
    let room := quota - w.written.size
    ({ w with written := w.written ++ bytes.extract 0 room }, bytes.size ≤ room)

/-- Why a writer refuses bytes. -/
def exceeded : String := "quota exceeded"

/-- Writes an instruction on a line of its own. -/
def emit (w : Writer) (i : Instruction) : Writer × Option String :=
  match w.write i.line.toUTF8 with
  | (w, true) => (w, none)
  | (w, false) => (w, some exceeded)

/-- Writes instructions up to the first that does not fit. -/
def emitAll (w : Writer) : List Instruction → Writer × Option String
  | [] => (w, none)
  | i :: code =>
    match w.emit i with
    | (w, none) => emitAll w code
    | refused => refused

end Writer

/-- The sink that writes instructions and ignores all other events. -/
def Sink.writer : Sink Writer where
  report w _ := w
  emit := Writer.emit

end JackToVm
