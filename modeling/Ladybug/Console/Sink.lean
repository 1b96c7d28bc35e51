/-!
# Output

What the console says goes to a sink of bytes. A sink may have a limit: it keeps the bytes
that still fit and refuses to take any more. Refusing is noticed by whoever writes, but
only if something was left over, so writing nothing always succeeds.
-/

namespace Ladybug

/-- Where output goes. -/
structure Sink where
  written : ByteArray
  /-- How many bytes the sink takes in total, if that is limited. -/
  limit : Option Nat

namespace Sink

/-- A sink without limit. -/
def unlimited : Sink := ⟨ByteArray.empty, none⟩

/-- A sink that takes so many bytes. -/
def limited (limit : Nat) : Sink := ⟨ByteArray.empty, some limit⟩

/-- What a writer is told when the sink refuses. -/
def refusal : String := "output closed"

/-- The bytes of a text that still fit. -/
def fitting (s : Sink) (text : String) : ByteArray :=
  match s.limit with
  | none => text.toUTF8
  | some limit => text.toUTF8.extract 0 (limit - s.written.size)

/-- The sink after a text was written to it as far as it fits. -/
def push (s : Sink) (text : String) : Sink := { s with written := s.written ++ s.fitting text }

/-- The whole text fits. -/
def hasRoom (s : Sink) (text : String) : Bool :=
  s.limit.all fun limit => s.written.size + text.utf8ByteSize ≤ limit

/-- Writes lines up to one that does not fit. Whether all of them did is returned. -/
def pushLines : Sink → List String → Sink × Bool
  | s, [] => (s, true)
  | s, line :: rest =>
    let text := line ++ "\n"
    if s.hasRoom text then pushLines (s.push text) rest else (s.push text, false)

end Sink

end Ladybug
