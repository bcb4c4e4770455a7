import MempoolWatch.Report.Entry
import MempoolWatch.Utf8

/-! Where entries go. A transcript keeps every entry; an output of bytes may be
full, and then keeps the part of the text for which there is room. -/
namespace MempoolWatch.Report

/-- Takes entries one by one and says of each whether all of it was taken. -/
class Sink (σ : Type) where
  write : σ → Entry → σ × Bool

/-- All entries in the order of their writing. -/
abbrev Transcript := List Entry

instance : Sink Transcript where
  write transcript entry := (transcript ++ [entry], true)

/-- An output of bytes with room for a number of them, or without a limit. -/
structure Output where
  written : Bytes
  room : Option Nat

namespace Output

def empty (room : Option Nat) : Output := ⟨[], room⟩

/-- Appends the bytes for which there is room. -/
def append (output : Output) (bytes : Bytes) : Output × Bool :=
  match output.room with
  | none => (⟨output.written ++ bytes, none⟩, true)
  | some room =>
    (⟨output.written ++ bytes.take room, some (room - bytes.length)⟩, bytes.length ≤ room)

end Output

instance : Sink Output where
  write output entry := output.append (Utf8.encode entry.text)

end MempoolWatch.Report
