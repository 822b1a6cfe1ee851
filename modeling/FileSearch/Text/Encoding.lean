import FileSearch.Text.Basic

/-!
Text as the world outside stores it: in bytes. An encoding has bytes for some characters, for those
of ASCII at least, and a text without bytes can be neither written nor handed to the system. Bytes
that are read are text only if they are valid UTF-8. A line ends at any line, paragraph, file, group
or record separator, at a form feed and at a vertical tab.
-/

namespace FileSearch

/-- The characters that have bytes. -/
structure Encoding where
  has : Char → Bool
  ascii : ∀ c, c.toNat < 128 → has c = true

namespace Encoding

/-- Every character has bytes. -/
def utf8 : Encoding := ⟨fun _ => true, fun _ _ => rfl⟩

/-- Whether the text has bytes. -/
def encodes (k : Encoding) (t : Text) : Bool := t.all k.has

@[simp] theorem utf8_encodes (t : Text) : utf8.encodes t = true := by
  simp [encodes, utf8]

/-- ASCII text has bytes in every encoding. -/
theorem encodes_of_ascii (k : Encoding) {t : Text} (h : ∀ c ∈ t, c.toNat < 128) :
    k.encodes t = true :=
  List.all_eq_true.2 fun c hc => k.ascii c (h c hc)

end Encoding

/-! ### Reading -/

/-- The text the bytes encode, if they are valid UTF-8. -/
def decodeUtf8 (bytes : List UInt8) : Option Text :=
  (String.fromUTF8? ⟨bytes.toArray⟩).map String.toList

/-- The text with a line feed for each carriage return, alone or before a line feed. -/
def unifyLineEnds : Text → Text
  | [] => []
  | '\r' :: '\n' :: r => '\n' :: unifyLineEnds r
  | c :: r => (if c = '\r' then '\n' else c) :: unifyLineEnds r

/-- Code ranges of the characters that end a line. -/
def lineBreakRanges : List (Nat × Nat) :=
  [(0xA, 0xD), (0x1C, 0x1E), (0x85, 0x85), (0x2028, 0x2029)]

/-- The lines of a text; nothing after the last line end is no line. -/
def textLines (t : Text) : List Text :=
  let pieces := splitWhere (inRanges lineBreakRanges) (unifyLineEnds t)
  if pieces.getLast? = some [] then pieces.dropLast else pieces

example : textLines ['a', '\r', '\n', '\n', 'b', '\r'] = [['a'], [], ['b']] := by decide

end FileSearch
