set_option autoImplicit false

/-!
# Source text

A syntax tree refers to its text by byte offsets into the UTF-8 form. This module cuts out the text of a
byte range and turns an offset into a line and a column.

## Main definitions

* `TestScaffold.SourceText`, `TestScaffold.SourceText.ofString` — a text as bytes.
* `TestScaffold.SourceText.slice` — the text of a byte range.
* `TestScaffold.SourceText.line`, `TestScaffold.SourceText.column` — the place of an offset.

## Implementation notes

Lines and columns count from one. A column counts bytes, not characters.
-/

namespace TestScaffold

/-- A source text in its UTF-8 form. -/
structure SourceText where
  /-- The bytes of the text. -/
  bytes : ByteArray

namespace SourceText

/-- The source text of a string. -/
def ofString (s : String) : SourceText := ⟨s.toUTF8⟩

/-- The text between two byte offsets; empty if the range does not hold whole characters. -/
def slice (src : SourceText) (start stop : Nat) : String :=
  (String.fromUTF8? (src.bytes.extract start stop)).getD ""

/-- The bytes before an offset. -/
def before (src : SourceText) (offset : Nat) : List UInt8 :=
  src.bytes.data.toList.take offset

/-- The byte that ends a line. -/
def lineFeed : UInt8 := 10

/-- The line of an offset: one more than the number of line feeds before it. -/
def line (src : SourceText) (offset : Nat) : Nat :=
  (src.before offset).count lineFeed + 1

/-- The column of an offset: one more than the number of bytes since the last line feed before it. -/
def column (src : SourceText) (offset : Nat) : Nat :=
  ((src.before offset).reverse.takeWhile (· != lineFeed)).length + 1

end SourceText

end TestScaffold
