/-!
# Places in a text

Places and lengths count bytes of the UTF-8 form, as editors and terminals do.

## Main definitions

* `utf8Size` — the number of bytes of a text.
* `offsetOf?` — the place of the first occurrence of a text in another.
-/

namespace Bindery.Text

/-- The number of bytes of a text. -/
def utf8Size : List Char → Nat
  | [] => 0
  | c :: rest => c.utf8Size + utf8Size rest

/-- The place of the first occurrence of `needle`. -/
def offsetOf? (needle : List Char) : List Char → Option Nat
  | [] => if needle.isEmpty then some 0 else none
  | c :: rest =>
    if needle.isPrefixOf (c :: rest) then some 0
    else (offsetOf? needle rest).map (c.utf8Size + ·)

end Bindery.Text
