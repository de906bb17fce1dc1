import LabeledBlocks.Text.Graphic

/-!
# Quoted texts and lists

How names, numbers and lists of them stand inside a message.

* `quote` puts a text between double quotes and escapes what would not be readable there.
* `listing` writes a list between square brackets.
* `hexadecimal` writes a number in base sixteen with a least number of digits.
-/

namespace LabeledBlocks.Text

/-- The lowercase digits of `n` in base sixteen, filled up on the left to `width` digits. -/
def hexadecimal (width n : Nat) : String :=
  let digits := Nat.toDigits 16 n
  String.ofList (List.replicate (width - digits.length) '0' ++ digits)

/-- How a character stands inside a quoted text: the quote and the backslash take a backslash,
four control characters have a letter of their own, every other character that is not graphic
is given by its code point, and the rest stand for themselves. -/
def escape (c : Char) : String :=
  match c with
  | '\x00' => "\\0"
  | '\t' => "\\t"
  | '\r' => "\\r"
  | '\n' => "\\n"
  | '"' => "\\\""
  | '\\' => "\\\\"
  | _ => if isGraphic c then c.toString else "\\u\x7b" ++ hexadecimal 1 c.toNat ++ "\x7d"

def quote (text : String) : String :=
  "\"" ++ String.join (text.toList.map escape) ++ "\""

/-- A list between square brackets, its members written by `write`. -/
def listing {α : Type} (write : α → String) (members : List α) : String :=
  "[" ++ ", ".intercalate (members.map write) ++ "]"

def quotes (texts : List String) : String :=
  listing quote texts

def counts (numbers : List Nat) : String :=
  listing toString numbers

def integers (values : List Int32) : String :=
  listing (fun v => toString v.toInt) values

end LabeledBlocks.Text
