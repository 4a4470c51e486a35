import StoredProgram.Text.Emoji

/-! # Display width

How many columns of a terminal a text takes. Its characters take what they take alone, except where
neighbours are drawn as one sign, and where a selector asks for a character to be drawn as an emoji or as
text. A text is measured from its end to its start, since such a sign shows at its end.

A sequence that sets colours takes no column from its bracket to the letter `m`. Its characters are taken off one by
one, even if they are drawn as fewer signs, so there are texts that no width can be given (`width?`). -/

namespace StoredProgram.Text

/-! ### Signs and styles -/

/-- What has been met of a sign of several characters, from its end. -/
inductive Sign where
  | plain
  | ligature (l : Ligature)
  | emoji (e : Emoji)
  deriving DecidableEq

namespace Sign

/-- The sign of which a character may be the last one. -/
def ofChar (c : Char) : Sign :=
  match Ligature.ofChar? c, Emoji.ofChar? c with
  | some l, _ => ligature l
  | none, some e => emoji e
  | none, none => plain

/-- The columns that a character adds before a sign, and what has then been met. -/
def extend (s : Sign) (c : Char) : Int × Sign :=
  let alone := (Int.ofNat (charWidth c), ofChar c)
  match s with
  | plain => alone
  | ligature l => ((l.extend? c).map fun (w, l) => (w, l.elim plain ligature)).getD alone
  | emoji e => ((e.extend? c).map fun (w, e) => (w, emoji e)).getD alone

/-- Whether a sign goes on to the left with a character that is asked to be drawn as an emoji. -/
def isJoined : Sign → Bool
  | emoji e => e.isJoined
  | _ => false

/-- The sign if it is a ligature, which a selector inside does not break. -/
def ligatureOnly : Sign → Sign
  | ligature l => ligature l
  | _ => plain

end Sign

/-- How the character before a selector is to be drawn. -/
inductive Style where
  | unchanged
  | text
  | emoji
  deriving DecidableEq

/-- The selector that asks for a character to be drawn as text. -/
def textSelector : Char := '\ufe0e'

/-- The selector that asks for a character to be drawn as an emoji. -/
def emojiSelector : Char := '\ufe0f'

/-! ### Measuring -/

/-- What follows a character, as far as its width depends on it. -/
structure Following where
  sign : Sign := .plain
  style : Style := .unchanged
  deriving DecidableEq

namespace Following

/-- The columns that a character takes before what follows it, and what then follows the one before. All
    characters up to the no-break space take one column, control characters as well. -/
def advance (f : Following) (c : Char) : Int × Following :=
  if f.style = .emoji ∧ emojiVariation.contains c then
    (if f.sign.isJoined then 0 else 2, { sign := .emoji .sign })
  else if c ≤ '\u00a0' then (1, {})
  else
    let sign := if f.style = .emoji then f.sign.ligatureOnly else f.sign
    if c = emojiSelector then (0, ⟨if sign.isJoined then sign else sign.ligatureOnly, .emoji⟩)
    else if c = textSelector then (0, ⟨sign.ligatureOnly, .text⟩)
    else if f.style = .text ∧ narrowAsText c then (1, {})
    else
      let (columns, sign) := sign.extend c
      (columns, { sign })

/-- The columns of a text before what follows it, and what follows a character before the text. -/
def advanceAll (f : Following) (t : Text) : Int × Following :=
  t.foldr (fun c (columns, f) =>
    let (more, f) := f.advance c
    (columns + more, f)) (0, f)

theorem advanceAll_cons (f : Following) (c : Char) (t : Text) :
    f.advanceAll (c :: t) =
      ((f.advanceAll t).1 + ((f.advanceAll t).2.advance c).1, ((f.advanceAll t).2.advance c).2) := rfl

end Following

/-- The number of columns that the signs of a text take. -/
def columns (t : Text) : Int := (({} : Following).advanceAll t).1

/-! ### Colour sequences -/

/-- Where a character stands: outside of a colour sequence, just after an escape character, or inside. -/
inductive Escape where
  | outside
  | introduced
  | inside
  deriving DecidableEq

/-- Where the next character stands, and whether this one belongs to a sequence that takes no column. -/
def Escape.next : Escape → Char → Escape × Bool
  | outside, c => (if c = '\x1b' then introduced else outside, false)
  | introduced, c => if c = '[' then (inside, true) else (outside, false)
  | inside, c => (if c = 'm' then outside else inside, true)

/-- The number of columns that colour sequences hide: one for each of their characters that takes any. -/
def hiddenColumns (t : Text) : Nat :=
  (t.foldl (fun (state, count) c =>
    let (state, hidden) := Escape.next state c
    (state, if hidden && 0 < charWidth c then count + 1 else count)) (Escape.outside, 0)).2

/-- The number of columns that a text takes, unless its colour sequences hide more columns than its signs take. -/
def width? (t : Text) : Option Nat :=
  let taken := (columns t).toNat
  let hidden := hiddenColumns t
  if hidden ≤ taken then some (taken - hidden) else none

/-- The width of a text that has one. -/
def width (t : Text) : Nat := (width? t).getD 0

end StoredProgram.Text
