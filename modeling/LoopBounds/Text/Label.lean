/-
Labels in double quotes.

In a label a backslash takes the character after it for itself, so a text can
stand between quotes once its backslashes and quotes are escaped. `escapeLabel`
does that by two replacements, one after the other, and the second must not see
the backslashes of its own making: `toList_escapeLabel` says what both do to each
character.

A label is read in two steps. `scanLabel` finds the quote that closes it, and
`decodeLabel` turns what stands before that quote into text; it knows one more
escape, the letter `n` for a line break, and refuses all others.
-/

namespace LoopBounds.Text

/-- The text with a piece of text in place of each occurrence of a character. -/
def replaceChar (old : Char) (new text : List Char) : List Char :=
  text.flatMap fun c => if c = old then new else [c]

/-- The text as it stands in a label: its backslashes are doubled, and then its quotes get a
backslash in front. -/
def escapeLabel (s : String) : String :=
  String.ofList (replaceChar '"' ['\\', '"'] (replaceChar '\\' ['\\', '\\'] s.toList))

/-- A character of a label: a backslash and a quote get a backslash in front. -/
def labelChar (c : Char) : List Char :=
  if c = '\\' then ['\\', '\\']
  else if c = '"' then ['\\', '"']
  else [c]

/-- The second replacement leaves alone what the first put in. -/
theorem replaceChar_eq_labelChar (c : Char) :
    replaceChar '"' ['\\', '"'] (if c = '\\' then ['\\', '\\'] else [c]) = labelChar c := by
  rw [labelChar]
  split
  · rfl
  · exact List.flatMap_singleton _ c

theorem toList_escapeLabel (s : String) : (escapeLabel s).toList = s.toList.flatMap labelChar := by
  rw [escapeLabel, String.toList_ofList, replaceChar, replaceChar, List.flatMap_assoc]
  exact congrArg s.toList.flatMap (funext replaceChar_eq_labelChar)

/-- In the other order the backslash of an escaped quote is doubled, and the quote closes the
label. -/
example : replaceChar '\\' ['\\', '\\'] (replaceChar '"' ['\\', '"'] ['"']) =
    ['\\', '\\', '"'] := by
  decide

/-- Reads up to the closing quote: the label as it is written, and what follows the quote. -/
def scanLabel : List Char → Option (List Char × List Char)
  | [] => none
  | c :: rest =>
    if c = '"' then some ([], rest)
    else if c = '\\' then
      match rest with
      | [] => none
      | d :: rest => (scanLabel rest).map fun (label, after) => (c :: d :: label, after)
    else (scanLabel rest).map fun (label, after) => (c :: label, after)

@[simp] theorem scanLabel_quote (rest : List Char) : scanLabel ('"' :: rest) = some ([], rest) := by
  rw [scanLabel.eq_def]
  rfl

@[simp] theorem scanLabel_escape (d : Char) (rest : List Char) : scanLabel ('\\' :: d :: rest) =
    (scanLabel rest).map fun (label, after) => ('\\' :: d :: label, after) := by
  rw [scanLabel.eq_def]
  rfl

theorem scanLabel_plain {c : Char} (hquote : c ≠ '"') (hslash : c ≠ '\\') (rest : List Char) :
    scanLabel (c :: rest) = (scanLabel rest).map fun (label, after) => (c :: label, after) := by
  rw [scanLabel.eq_def]
  simp only [if_neg hquote, if_neg hslash]

/-- The character that an escaped one stands for, if it stands for one. -/
def unescapeLabel? (c : Char) : Option Char :=
  if c = '\\' || c = '"' then some c
  else if c = 'n' then some '\n'
  else none

/-- The text that a label stands for; none if an escape in it is not known. -/
def decodeLabel : List Char → Option (List Char)
  | [] => some []
  | c :: rest =>
    if c = '\\' then
      match rest with
      | [] => none
      | d :: rest => do return (← unescapeLabel? d) :: (← decodeLabel rest)
    else (decodeLabel rest).map (c :: ·)

@[simp] theorem decodeLabel_escape (d : Char) (rest : List Char) :
    decodeLabel ('\\' :: d :: rest) = do return (← unescapeLabel? d) :: (← decodeLabel rest) := by
  rw [decodeLabel.eq_def]
  rfl

theorem decodeLabel_plain {c : Char} (hslash : c ≠ '\\') (rest : List Char) :
    decodeLabel (c :: rest) = (decodeLabel rest).map (c :: ·) := by
  rw [decodeLabel.eq_def]
  simp only [if_neg hslash]

end LoopBounds.Text
